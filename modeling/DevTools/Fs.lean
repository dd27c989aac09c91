import Mathlib
import DevTools.PosixPath

/-!
# The file system

The scripts read and change a tree of files and directories through `os` calls. A file system
`Fs` is the list of its entries, each with its names from the root and its kind; the root is a
directory and is not listed. A call resolves a path string as the kernel does (`lookup`):
component by component from the root or from the working directory, where every component
before the last must name an existing directory. Symbolic links are not modelled.

`WF` is what every file system the scripts see satisfies: entries are unique, their names are
names, and the parent of each is a directory. The facts proved here are that a path the kernel
finds names the entry its lexical resolution gives (`lookup_eq_resolve`), that a trailing slash
only adds the condition that the entry is a directory (`lookup_append_slash`), and that the
names `os.scandir` lists are unique (`nodup_names`). Conversely, a path with no `..` component
that resolves lexically to a directory is found there by the kernel (`lookup_of_isDir_resolve`),
and an absolute path is found from any working directory (`lookup_of_isabs`). The updates
`remove`, `removeTree` and `writeFile` keep a file system well formed (`wf_remove`,
`wf_removeTree`, `wf_writeFile`).
-/

namespace DevTools

/-- The kind of an entry. -/
inductive Kind where
  | file
  | dir
  deriving DecidableEq, Repr, Inhabited

/-- A file system: its entries, each with its names from the root and its kind. -/
structure Fs where
  entries : List (List (List Char) × Kind)
  deriving DecidableEq, Repr

namespace Fs

/-- The kind of the entry with the names `e`, if it exists; the root is a directory. -/
def kind? (fs : Fs) (e : List (List Char)) : Option Kind :=
  if e = [] then some .dir else (fs.entries.find? (·.1 = e)).map (·.2)

/-- Whether the entry `e` exists and is a directory. -/
def isDir (fs : Fs) (e : List (List Char)) : Bool := fs.kind? e = some .dir

/-- The name of `p` in the directory `e`, if `p` is an entry of it. -/
def childOf (e p : List (List Char)) : Option (List Char) :=
  match p.getLast? with
  | some n => if p.dropLast = e then some n else none
  | none => none

/-- The names of the entries of the directory `e`, of its subdirectories only if `dironly`, in
the order the file system keeps them. -/
def names (fs : Fs) (e : List (List Char)) (dironly : Bool) : List (List Char) :=
  (fs.entries.filter fun x => !dironly || x.2 = .dir).filterMap fun x => childOf e x.1

/-- The kernel's walk over the components of a path from the directory `cur`: `.` and empty
components stay, `..` goes to the parent (the root is its own parent), and every name before
the last must be a directory. -/
def osWalk (fs : Fs) (cur : List (List Char)) : List (List Char) → Option (List (List Char))
  | [] => some cur
  | c :: cs =>
    if c = [] ∨ c = ['.'] then fs.osWalk cur cs
    else if c = ['.', '.'] then fs.osWalk cur.dropLast cs
    else if cs = [] then (fs.kind? (cur ++ [c])).map fun _ => cur ++ [c]
    else if fs.isDir (cur ++ [c]) then fs.osWalk (cur ++ [c]) cs
    else none

/-- The entry the path `p` names from the working directory `cwd`, if it exists; the empty path
names nothing. -/
def lookup (fs : Fs) (cwd : List (List Char)) (p : List Char) : Option (List (List Char)) :=
  if p = [] then none else fs.osWalk (if isabs p then [] else cwd) (p.splitOn '/')

/-- `os.path.exists(p)`, which is also `os.path.lexists(p)` here. -/
def pathExists (fs : Fs) (cwd : List (List Char)) (p : List Char) : Bool :=
  (fs.lookup cwd p).isSome

/-- `os.path.isdir(p)`. -/
def pathIsDir (fs : Fs) (cwd : List (List Char)) (p : List Char) : Bool :=
  match fs.lookup cwd p with
  | some e => fs.isDir e
  | none => false

/-- `os.scandir(p)` as `glob` reads it: the names in the directory `p`, none when `p` is not a
directory (the `OSError` is swallowed). -/
def listdir (fs : Fs) (cwd : List (List Char)) (p : List Char) (dironly : Bool) :
    List (List Char) :=
  match fs.lookup cwd p with
  | some e => if fs.isDir e then fs.names e dironly else []
  | none => []

/-- Remove the entry `e` alone. -/
def remove (fs : Fs) (e : List (List Char)) : Fs := ⟨fs.entries.filter (·.1 ≠ e)⟩

/-- Remove the entry `e` and everything under it. -/
def removeTree (fs : Fs) (e : List (List Char)) : Fs := ⟨fs.entries.filter fun x => ¬ e <+: x.1⟩

/-- Create the file `e`, or empty it if it is one. -/
def writeFile (fs : Fs) (e : List (List Char)) : Fs := ⟨(fs.remove e).entries ++ [(e, .file)]⟩

/-- The entry a new file or directory at `path` gets: a name in a directory that exists. -/
def createTarget (fs : Fs) (cwd : List (List Char)) (path : List Char) :
    Option (List (List Char)) :=
  let (dir, name) := split path
  if IsName name then
    match (if dir = [] then some cwd else fs.lookup cwd dir) with
    | some e => if fs.isDir e then some (e ++ [name]) else none
    | none => none
  else none

/-- The file system once the tree `e` is renamed `t`, over the entry `t` held. -/
def moveTree (fs : Fs) (e t : List (List Char)) : Fs :=
  ⟨(fs.entries.filter (·.1 ≠ t)).map fun x =>
    if e <+: x.1 then (t ++ x.1.drop e.length, x.2) else x⟩

/-- `rename(2)`: the entry `src` names moves, with everything under it, to the name `dst` gives
in a directory that exists, over a file or an empty directory there; `none` where rename fails
(no such entry, the root, a directory into itself, a file onto a directory, a directory onto a
file or onto a directory that is not empty). -/
def rename (fs : Fs) (cwd : List (List Char)) (src dst : List Char) : Option Fs :=
  match fs.lookup cwd src, fs.createTarget cwd dst with
  | some e, some t =>
    if e = t then some fs
    else if e = [] ∨ e <+: t then none
    else match fs.kind? e, fs.kind? t with
      | some .file, some .dir => none
      | some .dir, some .file => none
      | some .dir, some .dir => if fs.names t false = [] then some (fs.moveTree e t) else none
      | _, _ => some (fs.moveTree e t)
  | _, _ => none

/-- What every file system the scripts see satisfies. -/
structure WF (fs : Fs) : Prop where
  nodup : (fs.entries.map Prod.fst).Nodup
  names : ∀ x ∈ fs.entries, ∀ n ∈ x.1, IsName n
  parent : ∀ x ∈ fs.entries, x.1 ≠ [] ∧ fs.isDir x.1.dropLast

instance (fs : Fs) : Decidable fs.WF :=
  decidable_of_iff ((fs.entries.map Prod.fst).Nodup ∧ (∀ x ∈ fs.entries, ∀ n ∈ x.1, IsName n) ∧
      ∀ x ∈ fs.entries, x.1 ≠ [] ∧ fs.isDir x.1.dropLast = true)
    ⟨fun ⟨a, b, c⟩ => ⟨a, b, c⟩, fun ⟨a, b, c⟩ => ⟨a, b, c⟩⟩

/-! ## Entries -/

variable {fs : Fs}

@[simp] theorem kind?_nil : fs.kind? [] = some .dir := rfl

@[simp] theorem isDir_nil : fs.isDir [] = true := rfl

theorem kind?_of_mem (h : fs.WF) {x : List (List Char) × Kind} (hx : x ∈ fs.entries) :
    fs.kind? x.1 = some x.2 := by
  have hs : (fs.entries.find? (·.1 = x.1)).isSome := List.find?_isSome.2 ⟨x, hx, by simp⟩
  cases hy : fs.entries.find? (·.1 = x.1) with
  | none => simp [hy] at hs
  | some y =>
    have hyx : y.1 = x.1 := by simpa using List.find?_some hy
    rw [List.inj_on_of_nodup_map h.nodup (List.mem_of_find?_eq_some hy) hx hyx] at hy
    simp [kind?, (h.parent x hx).1, hy]

theorem mem_of_kind?_eq_some {e : List (List Char)} {k : Kind} (he : e ≠ [])
    (h : fs.kind? e = some k) : (e, k) ∈ fs.entries := by
  simp only [kind?, if_neg he, Option.map_eq_some'] at h
  obtain ⟨y, hy, rfl⟩ := h
  have hye : y.1 = e := by simpa using List.find?_some hy
  exact hye ▸ List.mem_of_find?_eq_some hy

theorem isDir_dropLast (h : fs.WF) {e : List (List Char)} (he : fs.isDir e) :
    fs.isDir e.dropLast := by
  rcases eq_or_ne e [] with rfl | hne
  · rfl
  · exact (h.parent _ (mem_of_kind?_eq_some hne (by simpa [isDir] using he))).2

theorem childOf_eq_some {e p : List (List Char)} {n : List Char} :
    childOf e p = some n ↔ p = e ++ [n] := by
  constructor
  · intro h
    unfold childOf at h
    cases hl : p.getLast? with
    | none => simp [hl] at h
    | some m =>
      rw [hl] at h
      split_ifs at h with hp
      cases h
      rw [← List.dropLast_append_getLast? n hl, hp]
  · rintro rfl
    simp [childOf, List.getLast?_concat, List.dropLast_concat]

theorem mem_names {e : List (List Char)} {n : List Char} :
    n ∈ fs.names e false ↔ ∃ k, (e ++ [n], k) ∈ fs.entries := by
  simp [names, childOf_eq_some]

theorem mem_names_dir {e : List (List Char)} {n : List Char} :
    n ∈ fs.names e true ↔ (e ++ [n], Kind.dir) ∈ fs.entries := by
  simp only [names, List.mem_filterMap, List.mem_filter, childOf_eq_some]
  constructor
  · rintro ⟨⟨p, k⟩, ⟨hx, hk⟩, rfl⟩
    obtain rfl : k = .dir := by simpa using hk
    exact hx
  · exact fun h => ⟨_, ⟨h, by simp⟩, rfl⟩

theorem nodup_names (h : fs.WF) (e : List (List Char)) (dironly : Bool) :
    (fs.names e dironly).Nodup := by
  have hsub : ((fs.entries.filter fun x => !dironly || x.2 = .dir).map Prod.fst).Nodup :=
    h.nodup.sublist ((List.filter_sublist _).map _)
  rw [names, ← Function.comp_def (childOf e) Prod.fst, ← List.filterMap_map]
  exact hsub.filterMap fun p q n hp hq => by
    rw [Option.mem_def, childOf_eq_some] at hp hq
    rw [hp, hq]

theorem kind?_eq_some_iff (hnd : (fs.entries.map Prod.fst).Nodup) {e : List (List Char)}
    (he : e ≠ []) {k : Kind} : fs.kind? e = some k ↔ (e, k) ∈ fs.entries := by
  refine ⟨mem_of_kind?_eq_some he, fun hx => ?_⟩
  have hs : (fs.entries.find? (·.1 = e)).isSome := List.find?_isSome.2 ⟨_, hx, by simp⟩
  obtain ⟨y, hy⟩ := Option.isSome_iff_exists.1 hs
  have hye : y.1 = e := by simpa using List.find?_some hy
  rw [List.inj_on_of_nodup_map hnd (List.mem_of_find?_eq_some hy) hx hye] at hy
  simp [kind?, he, hy]

theorem kind_eq_of_mem (hnd : (fs.entries.map Prod.fst).Nodup) {e : List (List Char)}
    {k k' : Kind} (hk : (e, k) ∈ fs.entries) (hk' : (e, k') ∈ fs.entries) : k = k' :=
  (Prod.mk.inj (List.inj_on_of_nodup_map hnd hk hk' rfl)).2

/-- Every entry above a directory is a directory. -/
theorem isDir_of_prefix_of_isDir (h : fs.WF) {e y : List (List Char)} (hp : e <+: y)
    (hy : fs.isDir y) : fs.isDir e := by
  obtain ⟨r, rfl⟩ := hp
  induction r using List.reverseRecOn with
  | nil => simpa using hy
  | append_singleton r a ih =>
    apply ih
    simpa [← List.append_assoc] using isDir_dropLast h hy

/-- The entries above an entry are directories. -/
theorem mem_dir_of_mem_append (h : fs.WF) {E r : List (List Char)} {d : List Char} {k : Kind}
    (hx : (E ++ d :: r, k) ∈ fs.entries) (hr : r ≠ []) : (E ++ [d], Kind.dir) ∈ fs.entries := by
  have hsub : E ++ [d] <+: (E ++ d :: r).dropLast := by
    rw [List.dropLast_append_of_ne_nil _ (List.cons_ne_nil _ _), List.prefix_append_right_inj,
      List.dropLast_cons_of_ne_nil hr]
    exact ⟨r.dropLast, rfl⟩
  exact mem_of_kind?_eq_some (by simp)
    (by simpa [isDir] using isDir_of_prefix_of_isDir h hsub (h.parent _ hx).2)

/-- No directory lies under a file. -/
theorem not_prefix_of_file (h : fs.WF) {e y : List (List Char)} (he : (e, .file) ∈ fs.entries)
    (hy : fs.isDir y) : ¬ e <+: y := fun hp => by
  have hd := isDir_of_prefix_of_isDir h hp hy
  simp [isDir, kind?_of_mem h he] at hd

/-- A path that starts with a file and whose parent is a directory is that file. -/
theorem eq_of_prefix_of_file (h : fs.WF) {e y : List (List Char)} (he : (e, .file) ∈ fs.entries)
    (hp : e <+: y) (hy : fs.isDir y.dropLast) : y = e := by
  by_contra hne
  have hlt : e.length < y.length :=
    lt_of_le_of_ne hp.length_le fun hl => hne (hp.eq_of_length hl).symm
  refine not_prefix_of_file h he hy (List.prefix_of_prefix_length_le hp (List.dropLast_prefix y) ?_)
  simp only [List.length_dropLast]
  omega

/-- The depth of an entry is at most the number of entries: each of its ancestors is one. -/
theorem length_le_length_entries (h : fs.WF) {x : List (List Char) × Kind} (hx : x ∈ fs.entries) :
    x.1.length ≤ fs.entries.length := by
  have hnd : ((List.range x.1.length).map fun i => x.1.take (i + 1)).Nodup :=
    List.Nodup.map_on (fun i hi j hj hij => by
      have := congrArg List.length hij
      simp only [List.mem_range] at hi hj
      simp only [List.length_take] at this
      omega) (List.nodup_range _)
  have hsub : ((List.range x.1.length).map fun i => x.1.take (i + 1)) ⊆ fs.entries.map Prod.fst := by
    intro p hp
    obtain ⟨i, hi, rfl⟩ := List.mem_map.1 hp
    have hi : i < x.1.length := List.mem_range.1 hi
    by_cases hl : i + 1 = x.1.length
    · rw [hl, List.take_length]
      exact List.mem_map_of_mem _ hx
    · have hd : fs.isDir (x.1.take (i + 1)) := isDir_of_prefix_of_isDir h
        (List.prefix_of_prefix_length_le (List.take_prefix _ _) (List.dropLast_prefix _)
          (by simp only [List.length_take, List.length_dropLast]; omega)) (h.parent x hx).2
      have hne : x.1.take (i + 1) ≠ [] := List.ne_nil_of_length_pos (by simp; omega)
      exact List.mem_map_of_mem Prod.fst (mem_of_kind?_eq_some hne (by simpa [isDir] using hd))
  simpa using (hnd.subperm hsub).length_le

/-! ## Paths -/

theorem normStep_skip {c : List Char} (hc : c = [] ∨ c = ['.']) (b : Bool)
    (stack : List (List Char)) : normStep b stack c = stack := by
  simp [normStep, hc]

theorem normStep_dotdot {stack : List (List Char)} (hs : ∀ n ∈ stack, IsName n) :
    normStep true stack ['.', '.'] = stack.tail := by
  have : stack.head? ≠ some ['.', '.'] := fun h =>
    (hs _ (List.mem_of_mem_head? h)).2.2.2 rfl
  simp [normStep, this]

/-- Where the kernel's walk succeeds, it ends at the entry the lexical resolution names. -/
theorem osWalk_eq_walk : ∀ (cs : List (List Char)) {cur e : List (List Char)},
    (∀ n ∈ cur, IsName n) → (∀ c ∈ cs, '/' ∉ c) → fs.osWalk cur cs = some e →
      e = (cs.foldl (normStep true) cur.reverse).reverse
  | [], cur, e, _, _, h => by
    simp only [osWalk, Option.some.injEq] at h
    simp [h]
  | c :: cs, cur, e, hcur, hcs, h => by
    have hcs' : ∀ c ∈ cs, '/' ∉ c := fun d hd => hcs d (List.mem_cons_of_mem c hd)
    rw [List.foldl_cons]
    unfold osWalk at h
    split_ifs at h with h1 h2 h3 h4
    · rw [normStep_skip h1]
      exact osWalk_eq_walk cs hcur hcs' h
    · rw [h2, normStep_dotdot fun n hn => hcur n (List.mem_reverse.1 hn), List.tail_reverse]
      exact osWalk_eq_walk cs (fun n hn => hcur n (List.mem_of_mem_dropLast hn)) hcs' h
    · have hc : IsName c := ⟨fun h => h1 (.inl h), hcs c (List.mem_cons_self c cs),
        fun h => h1 (.inr h), h2⟩
      obtain ⟨_, -, rfl⟩ := Option.map_eq_some'.1 h
      simp [h3, normStep_name hc]
    · have hc : IsName c := ⟨fun h => h1 (.inl h), hcs c (List.mem_cons_self c cs),
        fun h => h1 (.inr h), h2⟩
      rw [normStep_name hc, ← List.reverse_concat]
      refine osWalk_eq_walk cs (fun n hn => ?_) hcs' h
      rcases List.mem_append.1 hn with hn | hn
      · exact hcur n hn
      · exact List.mem_singleton.1 hn ▸ hc

/-- A path the kernel finds names the entry `resolve` gives. -/
theorem lookup_eq_resolve {cwd : List (List Char)} (hcwd : ∀ n ∈ cwd, IsName n)
    {p : List Char} {e : List (List Char)} (h : fs.lookup cwd p = some e) : e = resolve cwd p := by
  unfold lookup at h
  split_ifs at h with hp hab
  · exact osWalk_eq_walk _ (by simp) (fun _ hc => not_mem_of_mem_splitOn hc) h |>.trans
      (by simp [resolve, hab])
  · exact osWalk_eq_walk _ hcwd (fun _ hc => not_mem_of_mem_splitOn hc) h |>.trans
      (by simp [resolve, hab])

/-- A trailing empty component only asks that the entry reached be a directory. -/
theorem osWalk_append_nil (h : fs.WF) : ∀ (cs : List (List Char)) {cur : List (List Char)},
    fs.isDir cur → fs.osWalk cur (cs ++ [[]]) = (fs.osWalk cur cs).filter fs.isDir
  | [], cur, hcur => by simp [osWalk, Option.filter_some, hcur]
  | c :: cs, cur, hcur => by
    rw [List.cons_append]
    by_cases h1 : c = [] ∨ c = ['.']
    · simp only [osWalk, if_pos h1]
      exact osWalk_append_nil h cs hcur
    by_cases h2 : c = ['.', '.']
    · simp only [osWalk, if_neg h1, if_pos h2]
      exact osWalk_append_nil h cs (isDir_dropLast h hcur)
    have hne : cs ++ [[]] ≠ [] := by simp
    simp only [osWalk, if_neg h1, if_neg h2, if_neg hne]
    rcases eq_or_ne cs [] with rfl | hcs
    · cases hk : fs.kind? (cur ++ [c]) with
      | none => simp [isDir, hk]
      | some k => cases k <;> simp [isDir, hk, osWalk, Option.filter_some]
    · rw [if_neg hcs]
      split_ifs with hd
      · exact osWalk_append_nil h cs hd
      · rfl

theorem lookup_append_slash (h : fs.WF) {cwd : List (List Char)} (hcwd : fs.isDir cwd)
    {p : List Char} (hp : p ≠ []) :
    fs.lookup cwd (p ++ ['/']) = (fs.lookup cwd p).filter fs.isDir := by
  have hs : (p ++ ['/']).splitOn '/' = p.splitOn '/' ++ [[]] := splitOn_append_slash p []
  have hp' : p ++ ['/'] ≠ [] := by simp
  rw [lookup, lookup, if_neg hp', if_neg hp, isabs_append hp, hs]
  split_ifs
  · exact osWalk_append_nil h _ isDir_nil
  · exact osWalk_append_nil h _ hcwd

theorem lookup_append_replicate (h : fs.WF) {cwd : List (List Char)} (hcwd : fs.isDir cwd)
    {p : List Char} (hp : p ≠ []) :
    ∀ k, fs.lookup cwd (p ++ List.replicate (k + 1) '/') = (fs.lookup cwd p).filter fs.isDir
  | 0 => lookup_append_slash h hcwd hp
  | k + 1 => by
    rw [List.replicate_succ', ← List.append_assoc, lookup_append_slash h hcwd (by simp [hp]),
      lookup_append_replicate h hcwd hp k]
    cases fs.lookup cwd p with
    | none => rfl
    | some a => by_cases ha : fs.isDir a <;> simp [Option.filter_some, ha]

/-- The directory part `os.path.split` keeps of a path that ends in a slash names the same
entry. -/
theorem lookup_split_head (h : fs.WF) {cwd : List (List Char)} (hcwd : fs.isDir cwd)
    {a : List Char} {e : List (List Char)} (he : fs.lookup cwd (a ++ ['/']) = some e) :
    fs.lookup cwd (if (a ++ ['/']).all (· = '/') then a ++ ['/'] else rstripSlash (a ++ ['/'])) =
      some e := by
  split_ifs with hall
  · exact he
  · have hk : 0 < ((a ++ ['/']).reverse.takeWhile (· = '/')).length := by simp
    obtain ⟨k, hk'⟩ := Nat.exists_eq_add_of_lt hk
    have hr : rstripSlash (a ++ ['/']) ≠ [] := fun hr => hall <| by
      rw [← rstripSlash_append (a ++ ['/']), hr, List.nil_append, List.all_eq_true]
      simp
    rw [← rstripSlash_append (a ++ ['/']), hk', Nat.zero_add,
      lookup_append_replicate h hcwd hr] at he
    exact (Option.filter_eq_some.1 he).1

/-! ## Names in a directory -/

theorem osWalk_name {d : List Char} (hd : IsName d) (cur : List (List Char)) :
    fs.osWalk cur [d] = (fs.kind? (cur ++ [d])).map fun _ => cur ++ [d] := by
  simp [osWalk, hd.1, hd.2.2.1, hd.2.2.2]

/-- Walking one more name from the directory a walk reached. -/
theorem osWalk_append_name {d : List Char} (hd : IsName d) :
    ∀ (cs : List (List Char)) {cur E : List (List Char)}, fs.osWalk cur cs = some E → fs.isDir E →
      fs.osWalk cur (cs ++ [d]) = (fs.kind? (E ++ [d])).map fun _ => E ++ [d]
  | [], cur, E, h, _ => by
    obtain rfl := Option.some.inj h
    exact osWalk_name hd cur
  | c :: cs, cur, E, h, hE => by
    rw [List.cons_append]
    unfold osWalk at h ⊢
    by_cases h1 : c = [] ∨ c = ['.']
    · rw [if_pos h1] at h ⊢
      exact osWalk_append_name hd cs h hE
    rw [if_neg h1] at h ⊢
    by_cases h2 : c = ['.', '.']
    · rw [if_pos h2] at h ⊢
      exact osWalk_append_name hd cs h hE
    rw [if_neg h2] at h ⊢
    rw [if_neg (by simp)]
    rcases eq_or_ne cs [] with rfl | hcs
    · rw [if_pos rfl] at h
      obtain ⟨_, -, rfl⟩ := Option.map_eq_some'.1 h
      rw [if_pos hE]
      exact osWalk_name hd _
    · rw [if_neg hcs] at h
      split_ifs at h ⊢
      exact osWalk_append_name hd cs h hE

theorem lookup_join_slash (h : fs.WF) {cwd : List (List Char)} (hcwd : fs.isDir cwd)
    {top d : List Char} {E : List (List Char)} (hd : isabs d = false)
    (hE : fs.lookup cwd top = some E) (hdir : fs.isDir E) :
    ∃ a, join top d = a ++ '/' :: d ∧ fs.lookup cwd (a ++ ['/']) = some E := by
  have htop : top ≠ [] := by rintro rfl; simp [lookup] at hE
  obtain ⟨a, hj, ha⟩ := join_eq_append_slash htop hd
  refine ⟨a, hj, ?_⟩
  rcases ha with ha | rfl
  · rwa [ha]
  · rw [lookup_append_slash h hcwd htop, hE, Option.filter_some, if_pos hdir]

/-- A name joined to the path of a directory names the entry of that name in it. -/
theorem lookup_join_name (h : fs.WF) {cwd : List (List Char)} (hcwd : fs.isDir cwd)
    {top d : List Char} {E : List (List Char)} (hd : IsName d) (hE : fs.lookup cwd top = some E)
    (hdir : fs.isDir E) :
    fs.lookup cwd (join top d) = (fs.kind? (E ++ [d])).map fun _ => E ++ [d] := by
  obtain ⟨a, hj, hslash⟩ := lookup_join_slash h hcwd (isabs_of_isName hd) hE hdir
  have hstart : fs.isDir (if isabs (a ++ ['/']) then [] else cwd) := by split_ifs <;> simp [hcwd]
  unfold lookup at hslash ⊢
  rw [hj, if_neg (by simp), splitOn_append_slash, splitOn_of_not_mem hd.2.1,
    isabs_append_slash a d []]
  rw [if_neg (by simp), splitOn_append_slash, show ([] : List Char).splitOn '/' = [[]] from rfl,
    osWalk_append_nil h _ hstart] at hslash
  exact osWalk_append_name hd _ (Option.filter_eq_some.1 hslash).1 hdir

/-- `os.path.isdir` of a name joined to the path of a directory. -/
theorem pathIsDir_join_name (h : fs.WF) {cwd : List (List Char)} (hcwd : fs.isDir cwd)
    {top d : List Char} {E : List (List Char)} (hd : IsName d) (hE : fs.lookup cwd top = some E)
    (hdir : fs.isDir E) : fs.pathIsDir cwd (join top d) = fs.isDir (E ++ [d]) := by
  rw [pathIsDir, lookup_join_name h hcwd hd hE hdir]
  cases hk : fs.kind? (E ++ [d]) <;> simp [isDir, hk]

/-- A new name joined to the path of a directory is a name in it. -/
theorem createTarget_join_name (h : fs.WF) {cwd : List (List Char)} (hcwd : fs.isDir cwd)
    {top n : List Char} {E : List (List Char)} (hn : IsName n) (hE : fs.lookup cwd top = some E)
    (hdir : fs.isDir E) : fs.createTarget cwd (join top n) = some (E ++ [n]) := by
  obtain ⟨a, hj, hslash⟩ := lookup_join_slash h hcwd (isabs_of_isName hn) hE hdir
  have hhead := lookup_split_head h hcwd hslash
  have hne : (if (a ++ ['/']).all (· = '/') then a ++ ['/'] else rstripSlash (a ++ ['/'])) ≠ [] :=
    fun h0 => by rw [h0] at hhead; simp [lookup] at hhead
  unfold createTarget
  rw [hj, split_append_slash a hn.2.1]
  dsimp only
  rw [if_pos hn, if_neg hne, hhead]
  simp [hdir]

/-! ## Paths of no `..` -/

/-- Components other than `..` only go down from where the walk started. -/
theorem prefix_foldl_normStep : ∀ {cs : List (List Char)} (stack : List (List Char)),
    (∀ c ∈ cs, c ≠ ['.', '.']) → stack.reverse <+: (cs.foldl (normStep true) stack).reverse
  | [], _, _ => List.prefix_refl _
  | c :: cs, stack, h => by
    rw [List.foldl_cons]
    refine List.IsPrefix.trans ?_
      (prefix_foldl_normStep _ fun d hd => h d (List.mem_cons_of_mem c hd))
    unfold normStep
    split_ifs with h1 h2
    · exact List.prefix_refl _
    · simp
    · exact absurd (not_not.1 (not_or.1 h2).1) (h c (List.mem_cons_self c cs))

/-- A walk that takes no `..` reaches every directory it names. -/
theorem osWalk_of_isDir (h : fs.WF) : ∀ (cs cur : List (List Char)),
    (∀ c ∈ cs, c ≠ ['.', '.']) → fs.isDir (cs.foldl (normStep true) cur.reverse).reverse →
      fs.osWalk cur cs = some (cs.foldl (normStep true) cur.reverse).reverse
  | [], cur, _, _ => by simp [osWalk]
  | c :: cs, cur, h0, hd => by
    have h0' : ∀ d ∈ cs, d ≠ ['.', '.'] := fun d hd => h0 d (List.mem_cons_of_mem c hd)
    have hc := h0 c (List.mem_cons_self c cs)
    rw [List.foldl_cons] at hd ⊢
    unfold osWalk
    by_cases h1 : c = [] ∨ c = ['.']
    · rw [if_pos h1]
      rw [normStep_skip h1] at hd ⊢
      exact osWalk_of_isDir h cs cur h0' hd
    have hpush : normStep true cur.reverse c = (cur ++ [c]).reverse := by
      rw [normStep, if_neg h1, if_pos (.inl hc), List.reverse_append]
      rfl
    rw [if_neg h1, if_neg hc]
    rw [hpush] at hd ⊢
    have hpre : cur ++ [c] <+: (cs.foldl (normStep true) (cur ++ [c]).reverse).reverse := by
      simpa using prefix_foldl_normStep (cur ++ [c]).reverse h0'
    rcases eq_or_ne cs [] with rfl | hcs
    · simp only [List.foldl_nil, List.reverse_reverse, isDir, decide_eq_true_eq] at hd ⊢
      simp [hd]
    · rw [if_neg hcs, if_pos (isDir_of_prefix_of_isDir h hpre hd)]
      exact osWalk_of_isDir h cs _ h0' hd

/-- A path of no `..` that names a directory leads the kernel to it. -/
theorem lookup_of_isDir_resolve (h : fs.WF) {cwd : List (List Char)} {p : List Char}
    (hp : p ≠ []) (h0 : NoDotDot p) (hd : fs.isDir (resolve cwd p)) :
    fs.lookup cwd p = some (resolve cwd p) := by
  rw [resolve] at hd ⊢
  rw [lookup, if_neg hp]
  split_ifs at hd ⊢
  · simpa using osWalk_of_isDir h _ [] h0 (by simpa using hd)
  · exact osWalk_of_isDir h _ _ h0 hd

/-- `os.path.isdir(p)` holds of the entry `p` resolves to. -/
theorem isDir_resolve_of_pathIsDir {cwd : List (List Char)} (hcwd : ∀ n ∈ cwd, IsName n)
    {p : List Char} (h : fs.pathIsDir cwd p) : fs.isDir (resolve cwd p) := by
  unfold pathIsDir at h
  cases he : fs.lookup cwd p with
  | none => simp [he] at h
  | some e =>
    rw [he] at h
    rwa [← lookup_eq_resolve hcwd he]

theorem pathExists_of_pathIsDir {cwd : List (List Char)} {p : List Char}
    (h : fs.pathIsDir cwd p) : fs.pathExists cwd p := by
  unfold pathIsDir at h
  unfold pathExists
  split at h <;> simp_all

/-- An absolute path does not read the working directory. -/
theorem lookup_of_isabs {p : List Char} (hp : isabs p) (c c' : List (List Char)) :
    fs.lookup c p = fs.lookup c' p := by
  simp only [lookup, hp, if_true]

theorem createTarget_of_isabs {p : List Char} (hp : isabs p) (c c' : List (List Char)) :
    fs.createTarget c p = fs.createTarget c' p := by
  have hd := isabs_split_fst hp
  rcases hs : split p with ⟨d, n⟩
  rw [hs] at hd
  have hne : d ≠ [] := by rintro rfl; simp [isabs] at hd
  simp only [createTarget, hs, if_neg hne, lookup_of_isabs hd c c']

/-! ## Updates -/

theorem isDir_iff (hnd : (fs.entries.map Prod.fst).Nodup) {e : List (List Char)} :
    fs.isDir e = true ↔ e = [] ∨ (e, Kind.dir) ∈ fs.entries := by
  rcases eq_or_ne e [] with rfl | he
  · simp
  · simp [isDir, he, kind?_eq_some_iff hnd he]

theorem isDir_eq_false (hnd : (fs.entries.map Prod.fst).Nodup) {e : List (List Char)}
    (he : e ≠ []) (hm : (e, Kind.dir) ∉ fs.entries) : fs.isDir e = false :=
  Bool.eq_false_iff.2 fun hd => ((isDir_iff hnd).1 hd).elim he hm

/-- A directory stays a directory in a file system that keeps its entry. -/
theorem isDir_mono (hnd : (fs.entries.map Prod.fst).Nodup) {fs' : Fs}
    (hnd' : (fs'.entries.map Prod.fst).Nodup) {e : List (List Char)} (he : fs.isDir e)
    (hmem : (e, Kind.dir) ∈ fs.entries → (e, Kind.dir) ∈ fs'.entries) : fs'.isDir e := by
  rcases (isDir_iff hnd).1 he with rfl | hm
  · rfl
  · exact (isDir_iff hnd').2 (.inr (hmem hm))

/-- The names of a directory are names. -/
theorem names_of_isDir (h : fs.WF) {e : List (List Char)} (he : fs.isDir e) : ∀ n ∈ e, IsName n := by
  rcases (isDir_iff h.nodup).1 he with rfl | hm
  · simp
  · exact h.names _ hm

@[simp] theorem mem_remove {e : List (List Char)} {x : List (List Char) × Kind} :
    x ∈ (fs.remove e).entries ↔ x ∈ fs.entries ∧ x.1 ≠ e := by
  simp [remove]

@[simp] theorem mem_removeTree {e : List (List Char)} {x : List (List Char) × Kind} :
    x ∈ (fs.removeTree e).entries ↔ x ∈ fs.entries ∧ ¬ e <+: x.1 := by
  simp [removeTree]

@[simp] theorem mem_writeFile {e : List (List Char)} {x : List (List Char) × Kind} :
    x ∈ (fs.writeFile e).entries ↔ (x ∈ fs.entries ∧ x.1 ≠ e) ∨ x = (e, .file) := by
  simp [writeFile]

/-- Keeping the entries a test passes leaves a well-formed file system when the test passes the
parent directory of each entry it passes. -/
theorem wf_filter (h : fs.WF) {p : List (List Char) × Kind → Bool}
    (hp : ∀ x ∈ fs.entries, p x → x.1.dropLast ≠ [] → p (x.1.dropLast, .dir)) :
    (⟨fs.entries.filter p⟩ : Fs).WF := by
  have hnd : ((fs.entries.filter p).map Prod.fst).Nodup :=
    h.nodup.sublist ((List.filter_sublist _).map _)
  refine ⟨hnd, fun x hx => h.names x (List.mem_of_mem_filter hx), fun x hx => ?_⟩
  obtain ⟨hx, hpx⟩ := List.mem_filter.1 hx
  refine ⟨(h.parent x hx).1, ?_⟩
  rcases eq_or_ne x.1.dropLast [] with h0 | h0
  · simp [h0]
  · have hmem := mem_of_kind?_eq_some h0 (by simpa [isDir] using (h.parent x hx).2)
    exact (isDir_iff hnd).2 (.inr (List.mem_filter.2 ⟨hmem, hp x hx hpx h0⟩))

theorem wf_removeTree (h : fs.WF) (e : List (List Char)) : (fs.removeTree e).WF :=
  wf_filter h fun x _ hx _ => by
    simp only [decide_eq_true_eq] at hx ⊢
    exact fun hp => hx (hp.trans (List.dropLast_prefix _))

/-- Removing an entry that is not a directory leaves a well-formed file system. -/
theorem wf_remove (h : fs.WF) {e : List (List Char)} (he : fs.isDir e = false) :
    (fs.remove e).WF :=
  wf_filter h fun x hx _ _ => by
    simp only [decide_eq_true_eq]
    rintro rfl
    simp [(h.parent x hx).2] at he

/-- Writing a file in a directory, where no directory has its name, leaves a well-formed file
system. -/
theorem wf_writeFile (h : fs.WF) {e : List (List Char)} (he0 : e ≠ []) (hn : ∀ n ∈ e, IsName n)
    (hpar : fs.isDir e.dropLast) (he : fs.isDir e = false) : (fs.writeFile e).WF := by
  have hnd : ((fs.writeFile e).entries.map Prod.fst).Nodup := by
    simp only [writeFile, List.map_append, List.map_cons, List.map_nil]
    refine List.nodup_append.2 ⟨(wf_remove h he).nodup, List.nodup_singleton _,
      List.disjoint_singleton.2 fun hm => ?_⟩
    obtain ⟨y, hy, rfl⟩ := List.mem_map.1 hm
    exact (mem_remove.1 hy).2 rfl
  have hdir : ∀ d, fs.isDir d → d ≠ e → (fs.writeFile e).isDir d := fun d hd hde =>
    isDir_mono h.nodup hnd hd fun hm => mem_writeFile.2 (.inl ⟨hm, hde⟩)
  refine ⟨hnd, fun x hx n hnx => ?_, fun x hx => ?_⟩
  · rcases mem_writeFile.1 hx with ⟨hx, -⟩ | rfl
    · exact h.names x hx n hnx
    · exact hn n hnx
  · rcases mem_writeFile.1 hx with ⟨hx, -⟩ | rfl
    · refine ⟨(h.parent x hx).1, hdir _ (h.parent x hx).2 fun hxe => ?_⟩
      simp [hxe ▸ (h.parent x hx).2] at he
    · exact ⟨he0, hdir _ hpar fun hxe => by simp [hxe ▸ hpar] at he⟩

end Fs

end DevTools
