import Mathlib
import DevTools.Text

/-!
# `os.path` on POSIX

The path functions the scripts call, on path strings: `join`, `split`, `basename`, `normpath` and
`abspath`, each as `posixpath` computes it. The entry a path names is `resolve cwd p`: the names
from the root reached from the working directory `cwd` by the components of `p`, with `.` and `..`
resolved by the names alone, as `abspath` resolves them (symbolic links are not modelled).

The facts used later are that joining a single name adds it to the entry named
(`resolve_join_name`), that `abspath` names the entry the path names (`resolve_abspath`), that a
slash only separates names (`resolve_append_slash`), and that `abspath` from an absolute working
directory gives an absolute path with no `..` component (`isabs_abspath`, `noDotDot_abspath`),
on which the kernel and the lexical resolution agree (`Fs.lookup_of_isDir_resolve`).
-/

namespace DevTools

/-- `os.path.isabs(p)`. -/
def isabs (p : List Char) : Bool := p.head? = some '/'

/-- `os.path.join(a, b)`. -/
def join (a b : List Char) : List Char :=
  if isabs b then b
  else if a = [] ∨ a.getLast? = some '/' then a ++ b
  else a ++ '/' :: b

/-- `s.rstrip('/')`. -/
def rstripSlash (s : List Char) : List Char := (s.reverse.dropWhile (· = '/')).reverse

/-- `os.path.split(p)`: the part up to the last `/`, with its trailing slashes removed unless it is
made of slashes only, and the part after it. -/
def split (p : List Char) : List Char × List Char :=
  let head := (p.reverse.dropWhile (· ≠ '/')).reverse
  let tail := (p.reverse.takeWhile (· ≠ '/')).reverse
  (if head.all (· = '/') then head else rstripSlash head, tail)

/-- `os.path.basename(p)`. -/
def basename (p : List Char) : List Char := (split p).2

/-- One turn of the loop of `posixpath.normpath` over the components of a path; the components kept
so far are stacked, the last one first. -/
def normStep (initialSlashes : Bool) (stack : List (List Char)) (comp : List Char) :
    List (List Char) :=
  if comp = [] ∨ comp = ['.'] then stack
  else if comp ≠ ['.', '.'] ∨ (!initialSlashes ∧ stack = []) ∨ stack.head? = some ['.', '.'] then
    comp :: stack
  else stack.tail

/-- The leading slashes `normpath` keeps: one or two, as the path starts with them, and three or
more count as one. -/
def initialSlashes (path : List Char) : Nat :=
  if path.take 2 = ['/', '/'] ∧ path.take 3 ≠ ['/', '/', '/'] then 2
  else if isabs path then 1 else 0

/-- `os.path.normpath(path)`. -/
def normpath (path : List Char) : List Char :=
  if path = [] then ['.'] else
  let stack := (path.splitOn '/').foldl (normStep (initialSlashes path ≠ 0)) []
  let result := List.replicate (initialSlashes path) '/' ++ ['/'].intercalate stack.reverse
  if result = [] then ['.'] else result

/-- `os.path.abspath(path)` in the working directory `cwd` (the string `os.getcwd()` returns). -/
def abspath (cwd path : List Char) : List Char :=
  normpath (if isabs path then path else join cwd path)

/-- A name of an entry of a directory. -/
def IsName (n : List Char) : Prop := n ≠ [] ∧ '/' ∉ n ∧ n ≠ ['.'] ∧ n ≠ ['.', '.']

instance : DecidablePred IsName := fun n =>
  inferInstanceAs (Decidable (n ≠ [] ∧ '/' ∉ n ∧ n ≠ ['.'] ∧ n ≠ ['.', '.']))

/-- The string `os.getcwd()` returns for the directory with the names `cwd` from the root. -/
def cwdPath (cwd : List (List Char)) : List Char := '/' :: ['/'].intercalate cwd

/-- The entry that path `p` names from the working directory `cwd`: its names from the root. -/
def resolve (cwd : List (List Char)) (p : List Char) : List (List Char) :=
  ((p.splitOn '/').foldl (normStep true) (if isabs p then [] else cwd.reverse)).reverse

/-! ## Components -/

theorem splitOn_append_slash (a b : List Char) :
    (a ++ '/' :: b).splitOn '/' = a.splitOn '/' ++ b.splitOn '/' := by
  induction a with
  | nil => simp [List.splitOn]
  | cons x a ih =>
    simp only [List.splitOn, List.cons_append, List.splitOnP_cons] at ih ⊢
    split_ifs
    · simp [ih]
    · rw [ih]
      cases h : a.splitOnP (· == '/') with
      | nil => exact absurd h (List.splitOnP_ne_nil _ _)
      | cons => rfl

theorem splitOn_of_not_mem {n : List Char} (hn : '/' ∉ n) : n.splitOn '/' = [n] :=
  List.splitOnP_eq_single _ _ fun c hc h => hn (by simpa using (beq_iff_eq.1 h) ▸ hc)

theorem not_mem_of_mem_splitOn : ∀ {s l : List Char}, l ∈ s.splitOn '/' → '/' ∉ l
  | [], l, h => by simp_all [List.splitOn]
  | x :: s, l, h => by
    simp only [List.splitOn, List.splitOnP_cons] at h
    have ih : ∀ {l}, l ∈ s.splitOn '/' → '/' ∉ l := not_mem_of_mem_splitOn
    split_ifs at h with hx
    · rcases List.mem_cons.1 h with rfl | h
      · simp
      · exact ih h
    · cases hs : s.splitOnP (· == '/') with
      | nil => exact absurd hs (List.splitOnP_ne_nil _ _)
      | cons m ms =>
        rw [hs, List.modifyHead_cons, List.mem_cons] at h
        have hm : '/' ∉ m := ih (by simp [List.splitOn, hs])
        rcases h with rfl | h
        · simp only [beq_iff_eq] at hx
          simp [Ne.symm hx, hm]
        · exact ih (by simp [List.splitOn, hs, h])

theorem mem_intersperse {α : Type} {sep : α} :
    ∀ {L : List α} {x : α}, x ∈ L.intersperse sep → x = sep ∨ x ∈ L
  | [], _, h => by simp at h
  | [_], _, h => by simp_all
  | a :: b :: L, x, h => by
    rw [List.intersperse_cons_cons] at h
    rcases List.mem_cons.1 h with rfl | h
    · simp
    rcases List.mem_cons.1 h with rfl | h
    · simp
    rcases mem_intersperse h with h | h
    · exact .inl h
    · exact .inr (List.mem_cons_of_mem _ h)

theorem mem_intersperse_of_mem {α : Type} {sep : α} :
    ∀ {L : List α} {x : α}, x ∈ L → x ∈ L.intersperse sep
  | [], _, h => by simp at h
  | [_], _, h => by simpa using h
  | a :: b :: L, x, h => by
    rw [List.intersperse_cons_cons]
    rcases List.mem_cons.1 h with rfl | h
    · exact List.mem_cons_self _ _
    · exact List.mem_cons_of_mem _ (List.mem_cons_of_mem _ (mem_intersperse_of_mem h))

theorem mem_of_mem_intercalate {α : Type} {sep : List α} {L : List (List α)} {c : α}
    (hc : c ∈ sep.intercalate L) : c ∈ sep ∨ ∃ s ∈ L, c ∈ s := by
  obtain ⟨s, hs, hcs⟩ := List.mem_flatten.1 hc
  rcases mem_intersperse hs with h | hs
  · exact .inl (h ▸ hcs)
  · exact .inr ⟨s, hs, hcs⟩

theorem mem_intercalate_of_mem {α : Type} (sep : List α) {L : List (List α)} {s : List α}
    (hs : s ∈ L) {c : α} (hc : c ∈ s) : c ∈ sep.intercalate L :=
  List.mem_flatten.2 ⟨s, mem_intersperse_of_mem hs, hc⟩

/-- A component of a path is made of characters of the path. -/
theorem mem_of_mem_splitOn {p l : List Char} (h : l ∈ p.splitOn '/') {c : Char} (hc : c ∈ l) :
    c ∈ p :=
  @List.intercalate_splitOn Char p '/' _ ▸ mem_intercalate_of_mem ['/'] h hc

theorem normStep_name {n : List Char} (hn : IsName n) (b : Bool) (stack : List (List Char)) :
    normStep b stack n = n :: stack := by
  simp [normStep, hn.1, hn.2.2.1, hn.2.2.2]

theorem foldl_normStep_names (b : Bool) :
    ∀ {cs : List (List Char)} (stack : List (List Char)), (∀ n ∈ cs, IsName n) →
      cs.foldl (normStep b) stack = cs.reverse ++ stack
  | [], _, _ => rfl
  | c :: cs, stack, h => by
    rw [List.foldl_cons, normStep_name (h c (List.mem_cons_self c cs)),
      foldl_normStep_names b _ fun n hn => h n (List.mem_cons_of_mem c hn)]
    simp

/-- `normpath` keeps components it was given, or drops them. -/
theorem mem_foldl_normStep (b : Bool) :
    ∀ {cs stack : List (List Char)} {n : List Char}, n ∈ cs.foldl (normStep b) stack →
      n ∈ stack ∨ n ∈ cs
  | [], _, _, h => .inl h
  | c :: cs, stack, n, h => by
    rw [List.foldl_cons] at h
    rcases mem_foldl_normStep b h with h | h
    · unfold normStep at h
      split_ifs at h
      · exact .inl h
      · rcases List.mem_cons.1 h with rfl | h
        · exact .inr (List.mem_cons_self _ _)
        · exact .inl h
      · exact .inl (List.mem_of_mem_tail h)
    · exact .inr (List.mem_cons_of_mem c h)

/-- From an absolute path, every component kept is a name. -/
theorem normStep_keeps_names {stack : List (List Char)} (hs : ∀ n ∈ stack, IsName n)
    {c : List Char} (hc : '/' ∉ c) : ∀ n ∈ normStep true stack c, IsName n := by
  unfold normStep
  split_ifs with h1 h2
  · exact hs
  · intro n hn
    rcases List.mem_cons.1 hn with rfl | hn
    · push_neg at h1
      refine ⟨h1.1, hc, h1.2, ?_⟩
      rintro rfl
      rcases h2 with h2 | h2 | h2
      · exact h2 rfl
      · simp at h2
      · cases stack with
        | nil => simp at h2
        | cons m ms =>
          simp only [List.head?_cons, Option.some.injEq] at h2
          exact (hs m (List.mem_cons_self m ms)).2.2.2 h2
    · exact hs n hn
  · exact fun n hn => hs n (List.mem_of_mem_tail hn)

theorem foldl_normStep_keeps_names :
    ∀ {cs stack : List (List Char)}, (∀ n ∈ stack, IsName n) → (∀ c ∈ cs, '/' ∉ c) →
      ∀ n ∈ cs.foldl (normStep true) stack, IsName n
  | [], _, hs, _ => hs
  | c :: cs, stack, hs, hc =>
    @foldl_normStep_keeps_names cs (normStep true stack c)
      (normStep_keeps_names hs (hc c (List.mem_cons_self c cs)))
      fun d hd => hc d (List.mem_cons_of_mem c hd)

/-! ## The entry a path names -/

/-- The components of `p`, resolved from the entry `stack` (its names, the last one first). -/
def walk (stack : List (List Char)) (p : List Char) : List (List Char) :=
  (p.splitOn '/').foldl (normStep true) stack

theorem resolve_eq_walk (cwd : List (List Char)) (p : List Char) :
    resolve cwd p = (walk (if isabs p then [] else cwd.reverse) p).reverse := rfl

@[simp] theorem walk_nil (stack : List (List Char)) : walk stack [] = stack := by
  simp [walk, List.splitOn, normStep]

theorem walk_append_slash (stack : List (List Char)) (a b : List Char) :
    walk stack (a ++ '/' :: b) = walk (walk stack a) b := by
  simp [walk, splitOn_append_slash]

theorem walk_name {n : List Char} (hn : IsName n) (stack : List (List Char)) :
    walk stack n = n :: stack := by
  simp [walk, splitOn_of_not_mem hn.2.1, normStep_name hn]

theorem isabs_append_slash (a b c : List Char) :
    isabs (a ++ '/' :: b) = isabs (a ++ '/' :: c) := by
  cases a <;> rfl

theorem isabs_append {a : List Char} (ha : a ≠ []) (b : List Char) : isabs (a ++ b) = isabs a := by
  cases a with
  | nil => exact absurd rfl ha
  | cons => rfl

theorem resolve_append_slash (cwd : List (List Char)) (a b : List Char) :
    resolve cwd (a ++ '/' :: b) =
      (walk (walk (if isabs (a ++ ['/']) then [] else cwd.reverse) a) b).reverse := by
  rw [resolve_eq_walk, walk_append_slash, isabs_append_slash a b []]

theorem isabs_join (a b : List Char) : isabs (join a b) = (isabs b || isabs a) := by
  unfold join
  by_cases hb : isabs b
  · simp [hb]
  · rcases eq_or_ne a [] with rfl | ha
    · simp [hb, isabs]
    · split_ifs <;> simp [hb, isabs_append ha]

/-- A relative path joined to a directory starts where the directory does. -/
theorem head?_join (a : List Char) {b : List Char} (hb : isabs b = false) :
    (join a b).head? = if a = [] then b.head? else a.head? := by
  unfold join
  rw [hb, if_neg Bool.false_ne_true]
  cases a with
  | nil => simp
  | cons c a =>
    simp only [List.cons_ne_nil, false_or, if_false]
    split_ifs <;> rfl

theorem join_ne_nil (a : List Char) {b : List Char} (hb : b ≠ []) : join a b ≠ [] := by
  unfold join
  split_ifs <;> simp [hb]

theorem join_eq_append (a : List Char) {b : List Char} (hb : isabs b = false) :
    ∃ x, join a b = x ++ b := by
  unfold join
  rw [hb, if_neg Bool.false_ne_true]
  split_ifs
  · exact ⟨a, rfl⟩
  · exact ⟨a ++ ['/'], by simp⟩

/-- Joining a path of two components joins them one after the other. -/
theorem join_append_slash (a : List Char) {b c : List Char} (hb : b ≠ [])
    (hbabs : isabs b = false) (hlast : b.getLast? ≠ some '/') (hc : isabs c = false) :
    join a (b ++ '/' :: c) = join (join a b) c := by
  obtain ⟨x, hx⟩ := join_eq_append a hbabs
  have hj : join (join a b) c = join a b ++ '/' :: c := by
    rw [join, hc, if_neg Bool.false_ne_true, if_neg]
    rw [hx, List.getLast?_append_of_ne_nil _ hb]
    simp [hb, hlast]
  rw [hj]
  unfold join
  rw [isabs_append hb, hbabs]
  split_ifs <;> simp

theorem walk_join (stack : List (List Char)) (a : List Char) {b : List Char}
    (hb : isabs b = false) : walk stack (join a b) = walk (walk stack a) b := by
  unfold join
  rw [hb, if_neg Bool.false_ne_true]
  split_ifs with ha
  · rcases ha with rfl | ha
    · rw [walk_nil, List.nil_append]
    · obtain ⟨a', rfl⟩ : ∃ a', a = a' ++ ['/'] :=
        ⟨a.dropLast, (List.dropLast_append_getLast? '/' ha).symm⟩
      rw [List.append_assoc, List.singleton_append, walk_append_slash, walk_append_slash, walk_nil]
  · exact walk_append_slash stack a b

theorem isabs_of_isName {n : List Char} (hn : IsName n) : isabs n = false := by
  cases n with
  | nil => exact absurd rfl hn.1
  | cons x n =>
    simp only [isabs, List.head?_cons, Option.some.injEq, decide_eq_false_iff_not]
    rintro rfl
    exact hn.2.1 (List.mem_cons_self _ n)

theorem resolve_join (cwd : List (List Char)) (a : List Char) {b : List Char}
    (hb : isabs b = false) :
    resolve cwd (join a b) = (walk (walk (if isabs a then [] else cwd.reverse) a) b).reverse := by
  rw [resolve_eq_walk, walk_join _ a hb, isabs_join, hb, Bool.false_or]

/-- Joining a name names the entry of that name in the directory. -/
theorem resolve_join_name {n : List Char} (hn : IsName n) (cwd : List (List Char))
    (a : List Char) : resolve cwd (join a n) = resolve cwd a ++ [n] := by
  rw [resolve_join cwd a (isabs_of_isName hn), walk_name hn, List.reverse_cons, resolve_eq_walk]

theorem walk_names {cs : List (List Char)} (h : ∀ n ∈ cs, IsName n) :
    walk [] (['/'].intercalate cs) = cs.reverse := by
  rcases eq_or_ne cs [] with rfl | hne
  · rfl
  · rw [walk, List.splitOn_intercalate cs '/' (fun n hn => (h n hn).2.1) hne,
      foldl_normStep_names true [] h, List.append_nil]

theorem walk_keeps_names (stack : List (List Char)) (hs : ∀ n ∈ stack, IsName n) (p : List Char) :
    ∀ n ∈ walk stack p, IsName n :=
  foldl_normStep_keeps_names hs fun _ hc => not_mem_of_mem_splitOn hc

/-- `normpath` of an absolute path names the same entry. -/
theorem resolve_normpath {x : List Char} (hx : isabs x) (cwd : List (List Char)) :
    resolve cwd (normpath x) = resolve cwd x := by
  have hne : x ≠ [] := by rintro rfl; simp [isabs] at hx
  have hS := walk_keeps_names [] (by simp) x
  have hrest : ∀ k, walk [] (List.replicate k '/' ++ ['/'].intercalate (walk [] x).reverse) =
      walk [] x := by
    intro k
    induction k with
    | zero => simpa using walk_names fun n hn => hS n (List.mem_reverse.1 hn)
    | succ k ih => rw [List.replicate_succ, List.cons_append, ← List.nil_append ('/' :: _),
        walk_append_slash, walk_nil, ih]
  have habs : ∀ k, 0 < k → resolve cwd (List.replicate k '/' ++
      ['/'].intercalate (walk [] x).reverse) = (walk [] x).reverse := fun k hk => by
    obtain ⟨k, rfl⟩ := Nat.exists_eq_add_of_lt hk
    rw [resolve_eq_walk, Nat.zero_add, List.replicate_succ, List.cons_append]
    rw [show isabs ('/' :: (List.replicate k '/' ++ ['/'].intercalate (walk [] x).reverse)) = true
      from rfl, if_pos rfl, ← List.nil_append ('/' :: _), walk_append_slash, walk_nil, hrest]
  have hk : 0 < initialSlashes x := by unfold initialSlashes; split_ifs <;> simp_all
  rw [resolve_eq_walk cwd x, if_pos hx, normpath, if_neg hne]
  simp only [ne_of_gt hk, decide_True, ne_eq, not_false_eq_true]
  rw [if_neg (by simp [hk.ne']), ← habs _ hk]
  rfl

/-- `normpath` writes only slashes, dots and characters of the path. -/
theorem mem_normpath {p : List Char} {c : Char} (hc : c ∈ normpath p) :
    c = '/' ∨ c = '.' ∨ c ∈ p := by
  unfold normpath at hc
  split_ifs at hc
  · simp_all
  simp only at hc
  split_ifs at hc
  · simp_all
  · rcases List.mem_append.1 hc with hc | hc
    · exact .inl (List.eq_of_mem_replicate hc)
    rcases mem_of_mem_intercalate hc with hc | ⟨s, hs, hcs⟩
    · exact .inl (List.mem_singleton.1 hc)
    rcases mem_foldl_normStep _ (List.mem_reverse.1 hs) with hs | hs
    · simp at hs
    · exact .inr (.inr (mem_of_mem_splitOn hs hcs))

theorem isabs_cwdPath (cwd : List (List Char)) : isabs (cwdPath cwd) = true := rfl

/-! ## Splitting a path -/

theorem split_append_slash (a : List Char) {pat : List Char} (hp : '/' ∉ pat) :
    split (a ++ '/' :: pat) =
      (if (a ++ ['/']).all (· = '/') then a ++ ['/'] else rstripSlash (a ++ ['/']), pat) := by
  have hpat : ∀ c ∈ pat.reverse, decide (c ≠ '/') = true := fun c hc => by
    simpa using fun h : c = '/' => hp (h ▸ List.mem_reverse.1 hc)
  simp only [split, List.reverse_append, List.reverse_cons, List.append_assoc,
    List.singleton_append, List.takeWhile_append_of_pos hpat, List.dropWhile_append_of_pos hpat]
  simp

/-- A path is its `rstrip('/')` followed by the slashes it strips. -/
theorem rstripSlash_append (s : List Char) :
    rstripSlash s ++ List.replicate (s.reverse.takeWhile (· = '/')).length '/' = s := by
  have hw : List.replicate (s.reverse.takeWhile (· = '/')).length '/' =
      (s.reverse.takeWhile (· = '/')).reverse := by
    rw [eq_comm, List.eq_replicate_iff]
    exact ⟨by simp, fun c hc => by simpa using List.mem_takeWhile_imp (List.mem_reverse.1 hc)⟩
  rw [hw, rstripSlash, ← List.reverse_append, List.takeWhile_append_dropWhile, List.reverse_reverse]

/-- A path joined with a relative path is a directory part ending in a slash, then that path. -/
theorem join_eq_append_slash {d b : List Char} (hd : d ≠ []) (hb : isabs b = false) :
    ∃ a, join d b = a ++ '/' :: b ∧ (a ++ ['/'] = d ∨ a = d) := by
  unfold join
  rw [hb, if_neg Bool.false_ne_true]
  by_cases hl : d.getLast? = some '/'
  · rw [if_pos (.inr hl)]
    refine ⟨d.dropLast, ?_, .inl ?_⟩
    · rw [← List.singleton_append, ← List.append_assoc, List.dropLast_append_getLast? '/' hl]
    · exact List.dropLast_append_getLast? '/' hl
  · rw [if_neg (by simp [hd, hl])]
    exact ⟨d, rfl, .inr rfl⟩

/-- The last component of a path joined to a name is that name. -/
theorem basename_join {a : List Char} (ha : a ≠ []) {n : List Char} (hn : '/' ∉ n) :
    basename (join a n) = n := by
  have hb : isabs n = false := by
    cases n with
    | nil => rfl
    | cons c n => simpa [isabs] using fun h : c = '/' => hn (h ▸ List.mem_cons_self c n)
  obtain ⟨a', hj, -⟩ := join_eq_append_slash ha hb
  rw [basename, hj, split_append_slash a' hn]

theorem walk_cwdPath {cwd : List (List Char)} (h : ∀ n ∈ cwd, IsName n) :
    walk [] (cwdPath cwd) = cwd.reverse := by
  rw [cwdPath, ← List.nil_append ('/' :: _), walk_append_slash, walk_nil, walk_names h]

/-- The path `os.getcwd()` returns names the working directory. -/
theorem resolve_cwdPath {cwd : List (List Char)} (h : ∀ n ∈ cwd, IsName n)
    (c : List (List Char)) : resolve c (cwdPath cwd) = cwd := by
  rw [resolve_eq_walk, if_pos (isabs_cwdPath cwd), walk_cwdPath h, List.reverse_reverse]

/-- `abspath` in the working directory names the entry the path names from it. -/
theorem resolve_abspath {cwd : List (List Char)} (h : ∀ n ∈ cwd, IsName n)
    (c : List (List Char)) (p : List Char) : resolve c (abspath (cwdPath cwd) p) = resolve cwd p := by
  unfold abspath
  by_cases hp : isabs p
  · rw [if_pos hp, resolve_normpath hp, resolve_eq_walk, resolve_eq_walk, if_pos hp, if_pos hp]
  · have hp' : isabs p = false := by simpa using hp
    have habs : isabs (join (cwdPath cwd) p) := by rw [isabs_join, isabs_cwdPath, Bool.or_true]
    rw [if_neg hp, resolve_normpath habs, resolve_join c _ hp', if_pos (isabs_cwdPath cwd),
      walk_cwdPath h,
      resolve_eq_walk, hp']
    rfl

/-! ## Paths of no `..` -/

/-- A path none of whose components is `..`: the kernel reaches the entry it names going down
only. -/
def NoDotDot (p : List Char) : Prop := ∀ c ∈ p.splitOn '/', c ≠ ['.', '.']

instance : DecidablePred NoDotDot := fun p =>
  inferInstanceAs (Decidable (∀ c ∈ p.splitOn '/', c ≠ ['.', '.']))

/-- `normpath` of an absolute path is its leading slashes, then the names it keeps. -/
theorem normpath_of_isabs {x : List Char} (hx : isabs x) :
    ∃ k, normpath x = List.replicate (k + 1) '/' ++ ['/'].intercalate (walk [] x).reverse := by
  have hne : x ≠ [] := by rintro rfl; simp [isabs] at hx
  have hk : 0 < initialSlashes x := by unfold initialSlashes; split_ifs <;> simp_all
  obtain ⟨k, hk'⟩ := Nat.exists_eq_add_of_lt hk
  refine ⟨k, ?_⟩
  rw [normpath, if_neg hne]
  simp only [ne_of_gt hk, decide_True, ne_eq, not_false_eq_true]
  rw [if_neg (by simp [hk.ne']), hk', Nat.zero_add]
  rfl

theorem noDotDot_slashes_names {S : List (List Char)} (hS : ∀ n ∈ S, IsName n) :
    ∀ k, NoDotDot (List.replicate k '/' ++ ['/'].intercalate S)
  | 0, c, hc => by
    rw [List.replicate_zero, List.nil_append] at hc
    rcases eq_or_ne S [] with rfl | hne
    · obtain rfl : c = [] := List.mem_singleton.1 hc
      simp
    · rw [List.splitOn_intercalate S '/' (fun n hn => (hS n hn).2.1) hne] at hc
      exact (hS c hc).2.2.2
  | k + 1, c, hc => by
    rw [List.replicate_succ, List.cons_append, ← List.nil_append ('/' :: _),
      splitOn_append_slash] at hc
    rcases List.mem_append.1 hc with hc | hc
    · obtain rfl : c = [] := by simpa [List.splitOn] using hc
      simp
    · exact noDotDot_slashes_names hS k c hc

theorem isabs_abspath_arg {cwd : List Char} (hcwd : isabs cwd) (p : List Char) :
    isabs (if isabs p then p else join cwd p) := by
  split_ifs with hp
  · exact hp
  · rw [isabs_join, hcwd, Bool.or_true]

/-- `abspath` in an absolute working directory gives an absolute path. -/
theorem isabs_abspath {cwd : List Char} (hcwd : isabs cwd) (p : List Char) :
    isabs (abspath cwd p) := by
  obtain ⟨k, hk⟩ := normpath_of_isabs (isabs_abspath_arg hcwd p)
  rw [abspath, hk]
  rfl

/-- `abspath` in an absolute working directory gives a path of no `..`. -/
theorem noDotDot_abspath {cwd : List Char} (hcwd : isabs cwd) (p : List Char) :
    NoDotDot (abspath cwd p) := by
  obtain ⟨k, hk⟩ := normpath_of_isabs (isabs_abspath_arg hcwd p)
  rw [abspath, hk]
  exact noDotDot_slashes_names
    (fun n hn => walk_keeps_names [] (by simp) _ n (List.mem_reverse.1 hn)) _

theorem noDotDot_join {a n : List Char} (ha : NoDotDot a) (hn : IsName n) :
    NoDotDot (join a n) := by
  have hname : NoDotDot n := fun c hc => by
    rw [splitOn_of_not_mem hn.2.1, List.mem_singleton] at hc
    exact hc ▸ hn.2.2.2
  rcases eq_or_ne a [] with rfl | ha0
  · rwa [show join [] n = n by simp [join]]
  obtain ⟨a', hj, ha'⟩ := join_eq_append_slash ha0 (isabs_of_isName hn)
  intro c hc
  rw [hj, splitOn_append_slash] at hc
  rcases List.mem_append.1 hc with hc | hc
  · refine ha c ?_
    rcases ha' with rfl | rfl
    · rw [splitOn_append_slash]
      exact List.mem_append_left _ hc
    · exact hc
  · exact hname c hc

theorem isabs_of_prefix {a b : List Char} (hab : a <+: b) (ha : a ≠ []) (hb : isabs b) :
    isabs a := by
  obtain ⟨t, rfl⟩ := hab
  rwa [isabs_append ha] at hb

/-- The directory part `os.path.split` gives of an absolute path is absolute. -/
theorem isabs_split_fst {p : List Char} (hp : isabs p) : isabs (split p).1 := by
  have hhead : isabs (p.reverse.dropWhile (· ≠ '/')).reverse := by
    refine isabs_of_prefix (List.rdropWhile_prefix _ _) (fun h => ?_) hp
    cases p with
    | nil => simp [isabs] at hp
    | cons c t =>
      obtain rfl : c = '/' := by simpa [isabs] using hp
      simpa using List.rdropWhile_eq_nil_iff.1 h '/' (List.mem_cons_self _ _)
  unfold split
  dsimp only
  split_ifs with hall
  · exact hhead
  · refine isabs_of_prefix (List.rdropWhile_prefix _ _) (fun h => hall ?_) hhead
    exact List.all_eq_true.2 fun x hx => List.rdropWhile_eq_nil_iff.1 h x hx

end DevTools
