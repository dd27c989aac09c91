import Mathlib
import DevTools.ReleaseCandidate.MetaWalk

/-!
# When the printed recipe does what `rename_local_meta_files` does

The recipe `renameMetadataFilesCommand dir` goes through the shell: `find` lists the paths under
`dir` whose name matches before the first `mv` runs, the unquoted `$(...)` cuts what it prints at
blanks and newlines, and the substitution `${i/pattern/}` with the pattern `-local` removes the
first `-local` of the whole path. It renames
what Python renames when the repository is `MetaSafe`: every name under it is one word without
glob characters, no directory under it holds `-local`, a metadata file holds `-local` once and no
new name is a directory, and the path `dir` is a plain word without `-local`. On such a repository
both give `Fs.renameAll` of the metadata files (`runRenameMetadataFilesCommand_spec`).
`renameLocalMetaFiles_local_dir` shows what happens when a directory holds `-local`.

The words `find` prints are the paths of the metadata files, joined from the directories' paths,
each once (`mem_findAux`, `mem_findAux_of_file`, `nodup_findAux`); on such a path the first
`-local` is the one in the file name (`replaceFirst_join`), so each `mv` is the `rename(2)` Python
makes (`mv_eq_rename`).
-/

namespace DevTools.ReleaseCandidate

open Fs

/-- A text the unquoted `$(...)` keeps as one word and does not expand: no blank, newline or glob
character. -/
def WordChars (p : List Char) : Prop := (∀ c ∈ p, ifsChar c = false) ∧ hasMagic p = false

instance : DecidablePred WordChars := fun p =>
  inferInstanceAs (Decidable ((∀ c ∈ p, ifsChar c = false) ∧ hasMagic p = false))

/-- The repository under the entry `D` on which the recipe renames what Python renames. -/
structure MetaSafe (fs : Fs) (D : List (List Char)) : Prop where
  words : ∀ x ∈ fs.entries, D <+: x.1 → x.1 ≠ D → WordChars (x.1.getLastD [])
  dirs : ∀ x ∈ fs.entries, D <+: x.1 → x.1 ≠ D → x.2 = .dir →
    ¬ "-local".toList <:+: x.1.getLastD []
  once : ∀ e ∈ metaSources fs D,
    ¬ "-local".toList <:+: (e.getLastD []).drop "maven-metadata-local.xml".length
  not_dir : ∀ e ∈ metaSources fs D, (metaTarget e, Kind.dir) ∉ fs.entries

instance (fs : Fs) (D : List (List Char)) : Decidable (MetaSafe fs D) :=
  decidable_of_iff
    ((∀ x ∈ fs.entries, D <+: x.1 → x.1 ≠ D → WordChars (x.1.getLastD [])) ∧
      (∀ x ∈ fs.entries, D <+: x.1 → x.1 ≠ D → x.2 = .dir →
        ¬ "-local".toList <:+: x.1.getLastD []) ∧
      (∀ e ∈ metaSources fs D,
        ¬ "-local".toList <:+: (e.getLastD []).drop "maven-metadata-local.xml".length) ∧
      ∀ e ∈ metaSources fs D, (metaTarget e, Kind.dir) ∉ fs.entries)
    ⟨fun ⟨a, b, c, d⟩ => ⟨a, b, c, d⟩, fun ⟨a, b, c, d⟩ => ⟨a, b, c, d⟩⟩

/-! ## Paths without `-local` -/

theorem infix_append_cons {w b : List Char} {c : Char} (hc : c ∉ w) :
    ∀ {a : List Char}, w <:+: a ++ c :: b → w <:+: a ∨ w <:+: b
  | [], h => by
    rcases List.infix_cons_iff.1 h with h | h
    · exact .inl (List.prefix_nil.1 ((prefix_append_cons_iff (a := []) hc).1 h) ▸ List.infix_refl _)
    · exact .inr h
  | x :: a, h => by
    rcases List.infix_cons_iff.1 h with h | h
    · exact .inl ((prefix_append_cons_iff (a := x :: a) hc).1 h).isInfix
    · exact (infix_append_cons hc h).imp List.infix_cons id

theorem join_eq {p b : List Char} (hp : p ≠ []) (hb : isabs b = false) :
    join p b = (if p.getLast? = some '/' then p.dropLast else p) ++ '/' :: b := by
  unfold join
  rw [hb, if_neg Bool.false_ne_true]
  split_ifs with h1 h2 h2
  · rw [← List.singleton_append, ← List.append_assoc, List.dropLast_append_getLast? '/' h2]
  · exact absurd (h1.resolve_left hp) h2
  · exact absurd (.inr h2) h1
  · rfl

theorem prefix_joinHead (p : List Char) :
    (if p.getLast? = some '/' then p.dropLast else p) <+: p := by
  split_ifs
  · exact List.dropLast_prefix p
  · exact List.prefix_refl p

/-- A path joined from two texts without `w` holds `w` nowhere, for a `w` without `/`. -/
theorem not_infix_join {w p b : List Char} (hw : '/' ∉ w) (hp : ¬ w <:+: p) (hb : ¬ w <:+: b)
    (hp0 : p ≠ []) (hab : isabs b = false) : ¬ w <:+: join p b := by
  rw [join_eq hp0 hab]
  exact fun h => (infix_append_cons hw h).elim (fun h => hp (h.trans (prefix_joinHead p).isInfix)) hb

theorem mem_join {p b : List Char} (hp0 : p ≠ []) (hab : isabs b = false) {c : Char}
    (hc : c ∈ join p b) : c ∈ p ∨ c ∈ b ∨ c = '/' := by
  rw [join_eq hp0 hab, List.mem_append, List.mem_cons] at hc
  rcases hc with hc | rfl | hc
  · exact .inl ((prefix_joinHead p).subset hc)
  · exact .inr (.inr rfl)
  · exact .inr (.inl hc)

theorem wordChars_join {p b : List Char} (hp : WordChars p) (hb : WordChars b) (hp0 : p ≠ [])
    (hab : isabs b = false) : WordChars (join p b) := by
  have hall : ∀ c ∈ join p b, c ∈ p ∨ c ∈ b ∨ c = '/' := fun c hc => mem_join hp0 hab hc
  refine ⟨fun c hc => ?_, hasMagic_eq_false.2 fun c hc => ?_⟩
  · rcases hall c hc with h | h | rfl
    exacts [hp.1 c h, hb.1 c h, rfl]
  · rcases hall c hc with h | h | rfl
    exacts [hasMagic_eq_false.1 hp.2 c h, hasMagic_eq_false.1 hb.2 c h, by decide]

theorem replaceFirst_append_cons {old new b : List Char} {c : Char} (hc : c ∉ old) :
    ∀ {a : List Char}, ¬ old <:+: a →
      replaceFirst old new (a ++ c :: b) = a ++ c :: replaceFirst old new b
  | [], ha => by
    have h0 : old ≠ [] := fun h => ha (h ▸ List.nil_infix)
    have hp : ¬ old <+: c :: b := fun h =>
      h0 (List.prefix_nil.1 ((prefix_append_cons_iff (a := []) hc).1 h))
    simp [replaceFirst, hp]
  | x :: a, ha => by
    have hp : ¬ old <+: x :: (a ++ c :: b) := fun h =>
      ha ((prefix_append_cons_iff (a := x :: a) hc).1 h).isInfix
    rw [List.cons_append, replaceFirst, if_neg hp,
      replaceFirst_append_cons hc fun h => ha (List.infix_cons h), List.cons_append]

theorem replaceFirst_metaName (s : List Char) :
    replaceFirst "-local".toList [] ("maven-metadata-local.xml".toList ++ s) =
      "maven-metadata.xml".toList ++ s := by
  simp [replaceFirst]

/-- The substitution that removes the first `-local` of the path of a metadata file whose directory
part holds no `-local` removes the `-local` of the file name. -/
theorem replaceFirst_join {p : List Char} (hp0 : p ≠ []) (hp : ¬ "-local".toList <:+: p)
    (s : List Char) :
    replaceFirst "-local".toList [] (join p ("maven-metadata-local.xml".toList ++ s)) =
      join p ("maven-metadata.xml".toList ++ s) := by
  rw [join_eq hp0 (by rfl), join_eq hp0 (by rfl),
    replaceFirst_append_cons (by decide) fun h => hp (h.trans (prefix_joinHead p).isInfix),
    replaceFirst_metaName]

theorem wordChars_of_isPlain {p : List Char} (hp : IsPlain p) : WordChars p := by
  refine ⟨fun c hc => ?_, hasMagic_eq_false.2 fun c hc => ?_⟩
  · cases hi : ifsChar c
    · rfl
    · simp only [ifsChar, Bool.or_eq_true, decide_eq_true_eq] at hi
      rcases hi with (rfl | rfl) | rfl <;> exact absurd (hp _ hc) (by decide)
  · refine ⟨?_, ?_, ?_⟩ <;> rintro rfl <;> exact absurd (hp _ hc) (by decide)

/-! ## What `find` prints -/

section Find

variable {fs : Fs} {cwd D : List (List Char)}

/-- The path of a directory below the repository as `find` prints it. -/
def DirPath (p : List Char) : Prop := p ≠ [] ∧ ¬ "-local".toList <:+: p ∧ WordChars p

theorem local_infix_of_fnmatch {n : List Char} (hm : fnmatch n metaPattern) :
    "-local".toList <:+: n :=
  (show "-local".toList <:+: "maven-metadata-local.xml".toList from
    ⟨"maven-metadata".toList, ".xml".toList, rfl⟩).trans ((fnmatch_metaPattern n).1 hm).isInfix

theorem basename_rstripSlash_infix_self (p : List Char) : basename (rstripSlash p) <:+: p := by
  have h1 : basename (rstripSlash p) <:+ rstripSlash p :=
    List.reverse_prefix.1 (by simpa [basename, split] using List.takeWhile_prefix _)
  have h2 : rstripSlash p <+: p :=
    List.reverse_suffix.1 (by simpa [rstripSlash] using List.dropWhile_suffix _)
  exact h1.isInfix.trans h2.isInfix

/-- `find` does not print the path of a directory without `-local`. -/
theorem fnmatch_dirPath {p : List Char} (hp : ¬ "-local".toList <:+: p) :
    fnmatch (basename (rstripSlash p)) metaPattern = false :=
  Bool.eq_false_iff.2 fun hm => hp ((local_infix_of_fnmatch hm).trans (basename_rstripSlash_infix_self p))

theorem basename_rstripSlash_join {p n : List Char} (hp0 : p ≠ []) (hn : IsName n) :
    basename (rstripSlash (join p n)) = n := by
  obtain ⟨c, t, hct⟩ : ∃ c t, n.reverse = c :: t := by
    cases h : n.reverse with
    | nil => exact absurd (List.reverse_eq_nil_iff.1 h) hn.1
    | cons c t => exact ⟨c, t, rfl⟩
  have hc : c ≠ '/' := fun hc => hn.2.1 (List.mem_reverse.1 (hct ▸ hc ▸ List.mem_cons_self c t))
  have hrev : (join p n).reverse =
      c :: (t ++ '/' :: (if p.getLast? = some '/' then p.dropLast else p).reverse) := by
    rw [join_eq hp0 (isabs_of_isName hn)]
    simp [hct]
  have hr : rstripSlash (join p n) = join p n := by
    rw [rstripSlash, hrev, List.dropWhile_cons_of_neg (by simpa using hc), ← hrev,
      List.reverse_reverse]
  rw [hr, basename_join hp0 hn.2.1]

theorem findAux_succ_dir {m : Nat} {q : List Char} {E : List (List Char)}
    (hE : fs.lookup cwd q = some E) (hd : fs.isDir E) :
    findAux fs cwd metaPattern (m + 1) q =
      (if fnmatch (basename (rstripSlash q)) metaPattern then [q] else []) ++
        (fs.names E false).flatMap fun name => findAux fs cwd metaPattern m (join q name) := by
  simp [findAux, hE, hd]

/-- Below a directory path, `find` prints the path of a file when its name matches. -/
theorem findAux_file_child (h : fs.WF) (hcwd : fs.isDir cwd) {path name : List Char}
    {E : List (List Char)} (hE : fs.lookup cwd path = some E) (hd : fs.isDir E)
    (hx : (E ++ [name], Kind.file) ∈ fs.entries) (m : Nat) :
    findAux fs cwd metaPattern (m + 1) (join path name) =
      if fnmatch name metaPattern then [join path name] else [] := by
  have hp0 : path ≠ [] := by rintro rfl; simp [lookup] at hE
  simp [findAux, lookup_join_child h hcwd hE hd hx, isDir, kind?_of_mem h hx,
    basename_rstripSlash_join hp0 (isName_of_mem h hx)]

theorem dirPath_join {path name : List Char} {E : List (List Char)} (hsafe : MetaSafe fs D)
    (hp : DirPath path) (hDE : D <+: E) (hx : (E ++ [name], Kind.dir) ∈ fs.entries) (h : fs.WF) :
    DirPath (join path name) := by
  have hn := isName_of_mem h hx
  have hDx : D <+: E ++ [name] := hDE.trans (List.prefix_append _ _)
  have hxD : E ++ [name] ≠ D := fun h' => by
    have := congrArg List.length h'
    have := hDE.length_le
    simp at *
    omega
  refine ⟨join_ne_nil _ hn.1, not_infix_join (by decide) hp.2.1 ?_ hp.1 (isabs_of_isName hn),
    wordChars_join hp.2.2 ?_ hp.1 (isabs_of_isName hn)⟩
  · simpa using hsafe.dirs _ hx hDx hxD rfl
  · simpa using hsafe.words _ hx hDx hxD

/-- Every word `find` prints below a directory path of the repository is the path of a metadata
file, joined from the path of its directory. -/
theorem mem_findAux (h : fs.WF) (hcwd : fs.isDir cwd) (hsafe : MetaSafe fs D) :
    ∀ (n : Nat) (path : List Char) {E : List (List Char)} {w : List Char},
      fs.lookup cwd path = some E → fs.isDir E → D <+: E → DirPath path →
      w ∈ findAux fs cwd metaPattern n path →
      ∃ p E' name, w = join p name ∧ fs.lookup cwd p = some E' ∧ fs.isDir E' ∧ DirPath p ∧
        E <+: E' ∧ E' ++ [name] ∈ metaSources fs D
  | 0, _, _, _, _, _, _, _, hw => by simp [findAux] at hw
  | n + 1, path, E, w, hE, hd, hDE, hp, hw => by
    rw [findAux_succ_dir hE hd, if_neg (by simp [fnmatch_dirPath hp.2.1]), List.nil_append,
      List.mem_flatMap] at hw
    obtain ⟨name, hname, hw⟩ := hw
    obtain ⟨k, hx⟩ := mem_names.1 hname
    cases k with
    | file =>
      cases n with
      | zero => simp [findAux] at hw
      | succ m =>
        rw [findAux_file_child h hcwd hE hd hx] at hw
        split_ifs at hw with hm
        · obtain rfl := List.mem_singleton.1 hw
          exact ⟨path, E, name, rfl, hE, hd, hp, List.prefix_refl E,
            mem_metaSources.2 ⟨hx, hDE.trans (List.prefix_append _ _), by simpa using hm⟩⟩
        · simp at hw
    | dir =>
      obtain ⟨p, E', name', hw, hE', hd', hp', hEE', hmem⟩ :=
        mem_findAux h hcwd hsafe n (join path name) (lookup_join_child h hcwd hE hd hx)
          (by simp [isDir, kind?_of_mem h hx]) (hDE.trans (List.prefix_append _ _))
          (dirPath_join hsafe hp hDE hx h) hw
      exact ⟨p, E', name', hw, hE', hd', hp', (List.prefix_append E [name]).trans hEE', hmem⟩

/-- `find` prints a path of every metadata file below a directory, within its fuel. -/
theorem mem_findAux_of_file (h : fs.WF) (hcwd : fs.isDir cwd) :
    ∀ (n : Nat) (path : List Char) {E r : List (List Char)}, fs.lookup cwd path = some E →
      fs.isDir E → (E ++ r, Kind.file) ∈ fs.entries → fnmatch ((E ++ r).getLastD []) metaPattern →
      r ≠ [] → r.length < n →
      ∃ w ∈ findAux fs cwd metaPattern n path, fs.lookup cwd w = some (E ++ r)
  | 0, _, _, _, _, _, _, _, _, hn => absurd hn (Nat.not_lt_zero _)
  | n + 1, path, E, r, hE, hd, hx, hm, hr, hn => by
    rw [findAux_succ_dir hE hd]
    match r, hr with
    | [name], _ =>
      obtain ⟨m, rfl⟩ : ∃ m, n = m + 1 := ⟨n - 1, by simp at hn; omega⟩
      refine ⟨join path name, List.mem_append_right _ (List.mem_flatMap.2
        ⟨name, mem_names.2 ⟨_, hx⟩, ?_⟩), lookup_join_child h hcwd hE hd hx⟩
      rw [findAux_file_child h hcwd hE hd hx, if_pos (by simpa using hm)]
      exact List.mem_singleton_self _
    | d :: d' :: r', _ =>
      have hdx := mem_dir_of_mem_append h hx (List.cons_ne_nil d' r')
      obtain ⟨w, hw, hl⟩ := mem_findAux_of_file h hcwd n (join path d) (r := d' :: r')
        (lookup_join_child h hcwd hE hd hdx) (by simp [isDir, kind?_of_mem h hdx])
        (by simpa using hx) (by simpa using hm) (by simp) (by simp at hn ⊢; omega)
      exact ⟨w, List.mem_append_right _ (List.mem_flatMap.2 ⟨d, mem_names.2 ⟨_, hdx⟩, hw⟩),
        by simpa using hl⟩

/-- The entry a word of `find` names, where the kernel finds one. -/
def entryOf (fs : Fs) (cwd : List (List Char)) (w : List Char) : List (List Char) :=
  (fs.lookup cwd w).getD []

theorem entryOf_join {p name : List Char} {E' : List (List Char)} (h : fs.WF) (hcwd : fs.isDir cwd)
    (hE' : fs.lookup cwd p = some E') (hd' : fs.isDir E') (hmem : E' ++ [name] ∈ metaSources fs D) :
    fs.lookup cwd (join p name) = some (E' ++ [name]) ∧ entryOf fs cwd (join p name) = E' ++ [name] := by
  have hl := lookup_join_child h hcwd hE' hd' (mem_metaSources.1 hmem).1
  exact ⟨hl, by simp [entryOf, hl]⟩

/-- The words `find` prints below one name of a directory name entries below that name. -/
theorem prefix_entryOf (h : fs.WF) (hcwd : fs.isDir cwd) (hsafe : MetaSafe fs D)
    {n : Nat} {path name w : List Char} {E : List (List Char)} {k : Kind}
    (hE : fs.lookup cwd path = some E) (hd : fs.isDir E) (hDE : D <+: E) (hp : DirPath path)
    (hx : (E ++ [name], k) ∈ fs.entries) (hw : w ∈ findAux fs cwd metaPattern n (join path name)) :
    E ++ [name] <+: entryOf fs cwd w := by
  cases k with
  | file =>
    cases n with
    | zero => simp [findAux] at hw
    | succ m =>
      rw [findAux_file_child h hcwd hE hd hx] at hw
      split_ifs at hw
      · obtain rfl := List.mem_singleton.1 hw
        simp [entryOf, lookup_join_child h hcwd hE hd hx]
      · simp at hw
  | dir =>
    obtain ⟨p, E', name', rfl, hE', hd', -, hEE', hmem⟩ :=
      mem_findAux h hcwd hsafe n (join path name) (lookup_join_child h hcwd hE hd hx)
        (by simp [isDir, kind?_of_mem h hx]) (hDE.trans (List.prefix_append _ _))
        (dirPath_join hsafe hp hDE hx h) hw
    rw [(entryOf_join h hcwd hE' hd' hmem).2]
    exact hEE'.trans (List.prefix_append _ _)

/-- `find` prints one path for each entry. -/
theorem nodup_findAux (h : fs.WF) (hcwd : fs.isDir cwd) (hsafe : MetaSafe fs D) :
    ∀ (n : Nat) (path : List Char) {E : List (List Char)}, fs.lookup cwd path = some E →
      fs.isDir E → D <+: E → DirPath path →
      ((findAux fs cwd metaPattern n path).map (entryOf fs cwd)).Nodup
  | 0, _, _, _, _, _, _ => by simp [findAux]
  | n + 1, path, E, hE, hd, hDE, hp => by
    rw [findAux_succ_dir hE hd, if_neg (by simp [fnmatch_dirPath hp.2.1]), List.nil_append,
      List.map_flatMap, List.nodup_flatMap]
    refine ⟨fun name hname => ?_, (nodup_names h E false).imp_of_mem
      fun {a b} ha hb hab e hea heb => hab ?_⟩
    · obtain ⟨k, hx⟩ := mem_names.1 hname
      cases k with
      | file =>
        cases n with
        | zero => simp [findAux]
        | succ m =>
          rw [findAux_file_child h hcwd hE hd hx]
          split_ifs <;> simp
      | dir =>
        exact nodup_findAux h hcwd hsafe n (join path name) (lookup_join_child h hcwd hE hd hx)
          (by simp [isDir, kind?_of_mem h hx]) (hDE.trans (List.prefix_append _ _))
          (dirPath_join hsafe hp hDE hx h)
    · obtain ⟨ka, hxa⟩ := mem_names.1 ha
      obtain ⟨kb, hxb⟩ := mem_names.1 hb
      obtain ⟨wa, hwa, rfl⟩ := List.mem_map.1 hea
      obtain ⟨wb, hwb, hwab⟩ := List.mem_map.1 heb
      have h1 := prefix_entryOf h hcwd hsafe hE hd hDE hp hxa hwa
      have h2 := prefix_entryOf h hcwd hsafe hE hd hDE hp hxb hwb
      rw [← hwab] at h1
      simpa using List.prefix_of_prefix_length_le h1 h2 (by simp)

end Find

/-! ## The recipe's loop -/

section Recipe

variable {fs : Fs} {cwd D : List (List Char)}

/-- A metadata name that holds `-local` once loses it the same way under `str.replace` and under
the shell's substitution. -/
theorem replace_of_once {n : List Char} (hm : fnmatch n metaPattern)
    (hs : ¬ "-local".toList <:+: n.drop "maven-metadata-local.xml".length) :
    ∃ s, n = "maven-metadata-local.xml".toList ++ s ∧
      replace "-local".toList [] n = "maven-metadata.xml".toList ++ s := by
  obtain ⟨s, rfl⟩ := (fnmatch_metaPattern n).1 hm
  have hs' : ¬ "-local".toList <:+: s := by simpa using hs
  exact ⟨s, rfl, by rw [replace_metaName, replace_of_no_occurrence hs']⟩

/-- On a `MetaSafe` repository no two metadata files get the same new name. -/
theorem metaTarget_inj (h : fs.WF) (hsafe : MetaSafe fs D) :
    ∀ e ∈ metaSources fs D, ∀ e' ∈ metaSources fs D, metaTarget e = metaTarget e' → e = e' := by
  intro e he e' he' heq
  obtain ⟨hx, -, hm⟩ := mem_metaSources.1 he
  obtain ⟨hx', -, hm'⟩ := mem_metaSources.1 he'
  obtain ⟨s, hn, hr⟩ := replace_of_once hm (hsafe.once e he)
  obtain ⟨s', hn', hr'⟩ := replace_of_once hm' (hsafe.once e' he')
  rw [metaTarget, metaTarget, hr, hr'] at heq
  obtain ⟨hpar, hname⟩ := List.append_inj' heq rfl
  have hs : s = s' := List.append_cancel_left (List.singleton_inj.1 hname)
  rw [← dropLast_append_getLastD (show e ≠ [] from (h.parent _ hx).1),
    ← dropLast_append_getLastD (show e' ≠ [] from (h.parent _ hx').1), hpar, hn, hn', hs]

/-- What the recipe needs of each word `find` prints from the repository's directory: it is one
word, it names a metadata file, and the substitution turns it into the path Python renames the file
to, where no directory is. -/
theorem find_word (h : fs.WF) (hcwd : fs.isDir cwd) (hsafe : MetaSafe fs D) {n : Nat}
    {dir w : List Char} (hD : fs.lookup cwd dir = some D) (hDdir : fs.isDir D) (hdir : DirPath dir)
    (hw : w ∈ findAux fs cwd metaPattern n dir) :
    (w ≠ [] ∧ WordChars w) ∧ fs.lookup cwd w = some (entryOf fs cwd w) ∧
      fs.createTarget cwd (replaceFirst "-local".toList [] w) =
        some (metaTarget (entryOf fs cwd w)) ∧
      fs.pathIsDir cwd (replaceFirst "-local".toList [] w) = false ∧
      entryOf fs cwd w ∈ metaSources fs D := by
  obtain ⟨p, E', name, rfl, hE', hd', hp, hDE', hmem⟩ :=
    mem_findAux h hcwd hsafe n dir hD hDdir (List.prefix_refl D) hdir hw
  obtain ⟨hl, hent⟩ := entryOf_join h hcwd hE' hd' hmem
  obtain ⟨hx, -, hm⟩ := mem_metaSources.1 hmem
  rw [List.getLastD_concat] at hm
  have hn := isName_of_mem h hx
  have hxD : E' ++ [name] ≠ D := fun h' => by
    have := congrArg List.length h'
    have := hDE'.length_le
    simp at *
    omega
  obtain ⟨s, rfl, hr⟩ := replace_of_once hm (by simpa using hsafe.once _ hmem)
  have hrw : replaceFirst "-local".toList [] (join p ("maven-metadata-local.xml".toList ++ s)) =
      join p (replace "-local".toList [] ("maven-metadata-local.xml".toList ++ s)) := by
    rw [replaceFirst_join hp.1 hp.2.1, hr]
  have hnd := hsafe.not_dir _ hmem
  rw [hent, hrw, metaTarget_append] at *
  refine ⟨⟨join_ne_nil _ hn.1, wordChars_join hp.2.2 ?_ hp.1 (isabs_of_isName hn)⟩, hl,
    createTarget_join_name h hcwd (isName_replace hn hm) hE' hd', ?_, hmem⟩
  · simpa using hsafe.words _ hx (hDE'.trans (List.prefix_append _ _)) hxD
  · rw [pathIsDir_join_name h hcwd (isName_replace hn hm) hE' hd']
    cases hk : fs.isDir (E' ++ [replace "-local".toList [] ("maven-metadata-local.xml".toList ++ s)])
    · rfl
    · exact absurd (mem_of_kind?_eq_some (by simp) (by simpa [isDir] using hk)) hnd

theorem splitOnP_lines : ∀ (ws : List (List Char)), (∀ w ∈ ws, ∀ c ∈ w, ifsChar c = false) →
    ((ws.map (· ++ ['\n'])).flatten).splitOnP ifsChar = ws ++ [[]]
  | [], _ => rfl
  | w :: ws, hws => by
    rw [List.map_cons, List.flatten_cons, List.append_assoc, List.singleton_append,
      List.splitOnP_first _ _ (fun c hc => by simp [hws w (List.mem_cons_self _ _) c hc]) _ rfl,
      splitOnP_lines ws fun w hw => hws w (List.mem_cons_of_mem _ hw), List.cons_append]

/-- The unquoted `$(...)` cuts the lines `find` prints back into the paths, when they are words
without glob characters. -/
theorem substitutionWords_lines {ws : List (List Char)} (hws : ∀ w ∈ ws, w ≠ [] ∧ WordChars w) :
    substitutionWords ((ws.map (· ++ ['\n'])).flatten) = some ws := by
  have hf : (ws ++ [[]]).filter (· ≠ []) = ws := by
    rw [List.filter_append, List.filter_eq_self.2 fun w hw => by simpa using (hws w hw).1]
    simp
  have hm : ws.any hasMagic = false := by simpa using fun w hw => (hws w hw).2.2
  rw [substitutionWords, splitOnP_lines ws fun w hw => (hws w hw).2.1, hf, hm]
  rfl

/-- `mv` into a path that is not a directory is `rename(2)`, on every tree with the directories
of `fs`. -/
theorem mv_eq_rename {fs' : Fs} (hdir : ∀ y, fs'.isDir y = fs.isDir y) {src dst : List Char}
    (hd : fs.pathIsDir cwd dst = false) : mv fs' cwd src dst = (fs'.rename cwd src dst).getD fs' := by
  simp [mv, pathIsDir_of_isDir_eq hdir, hd]

/-- The recipe's loop renames the files its words name, one after the other, from the tree where
the files of `S` are renamed. -/
theorem foldl_mv (h : fs.WF) (ent : List Char → List (List Char)) :
    ∀ (ws : List (List Char)) (S : List (List (List Char))),
      Batch fs metaTarget (S ++ ws.map ent) → (S ++ ws.map ent).Nodup →
      (∀ w ∈ ws, fs.lookup cwd w = some (ent w) ∧
        fs.createTarget cwd (replaceFirst "-local".toList [] w) = some (metaTarget (ent w)) ∧
        fs.pathIsDir cwd (replaceFirst "-local".toList [] w) = false) →
      ws.foldl (fun fs' i => mv fs' cwd i (replaceFirst "-local".toList [] i))
          (fs.renameAll metaTarget S) = fs.renameAll metaTarget (S ++ ws.map ent)
  | [], S, _, _, _ => by simp
  | w :: ws, S, hB, hnd, hws => by
    have hB' : Batch fs metaTarget ((S ++ [ent w]) ++ ws.map ent) := by simpa using hB
    have hnd' : ((S ++ [ent w]) ++ ws.map ent).Nodup := by simpa using hnd
    have he : ent w ∉ S := fun he => by
      simp only [List.map_cons, List.nodup_append, List.nodup_cons] at hnd
      exact hnd.2.2 he (List.mem_cons_self _ _)
    obtain ⟨hsrc, hdst, hpd⟩ := hws w (List.mem_cons_self w ws)
    have hBS : Batch fs metaTarget S := hB'.mono fun x hx => by simp [hx]
    rw [List.foldl_cons, mv_eq_rename (isDir_renameAll h hBS) hpd,
      rename_renameAll h (hB'.mono (List.subset_append_left _ _)) he hsrc hdst, Option.getD_some]
    simpa using foldl_mv h ent ws (S ++ [ent w]) hB' hnd'
      fun b hb => hws b (List.mem_cons_of_mem w hb)

/-- From the repository's directory, the words `find` prints name exactly the metadata files under
it. -/
theorem mem_find_iff (h : fs.WF) (hcwd : fs.isDir cwd) (hsafe : MetaSafe fs D) {dir : List Char}
    (hD : fs.lookup cwd dir = some D) (hDdir : fs.isDir D) (hpath : DirPath dir)
    (e : List (List Char)) :
    e ∈ (find fs cwd dir metaPattern).map (entryOf fs cwd) ↔ e ∈ metaSources fs D := by
  constructor
  · intro he
    obtain ⟨w, hw, rfl⟩ := List.mem_map.1 he
    exact (find_word h hcwd hsafe hD hDdir hpath hw).2.2.2.2
  · intro he
    obtain ⟨hx, ⟨r, rfl⟩, hm⟩ := mem_metaSources.1 he
    have hr : r ≠ [] := by
      rintro rfl
      rw [List.append_nil] at hx
      simp [isDir, kind?_of_mem h hx] at hDdir
    have hlen := length_le_length_entries h hx
    obtain ⟨w, hw, hl⟩ := mem_findAux_of_file h hcwd (fs.entries.length + 1) dir hD hDdir hx hm
      hr (by simp at hlen; omega)
    exact List.mem_map.2 ⟨w, hw, by simp [entryOf, hl]⟩

end Recipe

/-- On a `MetaSafe` repository whose path is a plain word without `-local` that `find` does not
read as an expression, the printed recipe renames the metadata files at once. -/
theorem runRenameMetadataFilesCommand_eq {fs : Fs} {cwd D : List (List Char)} {dir : List Char}
    (h : fs.WF) (hcwd : fs.isDir cwd) (hdir : IsPlainWord dir) (hdash : ¬ IsOptionWord dir)
    (hlocal : ¬ "-local".toList <:+: dir) (hD : fs.lookup cwd dir = some D) (hDdir : fs.isDir D)
    (hsafe : MetaSafe fs D) :
    runRenameMetadataFilesCommand fs cwd dir = some (fs.renameAll metaTarget (metaSources fs D)) := by
  have hB := batch_metaSources h hsafe.not_dir (metaTarget_inj h hsafe)
  have hpath : DirPath dir := ⟨hdir.1, hlocal, wordChars_of_isPlain hdir.2⟩
  have hword := fun w (hw : w ∈ find fs cwd dir metaPattern) =>
    find_word h hcwd hsafe hD hDdir hpath hw
  have hmem := mem_find_iff h hcwd hsafe hD hDdir hpath
  have hfold := foldl_mv h (entryOf fs cwd) (find fs cwd dir metaPattern) []
    (by simpa using hB.mono fun e he => (hmem e).1 he)
    (by simpa using nodup_findAux h hcwd hsafe _ dir hD hDdir (List.prefix_refl D) hpath)
    fun w hw => ⟨(hword w hw).2.1, (hword w hw).2.2.1, (hword w hw).2.2.2.1⟩
  rw [renameAll_nil, List.nil_append, renameAll_congr hmem] at hfold
  simp only [runRenameMetadataFilesCommand, shellWords_word hdir, List.flatMap_singleton,
    Option.bind_eq_bind, Option.some_bind, List.any_cons, List.any_nil, decide_eq_false hdash,
    Bool.or_false, Bool.false_eq_true, ↓reduceIte]
  rw [substitutionWords_lines fun w hw => (hword w hw).1]
  exact congrArg some hfold

/-- On a `MetaSafe` repository whose path is a plain word without `-local` that `find` does not
read as an expression, the printed recipe renames every metadata file to its name without
`-local` and changes nothing else, as `rename_local_meta_files` does. -/
theorem runRenameMetadataFilesCommand_spec {fs : Fs} {cwd D : List (List Char)} {dir : List Char}
    (h : fs.WF) (hcwd : fs.isDir cwd) (hdir : IsPlainWord dir) (hdash : ¬ IsOptionWord dir)
    (hlocal : ¬ "-local".toList <:+: dir) (hD : fs.lookup cwd dir = some D) (hDdir : fs.isDir D)
    (hsafe : MetaSafe fs D) :
    runRenameMetadataFilesCommand fs cwd dir = some (fs.renameAll metaTarget (metaSources fs D)) ∧
      renameLocalMetaFiles fs cwd dir = some (fs.renameAll metaTarget (metaSources fs D)) :=
  ⟨runRenameMetadataFilesCommand_eq h hcwd hdir hdash hlocal hD hDdir hsafe,
    renameLocalMetaFiles_eq h hcwd hD hDdir (batch_metaSources h hsafe.not_dir (metaTarget_inj h hsafe))⟩

theorem runRenameMetadataFilesCommand_spec_metaRepo :
    runRenameMetadataFilesCommand metaRepo [] "/repo".toList =
        some (metaRepo.renameAll metaTarget (metaSources metaRepo ["repo".toList])) ∧
      renameLocalMetaFiles metaRepo [] "/repo".toList =
        some (metaRepo.renameAll metaTarget (metaSources metaRepo ["repo".toList])) :=
  runRenameMetadataFilesCommand_spec (by decide) rfl (by decide) (by decide) (by decide) (by decide)
    (by decide) (by decide)

end DevTools.ReleaseCandidate
