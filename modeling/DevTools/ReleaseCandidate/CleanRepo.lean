import Mathlib
import DevTools.ReleaseCandidate.VersionFile
import DevTools.ReleaseCandidate.MetaRecipe

/-!
# `clean_repo_command` and the `--deploy` branch

After the Maven install, the release script cleans the local repository in two steps. With
`--deploy` it runs `clean_repo_command`, `find D -name _remote.repositories -exec rm {} \;`, through
`run`, which raises when the command fails, and then calls `rename_local_meta_files(D)`; without it,
it prints `clean_repo_command` and `rename_metadata_files_command` for the user to run.

`findExecRm` is `find -exec rm` as it runs: `rm` goes when `find` reaches a path, and `find` lists a
directory when it reaches it, in the tree the steps before have left. `rm` refuses a directory,
so the walk never loses a directory it has still to go through, and from a directory it removes
exactly the files under it whose name matches (`findExecRm_dir`, by induction on the fuel, with
`foldl_findExecRm` for the loop over the names of one directory). The command therefore leaves
`cleaned fs D`, the tree without the files named `_remote.repositories` under the repository
(`runCleanRepoCommand_spec`). Those files are not metadata files, so the renames that follow
are those of the tree before (`metaSources_removeMatched`), and on a `MetaSafe` repository the branch
with `--deploy` and the printed recipe leave the same tree (`installAndDeploySteps_spec`).
-/

namespace DevTools.ReleaseCandidate

open Fs

/-- The name of the files `clean_repo_command` removes. -/
def remoteRepositories : List Char := "_remote.repositories".toList

/-- `clean_repo_command`, the line run with `--deploy` and printed without it, for
`localRepoElasticsearch = dir`. -/
def cleanRepoCommand (dir : List Char) : List Char :=
  "find ".toList ++ dir ++ " -name _remote.repositories -exec rm \x7b\x7d \\;".toList

/-- `rm path` without options: a file goes; `rm` refuses a directory and a path that names
nothing, and the tree stays as it was. -/
def rm (fs : Fs) (cwd : List (List Char)) (path : List Char) : Fs :=
  match fs.lookup cwd path with
  | some e => if fs.isDir e then fs else fs.remove e
  | none => fs

/-- `find path -name pattern -exec rm {} \;` with its fuel: `rm` runs on the path when its last
component matches; from a directory, `find` lists its names and goes on from each in turn, in the
tree the steps before have left. -/
def findExecRm (cwd : List (List Char)) (pattern : List Char) : Nat → List Char → Fs → Fs
  | 0, _, fs => fs
  | n + 1, path, fs =>
    match fs.lookup cwd path with
    | some e =>
      let fs' := if fnmatch (basename (rstripSlash path)) pattern then rm fs cwd path else fs
      if fs.isDir e then
        (fs'.names e false).foldl (fun fs'' name => findExecRm cwd pattern n (join path name) fs'') fs'
      else fs'
    | none => fs

/-- What the shell does with `cleanRepoCommand dir`: `find` goes from each word of `dir` in turn,
and fails when one of them names nothing. The tree it leaves and whether it succeeded; `none` for
a line outside the modelled part of the shell, or with a word of `dir` that `find` reads as an
expression. -/
def runCleanRepoCommand (fs : Fs) (cwd : List (List Char)) (dir : List Char) :
    Option (Fs × Bool) := do
  let starts ← shellWords dir
  if starts.any fun w => decide (IsOptionWord w) then none
  else some (starts.foldl (fun acc start =>
    (findExecRm cwd remoteRepositories (acc.1.entries.length + 1) start acc.1,
      acc.2 && (acc.1.lookup cwd start).isSome)) (fs, true))

/-- The `install_and_deploy` branch after the install: `run(clean_repo_command)`, which raises when
the command fails, then `rename_local_meta_files(localRepoElasticsearch)`; `none` where the model
has no answer: a line outside the modelled shell, or an `os.rename` that raises. -/
def installAndDeploySteps (fs : Fs) (cwd : List (List Char)) (dir : List Char) :
    Option (Except Exc Fs) :=
  match runCleanRepoCommand fs cwd dir with
  | some (fs', true) => (renameLocalMetaFiles fs' cwd dir).map .ok
  | some (_, false) => some (.error (.runtimeError ("    FAILED: ".toList ++ cleanRepoCommand dir)))
  | none => none

/-- The two steps printed without `--deploy`, run one after the other in a shell. -/
def recipeSteps (fs : Fs) (cwd : List (List Char)) (dir : List Char) : Option Fs := do
  let (fs', _) ← runCleanRepoCommand fs cwd dir
  runRenameMetadataFilesCommand fs' cwd dir

/-- What `clean_repo_command` is for: the tree without the files named `_remote.repositories`
under the entry `D`. -/
def cleaned (fs : Fs) (D : List (List Char)) : Fs :=
  ⟨fs.entries.filter fun x => ¬ (x.2 = .file ∧ D <+: x.1 ∧ x.1.getLastD [] = remoteRepositories)⟩

/-! ## What `find -exec rm` removes -/

/-- A file under the entry `E` whose name matches `pattern`. -/
def Matched (pattern : List Char) (E : List (List Char)) (x : List (List Char) × Kind) : Prop :=
  x.2 = .file ∧ E <+: x.1 ∧ fnmatch (x.1.getLastD []) pattern

instance (pattern : List Char) (E : List (List Char)) : DecidablePred (Matched pattern E) :=
  fun x => inferInstanceAs (Decidable (x.2 = .file ∧ E <+: x.1 ∧ _))

/-- The tree without the files under `E` whose name matches `pattern`. -/
def removeMatched (fs : Fs) (pattern : List Char) (E : List (List Char)) : Fs :=
  ⟨fs.entries.filter fun x => ¬ Matched pattern E x⟩

section Find

variable {fs : Fs} {cwd : List (List Char)} {pattern : List Char}

theorem rm_of_isDir {p : List Char} {e : List (List Char)} (hp : fs.lookup cwd p = some e)
    (he : fs.isDir e) : rm fs cwd p = fs := by
  simp [rm, hp, he]

theorem mem_of_mem_removeMatched {E : List (List Char)} {x : List (List Char) × Kind}
    (hx : x ∈ (removeMatched fs pattern E).entries) : x ∈ fs.entries :=
  List.mem_of_mem_filter hx

/-- Removing files keeps every directory. -/
theorem isDir_removeMatched (h : fs.WF) (E y : List (List Char)) :
    (removeMatched fs pattern E).isDir y = fs.isDir y := by
  have hnd : ((removeMatched fs pattern E).entries.map Prod.fst).Nodup :=
    h.nodup.sublist ((List.filter_sublist _).map _)
  refine Bool.eq_iff_iff.2 ⟨fun hy => isDir_mono hnd h.nodup hy mem_of_mem_removeMatched,
    fun hy => isDir_mono h.nodup hnd hy fun hm => List.mem_filter.2 ⟨hm, by simp [Matched]⟩⟩

theorem wf_removeMatched (h : fs.WF) (E : List (List Char)) : (removeMatched fs pattern E).WF :=
  wf_filter h fun _ _ _ _ => by simp [Matched]

theorem lookup_removeMatched (h : fs.WF) {E e : List (List Char)} {p : List Char}
    (hp : fs.lookup cwd p = some e) (he : fs.isDir e) :
    (removeMatched fs pattern E).lookup cwd p = some e :=
  lookup_of_isDir_eq (isDir_removeMatched h E) hp
    (kind?_ne_none_of_isDir (isDir_removeMatched h E) he)

/-- Every entry above an entry exists. -/
theorem kind?_ne_none_of_prefix (h : fs.WF) {x : List (List Char) × Kind} (hx : x ∈ fs.entries)
    {e : List (List Char)} (hp : e <+: x.1) : fs.kind? e ≠ none := by
  rcases eq_or_ne e x.1 with rfl | hne
  · simp [kind?_of_mem h hx]
  · have hd : fs.isDir e := isDir_of_prefix_of_isDir h (List.prefix_of_prefix_length_le hp
      (List.dropLast_prefix _) (by
        have := lt_of_le_of_ne hp.length_le fun hl => hne (hp.eq_of_length hl)
        simp only [List.length_dropLast]
        omega)) (h.parent x hx).2
    simp_all [isDir]

/-- A file under a directory is under one of its names. -/
theorem exists_matched_child_iff (h : fs.WF) {E : List (List Char)} (hd : fs.isDir E)
    {x : List (List Char) × Kind} (hx : x ∈ fs.entries) :
    (∃ c ∈ fs.names E false, Matched pattern (E ++ [c]) x) ↔ Matched pattern E x := by
  constructor
  · rintro ⟨c, -, hk, hp, hm⟩
    exact ⟨hk, (List.prefix_append E [c]).trans hp, hm⟩
  · rintro ⟨hk, ⟨r, hr⟩, hm⟩
    obtain ⟨x, k⟩ := x
    dsimp only at hk hr hm
    subst hk hr
    cases r with
    | nil =>
      rw [List.append_nil] at hx
      simp [isDir, kind?_of_mem h hx] at hd
    | cons c r =>
      have hc : c ∈ fs.names E false := by
        rcases eq_or_ne r [] with rfl | hr
        · exact mem_names.2 ⟨_, hx⟩
        · exact mem_names.2 ⟨_, mem_dir_of_mem_append h hx hr⟩
      exact ⟨c, hc, rfl, ⟨r, by simp⟩, hm⟩

/-- Under a file there is nothing but the file: it goes when its name matches. -/
theorem removeMatched_of_file (h : fs.WF) {F : List (List Char)} (hx : (F, Kind.file) ∈ fs.entries) :
    removeMatched fs pattern F = if fnmatch (F.getLastD []) pattern then fs.remove F else fs := by
  have hbelow : ∀ y ∈ fs.entries, F <+: y.1 → y = (F, .file) := fun ⟨y, k⟩ hy hp => by
    obtain rfl := eq_of_prefix_of_file h hx hp (h.parent _ hy).2
    rw [kind_eq_of_mem h.nodup hy hx]
  unfold remove removeMatched
  split_ifs with hm
  · refine congrArg Fs.mk (List.filter_congr fun y hy => ?_)
    by_cases hp : F <+: y.1
    · obtain rfl := hbelow y hy hp
      simpa [Matched] using hm
    · have hne : y.1 ≠ F := fun he => hp (he ▸ List.prefix_refl _)
      simp [Matched, hp, hne]
  · exact congrArg Fs.mk (List.filter_eq_self.2 fun y hy =>
      decide_eq_true fun ⟨_, hp, hm'⟩ => hm (by simpa [hbelow y hy hp] using hm'))

/-- `find -exec rm` from a name in a directory, given what it does from a directory. -/
theorem findExecRm_child {n : Nat}
    (ih : ∀ {fs : Fs} {path : List Char} {E : List (List Char)}, fs.WF → fs.isDir cwd →
      fs.lookup cwd path = some E → fs.isDir E →
      (∀ x ∈ fs.entries, E <+: x.1 → x.1.length < E.length + n) →
      findExecRm cwd pattern n path fs = removeMatched fs pattern E)
    {path c : List Char} {E : List (List Char)} (h : fs.WF) (hcwd : fs.isDir cwd)
    (hE : fs.lookup cwd path = some E) (hd : fs.isDir E) (hc : IsName c)
    (hn : ∀ x ∈ fs.entries, E <+: x.1 → x.1.length < E.length + n + 1) :
    findExecRm cwd pattern n (join path c) fs = removeMatched fs pattern (E ++ [c]) := by
  have hl := lookup_join_name h hcwd hc hE hd
  rcases hk : fs.kind? (E ++ [c]) with _ | _ | _
  · -- nothing has the name: nothing is under it
    have hself : removeMatched fs pattern (E ++ [c]) = fs := by
      exact congrArg Fs.mk (List.filter_eq_self.2 fun x hx =>
        decide_eq_true fun ⟨_, hp, _⟩ => kind?_ne_none_of_prefix h hx hp hk)
    rw [hk] at hl
    cases n <;> simp [findExecRm, hl, hself]
  · -- a file: `rm` removes it when its name matches
    have hx := mem_of_kind?_eq_some (by simp) hk
    obtain ⟨m, rfl⟩ : ∃ m, n = m + 1 := ⟨n - 1, by have := hn _ hx (by simp); simp at this; omega⟩
    have hp0 : path ≠ [] := by rintro rfl; simp [lookup] at hE
    rw [hk, Option.map_some'] at hl
    simp [findExecRm, hl, basename_rstripSlash_join hp0 hc, rm, isDir, hk, removeMatched_of_file h hx]
  · -- a directory: what `find` does from a directory
    rw [hk, Option.map_some'] at hl
    exact ih h hcwd hl (by simp [isDir, hk]) fun x hx hp => by
      have := hn x hx ((List.prefix_append E [c]).trans hp)
      simp only [List.length_append, List.length_singleton]
      omega

/-- The loop over the names of a directory `find` reached, given what it does from a directory:
each name removes the matching files under it from the tree the names before left. -/
theorem foldl_findExecRm {n : Nat}
    (ih : ∀ {fs : Fs} {path : List Char} {E : List (List Char)}, fs.WF → fs.isDir cwd →
      fs.lookup cwd path = some E → fs.isDir E →
      (∀ x ∈ fs.entries, E <+: x.1 → x.1.length < E.length + n) →
      findExecRm cwd pattern n path fs = removeMatched fs pattern E)
    {path : List Char} {E : List (List Char)} :
    ∀ (cs : List (List Char)) (fs : Fs), fs.WF → fs.isDir cwd → fs.lookup cwd path = some E →
      fs.isDir E → (∀ c ∈ cs, IsName c) →
      (∀ x ∈ fs.entries, E <+: x.1 → x.1.length < E.length + n + 1) →
      cs.foldl (fun fs' c => findExecRm cwd pattern n (join path c) fs') fs =
        ⟨fs.entries.filter fun x => ¬ ∃ c ∈ cs, Matched pattern (E ++ [c]) x⟩
  | [], fs, _, _, _, _, _, _ => by simp
  | c :: cs, fs, h, hcwd, hE, hd, hcs, hn => by
    rw [List.foldl_cons, findExecRm_child ih h hcwd hE hd (hcs c (List.mem_cons_self c cs)) hn,
      foldl_findExecRm ih cs _ (wf_removeMatched h _) (by rwa [isDir_removeMatched h])
        (lookup_removeMatched h hE hd) (by rwa [isDir_removeMatched h])
        (fun c' hc' => hcs c' (List.mem_cons_of_mem c hc'))
        fun x hx => hn x (mem_of_mem_removeMatched hx)]
    simp only [removeMatched, List.filter_filter, List.mem_cons, exists_eq_or_imp, not_or]
    exact congrArg Fs.mk (List.filter_congr fun x _ => by rw [Bool.decide_and, Bool.and_comm])

/-- From a directory, `find -exec rm` removes exactly the files under it whose name matches,
within its fuel. -/
theorem findExecRm_dir : ∀ (n : Nat) {fs : Fs} {path : List Char} {E : List (List Char)},
    fs.WF → fs.isDir cwd → fs.lookup cwd path = some E → fs.isDir E →
    (∀ x ∈ fs.entries, E <+: x.1 → x.1.length < E.length + n) →
    findExecRm cwd pattern n path fs = removeMatched fs pattern E
  | 0, fs, _, E, _, _, _, _, hn => by
    exact (congrArg Fs.mk (List.filter_eq_self.2 fun x hx =>
      decide_eq_true (p := ¬ Matched pattern E x) fun ⟨_, hp, _⟩ => by
      have := hn x hx hp
      have := hp.length_le
      omega)).symm
  | n + 1, fs, path, E, h, hcwd, hE, hd, hn => by
    have hfs : (if fnmatch (basename (rstripSlash path)) pattern then rm fs cwd path else fs) =
        fs := by
      split_ifs <;> simp [rm_of_isDir hE hd]
    simp only [findExecRm, hE, hfs, hd, if_true]
    rw [foldl_findExecRm (findExecRm_dir n) _ fs h hcwd hE hd
      (fun c hc => isName_of_mem h (mem_names.1 hc).choose_spec) fun x hx hp => by
        have := hn x hx hp; omega]
    exact congrArg Fs.mk (List.filter_congr fun x hx => by
      simp only [decide_not, exists_matched_child_iff h hd hx])

end Find

/-! ## `clean_repo_command` -/

theorem fnmatch_remoteRepositories (n : List Char) :
    fnmatch n remoteRepositories = true ↔ n = remoteRepositories := by
  have ht : translate remoteRepositories = remoteRepositories.map .lit := by decide
  rw [fnmatch, ht, matchToks_lits]

theorem removeMatched_remoteRepositories (fs : Fs) (D : List (List Char)) :
    removeMatched fs remoteRepositories D = cleaned fs D := by
  simp only [removeMatched, cleaned, Matched, fnmatch_remoteRepositories]

/-- From the repository's directory, the command removes the matching files under it, and
succeeds. -/
theorem runCleanRepoCommand_eq {fs : Fs} {cwd D : List (List Char)} {dir : List Char}
    (h : fs.WF) (hcwd : fs.isDir cwd) (hdir : IsPlainWord dir) (hdash : ¬ IsOptionWord dir)
    (hD : fs.lookup cwd dir = some D) (hDdir : fs.isDir D) :
    runCleanRepoCommand fs cwd dir = some (removeMatched fs remoteRepositories D, true) := by
  simp only [runCleanRepoCommand, shellWords_word hdir, Option.bind_eq_bind, Option.some_bind,
    List.any_cons, List.any_nil, decide_eq_false hdash, Bool.or_false, Bool.false_eq_true,
    ↓reduceIte, List.foldl_cons, List.foldl_nil, hD, Option.isSome_some, Bool.and_true]
  rw [findExecRm_dir _ h hcwd hD hDdir fun x hx _ => by
    have := length_le_length_entries h hx; omega]

/-- `clean_repo_command` removes every file named `_remote.repositories` under the directory
`localRepoElasticsearch` names, and nothing else, and `run` does not raise, when the path is one
word that `find` does not read as an expression. -/
theorem runCleanRepoCommand_spec {fs : Fs} {cwd D : List (List Char)} {dir : List Char}
    (h : fs.WF) (hcwd : fs.isDir cwd) (hdir : IsPlainWord dir) (hdash : ¬ IsOptionWord dir)
    (hD : fs.lookup cwd dir = some D) (hDdir : fs.isDir D) :
    runCleanRepoCommand fs cwd dir = some (cleaned fs D, true) := by
  rw [runCleanRepoCommand_eq h hcwd hdir hdash hD hDdir, removeMatched_remoteRepositories]

/-- A local repository with a `_remote.repositories` file, a directory of that name holding one,
and a metadata file. -/
def remoteRepo : Fs :=
  ⟨[(["repo".toList], .dir), (["repo".toList, "_remote.repositories".toList], .file),
    (["repo".toList, "org".toList], .dir),
    (["repo".toList, "org".toList, "_remote.repositories".toList], .dir),
    (["repo".toList, "org".toList, "_remote.repositories".toList, "_remote.repositories".toList],
      .file),
    (["repo".toList, "org".toList, "maven-metadata-local.xml".toList], .file)]⟩

theorem runCleanRepoCommand_spec_remoteRepo :
    runCleanRepoCommand remoteRepo [] "/repo".toList = some (cleaned remoteRepo ["repo".toList], true) :=
  runCleanRepoCommand_spec (by decide) rfl (by decide) (by decide) (by decide) (by decide)

/-- `rm` refuses the directory named `_remote.repositories`, and `find` goes on into it. -/
example : runCleanRepoCommand remoteRepo [] "/repo".toList =
    some (⟨[(["repo".toList], .dir), (["repo".toList, "org".toList], .dir),
      (["repo".toList, "org".toList, "_remote.repositories".toList], .dir),
      (["repo".toList, "org".toList, "maven-metadata-local.xml".toList], .file)]⟩, true) := by
  decide

/-! ## The two ways to clean the repository -/

/-- The files `clean_repo_command` removes are not metadata files. -/
theorem metaSources_removeMatched (fs : Fs) (D : List (List Char)) :
    metaSources (removeMatched fs remoteRepositories D) D = metaSources fs D := by
  simp only [metaSources, removeMatched, List.filter_filter]
  congr 1
  refine List.filter_congr fun x _ => Bool.and_iff_left_iff_imp.2 fun hx =>
    decide_eq_true (p := ¬ Matched remoteRepositories D x) fun ⟨_, _, hr⟩ => ?_
  have := (fnmatch_metaPattern _).1 (of_decide_eq_true hx).2.2
  rw [(fnmatch_remoteRepositories _).1 hr] at this
  exact absurd this (by decide)

theorem metaSafe_removeMatched {fs : Fs} {D : List (List Char)} (hsafe : MetaSafe fs D) :
    MetaSafe (removeMatched fs remoteRepositories D) D := by
  have hsub := fun x (hx : x ∈ (removeMatched fs remoteRepositories D).entries) =>
    mem_of_mem_removeMatched hx
  refine ⟨fun x hx => hsafe.words x (hsub x hx), fun x hx => hsafe.dirs x (hsub x hx), ?_, ?_⟩ <;>
    rw [metaSources_removeMatched]
  · exact hsafe.once
  · exact fun e he hx => hsafe.not_dir e he (hsub _ hx)

/-- After `clean_repo_command`, `rename_local_meta_files` renames the metadata files of the tree
before, when they form a batch there. -/
theorem renameLocalMetaFiles_removeMatched {fs : Fs} {cwd D : List (List Char)} {dir : List Char}
    (h : fs.WF) (hcwd : fs.isDir cwd) (hD : fs.lookup cwd dir = some D) (hDdir : fs.isDir D)
    (hnotdir : ∀ e ∈ metaSources fs D, (metaTarget e, Kind.dir) ∉ fs.entries)
    (hinj : ∀ e ∈ metaSources fs D, ∀ e' ∈ metaSources fs D, metaTarget e = metaTarget e' → e = e') :
    renameLocalMetaFiles (removeMatched fs remoteRepositories D) cwd dir =
      some ((removeMatched fs remoteRepositories D).renameAll metaTarget (metaSources fs D)) := by
  have h' : (removeMatched fs remoteRepositories D).WF := wf_removeMatched h D
  rw [← metaSources_removeMatched fs D]
  refine renameLocalMetaFiles_eq h' (by rwa [isDir_removeMatched h]) (lookup_removeMatched h hD hDdir)
    (by rwa [isDir_removeMatched h]) (batch_metaSources h' ?_ ?_) <;> rw [metaSources_removeMatched]
  · exact fun e he hx => hnotdir e he (mem_of_mem_removeMatched hx)
  · exact hinj

/-- On a `MetaSafe` repository whose path is a plain word without `-local` that `find` does not
read as an expression, the branch with `--deploy` removes the `_remote.repositories` files and
renames the metadata files, and the two steps printed without it leave the same tree. -/
theorem installAndDeploySteps_spec {fs : Fs} {cwd D : List (List Char)} {dir : List Char}
    (h : fs.WF) (hcwd : fs.isDir cwd) (hdir : IsPlainWord dir) (hdash : ¬ IsOptionWord dir)
    (hlocal : ¬ "-local".toList <:+: dir) (hD : fs.lookup cwd dir = some D) (hDdir : fs.isDir D)
    (hsafe : MetaSafe fs D) :
    installAndDeploySteps fs cwd dir =
        some (.ok ((cleaned fs D).renameAll metaTarget (metaSources fs D))) ∧
      recipeSteps fs cwd dir = some ((cleaned fs D).renameAll metaTarget (metaSources fs D)) := by
  have hc := runCleanRepoCommand_eq h hcwd hdir hdash hD hDdir
  rw [← removeMatched_remoteRepositories]
  refine ⟨?_, ?_⟩
  · rw [installAndDeploySteps, hc]
    dsimp only
    rw [renameLocalMetaFiles_removeMatched h hcwd hD hDdir hsafe.not_dir (metaTarget_inj h hsafe)]
    rfl
  · simp only [recipeSteps, hc, Option.bind_eq_bind, Option.some_bind]
    rw [← metaSources_removeMatched fs D]
    exact runRenameMetadataFilesCommand_eq (wf_removeMatched h D) (by rwa [isDir_removeMatched h])
      hdir hdash hlocal (lookup_removeMatched h hD hDdir) (by rwa [isDir_removeMatched h])
      (metaSafe_removeMatched hsafe)

theorem installAndDeploySteps_spec_remoteRepo :
    installAndDeploySteps remoteRepo [] "/repo".toList = some (.ok ((cleaned remoteRepo
        ["repo".toList]).renameAll metaTarget (metaSources remoteRepo ["repo".toList]))) ∧
      recipeSteps remoteRepo [] "/repo".toList = some ((cleaned remoteRepo
        ["repo".toList]).renameAll metaTarget (metaSources remoteRepo ["repo".toList])) :=
  installAndDeploySteps_spec (by decide) rfl (by decide) (by decide) (by decide) (by decide)
    (by decide) (by decide)

end DevTools.ReleaseCandidate
