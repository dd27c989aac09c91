import Mathlib
import DevTools.Renames
import DevTools.ReleaseCandidate.MetaFiles

/-!
# What `rename_local_meta_files` does

`rename_local_meta_files` and the recipe printed without `--deploy` are meant to make one step:
rename each file `maven-metadata-local.xml*` under the local repository to its name without
`-local`. This file states that step once, as `Fs.renameAll` of the files `metaSources fs D` under
the repository's entry `D` to their `metaTarget`s, and proves that the Python loop makes it
whenever no two metadata files get the same new name and no new name is a directory
(`renameLocalMetaFiles_spec`).

The loop is a walk that renames in each directory when it reaches it, after the renames in the
directories before. `walkSources` reads the files it renames off the tree before any rename; the
renames in one directory leave the others as they were (`Fs.names_renameAll`), so each step of
the walk renames its files from the tree where those before are renamed (`walkRename_renameAll`).
The files the walk renames are the metadata files, each once (`mem_walkSources`,
`mem_walkSources_of_file`, `nodup_walkSources`).
-/

namespace DevTools.ReleaseCandidate

open Fs

/-- The new path of a renamed metadata file: its name without `-local`, in the same directory. -/
def metaTarget (e : List (List Char)) : List (List Char) :=
  e.dropLast ++ [replace "-local".toList [] (e.getLastD [])]

/-- The metadata files under the entry `D`, in the order of the entries. -/
def metaSources (fs : Fs) (D : List (List Char)) : List (List (List Char)) :=
  (fs.entries.filter fun x =>
    x.2 = .file ∧ D <+: x.1 ∧ fnmatch (x.1.getLastD []) metaPattern).map Prod.fst

theorem mem_metaSources {fs : Fs} {D e : List (List Char)} :
    e ∈ metaSources fs D ↔
      (e, Kind.file) ∈ fs.entries ∧ D <+: e ∧ fnmatch (e.getLastD []) metaPattern := by
  simp only [metaSources, List.mem_map, List.mem_filter, decide_eq_true_eq]
  constructor
  · rintro ⟨⟨e, k⟩, ⟨hx, rfl, hD, hm⟩, rfl⟩
    exact ⟨hx, hD, hm⟩
  · exact fun ⟨hx, hD, hm⟩ => ⟨_, ⟨hx, rfl, hD, hm⟩, rfl⟩

@[simp] theorem metaTarget_append (E : List (List Char)) (n : List Char) :
    metaTarget (E ++ [n]) = E ++ [replace "-local".toList [] n] := by
  simp [metaTarget]

theorem dropLast_append_getLastD {e : List (List Char)} (he : e ≠ []) :
    e.dropLast ++ [e.getLastD []] = e := by
  rw [List.getLastD_eq_getLast?, List.getLast?_eq_getLast e he]
  exact List.dropLast_append_getLast he

/-! ## Metadata names -/

/-- The names `fnmatch` keeps are those that start with `maven-metadata-local.xml`. -/
theorem fnmatch_metaPattern (n : List Char) :
    fnmatch n metaPattern = true ↔ "maven-metadata-local.xml".toList <+: n := by
  have ht : translate metaPattern =
      "maven-metadata-local.xml".toList.map .lit ++ .star :: ([] : List Char).map .lit := by decide
  rw [fnmatch, ht, matchToks_lits_star_lits]
  simp [List.IsPrefix, eq_comm]

/-- Removing `-local` from a metadata name keeps `maven-metadata.` in front. -/
theorem replace_metaName (s : List Char) :
    replace "-local".toList [] ("maven-metadata-local.xml".toList ++ s) =
      "maven-metadata.xml".toList ++ replace "-local".toList [] s := by
  simp [replace_cons_of_not_starts, replace_cons_of_starts]

theorem isName_replace {n : List Char} (hn : IsName n) (hm : fnmatch n metaPattern) :
    IsName (replace "-local".toList [] n) := by
  obtain ⟨s, rfl⟩ := (fnmatch_metaPattern n).1 hm
  rw [replace_metaName]
  refine ⟨by simp, fun h => ?_, by simp, by simp⟩
  rcases (mem_of_mem_replace (by simp) (List.mem_append.1 h |>.resolve_left (by decide))) with h | h
  · exact hn.2.1 (List.mem_append_right _ h)
  · simp at h

/-- A renamed metadata file no longer matches the pattern. -/
theorem fnmatch_replace {n : List Char} (hm : fnmatch n metaPattern) :
    fnmatch (replace "-local".toList [] n) metaPattern = false := by
  obtain ⟨s, rfl⟩ := (fnmatch_metaPattern n).1 hm
  rw [replace_metaName, Bool.eq_false_iff, ne_eq, fnmatch_metaPattern]
  simp

/-- The metadata files form a batch of renames when no two of them get the same new name and no
new name is a directory. -/
theorem batch_metaSources {fs : Fs} {D : List (List Char)} (h : fs.WF)
    (hnotdir : ∀ e ∈ metaSources fs D, (metaTarget e, Kind.dir) ∉ fs.entries)
    (hinj : ∀ e ∈ metaSources fs D, ∀ e' ∈ metaSources fs D, metaTarget e = metaTarget e' → e = e') :
    Batch fs metaTarget (metaSources fs D) where
  file e he := (mem_metaSources.1 he).1
  sibling e he := by
    obtain ⟨hx, -, hm⟩ := mem_metaSources.1 he
    have hne := (h.parent _ hx).1
    refine ⟨_, isName_replace (h.names _ hx _ ?_) hm, rfl⟩
    rw [← dropLast_append_getLastD hne]
    simp
  not_dir := hnotdir
  inj := hinj
  fresh e he ht := by
    have hm := (mem_metaSources.1 ht).2.2
    rw [metaTarget, List.getLastD_concat, fnmatch_replace (mem_metaSources.1 he).2.2] at hm
    cases hm

/-! ## The walk -/

section Walk

variable {fs : Fs} {cwd : List (List Char)}

/-- The names of the files of the directory `e` that `fnmatch.filter` keeps. -/
def metaFilesIn (fs : Fs) (e : List (List Char)) : List (List Char) :=
  ((fs.names e false).filter fun name => !fs.isDir (e ++ [name])).filter (fnmatch · metaPattern)

/-- The files `rename_local_meta_files` renames, in the order it renames them, read off the tree
before any rename: the metadata files of each directory the walk reaches, then those under each of
its subdirectories in turn. -/
def walkSources (fs : Fs) (cwd : List (List Char)) : Nat → List Char → List (List (List Char))
  | 0, _ => []
  | n + 1, top =>
    match fs.lookup cwd top with
    | some e =>
      if fs.isDir e then
        (metaFilesIn fs e).map (e ++ [·]) ++
          (fs.names e true).flatMap fun d => walkSources fs cwd n (join top d)
      else []
    | none => []

theorem walkSources_succ {n : Nat} {top : List Char} {E : List (List Char)}
    (hE : fs.lookup cwd top = some E) (hd : fs.isDir E) :
    walkSources fs cwd (n + 1) top = (metaFilesIn fs E).map (E ++ [·]) ++
      (fs.names E true).flatMap fun d => walkSources fs cwd n (join top d) := by
  simp [walkSources, hE, hd]

theorem mem_metaFilesIn (h : fs.WF) {E : List (List Char)} {name : List Char} :
    name ∈ metaFilesIn fs E ↔ (E ++ [name], Kind.file) ∈ fs.entries ∧ fnmatch name metaPattern := by
  simp only [metaFilesIn, List.mem_filter, mem_names, Bool.not_eq_true', isDir,
    decide_eq_false_iff_not, and_assoc]
  constructor
  · rintro ⟨⟨k, hk⟩, hnd, hm⟩
    rw [kind?_of_mem h hk] at hnd
    cases k
    · exact ⟨hk, hm⟩
    · exact absurd rfl hnd
  · rintro ⟨hk, hm⟩
    exact ⟨⟨_, hk⟩, by simp [kind?_of_mem h hk], hm⟩

theorem nodup_metaFilesIn (h : fs.WF) (E : List (List Char)) : (metaFilesIn fs E).Nodup :=
  ((nodup_names h E false).sublist (List.filter_sublist _)).sublist (List.filter_sublist _)

theorem isName_of_mem (h : fs.WF) {E : List (List Char)} {n : List Char} {k : Kind}
    (hx : (E ++ [n], k) ∈ fs.entries) : IsName n :=
  h.names _ hx n (by simp)

theorem lookup_join_child (h : fs.WF) (hcwd : fs.isDir cwd) {top n : List Char}
    {E : List (List Char)} {k : Kind} (hE : fs.lookup cwd top = some E) (hd : fs.isDir E)
    (hx : (E ++ [n], k) ∈ fs.entries) : fs.lookup cwd (join top n) = some (E ++ [n]) := by
  rw [lookup_join_name h hcwd (isName_of_mem h hx) hE hd, kind?_of_mem h hx]
  rfl

/-- Every file the walk renames is a metadata file below the directory it starts from. -/
theorem mem_walkSources (h : fs.WF) (hcwd : fs.isDir cwd) :
    ∀ (n : Nat) (top : List Char) {E e : List (List Char)}, fs.lookup cwd top = some E →
      fs.isDir E → e ∈ walkSources fs cwd n top →
      (e, Kind.file) ∈ fs.entries ∧ fnmatch (e.getLastD []) metaPattern ∧ E <+: e.dropLast
  | 0, _, _, _, _, _, he => by simp [walkSources] at he
  | n + 1, top, E, e, hE, hd, he => by
    rw [walkSources_succ hE hd, List.mem_append, List.mem_map, List.mem_flatMap] at he
    rcases he with ⟨name, hname, rfl⟩ | ⟨d, hdir, he⟩
    · obtain ⟨hx, hm⟩ := (mem_metaFilesIn h).1 hname
      simpa using ⟨hx, hm⟩
    · have hx := mem_names_dir.1 hdir
      obtain ⟨hf, hm, hp⟩ := mem_walkSources h hcwd n (join top d)
        (lookup_join_child h hcwd hE hd hx) (by simp [isDir, kind?_of_mem h hx]) he
      exact ⟨hf, hm, (List.prefix_append E [d]).trans hp⟩

/-- The walk renames every metadata file below the directory it starts from, within its
fuel. -/
theorem mem_walkSources_of_file (h : fs.WF) (hcwd : fs.isDir cwd) :
    ∀ (n : Nat) (top : List Char) {E r : List (List Char)}, fs.lookup cwd top = some E →
      fs.isDir E → (E ++ r, Kind.file) ∈ fs.entries → fnmatch ((E ++ r).getLastD []) metaPattern →
      r ≠ [] → r.length ≤ n → E ++ r ∈ walkSources fs cwd n top
  | 0, _, _, _, _, _, _, _, hr, hn => absurd (List.eq_nil_of_length_eq_zero (by omega)) hr
  | n + 1, top, E, r, hE, hd, hx, hm, hr, hn => by
    rw [walkSources_succ hE hd, List.mem_append]
    match r, hr with
    | [name], _ =>
      exact .inl (List.mem_map.2 ⟨name, (mem_metaFilesIn h).2 ⟨hx, by simpa using hm⟩, rfl⟩)
    | d :: d' :: r', _ =>
      have hdx := mem_dir_of_mem_append h hx (List.cons_ne_nil d' r')
      refine .inr (List.mem_flatMap.2 ⟨d, mem_names_dir.2 hdx, ?_⟩)
      have := mem_walkSources_of_file h hcwd n (join top d) (r := d' :: r')
        (lookup_join_child h hcwd hE hd hdx) (by simp [isDir, kind?_of_mem h hdx])
        (by simpa using hx) (by simpa using hm) (by simp) (by simp at hn ⊢; omega)
      simpa using this

/-- The walk renames each file once. -/
theorem nodup_walkSources (h : fs.WF) (hcwd : fs.isDir cwd) :
    ∀ (n : Nat) (top : List Char) {E : List (List Char)}, fs.lookup cwd top = some E →
      fs.isDir E → (walkSources fs cwd n top).Nodup
  | 0, _, _, _, _ => List.nodup_nil
  | n + 1, top, E, hE, hd => by
    have hsubdir : ∀ d ∈ fs.names E true, ∀ e ∈ walkSources fs cwd n (join top d),
        E ++ [d] <+: e.dropLast := fun d hdir e he => by
      have hx := mem_names_dir.1 hdir
      exact (mem_walkSources h hcwd n (join top d) (lookup_join_child h hcwd hE hd hx)
        (by simp [isDir, kind?_of_mem h hx]) he).2.2
    rw [walkSources_succ hE hd, List.nodup_append, List.nodup_flatMap]
    refine ⟨(nodup_metaFilesIn h E).map fun a b hab => by simpa using hab,
      ⟨fun d hdir => ?_, ?_⟩, ?_⟩
    · have hx := mem_names_dir.1 hdir
      exact nodup_walkSources h hcwd n (join top d) (lookup_join_child h hcwd hE hd hx)
        (by simp [isDir, kind?_of_mem h hx])
    · refine (nodup_names h E true).imp_of_mem fun {d d'} hd hd' hne e he he' => hne ?_
      have h1 := hsubdir d hd e he
      have h2 := hsubdir d' hd' e he'
      simpa using List.prefix_of_prefix_length_le h1 h2 (by simp)
    · intro e he he'
      obtain ⟨name, -, rfl⟩ := List.mem_map.1 he
      obtain ⟨d, hdir, he'⟩ := List.mem_flatMap.1 he'
      have := (hsubdir d hdir _ he').length_le
      simp at this

end Walk

/-! ## The loop -/

section Run

variable {fs : Fs} {cwd : List (List Char)} {L0 : List (List (List Char))}

/-- The loop over the subdirectories of a directory the walk reached, given what the walk does
below them. -/
theorem foldlM_walkRename (h : fs.WF) (hcwd : fs.isDir cwd) {n : Nat} {top : List Char}
    {E : List (List Char)} (hE : fs.lookup cwd top = some E) (hd : fs.isDir E)
    (ih : ∀ (top' : List Char) (E' : List (List Char)) (S : List (List (List Char))),
      fs.lookup cwd top' = some E' → fs.isDir E' → List.Sublist (S ++ walkSources fs cwd n top') L0 →
      walkRename cwd n top' (fs.renameAll metaTarget S) =
        some (fs.renameAll metaTarget (S ++ walkSources fs cwd n top'))) :
    ∀ (ds : List (List Char)) (S : List (List (List Char))),
      (∀ d ∈ ds, (E ++ [d], Kind.dir) ∈ fs.entries) →
      List.Sublist (S ++ ds.flatMap fun d => walkSources fs cwd n (join top d)) L0 →
      ds.foldlM (fun fs' d => walkRename cwd n (join top d) fs') (fs.renameAll metaTarget S) =
        some (fs.renameAll metaTarget (S ++ ds.flatMap fun d => walkSources fs cwd n (join top d)))
  | [], S, _, _ => by simp
  | d :: ds, S, hds, hsub => by
    have hx := hds d (List.mem_cons_self d ds)
    rw [List.flatMap_cons, ← List.append_assoc] at hsub
    rw [List.foldlM_cons, ih _ _ S (lookup_join_child h hcwd hE hd hx)
      (by simp [isDir, kind?_of_mem h hx]) ((List.sublist_append_left _ _).trans hsub)]
    simpa using foldlM_walkRename h hcwd hE hd ih ds _
      (fun d' hd' => hds d' (List.mem_cons_of_mem d hd')) hsub

/-- Each step of the walk, from the tree where the files renamed before it are renamed, renames
the metadata files it reaches. `L0` is the list of all the renames, a batch of metadata files. -/
theorem walkRename_renameAll (h : fs.WF) (hcwd : fs.isDir cwd) (hB : Batch fs metaTarget L0)
    (hnd : L0.Nodup) (hL0 : ∀ e ∈ L0, fnmatch (e.getLastD []) metaPattern) :
    ∀ (n : Nat) (top : List Char) (E : List (List Char)) (S : List (List (List Char))),
      fs.lookup cwd top = some E → fs.isDir E → List.Sublist (S ++ walkSources fs cwd n top) L0 →
      walkRename cwd n top (fs.renameAll metaTarget S) =
        some (fs.renameAll metaTarget (S ++ walkSources fs cwd n top))
  | 0, _, _, S, _, _, _ => by simp [walkRename, walkSources]
  | n + 1, top, E, S, hE, hd, hsub => by
    rw [walkSources_succ hE hd] at hsub ⊢
    have hS : List.Sublist S L0 := (List.sublist_append_left _ _).trans hsub
    have hBS : Batch fs metaTarget S := hB.mono hS.subset
    have hdir := isDir_renameAll h hBS
    -- no file renamed before lies in `E`: it would be one of the files of `E`, renamed twice
    have hSE : ∀ e ∈ S, e.dropLast ≠ E := fun e he heE => by
      have hx := hB.file e (hS.subset he)
      have hne := (h.parent _ hx).1
      have hname : e.getLastD [] ∈ metaFilesIn fs E := (mem_metaFilesIn h).2
        ⟨by rw [← heE, dropLast_append_getLastD hne]; exact hx, hL0 e (hS.subset he)⟩
      refine List.disjoint_of_nodup_append (hnd.sublist hsub) he
        (List.mem_append_left _ (List.mem_map.2 ⟨_, hname, ?_⟩))
      rw [← heE, dropLast_append_getLastD hne]
    have hfiles : List.Sublist (S ++ (metaFilesIn fs E).map (E ++ [·])) L0 :=
      (List.sublist_append_left _ _).trans (by simpa only [List.append_assoc] using hsub)
    have hstep : ∀ name ∈ metaFilesIn fs E, fs.lookup cwd (join top name) = some (E ++ [name]) ∧
        fs.createTarget cwd (join top (replace "-local".toList [] name)) =
          some (metaTarget (E ++ [name])) := fun name hname => by
      obtain ⟨hx, hm⟩ := (mem_metaFilesIn h).1 hname
      exact ⟨lookup_join_child h hcwd hE hd hx, by
        rw [metaTarget_append]
        exact createTarget_join_name h hcwd (isName_replace (isName_of_mem h hx) hm) hE hd⟩
    rw [walkRename, lookup_of_isDir_eq hdir hE (kind?_ne_none_of_isDir hdir hd)]
    dsimp only
    simp only [hdir, if_pos hd, names_renameAll hBS hSE]
    rw [renameMetaFilesIn, show ((fs.names E false).filter fun name => !fs.isDir (E ++ [name])).filter
      (fnmatch · metaPattern) = metaFilesIn fs E from rfl,
      foldlM_rename h _ _ (E ++ [·]) _ S (hB.mono hfiles.subset) (hnd.sublist hfiles) hstep]
    simpa using foldlM_walkRename h hcwd hE hd (walkRename_renameAll h hcwd hB hnd hL0 n)
      (fs.names E true) (S ++ (metaFilesIn fs E).map (E ++ [·])) (fun d hd => mem_names_dir.1 hd)
      (by simpa only [List.append_assoc] using hsub)

/-- From the repository's directory, the walk renames exactly the metadata files under it. -/
theorem mem_walkSources_iff (h : fs.WF) (hcwd : fs.isDir cwd) {dir : List Char}
    {D : List (List Char)} (hD : fs.lookup cwd dir = some D) (hDdir : fs.isDir D)
    (e : List (List Char)) :
    e ∈ walkSources fs cwd (fs.entries.length + 1) dir ↔ e ∈ metaSources fs D := by
  rw [mem_metaSources]
  constructor
  · intro he
    obtain ⟨hx, hm, hp⟩ := mem_walkSources h hcwd _ dir hD hDdir he
    exact ⟨hx, hp.trans (List.dropLast_prefix e), hm⟩
  · rintro ⟨hx, ⟨r, rfl⟩, hm⟩
    have hr : r ≠ [] := by
      rintro rfl
      rw [List.append_nil] at hx
      simp [isDir, kind?_of_mem h hx] at hDdir
    have := length_le_length_entries h hx
    exact mem_walkSources_of_file h hcwd _ dir hD hDdir hx hm hr (by simp at this; omega)

end Run

/-- `rename_local_meta_files(path)` renames the metadata files under the directory `path` names
when they form a batch. -/
theorem renameLocalMetaFiles_eq {fs : Fs} {cwd D : List (List Char)} {dir : List Char}
    (h : fs.WF) (hcwd : fs.isDir cwd) (hD : fs.lookup cwd dir = some D) (hDdir : fs.isDir D)
    (hB : Batch fs metaTarget (metaSources fs D)) :
    renameLocalMetaFiles fs cwd dir = some (fs.renameAll metaTarget (metaSources fs D)) := by
  have hmem := mem_walkSources_iff h hcwd hD hDdir
  have hwalk := walkRename_renameAll h hcwd (hB.mono fun e he => (hmem e).1 he)
    (nodup_walkSources h hcwd _ dir hD hDdir)
    (fun e he => (mem_walkSources h hcwd _ dir hD hDdir he).2.1) (fs.entries.length + 1) dir D []
    hD hDdir (by simp)
  rw [renameAll_nil, List.nil_append] at hwalk
  rw [renameLocalMetaFiles, hwalk, renameAll_congr hmem]

/-- `rename_local_meta_files(path)` renames every metadata file under the directory `path` names
to its name without `-local`, and changes nothing else, when no two of them get the same new name
and no new name is a directory. -/
theorem renameLocalMetaFiles_spec {fs : Fs} {cwd D : List (List Char)} {dir : List Char}
    (h : fs.WF) (hcwd : fs.isDir cwd) (hD : fs.lookup cwd dir = some D) (hDdir : fs.isDir D)
    (hnotdir : ∀ e ∈ metaSources fs D, (metaTarget e, Kind.dir) ∉ fs.entries)
    (hinj : ∀ e ∈ metaSources fs D, ∀ e' ∈ metaSources fs D, metaTarget e = metaTarget e' → e = e') :
    renameLocalMetaFiles fs cwd dir = some (fs.renameAll metaTarget (metaSources fs D)) :=
  renameLocalMetaFiles_eq h hcwd hD hDdir (batch_metaSources h hnotdir hinj)

/-- A local repository with a metadata file and a file at its new name, and a checksum of a
metadata file one directory down. -/
def metaRepo : Fs :=
  ⟨[(["repo".toList], .dir), (["repo".toList, "org".toList], .dir),
    (["repo".toList, "org".toList, "maven-metadata-local.xml".toList], .file),
    (["repo".toList, "org".toList, "maven-metadata.xml".toList], .file),
    (["repo".toList, "org".toList, "x".toList], .dir),
    (["repo".toList, "org".toList, "x".toList, "maven-metadata-local.xml.sha1".toList], .file),
    (["repo".toList, "org".toList, "x".toList, "a.jar".toList], .file)]⟩

theorem renameLocalMetaFiles_spec_metaRepo :
    renameLocalMetaFiles metaRepo [] "/repo".toList =
      some (metaRepo.renameAll metaTarget (metaSources metaRepo ["repo".toList])) :=
  renameLocalMetaFiles_spec (by decide) rfl (by decide) (by decide) (by decide) (by decide)

end DevTools.ReleaseCandidate
