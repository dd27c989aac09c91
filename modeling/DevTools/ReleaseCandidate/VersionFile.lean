import Mathlib.Logic.Function.Basic
import DevTools.Text
import DevTools.Effects

/-!
# Removing the snapshot bit from `Version.java`

`process_file` rewrites a text file line by line through a callback, writing the result to a
temporary file that replaces the original only when some line changed; `remove_version_snapshot`
uses it to turn `new Version(V_<release>_ID, true` into `... false` and raises when nothing was
replaced.

Files are a `Store` from paths to their decoded contents. The main result is
`removeVersionSnapshot_run`: the call raises exactly when the pattern does not occur in the file,
and then changes nothing; otherwise the file holds the whole decoded text with every occurrence
replaced. The decoded text is the file with its line ends read as `\n`, so that a file with `\r\n`
line ends comes back with `\n` ones (`removeVersionSnapshot_crlf`).
-/

namespace DevTools.ReleaseCandidate

/-- The files of the checkout, by path, with their decoded contents. -/
abbrev Store := List Char → Option (List Char)

/-- The exceptions of the release script's file handling. -/
inductive Exc
  | fileNotFound (path : List Char)
  | runtimeError (msg : List Char)
  deriving DecidableEq

/-- The release script's file operations: they change the `Store` and may raise. -/
abbrev FileM := EStateM Exc Store

/-- `open(path, 'w')` followed by writing `content`. -/
def writeFile (path content : List Char) : FileM Unit :=
  modify fun store => Function.update store path (some content)

/-- `open(path).read()`. -/
def readFile (path : List Char) : FileM (List Char) := do
  match (← get) path with
  | some content => pure content
  | none => throw (.fileNotFound path)

/-- `os.remove(path)`. -/
def removeFile (path : List Char) : FileM Unit := do
  match (← get) path with
  | some _ => modify fun store => Function.update store path none
  | none => throw (.fileNotFound path)

/-- `shutil.move(src, dst)`. -/
def moveFile (src dst : List Char) : FileM Unit := do
  let content ← readFile src
  writeFile dst content
  modify fun store => Function.update store src none

/-- The loop of `process_file`: the callback's lines are written out, and `modified` records whether
one of them differs from the line read. -/
def processLines (lineCallback : List Char → List Char) (lines : List (List Char)) :
    Bool × List Char :=
  lines.foldl (fun (modified, out) line =>
    let newLine := lineCallback line
    (modified || decide (newLine ≠ line), out ++ newLine)) (false, [])

/-- `process_file(file_path, line_callback)`; `tmp` is the path `tempfile.mkstemp` returns. -/
def processFile (tmp filePath : List Char) (lineCallback : List Char → List Char) : FileM Bool := do
  writeFile tmp []
  let text ← readFile filePath
  let (modified, out) := processLines lineCallback (readLines (translateNewlines text))
  writeFile tmp out
  if modified then
    removeFile filePath
    moveFile tmp filePath
    pure true
  else
    removeFile tmp
    pure false

/-- `new Version(V_<release>_ID, <snapshot>`, with `.` and `-` of the release turned into `_`. -/
def versionConstructor (release snapshot : List Char) : List Char :=
  "new Version(V_".toList ++ release ++ "_ID, ".toList ++ snapshot

/-- `release.replace('.', '_').replace('-', '_')`. -/
def versionId (release : List Char) : List Char :=
  replace ['-'] ['_'] (replace ['.'] ['_'] release)

/-- `remove_version_snapshot(version_file, release)`. -/
def removeVersionSnapshot (tmp versionFile release : List Char) : FileM Unit := do
  let release := versionId release
  let pattern := versionConstructor release "true".toList
  let replacement := versionConstructor release "false".toList
  let processed ← processFile tmp versionFile (replace pattern replacement)
  if !processed then
    throw (.runtimeError ("failed to remove snapshot version for ".toList ++ release))

/-! ## The file operations -/

section Store

variable {store : Store} {path src dst content : List Char}

@[simp] theorem writeFile_run :
    (writeFile path content).run store = .ok () (Function.update store path (some content)) := rfl

theorem readFile_run (h : store path = some content) :
    (readFile path).run store = .ok content store := by
  simp [readFile, run_bind_get, h]

theorem removeFile_run (h : store path = some content) :
    (removeFile path).run store = .ok () (Function.update store path none) := by
  simp [removeFile, run_bind_get, h]

theorem moveFile_run (h : store src = some content) :
    (moveFile src dst).run store =
      .ok () (Function.update (Function.update store dst (some content)) src none) := by
  rw [moveFile, run_bind_of_ok (readFile_run h), run_bind_of_ok writeFile_run, run_modify]

end Store

/-! ## The loop of `process_file` -/

theorem foldl_processLines (cb : List Char → List Char) :
    ∀ (lines : List (List Char)) (m : Bool) (out : List Char),
      lines.foldl (fun (modified, out) line =>
        (modified || decide (cb line ≠ line), out ++ cb line)) (m, out) =
      (m || lines.any (fun l => decide (cb l ≠ l)), out ++ (lines.map cb).flatten)
  | [], m, out => by simp
  | l :: ls, m, out => by
    rw [List.foldl_cons, foldl_processLines cb ls]
    simp [Bool.or_assoc, List.append_assoc]

theorem processLines_eq (cb : List Char → List Char) (lines : List (List Char)) :
    processLines cb lines = (lines.any (fun l => decide (cb l ≠ l)), (lines.map cb).flatten) := by
  unfold processLines
  simpa using foldl_processLines cb lines false []

/-! ## `process_file` -/

section ProcessFile

variable {store : Store} {tmp filePath text : List Char}

/-- Run on an existing file and a fresh temporary path, `process_file` replaces the file by the
callback's output exactly when a line changed; the temporary file is gone afterwards. -/
theorem processFile_run (cb : List Char → List Char) (hf : store filePath = some text)
    (ht : store tmp = none) :
    (processFile tmp filePath cb).run store =
      if (processLines cb (readLines (translateNewlines text))).1 then
        .ok true (Function.update store filePath
          (some (processLines cb (readLines (translateNewlines text))).2))
      else .ok false store := by
  have hne : filePath ≠ tmp := fun h => by simp [h, ht] at hf
  rw [processFile, run_bind_of_ok writeFile_run,
    run_bind_of_ok (readFile_run (by rwa [Function.update_noteq hne])), run_bind_of_ok writeFile_run]
  generalize processLines cb (readLines (translateNewlines text)) = r
  obtain ⟨modified, out⟩ := r
  simp only [Function.update_idem]
  cases modified
  · rw [if_neg Bool.false_ne_true, if_neg Bool.false_ne_true,
      run_bind_of_ok (removeFile_run (Function.update_same _ _ _)), Function.update_idem,
      (Function.update_eq_self_iff (f := store)).2 ht.symm, run_pure]
  · rw [if_pos rfl, if_pos rfl, run_bind_of_ok (removeFile_run (by rwa [Function.update_noteq hne])),
      run_bind_of_ok (moveFile_run (by rw [Function.update_noteq hne.symm, Function.update_same])),
      run_pure]
    congr 1
    funext x
    simp only [Function.update_apply]
    split_ifs <;> simp_all

end ProcessFile

/-! ## `remove_version_snapshot` -/

section Snapshot

variable {release : List Char}

theorem mem_versionId {c : Char} (h : c ∈ versionId release) : c ∈ release ∨ c = '_' := by
  rcases mem_of_mem_replace (by simp) h with h | h
  · exact (mem_of_mem_replace (by simp) h).imp id (by simpa using ·)
  · exact Or.inr (by simpa using h)

/-- The snapshot patterns bring no line break that the release does not have. -/
theorem not_mem_versionConstructor {c : Char} (hc : c = '\r' ∨ c = '\n') (hr : c ∉ release)
    {snapshot : List Char} (hs : c ∉ snapshot) : c ∉ versionConstructor (versionId release) snapshot := by
  intro h
  simp only [versionConstructor, List.mem_append] at h
  rcases h with ((h | h) | h) | h
  · rcases hc with rfl | rfl <;> simp at h
  · rcases mem_versionId h with h | rfl
    · exact hr h
    · rcases hc with h | h <;> cases h
  · rcases hc with rfl | rfl <;> simp at h
  · exact hs h

end Snapshot

/-- When the pattern is replaced by a longer text, some line changes exactly when the pattern
occurs in the whole text. -/
theorem any_replace_ne_iff {old new : List Char} (h0 : old ≠ []) (hl : old.length < new.length)
    {lines : List (List Char)}
    (hflat : (lines.map (replace old new)).flatten = replace old new lines.flatten) :
    lines.any (fun l => decide (replace old new l ≠ l)) = true ↔ old <:+: lines.flatten := by
  constructor
  · intro h
    obtain ⟨l, hl, hne⟩ := List.any_eq_true.1 h
    have hi : old <:+: l := by
      by_contra hi
      exact (decide_eq_true_iff.1 hne) (replace_of_no_occurrence hi)
    exact hi.trans (List.infix_of_mem_flatten hl)
  · intro hi
    by_contra h
    have hsame : lines.map (replace old new) = lines := by
      conv_rhs => rw [← List.map_id lines]
      exact List.map_congr_left fun l hl => by
        simpa using List.any_eq_false.1 (Bool.eq_false_iff.2 h) l hl
    rw [hsame] at hflat
    exact (replace_eq_self_iff h0 hl).1 hflat.symm hi

/-- `process_file` with a replacement by a longer text, for a pattern without line breaks: the file
is rewritten exactly when the pattern occurs in it, and then holds its decoded text with every
occurrence replaced. -/
theorem processFile_replace_run {store : Store} {tmp filePath text old new : List Char}
    (h0 : old ≠ []) (hl : old.length < new.length) (hr : '\r' ∉ old) (hn : '\n' ∉ old)
    (hf : store filePath = some text) (ht : store tmp = none) :
    (processFile tmp filePath (replace old new)).run store =
      if old <:+: text then
        .ok true (Function.update store filePath (some (replace old new (translateNewlines text))))
      else .ok false store := by
  have hflat := @flatten_map_replace old new h0 hn _ (readLines_dropLast (translateNewlines text))
  rw [flatten_readLines] at hflat
  have hany := any_replace_ne_iff h0 hl (hflat.trans (by rw [flatten_readLines]))
  rw [flatten_readLines, infix_translateNewlines_iff hr hn h0] at hany
  rw [processFile_run _ hf ht, processLines_eq, hflat]
  by_cases hi : old <:+: text
  · rw [if_pos (hany.2 hi), if_pos hi]
  · rw [if_neg (fun h => hi (hany.1 h)), if_neg hi]

section Snapshot

variable {store : Store} {tmp versionFile text release : List Char}

/-- `remove_version_snapshot` raises exactly when the pattern does not occur in the file, and then
leaves every file as it was; otherwise the file holds its decoded text with every occurrence of the
pattern replaced, and no other file changes. -/
theorem removeVersionSnapshot_run (hf : store versionFile = some text) (ht : store tmp = none)
    (hr : '\r' ∉ release) (hn : '\n' ∉ release) :
    (removeVersionSnapshot tmp versionFile release).run store =
      if versionConstructor (versionId release) "true".toList <:+: text then
        .ok () (Function.update store versionFile (some (replace
          (versionConstructor (versionId release) "true".toList)
          (versionConstructor (versionId release) "false".toList) (translateNewlines text))))
      else .error (.runtimeError ("failed to remove snapshot version for ".toList ++ versionId release))
        store := by
  have h := @processFile_replace_run store tmp versionFile text
    (versionConstructor (versionId release) "true".toList)
    (versionConstructor (versionId release) "false".toList)
    (by simp [versionConstructor]) (by simp [versionConstructor])
    (not_mem_versionConstructor (.inl rfl) hr (by decide))
    (not_mem_versionConstructor (.inr rfl) hn (by decide)) hf ht
  simp only [removeVersionSnapshot]
  by_cases hi : versionConstructor (versionId release) "true".toList <:+: text
  · rw [if_pos hi] at h
    rw [run_bind_of_ok h, if_pos hi]
    rfl
  · rw [if_neg hi] at h
    rw [run_bind_of_ok h, if_neg hi]
    rfl

theorem removeVersionSnapshot_run_version_java :
    let store : Store := Function.update (fun _ => none) "Version.java".toList
      (some "new Version(V_2_0_0_beta1_ID, true, Version.LATEST);\n".toList)
    store "Version.java".toList = some "new Version(V_2_0_0_beta1_ID, true, Version.LATEST);\n".toList ∧
      store "tmp".toList = none ∧ '\r' ∉ "2.0.0-beta1".toList ∧ '\n' ∉ "2.0.0-beta1".toList ∧
      (removeVersionSnapshot "tmp".toList "Version.java".toList "2.0.0-beta1".toList).run store =
        if versionConstructor (versionId "2.0.0-beta1".toList) "true".toList <:+:
            "new Version(V_2_0_0_beta1_ID, true, Version.LATEST);\n".toList then
          .ok () (Function.update store "Version.java".toList (some (replace
            (versionConstructor (versionId "2.0.0-beta1".toList) "true".toList)
            (versionConstructor (versionId "2.0.0-beta1".toList) "false".toList)
            (translateNewlines "new Version(V_2_0_0_beta1_ID, true, Version.LATEST);\n".toList))))
        else .error (.runtimeError ("failed to remove snapshot version for ".toList ++
          versionId "2.0.0-beta1".toList)) store :=
  ⟨Function.update_same _ _ _, by decide, by decide, by decide,
    removeVersionSnapshot_run (Function.update_same _ _ _) (by decide) (by decide) (by decide)⟩

/-- With `\r\n` line ends, the rewritten file has `\n` ones: it is not `C.replace(p, q)`. -/
theorem removeVersionSnapshot_crlf :
    (removeVersionSnapshot "tmp".toList "Version.java".toList "1.0.0".toList).run
        (Function.update (fun _ => none) "Version.java".toList
          (some "new Version(V_1_0_0_ID, true\r\n".toList)) =
      .ok () (Function.update (fun _ => none) "Version.java".toList
        (some "new Version(V_1_0_0_ID, false\n".toList)) ∧
    "new Version(V_1_0_0_ID, false\n".toList ≠
      replace (versionConstructor (versionId "1.0.0".toList) "true".toList)
        (versionConstructor (versionId "1.0.0".toList) "false".toList)
        "new Version(V_1_0_0_ID, true\r\n".toList := by
  refine ⟨?_, by decide⟩
  have h := @processFile_replace_run
    (Function.update (fun _ => none) "Version.java".toList
      (some "new Version(V_1_0_0_ID, true\r\n".toList))
    "tmp".toList "Version.java".toList "new Version(V_1_0_0_ID, true\r\n".toList
    (versionConstructor (versionId "1.0.0".toList) "true".toList)
    (versionConstructor (versionId "1.0.0".toList) "false".toList)
    (by decide) (by decide) (by decide) (by decide) (Function.update_same _ _ _) (by decide)
  rw [if_pos (by decide)] at h
  simp only [removeVersionSnapshot]
  have hc : replace (versionConstructor (versionId "1.0.0".toList) "true".toList)
      (versionConstructor (versionId "1.0.0".toList) "false".toList)
      (translateNewlines "new Version(V_1_0_0_ID, true\r\n".toList) =
      "new Version(V_1_0_0_ID, false\n".toList := by decide
  rw [run_bind_of_ok h, Function.update_idem, if_neg (by decide), run_pure, hc]

end Snapshot

end DevTools.ReleaseCandidate
