import Mathlib
import DevTools.Bwc.Script

/-!
# The command lines `main` hands to the shell

`main` builds three command lines by `%` formatting, with no quoting, and hands them to
`/bin/sh`: `rm -rf <release_dir>/config/shield` and the `esusers useradd` line through `run`, and
`zip -r <zipfile> data` in `compress`. For a releases directory, an output directory, a working
directory and a version written in plain characters (`IsPlain`), each line splits into its
intended argument vector (`mainCommands_words`), and the `rm -rf` line removes
`release_dir/config/shield` and nothing else, when the releases directory does not start with `-`,
which `rm` would read as options (`run_rmShieldCommand`). The `esusers` line is not one the model
spells out: the shell runs it as a program, which writes what the world's `writes` says
(`shellRun_esusersCommand`).

A blank in the releases directory splits the path into two words: with `-d 'my releases'` the
line removes the directory `my` and leaves `config/shield` in place (`run_rmShieldCommand_blank`).
-/

namespace DevTools.Bwc

/-! ## Paths in plain characters -/

theorem isPlain_releaseDirOf {releasesDir version : List Char} (hr : IsPlain releasesDir)
    (hv : IsPlain version) : IsPlain (releaseDirOf releasesDir version) :=
  isPlain_join hr (isPlain_append (by decide) hv)

theorem isPlain_archiveName {version : List Char} (hv : IsPlain version) :
    IsPlain (archiveName version) :=
  isPlain_append (isPlain_append (by decide) hv) (by decide)

/-- The archive path `compress` computes is one plain word. -/
theorem isPlainWord_zipfilePath {cwd : List (List Char)} (hcwd : ∀ n ∈ cwd, IsPlain n)
    {outputDir version : List Char} (hd : IsPlain outputDir) (hv : IsPlain version) :
    IsPlainWord (zipfilePath (cwdPath cwd) outputDir (archiveName version)) :=
  ⟨join_ne_nil _ (by simp [archiveName]),
    isPlain_join (isPlain_abspath (isPlain_cwdPath hcwd) hd) (isPlain_archiveName hv)⟩

/-! ## Words -/

section Words

variable {releaseDir : List Char}

theorem rmShieldCommand_words (h : IsPlain releaseDir) :
    shellWords (rmShieldCommand releaseDir) =
      some ["rm".toList, "-rf".toList, join releaseDir "config/shield".toList] := by
  have hp : IsPlainWord (join releaseDir "config/shield".toList) :=
    ⟨join_ne_nil _ (by simp), isPlain_join h (by decide)⟩
  show shellWords ("rm".toList ++ ' ' :: ("-rf".toList ++ ' ' ::
    join releaseDir "config/shield".toList)) = _
  rw [shellWords_word_blank (by decide), shellWords_word_blank (by decide), shellWords_word hp]
  rfl

theorem esusersCommand_words (h : IsPlain releaseDir) :
    shellWords (esusersCommand releaseDir) =
      some [join releaseDir "bin/shield/esusers".toList, "useradd".toList, "es_admin".toList,
        "-r".toList, "admin".toList, "-p".toList, "0123456789".toList] := by
  have hp : IsPlainWord (join releaseDir "bin/shield/esusers".toList) :=
    ⟨join_ne_nil _ (by simp), isPlain_join h (by decide)⟩
  have htail : shellWords " useradd es_admin -r admin -p 0123456789".toList =
      some ["useradd".toList, "es_admin".toList, "-r".toList, "admin".toList, "-p".toList,
        "0123456789".toList] := by decide
  show shellWords (join releaseDir "bin/shield/esusers".toList ++ ' ' ::
    " useradd es_admin -r admin -p 0123456789".toList) = _
  rw [shellWords_word_blank hp, htail]
  rfl

theorem zipCommand_words {zipfile directory : List Char} (hz : IsPlainWord zipfile)
    (hd : IsPlainWord directory) :
    shellWords (zipCommand zipfile directory) =
      some ["zip".toList, "-r".toList, zipfile, directory] := by
  have hc : zipCommand zipfile directory =
      "zip".toList ++ ' ' :: ("-r".toList ++ ' ' :: (zipfile ++ ' ' :: directory)) := by
    simp [zipCommand]
  rw [hc, shellWords_word_blank (by decide), shellWords_word_blank (by decide),
    shellWords_word_blank hz, shellWords_word hd]
  rfl

end Words

/-- For a releases directory, an output directory, a working directory and a version in plain
characters, the three command lines of `main` split into their intended argument vectors, each
path one word equal to the path Python computed. -/
theorem mainCommands_words {cwd : List (List Char)} (hcwd : ∀ n ∈ cwd, IsPlain n)
    {releasesDir outputDir version : List Char} (hr : IsPlain releasesDir)
    (hd : IsPlain outputDir) (hv : IsPlain version) :
    let releaseDir := releaseDirOf releasesDir version
    let zipfile := zipfilePath (cwdPath cwd) outputDir (archiveName version)
    shellWords (rmShieldCommand releaseDir) =
        some ["rm".toList, "-rf".toList, join releaseDir "config/shield".toList] ∧
      shellWords (esusersCommand releaseDir) =
        some [join releaseDir "bin/shield/esusers".toList, "useradd".toList, "es_admin".toList,
          "-r".toList, "admin".toList, "-p".toList, "0123456789".toList] ∧
      shellWords (zipCommand zipfile "data".toList) =
        some ["zip".toList, "-r".toList, zipfile, "data".toList] :=
  ⟨rmShieldCommand_words (isPlain_releaseDirOf hr hv),
    esusersCommand_words (isPlain_releaseDirOf hr hv),
    zipCommand_words (isPlainWord_zipfilePath hcwd hd hv) (by decide)⟩

theorem mainCommands_words_backwards :
    let releaseDir := releaseDirOf "backwards".toList "2.3.0".toList
    let zipfile := zipfilePath (cwdPath ["w".toList]) "out".toList (archiveName "2.3.0".toList)
    shellWords (rmShieldCommand releaseDir) =
        some ["rm".toList, "-rf".toList, join releaseDir "config/shield".toList] ∧
      shellWords (esusersCommand releaseDir) =
        some [join releaseDir "bin/shield/esusers".toList, "useradd".toList, "es_admin".toList,
          "-r".toList, "admin".toList, "-p".toList, "0123456789".toList] ∧
      shellWords (zipCommand zipfile "data".toList) =
        some ["zip".toList, "-r".toList, zipfile, "data".toList] :=
  mainCommands_words (by decide) (by decide) (by decide) (by decide)

/-! ## What `rm -rf` removes -/

/-- `run(command)` when `os.system` runs a line `shellRun` reads, the call succeeds and the line
exits with 0. -/
theorem run_run_of_shellRun {w : World} {command : List Char} {fs : Fs}
    (hok : w.succeeds w.clock = true) (h : shellRun w.fs w.cwd command = some (fs, 0)) :
    (run command).run w = .ok () { w with fs := fs, clock := w.clock + 1 } := by
  rw [run, run_bind_of_ok (system_run_of_shellRun hok h)]
  rfl

theorem join_config_shield (releaseDir : List Char) :
    join releaseDir "config/shield".toList =
      join (join releaseDir "config".toList) "shield".toList :=
  join_append_slash (b := "config".toList) (c := "shield".toList) releaseDir (by simp) rfl
    (by decide) rfl

/-- `rm -rf release_dir/config/shield` removes the tree the path names, when it exists, and
nothing else, for a release directory `rm` does not read as options. -/
theorem shellRun_rmShieldCommand {fs : Fs} {cwd : List (List Char)} (hcwd : ∀ n ∈ cwd, IsName n)
    {releaseDir : List Char} (h : IsPlain releaseDir) (hdash : ¬ IsOptionWord releaseDir) :
    shellRun fs cwd (rmShieldCommand releaseDir) =
      some ((if fs.pathExists cwd (join releaseDir "config/shield".toList) then
        fs.removeTree (resolve cwd releaseDir ++ ["config".toList, "shield".toList]) else fs), 0) := by
  have hres : resolve cwd (join releaseDir "config/shield".toList) =
      resolve cwd releaseDir ++ ["config".toList, "shield".toList] := by
    rw [join_config_shield, resolve_join_name (by decide), resolve_join_name (by decide)]
    simp
  have hlast : (split (join releaseDir "config/shield".toList)).2 = "shield".toList := by
    rw [join_config_shield]
    exact basename_join (join_ne_nil _ (by simp)) (by decide)
  have hop := not_isOptionWord_join hdash (b := "config/shield".toList) (by decide) (by decide)
  rw [shellRun, rmShieldCommand_words h]
  generalize join releaseDir "config/shield".toList = p at hres hlast hop ⊢
  dsimp only
  rw [List.any_cons, List.any_nil, decide_eq_false hop, Bool.false_or, if_neg Bool.false_ne_true,
    if_pos (⟨rfl, rfl⟩ : "rm".toList = "rm".toList ∧ "-rf".toList = "-rf".toList)]
  dsimp only [List.foldl_cons, List.foldl_nil, rmOperand]
  rw [hlast, if_neg (by decide)]
  cases hl : fs.lookup cwd p with
  | none => simp [Fs.pathExists, hl]
  | some e =>
    obtain rfl : e = resolve cwd releaseDir ++ ["config".toList, "shield".toList] :=
      (Fs.lookup_eq_resolve hcwd hl).trans hres
    split <;> simp_all [Fs.pathExists]

/-- The working directory `/w`, holding a directory `my` and the release `2.3.0` under
`my releases`, with its `config/shield`. -/
def blankWorld : World where
  fs := ⟨[(["w".toList], .dir), (["w".toList, "my".toList], .dir),
    (["w".toList, "my".toList, "notes".toList], .file),
    (["w".toList, "my releases".toList], .dir),
    (["w".toList, "my releases".toList, "elasticsearch-2.3.0".toList], .dir),
    (["w".toList, "my releases".toList, "elasticsearch-2.3.0".toList, "config".toList], .dir),
    (["w".toList, "my releases".toList, "elasticsearch-2.3.0".toList, "config".toList,
      "shield".toList], .dir)]⟩
  cwd := ["w".toList]
  tmpDirs := []
  procs := []
  node := none
  fresh := 0
  clock := 0
  succeeds := fun _ => true
  writes := fun _ _ fs => fs

/-- `run('rm -rf ' + join(release_dir, 'config/shield'))`, for a release directory in plain
characters that does not start with `-`, removes the tree `release_dir/config/shield` when it
exists and nothing else. -/
theorem run_rmShieldCommand {w : World} (hcwd : ∀ n ∈ w.cwd, IsName n) {releaseDir : List Char}
    (h : IsPlain releaseDir) (hdash : ¬ IsOptionWord releaseDir)
    (hok : w.succeeds w.clock = true) :
    (run (rmShieldCommand releaseDir)).run w = .ok () { w with
      fs := if w.fs.pathExists w.cwd (join releaseDir "config/shield".toList) then
          w.fs.removeTree (resolve w.cwd releaseDir ++ ["config".toList, "shield".toList])
        else w.fs,
      clock := w.clock + 1 } :=
  run_run_of_shellRun hok (shellRun_rmShieldCommand hcwd h hdash)

/-- The release directory of a releases directory `rm` does not read as options is not read as
options either. -/
theorem not_isOptionWord_releaseDirOf {releasesDir : List Char}
    (h : ¬ IsOptionWord releasesDir) (version : List Char) :
    ¬ IsOptionWord (releaseDirOf releasesDir version) := by
  rw [releaseDirOf]
  exact not_isOptionWord_join h (by simp [isabs]) (by simp [IsOptionWord])

/-- The `esusers` line is not one `shellRun` spells out, for `-r` and `-p` are options: the shell
runs it as a program, which writes what `writes` says. -/
theorem shellRun_esusersCommand {releaseDir : List Char} (h : IsPlain releaseDir) (fs : Fs)
    (cwd : List (List Char)) : shellRun fs cwd (esusersCommand releaseDir) = none := by
  rw [shellRun, esusersCommand_words h]
  rfl

/-- The working directory `/w` with the release `2.3.0` under `backwards`, whose `config/shield`
holds the file `users`. -/
def shieldWorld : World where
  fs := ⟨[(["w".toList], .dir), (["w".toList, "backwards".toList], .dir),
    (["w".toList, "backwards".toList, "elasticsearch-2.3.0".toList], .dir),
    (["w".toList, "backwards".toList, "elasticsearch-2.3.0".toList, "config".toList], .dir),
    (["w".toList, "backwards".toList, "elasticsearch-2.3.0".toList, "config".toList,
      "shield".toList], .dir),
    (["w".toList, "backwards".toList, "elasticsearch-2.3.0".toList, "config".toList,
      "shield".toList, "users".toList], .file)]⟩
  cwd := ["w".toList]
  tmpDirs := []
  procs := []
  node := none
  fresh := 0
  clock := 0
  succeeds := fun _ => true
  writes := fun _ _ fs => fs

theorem run_rmShieldCommand_backwards :
    shieldWorld.fs.pathExists shieldWorld.cwd
        (join (releaseDirOf "backwards".toList "2.3.0".toList) "config/shield".toList) ∧
      (run (rmShieldCommand (releaseDirOf "backwards".toList "2.3.0".toList))).run shieldWorld =
        .ok () { shieldWorld with
          fs := if shieldWorld.fs.pathExists shieldWorld.cwd
              (join (releaseDirOf "backwards".toList "2.3.0".toList) "config/shield".toList) then
            shieldWorld.fs.removeTree (resolve shieldWorld.cwd
              (releaseDirOf "backwards".toList "2.3.0".toList) ++ ["config".toList, "shield".toList])
            else shieldWorld.fs,
          clock := shieldWorld.clock + 1 } :=
  ⟨by decide, run_rmShieldCommand (by decide) (by decide) (by decide) rfl⟩

/-- In `shieldWorld` the line removes `config/shield` with the file in it, and nothing else. -/
example : (outcome ((run (rmShieldCommand (releaseDirOf "backwards".toList "2.3.0".toList))).run
    shieldWorld)).2.fs =
      ⟨[(["w".toList], .dir), (["w".toList, "backwards".toList], .dir),
        (["w".toList, "backwards".toList, "elasticsearch-2.3.0".toList], .dir),
        (["w".toList, "backwards".toList, "elasticsearch-2.3.0".toList, "config".toList],
          .dir)]⟩ := by
  decide

/-- With `-d 'my releases'`, the `rm -rf` line splits into the words `my` and
`releases/elasticsearch-2.3.0/config/shield`: it removes the directory `my` with what it holds,
and leaves `config/shield` in place. -/
theorem run_rmShieldCommand_blank :
    shellWords (rmShieldCommand (releaseDirOf "my releases".toList "2.3.0".toList)) =
        some ["rm".toList, "-rf".toList, "my".toList,
          "releases/elasticsearch-2.3.0/config/shield".toList] ∧
      (outcome ((run (rmShieldCommand (releaseDirOf "my releases".toList "2.3.0".toList))).run
        blankWorld)).2.fs =
        ⟨[(["w".toList], .dir), (["w".toList, "my releases".toList], .dir),
          (["w".toList, "my releases".toList, "elasticsearch-2.3.0".toList], .dir),
          (["w".toList, "my releases".toList, "elasticsearch-2.3.0".toList, "config".toList], .dir),
          (["w".toList, "my releases".toList, "elasticsearch-2.3.0".toList, "config".toList,
            "shield".toList], .dir)]⟩ := by
  decide

end DevTools.Bwc
