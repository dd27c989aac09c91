import Mathlib
import DevTools.Bwc.Commands
import DevTools.Bwc.Fixtures

/-!
# Runs in which every outside call succeeds

When every outside call succeeds (`AllSucceed`), one turn of `main`'s loop raises nothing on the
inputs it is meant for, ends in the working directory it started in, and changes the file system
as `turnFs` says (`triple_processVersion_turnFs`). For a version it builds, that is what
`bin/plugin remove`, the `rm -rf` of the release's `config/shield` (`shieldRemoved`),
`bin/plugin install`, the `esusers` line and the node write, in that order (`preparedFs`), then
the old archive removed and the new one written (`archiveWritten`). The programs the model does
not spell out write as the world's `writes` says, so `turnFs` takes it as a parameter, with the
counter that names the temporary directory the node's data goes to.

`At W fs cwd k` is a world in which every call succeeds and programs write as `W` says, with the
file system `fs`, the working directory `cwd` and the counter `k`. `Calm` computations return
from such a world and keep it, `Yields x a` ones also return `a`; each primitive of the script is
one or the other, and the steps that read or change the file system, the working directory or
the counter get a triple of their own.

The readiness loop of `create_client` is given for every pattern of success (`waitForNode_run`):
it returns after the first attempt that succeeds, and raises `NameError` after the last.
-/

namespace DevTools.Bwc

/-! ## Worlds where every outside call succeeds -/

/-- Every outside call succeeds. -/
def AllSucceed (w : World) : Prop := ∀ n, w.succeeds n = true

/-- A world in which every outside call succeeds and programs write as `W` says, with the file
system `fs`, the working directory `cwd` and the counter `k`. -/
def At (W : Writes) (fs : Fs) (cwd : List (List Char)) (k : Nat) (w : World) : Prop :=
  AllSucceed w ∧ w.writes = W ∧ w.fs = fs ∧ w.cwd = cwd ∧ w.fresh = k

/-- `x` returns and keeps the file system, the working directory and the counter, where every
outside call succeeds. -/
def Calm {α : Type} (x : M α) : Prop :=
  ∀ W fs cwd k, Triple (At W fs cwd k) x (fun _ => At W fs cwd k) fun _ _ => False

/-- `x` is `Calm` and returns `a`. -/
def Yields {α : Type} (x : M α) (a : α) : Prop :=
  ∀ W fs cwd k, Triple (At W fs cwd k) x (fun b w => At W fs cwd k w ∧ b = a) fun _ _ => False

section Rules

variable {α β : Type} {x : M α} {f : α → M β} {a : α} {W : Writes} {fs : Fs}
  {cwd : List (List Char)} {k : Nat} {Q : β → World → Prop}

theorem Calm.bind (hx : Calm x) (hf : ∀ a, Calm (f a)) : Calm (x >>= f) :=
  fun W fs cwd k => (hx W fs cwd k).bind fun a => hf a W fs cwd k

theorem Calm.then (hx : Calm x) (hf : ∀ a, Triple (At W fs cwd k) (f a) Q fun _ _ => False) :
    Triple (At W fs cwd k) (x >>= f) Q fun _ _ => False :=
  (hx W fs cwd k).bind hf

theorem Yields.then (hx : Yields x a) (hf : Triple (At W fs cwd k) (f a) Q fun _ _ => False) :
    Triple (At W fs cwd k) (x >>= f) Q fun _ _ => False :=
  (hx W fs cwd k).bind fun _ => Triple.and_const fun hb => hb ▸ hf

theorem Yields.bind (hx : Yields x a) (hf : Calm (f a)) : Calm (x >>= f) :=
  fun W fs cwd k => hx.then (hf W fs cwd k)

theorem Yields.bind_yields {b : β} (hx : Yields x a) (hf : Yields (f a) b) : Yields (x >>= f) b :=
  fun W fs cwd k => hx.then (hf W fs cwd k)

theorem calm_pure (a : α) : Calm (pure a : M α) := fun _ _ _ _ _ h => h

theorem yields_pure (a : α) : Yields (pure a : M α) a := fun _ _ _ _ _ h => ⟨h, rfl⟩

theorem calm_get_bind {f : World → M β} (hf : ∀ w, Calm (f w)) : Calm (get >>= f) :=
  fun W fs cwd k w hw => hf w W fs cwd k w hw

end Rules

/-! ## Waiting for the node -/

theorem find?_range_succ (p : Nat → Bool) (n : Nat) :
    (List.range (n + 1)).find? p =
      if p 0 then some 0 else ((List.range n).find? (p ∘ Nat.succ)).map Nat.succ := by
  rw [List.range_succ_eq_map, List.find?_cons]
  cases p 0 <;> simp [List.find?_map]

/-- The loop of `create_client` with `n` attempts, for every pattern of success: it returns after
the first attempt that succeeds, and raises `NameError: timeout` after `n` failed ones. -/
theorem waitForNode_run : ∀ (n : Nat) (w : World), (waitForNode n).run w =
    match (List.range n).find? fun k => w.succeeds (w.clock + k) with
    | some k => .ok () { w with clock := w.clock + k + 1 }
    | none => .error (.nameError "timeout".toList) { w with clock := w.clock + n }
  | 0, _ => rfl
  | n + 1, w => by
    have hf : ((fun k => w.succeeds (w.clock + k)) ∘ Nat.succ) =
        fun k => w.succeeds (w.clock + 1 + k) := by
      funext k
      simp only [Function.comp, Nat.succ_eq_add_one]
      congr 1
      omega
    rw [find?_range_succ]
    show (attempt >>= fun b => if b = true then pure () else waitForNode n).run w = _
    rw [run_bind_of_ok (x := attempt) (s := w) rfl]
    cases hb : w.succeeds w.clock
    · simp only [Nat.add_zero, hb, hf, Bool.false_eq_true, if_false]
      rw [waitForNode_run n]
      cases (List.range n).find? fun k => w.succeeds (w.clock + 1 + k) with
      | none => simp only [Option.map_none']; congr 2; omega
      | some k => simp only [Option.map_some']; congr 2; omega
    · simp [hb]

/-! ## Steps that keep the file system, the working directory and the counter -/

theorem yields_attempt : Yields attempt true := fun _ _ _ _ w hw => ⟨hw, hw.1 w.clock⟩

theorem calm_check (e : Exc) : Calm (check true e) := calm_pure ()

theorem yields_portInUse (port : Nat) : Yields (portInUse port) false :=
  yields_attempt.bind_yields (yields_pure _)

/-- Where every call succeeds, the readiness loop returns after its first attempt. -/
theorem calm_waitForNode (n : Nat) : Calm (waitForNode (n + 1)) := fun _ _ _ _ w hw => by
  rw [waitForNode_run, find?_range_succ, if_pos (hw.1 _)]
  exact hw

theorem calm_indexDoc (name : List Char) : Calm (indexDoc name) :=
  yields_attempt.bind (calm_check _)

theorem calm_generateSecurityIndex (version : List Char) : Calm (generateSecurityIndex version) :=
  yields_attempt.bind <| (calm_check _).bind fun _ => yields_attempt.bind <|
    (calm_check _).bind fun _ => (calm_indexDoc _).bind fun _ => (calm_indexDoc _).bind fun _ =>
    (calm_indexDoc _).bind fun _ => (calm_indexDoc _).bind fun _ =>
    (calm_indexDoc _).bind fun _ => yields_attempt.bind <| (calm_check _).bind fun _ =>
    yields_attempt.bind (calm_check _)

theorem calm_shutdownNode (n : Nat) : Calm (shutdownNode n) :=
  (yields_attempt.bind fun _ _ _ _ _ h => h).bind fun _ => yields_attempt.bind fun _ _ _ _ _ h => h

theorem calm_setNode (node : Option Nat) : Calm (setNode node) := fun _ _ _ _ _ h => h

theorem calm_shutdownLeftover : Calm shutdownLeftover := calm_get_bind fun _ => by
  split
  · exact calm_shutdownNode _
  · exact calm_pure ()

theorem calm_cleanup (tmpDir : List Char) : Calm (cleanup tmpDir) :=
  calm_shutdownLeftover.bind fun _ _ _ _ _ _ h => h

/-! ## Steps that read or change them -/

section Steps

variable {W : Writes} {fs : Fs} {cwd : List (List Char)} {k : Nat}

theorem triple_getcwd_at :
    Triple (At W fs cwd k) getcwd (fun c w => At W fs cwd k w ∧ c = cwdPath cwd)
      fun _ _ => False :=
  fun _ hw => ⟨hw, congrArg cwdPath hw.2.2.2.1⟩

theorem triple_pathExists_at (path : List Char) :
    Triple (At W fs cwd k) (pathExists path)
      (fun b w => At W fs cwd k w ∧ b = fs.pathExists cwd path) fun _ _ => False :=
  fun w hw => ⟨hw, by rw [← hw.2.2.1, ← hw.2.2.2.1]⟩

theorem triple_chdir_at (path : List Char) :
    Triple (At W fs cwd k) (chdir path) (fun _ => At W fs (resolve cwd path) k) fun _ _ => False :=
  fun _ ⟨hs, hW, hfs, hc, hk⟩ => ⟨hs, hW, hfs, hc ▸ rfl, hk⟩

theorem triple_mkdtemp_at :
    Triple (At W fs cwd k) mkdtemp (fun t w => At W fs cwd (k + 1) w ∧ t = tmpPath k)
      fun _ _ => False :=
  fun _ ⟨hs, hW, hfs, hc, hk⟩ => ⟨⟨hs, hW, hfs, hc, hk ▸ rfl⟩, hk ▸ rfl⟩

theorem triple_removeFile_at {path : List Char} {e : List (List Char)}
    (he : fs.lookup cwd path = some e) (hd : fs.isDir e = false) :
    Triple (At W fs cwd k) (removeFile path) (fun _ => At W (fs.remove e) cwd k)
      fun _ _ => False :=
  fun w ⟨hs, hW, hfs, hc, hk⟩ => by
    subst hW hfs hc hk
    simp only [removeFile, run_bind_get, he, hd, Bool.false_eq_true, if_false, run_modify]
    exact ⟨hs, rfl, rfl, rfl, rfl⟩

/-- A program run with `check_call` writes as `W` says. -/
theorem triple_checkCall_at (args : List (List Char)) :
    Triple (At W fs cwd k) (checkCall args) (fun _ => At W (W cwd args fs) cwd k)
      fun _ _ => False :=
  fun w ⟨hs, hW, hfs, hc, hk⟩ => by
    subst hW hfs hc hk
    rw [checkCall, run_bind_of_ok (x := spawn args) rfl, hs]
    exact ⟨hs, rfl, rfl, rfl, rfl⟩

/-- The node writes as `W` says and takes the next process id. -/
theorem triple_popen_at (args : List (List Char)) :
    Triple (At W fs cwd k) (popen args) (fun _ => At W (W cwd args fs) cwd (k + 1))
      fun _ _ => False :=
  yields_attempt.then fun _ ⟨hs, hW, hfs, hc, hk⟩ => by
    subst hW hfs hc hk
    exact ⟨hs, rfl, rfl, rfl, rfl⟩

theorem triple_startNode_at (version releaseDir dataDir : List Char) :
    Triple (At W fs cwd k) (startNode version releaseDir dataDir)
      (fun _ => At W (W cwd (nodeArgs version releaseDir dataDir) fs) cwd (k + 1))
      fun _ _ => False :=
  (yields_portInUse _).then <| (calm_check _).then fun _ => (yields_portInUse _).then <|
    (calm_check _).then fun _ => triple_popen_at _

/-- A line `shellRun` spells out changes the file system as it says. -/
theorem triple_system_at {command : List Char} {fs' : Fs} {status : Nat}
    (h : shellRun fs cwd command = some (fs', status)) :
    Triple (At W fs cwd k) (system command) (fun s w => At W fs' cwd k w ∧ s = status)
      fun _ _ => False :=
  fun w ⟨hs, hW, hfs, hc, hk⟩ => by
    subst hW hfs hc hk
    rw [system_run_of_shellRun (hs _) h]
    exact ⟨⟨hs, rfl, rfl, rfl, rfl⟩, rfl⟩

/-- Any other line writes as `W` says, and exits with 0. -/
theorem triple_system_writes_at {command : List Char} (h : shellRun fs cwd command = none) :
    Triple (At W fs cwd k) (system command)
      (fun s w => At W (W cwd (shArgs command) fs) cwd k w ∧ s = 0) fun _ _ => False :=
  fun w ⟨hs, hW, hfs, hc, hk⟩ => by
    subst hW hfs hc hk
    rw [system_run_of_none h, hs]
    exact ⟨⟨hs, rfl, rfl, rfl, rfl⟩, rfl⟩

/-- `run(command)` and `check_call(command, shell=True)` of a line that exits with 0. -/
theorem triple_system_check {command : List Char} {fs' : Fs} {e : Exc}
    (h : Triple (At W fs cwd k) (system command) (fun s w => At W fs' cwd k w ∧ s = 0)
      fun _ _ => False) :
    Triple (At W fs cwd k) (system command >>= fun s => check (s = 0) e)
      (fun _ => At W fs' cwd k) fun _ _ => False :=
  h.bind fun _ => Triple.and_const fun hs => by
    subst hs
    exact calm_check e W fs' cwd k

end Steps

/-! ## What a turn does to the file system -/

/-- What `rm -rf release_dir/config/shield` leaves (`shellRun_rmShieldCommand`). -/
def shieldRemoved (fs : Fs) (cwd : List (List Char)) (releaseDir : List Char) : Fs :=
  if fs.pathExists cwd (join releaseDir "config/shield".toList) then
    fs.removeTree (resolve cwd releaseDir ++ ["config".toList, "shield".toList])
  else fs

/-- What the programs of a built version write before its archive, in the order the `try` block
runs them: `bin/plugin remove` of `license` and `shield`, the `rm -rf` of `config/shield`,
`bin/plugin install` of `license` and `shield`, the `esusers useradd` line, and the node. -/
def preparedFs (W : Writes) (cwd : List (List Char)) (version releaseDir dataDir : List Char)
    (fs : Fs) : Fs :=
  W cwd (nodeArgs version releaseDir dataDir) <|
  W cwd (shArgs (esusersCommand releaseDir)) <|
  W cwd (pluginArgs releaseDir "install".toList ["shield".toList]) <|
  W cwd (pluginArgs releaseDir "install".toList ["license".toList]) <|
  shieldRemoved (W cwd (pluginArgs releaseDir "remove".toList ["shield".toList]) <|
    W cwd (pluginArgs releaseDir "remove".toList ["license".toList]) fs) cwd releaseDir

/-- What `compress` leaves: the archive removed if it exists, then written. -/
def archiveWritten (fs : Fs) (cwd : List (List Char)) (zipfile : List Char) : Fs :=
  (if fs.pathExists cwd zipfile then fs.remove (resolve cwd zipfile) else fs).writeFile
    (resolve cwd zipfile)

/-- The file system and the counter after one turn of `main`'s loop in which every outside call
succeeded: a version below 2.3.0 is skipped; for the others the programs write, the node's data
going to `data` in the temporary directory the counter names, then the archive is written, and
the counter has named the temporary directory and the node. -/
def turnFs (cfg : Config) (cwd : List (List Char)) (W : Writes) (s : Fs × Nat)
    (version : List Char) : Fs × Nat :=
  if belowMinimum version = some false then
    (archiveWritten (preparedFs W cwd version (releaseDirOf cfg.releasesDir version)
        (join (tmpPath s.2) "data".toList) s.1) cwd
      (zipfilePath (cwdPath cwd) cfg.outputDir (archiveName version)), s.2 + 2)
  else s

theorem wf_shieldRemoved {fs : Fs} (h : fs.WF) (cwd : List (List Char)) (releaseDir : List Char) :
    (shieldRemoved fs cwd releaseDir).WF := by
  unfold shieldRemoved
  split_ifs
  · exact Fs.wf_removeTree h _
  · exact h

theorem mem_archiveWritten {fs : Fs} {cwd : List (List Char)} {zipfile : List Char}
    {x : List (List Char) × Kind} :
    x ∈ (archiveWritten fs cwd zipfile).entries ↔
      (x ∈ fs.entries ∧ x.1 ≠ resolve cwd zipfile) ∨ x = (resolve cwd zipfile, Kind.file) := by
  unfold archiveWritten
  split_ifs <;> simp [and_assoc]

/-- Removing a file, where no directory has its path, keeps the file system well formed and every
other directory, and leaves no directory at the path; so does keeping the file. -/
theorem wf_ite_remove {fs : Fs} (h : fs.WF) {p : List (List Char)} (hp : p ≠ [])
    (hd : fs.isDir p = false) (b : Bool) :
    (if b then fs.remove p else fs).WF ∧
      (∀ e, fs.isDir e → e ≠ p → (if b then fs.remove p else fs).isDir e) ∧
      (if b then fs.remove p else fs).isDir p = false := by
  cases b
  · exact ⟨h, fun _ he _ => he, hd⟩
  · have hr := Fs.wf_remove h hd
    exact ⟨hr, fun e he hne => Fs.isDir_mono h.nodup hr.nodup he fun hm => Fs.mem_remove.2 ⟨hm, hne⟩,
      Fs.isDir_eq_false hr.nodup hp fun h0 => (Fs.mem_remove.1 h0).2 rfl⟩

/-- Writing the archive into a directory, where no directory has its name, keeps the file system
well formed. -/
theorem wf_archiveWritten {fs : Fs} (h : fs.WF) {cwd : List (List Char)} {zipfile : List Char}
    (hA0 : resolve cwd zipfile ≠ []) (hn : ∀ n ∈ resolve cwd zipfile, IsName n)
    (hpar : fs.isDir (resolve cwd zipfile).dropLast) (hd : fs.isDir (resolve cwd zipfile) = false) :
    (archiveWritten fs cwd zipfile).WF := by
  obtain ⟨hr, hdir, hA⟩ := wf_ite_remove h hA0 hd (fs.pathExists cwd zipfile)
  refine Fs.wf_writeFile hr hA0 hn (hdir _ hpar fun h' => ?_) hA
  have := congrArg List.length h'
  have := List.length_pos.2 hA0
  simp only [List.length_dropLast] at *
  omega

/-- What `compress` needs of the file system it starts in: well formed, the output directory a
directory, no directory at the archive's path. -/
structure ZipReady (fs : Fs) (cwd : List (List Char)) (outputDir version : List Char) : Prop where
  wf : fs.WF
  dir : fs.isDir (resolve cwd outputDir)
  archive : (resolve cwd outputDir ++ [archiveName version], Kind.dir) ∉ fs.entries

section Turn

variable {W : Writes} {fs : Fs} {cwd : List (List Char)} {k : Nat}

/-- `compress_index` of a version in plain characters, into an output directory in plain
characters. -/
theorem triple_compressIndex (hcwd : ∀ n ∈ cwd, IsName n ∧ IsPlain n)
    {outputDir version : List Char} (hout : IsPlain outputDir) (hv : IsPlain version)
    (hslash : '/' ∉ version) (hz : ZipReady fs cwd outputDir version) (tmpDir : List Char) :
    Triple (At W fs cwd k) (compressIndex version tmpDir outputDir)
      (fun _ => At W (archiveWritten fs cwd (zipfilePath (cwdPath cwd) outputDir
        (archiveName version))) cwd k) fun _ _ => False := by
  have hnames : ∀ n ∈ cwd, IsName n := fun n hn => (hcwd n hn).1
  have hres := resolve_zipfilePath hnames cwd outputDir hslash
  generalize hzp : zipfilePath (cwdPath cwd) outputDir (archiveName version) = z at hres
  have hz0 : resolve cwd z ≠ [] := by simp [hres]
  have hAdir := Fs.isDir_eq_false hz.wf.nodup hz0 (hres ▸ hz.archive)
  -- the file system `zip` runs in: the old archive removed, if it existed
  obtain ⟨hwf, hdir, hA⟩ := wf_ite_remove hz.wf hz0 hAdir (fs.pathExists cwd z)
  have hO := hdir _ hz.dir (by rw [hres]; simp)
  have hstep : Triple (At W fs cwd k) (if fs.pathExists cwd z then removeFile z else pure ())
      (fun _ => At W (if fs.pathExists cwd z then fs.remove (resolve cwd z) else fs) cwd k)
      fun _ _ => False := by
    cases hp : fs.pathExists cwd z
    · exact calm_pure () W fs cwd k
    · obtain ⟨e, he⟩ := Option.isSome_iff_exists.1 hp
      have hr := Fs.lookup_eq_resolve hnames he
      rw [if_pos rfl, if_pos rfl]
      exact triple_removeFile_at (he.trans (congrArg some hr)) (hr ▸ hAdir)
  unfold compressIndex compress
  refine triple_getcwd_at.bind fun c => Triple.and_const fun hc => ?_
  subst hc
  rw [hzp]
  refine (triple_pathExists_at z).bind fun b => Triple.and_const fun hb => ?_
  subst hb
  refine hstep.bind fun _ => ?_
  refine triple_getcwd_at.bind fun c => Triple.and_const fun hc => ?_
  subst hc
  refine (triple_chdir_at tmpDir).bind fun _ => ?_
  have hzip := shellRun_zipCommand hwf hcwd hout hv hslash hO (hres ▸ hA) (resolve cwd tmpDir)
  rw [hzp, ← hres] at hzip
  refine (triple_system_check (triple_system_at hzip)).bind fun _ => ?_
  refine ((triple_chdir_at _).mono (fun _ h => h) (fun _ w hw => ?_) fun _ _ h => h)
  rwa [resolve_cwdPath hnames] at hw

/-- The `try` block of a version: the programs write, then the archive is written. -/
theorem triple_buildIndex_at (hcwd : ∀ n ∈ cwd, IsName n ∧ IsPlain n)
    {version releaseDir outputDir : List Char}
    (hrel : IsPlain releaseDir ∧ ¬ IsOptionWord releaseDir) (hout : IsPlain outputDir)
    (hv : IsPlain version) (hslash : '/' ∉ version) (tmpDir dataDir : List Char)
    (hz : ZipReady (preparedFs W cwd version releaseDir dataDir fs) cwd outputDir version) :
    Triple (At W fs cwd k) (buildIndex version releaseDir tmpDir dataDir outputDir)
      (fun _ => At W (archiveWritten (preparedFs W cwd version releaseDir dataDir fs) cwd
        (zipfilePath (cwdPath cwd) outputDir (archiveName version))) cwd (k + 1))
      fun _ _ => False := by
  have hrm : ∀ fs' : Fs, shellRun fs' cwd (rmShieldCommand releaseDir) =
      some (shieldRemoved fs' cwd releaseDir, 0) := fun _ =>
    shellRun_rmShieldCommand (fun n hn => (hcwd n hn).1) hrel.1 hrel.2
  unfold buildIndex
  refine (triple_checkCall_at _).bind fun _ => (triple_checkCall_at _).bind fun _ => ?_
  refine (triple_system_check (triple_system_at (hrm _))).bind fun _ => ?_
  refine (triple_checkCall_at _).bind fun _ => (triple_checkCall_at _).bind fun _ => ?_
  refine (triple_system_check (triple_system_writes_at
    (shellRun_esusersCommand hrel.1 _ _))).bind fun _ => ?_
  refine (triple_startNode_at _ _ _).bind fun node => ?_
  refine (calm_setNode _).then fun _ => (calm_waitForNode 29).then fun _ => ?_
  refine (calm_generateSecurityIndex _).then fun _ => (calm_shutdownNode node).then fun _ => ?_
  exact (calm_setNode _).then fun _ => triple_compressIndex hcwd hout hv hslash hz tmpDir

theorem isName_releaseName {version : List Char} (hv : '/' ∉ version) :
    IsName ("elasticsearch-".toList ++ version) :=
  ⟨by simp, by simp [hv], by simp, by simp⟩

/-- One turn of `main`'s loop, where every outside call succeeds, changes the file system and the
counter as `turnFs` says and keeps the working directory, when the release is a directory and
the file system the programs leave is ready for `compress`. -/
theorem triple_processVersion_turnFs (cfg : Config) {version : List Char}
    (hcwd : ∀ n ∈ cwd, IsName n ∧ IsPlain n)
    (hrd : IsPlain cfg.releasesDir ∧ NoDotDot cfg.releasesDir ∧ ¬ IsOptionWord cfg.releasesDir)
    (hout : IsPlain cfg.outputDir) (hv : IsPlain version ∧ '/' ∉ version ∧ belowMinimum version ≠ none)
    (hR : belowMinimum version = some false →
      fs.WF ∧ fs.isDir (resolve cwd (releaseDirOf cfg.releasesDir version)))
    (hz : belowMinimum version = some false →
      ZipReady (preparedFs W cwd version (releaseDirOf cfg.releasesDir version)
        (join (tmpPath k) "data".toList) fs) cwd cfg.outputDir version) :
    Triple (At W fs cwd k) (processVersion cfg version)
      (fun _ => At W (turnFs cfg cwd W (fs, k) version).1 cwd (turnFs cfg cwd W (fs, k) version).2)
      fun _ _ => False := by
  unfold processVersion turnFs
  rcases hb : belowMinimum version with _ | _ | _
  · exact absurd hb hv.2.2
  · obtain ⟨hwf, hdir⟩ := hR hb
    have hexists : fs.pathExists cwd (releaseDirOf cfg.releasesDir version) = true := by
      rw [Fs.pathExists, Fs.lookup_of_isDir_resolve (p := releaseDirOf cfg.releasesDir version) hwf
        (join_ne_nil _ (by simp)) (noDotDot_join hrd.2.1 (isName_releaseName hv.2.1)) hdir]
      rfl
    rw [if_pos rfl]
    refine (triple_pathExists_at _).bind fun b => Triple.and_const fun hb' => ?_
    rw [hb', hexists]
    refine (calm_check _).then fun _ => triple_mkdtemp_at.bind fun tmp => Triple.and_const
      fun ht => ?_
    subst ht
    refine (calm_setNode _).then fun _ => ?_
    exact (triple_buildIndex_at hcwd ⟨isPlain_releaseDirOf hrd.1 hv.1,
      not_isOptionWord_releaseDirOf hrd.2.2 version⟩ hout hv.1 hv.2.1 _ _ (hz hb)).tryFinally
      (fun _ => calm_cleanup _ _ _ _ _) fun _ _ h => h.elim
  · rw [if_neg (by simp)]
    exact calm_pure () W fs cwd k

end Turn

end DevTools.Bwc
