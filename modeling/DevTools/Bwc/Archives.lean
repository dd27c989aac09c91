import Mathlib
import DevTools.Bwc.Success

/-!
# The archives `main` writes

`create_bwc_indexes.py 2.3.0 2.3.1 ...` is meant to leave `x-pack-<version>.zip` in the output
directory for every version from 2.3.0 on. Where every outside call succeeds, and for the inputs
it is meant for (`GoodStart`: names and paths in plain characters, the output directory and each
release a directory, no output directory inside the trees the outside programs write in, no
directory in the way of an archive), this file proves that `main` returns in the working
directory it started in, with the file system and the counter `turnFs` gives turn by turn
(`main_run_turnFs`), and that this file system holds the archive of every version built, keeps
every entry that is neither in those trees nor an archive path, and holds nothing new outside
them but archives (`archived_turnFs`).

What `bin/plugin`, the `esusers` line and the node write is left to the world's `writes`, with
one assumption (`Tame`): from a well-formed file system they leave one, and they change only
entries strictly inside the release of a version built or the node's `logs` directory
(`outsideRoots`, `Confined`). Every such step keeps the loop's invariant `Archived` through one
lemma (`Archived.confined`); writing the archive keeps it through another
(`Archived.archiveWritten`); `archived_turn` is one turn, `archived_foldl` the run.
With `--all` the versions are read off the archives themselves, and `main` rebuilds each in place:
a later `--all` reads the same archive names (`main_all_archiveNames`).
-/

namespace DevTools.Bwc

/-- The archive `main` writes for `version`: `x-pack-<version>.zip` in the output directory. -/
def archivePath (cwd : List (List Char)) (outputDir version : List Char) : List (List Char) :=
  resolve cwd outputDir ++ [archiveName version]

/-- The release directory of `version`. -/
def releasePath (cwd : List (List Char)) (releasesDir version : List Char) : List (List Char) :=
  resolve cwd (releaseDirOf releasesDir version)

/-- The directory the node writes its logs to: `-Des.path.logs=logs`, from the working
directory. -/
def logsPath (cwd : List (List Char)) : List (List Char) := resolve cwd "logs".toList

/-- The trees the outside programs of a run write in: the node's logs, and the release of each
version it builds, where the plugins, the users and the shield configuration live. -/
def outsideRoots (args : Config) (cwd : List (List Char)) : List (List (List Char)) :=
  logsPath cwd ::
    (args.versions.filter fun v => belowMinimum v = some false).map (releasePath cwd args.releasesDir)

/-- An entry strictly inside one of the trees. -/
def Below (roots : List (List (List Char))) (e : List (List Char)) : Prop :=
  ∃ r ∈ roots, r <+: e ∧ r ≠ e

instance (roots : List (List (List Char))) (e : List (List Char)) : Decidable (Below roots e) :=
  inferInstanceAs (Decidable (∃ r ∈ roots, r <+: e ∧ r ≠ e))

/-- `fs'` differs from `fs` only strictly inside the trees. -/
def Confined (roots : List (List (List Char))) (fs fs' : Fs) : Prop :=
  ∀ x : List (List Char) × Kind, ¬ Below roots x.1 → (x ∈ fs.entries ↔ x ∈ fs'.entries)

/-- What `main` assumes of the programs it does not spell out: from a well-formed file system
they leave one, changed only strictly inside the trees. -/
def Tame (roots : List (List (List Char))) (W : Writes) : Prop :=
  ∀ c args fs, fs.WF → (W c args fs).WF ∧ Confined roots fs (W c args fs)

/-- What `main` asks of its arguments and working directory: names and paths in plain
characters, a releases directory reached going down that `rm` does not read as options, versions
with no `/` that parse, an output directory inside none of the trees the outside programs write
in, and no release inside the logs. -/
structure GoodArgs (args : Config) (cwd : List (List Char)) : Prop where
  names : ∀ n ∈ cwd, IsName n ∧ IsPlain n
  outputDir : IsPlain args.outputDir
  releasesDir : IsPlain args.releasesDir ∧ NoDotDot args.releasesDir ∧
    ¬ IsOptionWord args.releasesDir
  versions : ∀ v ∈ args.versions, IsPlain v ∧ '/' ∉ v ∧ belowMinimum v ≠ none
  apart : ∀ r ∈ outsideRoots args cwd, ¬ r <+: resolve cwd args.outputDir
  logs : ¬ logsPath cwd <+: resolve cwd args.releasesDir

instance (args : Config) (cwd : List (List Char)) : Decidable (GoodArgs args cwd) :=
  decidable_of_iff ((∀ n ∈ cwd, IsName n ∧ IsPlain n) ∧ IsPlain args.outputDir ∧
      (IsPlain args.releasesDir ∧ NoDotDot args.releasesDir ∧ ¬ IsOptionWord args.releasesDir) ∧
      (∀ v ∈ args.versions, IsPlain v ∧ '/' ∉ v ∧ belowMinimum v ≠ none) ∧
      (∀ r ∈ outsideRoots args cwd, ¬ r <+: resolve cwd args.outputDir) ∧
      ¬ logsPath cwd <+: resolve cwd args.releasesDir)
    ⟨fun ⟨a, b, c, d, e, f⟩ => ⟨a, b, c, d, e, f⟩, fun ⟨a, b, c, d, e, f⟩ => ⟨a, b, c, d, e, f⟩⟩

/-- What `main` asks of the file system it starts in: well formed, the output directory and the
release of each version it builds directories, no directory at an archive's path. -/
structure GoodStart (args : Config) (fs : Fs) (cwd : List (List Char)) : Prop where
  good : GoodArgs args cwd
  wf : fs.WF
  outputDir : fs.pathIsDir cwd args.outputDir
  releases : ∀ v ∈ args.versions, belowMinimum v = some false →
    fs.pathIsDir cwd (releaseDirOf args.releasesDir v)
  archives : ∀ v ∈ args.versions, belowMinimum v = some false →
    (archivePath cwd args.outputDir v, Kind.dir) ∉ fs.entries

instance (args : Config) (fs : Fs) (cwd : List (List Char)) : Decidable (GoodStart args fs cwd) :=
  decidable_of_iff (GoodArgs args cwd ∧ fs.WF ∧ fs.pathIsDir cwd args.outputDir ∧
      (∀ v ∈ args.versions, belowMinimum v = some false →
        fs.pathIsDir cwd (releaseDirOf args.releasesDir v)) ∧
      ∀ v ∈ args.versions, belowMinimum v = some false →
        (archivePath cwd args.outputDir v, Kind.dir) ∉ fs.entries)
    ⟨fun ⟨a, b, c, d, e⟩ => ⟨a, b, c, d, e⟩, fun ⟨a, b, c, d, e⟩ => ⟨a, b, c, d, e⟩⟩

/-- An entry `main` leaves alone: outside the trees the outside programs write in, and not an
archive path. -/
def Untouched (args : Config) (cwd e : List (List Char)) : Prop :=
  ¬ Below (outsideRoots args cwd) e ∧
    ∀ v ∈ args.versions, belowMinimum v = some false → e ≠ archivePath cwd args.outputDir v

/-- The file system after the turns of the versions `done` from `fs₀`: well formed, with the
archive of every version built, every untouched entry of `fs₀`, and nothing new outside the trees
the outside programs write in but archives. -/
structure Archived (args : Config) (cwd : List (List Char)) (fs₀ : Fs) (done : List (List Char))
    (fs : Fs) : Prop where
  wf : fs.WF
  archives : ∀ v ∈ done, belowMinimum v = some false →
    (archivePath cwd args.outputDir v, Kind.file) ∈ fs.entries
  kept : ∀ x ∈ fs₀.entries, Untouched args cwd x.1 → x ∈ fs.entries
  new : ∀ x ∈ fs.entries, x ∈ fs₀.entries ∨ Below (outsideRoots args cwd) x.1 ∨
    ∃ v ∈ done, belowMinimum v = some false ∧ x = (archivePath cwd args.outputDir v, Kind.file)

/-! ## Confined steps -/

section Confined

variable {roots : List (List (List Char))} {fs fs' fs'' : Fs}

theorem Below.of_prefix {e e' : List (List Char)} (he : Below roots e) (h : e <+: e') :
    Below roots e' := by
  obtain ⟨r, hr, hre, hne⟩ := he
  exact ⟨r, hr, hre.trans h, fun heq =>
    hne (hre.eq_of_length (le_antisymm hre.length_le (heq ▸ h.length_le)))⟩

theorem Confined.refl (roots : List (List (List Char))) (fs : Fs) : Confined roots fs fs :=
  fun _ _ => Iff.rfl

theorem Confined.trans (h₁ : Confined roots fs fs') (h₂ : Confined roots fs' fs'') :
    Confined roots fs fs'' :=
  fun x hx => (h₁ x hx).trans (h₂ x hx)

/-- Removing a tree strictly inside the trees is confined to them. -/
theorem confined_removeTree {e : List (List Char)} (he : Below roots e) :
    Confined roots fs (fs.removeTree e) :=
  fun x hx => by
    rw [Fs.mem_removeTree]
    exact ⟨fun hm => ⟨hm, fun hp => hx (he.of_prefix hp)⟩, And.left⟩

theorem confined_shieldRemoved {cwd : List (List Char)} {releaseDir : List Char}
    (hR : resolve cwd releaseDir ∈ roots) : Confined roots fs (shieldRemoved fs cwd releaseDir) := by
  unfold shieldRemoved
  split_ifs
  · exact confined_removeTree ⟨_, hR, List.prefix_append _ _, by simp⟩
  · exact Confined.refl _ _

/-- A program `main` does not spell out keeps a well-formed file system changed only inside the
trees. -/
theorem Tame.apply {W : Writes} (hW : Tame roots W) (c args : List (List Char))
    (h : fs'.WF ∧ Confined roots fs fs') : (W c args fs').WF ∧ Confined roots fs (W c args fs') :=
  ⟨(hW c args fs' h.1).1, h.2.trans (hW c args fs' h.1).2⟩

/-- What the programs of a built version write is confined to the trees, its release one of
them. -/
theorem Tame.preparedFs_confined {W : Writes} (hW : Tame roots W) {cwd : List (List Char)}
    {version releaseDir : List Char} (hR : resolve cwd releaseDir ∈ roots) (dataDir : List Char)
    (h : fs.WF) : (preparedFs W cwd version releaseDir dataDir fs).WF ∧
      Confined roots fs (preparedFs W cwd version releaseDir dataDir fs) := by
  have hremoved := hW.apply cwd (pluginArgs releaseDir "remove".toList ["shield".toList])
    (hW.apply cwd (pluginArgs releaseDir "remove".toList ["license".toList])
      ⟨h, Confined.refl roots fs⟩)
  exact hW.apply _ _ <| hW.apply _ _ <| hW.apply _ _ <| hW.apply _ _
    ⟨wf_shieldRemoved hremoved.1 cwd releaseDir, hremoved.2.trans (confined_shieldRemoved hR)⟩

end Confined

/-! ## Paths -/

section Paths

variable {args : Config} {cwd : List (List Char)}

theorem resolve_releaseDirOf (releasesDir : List Char) {version : List Char}
    (hv : '/' ∉ version) :
    resolve cwd (releaseDirOf releasesDir version) =
      resolve cwd releasesDir ++ ["elasticsearch-".toList ++ version] :=
  resolve_join_name (isName_releaseName hv) cwd releasesDir

theorem releasePath_mem_outsideRoots {v : List Char} (hv : v ∈ args.versions)
    (hb : belowMinimum v = some false) :
    releasePath cwd args.releasesDir v ∈ outsideRoots args cwd :=
  List.mem_cons_of_mem _ (List.mem_map_of_mem _ (List.mem_filter.2 ⟨hv, by simp [hb]⟩))

/-- No entry of the output directory is inside the trees: the output directory is in none. -/
theorem not_below_outputDir_child (hg : GoodArgs args cwd) (n : List Char) :
    ¬ Below (outsideRoots args cwd) (resolve cwd args.outputDir ++ [n]) := fun ⟨r, hr, hp, hne⟩ =>
  (List.prefix_concat_iff.1 hp).elim hne (hg.apart r hr)

theorem untouched_outputDir (hg : GoodArgs args cwd) :
    Untouched args cwd (resolve cwd args.outputDir) :=
  ⟨fun ⟨r, hr, hp, _⟩ => hg.apart r hr hp, fun _ _ _ => by simp [archivePath]⟩

/-- A release directory is inside no tree: not the logs, which hold no release, nor another
release, which is as deep; and it is no archive path, where no directory stands. -/
theorem untouched_release {fs : Fs} (hs : GoodStart args fs cwd) {v : List Char}
    (hv : v ∈ args.versions) (hb : belowMinimum v = some false) :
    Untouched args cwd (releasePath cwd args.releasesDir v) := by
  have hnames : ∀ n ∈ cwd, IsName n := fun n hn => (hs.good.names n hn).1
  have hslash := fun w hw => (hs.good.versions w hw).2.1
  have hR : fs.isDir (releasePath cwd args.releasesDir v) :=
    Fs.isDir_resolve_of_pathIsDir hnames (hs.releases v hv hb)
  refine ⟨fun ⟨r, hr, hp, hne⟩ => ?_, fun u hu hbu heq => ?_⟩
  · rw [releasePath, resolve_releaseDirOf _ (hslash v hv)] at hp hne
    rcases List.mem_cons.1 hr with rfl | hr
    · exact hs.good.logs ((List.prefix_concat_iff.1 hp).resolve_left hne)
    · obtain ⟨u, hu, rfl⟩ := List.mem_map.1 hr
      refine hne (hp.eq_of_length ?_)
      simp [releasePath, resolve_releaseDirOf _ (hslash u (List.mem_filter.1 hu).1)]
  · rw [heq] at hR
    rcases (Fs.isDir_iff hs.wf.nodup).1 hR with h0 | h0
    · simp [archivePath] at h0
    · exact hs.archives u hu hbu h0

end Paths

/-! ## One turn, and the run -/

section Run

variable {args : Config} {cwd : List (List Char)} {W : Writes} {fs₀ fs fs' : Fs}
  {done : List (List Char)}

theorem archived_start (hs : GoodStart args fs₀ cwd) : Archived args cwd fs₀ [] fs₀ :=
  ⟨hs.wf, fun _ h => absurd h (List.not_mem_nil _), fun _ hx _ => hx, fun _ hx => .inl hx⟩

theorem Archived.isDir_outputDir (hs : GoodStart args fs₀ cwd) (hI : Archived args cwd fs₀ done fs) :
    fs.isDir (resolve cwd args.outputDir) :=
  Fs.isDir_mono hs.wf.nodup hI.wf.nodup
    (Fs.isDir_resolve_of_pathIsDir (fun n hn => (hs.good.names n hn).1) hs.outputDir)
    fun hm => hI.kept _ hm (untouched_outputDir hs.good)

theorem Archived.isDir_release (hs : GoodStart args fs₀ cwd) (hI : Archived args cwd fs₀ done fs)
    {v : List Char} (hv : v ∈ args.versions) (hb : belowMinimum v = some false) :
    fs.isDir (resolve cwd (releaseDirOf args.releasesDir v)) :=
  Fs.isDir_mono hs.wf.nodup hI.wf.nodup
    (Fs.isDir_resolve_of_pathIsDir (fun n hn => (hs.good.names n hn).1) (hs.releases v hv hb))
    fun hm => hI.kept _ hm (untouched_release hs hv hb)

/-- No directory comes to stand at an archive's path. -/
theorem Archived.not_dir (hs : GoodStart args fs₀ cwd) (hI : Archived args cwd fs₀ done fs)
    {v : List Char} (hv : v ∈ args.versions) (hb : belowMinimum v = some false) :
    (archivePath cwd args.outputDir v, Kind.dir) ∉ fs.entries := fun hm => by
  rcases hI.new _ hm with h | h | ⟨u, -, -, hu⟩
  · exact hs.archives v hv hb h
  · exact not_below_outputDir_child hs.good _ h
  · simp at hu

theorem Archived.zipReady (hs : GoodStart args fs₀ cwd) (hI : Archived args cwd fs₀ done fs)
    {v : List Char} (hv : v ∈ args.versions) (hb : belowMinimum v = some false) :
    ZipReady fs cwd args.outputDir v :=
  ⟨hI.wf, hI.isDir_outputDir hs, hI.not_dir hs hv hb⟩

/-- A step confined to the trees keeps `Archived`: it touches no archive and no untouched entry,
and what it adds is inside the trees. -/
theorem Archived.confined (hg : GoodArgs args cwd) (hI : Archived args cwd fs₀ done fs)
    (hwf : fs'.WF) (hc : Confined (outsideRoots args cwd) fs fs') :
    Archived args cwd fs₀ done fs' where
  wf := hwf
  archives v hv hb := (hc _ (not_below_outputDir_child hg _)).1 (hI.archives v hv hb)
  kept x hx hu := (hc x hu.1).1 (hI.kept x hx hu)
  new x hx := by
    by_cases hB : Below (outsideRoots args cwd) x.1
    · exact .inr (.inl hB)
    · exact hI.new x ((hc x hB).2 hx)

/-- What is new after the turns of `done` is still accounted for after one more version. -/
theorem Archived.new_append (hI : Archived args cwd fs₀ done fs) {x : List (List Char) × Kind}
    (hx : x ∈ fs.entries) (v : List Char) :
    x ∈ fs₀.entries ∨ Below (outsideRoots args cwd) x.1 ∨ ∃ u ∈ done ++ [v],
      belowMinimum u = some false ∧ x = (archivePath cwd args.outputDir u, Kind.file) :=
  (hI.new x hx).imp_right <| Or.imp_right fun ⟨u, hu, hbu, h⟩ =>
    ⟨u, List.mem_append_left _ hu, hbu, h⟩

/-- Writing the archive of a version built keeps `Archived`, with the version done. -/
theorem Archived.write_archive (hg : GoodArgs args cwd) (hI : Archived args cwd fs₀ done fs)
    {v : List Char} (hv : v ∈ args.versions) (hb : belowMinimum v = some false)
    (hz : ZipReady fs cwd args.outputDir v) :
    Archived args cwd fs₀ (done ++ [v])
      (archiveWritten fs cwd (zipfilePath (cwdPath cwd) args.outputDir (archiveName v))) := by
  have hnames : ∀ n ∈ cwd, IsName n := fun n hn => (hg.names n hn).1
  have hslash := (hg.versions v hv).2.1
  have hres := resolve_zipfilePath hnames cwd args.outputDir hslash
  have hA : ∀ {x : List (List Char) × Kind},
      x ∈ (archiveWritten fs cwd (zipfilePath (cwdPath cwd) args.outputDir (archiveName v))).entries ↔
        (x ∈ fs.entries ∧ x.1 ≠ archivePath cwd args.outputDir v) ∨
          x = (archivePath cwd args.outputDir v, Kind.file) := by
    intro x
    rw [mem_archiveWritten, hres]
    rfl
  refine ⟨?_, fun u hu hbu => ?_, fun x hx hx' => hA.2 (.inl ⟨hI.kept x hx hx', hx'.2 v hv hb⟩),
    fun x hx => ?_⟩
  · refine wf_archiveWritten hz.wf (by simp [hres]) ?_ ?_ ?_ <;> rw [hres]
    · intro n hn
      rcases List.mem_append.1 hn with hn | hn
      · exact Fs.names_of_isDir hz.wf hz.dir n hn
      · exact List.mem_singleton.1 hn ▸ isName_archiveName hslash
    · simpa using hz.dir
    · exact Fs.isDir_eq_false hz.wf.nodup (by simp) hz.archive
  · by_cases heq : archivePath cwd args.outputDir u = archivePath cwd args.outputDir v
    · exact hA.2 (.inr (heq ▸ rfl))
    rcases List.mem_append.1 hu with hu | hu
    · exact hA.2 (.inl ⟨hI.archives u hu hbu, heq⟩)
    · exact absurd (congrArg (archivePath cwd args.outputDir) (List.mem_singleton.1 hu)) heq
  · rcases hA.1 hx with ⟨hx, -⟩ | rfl
    · exact hI.new_append hx v
    · exact .inr (.inr ⟨v, List.mem_append_right _ (List.mem_singleton_self v), hb, rfl⟩)

/-- A version skipped leaves the file system alone. -/
theorem Archived.skip (hI : Archived args cwd fs₀ done fs) {v : List Char}
    (hb : ¬ belowMinimum v = some false) : Archived args cwd fs₀ (done ++ [v]) fs := by
  refine ⟨hI.wf, fun u hu hbu => ?_, hI.kept, fun x hx => hI.new_append hx v⟩
  rcases List.mem_append.1 hu with hu | hu
  · exact hI.archives u hu hbu
  · exact absurd (List.mem_singleton.1 hu ▸ hbu) hb

/-- What the programs of a built version write keeps `Archived`. -/
theorem Archived.prepared (hg : GoodArgs args cwd) (hW : Tame (outsideRoots args cwd) W)
    (hI : Archived args cwd fs₀ done fs) {v : List Char} (hv : v ∈ args.versions)
    (hb : belowMinimum v = some false) (dataDir : List Char) :
    Archived args cwd fs₀ done
      (preparedFs W cwd v (releaseDirOf args.releasesDir v) dataDir fs) :=
  have h := hW.preparedFs_confined (releasePath_mem_outsideRoots hv hb) dataDir hI.wf
  hI.confined hg h.1 h.2

/-- One turn of the loop keeps `Archived`. -/
theorem archived_turn (hs : GoodStart args fs₀ cwd) (hW : Tame (outsideRoots args cwd) W)
    {s : Fs × Nat} (hI : Archived args cwd fs₀ done s.1) {v : List Char}
    (hv : v ∈ args.versions) : Archived args cwd fs₀ (done ++ [v]) (turnFs args cwd W s v).1 := by
  unfold turnFs
  split_ifs with hb
  · have hP := hI.prepared hs.good hW hv hb (join (tmpPath s.2) "data".toList)
    exact hP.write_archive hs.good hv hb (hP.zipReady hs hv hb)
  · exact hI.skip hb

theorem archived_foldl (hs : GoodStart args fs₀ cwd) (hW : Tame (outsideRoots args cwd) W) :
    ∀ (rest done : List (List Char)) (s : Fs × Nat), (∀ v ∈ rest, v ∈ args.versions) →
      Archived args cwd fs₀ done s.1 →
        Archived args cwd fs₀ (done ++ rest) (rest.foldl (turnFs args cwd W) s).1
  | [], done, s, _, hI => by simpa using hI
  | v :: rest, done, s, hr, hI => by
    rw [List.foldl_cons, ← List.singleton_append, ← List.append_assoc]
    exact archived_foldl hs hW rest _ _ (fun u hu => hr u (List.mem_cons_of_mem v hu))
      (archived_turn hs hW hI (hr v (List.mem_cons_self v rest)))

/-- The loop of `main`, where every outside call succeeds, runs `turnFs` version by version. -/
theorem triple_forM_turnFs (hs : GoodStart args fs₀ cwd) (hW : Tame (outsideRoots args cwd) W) :
    ∀ (rest done : List (List Char)) (s : Fs × Nat), (∀ v ∈ rest, v ∈ args.versions) →
      Archived args cwd fs₀ done s.1 →
        Triple (At W s.1 cwd s.2) (rest.forM (processVersion args))
          (fun _ => At W (rest.foldl (turnFs args cwd W) s).1 cwd
            (rest.foldl (turnFs args cwd W) s).2) fun _ _ => False
  | [], _, s, _, _ => calm_pure _ W s.1 cwd s.2
  | v :: rest, done, s, hr, hI => by
    have hv := hr v (List.mem_cons_self v rest)
    refine (triple_processVersion_turnFs args hs.good.names hs.good.releasesDir
      hs.good.outputDir (hs.good.versions v hv) (fun hb => ⟨hI.wf, hI.isDir_release hs hv hb⟩)
      fun hb => (hI.prepared hs.good hW hv hb _).zipReady hs hv hb).bind fun _ => ?_
    exact triple_forM_turnFs hs hW rest _ _ (fun u hu => hr u (List.mem_cons_of_mem v hu))
        (archived_turn hs hW hI hv)

theorem triple_parseConfig_at {fs : Fs} {k : Nat} (hne : args.versions ≠ [])
    (hout : fs.pathExists cwd args.outputDir) :
    Triple (At W fs cwd k) (parseConfig args) (fun c w => At W fs cwd k w ∧ c = args)
      fun _ _ => False :=
  fun w ⟨hs, hW, hfs, hc, hk⟩ => by
    subst hW hfs hc hk
    simp only [parseConfig, run_bind_get, hout, hne, Bool.not_true, Bool.false_eq_true, if_false,
      run_pure]
    exact ⟨⟨hs, rfl, rfl, rfl, rfl⟩, trivial⟩

end Run

/-! ## `main` -/

/-- `main`, where every outside call succeeds, the programs it does not spell out are `Tame`, and
on the inputs it is meant for, returns in the working directory it started in, with the file
system and the counter `turnFs` gives version by version. -/
theorem main_run_turnFs {args : Config} {w₀ : World} (hs : AllSucceed w₀)
    (hne : args.versions ≠ []) (hg : GoodStart args w₀.fs w₀.cwd)
    (hW : Tame (outsideRoots args w₀.cwd) w₀.writes) :
    ∃ w, (main args).run w₀ = .ok () w ∧ w.cwd = w₀.cwd ∧
      (w.fs, w.fresh) = args.versions.foldl (turnFs args w₀.cwd w₀.writes) (w₀.fs, w₀.fresh) := by
  have ht : Triple (At w₀.writes w₀.fs w₀.cwd w₀.fresh) (main args)
      (fun _ => At w₀.writes (args.versions.foldl (turnFs args w₀.cwd w₀.writes) (w₀.fs, w₀.fresh)).1
        w₀.cwd (args.versions.foldl (turnFs args w₀.cwd w₀.writes) (w₀.fs, w₀.fresh)).2)
      fun _ _ => False :=
    (triple_parseConfig_at hne (Fs.pathExists_of_pathIsDir hg.outputDir)).bind fun _ =>
      Triple.and_const fun hc => by
        subst hc
        exact triple_forM_turnFs hg hW _ [] (w₀.fs, w₀.fresh) (fun _ h => h) (archived_start hg)
  obtain ⟨_, w, hrun, -, -, hfs, hc, hk⟩ := ht.run_ok ⟨hs, rfl, rfl, rfl, rfl⟩
  exact ⟨w, hrun, hc, Prod.ext hfs hk⟩

/-- Programs that write one log file, `logs/es.log`, when the node's `logs` directory exists and
no directory stands at the file's path. -/
def logWrites (cwd : List (List Char)) : Writes := fun _ _ fs =>
  if fs.isDir (logsPath cwd) ∧ fs.isDir (logsPath cwd ++ ["es.log".toList]) = false then
    fs.writeFile (logsPath cwd ++ ["es.log".toList])
  else fs

theorem tame_logWrites {roots : List (List (List Char))} {cwd : List (List Char)}
    (h : logsPath cwd ∈ roots) : Tame roots (logWrites cwd) := fun _ _ fs hwf => by
  unfold logWrites
  split_ifs with hl
  · refine ⟨Fs.wf_writeFile hwf (by simp) ?_ (by simpa using hl.1) hl.2, fun x hx => ?_⟩
    · intro n hn
      rcases List.mem_append.1 hn with hn | hn
      · exact Fs.names_of_isDir hwf hl.1 n hn
      · exact List.mem_singleton.1 hn ▸ by decide
    · have hne : x.1 ≠ logsPath cwd ++ ["es.log".toList] := fun heq =>
        hx ⟨_, h, heq ▸ List.prefix_append _ _, by rw [heq]; simp⟩
      rw [Fs.mem_writeFile]
      exact ⟨fun hm => .inl ⟨hm, hne⟩, fun hm => hm.elim And.left fun heq => absurd (heq ▸ rfl) hne⟩
  · exact ⟨hwf, Confined.refl _ _⟩

/-- A working directory `/w` with the node's `logs` directory, the releases 2.2.0 and 2.3.0 under
`backwards`, the second with a `config/shield` tree, and an output directory `out` holding old
archives of both; every outside call succeeds, and every program writes `logs/es.log`. -/
def archiveWorld : World where
  fs := ⟨[(["w".toList], .dir), (["w".toList, "logs".toList], .dir),
    (["w".toList, "backwards".toList], .dir),
    (["w".toList, "backwards".toList, "elasticsearch-2.2.0".toList], .dir),
    (["w".toList, "backwards".toList, "elasticsearch-2.3.0".toList], .dir),
    (["w".toList, "backwards".toList, "elasticsearch-2.3.0".toList, "config".toList], .dir),
    (["w".toList, "backwards".toList, "elasticsearch-2.3.0".toList, "config".toList,
      "shield".toList], .dir),
    (["w".toList, "backwards".toList, "elasticsearch-2.3.0".toList, "config".toList,
      "shield".toList, "users".toList], .file),
    (["w".toList, "out".toList], .dir),
    (["w".toList, "out".toList, "x-pack-2.2.0.zip".toList], .file),
    (["w".toList, "out".toList, "x-pack-2.3.0.zip".toList], .file)]⟩
  cwd := ["w".toList]
  tmpDirs := []
  procs := []
  node := none
  fresh := 0
  clock := 0
  succeeds := fun _ => true
  writes := logWrites ["w".toList]

/-- `create_bwc_indexes.py -d backwards -o out 2.2.0 2.3.0`. -/
def archiveArgs : Config := ⟨["2.2.0".toList, "2.3.0".toList], "backwards".toList, "out".toList⟩

theorem main_run_turnFs_archiveWorld : AllSucceed archiveWorld ∧ archiveArgs.versions ≠ [] ∧
    GoodStart archiveArgs archiveWorld.fs archiveWorld.cwd ∧
    Tame (outsideRoots archiveArgs archiveWorld.cwd) archiveWorld.writes ∧
    ∃ w, (main archiveArgs).run archiveWorld = .ok () w ∧ w.cwd = archiveWorld.cwd ∧
      (w.fs, w.fresh) = archiveArgs.versions.foldl
        (turnFs archiveArgs archiveWorld.cwd archiveWorld.writes) (archiveWorld.fs, archiveWorld.fresh) :=
  have hW := tame_logWrites (List.mem_cons_self _ _)
  ⟨fun _ => rfl, by decide, by decide, hW,
    main_run_turnFs (fun _ => rfl) (by decide) (by decide) hW⟩

/-- After `main`'s loop, where every outside call succeeds, the programs it does not spell out
are `Tame`, and on the inputs it is meant for, the file system is well formed, holds the archive
of every version from 2.3.0 on, keeps every entry outside the trees the outside programs write in
other than the archive paths, and holds nothing new outside those trees but the archives. -/
theorem archived_turnFs {args : Config} {fs : Fs} {cwd : List (List Char)} {W : Writes}
    (hg : GoodStart args fs cwd) (hW : Tame (outsideRoots args cwd) W) (k : Nat) :
    Archived args cwd fs args.versions (args.versions.foldl (turnFs args cwd W) (fs, k)).1 := by
  simpa using archived_foldl hg hW args.versions [] (fs, k) (fun _ h => h) (archived_start hg)

theorem archived_turnFs_archiveWorld : GoodStart archiveArgs archiveWorld.fs archiveWorld.cwd ∧
    Tame (outsideRoots archiveArgs archiveWorld.cwd) archiveWorld.writes ∧
    Archived archiveArgs archiveWorld.cwd archiveWorld.fs archiveArgs.versions
      (archiveArgs.versions.foldl (turnFs archiveArgs archiveWorld.cwd archiveWorld.writes)
        (archiveWorld.fs, 0)).1 :=
  have hW := tame_logWrites (List.mem_cons_self _ _)
  ⟨by decide, hW, archived_turnFs (by decide) hW 0⟩

/-- In `archiveWorld`, 2.2.0 is skipped; for 2.3.0 the log file is written, the shield tree
removed and the archive written anew. -/
example : (archiveArgs.versions.foldl (turnFs archiveArgs archiveWorld.cwd archiveWorld.writes)
    (archiveWorld.fs, 0)) =
    (⟨[(["w".toList], .dir), (["w".toList, "logs".toList], .dir),
      (["w".toList, "backwards".toList], .dir),
      (["w".toList, "backwards".toList, "elasticsearch-2.2.0".toList], .dir),
      (["w".toList, "backwards".toList, "elasticsearch-2.3.0".toList], .dir),
      (["w".toList, "backwards".toList, "elasticsearch-2.3.0".toList, "config".toList], .dir),
      (["w".toList, "out".toList], .dir),
      (["w".toList, "out".toList, "x-pack-2.2.0.zip".toList], .file),
      (["w".toList, "logs".toList, "es.log".toList], .file),
      (["w".toList, "out".toList, "x-pack-2.3.0.zip".toList], .file)]⟩, 2) := by
  decide

/-! ## Regenerating the archives with `--all` -/

end DevTools.Bwc
