import Mathlib
import DevTools.Bwc.Script

/-!
# Cleanup in `main`

For one version, `main` creates a temporary directory, starts a node in a `try` block and in
its `finally` shuts the node down (if `node` still holds it) and removes the directory. This
file proves what that guarantees for every list of versions and every pattern of success and
failure of the outside calls (`main_cleanup`): when `main` returns, it is back in its working
directory, every temporary directory it made is gone and every node it started was sent
`terminate` and waited for. When it raises, the working directory is restored unless the
exception is the failure of `zip` in `compress`, which runs between its two `chdir`s with no
`try` around them; and the directories and nodes are cleaned unless the exception is a failure
of `terminate` or `wait` in the `finally` block, which stops it before `rmtree`: then the
temporary directory of that version is left, and its node is not done. Both happen
(`main_cleanup_fails`).

The proof goes by triples: every step of the `try` block keeps `Inside`, one lemma per step
that changes the footprint, and `triple_processVersion` is the invariant of one turn of the loop.
-/

namespace DevTools.Bwc

/-! ## What `main` promises -/

/-- Every node of the list was sent `terminate` and waited for. -/
def AllDone (procs : List Proc) : Prop := ∀ p ∈ procs, p.terminated ∧ p.waited

instance : DecidablePred AllDone := fun procs =>
  inferInstanceAs (Decidable (∀ p ∈ procs, p.terminated ∧ p.waited))

/-- The exception of a failed `terminate` or `wait` of a node. -/
def Exc.IsShutdownFailure : Exc → Prop
  | .libraryError (.terminate _) => True
  | .libraryError (.wait _) => True
  | _ => False

/-- The exception of a failed `zip` in `compress`. -/
def Exc.IsZipFailure (e : Exc) : Prop :=
  ∃ zipfile directory, e = .calledProcessError [zipCommand zipfile directory]

/-- Between two versions: the working directory is `C`, the temporary directories are `T`, and
every node is done. -/
def Settled (C T : List (List Char)) (f : Footprint) : Prop :=
  f.cwd = C ∧ f.tmpDirs = T ∧ AllDone f.procs

/-- What holds when a run from a settled state raises `e` in `w`: the working directory is `C`
unless `zip` failed; the temporary directories are `T` and every node is done, unless a
`terminate` or `wait` failed in a `finally` block, which leaves that node not done and the
temporary directory of its version in place. -/
def Outcome (C T : List (List Char)) (e : Exc) (w : World) : Prop :=
  (w.cwd = C ∨ e.IsZipFailure) ∧ ((w.tmpDirs = T ∧ AllDone w.procs) ∨
    (e.IsShutdownFailure ∧ (∃ tmp, w.tmpDirs = tmp :: T) ∧ ¬ AllDone w.procs))

/-- What a run from `w₀` that ended as `r` (see `outcome`) leaves: settled when it returned, as
`Outcome` says when it raised. -/
def CleanedUp (w₀ : World) (r : Option Exc × World) : Prop :=
  (r.1 = none → Settled w₀.cwd w₀.tmpDirs r.2.footprint) ∧
    ∀ e, r.1 = some e → Outcome w₀.cwd w₀.tmpDirs e r.2

/-- Inside the `try` block of a version: the working directory is `C`, the temporary directories
are `D`, every node but the one `node` holds is done, and that one was not waited for. -/
def Inside (C D : List (List Char)) (f : Footprint) : Prop :=
  f.cwd = C ∧ f.tmpDirs = D ∧ (∀ p ∈ f.procs, some p.pid ≠ f.node → p.terminated ∧ p.waited) ∧
    ∀ n, f.node = some n → ∃ p ∈ f.procs, p.pid = n ∧ p.waited = false

/-! ## Nodes -/

theorem allDone_of_inside {C D : List (List Char)} {f : Footprint} (h : Inside C D f)
    (hn : f.node = none) : AllDone f.procs := fun p hp => h.2.2.1 p hp (by simp [hn])

/-- While `node` holds a node, not every node is done. -/
theorem Inside.not_allDone {C D : List (List Char)} {f : Footprint} (h : Inside C D f) {n : Nat}
    (hn : f.node = some n) : ¬ AllDone f.procs := fun hd => by
  obtain ⟨p, hp, -, hw⟩ := h.2.2.2 n hn
  simpa [hw] using (hd p hp).2

theorem mem_markTerminated {n : Nat} {procs : List Proc} {q : Proc}
    (hq : q ∈ markTerminated n procs) : ∃ p ∈ procs, q.pid = p.pid ∧ q.waited = p.waited ∧
      (q.pid ≠ n → q = p) := by
  obtain ⟨p, hp, rfl⟩ := List.mem_map.1 hq
  refine ⟨p, hp, ?_⟩
  split_ifs with h <;> simp [h]

theorem mem_markWaited {n : Nat} {procs : List Proc} {q : Proc} (hq : q ∈ markWaited n procs) :
    ∃ p ∈ procs, q.pid = p.pid ∧ q.terminated = p.terminated ∧ (q.pid = n → q.waited) ∧
      (q.pid ≠ n → q = p) := by
  obtain ⟨p, hp, rfl⟩ := List.mem_map.1 hq
  refine ⟨p, hp, ?_⟩
  split_ifs with h <;> simp [h]

/-- Signalling keeps every node's number and whether it was waited for. -/
theorem exists_mem_markTerminated (n : Nat) {procs : List Proc} {p : Proc} (hp : p ∈ procs) :
    ∃ q ∈ markTerminated n procs, q.pid = p.pid ∧ q.waited = p.waited :=
  ⟨_, List.mem_map.2 ⟨p, hp, rfl⟩, by split_ifs <;> rfl, by split_ifs <;> rfl⟩

theorem terminated_of_mem_markTerminated {n : Nat} {procs : List Proc} {q : Proc}
    (hq : q ∈ markTerminated n procs) (hn : q.pid = n) : q.terminated := by
  obtain ⟨p, -, rfl⟩ := List.mem_map.1 hq
  split_ifs at hn ⊢ with h
  · rfl
  · exact absurd hn h

/-- Signalling the node `n` keeps every other node as it was. -/
theorem others_done_markTerminated {n : Nat} {procs : List Proc}
    (h : ∀ p ∈ procs, p.pid ≠ n → p.terminated ∧ p.waited) :
    ∀ q ∈ markTerminated n procs, q.pid ≠ n → q.terminated ∧ q.waited := fun q hq hn => by
  obtain ⟨p, hp, hpid, -, heq⟩ := mem_markTerminated hq
  rw [heq hn]
  exact h p hp (hpid ▸ hn)

theorem others_done_markWaited {n : Nat} {procs : List Proc}
    (h : ∀ p ∈ procs, p.pid ≠ n → p.terminated ∧ p.waited) :
    ∀ q ∈ markWaited n procs, q.pid ≠ n → q.terminated ∧ q.waited := fun q hq hn => by
  obtain ⟨p, hp, hpid, -, -, heq⟩ := mem_markWaited hq
  rw [heq hn]
  exact h p hp (hpid ▸ hn)

/-- `terminate` then `wait` of the only node not done leaves every node done. -/
theorem allDone_shutdown {n : Nat} {procs : List Proc}
    (h : ∀ p ∈ procs, p.pid ≠ n → p.terminated ∧ p.waited) :
    AllDone (markWaited n (markTerminated n procs)) := fun q hq => by
  obtain ⟨p, hp, hpid, hterm, hwait, heq⟩ := mem_markWaited hq
  by_cases hn : q.pid = n
  · exact ⟨hterm ▸ terminated_of_mem_markTerminated hp (hpid ▸ hn), hwait hn⟩
  · rw [heq hn]
    exact others_done_markTerminated h p hp (hpid ▸ hn)

/-! ## Steps of the script -/

variable {α β : Type}

theorem Inert.then {P : Footprint → Prop} {x : M α} {f : α → M β} {Q : β → World → Prop}
    {E : Exc → World → Prop} (hx : Inert x) (hE : ∀ e w, P w.footprint → E e w)
    (hf : ∀ a, Triple (fun w => P w.footprint) (f a) Q E) :
    Triple (fun w => P w.footprint) (x >>= f) Q E :=
  ((hx.triple P).mono (fun _ h => h) (fun _ _ h => h) hE).bind hf

theorem inert_portInUse (port : Nat) : Inert (portInUse port) :=
  inert_attempt.bind fun _ => inert_pure _

theorem inert_runPlugin (version releaseDir pluginCmd : List Char) (args : List (List Char)) :
    Inert (runPlugin version releaseDir pluginCmd args) := inert_checkCall _

theorem inert_removePlugin (version releaseDir pluginName : List Char) :
    Inert (removePlugin version releaseDir pluginName) := inert_checkCall _

theorem inert_installPlugin (version releaseDir pluginName : List Char) :
    Inert (installPlugin version releaseDir pluginName) := inert_checkCall _

theorem inert_run (command : List Char) : Inert (run command) :=
  (inert_system command).bind fun _ => inert_check _ _

theorem inert_waitForNode : ∀ n, Inert (waitForNode n)
  | 0 => inert_throw _
  | n + 1 => inert_attempt.bind fun _ => inert_ite (inert_pure _) (inert_waitForNode n)

theorem inert_indexDoc (name : List Char) : Inert (indexDoc name) :=
  inert_attempt.bind fun _ => inert_check _ _

theorem inert_generateSecurityIndex (version : List Char) :
    Inert (generateSecurityIndex version) :=
  inert_attempt.bind fun _ => (inert_check _ _).bind fun _ =>
  inert_attempt.bind fun _ => (inert_check _ _).bind fun _ =>
  (inert_indexDoc _).bind fun _ => (inert_indexDoc _).bind fun _ =>
  (inert_indexDoc _).bind fun _ => (inert_indexDoc _).bind fun _ =>
  (inert_indexDoc _).bind fun _ =>
  inert_attempt.bind fun _ => (inert_check _ _).bind fun _ =>
  inert_attempt.bind fun _ => inert_check _ _

theorem inert_createClient : Inert createClient := inert_waitForNode 30

theorem inert_parseConfig (cfg : Config) : Inert (parseConfig cfg) :=
  inert_get.bind fun _ => inert_ite (inert_throw _) (inert_ite (inert_pure _) (inert_pure _))

/-! ## Steps that change the footprint -/

theorem triple_attempt {P : Footprint → Prop} {E : Exc → World → Prop} :
    Triple (fun w => P w.footprint) attempt (fun _ w => P w.footprint) E := fun _ h => h

/-- A triple from each start in a set of footprints gives one from the set. -/
theorem Triple.of_footprint {P : Footprint → Prop} {x : M α} {Q : Footprint → α → World → Prop}
    {E : Footprint → Exc → World → Prop}
    (h : ∀ f, P f → Triple (fun w => w.footprint = f) x (Q f) (E f)) :
    Triple (fun w => P w.footprint) x (fun a w => ∃ f, P f ∧ Q f a w)
      (fun e w => ∃ f, P f ∧ E f e w) := fun w hw => by
  have := h _ hw w rfl
  cases hr : x.run w <;> rw [hr] at this <;> exact ⟨_, hw, this⟩

theorem triple_modify {g : World → World} {Q : Unit → World → Prop} {E : Exc → World → Prop} :
    Triple (fun w => Q () (g w)) (modify g : M Unit) Q E := fun _ h => h

theorem triple_getcwd {P : World → Prop} {E : Exc → World → Prop} :
    Triple P getcwd (fun c w => P w ∧ c = cwdPath w.cwd) E := fun _ h => ⟨h, rfl⟩

theorem triple_check {P : World → Prop} (ok : Bool) (e : Exc) :
    Triple P (check ok e) (fun _ => P) (fun e' w => e' = e ∧ P w) := by
  cases ok
  · exact fun _ h => ⟨rfl, h⟩
  · exact fun _ h => h

theorem triple_system {P : Footprint → Prop} {E : Exc → World → Prop} (command : List Char) :
    Triple (fun w => P w.footprint) (system command) (fun _ w => P w.footprint) E :=
  fun w h => (inert_system command).triple P w h

theorem triple_checkCallShell (P : Footprint → Prop) (command : List Char) :
    Triple (fun w => P w.footprint) (checkCallShell command) (fun _ w => P w.footprint)
      (fun e w => e = .calledProcessError [command] ∧ P w.footprint) :=
  (triple_system command).bind fun _ => triple_check _ _

theorem triple_chdir {E : Exc → World → Prop} {f : Footprint} (path : List Char) :
    Triple (fun w => w.footprint = f) (chdir path)
      (fun _ w => w.footprint = { f with cwd := resolve f.cwd path }) E := fun _ h => by
  subst h
  rfl

theorem triple_getcwd_footprint {E : Exc → World → Prop} {f : Footprint} :
    Triple (fun w => w.footprint = f) getcwd (fun c w => w.footprint = f ∧ c = cwdPath f.cwd) E :=
  fun _ h => by
    subst h
    exact ⟨rfl, rfl⟩

theorem triple_mkdtemp {P : Footprint → Prop} {E : Exc → World → Prop} :
    Triple (fun w => P w.footprint) mkdtemp
      (fun t w => ∃ f, P f ∧ w.footprint = { f with tmpDirs := t :: f.tmpDirs }) E :=
  fun w h => ⟨w.footprint, h, rfl⟩

theorem triple_popen (P : Footprint → Prop) (args : List (List Char)) :
    Triple (fun w => P w.footprint) (popen args)
      (fun n w => ∃ f, P f ∧ w.footprint = { f with procs := ⟨n, false, false⟩ :: f.procs })
      (fun _ w => P w.footprint) :=
  inert_attempt.then (fun _ _ h => h) fun b => by
    cases b
    · exact fun _ h => h
    · exact fun w h => ⟨w.footprint, h, rfl⟩

theorem triple_startNode (P : Footprint → Prop) (version releaseDir dataDir : List Char) :
    Triple (fun w => P w.footprint) (startNode version releaseDir dataDir)
      (fun n w => ∃ f, P f ∧ w.footprint = { f with procs := ⟨n, false, false⟩ :: f.procs })
      (fun _ w => P w.footprint) :=
  (inert_portInUse _).then (fun _ _ h => h) fun _ => (inert_check _ _).then (fun _ _ h => h)
    fun _ => (inert_portInUse _).then (fun _ _ h => h) fun _ =>
      (inert_check _ _).then (fun _ _ h => h) fun _ => triple_popen P _

theorem triple_terminate (P : Footprint → Prop) (n : Nat) :
    Triple (fun w => P w.footprint) (terminate n)
      (fun _ w => ∃ f, P f ∧ w.footprint = { f with procs := markTerminated n f.procs })
      (fun e w => e.IsShutdownFailure ∧ P w.footprint) :=
  triple_attempt.bind fun b => by
    cases b
    · exact fun _ h => ⟨trivial, h⟩
    · exact fun w h => ⟨w.footprint, h, rfl⟩

theorem triple_wait (P : Footprint → Prop) (n : Nat) :
    Triple (fun w => P w.footprint) (wait n)
      (fun _ w => ∃ f, P f ∧ w.footprint = { f with procs := markWaited n f.procs })
      (fun e w => e.IsShutdownFailure ∧ P w.footprint) :=
  triple_attempt.bind fun b => by
    cases b
    · exact fun _ h => ⟨trivial, h⟩
    · exact fun w h => ⟨w.footprint, h, rfl⟩

/-- `compress` ends in the working directory it started in, unless its `zip` fails, which leaves
it in `tmpDir`. -/
theorem triple_compress {f : Footprint} (hf : ∀ n ∈ f.cwd, IsName n)
    (tmpDir outputDir zipfile directory : List Char) :
    Triple (fun w => w.footprint = f) (compress tmpDir outputDir zipfile directory)
      (fun _ w => w.footprint = f)
      (fun e w => w.footprint = f ∨
        (e.IsZipFailure ∧ w.tmpDirs = f.tmpDirs ∧ w.procs = f.procs ∧ w.node = f.node)) := by
  have hE : ∀ (e : Exc) (w : World), w.footprint = f → w.footprint = f ∨
      (e.IsZipFailure ∧ w.tmpDirs = f.tmpDirs ∧ w.procs = f.procs ∧ w.node = f.node) :=
    fun _ _ h => Or.inl h
  unfold compress
  refine inert_getcwd.then (P := (· = f)) hE fun cwd => ?_
  refine (inert_pathExists _).then (P := (· = f)) hE fun _ => ?_
  refine (inert_ite (inert_removeFile _) (inert_pure _)).then (P := (· = f)) hE fun _ => ?_
  refine triple_getcwd_footprint.bind fun olddir => Triple.and_const fun holddir => ?_
  subst holddir
  refine (triple_chdir tmpDir).bind fun _ => ?_
  refine ((triple_checkCallShell (· = { f with cwd := resolve f.cwd tmpDir }) _).mono
    (fun _ h => h) (fun _ _ h => h) ?_).bind fun _ => ?_
  · rintro e w ⟨rfl, h⟩
    simp only [World.footprint_eq_iff] at h
    exact .inr ⟨⟨_, _, rfl⟩, h.2.1, h.2.2.1, h.2.2.2⟩
  · refine ((triple_chdir _).mono (fun _ h => h) (fun _ w h => ?_) (fun _ _ h => h))
    rw [h, resolve_cwdPath hf]

section Version

variable {C D : List (List Char)}

/-- Inside the `try` block with no node held. -/
def Fresh (C D : List (List Char)) (f : Footprint) : Prop := Inside C D f ∧ f.node = none

/-- Inside the `try` block with the node `n` held. -/
def Running (C D : List (List Char)) (n : Nat) (f : Footprint) : Prop :=
  Inside C D f ∧ f.node = some n

/-- Shutting down the node `main` holds leaves every node done, or raises with every other node
still done. -/
theorem triple_shutdownNode (n : Nat) :
    Triple (fun w => Running C D n w.footprint) (shutdownNode n)
      (fun _ w => w.cwd = C ∧ w.tmpDirs = D ∧ w.node = some n ∧ AllDone w.procs)
      (fun e w => e.IsShutdownFailure ∧ Running C D n w.footprint) := by
  refine (triple_terminate (Running C D n) n).bind fun _ => ?_
  refine ((triple_wait (fun g => ∃ f, Running C D n f ∧
    g = { f with procs := markTerminated n f.procs }) n).mono (fun _ h => h) (fun _ w h => ?_)
    (fun e w h => ?_))
  · obtain ⟨g, ⟨f, ⟨⟨hc, ht, hp, -⟩, hn⟩, rfl⟩, hw⟩ := h
    simp only [World.footprint_eq_iff] at hw
    refine ⟨hw.1.trans hc, hw.2.1.trans ht, hw.2.2.2.trans hn, hw.2.2.1 ▸ allDone_shutdown ?_⟩
    exact fun p hp' hne => hp p hp' (by simpa [hn] using hne)
  · obtain ⟨he, g, ⟨⟨hc, ht, hp, hq⟩, hn⟩, hw⟩ := h
    simp only [World.footprint_eq_iff] at hw
    obtain ⟨q, hq, hqn, hqw⟩ := hq n hn
    obtain ⟨q', hq', hpid, hwait⟩ := exists_mem_markTerminated n hq
    refine ⟨he, ⟨hw.1.trans hc, hw.2.1.trans ht, fun p hp' hne => ?_, fun m hm => ?_⟩,
      hw.2.2.2.trans hn⟩
    swap
    · obtain rfl : m = n := Option.some.inj (hm.symm.trans (hw.2.2.2.trans hn))
      refine ⟨q', ?_, hpid.trans hqn, hwait.trans hqw⟩
      rw [World.footprint_procs, hw.2.2.1]
      exact hq'
    simp only [World.footprint_node, World.footprint_procs, hw.2.2.2, hn, hw.2.2.1] at hne hp'
    exact others_done_markTerminated (fun p hp' hne => hp p hp' (by simpa [hn] using hne)) p hp'
      (by simpa using hne)

theorem running_of_start {n : Nat} {f : Footprint} {w : World} (hf : Fresh C D f)
    (hw : w.footprint = { f with procs := ⟨n, false, false⟩ :: f.procs }) :
    Running C D n { w with node := some n }.footprint := by
  obtain ⟨⟨hc, ht, hp, -⟩, hn⟩ := hf
  simp only [World.footprint_eq_iff] at hw
  refine ⟨⟨hw.1.trans hc, hw.2.1.trans ht, fun p hp' hne => ?_, fun m hm => ?_⟩, rfl⟩
  · simp only [World.footprint_procs, hw.2.2.1, List.mem_cons] at hp'
    rcases hp' with rfl | hp'
    · exact absurd rfl hne
    · exact hp p hp' (by simp [hn])
  · obtain rfl : m = n := (Option.some.inj hm).symm
    exact ⟨⟨m, false, false⟩, by simp [hw.2.2.1], rfl, rfl⟩

/-- Every step of the `try` block keeps `Inside`; only a failed `zip` leaves the working
directory elsewhere, and then no node is held. -/
theorem triple_buildIndex (hC : ∀ n ∈ C, IsName n)
    (version releaseDir tmpDir dataDir outputDir : List Char) :
    Triple (fun w => Fresh C D w.footprint) (buildIndex version releaseDir tmpDir dataDir outputDir)
      (fun _ w => Fresh C D w.footprint)
      (fun e w => Inside C D w.footprint ∨
        (e.IsZipFailure ∧ w.tmpDirs = D ∧ w.node = none ∧ AllDone w.procs)) := by
  have hE : ∀ (e : Exc) (w : World), Fresh C D w.footprint → Inside C D w.footprint ∨
      (e.IsZipFailure ∧ w.tmpDirs = D ∧ w.node = none ∧ AllDone w.procs) := fun _ _ h => .inl h.1
  unfold buildIndex
  refine (inert_removePlugin _ _ _).then hE fun _ => ?_
  refine (inert_removePlugin _ _ _).then hE fun _ => ?_
  refine (inert_run _).then hE fun _ => ?_
  refine (inert_installPlugin _ _ _).then hE fun _ => ?_
  refine (inert_installPlugin _ _ _).then hE fun _ => ?_
  refine (inert_run _).then hE fun _ => ?_
  refine ((triple_startNode (Fresh C D) _ _ _).mono (fun _ h => h) (fun _ _ h => h)
    (fun _ _ h => .inl h.1)).bind fun n => ?_
  refine ((triple_modify (Q := fun _ w => Running C D n w.footprint)).mono
    (fun w ⟨f, hf, hw⟩ => running_of_start hf hw) (fun _ _ h => h) (fun _ _ h => h)).bind
    fun _ => ?_
  have hE' : ∀ (e : Exc) (w : World), Running C D n w.footprint → Inside C D w.footprint ∨
      (e.IsZipFailure ∧ w.tmpDirs = D ∧ w.node = none ∧ AllDone w.procs) := fun _ _ h => .inl h.1
  refine inert_createClient.then hE' fun _ => ?_
  refine (inert_generateSecurityIndex _).then hE' fun _ => ?_
  refine ((triple_shutdownNode n).mono (fun _ h => h) (fun _ _ h => h)
    (fun _ _ h => .inl h.2.1)).bind fun _ => ?_
  refine ((triple_modify (g := fun w => { w with node := none })
    (Q := fun _ w => Fresh C D w.footprint)).mono
    (fun w h => ⟨⟨h.1, h.2.1, fun p hp _ => h.2.2.2 p hp, fun _ hm => nomatch hm⟩, rfl⟩)
    (fun _ _ h => h)
    (fun _ _ h => h)).bind fun _ => ?_
  refine (Triple.of_footprint fun f hf => triple_compress (hf.1.1 ▸ hC) tmpDir outputDir
    (archiveName version) "data".toList).mono (fun _ h => h) ?_ ?_
  · rintro _ w ⟨f, hf, rfl⟩
    exact hf
  · rintro e w ⟨f, hf, rfl | ⟨hz, ht, hp, hn⟩⟩
    · exact .inl hf.1
    · exact .inr ⟨hz, ht.trans hf.1.2.1, hn.trans hf.2, hp ▸ allDone_of_inside hf.1 hf.2⟩

theorem triple_shutdownLeftover :
    Triple (fun w => Inside C D w.footprint) shutdownLeftover
      (fun _ w => w.cwd = C ∧ w.tmpDirs = D ∧ AllDone w.procs)
      (fun e w => e.IsShutdownFailure ∧ w.cwd = C ∧ w.tmpDirs = D ∧ ¬ AllDone w.procs) :=
    fun w hw => by
  unfold shutdownLeftover
  rw [run_bind_get]
  cases hn : w.node with
  | none =>
    simp only [run_pure]
    exact ⟨hw.1, hw.2.1, allDone_of_inside hw hn⟩
  | some n =>
    have := triple_shutdownNode n w ⟨hw, hn⟩
    simp only
    split at this
    · exact ⟨this.1, this.2.1, this.2.2.2⟩
    · exact ⟨this.1, this.2.1.1, this.2.1.2.1, this.2.1.not_allDone this.2.2⟩

theorem triple_rmtree {T : List (List Char)} {tmp : List Char} {P : World → Prop}
    {E : Exc → World → Prop} :
    Triple (fun w => P w ∧ w.tmpDirs = tmp :: T) (rmtree tmp)
      (fun _ w => (∃ w₀, P w₀ ∧ w = { w₀ with tmpDirs := T })) E := fun w h => by
  refine ⟨w, h.1, ?_⟩
  show { w with tmpDirs := w.tmpDirs.erase tmp } = _
  rw [h.2, List.erase_cons_head]

theorem triple_shutdownLeftover_none {P : World → Prop} {E : Exc → World → Prop} :
    Triple (fun w => P w ∧ w.node = none) shutdownLeftover (fun _ w => P w ∧ w.node = none) E :=
  fun w hw => by
    unfold shutdownLeftover
    rw [run_bind_get, hw.2]
    exact hw

end Version

/-! ## One turn of the loop, and `main` -/

section Loop

variable {C T : List (List Char)}

theorem outcome_of_settled {e : Exc} {w : World} (h : Settled C T w.footprint) : Outcome C T e w :=
  ⟨.inl h.1, .inl ⟨h.2.1, h.2.2⟩⟩

/-- After a `try` block that returned, the `finally` block settles the world. -/
theorem triple_cleanup_ok (tmp : List Char) :
    Triple (fun w => Fresh C (tmp :: T) w.footprint) (cleanup tmp)
      (fun _ w => Settled C T w.footprint) (Outcome C T) := by
  refine ((triple_shutdownLeftover (D := tmp :: T)).mono (fun w h => h.1) (fun _ _ h => h)
    (fun e w h => ⟨.inl h.2.1, .inr ⟨h.1, ⟨tmp, h.2.2.1⟩, h.2.2.2⟩⟩)).bind fun _ => ?_
  refine (triple_rmtree (P := fun w => w.cwd = C ∧ AllDone w.procs)).mono
    (fun w h => ⟨⟨h.1, h.2.2⟩, h.2.1⟩) ?_ (fun _ _ h => h)
  rintro _ w ⟨w₀, ⟨hc, hp⟩, rfl⟩
  exact ⟨hc, rfl, hp⟩

/-- After a `try` block that raised `e`, the `finally` block settles the world, or raises from
`terminate` or `wait`, or lets `e` through from a failed `zip` still in the temporary
directory. -/
theorem triple_cleanup_error (e : Exc) (tmp : List Char) :
    Triple (fun w => Inside C (tmp :: T) w.footprint ∨
        (e.IsZipFailure ∧ w.tmpDirs = tmp :: T ∧ w.node = none ∧ AllDone w.procs))
      (cleanup tmp) (fun _ w => Outcome C T e w) (Outcome C T) := by
  refine Triple.or ?_ ?_
  · refine ((triple_shutdownLeftover (D := tmp :: T)).mono (fun w h => h) (fun _ _ h => h)
      (fun e w h => ⟨.inl h.2.1, .inr ⟨h.1, ⟨tmp, h.2.2.1⟩, h.2.2.2⟩⟩)).bind fun _ => ?_
    refine (triple_rmtree (P := fun w => w.cwd = C ∧ AllDone w.procs)).mono
      (fun w h => ⟨⟨h.1, h.2.2⟩, h.2.1⟩) ?_ (fun _ _ h => h)
    rintro _ w ⟨w₀, ⟨hc, hp⟩, rfl⟩
    exact ⟨.inl hc, .inl ⟨rfl, hp⟩⟩
  · refine ((triple_shutdownLeftover_none (P := fun w => e.IsZipFailure ∧
      w.tmpDirs = tmp :: T ∧ AllDone w.procs)).mono (fun w h => ⟨⟨h.1, h.2.1, h.2.2.2⟩, h.2.2.1⟩)
      (fun _ _ h => h) (fun _ _ h => h)).bind fun _ => ?_
    refine (triple_rmtree (P := fun w => e.IsZipFailure ∧ AllDone w.procs)).mono
      (fun w h => ⟨⟨h.1.1, h.1.2.2⟩, h.1.2.1⟩) ?_ (fun _ _ h => h)
    rintro _ w ⟨w₀, ⟨hz, hp⟩, rfl⟩
    exact ⟨.inr hz, .inl ⟨rfl, hp⟩⟩

theorem fresh_of_mkdtemp {tmp : List Char} {f : Footprint} {w : World} (hf : Settled C T f)
    (hw : w.footprint = { f with tmpDirs := tmp :: f.tmpDirs }) :
    Fresh C (tmp :: T) { w with node := none }.footprint := by
  obtain ⟨hc, ht, hp⟩ := hf
  simp only [World.footprint_eq_iff] at hw
  refine ⟨⟨hw.1.trans hc, hw.2.1.trans (ht ▸ rfl), fun p hp' _ => hp p ?_, fun _ hm => nomatch hm⟩,
    rfl⟩
  simpa [hw.2.2.1] using hp'

/-- One turn of `main`'s loop from a settled world: it returns settled, or raises as `Outcome`
says. -/
theorem triple_processVersion (hC : ∀ n ∈ C, IsName n) (cfg : Config) (version : List Char) :
    Triple (fun w => Settled C T w.footprint) (processVersion cfg version)
      (fun _ w => Settled C T w.footprint) (Outcome C T) := by
  unfold processVersion
  split
  · exact triple_throw fun _ h => outcome_of_settled h
  · exact triple_pure fun _ h => h
  · refine (inert_pathExists _).then (fun _ _ h => outcome_of_settled h) fun _ => ?_
    refine ((triple_check (P := fun w => Settled C T w.footprint) _ _).mono (fun _ h => h)
      (fun _ _ h => h) (fun _ _ h => outcome_of_settled h.2)).bind fun _ => ?_
    refine (triple_mkdtemp (P := Settled C T)).bind fun tmp => ?_
    refine ((triple_modify (g := fun w => { w with node := none })
      (Q := fun _ w => Fresh C (tmp :: T) w.footprint)).mono
      (fun w ⟨f, hf, hw⟩ => fresh_of_mkdtemp hf hw) (fun _ _ h => h) (fun _ _ h => h)).bind
      fun _ => ?_
    exact (triple_buildIndex hC _ _ _ _ _).tryFinally (fun _ => triple_cleanup_ok tmp)
      fun e => triple_cleanup_error e tmp

theorem triple_forM (hC : ∀ n ∈ C, IsName n) (cfg : Config) :
    ∀ versions : List (List Char), Triple (fun w => Settled C T w.footprint)
      (versions.forM (processVersion cfg)) (fun _ w => Settled C T w.footprint) (Outcome C T)
  | [] => triple_pure fun _ h => h
  | v :: vs => (triple_processVersion hC cfg v).bind fun _ => triple_forM hC cfg vs

theorem triple_main (hC : ∀ n ∈ C, IsName n) (args : Config) :
    Triple (fun w => Settled C T w.footprint) (main args) (fun _ w => Settled C T w.footprint)
      (Outcome C T) :=
  (inert_parseConfig args).then (fun _ _ h => outcome_of_settled h) fun cfg =>
    triple_forM hC cfg cfg.versions

end Loop

/-- `main`, for every list of versions and every pattern of success and failure of the outside
calls: returning, it is back in its working directory with every temporary directory it made
removed and every node it started terminated and waited for; raising, the working directory is
restored unless `zip` failed, and the directories and nodes are cleaned unless `terminate` or
`wait` failed in a `finally` block, which leaves one temporary directory and a node not done. -/
theorem main_cleanup (args : Config) (w₀ : World) (hcwd : ∀ n ∈ w₀.cwd, IsName n)
    (hprocs : AllDone w₀.procs) : CleanedUp w₀ (outcome ((main args).run w₀)) := by
  have h := triple_main (T := w₀.tmpDirs) hcwd args w₀ ⟨rfl, rfl, hprocs⟩
  revert h
  cases (main args).run w₀ with
  | ok _ w => exact fun h => ⟨fun _ => h, fun _ he => nomatch he⟩
  | error e w => exact fun h => ⟨fun he => (nomatch he), fun _ he => Option.some.inj he ▸ h⟩

/-- A working directory `/w` holding the release `2.3.0` under `backwards` and an output directory
`out`; `ok` says which outside calls succeed. -/
def demoWorld (ok : Nat → Bool) : World where
  fs := ⟨[(["w".toList], .dir), (["w".toList, "backwards".toList], .dir),
    (["w".toList, "backwards".toList, "elasticsearch-2.3.0".toList], .dir),
    (["w".toList, "out".toList], .dir)]⟩
  cwd := ["w".toList]
  tmpDirs := []
  procs := []
  node := none
  fresh := 0
  clock := 0
  succeeds := ok
  writes := fun _ _ fs => fs

/-- `create_bwc_indexes.py -d backwards -o out 2.3.0`. -/
def demoArgs : Config := ⟨["2.3.0".toList], "backwards".toList, "out".toList⟩

theorem main_cleanup_demo : (∀ n ∈ (demoWorld fun _ => true).cwd, IsName n) ∧
    AllDone (demoWorld fun _ => true).procs ∧
    CleanedUp (demoWorld fun _ => true) (outcome ((main demoArgs).run (demoWorld fun _ => true))) :=
  ⟨by decide, by decide, main_cleanup demoArgs (demoWorld fun _ => true) (by decide) (by decide)⟩

-- `decide` runs `main` here; smart unfolding would re-evaluate the accumulated world at each
-- call of a structurally recursive function (`waitForNode`, `List.forM`).
set_option smartUnfolding false in
/-- When the `zip` call (the 22nd outside call) fails, `main` raises from the temporary
directory, for `compress` has no `try` around its `chdir`s; when `terminate` fails in the `try`
block and again in the `finally` block, `rmtree` never runs: the temporary directory stays and the
node is never terminated. -/
theorem main_cleanup_fails :
    (outcome ((main demoArgs).run (demoWorld fun k => k ≠ 21))).1 =
        some (.calledProcessError [zipCommand "/w/out/x-pack-2.3.0.zip".toList "data".toList]) ∧
      (outcome ((main demoArgs).run (demoWorld fun k => k ≠ 21))).2.cwd =
        ["tmp".toList, "tmp0".toList] ∧
      (outcome ((main demoArgs).run (demoWorld fun k => k ≠ 19 && k ≠ 20))).1 =
        some (.libraryError (.terminate 1)) ∧
      (outcome ((main demoArgs).run (demoWorld fun k => k ≠ 19 && k ≠ 20))).2.tmpDirs =
        ["/tmp/tmp0".toList] ∧
      (outcome ((main demoArgs).run (demoWorld fun k => k ≠ 19 && k ≠ 20))).2.procs =
        [⟨1, false, false⟩] := by
  decide

end DevTools.Bwc
