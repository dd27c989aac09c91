import Mathlib
import DevTools.Effects
import DevTools.Glob
import DevTools.Shell

/-!
# The world `create_bwc_indexes.py` acts on

The script is modelled in `M = EStateM Exc World`. A `World` holds the file system and the
working directory, the temporary directories `tempfile.mkdtemp` made and `shutil.rmtree` did not
yet remove, the node processes started with `subprocess.Popen` and what was done to them, and
`main`'s local `node`, which its `finally` block reads.

Every call to the outside (a plugin command, a shell command, a port probe, a process start or
signal, a readiness attempt, an HTTP, index or health call) is numbered by `clock`, and
`succeeds` says which numbers succeed: one `World` for each pattern of success and failure.
What a program the model does not spell out does to the file system (`bin/plugin`, the node,
a shell line other than the `rm -rf` and `zip -r` lines `shellRun` reads) is `writes` of the
working directory it runs in and of its argument vector; `/bin/sh -c line` is the argument vector
of a shell line. The temporary directories live outside `fs`: `tmpDirs` tracks them, and what
the node stores in its data directory there is not modelled.

The cleanup facts are stated over the `Footprint` (working directory, temporary directories,
processes and `node`); `Inert` computations leave it alone, and each primitive here is proved
inert or given its exact effect on it.
-/

namespace DevTools.Bwc

/-! ## States, exceptions and the monad -/

/-- A library call whose own exception the script lets through. -/
inductive Call where
  | popen (args : List (List Char))
  | index (name : List Char)
  | health
  | terminate (pid : Nat)
  | wait (pid : Nat)
  deriving DecidableEq, Repr

/-- The exceptions of the script, with the data the source puts in them. -/
inductive Exc where
  | exception (msg : List Char)
  | runtimeError (msg : List Char)
  | assertionError (msg : List Char)
  | nameError (name : List Char)
  /-- `subprocess.CalledProcessError`, with the command as passed: its arguments, or the one
  string given with `shell=True` -/
  | calledProcessError (cmd : List (List Char))
  | isADirectoryError (path : List Char)
  | fileNotFoundError (path : List Char)
  /-- `parser.error(msg)`, which exits -/
  | parserError (msg : List Char)
  | libraryError (call : Call)
  deriving DecidableEq, Repr

/-- A node process the script started, and whether it was sent `terminate` and waited for. -/
structure Proc where
  pid : Nat
  terminated : Bool
  waited : Bool
  deriving DecidableEq, Repr

/-- What a program writes to the file system, from its working directory and its argument
vector. -/
abbrev Writes := List (List Char) → List (List Char) → Fs → Fs

/-- What the script reads and changes. -/
structure World where
  fs : Fs
  cwd : List (List Char)
  /-- the directories `mkdtemp` returned and `rmtree` did not remove -/
  tmpDirs : List (List Char)
  procs : List Proc
  /-- `main`'s local `node` -/
  node : Option Nat
  /-- the next process id and temporary name -/
  fresh : Nat
  /-- the number of outside calls made so far -/
  clock : Nat
  succeeds : Nat → Bool
  /-- what a program writes, from its working directory and its argument vector -/
  writes : Writes

/-- The script's computations. -/
abbrev M := EStateM Exc World

/-- The part of the world the cleanup promises are about. -/
structure Footprint where
  cwd : List (List Char)
  tmpDirs : List (List Char)
  procs : List Proc
  node : Option Nat
  deriving DecidableEq, Repr

/-- The footprint of a world. -/
def World.footprint (w : World) : Footprint := ⟨w.cwd, w.tmpDirs, w.procs, w.node⟩

@[simp] theorem World.footprint_cwd (w : World) : w.footprint.cwd = w.cwd := rfl

@[simp] theorem World.footprint_tmpDirs (w : World) : w.footprint.tmpDirs = w.tmpDirs := rfl

@[simp] theorem World.footprint_procs (w : World) : w.footprint.procs = w.procs := rfl

@[simp] theorem World.footprint_node (w : World) : w.footprint.node = w.node := rfl

theorem World.footprint_eq_iff {w : World} {f : Footprint} :
    w.footprint = f ↔ w.cwd = f.cwd ∧ w.tmpDirs = f.tmpDirs ∧ w.procs = f.procs ∧ w.node = f.node := by
  cases f
  simp [World.footprint]

/-- The exception a run raised, if any, and the world it ended in. -/
def outcome (r : EStateM.Result Exc World α) : Option Exc × World :=
  match r with
  | .ok _ w => (none, w)
  | .error e w => (some e, w)

/-! ## Primitives -/

/-- One outside call: whether it succeeds is `succeeds` of its number. -/
def attempt : M Bool := modifyGet fun w => (w.succeeds w.clock, { w with clock := w.clock + 1 })

/-- `os.getcwd()`. -/
def getcwd : M (List Char) := return cwdPath (← get).cwd

/-- `os.chdir(path)`; the script only changes to directories that exist. -/
def chdir (path : List Char) : M Unit := modify fun w => { w with cwd := resolve w.cwd path }

/-- `os.path.exists(path)`. -/
def pathExists (path : List Char) : M Bool := return (← get).fs.pathExists (← get).cwd path

/-- `os.remove(path)`. -/
def removeFile (path : List Char) : M Unit := do
  let w ← get
  match w.fs.lookup w.cwd path with
  | some e =>
    if w.fs.isDir e then throw (.isADirectoryError path)
    else modify fun w => { w with fs := w.fs.remove e }
  | none => throw (.fileNotFoundError path)

/-- The path of the temporary directory numbered `n`. -/
def tmpPath (n : Nat) : List Char := "/tmp/tmp".toList ++ (Nat.repr n).toList

/-- `tempfile.mkdtemp()`: a new directory whose name no earlier call returned. -/
def mkdtemp : M (List Char) := modifyGet fun w =>
  (tmpPath w.fresh, { w with tmpDirs := tmpPath w.fresh :: w.tmpDirs, fresh := w.fresh + 1 })

/-- `shutil.rmtree(path)` of a temporary directory. -/
def rmtree (path : List Char) : M Unit := modify fun w => { w with tmpDirs := w.tmpDirs.erase path }

/-- Raises `e` unless `ok`: the script's `if not ok: raise e`. -/
def check (ok : Bool) (e : Exc) : M Unit := if ok then pure () else throw e

/-- Sets `main`'s local `node`. -/
def setNode (node : Option Nat) : M Unit := modify fun w => { w with node := node }

/-- `rm -rf operand`: the tree the operand names is removed; an operand whose last component is
`.` or `..`, or that names the root, is refused. -/
def rmOperand (cwd : List (List Char)) (acc : Fs × Bool) (operand : List Char) : Fs × Bool :=
  let last := (split operand).2
  if last = ['.'] ∨ last = ['.', '.'] then (acc.1, false) else
  match acc.1.lookup cwd operand with
  | some [] => (acc.1, false)
  | some e => (acc.1.removeTree e, acc.2)
  | none => acc

/-- What `/bin/sh -c command` does to the file system, and its exit status, for the lines the
model spells out: `rm -rf` removes the trees its operands name, and `zip -r archive dir` writes
the archive, whose name has an extension, and fails when its directory does not exist or the
archive is a directory. `none` for every other line: another command, an operand that starts
with `-` (which the program reads as options), or a line out of the modelled part of the shell
(quotes, expansions, glob characters). -/
def shellRun (fs : Fs) (cwd : List (List Char)) (command : List Char) : Option (Fs × Nat) :=
  match shellWords command with
  | some (c :: o :: operands) =>
    if operands.any fun w => decide (IsOptionWord w) then none
    else if c = "rm".toList ∧ o = "-rf".toList then
      let r := operands.foldl (rmOperand cwd) (fs, true)
      some (r.1, if r.2 then 0 else 1)
    else if c = "zip".toList ∧ o = "-r".toList ∧ operands.length = 2 ∧
        '.' ∈ basename (operands.headD []) then
      some (match fs.createTarget cwd (operands.headD []) with
        | some e => if fs.isDir e then (fs, 15) else (fs.writeFile e, 0)
        | none => (fs, 15))
    else none
  | _ => none

/-- The argument vector of `os.system(command)`. -/
def shArgs (command : List Char) : List (List Char) := ["/bin/sh".toList, "-c".toList, command]

/-- `os.system(command)`: a line `shellRun` reads changes the file system as it says when the
call succeeds; otherwise the shell writes as `writes` says, and exits with 0 exactly when the
call succeeds. -/
def system (command : List Char) : M Nat := modifyGet fun w =>
  match w.succeeds w.clock, shellRun w.fs w.cwd command with
  | true, some (fs, status) => (status, { w with fs := fs, clock := w.clock + 1 })
  | ok, _ => (if ok then 0 else 1,
      { w with fs := w.writes w.cwd (shArgs command) w.fs, clock := w.clock + 1 })

theorem system_run_of_shellRun {w : World} {command : List Char} {fs : Fs} {status : Nat}
    (hok : w.succeeds w.clock = true) (h : shellRun w.fs w.cwd command = some (fs, status)) :
    (system command).run w = .ok status { w with fs := fs, clock := w.clock + 1 } := by
  rw [system, run_modifyGet]
  simp only [hok, h]

theorem system_run_of_none {w : World} {command : List Char}
    (h : shellRun w.fs w.cwd command = none) :
    (system command).run w = .ok (if w.succeeds w.clock then 0 else 1)
      { w with fs := w.writes w.cwd (shArgs command) w.fs, clock := w.clock + 1 } := by
  rw [system, run_modifyGet]
  split <;> simp_all

/-- One outside call that runs the program `args` to its end: whether it exits with 0 is
`succeeds` of its number, and what it writes is `writes` of the working directory and `args`. -/
def spawn (args : List (List Char)) : M Bool := modifyGet fun w =>
  (w.succeeds w.clock, { w with fs := w.writes w.cwd args w.fs, clock := w.clock + 1 })

/-- `subprocess.check_call(args)`. -/
def checkCall (args : List (List Char)) : M Unit := do
  check (← spawn args) (.calledProcessError args)

/-- `subprocess.check_call(command, shell=True)`. -/
def checkCallShell (command : List Char) : M Unit := do
  check ((← system command) = 0) (.calledProcessError [command])

/-- `subprocess.Popen(args, ...)`: a new process, not yet signalled. What the node writes while it
runs is written when it starts: nothing else reads or writes the file system before it is shut
down. -/
def popen (args : List (List Char)) : M Nat := do
  if ← attempt then
    modifyGet fun w => (w.fresh, { w with
      fs := w.writes w.cwd args w.fs
      procs := ⟨w.fresh, false, false⟩ :: w.procs
      fresh := w.fresh + 1 })
  else throw (.libraryError (.popen args))

/-- The processes once `pid` was sent `terminate`. -/
def markTerminated (pid : Nat) (procs : List Proc) : List Proc :=
  procs.map fun p => if p.pid = pid then { p with terminated := true } else p

/-- The processes once `pid` was waited for. -/
def markWaited (pid : Nat) (procs : List Proc) : List Proc :=
  procs.map fun p => if p.pid = pid then { p with waited := true } else p

/-- `node.terminate()`. -/
def terminate (pid : Nat) : M Unit := do
  if ← attempt then modify fun w => { w with procs := markTerminated pid w.procs }
  else throw (.libraryError (.terminate pid))

/-- `node.wait()`. -/
def wait (pid : Nat) : M Unit := do
  if ← attempt then modify fun w => { w with procs := markWaited pid w.procs }
  else throw (.libraryError (.wait pid))

/-! ## Computations that leave the footprint alone -/

/-- `x` leaves the footprint as it found it, however it ends. -/
def Inert (x : M α) : Prop :=
  ∀ f, Triple (fun w => w.footprint = f) x (fun _ w => w.footprint = f) (fun _ w => w.footprint = f)

/-- An inert computation keeps every property of the footprint. -/
theorem Inert.triple {x : M α} (hx : Inert x) (P : Footprint → Prop) :
    Triple (fun w => P w.footprint) x (fun _ w => P w.footprint) (fun _ w => P w.footprint) :=
  fun w hw => by
    have := hx w.footprint w rfl
    split at this <;> simp_all

theorem Inert.bind {x : M α} {f : α → M β} (hx : Inert x) (hf : ∀ a, Inert (f a)) :
    Inert (x >>= f) := fun fp => (hx fp).bind fun a => hf a fp

theorem inert_pure (a : α) : Inert (pure a : M α) := fun _ _ h => h

theorem inert_throw (e : Exc) : Inert (throw e : M α) := fun _ _ h => h

theorem inert_of_run {x : M α} (h : ∀ w, match x.run w with
    | .ok _ w' => w'.footprint = w.footprint
    | .error _ w' => w'.footprint = w.footprint) : Inert x := fun f w hw => by
  have := h w
  subst hw
  split at this <;> simp_all

theorem inert_attempt : Inert attempt := inert_of_run fun _ => rfl

theorem inert_get : Inert (get : M World) := inert_of_run fun _ => rfl

theorem inert_set_fs (fs : Fs) : Inert (modify fun w : World => { w with fs := fs }) :=
  inert_of_run fun _ => rfl

theorem inert_ite {c : Prop} [Decidable c] {x y : M α} (hx : Inert x) (hy : Inert y) :
    Inert (if c then x else y) := by
  split_ifs
  · exact hx
  · exact hy

theorem inert_getcwd : Inert getcwd := inert_get.bind fun _ => inert_pure _

theorem inert_pathExists (path : List Char) : Inert (pathExists path) :=
  inert_get.bind fun _ => inert_get.bind fun _ => inert_pure _

theorem inert_check (ok : Bool) (e : Exc) : Inert (check ok e) := inert_ite (inert_pure _) (inert_throw _)

theorem inert_removeFile (path : List Char) : Inert (removeFile path) :=
  inert_get.bind fun w => by
    cases w.fs.lookup w.cwd path with
    | none => exact inert_throw _
    | some e => exact inert_ite (inert_throw _) (inert_of_run fun _ => rfl)

theorem inert_modifyGet {f : World → α × World} (h : ∀ w, (f w).2.footprint = w.footprint) :
    Inert (modifyGet f : M α) :=
  inert_of_run h

theorem inert_system (command : List Char) : Inert (system command) :=
  inert_modifyGet fun w => by
    split <;> rfl

theorem inert_spawn (args : List (List Char)) : Inert (spawn args) := inert_modifyGet fun _ => rfl

theorem inert_checkCall (args : List (List Char)) : Inert (checkCall args) :=
  (inert_spawn args).bind fun _ => inert_check _ _

theorem inert_checkCallShell (command : List Char) : Inert (checkCallShell command) :=
  (inert_system command).bind fun _ => inert_check _ _

end DevTools.Bwc
