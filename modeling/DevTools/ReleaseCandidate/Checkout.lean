import Mathlib
import DevTools.ReleaseCandidate.VersionFile

/-!
# `ensure_checkout_is_clean`

Before it changes anything, the release script reads the outputs of `git diff --shortstat` and
`git status` and raises a `RuntimeError` on local changes, on untracked files, or on a branch
behind or ahead of `origin`; on untracked files it first prints a note when they include
`dev-tools/__pycache__/`. `ensureCheckoutIsClean` takes both outputs as decoded text and gives the
lines printed and the outcome.

It returns exactly when the diff is empty and the status mentions none of the three conditions
(`ensureCheckoutIsClean_ok_iff`); every exception it raises ends with the output of the command
whose check failed (`ensureCheckoutIsClean_error`), and the note is printed only before the
exception about untracked files (`ensureCheckoutIsClean_prints`).
-/

namespace DevTools.ReleaseCandidate

/-- What `git status` prints above untracked files. -/
def untrackedFiles : List Char := "Untracked files:".toList

/-- What `git status` prints on a branch behind its upstream. -/
def isBehind : List Char := "is behind".toList

/-- What `git status` prints on a branch ahead of its upstream. -/
def isAhead : List Char := "is ahead".toList

/-- The directory of the note on untracked files. -/
def pycacheDir : List Char := "dev-tools/__pycache__/".toList

/-- The note printed when `__pycache__` is among the untracked files. -/
def pycacheNote : List Char :=
  "*** NOTE: invoke python with -B to prevent __pycache__ directories ***".toList

/-- The message on local changes, before the diff it ends with; the status checks' messages end
with the status. -/
def dirtyMessage : List Char := "git diff --shortstat is non-empty got:\n".toList

/-- The message on untracked files. -/
def untrackedMessage : List Char := "git status shows untracked files got:\n".toList

/-- The message on a branch behind `origin`. -/
def behindMessage : List Char :=
  ("git status shows not all changes pulled from origin; try running \"git pull origin\" " ++
    "in this branch got:\n").toList

/-- The message on a branch ahead of `origin`. -/
def aheadMessage : List Char :=
  ("git status shows local commits; try running \"git fetch origin\", \"git checkout \", " ++
    "\"git reset --hard origin/\" in this branch got:\n").toList

/-- `ensure_checkout_is_clean()`, on the outputs of `git diff --shortstat` and `git status`: the
lines it prints and how it ends. -/
def ensureCheckoutIsClean (diff status : List Char) : List (List Char) × Except Exc Unit :=
  if diff.length > 0 then ([], .error (.runtimeError (dirtyMessage ++ diff)))
  else if untrackedFiles <:+: status then
    (if pycacheDir <:+: status then [pycacheNote] else [],
      .error (.runtimeError (untrackedMessage ++ status)))
  else if isBehind <:+: status then ([], .error (.runtimeError (behindMessage ++ status)))
  else if isAhead <:+: status then ([], .error (.runtimeError (aheadMessage ++ status)))
  else ([], .ok ())

/-- The release script goes on exactly on a checkout with no local change and no untracked file,
on a branch neither behind nor ahead of `origin`. -/
theorem ensureCheckoutIsClean_ok_iff (diff status : List Char) :
    (ensureCheckoutIsClean diff status).2 = .ok () ↔
      diff = [] ∧ ¬ untrackedFiles <:+: status ∧ ¬ isBehind <:+: status ∧
        ¬ isAhead <:+: status := by
  unfold ensureCheckoutIsClean
  rcases eq_or_ne diff [] with rfl | hd
  · split_ifs <;> simp_all
  · simp [List.length_pos.2 hd, hd]

/-- Every exception is a `RuntimeError` whose message ends with the output its check read: the
diff when it is not empty, the status otherwise. -/
theorem ensureCheckoutIsClean_error {diff status : List Char} {e : Exc}
    (h : (ensureCheckoutIsClean diff status).2 = .error e) :
    (diff ≠ [] ∧ e = .runtimeError (dirtyMessage ++ diff)) ∨
      (diff = [] ∧ ∃ msg ∈ [untrackedMessage, behindMessage, aheadMessage],
        e = .runtimeError (msg ++ status)) := by
  unfold ensureCheckoutIsClean at h
  rcases eq_or_ne diff [] with rfl | hd
  · split_ifs at h <;> cases h <;> simp_all
  · simp only [List.length_pos.2 hd, if_true, Except.error.injEq] at h
    exact .inl ⟨hd, h.symm⟩

/-- The note is printed only on the way to the exception about untracked files. -/
theorem ensureCheckoutIsClean_prints {diff status : List Char}
    (h : (ensureCheckoutIsClean diff status).1 ≠ []) :
    (ensureCheckoutIsClean diff status).1 = [pycacheNote] ∧
      (ensureCheckoutIsClean diff status).2 = .error (.runtimeError (untrackedMessage ++ status)) := by
  unfold ensureCheckoutIsClean at h ⊢
  split_ifs at h ⊢ <;> simp_all

end DevTools.ReleaseCandidate
