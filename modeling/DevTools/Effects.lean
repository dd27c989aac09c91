import Mathlib
/-!
# Running effectful code

Both scripts are modelled in `EStateM ε σ`: a step reads and changes a state `σ` and either
returns or raises an exception of type `ε`, keeping the state it reached, as Python does. This
file gives the equations that run a composite computation from the results of its parts
(`run_bind_of_ok`, `run_bind_of_error`) and Python's `try`/`finally` (`tryFinally`), then
triples over such computations (`Triple`): what holds after a computation returns, and what holds
after it raises, with a rule for each way of composing them. A triple whose raising branch is
`False` says the computation returns (`Triple.run_ok`).
-/

namespace DevTools

open EStateM

variable {ε σ α β : Type} {x : EStateM ε σ α} {f : α → EStateM ε σ β} {s s' : σ} {a : α} {e : ε}

theorem run_bind_of_ok (h : x.run s = .ok a s') : (x >>= f).run s = (f a).run s' := by
  show (match x s with | .ok a s => f a s | .error e s => .error e s) = _
  rw [show x s = .ok a s' from h]
  rfl

theorem run_bind_of_error (h : x.run s = .error e s') : (x >>= f).run s = .error e s' := by
  show (match x s with | .ok a s => f a s | .error e s => .error e s) = _
  rw [show x s = .error e s' from h]

@[simp] theorem run_pure : (pure a : EStateM ε σ α).run s = .ok a s := rfl

@[simp] theorem run_throw : (throw e : EStateM ε σ α).run s = .error e s := rfl

@[simp] theorem run_get : (get : EStateM ε σ σ).run s = .ok s s := rfl

@[simp] theorem run_modify (g : σ → σ) : (modify g : EStateM ε σ PUnit).run s = .ok ⟨⟩ (g s) := rfl

@[simp] theorem run_modifyGet (g : σ → α × σ) :
    (modifyGet g : EStateM ε σ α).run s = .ok (g s).1 (g s).2 := rfl

theorem run_bind_get {f : σ → EStateM ε σ β} : (get >>= f).run s = (f s).run s := rfl

/-- Python's `try: body finally: cleanup`: the cleanup runs after the body however the body ends;
if the cleanup raises, its exception replaces the body's outcome. -/
def tryFinally (body : EStateM ε σ α) (cleanup : EStateM ε σ Unit) : EStateM ε σ α := fun s =>
  match body s with
  | .ok a s => match cleanup s with
    | .ok _ s => .ok a s
    | .error e s => .error e s
  | .error e s => match cleanup s with
    | .ok _ s => .error e s
    | .error e' s => .error e' s

/-! ## Triples -/

/-- `x`, run from a state satisfying `P`, ends in a state satisfying `Q a` when it returns `a`,
and in one satisfying `E e` when it raises `e`. -/
def Triple (P : σ → Prop) (x : EStateM ε σ α) (Q : α → σ → Prop) (E : ε → σ → Prop) : Prop :=
  ∀ s, P s → match x.run s with
    | .ok a s' => Q a s'
    | .error e s' => E e s'

variable {P P' : σ → Prop} {Q Q' : α → σ → Prop} {R : α → σ → Prop} {E E' F : ε → σ → Prop}

theorem Triple.mono (h : Triple P x Q E) (hP : ∀ s, P' s → P s) (hQ : ∀ a s, Q a s → Q' a s)
    (hE : ∀ e s, E e s → E' e s) : Triple P' x Q' E' := fun s hs => by
  have := h s (hP s hs)
  split at this <;> simp_all

theorem Triple.bind {Q : β → σ → Prop} (hx : Triple P x R E) (hf : ∀ a, Triple (R a) (f a) Q E) :
    Triple P (x >>= f) Q E := fun s hs => by
  have := hx s hs
  cases h : x.run s with
  | ok a s' =>
    rw [h] at this
    rw [run_bind_of_ok h]
    exact hf a s' this
  | error e s' =>
    rw [h] at this
    rw [run_bind_of_error h]
    exact this

/-- A fact about the values the computation was given, not its state, moves out of the
precondition. -/
theorem Triple.and_const {c : Prop} (h : c → Triple P x Q E) : Triple (fun s => P s ∧ c) x Q E :=
  fun s hs => h hs.2 s hs.1

theorem Triple.or {P₁ P₂ : σ → Prop} (h₁ : Triple P₁ x Q E) (h₂ : Triple P₂ x Q E) :
    Triple (fun s => P₁ s ∨ P₂ s) x Q E := fun s hs => hs.elim (h₁ s) (h₂ s)

/-- A computation that cannot raise returns, from every state its precondition holds in. -/
theorem Triple.run_ok (h : Triple P x Q fun _ _ => False) (hs : P s) :
    ∃ a s', x.run s = .ok a s' ∧ Q a s' := by
  have h := h s hs
  revert h
  cases x.run s with
  | ok a s' => exact fun h => ⟨a, s', rfl, h⟩
  | error _ _ => exact False.elim

theorem triple_pure (h : ∀ s, P s → Q a s) : Triple P (pure a) Q E := h

theorem triple_throw (h : ∀ s, P s → E e s) : Triple P (throw e : EStateM ε σ α) Q E := h

theorem Triple.tryFinally {body : EStateM ε σ α} {cleanup : EStateM ε σ Unit} (hb : Triple P body R F)
    (hok : ∀ a, Triple (R a) cleanup (fun _ => Q a) E)
    (herr : ∀ e, Triple (F e) cleanup (fun _ => E e) E) :
    Triple P (tryFinally body cleanup) Q E := fun s hs => by
  have hb := hb s hs
  simp only [EStateM.run, DevTools.tryFinally] at hb ⊢
  cases h : body s with
  | ok a s' =>
    rw [h] at hb
    have hc := hok a s' hb
    simp only [EStateM.run] at hc
    cases h' : cleanup s' <;> simp_all
  | error e s' =>
    rw [h] at hb
    have hc := herr e s' hb
    simp only [EStateM.run] at hc
    cases h' : cleanup s' <;> simp_all

end DevTools
