import Mathlib.Data.List.Basic

/-!
# Machines that react to events

A `Machine` answers an event with an output and a new state; an event that
cannot come in a state has no answer there.  A run is any list of events, and
what is said of its steps is said up to the first event that cannot come.

* `run_concat`, `Along.of_run`: the last step of a run.
* `run_inv`: what every step keeps.
* `along_iff`: **a property of steps and a condition on events that agree in the
  states of an invariant agree along whole runs**.
-/

namespace FullstackSvc.Async

structure Machine (S E O : Type) where
  step : S → E → Option (O × S)

namespace Machine

variable {S E O : Type} {M : Machine S E O} {Inv : S → Prop} {Ok : S → E → Prop}
  {P : S → E → O → S → Prop} {s : S} {es : List E}

/-- The state after a run. -/
def run (M : Machine S E O) : S → List E → Option S
  | s, [] => some s
  | s, e :: es =>
    match M.step s e with
    | none => none
    | some (_, s') => run M s' es

/-- Every step of the run is as `P` says. -/
def Along (M : Machine S E O) (P : S → E → O → S → Prop) : S → List E → Prop
  | _, [] => True
  | s, e :: es => ∀ o s', M.step s e = some (o, s') → P s e o s' ∧ Along M P s' es

/-- Every event of the run meets a condition on the state that it meets. -/
def Meets (M : Machine S E O) (Ok : S → E → Prop) : S → List E → Prop :=
  M.Along fun s e _ _ => Ok s e

/-- One more event. -/
theorem run_concat {e : E} {o : O} {s₁ s₂ : S} (hr : M.run s es = some s₁)
    (hs : M.step s₁ e = some (o, s₂)) : M.run s (es ++ [e]) = some s₂ := by
  induction es generalizing s with
  | nil =>
    obtain rfl : s = s₁ := Option.some.inj hr
    show M.run s [e] = some s₂
    rw [run, hs]
    rfl
  | cons e' es ih =>
    rw [List.cons_append, run]
    rw [run] at hr
    cases h : M.step s e' with
    | none => rw [h] at hr; cases hr
    | some a =>
      rw [h] at hr
      exact ih hr

/-- What every step keeps holds after every run. -/
theorem run_inv (hkeep : ∀ s e o s', Inv s → M.step s e = some (o, s') → Inv s') (hinv : Inv s)
    {s' : S} (hr : M.run s es = some s') : Inv s' := by
  induction es generalizing s with
  | nil => exact Option.some.inj hr ▸ hinv
  | cons e es ih =>
    rw [run] at hr
    cases h : M.step s e with
    | none => rw [h] at hr; cases hr
    | some a =>
      rw [h] at hr
      exact ih (hkeep s e a.1 a.2 hinv h) hr

/-- The step after a run is as `P` says. -/
theorem Along.of_run {e : E} {o : O} {s₁ s₂ : S} (ha : M.Along P s (es ++ [e]))
    (hr : M.run s es = some s₁) (hs : M.step s₁ e = some (o, s₂)) : P s₁ e o s₂ := by
  induction es generalizing s with
  | nil =>
    obtain rfl : s = s₁ := Option.some.inj hr
    exact (ha o s₂ hs).1
  | cons e' es ih =>
    rw [run] at hr
    cases h : M.step s e' with
    | none => rw [h] at hr; cases hr
    | some a =>
      rw [h] at hr
      exact ih (ha a.1 a.2 h).2 hr

/-- **What is the same at every step is the same along every run**: in the states of an
invariant, which the good events keep, a step is as `P` says if and only if its event is
good. -/
theorem along_iff (hinv : Inv s)
    (hiff : ∀ s e o s', Inv s → M.step s e = some (o, s') → (P s e o s' ↔ Ok s e))
    (hkeep : ∀ s e o s', Inv s → Ok s e → M.step s e = some (o, s') → Inv s') :
    M.Along P s es ↔ M.Meets Ok s es := by
  induction es generalizing s with
  | nil => exact Iff.rfl
  | cons e es ih =>
    refine forall_congr' fun o => forall_congr' fun s' => forall_congr' fun hs => ?_
    constructor
    · rintro ⟨hp, hes⟩
      have hok := (hiff s e o s' hinv hs).mp hp
      exact ⟨hok, (ih (hkeep s e o s' hinv hok hs)).mp hes⟩
    · rintro ⟨hok, hes⟩
      exact ⟨(hiff s e o s' hinv hs).mpr hok, (ih (hkeep s e o s' hinv hok hs)).mpr hes⟩

end Machine

end FullstackSvc.Async
