import FullstackSvc.Async.Pool

/-!
# Refinement of an abstract system

`Next` is a step of an abstract system, and `Shows` says which of its states a pool is in.
A pool *refines* the abstract system when each of its steps is a step of it, or none.

* `Refines.reaches`: a run of the pool is a run of the abstract system.
* `Refines.inv`: so what every abstract step keeps holds of what the pool shows.
-/

namespace FullstackSvc.Async

variable {A : Sig} {E S Reply B : Type} {H : Host A E S Reply} {P : Service H}

/-- Every admitted step of the pool is an abstract step, or shows what was shown before. -/
def Refines (admitted : P.Sys → P.Event → Prop) (Shows : P.Sys → B → Prop) (Next : B → B → Prop) :
    Prop :=
  ∀ {σ e σ' b}, admitted σ e → Service.step σ e = some σ' → Shows σ b →
    ∃ b', Shows σ' b' ∧ Relation.ReflGen Next b b'

variable {admitted : P.Sys → P.Event → Prop} {Shows : P.Sys → B → Prop} {Next : B → B → Prop}
  {σ σ' : P.Sys} {b : B}

/-- **A run of the pool is a run of the abstract system.** -/
theorem Refines.reaches (R : Refines admitted Shows Next) (hb : Shows σ b)
    (hr : Service.Reaches admitted σ σ') : ∃ b', Shows σ' b' ∧ Relation.ReflTransGen Next b b' := by
  induction hr with
  | refl => exact ⟨b, hb, .refl⟩
  | tail _ hs ih =>
    obtain ⟨e, hok, hs⟩ := hs
    obtain ⟨b₁, hb₁, hnext⟩ := ih
    obtain ⟨b₂, hb₂, hstep⟩ := R hok hs hb₁
    exact ⟨b₂, hb₂, hnext.trans hstep.to_reflTransGen⟩

/-- What every step of a relation keeps holds in every state it leads to. -/
theorem inv_of_steps {J : B → Prop} (hkeep : ∀ {b b'}, J b → Next b b' → J b') {b' : B} (hJ : J b)
    (hr : Relation.ReflTransGen Next b b') : J b' := by
  induction hr with
  | refl => exact hJ
  | tail _ hs ih => exact hkeep ih hs

/-- **Invariants of the abstract system** hold of what the pool shows. -/
theorem Refines.inv (R : Refines admitted Shows Next) {J : B → Prop}
    (hkeep : ∀ {b b'}, J b → Next b b' → J b') (hb : Shows σ b) (hJ : J b)
    (hr : Service.Reaches admitted σ σ') : ∃ b', Shows σ' b' ∧ J b' := by
  obtain ⟨b', hb', hnext⟩ := R.reaches hb hr
  exact ⟨b', hb', inv_of_steps (J := J) hkeep hJ hnext⟩

end FullstackSvc.Async
