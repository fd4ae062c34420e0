import FullstackSvc.Async.RelyGuarantee
import FullstackSvc.Async.Trace

/-!
# One process among others

An `Outline` speaks of all the processes of a pool.  Here it is one process in a context
of its own, and the others may be whatever they are, as long as their steps stay in what
it relies on: `Admits` is that condition on the schedule.

* `stands_of_reaches`: **the process is where its `wp` says**, in every state of the run.
* `result_of_reaches`: what it has achieved when it is over.
-/

namespace FullstackSvc.Async

variable {A : Sig} {E S Reply : Type} {H : Host A E S Reply} {P : Service H}

/-- The others stay in the rely of the context, and the answers to the process are as the
context has them. -/
structure Ctx.Admits (L : Ctx A S Reply) (pid : Nat) (ok : P.Sys → P.Event → Prop) : Prop where
  refl : ∀ s, L.rely s s
  trans : ∀ s s' s'', L.rely s s' → L.rely s' s'' → L.rely s s''
  others : ∀ {σ e σ'}, ok σ e → Service.step σ e = some σ' → σ.mover e ≠ some pid →
    L.rely σ.shared σ'.shared
  own : ∀ {σ r d}, ok σ (.resume pid r) → σ.pending pid = some d →
    L.inv σ.shared ∧ L.ok d r σ.shared

/-- The process stopped in a state from where its program meets the goal, and the others
have moved on from there. -/
def Ctx.Stands (L : Ctx A S Reply) (pid : Nat) (c : P.Call) (Q : Except E (P.Ret c) → S → S → Prop)
    (σ : P.Sys) : Prop :=
  ∃ prog alive s₀ s, σ.procs[pid]? = some ⟨c, prog, alive⟩ ∧ prog.Parked ∧
    prog.wp H pid L Q s₀ s ∧ L.rely s σ.shared

variable {L : Ctx A S Reply} {pid : Nat} {c : P.Call} {Q : Except E (P.Ret c) → S → S → Prop}
  {ok : P.Sys → P.Event → Prop} {σ σ' : P.Sys}

/-- The process begins. -/
theorem stands_call (hrefl : ∀ s, L.rely s s)
    (hwp : ∀ s, P.accept σ.procs.length c σ.shared = some s →
      (P.body c).wp H σ.procs.length L Q s s)
    (hs : Service.step σ (.call c) = some σ') : L.Stands σ.procs.length c Q σ' := by
  obtain ⟨s, ha, rfl⟩ := Service.step_call hs
  exact ⟨_, true, s, _, List.getElem?_concat_length, Prog.parked_settle H _ _ _,
    Prog.wp_settle _ _ _ (hwp s ha), hrefl _⟩

/-- **Step rule for one process.** -/
theorem stands_step (A : L.Admits pid ok) {e : P.Event} (h : L.Stands pid c Q σ) (hok : ok σ e)
    (hs : Service.step σ e = some σ') : L.Stands pid c Q σ' := by
  obtain ⟨prog, alive, s₀, s, hp, hparked, hwp, hrely⟩ := h
  by_cases hm : σ.mover e = some pid
  · cases e with
    | call c' =>
      -- the new process has another number
      have hlt := (List.getElem?_eq_some_iff.mp hp).1
      have := Option.some.inj hm
      omega
    | resume pid' r =>
      obtain rfl : pid' = pid := Option.some.inj hm
      obtain ⟨c', d, k, x, s', hget, hperf, rfl⟩ := Service.step_resume hs
      have hsame := Option.some.inj (hp.symm.trans hget)
      cases hsame
      obtain ⟨hinv, hrok⟩ := A.own hok (Service.pending_of_await hget)
      have hk := (hwp.2 σ.shared hrely hinv).2 r hrok x s' hperf
      exact ⟨_, true, σ.shared, _, List.getElem?_set_self (List.getElem?_eq_some_iff.mp hget).1,
        Prog.parked_settle H _ _ _, Prog.wp_settle _ _ _ hk, A.refl _⟩
    | env e => cases hm
    | kill pid' => cases hm
  · obtain ⟨alive', hstay⟩ := Service.stays_step hs hp hm
    exact ⟨prog, alive', s₀, s, hstay, hparked, hwp, A.trans _ _ _ hrely (A.others hok hs hm)⟩

/-- **Run rule for one process.** -/
theorem stands_of_reaches (A : L.Admits pid ok) (h : L.Stands pid c Q σ)
    (hr : Service.Reaches ok σ σ') : L.Stands pid c Q σ' := by
  induction hr with
  | refl => exact h
  | tail _ hs ih =>
    obtain ⟨e, hok, hs⟩ := hs
    exact stands_step A ih hok hs

/-- When the process is over, it has met its goal, and the others have moved on. -/
theorem result_of_reaches (A : L.Admits pid ok) (h : L.Stands pid c Q σ)
    (hr : Service.Reaches ok σ σ') {x : Except E (P.Ret c)} {alive : Bool}
    (hp : σ'.procs[pid]? = some ⟨c, Prog.ended x, alive⟩) :
    ∃ s₀ s, Q x s₀ s ∧ L.rely s σ'.shared := by
  obtain ⟨prog, alive', s₀, s, hp', -, hwp, hrely⟩ := stands_of_reaches A h hr
  have hsame := Option.some.inj (hp.symm.trans hp')
  cases hsame
  cases x with
  | ok a => exact ⟨s₀, s, hwp, hrely⟩
  | error e => exact ⟨s₀, s, hwp, hrely⟩

end FullstackSvc.Async
