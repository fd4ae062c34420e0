import FullstackSvc.Async.Pool

/-!
# What only an arrival does

Some operations of a program come before its first await, in the same turn of the thread
as the arrival of its call, and no other process comes between.  `Prog.Only ok` says that
all operations of a program are `ok`, and `Prog.Early ok` that all are but those before
the first await.

* `only_bind`, `only_handle`, …: both are read off the text of a program.
* `only_step`: where the bodies of all calls are early, every process that has been
  launched has only such operations left.
* `keeps_resume`: **so what these operations keep, only an arrival changes**.
-/

namespace FullstackSvc.Async

variable {A : Sig} {E S Reply α β : Type} {ok : A.Op → Prop}

namespace Prog

/-- Every operation of the program is `ok`. -/
def Only (ok : A.Op → Prop) : Prog A E α → Prop
  | .ret _ => True
  | .fail _ => True
  | .await _ k => ∀ x, (k x).Only ok
  | .sync o k => ok o ∧ ∀ v, (k v).Only ok

/-- Every operation after the first await is `ok`. -/
def Early (ok : A.Op → Prop) : Prog A E α → Prop
  | .ret _ => True
  | .fail _ => True
  | .await _ k => ∀ x, (k x).Only ok
  | .sync _ k => ∀ v, (k v).Early ok

@[simp] theorem only_ret (a : α) : (.ret a : Prog A E α).Only ok := trivial

@[simp] theorem only_fail (e : E) : (.fail e : Prog A E α).Only ok := trivial

@[simp] theorem only_call (c : A.Cmd) : (call c : Prog A E _).Only ok := by
  intro x
  cases x with
  | ok a => exact trivial
  | error e => exact trivial

theorem only_op {o : A.Op} (h : ok o) : (op o : Prog A E _).Only ok := ⟨h, fun _ => trivial⟩

theorem only_bind {p : Prog A E α} {f : α → Prog A E β} (hp : p.Only ok)
    (hf : ∀ a, (f a).Only ok) : (p.bind f).Only ok := by
  induction p with
  | ret a => exact hf a
  | fail e => exact trivial
  | await c k ih => exact fun x => ih x (hp x)
  | sync o k ih => exact ⟨hp.1, fun v => ih v (hp.2 v)⟩

theorem only_handle {p : Prog A E α} {h : E → Prog A E α} (hp : p.Only ok)
    (hh : ∀ e, (h e).Only ok) : (p.handle h).Only ok := by
  induction p with
  | ret a => exact trivial
  | fail e => exact hh e
  | await c k ih => exact fun x => ih x (hp x)
  | sync o k ih => exact ⟨hp.1, fun v => ih v (hp.2 v)⟩

theorem Only.early {p : Prog A E α} (h : p.Only ok) : p.Early ok := by
  induction p with
  | ret a => exact trivial
  | fail e => exact trivial
  | await c k _ => exact h
  | sync o k ih => exact fun v => ih v (h.2 v)

/-- After an operation comes what is early. -/
theorem early_op_bind {o : A.Op} {f : A.Val o → Prog A E β} (hf : ∀ v, (f v).Early ok) :
    ((op o).bind f).Early ok := hf

theorem early_handle {p : Prog A E α} {h : E → Prog A E α} (hp : p.Early ok)
    (hh : ∀ e, (h e).Only ok) : (p.handle h).Early ok := by
  induction p with
  | ret a => exact trivial
  | fail e => exact (hh e).early
  | await c k _ => exact fun x => only_handle (hp x) hh
  | sync o k ih => exact fun v => ih v (hp v)

/-- What is left at the next await. -/
theorem only_settle {H : Host A E S Reply} {pid : Nat} :
    ∀ (p : Prog A E α) (s : S), p.Early ok → (p.settle H pid s).1.Only ok := by
  intro p
  induction p with
  | ret a => exact fun _ h => h
  | fail e => exact fun _ h => h
  | await c k _ => exact fun _ h => h
  | sync o k ih => exact fun s h => ih _ _ (h _)

theorem keeps_settle {H : Host A E S Reply} {pid : Nat} {f : S → β}
    (hf : ∀ o s, ok o → f (H.compute pid o s).2 = f s) :
    ∀ (p : Prog A E α) (s : S), p.Only ok → f (p.settle H pid s).2 = f s := by
  intro p
  induction p with
  | ret a => exact fun _ _ => rfl
  | fail e => exact fun _ _ => rfl
  | await c k _ => exact fun _ _ => rfl
  | sync o k ih =>
    intro s h
    exact (ih _ _ (h.2 _)).trans (hf o s h.1)

end Prog

namespace Service

variable {H : Host A E S Reply} {P : Service H}

/-- **Once a call has arrived, it has only such operations left.** -/
theorem only_step (hearly : ∀ c, (P.body c).Early ok) {σ σ' : P.Sys} {e : P.Event}
    (h : ∀ p ∈ σ.procs, p.prog.Only ok) (hs : step σ e = some σ') :
    ∀ p ∈ σ'.procs, p.prog.Only ok := by
  intro p hp
  cases e with
  | call c =>
    obtain ⟨s, -, rfl⟩ := step_call hs
    rcases List.mem_append.mp hp with hp | hp
    · exact h p hp
    · rw [List.mem_singleton.mp hp]
      exact Prog.only_settle _ _ (hearly c)
  | resume pid r =>
    obtain ⟨c, d, k, x, s, hget, -, rfl⟩ := step_resume hs
    rcases List.mem_or_eq_of_mem_set hp with hp | rfl
    · exact h p hp
    · have hk := h _ (List.mem_of_getElem? hget)
      exact Prog.only_settle _ _ (hk x).early
  | env e =>
    obtain ⟨s, -, rfl⟩ := step_env hs
    exact h p hp
  | kill pid =>
    obtain ⟨q, hq, -, rfl⟩ := step_kill hs
    rcases List.mem_or_eq_of_mem_set hp with hp | rfl
    · exact h p hp
    · exact h q (List.mem_of_getElem? hq)

/-- **A process that goes on** changes nothing that its operations and its commands keep. -/
theorem keeps_resume {f : S → β} (hop : ∀ pid o s, ok o → f (H.compute pid o s).2 = f s)
    (hcmd : ∀ {pid r c x s s'}, H.perform pid c r s = some (x, s') → f s' = f s)
    {σ σ' : P.Sys} (h : ∀ p ∈ σ.procs, p.prog.Only ok) {pid : Nat} {r : Reply}
    (hs : step σ (.resume pid r) = some σ') : f σ'.shared = f σ.shared := by
  obtain ⟨c, d, k, x, s, hget, hx, rfl⟩ := step_resume hs
  have hk := h _ (List.mem_of_getElem? hget)
  exact (Prog.keeps_settle (hop pid) _ _ (hk x)).trans (hcmd hx)

end Service

end FullstackSvc.Async
