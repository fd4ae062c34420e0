import Mathlib.Data.List.Induction
import Mathlib.Logic.Relation
import FullstackSvc.Async.Extends
import FullstackSvc.Async.Program

/-!
# Pools of processes that interleave at their awaits

A `Service` is a set of calls, each with a program, on a host.  A system is the
shared state and the list of all processes started so far; a process is known
by its place in the list.  One step of a system is one event:

* a call arrives, and its program runs up to its first await;
* an awaited command of some process settles, and that process runs up to its
  next await or to its end;
* the environment acts on the shared state (a timer, a listener, the clock);
* a process of a kind that can die is gone for good.

`Reaches ok` is the closure of the steps whose event meets the condition `ok`.
The schedule is any list of events: nothing is assumed about fairness or order.
-/

namespace FullstackSvc.Async

variable {A : Sig} {E S Reply : Type}

/-- A set of calls served on a host. -/
structure Service (H : Host A E S Reply) where
  Call : Type
  Ret : Call → Type
  body : (c : Call) → Prog A E (Ret c)
  /-- Whether a call may start, and what its arrival does to the shared state. -/
  accept : Nat → Call → S → Option S
  Env : Type
  env : Env → S → Option S
  mortal : Call → Bool

namespace Service

variable {H : Host A E S Reply} (P : Service H)

/-- A process: the call it serves and what is left of its program. -/
structure Proc where
  call : P.Call
  prog : Prog A E (P.Ret call)
  alive : Bool

structure Sys where
  shared : S
  procs : List P.Proc

inductive Event
  | call (c : P.Call)
  | resume (pid : Nat) (r : Reply)
  | env (e : P.Env)
  | kill (pid : Nat)

variable {P}

/-- The process started for call `c` as number `pid`, in state `s`. -/
def launch (pid : Nat) (c : P.Call) (s : S) : P.Proc × S :=
  (⟨c, ((P.body c).settle H pid s).1, true⟩, ((P.body c).settle H pid s).2)

/-- What is left of a process when its awaited command settles with `r`. -/
def Proc.wake (pid : Nat) (p : P.Proc) (r : Reply) (s : S) : Option (P.Proc × S) :=
  match p.prog, p.alive with
  | .await d k, true =>
    match H.perform pid d r s with
    | none => none
    | some (x, s') =>
      some (⟨p.call, ((k x).settle H pid s').1, true⟩, ((k x).settle H pid s').2)
  | _, _ => none

/-- The process can still act. -/
def Proc.Live (p : P.Proc) : Prop := p.alive = true ∧ p.prog.Running

instance (p : P.Proc) : Decidable p.Live := inferInstanceAs (Decidable (_ ∧ _))

def step (σ : P.Sys) : P.Event → Option P.Sys
  | .call c =>
    match P.accept σ.procs.length c σ.shared with
    | none => none
    | some s =>
      some ⟨(launch σ.procs.length c s).2, σ.procs ++ [(launch σ.procs.length c s).1]⟩
  | .resume pid r =>
    match σ.procs[pid]? with
    | none => none
    | some p =>
      match p.wake pid r σ.shared with
      | none => none
      | some (p', s') => some ⟨s', σ.procs.set pid p'⟩
  | .env e =>
    match P.env e σ.shared with
    | none => none
    | some s => some ⟨s, σ.procs⟩
  | .kill pid =>
    match σ.procs[pid]? with
    | none => none
    | some p => if P.mortal p.call then some ⟨σ.shared, σ.procs.set pid { p with alive := false }⟩
        else none

/-- The command that a process awaits. -/
def Sys.pending (σ : P.Sys) (pid : Nat) : Option A.Cmd :=
  match σ.procs[pid]? with
  | some ⟨_, .await d _, true⟩ => some d
  | _ => none

theorem pending_of_await {σ : P.Sys} {pid : Nat} {c : P.Call} {d : A.Cmd}
    {k : Except E (A.Res d) → Prog A E (P.Ret c)}
    (h : σ.procs[pid]? = some ⟨c, .await d k, true⟩) : σ.pending pid = some d := by
  rw [Sys.pending, h]

theorem await_of_pending {σ : P.Sys} {pid : Nat} {d : A.Cmd} (h : σ.pending pid = some d) :
    ∃ c k, σ.procs[pid]? = some ⟨c, .await d k, true⟩ := by
  unfold Sys.pending at h
  split at h
  · rename_i c d' k hp
    cases h
    exact ⟨c, k, hp⟩
  · cases h

/-- The process that an event moves. -/
def Sys.mover (σ : P.Sys) : P.Event → Option Nat
  | .call _ => some σ.procs.length
  | .resume pid _ => some pid
  | .env _ => none
  | .kill _ => none

/-- The call that an event moves. -/
def Sys.caller (σ : P.Sys) : P.Event → Option P.Call
  | .call c => some c
  | .resume pid _ => (σ.procs[pid]?).map Proc.call
  | .env _ => none
  | .kill _ => none

/-- Run a schedule. -/
def run (σ : P.Sys) : List P.Event → Option P.Sys
  | [] => some σ
  | e :: es =>
    match step σ e with
    | none => none
    | some σ' => run σ' es

/-- One step whose event meets `ok`. -/
def Step (ok : P.Sys → P.Event → Prop) (σ σ' : P.Sys) : Prop :=
  ∃ e, ok σ e ∧ step σ e = some σ'

abbrev Reaches (ok : P.Sys → P.Event → Prop) : P.Sys → P.Sys → Prop :=
  Relation.ReflTransGen (Step ok)

/-- No condition on the schedule. -/
def anyEvent : P.Sys → P.Event → Prop := fun _ _ => True

/-- A run whose events meet a condition meets a weaker one. -/
theorem Reaches.mono {ok ok' : P.Sys → P.Event → Prop} (h : ∀ σ e, ok σ e → ok' σ e)
    {σ σ' : P.Sys} (hr : Reaches ok σ σ') : Reaches ok' σ σ' := by
  induction hr with
  | refl => exact .refl
  | tail _ hs ih =>
    obtain ⟨e, ho, hs⟩ := hs
    exact ih.tail ⟨e, h _ e ho, hs⟩

/-- **An invariant of every step** may be used at every step of a run. -/
theorem Reaches.strengthen {ok : P.Sys → P.Event → Prop} {J : P.Sys → Prop}
    (hstep : ∀ σ e σ', J σ → step σ e = some σ' → J σ') {σ σ' : P.Sys} (hJ : J σ)
    (hr : Reaches ok σ σ') : J σ' ∧ Reaches (fun σ e => J σ ∧ ok σ e) σ σ' := by
  induction hr with
  | refl => exact ⟨hJ, .refl⟩
  | tail _ hs ih =>
    obtain ⟨e, ho, hs⟩ := hs
    exact ⟨hstep _ e _ ih.1 hs, ih.2.tail ⟨e, ⟨ih.1, ho⟩, hs⟩⟩

/-- Run a schedule as long as its events meet a condition. -/
def runIf (ok : P.Sys → P.Event → Prop) [∀ σ e, Decidable (ok σ e)] (σ : P.Sys) :
    List P.Event → Option P.Sys
  | [] => some σ
  | e :: es =>
    if ok σ e then
      match step σ e with
      | none => none
      | some σ' => runIf ok σ' es
    else none

theorem reaches_of_runIf {ok : P.Sys → P.Event → Prop} [∀ σ e, Decidable (ok σ e)] {σ σ' : P.Sys}
    {es : List P.Event} (h : runIf ok σ es = some σ') : Reaches ok σ σ' := by
  induction es generalizing σ with
  | nil =>
    simp only [runIf, Option.some.injEq] at h
    exact h ▸ .refl
  | cons e es ih =>
    simp only [runIf] at h
    split at h
    · rename_i hok
      split at h
      · cases h
      · rename_i σ₁ hs
        exact .head ⟨e, hok, hs⟩ (ih h)
    · cases h

theorem run_of_runIf {ok : P.Sys → P.Event → Prop} [∀ σ e, Decidable (ok σ e)] {σ σ' : P.Sys}
    {es : List P.Event} (h : runIf ok σ es = some σ') : run σ es = some σ' := by
  induction es generalizing σ with
  | nil => exact h
  | cons e es ih =>
    simp only [runIf] at h
    split at h
    · simp only [run]
      split at h
      · cases h
      · rename_i σ₁ hs
        exact ih h
    · cases h

/-- A schedule whose events meet the condition wherever they come. -/
theorem reaches_of_run {ok : P.Sys → P.Event → Prop} {σ σ' : P.Sys} {es : List P.Event}
    (h : run σ es = some σ') (hok : ∀ e ∈ es, ∀ σ, ok σ e) : Reaches ok σ σ' := by
  induction es generalizing σ with
  | nil =>
    simp only [run, Option.some.injEq] at h
    exact h ▸ .refl
  | cons e es ih =>
    simp only [run] at h
    split at h
    · cases h
    · rename_i σ₁ hs
      exact .head ⟨e, hok e (List.mem_cons_self ..) σ, hs⟩
        (ih h fun e' he => hok e' (List.mem_cons_of_mem _ he))

theorem run_append (σ : P.Sys) (es es' : List P.Event) :
    run σ (es ++ es') = (run σ es).bind fun σ' => run σ' es' := by
  induction es generalizing σ with
  | nil => rfl
  | cons e es ih =>
    rw [List.cons_append, run, run]
    cases step σ e with
    | none => rfl
    | some σ' => exact ih σ'

/-- **An invariant of the schedule so far and the state that it has led to.** -/
theorem run_induction {σ : P.Sys} {J : List P.Event → P.Sys → Prop} (hnil : J [] σ)
    (hstep : ∀ es σ₁ e σ₂, J es σ₁ → step σ₁ e = some σ₂ → J (es ++ [e]) σ₂)
    {es : List P.Event} {σ' : P.Sys} (h : run σ es = some σ') : J es σ' := by
  induction es using List.reverseRecOn generalizing σ' with
  | nil => exact Option.some.inj h ▸ hnil
  | append_singleton es e ih =>
    rw [run_append] at h
    obtain ⟨σ₁, hes, he⟩ := Option.bind_eq_some_iff.mp h
    rw [run] at he
    cases hs : step σ₁ e with
    | none =>
      rw [hs] at he
      cases he
    | some σ₂ =>
      rw [hs] at he
      exact Option.some.inj he ▸ hstep es σ₁ e σ₂ (ih hes) hs

theorem step_call {σ σ' : P.Sys} {c : P.Call} (h : step σ (.call c) = some σ') :
    ∃ s, P.accept σ.procs.length c σ.shared = some s ∧
      σ' = ⟨(launch σ.procs.length c s).2, σ.procs ++ [(launch σ.procs.length c s).1]⟩ := by
  simp only [step] at h
  split at h
  · cases h
  · rename_i s hs
    exact ⟨s, hs, (Option.some.inj h).symm⟩

theorem step_resume {σ σ' : P.Sys} {pid : Nat} {r : Reply}
    (h : step σ (.resume pid r) = some σ') :
    ∃ c d k x s, σ.procs[pid]? = some ⟨c, .await d k, true⟩ ∧
      H.perform pid d r σ.shared = some (x, s) ∧
      σ' = ⟨((k x).settle H pid s).2, σ.procs.set pid ⟨c, ((k x).settle H pid s).1, true⟩⟩ := by
  simp only [step] at h
  split at h
  · cases h
  · rename_i p hp
    obtain ⟨c, prog, alive⟩ := p
    cases prog with
    | await d k =>
      cases alive with
      | false => simp [Proc.wake] at h
      | true =>
        simp only [Proc.wake] at h
        cases hx : H.perform pid d r σ.shared with
        | none => simp [hx] at h
        | some xs =>
          obtain ⟨x, s⟩ := xs
          simp only [hx, Option.some.injEq] at h
          exact ⟨c, d, k, x, s, hp, hx, h.symm⟩
    | ret a => simp [Proc.wake] at h
    | fail e => simp [Proc.wake] at h
    | sync o k => simp [Proc.wake] at h

theorem step_env {σ σ' : P.Sys} {e : P.Env} (h : step σ (.env e) = some σ') :
    ∃ s, P.env e σ.shared = some s ∧ σ' = ⟨s, σ.procs⟩ := by
  simp only [step] at h
  split at h
  · cases h
  · rename_i s hs
    exact ⟨s, hs, (Option.some.inj h).symm⟩

theorem step_kill {σ σ' : P.Sys} {pid : Nat} (h : step σ (.kill pid) = some σ') :
    ∃ p, σ.procs[pid]? = some p ∧ P.mortal p.call = true ∧
      σ' = ⟨σ.shared, σ.procs.set pid { p with alive := false }⟩ := by
  simp only [step] at h
  split at h
  · cases h
  · rename_i p hp
    split at h
    · rename_i hm
      exact ⟨p, hp, hm, (Option.some.inj h).symm⟩
    · cases h

/-- **Invariant rule.**  What the commands, the operations, the arrivals and the
environment keep of the shared state holds in every state a run reaches. -/
theorem inv_of_reaches {ok : P.Sys → P.Event → Prop} {J : S → Prop}
    (perform : ∀ {σ : P.Sys} {pid r c x s}, ok σ (.resume pid r) → σ.pending pid = some c →
      J σ.shared → H.perform pid c r σ.shared = some (x, s) → J s)
    (compute : ∀ pid o s, J s → J (H.compute pid o s).2)
    (accept : ∀ {pid c s s'}, J s → P.accept pid c s = some s' → J s')
    (env : ∀ {σ : P.Sys} {e s}, ok σ (.env e) → J σ.shared → P.env e σ.shared = some s → J s)
    {σ σ' : P.Sys} (hJ : J σ.shared) (hr : Reaches ok σ σ') : J σ'.shared := by
  induction hr with
  | refl => exact hJ
  | tail _ hs ih =>
    obtain ⟨e, hok, hs⟩ := hs
    cases e with
    | call c =>
      obtain ⟨s, ha, rfl⟩ := step_call hs
      exact Prog.settle_inv (compute _) _ _ (accept ih ha)
    | resume pid r =>
      obtain ⟨c, d, k, x, s, hp, hx, rfl⟩ := step_resume hs
      exact Prog.settle_inv (compute _) _ _ (perform hok (pending_of_await hp) ih hx)
    | env e =>
      obtain ⟨s, he, rfl⟩ := step_env hs
      exact env hok ih he
    | kill pid =>
      obtain ⟨p, -, -, rfl⟩ := step_kill hs
      exact ih

/-- Where no call is mortal, every process stays alive. -/
theorem alive_step (hm : ∀ c, P.mortal c = false) {σ σ' : P.Sys} {e : P.Event}
    (h : ∀ p ∈ σ.procs, p.alive = true) (hs : step σ e = some σ') :
    ∀ p ∈ σ'.procs, p.alive = true := by
  intro p hp
  cases e with
  | call c =>
    obtain ⟨s, -, rfl⟩ := step_call hs
    rcases List.mem_append.mp hp with hp | hp
    · exact h p hp
    · rw [List.mem_singleton.mp hp]
      rfl
  | resume pid r =>
    obtain ⟨c, d, k, x, s, -, -, rfl⟩ := step_resume hs
    rcases List.mem_or_eq_of_mem_set hp with hp | rfl
    · exact h p hp
    · rfl
  | env e =>
    obtain ⟨s, -, rfl⟩ := step_env hs
    exact h p hp
  | kill pid =>
    obtain ⟨q, -, hq, -⟩ := step_kill hs
    rw [hm] at hq
    cases hq

/-- Between two steps every process waits for an answer, or is over. -/
theorem parked_step {σ σ' : P.Sys} {e : P.Event} (h : ∀ p ∈ σ.procs, p.prog.Parked)
    (hs : step σ e = some σ') : ∀ p ∈ σ'.procs, p.prog.Parked := by
  intro p hp
  cases e with
  | call c =>
    obtain ⟨s, -, rfl⟩ := step_call hs
    rcases List.mem_append.mp hp with hp | hp
    · exact h p hp
    · rw [List.mem_singleton.mp hp]
      exact Prog.parked_settle H _ _ _
  | resume pid r =>
    obtain ⟨c, d, k, x, s, -, -, rfl⟩ := step_resume hs
    rcases List.mem_or_eq_of_mem_set hp with hp | rfl
    · exact h p hp
    · exact Prog.parked_settle H _ _ _
  | env e =>
    obtain ⟨s, -, rfl⟩ := step_env hs
    exact h p hp
  | kill pid =>
    obtain ⟨q, hq, -, rfl⟩ := step_kill hs
    rcases List.mem_or_eq_of_mem_set hp with hp | rfl
    · exact h p hp
    · exact h q (List.mem_of_getElem? hq)

theorem map_call_launch {procs : List P.Proc} {pid : Nat} {c : P.Call} {s : S} :
    procs.map Proc.call ++ [c] = (procs ++ [(launch pid c s).1]).map Proc.call := by
  rw [List.map_append]
  rfl

theorem exists_proc {procs : List P.Proc} {pid : Nat} {c : P.Call}
    (h : (procs.map Proc.call)[pid]? = some c) :
    ∃ prog alive, procs[pid]? = some ⟨c, prog, alive⟩ := by
  rw [List.getElem?_map] at h
  obtain ⟨⟨c', prog, alive⟩, hp, rfl⟩ := Option.map_eq_some_iff.mp h
  exact ⟨prog, alive, hp⟩

/-- A process keeps the call that it serves. -/
theorem map_call_set {procs : List P.Proc} {pid : Nat} {p q : P.Proc}
    (hp : procs[pid]? = some p) (hq : q.call = p.call) :
    procs.map Proc.call = (procs.set pid q).map Proc.call := by
  obtain ⟨hlt, hget⟩ := List.getElem?_eq_some_iff.mp hp
  have hlt' : pid < (procs.map Proc.call).length := by rw [List.length_map]; exact hlt
  have hcall : (procs.map Proc.call)[pid] = q.call := by rw [List.getElem_map, hget, hq]
  rw [List.map_set, ← hcall, List.set_getElem_self]

/-- A record of the requests beside the state stays that of the processes. -/
theorem map_call_step {f : S → List P.Call}
    (perform : ∀ {pid c r s x s'}, H.perform pid c r s = some (x, s') → f s' = f s)
    (compute : ∀ pid o s, f (H.compute pid o s).2 = f s)
    (accept : ∀ {pid c s s'}, P.accept pid c s = some s' → f s' = f s ++ [c])
    (env : ∀ {e s s'}, P.env e s = some s' → f s' = f s) {σ σ' : P.Sys} {e : P.Event}
    (h : f σ.shared = σ.procs.map Proc.call) (hs : step σ e = some σ') :
    f σ'.shared = σ'.procs.map Proc.call := by
  cases e with
  | call c =>
    obtain ⟨s, ha, rfl⟩ := step_call hs
    refine (Prog.settle_keeps (compute _) _ s).trans ((accept ha).trans ?_)
    rw [h]
    exact map_call_launch
  | resume pid r =>
    obtain ⟨c, d, k, x, s, hget, hperf, rfl⟩ := step_resume hs
    have hcalls := (Prog.settle_keeps (compute pid) (k x) s).trans (perform hperf)
    exact hcalls.trans (h.trans (map_call_set hget rfl))
  | env e =>
    obtain ⟨s, he, rfl⟩ := step_env hs
    exact (env he).trans h
  | kill pid =>
    obtain ⟨p, hget, -, rfl⟩ := step_kill hs
    exact h.trans (map_call_set hget rfl)

/-- A process that does not move is where it was. -/
theorem stays_step {σ σ' : P.Sys} {e : P.Event} (hs : step σ e = some σ') {pid : Nat} {p : P.Proc}
    (hp : σ.procs[pid]? = some p) (hne : σ.mover e ≠ some pid) :
    ∃ alive, σ'.procs[pid]? = some ⟨p.call, p.prog, alive⟩ := by
  cases e with
  | call c =>
    obtain ⟨s, -, rfl⟩ := step_call hs
    exact ⟨p.alive, (List.getElem?_append_left (List.getElem?_eq_some_iff.mp hp).1).trans hp⟩
  | resume pid' r =>
    obtain ⟨c, d, k, x, s, -, -, rfl⟩ := step_resume hs
    exact ⟨p.alive, (List.getElem?_set_ne fun he => hne (congrArg some he)).trans hp⟩
  | env e =>
    obtain ⟨s, -, rfl⟩ := step_env hs
    exact ⟨p.alive, hp⟩
  | kill pid' =>
    obtain ⟨q, hq, -, rfl⟩ := step_kill hs
    by_cases hpid : pid' = pid
    · subst hpid
      obtain rfl := Option.some.inj (hp.symm.trans hq)
      exact ⟨false, List.getElem?_set_self (List.getElem?_eq_some_iff.mp hq).1⟩
    · exact ⟨p.alive, (List.getElem?_set_ne hpid).trans hp⟩

/-- A process that has not moved was where it is, and was alive if it is. -/
theorem stayed_step {σ σ' : P.Sys} {e : P.Event} (hs : step σ e = some σ') {pid : Nat} {p : P.Proc}
    (hp : σ'.procs[pid]? = some p) (hne : σ.mover e ≠ some pid) :
    ∃ alive, σ.procs[pid]? = some ⟨p.call, p.prog, alive⟩ ∧ (p.alive = true → alive = true) := by
  cases e with
  | call c =>
    obtain ⟨s, -, rfl⟩ := step_call hs
    rcases getElem?_concat_cases hp with hp | ⟨rfl, -⟩
    · exact ⟨p.alive, hp, id⟩
    · exact absurd rfl hne
  | resume pid' r =>
    obtain ⟨c, d, k, x, s, -, -, rfl⟩ := step_resume hs
    rw [List.getElem?_set_ne fun he => hne (congrArg some he)] at hp
    exact ⟨p.alive, hp, id⟩
  | env e =>
    obtain ⟨s, -, rfl⟩ := step_env hs
    exact ⟨p.alive, hp, id⟩
  | kill pid' =>
    obtain ⟨q, hq, -, rfl⟩ := step_kill hs
    by_cases hpid : pid' = pid
    · subst hpid
      rw [List.getElem?_set_self (List.getElem?_eq_some_iff.mp hq).1] at hp
      obtain rfl := Option.some.inj hp
      exact ⟨q.alive, hq, fun h => by cases h⟩
    · rw [List.getElem?_set_ne hpid] at hp
      exact ⟨p.alive, hp, id⟩

/-- A process that does not move awaits what it has awaited. -/
theorem pending_step {σ σ' : P.Sys} {e : P.Event} (hs : step σ e = some σ') {pid : Nat} {d : A.Cmd}
    (hp : σ'.pending pid = some d) (hne : σ.mover e ≠ some pid) : σ.pending pid = some d := by
  obtain ⟨c, k, hk⟩ := await_of_pending hp
  obtain ⟨alive, hk', halive⟩ := stayed_step hs hk hne
  obtain rfl := halive rfl
  exact pending_of_await hk'

end Service

end FullstackSvc.Async
