import FullstackSvc.Async.Extends
import FullstackSvc.Async.Pool

/-!
# Rely-guarantee reasoning for pools of programs

What one process may assume of the others and must keep for them is a `Ctx`:
an invariant `inv` of the shared state, a relation `rely` that the others' steps
stay in, a relation `guar` that its own steps stay in, what it `need`s whenever
one of its commands is performed, and a condition `ok` on its own steps when
only some schedules are looked at.

`p.wp H pid L Q s₀ s` says that the program `p`, standing at state `s` within a
step that began at `s₀`, keeps `guar` at every step it completes and ends only
with a result `x` that satisfies `Q x s₀ s'`.  It goes through a program one
await at a time: at an await the others may first move the state anywhere in
`rely`.  `wp_bind`, `wp_handle`, `wp_call` and `wp_op` take it apart along the
program text.

An `Outline` gives a context to every call of a service, and `Outline.Valid`
lists what has to be checked once: that what one process guarantees is what the
others rely on.  `Outline.holds_of_reaches` is the run rule: the invariant
holds, and every process meets its `wp`, in every state a run reaches.
`Outline.change_of_reaches` is the one for two states of a run.
-/

namespace FullstackSvc.Async

variable {A : Sig} {E S Reply : Type} {α β : Type}

/-- What a process assumes of the others and keeps for them. -/
structure Ctx (A : Sig) (S Reply : Type) where
  inv : S → Prop
  rely : S → S → Prop
  guar : S → S → Prop
  need : A.Cmd → S → Prop
  ok : A.Cmd → Reply → S → Prop

namespace Prog

/-- The program keeps `guar` and ends only in `Q`, whatever `rely` does at its
awaits. -/
def wp (H : Host A E S Reply) (pid : Nat) (L : Ctx A S Reply) :
    Prog A E α → (Except E α → S → S → Prop) → S → S → Prop
  | .ret a, Q, s₀, s => Q (.ok a) s₀ s
  | .fail e, Q, s₀, s => Q (.error e) s₀ s
  | .await c k, Q, s₀, s =>
    L.guar s₀ s ∧ ∀ s₁, L.rely s s₁ → L.inv s₁ → L.need c s₁ ∧ ∀ r, L.ok c r s₁ → ∀ x s₂,
      H.perform pid c r s₁ = some (x, s₂) → (k x).wp H pid L Q s₁ s₂
  | .sync o k, Q, s₀, s =>
    (k (H.compute pid o s).1).wp H pid L Q s₀ (H.compute pid o s).2

variable {H : Host A E S Reply} {pid : Nat} {L : Ctx A S Reply}

@[simp] theorem wp_ret (a : α) (Q : Except E α → S → S → Prop) (s₀ s : S) :
    (Prog.ret a).wp H pid L Q s₀ s ↔ Q (.ok a) s₀ s := Iff.rfl

@[simp] theorem wp_fail (e : E) (Q : Except E α → S → S → Prop) (s₀ s : S) :
    (Prog.fail e).wp H pid L Q s₀ s ↔ Q (.error e) s₀ s := Iff.rfl

/-- A weaker goal is met too. -/
theorem wp_mono {Q Q' : Except E α → S → S → Prop} (h : ∀ x s₀ s, Q x s₀ s → Q' x s₀ s) :
    ∀ (p : Prog A E α) (s₀ s : S), p.wp H pid L Q s₀ s → p.wp H pid L Q' s₀ s := by
  intro p
  induction p with
  | ret a => exact fun s₀ s => h _ s₀ s
  | fail e => exact fun s₀ s => h _ s₀ s
  | await c k ih =>
    intro s₀ s hp
    refine ⟨hp.1, fun s₁ hr hi => ⟨(hp.2 s₁ hr hi).1, fun r ho x s₂ hx => ?_⟩⟩
    exact ih x s₁ s₂ ((hp.2 s₁ hr hi).2 r ho x s₂ hx)
  | sync o k ih => exact fun s₀ s => ih _ s₀ _

theorem wp_bind (p : Prog A E α) (f : α → Prog A E β) (Q : Except E β → S → S → Prop) :
    ∀ s₀ s, (p.bind f).wp H pid L Q s₀ s ↔
      p.wp H pid L (fun x s₀ s => match x with
        | .ok a => (f a).wp H pid L Q s₀ s
        | .error e => Q (.error e) s₀ s) s₀ s := by
  induction p with
  | ret a => exact fun _ _ => Iff.rfl
  | fail e => exact fun _ _ => Iff.rfl
  | await c k ih =>
    intro s₀ s
    simp only [bind, wp, ih]
  | sync o k ih =>
    intro s₀ s
    simp only [bind, wp, ih]

theorem wp_handle (p : Prog A E α) (h : E → Prog A E α) (Q : Except E α → S → S → Prop) :
    ∀ s₀ s, (p.handle h).wp H pid L Q s₀ s ↔
      p.wp H pid L (fun x s₀ s => match x with
        | .ok a => Q (.ok a) s₀ s
        | .error e => (h e).wp H pid L Q s₀ s) s₀ s := by
  induction p with
  | ret a => exact fun _ _ => Iff.rfl
  | fail e => exact fun _ _ => Iff.rfl
  | await c k ih =>
    intro s₀ s
    simp only [handle, wp, ih]
  | sync o k ih =>
    intro s₀ s
    simp only [handle, wp, ih]

/-- One awaited command: the step before it is complete, and whatever the
others did, its answer meets the goal. -/
theorem wp_call (c : A.Cmd) (Q : Except E (A.Res c) → S → S → Prop) (s₀ s : S) :
    (call c).wp H pid L Q s₀ s ↔
      L.guar s₀ s ∧ ∀ s₁, L.rely s s₁ → L.inv s₁ → L.need c s₁ ∧ ∀ r, L.ok c r s₁ → ∀ x s₂,
        H.perform pid c r s₁ = some (x, s₂) → Q x s₁ s₂ := by
  constructor
  · rintro ⟨hg, h⟩
    refine ⟨hg, fun s₁ hr hi => ⟨(h s₁ hr hi).1, fun r ho x s₂ hx => ?_⟩⟩
    have hk := (h s₁ hr hi).2 r ho x s₂ hx
    cases x with
    | ok a => exact hk
    | error e => exact hk
  · rintro ⟨hg, h⟩
    refine ⟨hg, fun s₁ hr hi => ⟨(h s₁ hr hi).1, fun r ho x s₂ hx => ?_⟩⟩
    have hk := (h s₁ hr hi).2 r ho x s₂ hx
    cases x with
    | ok a => exact hk
    | error e => exact hk

theorem wp_op (o : A.Op) (Q : Except E (A.Val o) → S → S → Prop) (s₀ s : S) :
    (op o).wp H pid L Q s₀ s ↔ Q (.ok (H.compute pid o s).1) s₀ (H.compute pid o s).2 := Iff.rfl

theorem wp_settle {Q : Except E α → S → S → Prop} :
    ∀ (p : Prog A E α) (s₀ s : S), p.wp H pid L Q s₀ s →
      (p.settle H pid s).1.wp H pid L Q s₀ (p.settle H pid s).2 := by
  intro p
  induction p with
  | ret a => exact fun _ _ h => h
  | fail e => exact fun _ _ h => h
  | await c k _ => exact fun _ _ h => h
  | sync o k ih => exact fun s₀ s h => ih _ s₀ _ h

end Prog

/-! ## Outlines of services -/

variable {H : Host A E S Reply} {P : Service H}

/-- A context for every call of a service, with what each call has achieved
once it is over, under a condition `ok` on the schedule. -/
structure Outline (P : Service H) where
  ok : P.Sys → P.Event → Prop
  cmdOk : Nat → A.Cmd → Reply → S → Prop
  inv : S → Prop
  rely : Nat → P.Call → S → S → Prop
  guar : Nat → P.Call → S → S → Prop
  need : Nat → P.Call → A.Cmd → S → Prop
  /-- What may become of the state over a whole run. -/
  change : S → S → Prop
  done : Nat → (c : P.Call) → Except E (P.Ret c) → S → Prop

namespace Outline

/-- The context of process `pid` serving `c`. -/
def ctx (O : Outline P) (pid : Nat) (c : P.Call) : Ctx A S Reply where
  inv := O.inv
  rely := O.rely pid c
  guar := O.guar pid c
  need := O.need pid c
  ok := O.cmdOk pid

/-- What a call has to reach: its last step is in its guarantee, and it has
achieved its result. -/
def goal (O : Outline P) (pid : Nat) (c : P.Call) (x : Except E (P.Ret c)) (s₀ s : S) : Prop :=
  O.guar pid c s₀ s ∧ O.done pid c x s

/-- What is known of a process between two steps. -/
def ProcOk (O : Outline P) (pid : Nat) (p : P.Proc) (s : S) : Prop :=
  match p.prog with
  | .ret a => O.done pid p.call (.ok a) s
  | .fail e => O.done pid p.call (.error e) s
  | .await d k => p.alive = true → ∀ s₁, O.rely pid p.call s s₁ → O.inv s₁ →
      O.need pid p.call d s₁ ∧
      ∀ r, O.cmdOk pid d r s₁ → ∀ x s₂, H.perform pid d r s₁ = some (x, s₂) →
        (k x).wp H pid (O.ctx pid p.call) (O.goal pid p.call) s₁ s₂
  | .sync _ _ => False

/-- The invariant holds and every process is where its outline says. -/
def Holds (O : Outline P) (σ : P.Sys) : Prop :=
  O.inv σ.shared ∧ ∀ pid p, σ.procs[pid]? = some p → O.ProcOk pid p σ.shared

/-- What a step does to the processes that do not take it. -/
def Undisturbed (O : Outline P) (procs : List P.Proc) (s s' : S) : Prop :=
  ∀ pid p, procs[pid]? = some p →
    (p.Live → O.rely pid p.call s s') ∧ ∀ x, O.done pid p.call x s → O.done pid p.call x s'

/-- The outline is coherent: the calls keep their contexts, and what one
process guarantees is what the others rely on. -/
structure Valid (O : Outline P) : Prop where
  rely_refl : ∀ {pid c s}, O.rely pid c s s
  rely_trans : ∀ {pid c s s' s''}, O.rely pid c s s' → O.rely pid c s' s'' → O.rely pid c s s''
  cmdOk_of_ok : ∀ {σ : P.Sys} {pid r c d k}, O.ok σ (.resume pid r) →
    σ.procs[pid]? = some ⟨c, .await d k, true⟩ → O.cmdOk pid d r σ.shared
  guar_inv : ∀ {pid c s s'}, O.inv s → O.guar pid c s s' → O.inv s'
  guar_rely : ∀ {pid pid' c c' s s'}, pid ≠ pid' → O.inv s → O.guar pid c s s' →
    O.rely pid' c' s s'
  change_refl : ∀ {s}, O.change s s
  change_trans : ∀ {s s' s''}, O.change s s' → O.change s' s'' → O.change s s''
  guar_change : ∀ {pid c s s'}, O.inv s → O.guar pid c s s' → O.change s s'
  guar_done : ∀ {pid pid' c c' s s' x}, pid ≠ pid' → O.inv s → O.guar pid c s s' →
    O.done pid' c' x s → O.done pid' c' x s'
  accept : ∀ {σ : P.Sys} {c s}, O.Holds σ → O.ok σ (.call c) →
    P.accept σ.procs.length c σ.shared = some s →
      O.inv s ∧ O.change σ.shared s ∧ O.Undisturbed σ.procs σ.shared s ∧
        (P.body c).wp H σ.procs.length (O.ctx σ.procs.length c) (O.goal σ.procs.length c) s s
  env : ∀ {σ : P.Sys} {e s}, O.Holds σ → O.ok σ (.env e) → P.env e σ.shared = some s →
    O.inv s ∧ O.change σ.shared s ∧ O.Undisturbed σ.procs σ.shared s

variable {O : Outline P}

theorem procOk_of_wp {pid : Nat} {c : P.Call} {q : Prog A E (P.Ret c)} {s₀ s : S}
    (h : q.wp H pid (O.ctx pid c) (O.goal pid c) s₀ s) (hq : q.Parked) :
    O.ProcOk pid ⟨c, q, true⟩ s ∧ O.guar pid c s₀ s := by
  cases q with
  | ret a => exact ⟨h.2, h.1⟩
  | fail e => exact ⟨h.2, h.1⟩
  | await d k => exact ⟨fun _ => h.2, h.1⟩
  | sync o k => exact hq.elim

/-- A process that does not move keeps what is known of it. -/
theorem procOk_mono (V : O.Valid) {pid : Nat} {p : P.Proc} {s s' : S}
    (h : O.ProcOk pid p s) (hr : p.Live → O.rely pid p.call s s')
    (hd : ∀ x, O.done pid p.call x s → O.done pid p.call x s') : O.ProcOk pid p s' := by
  obtain ⟨c, q, alive⟩ := p
  cases q with
  | ret a => exact hd _ h
  | fail e => exact hd _ h
  | await d k =>
    intro ha s₁ hr₁
    exact h ha s₁ (V.rely_trans (hr ⟨ha, trivial⟩) hr₁)
  | sync o k => exact h

/-- The call that an event moves stays in its guarantee, from its arrival on. -/
def Moves (O : Outline P) (σ : P.Sys) (e : P.Event) (s' : S) : Prop :=
  match e with
  | .call c => ∃ s, P.accept σ.procs.length c σ.shared = some s ∧ O.guar σ.procs.length c s s'
  | .resume pid _ => ∃ p, σ.procs[pid]? = some p ∧ O.guar pid p.call σ.shared s'
  | _ => True

/-- **Step rule.**  A step of a coherent outline keeps everything it says, and
the process that moves stays in its guarantee. -/
theorem holds_step (V : O.Valid) {σ σ' : P.Sys} {e : P.Event} (h : O.Holds σ)
    (hok : O.ok σ e) (hs : Service.step σ e = some σ') :
    O.Holds σ' ∧ O.change σ.shared σ'.shared ∧ O.Moves σ e σ'.shared := by
  cases e with
  | call c =>
    obtain ⟨s, ha, rfl⟩ := Service.step_call hs
    obtain ⟨hi, hc, hu, hw⟩ := V.accept h hok ha
    have hw' := Prog.wp_settle _ _ _ hw
    obtain ⟨hp, hg⟩ := procOk_of_wp hw' (Prog.parked_settle H _ _ _)
    refine ⟨⟨V.guar_inv hi hg, fun pid p hget => ?_⟩,
      V.change_trans hc (V.guar_change hi hg), s, ha, hg⟩
    rcases getElem?_concat_cases hget with hold | ⟨rfl, rfl⟩
    · have hne : σ.procs.length ≠ pid := by
        have := (List.getElem?_eq_some_iff.mp hold).1
        omega
      refine procOk_mono V (h.2 pid p hold) (fun hl => ?_) (fun x hx => ?_)
      · exact V.rely_trans ((hu pid p hold).1 hl) (V.guar_rely hne hi hg)
      · exact V.guar_done hne hi hg ((hu pid p hold).2 x hx)
    · exact hp
  | resume pid r =>
    obtain ⟨c, d, k, x, s, hget, hperf, rfl⟩ := Service.step_resume hs
    have hw := (h.2 pid _ hget rfl σ.shared V.rely_refl h.1).2 r (V.cmdOk_of_ok hok hget) x s hperf
    have hw' := Prog.wp_settle _ _ _ hw
    obtain ⟨hp, hg⟩ := procOk_of_wp hw' (Prog.parked_settle H _ _ _)
    refine ⟨⟨V.guar_inv h.1 hg, fun pid' p hget' => ?_⟩, V.guar_change h.1 hg,
      _, hget, hg⟩
    · by_cases hpid : pid = pid'
      · subst hpid
        have hlt := (List.getElem?_eq_some_iff.mp hget).1
        rw [List.getElem?_set_self hlt] at hget'
        exact Option.some.inj hget' ▸ hp
      · rw [List.getElem?_set_ne hpid] at hget'
        exact procOk_mono V (h.2 pid' p hget') (fun _ => V.guar_rely hpid h.1 hg)
          (fun x => V.guar_done hpid h.1 hg)
  | env e =>
    obtain ⟨s, he, rfl⟩ := Service.step_env hs
    obtain ⟨hi, hc, hu⟩ := V.env h hok he
    refine ⟨⟨hi, fun pid p hget => ?_⟩, hc, trivial⟩
    exact procOk_mono V (h.2 pid p hget) (hu pid p hget).1 (hu pid p hget).2
  | kill pid =>
    obtain ⟨p, hget, _, rfl⟩ := Service.step_kill hs
    refine ⟨⟨h.1, fun pid' p' hget' => ?_⟩, V.change_refl, trivial⟩
    by_cases hpid : pid = pid'
    · subst hpid
      have hlt := (List.getElem?_eq_some_iff.mp hget).1
      rw [List.getElem?_set_self hlt] at hget'
      have hp := h.2 pid p hget
      obtain rfl := Option.some.inj hget'
      obtain ⟨c, q, alive⟩ := p
      cases q with
      | ret a => exact hp
      | fail e => exact hp
      | await d k => exact fun ha => by cases ha
      | sync o k => exact hp
    · rw [List.getElem?_set_ne hpid] at hget'
      exact h.2 pid' p' hget'

/-- **Run rule.**  What a coherent outline says of the first state it says of
every state a run reaches. -/
theorem holds_of_reaches (V : O.Valid) {σ σ' : P.Sys} (h : O.Holds σ)
    (hr : Service.Reaches O.ok σ σ') : O.Holds σ' := by
  induction hr with
  | refl => exact h
  | tail _ hs ih =>
    obtain ⟨e, hok, hs⟩ := hs
    exact (holds_step V ih hok hs).1

/-- **Run rule for two states.** -/
theorem change_of_reaches (V : O.Valid) {σ σ' : P.Sys} (h : O.Holds σ)
    (hr : Service.Reaches O.ok σ σ') : O.change σ.shared σ'.shared := by
  induction hr with
  | refl => exact V.change_refl
  | tail hr hs ih =>
    obtain ⟨e, hok, hs⟩ := hs
    exact V.change_trans ih (holds_step V (holds_of_reaches V h hr) hok hs).2.1

/-- **Invariant rule.**  What every step keeps of the systems that are where the
outline says. -/
theorem inv_of_reaches (V : O.Valid) {J : P.Sys → Prop}
    (keep : ∀ {σ e σ'}, O.Holds σ → O.Holds σ' → J σ → O.ok σ e → Service.step σ e = some σ' →
      O.change σ.shared σ'.shared → O.Moves σ e σ'.shared → J σ')
    {σ σ' : P.Sys} (h : O.Holds σ) (hJ : J σ)
    (hr : Service.Reaches O.ok σ σ') : J σ' := by
  induction hr with
  | refl => exact hJ
  | tail hr hs ih =>
    obtain ⟨e, hok, hs⟩ := hs
    have hb := holds_of_reaches V h hr
    obtain ⟨hc, hch, hm⟩ := holds_step V hb hok hs
    exact keep hb hc ih hok hs hch hm

/-- A system with no process yet. -/
theorem holds_of_inv {s : S} (h : O.inv s) : O.Holds ⟨s, []⟩ :=
  ⟨h, fun pid p hp => by simp at hp⟩

/-- What a call that has returned or thrown has achieved. -/
theorem Holds.done_of_ret {σ : P.Sys} (h : O.Holds σ) {pid : Nat} {c : P.Call} {a : P.Ret c}
    {alive : Bool} (hp : σ.procs[pid]? = some ⟨c, .ret a, alive⟩) : O.done pid c (.ok a) σ.shared :=
  h.2 pid _ hp

theorem Holds.done_of_fail {σ : P.Sys} (h : O.Holds σ) {pid : Nat} {c : P.Call} {e : E}
    {alive : Bool} (hp : σ.procs[pid]? = some ⟨c, .fail e, alive⟩) :
    O.done pid c (.error e) σ.shared :=
  h.2 pid _ hp

/-- What a process needs for the command it awaits is there. -/
theorem Holds.need (V : O.Valid) {σ : P.Sys} (h : O.Holds σ) {pid : Nat} {c : P.Call}
    {d : A.Cmd} {k : Except E (A.Res d) → Prog A E (P.Ret c)}
    (hp : σ.procs[pid]? = some ⟨c, .await d k, true⟩) : O.need pid c d σ.shared :=
  (h.2 pid _ hp rfl σ.shared V.rely_refl h.1).1

end Outline

end FullstackSvc.Async
