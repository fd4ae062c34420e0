import FullstackSvc.Async.Pool

/-!
# What a process may do next, by what it has done

A `Typestate` gives every process a state of its own, its *view*: which commands the
process may await in it, and what it becomes with their answers and with the values of
the operations.  The view is not a part of the system; it is what can be told of a
process from its own steps, whatever the others do.

* `Prog.Obeys`: a program awaits only what its view allows.  `Typestate.Does` is the triple
  for it, with one rule for each construct of the text.
* `Typestate.Kept`: the shared state and the views of all processes fit together.
* `abides_of_reaches` is the run rule: **in every state that a run reaches there are views
  that fit it**, and what is left of every process obeys its own.
* `abides_step` says of one step that only the process that moves gets another view.
-/

namespace FullstackSvc.Async

variable {A : Sig} {E S Reply V : Type} {α β : Type}

structure Typestate (A : Sig) (E V : Type) where
  allows : V → A.Cmd → Prop
  answered : V → (c : A.Cmd) → Except E (A.Res c) → V
  computed : V → (o : A.Op) → A.Val o → V

namespace Prog

/-- The program awaits only what its view allows, and ends only in `Q`. -/
def Obeys (T : Typestate A E V) : Prog A E α → (Except E α → V → Prop) → V → Prop
  | .ret a, Q, v => Q (.ok a) v
  | .fail e, Q, v => Q (.error e) v
  | .await c k, Q, v => T.allows v c ∧ ∀ x, (k x).Obeys T Q (T.answered v c x)
  | .sync o k, Q, v => ∀ y, (k y).Obeys T Q (T.computed v o y)

variable {T : Typestate A E V}

theorem Obeys.mono {Q Q' : Except E α → V → Prop} (hq : ∀ x v, Q x v → Q' x v) :
    ∀ {p : Prog A E α} {v : V}, p.Obeys T Q v → p.Obeys T Q' v := by
  intro p
  induction p with
  | ret a => exact fun h => hq _ _ h
  | fail e => exact fun h => hq _ _ h
  | await c k ih => exact fun h => ⟨h.1, fun x => ih x (h.2 x)⟩
  | sync o k ih => exact fun h y => ih y (h y)

theorem obeys_bind {p : Prog A E α} {f : α → Prog A E β} {Q : Except E β → V → Prop} :
    ∀ {v : V}, p.Obeys T (fun x v => match x with
        | .ok a => (f a).Obeys T Q v
        | .error e => Q (.error e) v) v → (p.bind f).Obeys T Q v := by
  induction p with
  | ret a => exact fun h => h
  | fail e => exact fun h => h
  | await c k ih => exact fun h => ⟨h.1, fun x => ih x (h.2 x)⟩
  | sync o k ih => exact fun h y => ih y (h y)

theorem obeys_handle {p : Prog A E α} {h : E → Prog A E α} {Q : Except E α → V → Prop} :
    ∀ {v : V}, p.Obeys T (fun x v => match x with
        | .ok a => Q (.ok a) v
        | .error e => (h e).Obeys T Q v) v → (p.handle h).Obeys T Q v := by
  induction p with
  | ret a => exact fun h => h
  | fail e => exact fun h => h
  | await c k ih => exact fun h => ⟨h.1, fun x => ih x (h.2 x)⟩
  | sync o k ih => exact fun h y => ih y (h y)

end Prog

namespace Typestate

variable {T : Typestate A E V}

/-! ### Triples -/

/-- From a view in `pre` the program does only what its view allows, and leaves a view in
`ok` when it returns and in `err` when it throws. -/
def Does (T : Typestate A E V) (pre : V → Prop) (p : Prog A E α) (ok : α → V → Prop)
    (err : E → V → Prop) : Prop :=
  ∀ v, pre v → p.Obeys T (fun x v => match x with
    | .ok a => ok a v
    | .error e => err e v) v

variable {pre : V → Prop} {ok : α → V → Prop} {err : E → V → Prop}

theorem Does.ret {a : α} (h : ∀ v, pre v → ok a v) : T.Does pre (.ret a) ok err := h

theorem Does.fail {e : E} (h : ∀ v, pre v → err e v) : T.Does pre (.fail e : Prog A E α) ok err := h

theorem Does.mono {pre' : V → Prop} {ok' : α → V → Prop} {err' : E → V → Prop} {p : Prog A E α}
    (h : T.Does pre p ok err) (hpre : ∀ v, pre' v → pre v) (hok : ∀ a v, ok a v → ok' a v)
    (herr : ∀ e v, err e v → err' e v) : T.Does pre' p ok' err' := by
  intro v hv
  refine (h v (hpre v hv)).mono fun x v hx => ?_
  cases x with
  | ok a => exact hok a v hx
  | error e => exact herr e v hx

theorem Does.bind (mid : α → V → Prop) {p : Prog A E α} {f : α → Prog A E β} {ok : β → V → Prop}
    (hp : T.Does pre p mid err) (hf : ∀ a, T.Does (mid a) (f a) ok err) :
    T.Does pre (p.bind f) ok err := by
  intro v hv
  refine Prog.obeys_bind ((hp v hv).mono fun x v hx => ?_)
  cases x with
  | ok a => exact hf a v hx
  | error e => exact hx

theorem Does.handle (mid : E → V → Prop) {p : Prog A E α} {h : E → Prog A E α}
    (hp : T.Does pre p ok mid) (hh : ∀ e, T.Does (mid e) (h e) ok err) :
    T.Does pre (p.handle h) ok err := by
  intro v hv
  refine Prog.obeys_handle ((hp v hv).mono fun x v hx => ?_)
  cases x with
  | ok a => exact hx
  | error e => exact hh e v hx

theorem Does.call {c : A.Cmd} {ok : A.Res c → V → Prop} (hallows : ∀ v, pre v → T.allows v c)
    (hok : ∀ v a, pre v → ok a (T.answered v c (.ok a)))
    (herr : ∀ v e, pre v → err e (T.answered v c (.error e))) :
    T.Does pre (Prog.call c) ok err := by
  intro v hv
  refine ⟨hallows v hv, fun x => ?_⟩
  cases x with
  | ok a => exact hok v a hv
  | error e => exact herr v e hv

theorem Does.op {o : A.Op} {ok : A.Val o → V → Prop} (h : ∀ v y, pre v → ok y (T.computed v o y)) :
    T.Does pre (Prog.op o) ok err := fun v hv y => h v y hv

/-! ### Systems -/

variable {H : Host A E S Reply} {P : Service H}

/-- The shared state and the views stay together, and every call begins in a view from
which its program obeys. -/
structure Kept (T : Typestate A E V) (P : Service H) (admitted : P.Sys → P.Event → Prop)
    (J : S → (Nat → V) → Prop) (begins : P.Call → V → Prop)
    (ends : (c : P.Call) → Except E (P.Ret c) → V → Prop) : Prop where
  perform : ∀ {σ : P.Sys} {pid r c x s views}, admitted σ (.resume pid r) → J σ.shared views →
    T.allows (views pid) c → H.perform pid c r σ.shared = some (x, s) →
    J s (Function.update views pid (T.answered (views pid) c x))
  compute : ∀ {pid o s views}, J s views → J (H.compute pid o s).2
    (Function.update views pid (T.computed (views pid) o (H.compute pid o s).1))
  accept : ∀ {σ : P.Sys} {c s views}, admitted σ (.call c) → J σ.shared views →
    P.accept σ.procs.length c σ.shared = some s →
    ∃ v, begins c v ∧ J s (Function.update views σ.procs.length v)
  env : ∀ {σ : P.Sys} {e s views}, admitted σ (.env e) → J σ.shared views →
    P.env e σ.shared = some s → J s views
  obeys : ∀ c v, begins c v → (P.body c).Obeys T (ends c) v

/-- The views fit the shared state, and what is left of every process obeys its own. -/
structure Abides (T : Typestate A E V) (J : S → (Nat → V) → Prop)
    (ends : (c : P.Call) → Except E (P.Ret c) → V → Prop) (σ : P.Sys) (views : Nat → V) : Prop where
  shared : J σ.shared views
  procs : ∀ (pid : Nat) (p : P.Proc), σ.procs[pid]? = some p →
    p.prog.Obeys T (ends p.call) (views pid)

variable {admitted : P.Sys → P.Event → Prop} {J : S → (Nat → V) → Prop} {begins : P.Call → V → Prop}
  {ends : (c : P.Call) → Except E (P.Ret c) → V → Prop} {σ σ' : P.Sys} {views : Nat → V}

/-- The operations up to the next await. -/
theorem obeys_settle (K : T.Kept P admitted J begins ends) {pid : Nat}
    {Q : Except E α → V → Prop} :
    ∀ (p : Prog A E α) {s : S} {views : Nat → V}, J s views → p.Obeys T Q (views pid) →
      ∃ v, J (p.settle H pid s).2 (Function.update views pid v) ∧
        (p.settle H pid s).1.Obeys T Q v := by
  intro p
  induction p with
  | ret a => exact fun {s views} hJ hp => ⟨views pid, by rwa [Function.update_eq_self], hp⟩
  | fail e => exact fun {s views} hJ hp => ⟨views pid, by rwa [Function.update_eq_self], hp⟩
  | await c k _ => exact fun {s views} hJ hp => ⟨views pid, by rwa [Function.update_eq_self], hp⟩
  | sync o k ih =>
    intro s views hJ hp
    have hk := hp (H.compute pid o s).1
    rw [← Function.update_self (f := views) pid
      (T.computed (views pid) o (H.compute pid o s).1)] at hk
    obtain ⟨v, hv, hobeys⟩ := ih _ (K.compute hJ) hk
    rw [Function.update_idem] at hv
    exact ⟨v, hv, hobeys⟩

/-- What a process awaits is what its view allows. -/
theorem Abides.allowed (h : T.Abides J ends σ views) {pid : Nat} {c : A.Cmd}
    (hp : σ.pending pid = some c) : T.allows (views pid) c := by
  obtain ⟨d, k, hk⟩ := Service.await_of_pending hp
  exact (h.procs pid _ hk).1

/-- A process that has returned. -/
theorem Abides.returned (h : T.Abides J ends σ views) {pid : Nat} {c : P.Call} {a : P.Ret c}
    {alive : Bool} (hp : σ.procs[pid]? = some ⟨c, .ret a, alive⟩) : ends c (.ok a) (views pid) :=
  h.procs pid _ hp

/-- A process that has thrown. -/
theorem Abides.thrown (h : T.Abides J ends σ views) {pid : Nat} {c : P.Call} {e : E}
    {alive : Bool} (hp : σ.procs[pid]? = some ⟨c, .fail e, alive⟩) : ends c (.error e) (views pid) :=
  h.procs pid _ hp

theorem abides_start {s : S} (h : J s views) : T.Abides (P := P) J ends ⟨s, []⟩ views :=
  ⟨h, fun pid p hp => by simp at hp⟩

/-- **Step rule.**  Only the process that moves gets another view. -/
theorem abides_step (K : T.Kept P admitted J begins ends) {e : P.Event}
    (h : T.Abides J ends σ views) (hok : admitted σ e) (hs : Service.step σ e = some σ') :
    ∃ views', T.Abides J ends σ' views' ∧ ∀ pid, σ.mover e ≠ some pid → views' pid = views pid := by
  cases e with
  | call c =>
    obtain ⟨s, ha, rfl⟩ := Service.step_call hs
    obtain ⟨v, hbegins, hJ⟩ := K.accept hok h.shared ha
    have hbody := K.obeys c v hbegins
    rw [← Function.update_self (f := views) σ.procs.length v] at hbody
    obtain ⟨v', hv', hobeys⟩ := obeys_settle K _ hJ hbody
    rw [Function.update_idem] at hv'
    refine ⟨_, ⟨hv', fun pid p hp => ?_⟩, fun pid hne => ?_⟩
    · rcases getElem?_concat_cases hp with hold | ⟨rfl, rfl⟩
      · have hlt := (List.getElem?_eq_some_iff.mp hold).1
        rw [Function.update_of_ne (by omega)]
        exact h.procs pid p hold
      · rw [Function.update_self]
        exact hobeys
    · exact Function.update_of_ne (fun he => hne (congrArg some he.symm)) ..
  | resume pid r =>
    obtain ⟨c, d, k, x, s, hget, hperf, rfl⟩ := Service.step_resume hs
    have hprog := h.procs pid _ hget
    have hJ := K.perform hok h.shared hprog.1 hperf
    have hk := hprog.2 x
    rw [← Function.update_self (f := views) pid (T.answered (views pid) d x)] at hk
    obtain ⟨v', hv', hobeys⟩ := obeys_settle K _ hJ hk
    rw [Function.update_idem] at hv'
    refine ⟨_, ⟨hv', fun pid' p hp => ?_⟩, fun pid' hne => ?_⟩
    · by_cases hpid : pid = pid'
      · subst hpid
        rw [List.getElem?_set_self (List.getElem?_eq_some_iff.mp hget).1] at hp
        obtain rfl := Option.some.inj hp
        rw [Function.update_self]
        exact hobeys
      · rw [List.getElem?_set_ne hpid] at hp
        rw [Function.update_of_ne (Ne.symm hpid)]
        exact h.procs pid' p hp
    · exact Function.update_of_ne (fun he => hne (congrArg some he.symm)) ..
  | env e =>
    obtain ⟨s, he, rfl⟩ := Service.step_env hs
    exact ⟨views, ⟨K.env hok h.shared he, h.procs⟩, fun _ _ => rfl⟩
  | kill pid =>
    obtain ⟨q, hq, -, rfl⟩ := Service.step_kill hs
    refine ⟨views, ⟨h.shared, fun pid' p hp => ?_⟩, fun _ _ => rfl⟩
    by_cases hpid : pid = pid'
    · subst hpid
      rw [List.getElem?_set_self (List.getElem?_eq_some_iff.mp hq).1] at hp
      obtain rfl := Option.some.inj hp
      exact h.procs pid q hq
    · rw [List.getElem?_set_ne hpid] at hp
      exact h.procs pid' p hp

/-- **Run rule.** -/
theorem abides_of_reaches (K : T.Kept P admitted J begins ends) (h : T.Abides J ends σ views)
    (hr : Service.Reaches admitted σ σ') : ∃ views', T.Abides J ends σ' views' := by
  induction hr with
  | refl => exact ⟨views, h⟩
  | tail _ hs ih =>
    obtain ⟨e, hok, hs⟩ := hs
    obtain ⟨views', h'⟩ := ih
    obtain ⟨views'', h'', -⟩ := abides_step K h' hok hs
    exact ⟨views'', h''⟩

end Typestate

end FullstackSvc.Async
