import Mathlib.Data.List.ReduceOption
import FullstackSvc.Async.Local

/-!
# Calls that come one at a time

The processes of a service that serve calls of one kind, where a call of the kind comes
only when the ones before it are over.  Then the calls that have been `served` are a sequence,
and what is known of the state may speak of all of them: `Rounds` asks that a call brings it
from the calls before it to the calls with itself.

* `Round.step`: what is known between two calls, or during one, is kept by every step.
* `known_of_reaches`: **when no call of the kind runs, what is known of the calls so far
  holds**.
-/

namespace FullstackSvc.Async

variable {A : Sig} {E S Reply α : Type} {H : Host A E S Reply} {P : Service H}

/-! ### What has been served -/

/-- What a program has ended in. -/
def Prog.result? : Prog A E α → Option (Except E α)
  | .ret a => some (.ok a)
  | .fail e => some (.error e)
  | .await _ _ => none
  | .sync _ _ => none

theorem Prog.result?_ended (x : Except E α) : (Prog.ended x : Prog A E α).result? = some x := by
  cases x with
  | ok a => rfl
  | error e => rfl

/-- A call that is over, with what it has ended in. -/
structure Served (P : Service H) where
  call : P.Call
  result : Except E (P.Ret call)

/-- What a process has ended in, if it serves a call of the kind. -/
def Service.Proc.served? (kind : P.Call → Bool) (p : P.Proc) : Option (Served P) :=
  if kind p.call then p.prog.result?.map fun x => ⟨p.call, x⟩ else none

/-- The calls of the kind that are over, in the order in which they came. -/
def served (kind : P.Call → Bool) (procs : List P.Proc) : List (Served P) :=
  (procs.map (Service.Proc.served? kind)).reduceOption

/-- No call of the kind runs. -/
def NoneRuns (kind : P.Call → Bool) (procs : List P.Proc) : Prop :=
  ∀ p ∈ procs, kind p.call = true → ¬ p.prog.Running

variable {kind : P.Call → Bool} {σ σ' : P.Sys} {e : P.Event} {pid : Nat} {c : P.Call}

instance (procs : List P.Proc) : Decidable (NoneRuns kind procs) :=
  inferInstanceAs (Decidable (∀ p ∈ procs, _ → _))

/-- A call of the kind comes when no other one runs. -/
def OneAtATime (kind : P.Call → Bool) (σ : P.Sys) : P.Event → Prop
  | .call c => kind c = true → NoneRuns kind σ.procs
  | _ => True

instance : Decidable (OneAtATime kind σ e) :=
  match e with
  | .call c => inferInstanceAs (Decidable (kind c = true → NoneRuns kind σ.procs))
  | .resume _ _ => isTrue trivial
  | .env _ => isTrue trivial
  | .kill _ => isTrue trivial

theorem served?_of_not_kind {p : P.Proc} (h : kind p.call = false) : p.served? kind = none := by
  rw [Service.Proc.served?, h]
  rfl

theorem served?_ended (h : kind c = true) (x : Except E (P.Ret c)) (alive : Bool) :
    Service.Proc.served? kind ⟨c, Prog.ended x, alive⟩ = some ⟨c, x⟩ := by
  rw [Service.Proc.served?, if_pos h, Prog.result?_ended]
  rfl

theorem served_eq_nil {procs : List P.Proc} (h : ∀ p ∈ procs, kind p.call = false) :
    served kind procs = [] := by
  rw [served, List.reduceOption_eq_nil_iff]
  refine ⟨(procs.map (Service.Proc.served? kind)).length, ?_⟩
  refine List.eq_replicate_iff.mpr ⟨rfl, fun o ho => ?_⟩
  obtain ⟨p, hp, rfl⟩ := List.mem_map.mp ho
  exact served?_of_not_kind (h p hp)

/-- What has been served is what a process has ended in. -/
theorem exists_of_mem_served {procs : List P.Proc} {t : Served P} (h : t ∈ served kind procs) :
    ∃ p ∈ procs, kind p.call = true ∧ p.served? kind = some t := by
  obtain ⟨p, hp, ht⟩ := List.mem_map.mp (List.reduceOption_mem_iff.mp h)
  refine ⟨p, hp, ?_, ht⟩
  by_contra hk
  rw [served?_of_not_kind (Bool.eq_false_iff.mpr hk)] at ht
  cases ht

theorem ended_of_parked {p : Prog A E α} (h : p.Parked) (hr : ¬ p.Running) :
    ∃ x, p = Prog.ended x := by
  cases p with
  | ret a => exact ⟨.ok a, rfl⟩
  | fail e => exact ⟨.error e, rfl⟩
  | await c k => exact absurd trivial hr
  | sync o k => exact absurd h id

/-! ### Steps of others -/

/-- A step of another kind moves no process of this one. -/
theorem kind_step (hs : Service.step σ e = some σ') (he : ∀ c ∈ σ.caller e, kind c = false)
    {p : P.Proc} (hp : σ'.procs[pid]? = some p) (hk : kind p.call = true) :
    ∃ alive, σ.procs[pid]? = some ⟨p.call, p.prog, alive⟩ := by
  by_cases hm : σ.mover e = some pid
  · exfalso
    cases e with
    | call c =>
      obtain rfl : σ.procs.length = pid := Option.some.inj hm
      obtain ⟨s, -, rfl⟩ := Service.step_call hs
      obtain rfl := Option.some.inj (List.getElem?_concat_length.symm.trans hp)
      cases (he c rfl).symm.trans hk
    | resume n r =>
      obtain rfl : n = pid := Option.some.inj hm
      obtain ⟨c, d, k, x, s, hget, -, rfl⟩ := Service.step_resume hs
      rw [List.getElem?_set_self (List.getElem?_eq_some_iff.mp hget).1] at hp
      obtain rfl := Option.some.inj hp
      have hcaller : σ.caller (.resume n r) = some c := congrArg (Option.map _) hget
      cases (he c hcaller).symm.trans hk
    | env e => cases hm
    | kill n => cases hm
  · obtain ⟨alive, hp', -⟩ := Service.stayed_step hs hp hm
    exact ⟨alive, hp'⟩

theorem NoneRuns.step (h : NoneRuns kind σ.procs) (hs : Service.step σ e = some σ')
    (he : ∀ c ∈ σ.caller e, kind c = false) : NoneRuns kind σ'.procs := by
  intro p hp hk
  obtain ⟨pid, hpid⟩ := List.getElem?_of_mem hp
  obtain ⟨alive, hp'⟩ := kind_step hs he hpid hk
  exact h ⟨p.call, p.prog, alive⟩ (List.mem_of_getElem? hp') hk

/-- Nor does it end one. -/
theorem map_served_step (hs : Service.step σ e = some σ') (he : ∀ c ∈ σ.caller e, kind c = false) :
    σ'.procs.map (Service.Proc.served? kind) = σ.procs.map (Service.Proc.served? kind) ∨
      σ'.procs.map (Service.Proc.served? kind) = σ.procs.map (Service.Proc.served? kind) ++ [none] := by
  have hset : ∀ {n : Nat} {p q : P.Proc}, σ.procs[n]? = some p → q.served? kind = p.served? kind →
      (σ.procs.set n q).map (Service.Proc.served? kind) =
        σ.procs.map (Service.Proc.served? kind) := by
    intro n p q hp hq
    refine List.ext_getElem? fun i => ?_
    rw [List.getElem?_map, List.getElem?_map]
    by_cases hi : n = i
    · subst hi
      rw [List.getElem?_set_self (List.getElem?_eq_some_iff.mp hp).1, hp, Option.map_some,
        Option.map_some, hq]
    · rw [List.getElem?_set_ne hi]
  cases e with
  | call c =>
    obtain ⟨s, -, rfl⟩ := Service.step_call hs
    refine Or.inr ?_
    rw [List.map_append, List.map_singleton, served?_of_not_kind]
    exact he c rfl
  | resume n r =>
    obtain ⟨c, d, k, x, s, hget, -, rfl⟩ := Service.step_resume hs
    have hc : kind c = false := he c (congrArg (Option.map _) hget)
    refine Or.inl (hset hget ?_)
    rw [served?_of_not_kind (p := ⟨c, _, true⟩) hc, served?_of_not_kind (p := ⟨c, _, true⟩) hc]
  | env e =>
    obtain ⟨s, -, rfl⟩ := Service.step_env hs
    exact Or.inl rfl
  | kill n =>
    obtain ⟨p, hget, -, rfl⟩ := Service.step_kill hs
    exact Or.inl (hset hget rfl)

theorem served_step (hs : Service.step σ e = some σ') (he : ∀ c ∈ σ.caller e, kind c = false) :
    served kind σ'.procs = served kind σ.procs := by
  rcases map_served_step hs he with h | h
  · rw [served, h, served]
  · rw [served, h, List.reduceOption_append, served]
    exact List.append_nil _

theorem served_take_step (hs : Service.step σ e = some σ') (he : ∀ c ∈ σ.caller e, kind c = false)
    (hlt : pid ≤ σ.procs.length) :
    served kind (σ'.procs.take pid) = served kind (σ.procs.take pid) := by
  rw [served, served, List.map_take, List.map_take]
  rcases map_served_step hs he with h | h
  · rw [h]
  · rw [h, List.take_append_of_le_length (by rw [List.length_map]; exact hlt)]

/-! ### The call that runs -/

/-- The process is the last one of the kind, and no other one runs. -/
structure LastOf (kind : P.Call → Bool) (pid : Nat) (procs : List P.Proc) : Prop where
  before : ∀ i p, i < pid → procs[i]? = some p → kind p.call = true → ¬ p.prog.Running
  after : ∀ i p, pid < i → procs[i]? = some p → kind p.call = false

/-- A process of the kind that runs is the last one. -/
theorem LastOf.eq_of_running {procs : List P.Proc} (h : LastOf kind pid procs) {i : Nat} {p : P.Proc}
    (hp : procs[i]? = some p) (hk : kind p.call = true) (hr : p.prog.Running) : i = pid := by
  rcases Nat.lt_trichotomy i pid with hlt | heq | hgt
  · exact absurd hr (h.before i p hlt hp hk)
  · exact heq
  · cases (h.after i p hgt hp).symm.trans hk

theorem LastOf.step (h : LastOf kind pid σ.procs) (hs : Service.step σ e = some σ')
    (he : σ.mover e = some pid ∨ ∀ c ∈ σ.caller e, kind c = false) : LastOf kind pid σ'.procs := by
  have hback : ∀ {i p}, i ≠ pid → σ'.procs[i]? = some p → kind p.call = true →
      ∃ alive, σ.procs[i]? = some ⟨p.call, p.prog, alive⟩ := by
    intro i p hi hp hk
    rcases he with he | he
    · have hne : σ.mover e ≠ some i := fun hm => hi (Option.some.inj (hm.symm.trans he))
      obtain ⟨alive, hp', -⟩ := Service.stayed_step hs hp hne
      exact ⟨alive, hp'⟩
    · exact kind_step hs he hp hk
  refine ⟨fun i p hlt hp hk => ?_, fun i p hlt hp => ?_⟩
  · obtain ⟨alive, hp'⟩ := hback (by omega) hp hk
    exact h.before i ⟨p.call, p.prog, alive⟩ hlt hp' hk
  · cases hk : kind p.call with
    | false => rfl
    | true =>
      obtain ⟨alive, hp'⟩ := hback (by omega) hp hk
      cases (h.after i ⟨p.call, p.prog, alive⟩ hlt hp').symm.trans hk

/-- When the last one of the kind is over, it is the last that has been served. -/
theorem LastOf.served_concat {procs : List P.Proc} (h : LastOf kind pid procs) (hk : kind c = true)
    {x : Except E (P.Ret c)} {alive : Bool} (hp : procs[pid]? = some ⟨c, Prog.ended x, alive⟩) :
    served kind procs = served kind (procs.take pid) ++ [⟨c, x⟩] := by
  obtain ⟨hlt, hget⟩ := List.getElem?_eq_some_iff.mp hp
  have hsplit : procs = procs.take pid ++ procs[pid] :: procs.drop (pid + 1) := by
    rw [List.getElem_cons_drop, List.take_append_drop]
  have hrest : ((procs.drop (pid + 1)).map (Service.Proc.served? kind)).reduceOption = [] := by
    refine served_eq_nil fun p hp => ?_
    obtain ⟨i, hi⟩ := List.getElem?_of_mem hp
    rw [List.getElem?_drop] at hi
    exact h.after _ p (by omega) hi
  rw [served, served]
  nth_rewrite 1 [hsplit]
  rw [List.map_append, List.map_cons, hget, served?_ended hk, List.reduceOption_append,
    List.reduceOption_cons_of_some, hrest]

/-! ### Rounds -/

/-- One call of the kind after the other: the others keep what is known, and a call
brings it from the calls before it to the calls with itself. -/
structure Rounds (kind : P.Call → Bool) (L : Ctx A S Reply) (K : List (Served P) → S → Prop)
    (ok : P.Sys → P.Event → Prop) : Prop where
  refl : ∀ s, L.rely s s
  trans : ∀ s s' s'', L.rely s s' → L.rely s' s'' → L.rely s s''
  stable : ∀ ts s s', K ts s → L.rely s s' → K ts s'
  oneAtATime : ∀ {σ e}, ok σ e → OneAtATime kind σ e
  others : ∀ {σ e σ'}, ok σ e → Service.step σ e = some σ' → (∀ c ∈ σ.caller e, kind c = false) →
    L.rely σ.shared σ'.shared
  own : ∀ {σ pid r c d}, ok σ (.resume pid r) → σ.caller (.resume pid r) = some c →
    kind c = true → σ.pending pid = some d → L.inv σ.shared ∧ L.ok d r σ.shared
  serves : ∀ {pid c ts s s'}, kind c = true → K ts s → P.accept pid c s = some s' →
    (P.body c).wp H pid L (fun x _ s'' => K (ts ++ [⟨c, x⟩]) s'') s' s'

/-- Between two calls, or during one. -/
inductive Round (kind : P.Call → Bool) (L : Ctx A S Reply) (K : List (Served P) → S → Prop)
    (σ : P.Sys) : Prop
  | idle (free : NoneRuns kind σ.procs) (known : K (served kind σ.procs) σ.shared)
  | busy (pid : Nat) (c : P.Call) (of_kind : kind c = true) (last : LastOf kind pid σ.procs)
      (stands : L.Stands pid c (fun x _ s => K (served kind (σ.procs.take pid) ++ [⟨c, x⟩]) s) σ)

variable {L : Ctx A S Reply} {K : List (Served P) → S → Prop} {ok : P.Sys → P.Event → Prop}

/-- When no call of the kind runs, what is known of the calls so far holds. -/
theorem Round.known (R : Rounds kind L K ok) (h : Round kind L K σ) (hidle : NoneRuns kind σ.procs) :
    K (served kind σ.procs) σ.shared := by
  cases h with
  | idle free known => exact known
  | busy pid c of_kind last stands =>
    obtain ⟨prog, alive, s₀, s, hp, hparked, hwp, hrely⟩ := stands
    obtain ⟨x, rfl⟩ := ended_of_parked hparked (hidle _ (List.mem_of_getElem? hp) of_kind)
    rw [last.served_concat of_kind hp]
    refine R.stable _ s _ ?_ hrely
    cases x with
    | ok a => exact hwp
    | error e => exact hwp

/-- During a call of the kind, the steps of the others and its own. -/
def Apart (kind : P.Call → Bool) (pid : Nat) (σ : P.Sys) (e : P.Event) : Prop :=
  (σ.mover e ≠ some pid → ∀ c ∈ σ.caller e, kind c = false) ∧
    (σ.mover e = some pid → ∃ c, σ.caller e = some c ∧ kind c = true)

theorem Rounds.admits (R : Rounds kind L K ok) :
    L.Admits pid fun σ e => ok σ e ∧ Apart kind pid σ e where
  refl := R.refl
  trans := R.trans
  others hok hs hm := R.others hok.1 hs (hok.2.1 hm)
  own hok hd := by
    obtain ⟨c, hc, hk⟩ := hok.2.2 rfl
    exact R.own hok.1 hc hk hd

/-- A call of the kind begins. -/
theorem Round.begin (R : Rounds kind L K ok) (hidle : NoneRuns kind σ.procs)
    (hknown : K (served kind σ.procs) σ.shared) (hk : kind c = true)
    (hs : Service.step σ (.call c) = some σ') : Round kind L K σ' := by
  have htake : σ'.procs.take σ.procs.length = σ.procs := by
    obtain ⟨s, -, rfl⟩ := Service.step_call hs
    exact List.take_left
  refine .busy σ.procs.length c hk ⟨fun i p hlt hp hkind => ?_, fun i p hlt hp => ?_⟩ ?_
  · have hne : σ.mover (.call c) ≠ some i := by
      intro hm
      have := Option.some.inj hm
      omega
    obtain ⟨alive, hp', -⟩ := Service.stayed_step hs hp hne
    exact hidle ⟨p.call, p.prog, alive⟩ (List.mem_of_getElem? hp') hkind
  · obtain ⟨s, -, rfl⟩ := Service.step_call hs
    have := (List.getElem?_eq_some_iff.mp hp).1
    rw [List.length_append, List.length_singleton] at this
    omega
  · rw [htake]
    exact stands_call R.refl (fun s ha => R.serves hk hknown ha) hs

/-- A call of another kind moves, or none. -/
theorem Round.step_other (R : Rounds kind L K ok) (h : Round kind L K σ) (hok : ok σ e)
    (hs : Service.step σ e = some σ') (he : ∀ c ∈ σ.caller e, kind c = false) :
    Round kind L K σ' := by
  cases h with
  | idle free known =>
    refine .idle (free.step hs he) ?_
    rw [served_step hs he]
    exact R.stable _ _ _ known (R.others hok hs he)
  | busy pid c of_kind last stands =>
    have hstands := stands
    obtain ⟨prog, alive, s₀, s, hp, -⟩ := stands
    have hlt := (List.getElem?_eq_some_iff.mp hp).1
    have hmover : σ.mover e ≠ some pid := by
      intro hm
      cases e with
      | call c' =>
        have := Option.some.inj hm
        omega
      | resume n r =>
        obtain rfl : n = pid := Option.some.inj hm
        cases (he c (congrArg (Option.map _) hp)).symm.trans of_kind
      | env e => cases hm
      | kill n => cases hm
    refine .busy pid c of_kind (last.step hs (Or.inr he)) ?_
    rw [served_take_step hs he (by omega)]
    exact stands_step R.admits hstands ⟨hok, fun _ => he, fun hm => absurd hm hmover⟩ hs

/-- The call of the kind that runs goes on. -/
theorem Round.step_own (R : Rounds kind L K ok) (h : Round kind L K σ) {n : Nat} {r : Reply}
    (hok : ok σ (.resume n r)) (hs : Service.step σ (.resume n r) = some σ')
    (hc : σ.caller (.resume n r) = some c) (hk : kind c = true) : Round kind L K σ' := by
  obtain ⟨c', d, k, x, s, hget, -, hσ'⟩ := Service.step_resume hs
  obtain rfl : c' = c := by
    have hc' : σ.caller (.resume n r) = some c' := congrArg (Option.map _) hget
    exact Option.some.inj (hc'.symm.trans hc)
  cases h with
  | idle free known =>
    exact absurd trivial (free ⟨c', .await d k, true⟩ (List.mem_of_getElem? hget) hk)
  | busy pid c of_kind last stands =>
    obtain rfl : n = pid := last.eq_of_running hget hk trivial
    refine .busy n c of_kind (last.step hs (Or.inl rfl)) ?_
    have htake : σ'.procs.take n = σ.procs.take n := by
      rw [hσ']
      exact List.take_set_of_le (Nat.le_refl n)
    rw [htake]
    exact stands_step R.admits stands ⟨hok, fun hm => absurd rfl hm, fun _ => ⟨c', hc, hk⟩⟩ hs

/-- **Step rule for rounds.** -/
theorem Round.step (R : Rounds kind L K ok) (h : Round kind L K σ) (hok : ok σ e)
    (hs : Service.step σ e = some σ') : Round kind L K σ' := by
  by_cases he : ∀ c ∈ σ.caller e, kind c = false
  · exact h.step_other R hok hs he
  · obtain ⟨c, hc, hk⟩ : ∃ c, σ.caller e = some c ∧ kind c = true := by
      by_contra hno
      refine he fun c hc => ?_
      rw [Bool.eq_false_iff]
      exact fun hk => hno ⟨c, hc, hk⟩
    cases e with
    | call c' =>
      obtain rfl : c' = c := Option.some.inj hc
      have hidle := R.oneAtATime hok hk
      exact Round.begin R hidle (h.known R hidle) hk hs
    | resume n r => exact h.step_own R hok hs hc hk
    | env e => cases hc
    | kill n => cases hc

/-- **Run rule for rounds.**  When no call of the kind runs, what is known of the calls so
far holds. -/
theorem known_of_reaches (R : Rounds kind L K ok) (hidle : NoneRuns kind σ.procs)
    (hknown : K (served kind σ.procs) σ.shared) (hr : Service.Reaches ok σ σ')
    (hover : NoneRuns kind σ'.procs) : K (served kind σ'.procs) σ'.shared := by
  have hround : Round kind L K σ' := by
    clear hover
    induction hr with
    | refl => exact .idle hidle hknown
    | tail _ hs ih =>
      obtain ⟨e, hok, hs⟩ := hs
      exact Round.step R ih hok hs
  exact hround.known R hover

end FullstackSvc.Async
