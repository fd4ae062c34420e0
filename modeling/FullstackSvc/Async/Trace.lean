import FullstackSvc.Async.Pool

/-!
# What a program has done

A `Happening` is one awaited call with its answer, or one operation with its
value.  `p.Follows tr q` says that `p` has become `q` when `tr` has happened, and
`p.Finishes tr x` that it is over with the result `x`.  The answers are any: a
statement about all the traces of a program holds whatever the world does, and
whatever other programs do between its awaits.

* `finishes_bind`, `finishes_handle`, `finishes_call`: a trace is taken apart along the program
  text.
* `Follows.called`: a trace has no call that its program `Makes` not.
* `traced_step`: **every process of a pool has a trace**, of calls that have been
  performed.
* `Traced.pending`: what a process awaits is of the kind that its program `Asks`,
  given what is known of its trace.
-/

namespace FullstackSvc.Async

variable {A : Sig} {E S Reply α β : Type}

/-- A call with its answer, or an operation with its value. -/
inductive Happening (A : Sig) (E : Type)
  | call (c : A.Cmd) (x : Except E (A.Res c))
  | op (o : A.Op) (v : A.Val o)

namespace Prog

/-- The program becomes another one when this happens. -/
inductive Follows : Prog A E α → List (Happening A E) → Prog A E α → Prop
  | refl (p : Prog A E α) : Follows p [] p
  | call {c : A.Cmd} {k : Except E (A.Res c) → Prog A E α} {x : Except E (A.Res c)}
      {tr : List (Happening A E)} {q : Prog A E α} (h : Follows (k x) tr q) :
      Follows (.await c k) (.call c x :: tr) q
  | op {o : A.Op} {k : A.Val o → Prog A E α} {v : A.Val o} {tr : List (Happening A E)}
      {q : Prog A E α} (h : Follows (k v) tr q) : Follows (.sync o k) (.op o v :: tr) q

/-- A program that is over. -/
def ended : Except E α → Prog A E α
  | .ok a => .ret a
  | .error e => .fail e

/-- The program is over when this has happened. -/
def Finishes (p : Prog A E α) (tr : List (Happening A E)) (x : Except E α) : Prop :=
  p.Follows tr (ended x)

theorem Follows.trans {p q r : Prog A E α} {tr tr' : List (Happening A E)} (h : p.Follows tr q)
    (h' : q.Follows tr' r) : p.Follows (tr ++ tr') r := by
  induction h with
  | refl => exact h'
  | call _ ih => exact .call (ih h')
  | op _ ih => exact .op (ih h')

variable {tr : List (Happening A E)}

theorem finishes_ret {a : α} {x : Except E α} (h : (Prog.ret a : Prog A E α).Finishes tr x) :
    tr = [] ∧ x = .ok a := by
  cases x with
  | ok b =>
    cases h
    exact ⟨rfl, rfl⟩
  | error e => cases h

theorem finishes_fail {e : E} {x : Except E α} (h : (Prog.fail e : Prog A E α).Finishes tr x) :
    tr = [] ∧ x = .error e := by
  cases x with
  | ok b => cases h
  | error e' =>
    cases h
    exact ⟨rfl, rfl⟩

theorem finishes_await {c : A.Cmd} {k : Except E (A.Res c) → Prog A E α} {x : Except E α}
    (h : (Prog.await c k).Finishes tr x) : ∃ y tr', tr = .call c y :: tr' ∧ (k y).Finishes tr' x := by
  have key : ∀ {p q : Prog A E α}, p.Follows tr q → p = .await c k → q = ended x →
      ∃ y tr', tr = .call c y :: tr' ∧ (k y).Finishes tr' x := by
    intro p q hf hp hq
    cases hf with
    | refl =>
      rw [hp] at hq
      cases x <;> cases hq
    | call hf =>
      cases hp
      subst hq
      exact ⟨_, _, rfl, hf⟩
    | op hf => cases hp
  exact key h rfl rfl

theorem finishes_sync {o : A.Op} {k : A.Val o → Prog A E α} {x : Except E α}
    (h : (Prog.sync o k).Finishes tr x) : ∃ v tr', tr = .op o v :: tr' ∧ (k v).Finishes tr' x := by
  have key : ∀ {p q : Prog A E α}, p.Follows tr q → p = .sync o k → q = ended x →
      ∃ v tr', tr = .op o v :: tr' ∧ (k v).Finishes tr' x := by
    intro p q hf hp hq
    cases hf with
    | refl =>
      rw [hp] at hq
      cases x <;> cases hq
    | call hf => cases hp
    | op hf =>
      cases hp
      subst hq
      exact ⟨_, _, rfl, hf⟩
  exact key h rfl rfl

/-- One thing after the other. -/
theorem finishes_bind {p : Prog A E α} {f : α → Prog A E β} {x : Except E β}
    (h : (p.bind f).Finishes tr x) :
    (∃ tr₁ tr₂ a, tr = tr₁ ++ tr₂ ∧ p.Finishes tr₁ (.ok a) ∧ (f a).Finishes tr₂ x) ∨
      ∃ e, x = .error e ∧ p.Finishes tr (.error e) := by
  induction p generalizing tr with
  | ret a => exact Or.inl ⟨[], tr, a, rfl, .refl _, h⟩
  | fail e =>
    obtain ⟨rfl, rfl⟩ := finishes_fail h
    exact Or.inr ⟨e, rfl, .refl _⟩
  | await c k ih =>
    obtain ⟨y, tr', rfl, hk⟩ := finishes_await h
    rcases ih y hk with ⟨tr₁, tr₂, a, rfl, h₁, h₂⟩ | ⟨e, rfl, h₁⟩
    · exact Or.inl ⟨.call c y :: tr₁, tr₂, a, rfl, .call h₁, h₂⟩
    · exact Or.inr ⟨e, rfl, .call h₁⟩
  | sync o k ih =>
    obtain ⟨v, tr', rfl, hk⟩ := finishes_sync h
    rcases ih v hk with ⟨tr₁, tr₂, a, rfl, h₁, h₂⟩ | ⟨e, rfl, h₁⟩
    · exact Or.inl ⟨.op o v :: tr₁, tr₂, a, rfl, .op h₁, h₂⟩
    · exact Or.inr ⟨e, rfl, .op h₁⟩

/-- `try p catch e => h e`. -/
theorem finishes_handle {p : Prog A E α} {f : E → Prog A E α} {x : Except E α}
    (h : (p.handle f).Finishes tr x) :
    (∃ a, x = .ok a ∧ p.Finishes tr (.ok a)) ∨
      ∃ tr₁ tr₂ e, tr = tr₁ ++ tr₂ ∧ p.Finishes tr₁ (.error e) ∧ (f e).Finishes tr₂ x := by
  induction p generalizing tr with
  | ret a =>
    obtain ⟨rfl, rfl⟩ := finishes_ret h
    exact Or.inl ⟨a, rfl, .refl _⟩
  | fail e => exact Or.inr ⟨[], tr, e, rfl, .refl _, h⟩
  | await c k ih =>
    obtain ⟨y, tr', rfl, hk⟩ := finishes_await h
    rcases ih y hk with ⟨a, rfl, h₁⟩ | ⟨tr₁, tr₂, e, rfl, h₁, h₂⟩
    · exact Or.inl ⟨a, rfl, .call h₁⟩
    · exact Or.inr ⟨.call c y :: tr₁, tr₂, e, rfl, .call h₁, h₂⟩
  | sync o k ih =>
    obtain ⟨v, tr', rfl, hk⟩ := finishes_sync h
    rcases ih v hk with ⟨a, rfl, h₁⟩ | ⟨tr₁, tr₂, e, rfl, h₁, h₂⟩
    · exact Or.inl ⟨a, rfl, .op h₁⟩
    · exact Or.inr ⟨.op o v :: tr₁, tr₂, e, rfl, .op h₁, h₂⟩

theorem finishes_call {c : A.Cmd} {x : Except E (A.Res c)} (h : (call c).Finishes tr x) :
    tr = [.call c x] := by
  obtain ⟨y, tr', rfl, hk⟩ := finishes_await h
  cases y with
  | ok a =>
    obtain ⟨rfl, rfl⟩ := finishes_ret hk
    rfl
  | error e =>
    obtain ⟨rfl, rfl⟩ := finishes_fail hk
    rfl

end Prog

/-! ### Which calls a trace has -/

/-- The call has been made, whatever came of it. -/
def Called (c : A.Cmd) (tr : List (Happening A E)) : Prop := ∃ x, .call c x ∈ tr

/-- The call has been made, and it failed. -/
def Refused (c : A.Cmd) (tr : List (Happening A E)) : Prop := ∃ e, .call c (.error e) ∈ tr

theorem Refused.called {c : A.Cmd} {tr : List (Happening A E)} (h : Refused c tr) : Called c tr :=
  let ⟨e, he⟩ := h
  ⟨.error e, he⟩

theorem called_append {c : A.Cmd} {tr tr' : List (Happening A E)} :
    Called c (tr ++ tr') ↔ Called c tr ∨ Called c tr' := by
  simp only [Called, List.mem_append, exists_or]

theorem refused_append {c : A.Cmd} {tr tr' : List (Happening A E)} :
    Refused c (tr ++ tr') ↔ Refused c tr ∨ Refused c tr' := by
  simp only [Refused, List.mem_append, exists_or]

theorem called_singleton {c d : A.Cmd} {x : Except E (A.Res d)} :
    Called c [Happening.call d x] ↔ c = d := by
  constructor
  · rintro ⟨y, hy⟩
    cases List.mem_singleton.mp hy
    rfl
  · rintro rfl
    exact ⟨x, List.mem_singleton_self _⟩

theorem not_refused_ok {c d : A.Cmd} {a : A.Res d} :
    ¬ Refused c [(Happening.call d (.ok a) : Happening A E)] := by
  rintro ⟨e, he⟩
  cases List.mem_singleton.mp he

namespace Prog

/-- All the calls that the program can make are of one kind. -/
def Makes (K : A.Cmd → Prop) : Prog A E α → Prop
  | .ret _ => True
  | .fail _ => True
  | .await c k => K c ∧ ∀ x, (k x).Makes K
  | .sync _ k => ∀ v, (k v).Makes K

variable {K : A.Cmd → Prop}

theorem makes_call {c : A.Cmd} (h : K c) : (call c : Prog A E (A.Res c)).Makes K := by
  refine ⟨h, fun x => ?_⟩
  cases x with
  | ok a => trivial
  | error e => trivial

theorem makes_op (o : A.Op) : (op o : Prog A E (A.Val o)).Makes K := fun _ => trivial

theorem makes_bind {p : Prog A E α} {f : α → Prog A E β} (hp : p.Makes K)
    (hf : ∀ a, (f a).Makes K) : (p.bind f).Makes K := by
  induction p with
  | ret a => exact hf a
  | fail e => trivial
  | await c k ih => exact ⟨hp.1, fun x => ih x (hp.2 x)⟩
  | sync o k ih => exact fun v => ih v (hp v)

theorem makes_handle {p : Prog A E α} {f : E → Prog A E α} (hp : p.Makes K)
    (hf : ∀ e, (f e).Makes K) : (p.handle f).Makes K := by
  induction p with
  | ret a => trivial
  | fail e => exact hf e
  | await c k ih => exact ⟨hp.1, fun x => ih x (hp.2 x)⟩
  | sync o k ih => exact fun v => ih v (hp v)

theorem makes_mono {K' : A.Cmd → Prop} (h : ∀ c, K c → K' c) {p : Prog A E α} (hp : p.Makes K) :
    p.Makes K' := by
  induction p with
  | ret a => trivial
  | fail e => trivial
  | await c k ih => exact ⟨h c hp.1, fun x => ih x (hp.2 x)⟩
  | sync o k ih => exact fun v => ih v (hp v)

/-- The calls of a trace are of the kind of its program. -/
theorem Follows.called {p q : Prog A E α} {tr : List (Happening A E)} (h : p.Follows tr q)
    (hp : p.Makes K) {c : A.Cmd} (hc : Called c tr) : K c := by
  induction h with
  | refl p =>
    obtain ⟨x, hx⟩ := hc
    cases hx
  | call _ ih =>
    obtain ⟨x, hx⟩ := hc
    rcases List.mem_cons.mp hx with he | hx
    · cases he
      exact hp.1
    · exact ih (hp.2 _) ⟨x, hx⟩
  | op _ ih =>
    obtain ⟨x, hx⟩ := hc
    rcases List.mem_cons.mp hx with he | hx
    · cases he
    · exact ih (hp _) ⟨x, hx⟩

end Prog

/-! ### Which calls can come next -/

namespace Prog

/-- All the calls that the program can come to are of one kind, as long as what happens to it
is known to be of another. -/
def Asks (Known : Happening A E → Prop) (K : A.Cmd → Prop) : Prog A E α → Prop
  | .ret _ => True
  | .fail _ => True
  | .await c k => K c ∧ ∀ x, Known (.call c x) → (k x).Asks Known K
  | .sync o k => ∀ v, Known (.op o v) → (k v).Asks Known K

variable {Known : Happening A E → Prop} {K : A.Cmd → Prop}

theorem asks_of_makes {p : Prog A E α} (h : p.Makes K) : p.Asks Known K := by
  induction p with
  | ret a => trivial
  | fail e => trivial
  | await c k ih => exact ⟨h.1, fun x _ => ih x (h.2 x)⟩
  | sync o k ih => exact fun v _ => ih v (h v)

/-- What comes after a call may count on its answer. -/
theorem asks_call_bind {c : A.Cmd} {f : A.Res c → Prog A E β} (hc : K c)
    (hf : ∀ a, Known (.call c (.ok a)) → (f a).Asks Known K) :
    ((call c).bind f).Asks Known K := by
  refine ⟨hc, fun x hx => ?_⟩
  cases x with
  | ok a => exact hf a hx
  | error e => trivial

/-- What comes after an operation may count on its value. -/
theorem asks_op_bind {o : A.Op} {f : A.Val o → Prog A E β}
    (hf : ∀ v, Known (.op o v) → (f v).Asks Known K) : ((op o).bind f).Asks Known K := hf

theorem asks_handle {p : Prog A E α} {f : E → Prog A E α} (hp : p.Asks Known K)
    (hf : ∀ e, (f e).Asks Known K) : (p.handle f).Asks Known K := by
  induction p with
  | ret a => trivial
  | fail e => exact hf e
  | await c k ih => exact ⟨hp.1, fun x hx => ih x (hp.2 x hx)⟩
  | sync o k ih => exact fun v hv => ih v (hp v hv)

/-- What is left of a program asks what the program asks. -/
theorem Follows.asks {p q : Prog A E α} {tr : List (Happening A E)} (h : p.Follows tr q)
    (hp : p.Asks Known K) (hk : ∀ a ∈ tr, Known a) : q.Asks Known K := by
  induction h with
  | refl p => exact hp
  | call _ ih =>
    rw [List.forall_mem_cons] at hk
    exact ih (hp.2 _ hk.1) hk.2
  | op _ ih =>
    rw [List.forall_mem_cons] at hk
    exact ih (hp _ hk.1) hk.2

end Prog

/-! ### The traces of a pool -/

variable {H : Host A E S Reply} {P : Service H}

/-- What is known of the state when something has happened in a process: it is so when it
happens, and operations keep it. -/
structure Witnessed (H : Host A E S Reply) (Q : Nat → Happening A E → S → Prop) : Prop where
  call : ∀ {pid c r s x s'}, H.perform pid c r s = some (x, s') → Q pid (.call c x) s'
  op : ∀ {pid o s}, Q pid (.op o (H.compute pid o s).1) (H.compute pid o s).2
  compute : ∀ {pid pid' h o s}, Q pid h s → Q pid h (H.compute pid' o s).2

/-- Every process has a trace, and of all that has happened in it this is known. -/
def Traced (Q : Nat → Happening A E → S → Prop) (σ : P.Sys) : Prop :=
  ∀ pid p, σ.procs[pid]? = some p →
    ∃ tr, (P.body p.call).Follows tr p.prog ∧ ∀ h ∈ tr, Q pid h σ.shared

variable {Q : Nat → Happening A E → S → Prop}

/-- The operations up to the next await. -/
theorem follows_settle (W : Witnessed H Q) (pid : Nat) :
    ∀ (p : Prog A E α) (s : S), ∃ tr, p.Follows tr (p.settle H pid s).1 ∧
      (∀ h ∈ tr, Q pid h (p.settle H pid s).2) ∧
        ∀ h, Q pid h s → Q pid h (p.settle H pid s).2 := by
  intro p
  induction p with
  | ret a => exact fun s => ⟨[], .refl _, List.forall_mem_nil _, fun h hh => hh⟩
  | fail e => exact fun s => ⟨[], .refl _, List.forall_mem_nil _, fun h hh => hh⟩
  | await c k _ => exact fun s => ⟨[], .refl _, List.forall_mem_nil _, fun h hh => hh⟩
  | sync o k ih =>
    intro s
    obtain ⟨tr, hf, hnew, hold⟩ := ih (H.compute pid o s).1 (H.compute pid o s).2
    refine ⟨.op o (H.compute pid o s).1 :: tr, .op hf, fun h hh => ?_,
      fun h hh => hold h (W.compute hh)⟩
    rcases List.mem_cons.mp hh with rfl | hh
    · exact hold _ W.op
    · exact hnew h hh

/-- **Every process has a trace**, and a step that keeps what is known makes it
longer. -/
theorem traced_step (W : Witnessed H Q) {σ σ' : P.Sys} {e : P.Event} (ht : Traced Q σ)
    (hs : Service.step σ e = some σ') (hkept : ∀ pid h, Q pid h σ.shared → Q pid h σ'.shared) :
    Traced Q σ' := by
  intro pid p hp
  by_cases hm : σ.mover e = some pid
  · cases e with
    | call c =>
      obtain rfl : σ.procs.length = pid := Option.some.inj hm
      obtain ⟨s, -, rfl⟩ := Service.step_call hs
      obtain rfl := Option.some.inj (List.getElem?_concat_length.symm.trans hp)
      obtain ⟨tr, hf, hnew, -⟩ := follows_settle W σ.procs.length (P.body c) s
      exact ⟨tr, hf, hnew⟩
    | resume n r =>
      obtain rfl : n = pid := Option.some.inj hm
      obtain ⟨c, d, k, x, s, hget, hperf, rfl⟩ := Service.step_resume hs
      rw [List.getElem?_set_self (List.getElem?_eq_some_iff.mp hget).1] at hp
      obtain rfl := Option.some.inj hp
      obtain ⟨tr, hf, hq⟩ := ht n _ hget
      obtain ⟨tr', hf', hnew, hold⟩ := follows_settle W n (k x) s
      refine ⟨tr ++ .call d x :: tr', hf.trans (.call hf'), fun h hh => ?_⟩
      rcases List.mem_append.mp hh with hh | hh
      · exact hkept n h (hq h hh)
      · rcases List.mem_cons.mp hh with rfl | hh
        · exact hold _ (W.call hperf)
        · exact hnew h hh
    | env e => cases hm
    | kill n => cases hm
  · obtain ⟨alive, hp', -⟩ := Service.stayed_step hs hp hm
    obtain ⟨tr, hf, hq⟩ := ht pid _ hp'
    exact ⟨tr, hf, fun h hh => hkept pid h (hq h hh)⟩

/-- **What a process awaits** is what its program asks, given what is known. -/
theorem Traced.pending {K : A.Cmd → Prop} {σ : P.Sys} (ht : Traced Q σ) {pid : Nat} {c : P.Call}
    {d : A.Cmd} (hcall : (σ.procs[pid]?).map Service.Proc.call = some c)
    (hc : (P.body c).Asks (fun h => Q pid h σ.shared) K) (hp : σ.pending pid = some d) : K d := by
  obtain ⟨c', k, hk⟩ := Service.await_of_pending hp
  rw [hk] at hcall
  obtain rfl := Option.some.inj hcall
  obtain ⟨tr, hf, hq⟩ := ht pid _ hk
  exact (hf.asks hc hq).1

end FullstackSvc.Async
