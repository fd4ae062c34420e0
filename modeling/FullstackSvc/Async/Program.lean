import Mathlib.Logic.Function.Basic

/-!
# Programs that suspend at their awaits

An `async` function runs until it awaits something, gives the thread back, and
goes on when the awaited call has settled.  `Prog A E α` is such a function cut
at its awaits: it has returned, it has thrown, it awaits a command of the
signature `A` and goes on with the result or the error of that command, or it
does a synchronous operation and goes on at once.

A `Host` says what the commands and the operations do to a shared state.  What
a command does depends on a `Reply`, the choice that the world makes (whether
the call fails, which bytes come back); everything else is a function, so a
run is determined by its replies.

* `Prog.settle` runs the synchronous operations up to the next await: what a
  thread does between two points where it can be interrupted.
* `Prog.runAlone` runs one program to its end with nothing in between;
  `runAlone_bind`, `runAlone_handle` and `runAlone_call` take such a run apart along the program text.
* `Prog.runWith` is the run alone in which every command gets the same reply
  (`runAlone_of_runWith`); `runWith_bind`, `runWith_handle` and `runWith_await` compute it.
-/

namespace FullstackSvc.Async

/-- The calls a program makes: `Cmd` are awaited, `Op` are synchronous. -/
structure Sig where
  Cmd : Type
  Res : Cmd → Type
  Op : Type
  Val : Op → Type

/-- An `async` function, cut at its awaits. -/
inductive Prog (A : Sig) (E α : Type) : Type
  | ret (a : α)
  | fail (e : E)
  | await (c : A.Cmd) (k : Except E (A.Res c) → Prog A E α)
  | sync (o : A.Op) (k : A.Val o → Prog A E α)

namespace Prog

variable {A : Sig} {E α β : Type}

def bind : Prog A E α → (α → Prog A E β) → Prog A E β
  | .ret a, f => f a
  | .fail e, _ => .fail e
  | .await c k, f => .await c fun x => (k x).bind f
  | .sync o k, f => .sync o fun v => (k v).bind f

/-- `try p catch e => h e`. -/
def handle : Prog A E α → (E → Prog A E α) → Prog A E α
  | .ret a, _ => .ret a
  | .fail e, h => h e
  | .await c k, h => .await c fun x => (k x).handle h
  | .sync o k, h => .sync o fun v => (k v).handle h

instance : Monad (Prog A E) where
  pure := .ret
  bind := bind

instance : MonadExcept E (Prog A E) where
  throw := .fail
  tryCatch := handle

/-- `await c`: the result of the command, or its error thrown here. -/
def call (c : A.Cmd) : Prog A E (A.Res c) :=
  .await c fun x => match x with
    | .ok a => .ret a
    | .error e => .fail e

/-- A synchronous operation. -/
def op (o : A.Op) : Prog A E (A.Val o) := .sync o .ret

/-- A program that gives the thread back, or is over. -/
def Parked : Prog A E α → Prop
  | .sync _ _ => False
  | _ => True

/-- The program has neither returned nor thrown. -/
def Running : Prog A E α → Prop
  | .ret _ => False
  | .fail _ => False
  | _ => True

instance (p : Prog A E α) : Decidable p.Running :=
  match p with
  | .ret _ => isFalse id
  | .fail _ => isFalse id
  | .await _ _ => isTrue trivial
  | .sync _ _ => isTrue trivial

/-- The program has returned. -/
def Returned : Prog A E α → Prop
  | .ret _ => True
  | _ => False

instance (p : Prog A E α) : Decidable p.Returned :=
  match p with
  | .ret _ => isTrue trivial
  | .fail _ => isFalse id
  | .await _ _ => isFalse id
  | .sync _ _ => isFalse id

theorem not_running_of_returned {p : Prog A E α} (h : p.Returned) : ¬ p.Running := by
  cases p with
  | ret a => exact id
  | fail e => exact id
  | await c k => exact absurd h id
  | sync o k => exact absurd h id

@[simp] theorem pure_eq (a : α) : (pure a : Prog A E α) = .ret a := rfl
@[simp] theorem bind_eq (p : Prog A E α) (f : α → Prog A E β) : p >>= f = p.bind f := rfl
@[simp] theorem throw_eq (e : E) : (throw e : Prog A E α) = .fail e := rfl
@[simp] theorem tryCatch_eq (p : Prog A E α) (h : E → Prog A E α) :
    tryCatch p h = p.handle h := rfl

@[simp] theorem ret_bind (a : α) (f : α → Prog A E β) : (Prog.ret a : Prog A E α).bind f = f a := rfl
@[simp] theorem fail_bind (e : E) (f : α → Prog A E β) :
    (Prog.fail e : Prog A E α).bind f = .fail e := rfl

@[simp] theorem ret_handle (a : α) (h : E → Prog A E α) : (Prog.ret a).handle h = .ret a := rfl
@[simp] theorem fail_handle (e : E) (h : E → Prog A E α) : (Prog.fail e).handle h = h e := rfl

end Prog

/-- What commands and operations do to a shared state `S`.  The number is that
of the calling process.  A command is answered only by a fitting reply. -/
structure Host (A : Sig) (E S Reply : Type) where
  perform : Nat → (c : A.Cmd) → Reply → S → Option (Except E (A.Res c) × S)
  compute : Nat → (o : A.Op) → S → A.Val o × S

variable {A : Sig} {E S Reply α β : Type}

namespace Prog

/-- Run the synchronous operations up to the next await. -/
def settle (H : Host A E S Reply) (pid : Nat) : Prog A E α → S → Prog A E α × S
  | .ret a, s => (.ret a, s)
  | .fail e, s => (.fail e, s)
  | .await c k, s => (.await c k, s)
  | .sync o k, s => (k (H.compute pid o s).1).settle H pid (H.compute pid o s).2

theorem parked_settle (H : Host A E S Reply) (pid : Nat) :
    ∀ (p : Prog A E α) (s : S), (p.settle H pid s).1.Parked := by
  intro p
  induction p with
  | ret a => intro s; exact trivial
  | fail e => intro s; exact trivial
  | await c k _ => intro s; exact trivial
  | sync o k ih => intro s; exact ih _ _

/-- What every operation keeps holds at the next await. -/
theorem settle_inv {H : Host A E S Reply} {pid : Nat} {J : S → Prop}
    (h : ∀ o s, J s → J (H.compute pid o s).2) :
    ∀ (p : Prog A E α) (s : S), J s → J (p.settle H pid s).2 := by
  intro p
  induction p with
  | ret a => exact fun s hs => hs
  | fail e => exact fun s hs => hs
  | await c k _ => exact fun s hs => hs
  | sync o k ih => exact fun s hs => ih _ _ (h o s hs)

/-- What no operation changes is the same at the next await. -/
theorem settle_keeps {H : Host A E S Reply} {pid : Nat} {f : S → β}
    (h : ∀ o s, f (H.compute pid o s).2 = f s) (p : Prog A E α) (s : S) :
    f (p.settle H pid s).2 = f s :=
  settle_inv (J := fun s' => f s' = f s) (fun o s' hs => (h o s').trans hs) p s rfl

/-- Run a program alone, one reply for each command it awaits. -/
def runAlone (H : Host A E S Reply) (pid : Nat) :
    Prog A E α → List Reply → S → Option (Except E α × S)
  | .ret a, [], s => some (.ok a, s)
  | .ret _, _ :: _, _ => none
  | .fail e, [], s => some (.error e, s)
  | .fail _, _ :: _, _ => none
  | .await _ _, [], _ => none
  | .await c k, r :: rs, s =>
    match H.perform pid c r s with
    | none => none
    | some (x, s') => (k x).runAlone H pid rs s'
  | .sync o k, rs, s => (k (H.compute pid o s).1).runAlone H pid rs (H.compute pid o s).2

variable {H : Host A E S Reply} {pid : Nat} {rs : List Reply} {s s' : S}

theorem runAlone_ret {a : α} {x : Except E α} (h : (Prog.ret a).runAlone H pid rs s = some (x, s')) :
    rs = [] ∧ x = .ok a ∧ s' = s := by
  cases rs with
  | nil =>
    obtain ⟨rfl, rfl⟩ := Prod.mk.inj (Option.some.inj h)
    exact ⟨rfl, rfl, rfl⟩
  | cons r rs => cases h

theorem runAlone_fail {e : E} {x : Except E α}
    (h : (Prog.fail e).runAlone H pid rs s = some (x, s')) : rs = [] ∧ x = .error e ∧ s' = s := by
  cases rs with
  | nil =>
    obtain ⟨rfl, rfl⟩ := Prod.mk.inj (Option.some.inj h)
    exact ⟨rfl, rfl, rfl⟩
  | cons r rs => cases h

/-- One thing after the other: the second runs on the rest of the replies. -/
theorem runAlone_bind {p : Prog A E α} {f : α → Prog A E β} {x : Except E β} :
    ∀ {rs : List Reply} {s : S}, (p.bind f).runAlone H pid rs s = some (x, s') →
      (∃ rs₁ rs₂ a s₁, rs = rs₁ ++ rs₂ ∧ p.runAlone H pid rs₁ s = some (.ok a, s₁) ∧
        (f a).runAlone H pid rs₂ s₁ = some (x, s')) ∨
      ∃ e, x = .error e ∧ p.runAlone H pid rs s = some (.error e, s') := by
  induction p with
  | ret a => exact fun {rs s} h => Or.inl ⟨[], rs, a, s, rfl, rfl, h⟩
  | fail e =>
    intro rs s h
    obtain ⟨rfl, rfl, rfl⟩ := runAlone_fail h
    exact Or.inr ⟨e, rfl, rfl⟩
  | await c k ih =>
    intro rs s h
    cases rs with
    | nil => cases h
    | cons r rs =>
      simp only [bind, runAlone] at h ⊢
      cases hp : H.perform pid c r s with
      | none => simp [hp] at h
      | some xs =>
        simp only [hp] at h
        rcases ih _ h with ⟨rs₁, rs₂, a, s₁, rfl, h₁, h₂⟩ | ⟨e, rfl, h₁⟩
        · refine Or.inl ⟨r :: rs₁, rs₂, a, s₁, rfl, ?_, h₂⟩
          simp only [runAlone, hp]
          exact h₁
        · exact Or.inr ⟨e, rfl, h₁⟩
  | sync o k ih => exact fun {rs s} h => ih _ h

/-- `try p catch e => h e`: the handler runs on the rest of the replies. -/
theorem runAlone_handle {p : Prog A E α} {h : E → Prog A E α} {x : Except E α} :
    ∀ {rs : List Reply} {s : S}, (p.handle h).runAlone H pid rs s = some (x, s') →
      (∃ a, x = .ok a ∧ p.runAlone H pid rs s = some (.ok a, s')) ∨
      ∃ rs₁ rs₂ e s₁, rs = rs₁ ++ rs₂ ∧ p.runAlone H pid rs₁ s = some (.error e, s₁) ∧
        (h e).runAlone H pid rs₂ s₁ = some (x, s') := by
  induction p with
  | ret a =>
    intro rs s h
    obtain ⟨rfl, rfl, rfl⟩ := runAlone_ret h
    exact Or.inl ⟨a, rfl, rfl⟩
  | fail e => exact fun {rs s} h => Or.inr ⟨[], rs, e, s, rfl, rfl, h⟩
  | await c k ih =>
    intro rs s h
    cases rs with
    | nil => cases h
    | cons r rs =>
      simp only [handle, runAlone] at h ⊢
      cases hp : H.perform pid c r s with
      | none => simp [hp] at h
      | some xs =>
        simp only [hp] at h
        rcases ih _ h with ⟨a, rfl, h₁⟩ | ⟨rs₁, rs₂, e, s₁, rfl, h₁, h₂⟩
        · exact Or.inl ⟨a, rfl, h₁⟩
        · refine Or.inr ⟨r :: rs₁, rs₂, e, s₁, rfl, ?_, h₂⟩
          simp only [runAlone, hp]
          exact h₁
  | sync o k ih => exact fun {rs s} h => ih _ h

theorem runAlone_call {c : A.Cmd} {x : Except E (A.Res c)}
    (h : (call c).runAlone H pid rs s = some (x, s')) :
    ∃ r, rs = [r] ∧ H.perform pid c r s = some (x, s') := by
  cases rs with
  | nil => cases h
  | cons r rs =>
    rw [call, runAlone] at h
    split at h
    · cases h
    · rename_i y s₁ hp
      cases y with
      | ok a =>
        obtain ⟨rfl, rfl, rfl⟩ := runAlone_ret h
        exact ⟨r, rfl, hp⟩
      | error e =>
        obtain ⟨rfl, rfl, rfl⟩ := runAlone_fail h
        exact ⟨r, rfl, hp⟩

/-- Run a program alone, one and the same reply for each command it awaits. -/
def runWith (H : Host A E S Reply) (pid : Nat) (r : Reply) : Prog A E α → S → Option (Except E α × S)
  | .ret a, s => some (.ok a, s)
  | .fail e, s => some (.error e, s)
  | .await c k, s =>
    match H.perform pid c r s with
    | none => none
    | some (x, s') => (k x).runWith H pid r s'
  | .sync o k, s => (k (H.compute pid o s).1).runWith H pid r (H.compute pid o s).2

theorem runAlone_of_runWith {r : Reply} {p : Prog A E α} {x : Except E α} :
    ∀ {s : S}, p.runWith H pid r s = some (x, s') →
      ∃ n, p.runAlone H pid (List.replicate n r) s = some (x, s') := by
  induction p with
  | ret a => exact fun h => ⟨0, h⟩
  | fail e => exact fun h => ⟨0, h⟩
  | await c k ih =>
    intro s h
    rw [runWith] at h
    cases hp : H.perform pid c r s with
    | none => simp [hp] at h
    | some xs =>
      simp only [hp] at h
      obtain ⟨n, hn⟩ := ih _ h
      refine ⟨n + 1, ?_⟩
      simp only [List.replicate_succ, runAlone, hp]
      exact hn
  | sync o k ih => exact fun h => ih _ h

/-- One thing after the other. -/
theorem runWith_bind {r : Reply} (p : Prog A E α) (f : α → Prog A E β) (s : S) :
    (p.bind f).runWith H pid r s = (p.runWith H pid r s).bind fun xs =>
      match xs.1 with
      | .ok a => (f a).runWith H pid r xs.2
      | .error e => some (.error e, xs.2) := by
  induction p generalizing s with
  | ret a => rfl
  | fail e => rfl
  | await c k ih =>
    simp only [bind, runWith]
    cases H.perform pid c r s with
    | none => rfl
    | some xs => exact ih _ _
  | sync o k ih => exact ih _ _

/-- `try p catch e => h e`. -/
theorem runWith_handle {r : Reply} (p : Prog A E α) (h : E → Prog A E α) (s : S) :
    (p.handle h).runWith H pid r s = (p.runWith H pid r s).bind fun xs =>
      match xs.1 with
      | .ok a => some (.ok a, xs.2)
      | .error e => (h e).runWith H pid r xs.2 := by
  induction p generalizing s with
  | ret a => rfl
  | fail e => rfl
  | await c k ih =>
    simp only [handle, runWith]
    cases H.perform pid c r s with
    | none => rfl
    | some xs => exact ih _ _
  | sync o k ih => exact ih _ _

/-- A command that succeeds, before the rest. -/
theorem runWith_await {r : Reply} {c : A.Cmd} {v : A.Res c} {s₁ : S}
    (h : H.perform pid c r s = some (.ok v, s₁)) (f : A.Res c → Prog A E α) :
    ((call c).bind f).runWith H pid r s = (f v).runWith H pid r s₁ := by
  rw [runWith_bind, call, runWith, h]
  rfl

end Prog

end FullstackSvc.Async
