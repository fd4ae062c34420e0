import FullstackSvc.Async.Trace

/-!
# A call that is left alone

When nothing happens between the steps of a process, its run in the pool is the run of its
program alone.

* `runWith_bind_ok`, `runWith_bind_error`, `runWith_handle_ok`, `runWith_handle_error`: a run with
  one reply, along the text of a program.
* `run_of_runAlone`: **such a run is one of the pool**, the call and then the replies.
-/

namespace FullstackSvc.Async

variable {A : Sig} {E S Reply α β : Type} {H : Host A E S Reply} {pid : Nat} {r : Reply}
  {s s₁ s' : S}

namespace Prog

theorem runWith_bind_ok {p : Prog A E α} {a : α} (h : p.runWith H pid r s = some (.ok a, s₁))
    (f : α → Prog A E β) : (p.bind f).runWith H pid r s = (f a).runWith H pid r s₁ := by
  rw [runWith_bind, h]
  rfl

theorem runWith_bind_error {p : Prog A E α} {e : E}
    (h : p.runWith H pid r s = some (.error e, s₁)) (f : α → Prog A E β) :
    (p.bind f).runWith H pid r s = some (.error e, s₁) := by
  rw [runWith_bind, h]
  rfl

theorem runWith_handle_ok {p : Prog A E α} {a : α} (h : p.runWith H pid r s = some (.ok a, s₁))
    (f : E → Prog A E α) : (p.handle f).runWith H pid r s = some (.ok a, s₁) := by
  rw [runWith_handle, h]
  rfl

theorem runWith_handle_error {p : Prog A E α} {e : E}
    (h : p.runWith H pid r s = some (.error e, s₁)) (f : E → Prog A E α) :
    (p.handle f).runWith H pid r s = (f e).runWith H pid r s₁ := by
  rw [runWith_handle, h]
  rfl

/-- What no command and no operation reads plays no part in a run. -/
theorem runWith_of_rel {R : S → S → Prop}
    (hperform : ∀ {c x s t s'}, H.perform pid c r s = some (x, s') → R s t →
      ∃ t', H.perform pid c r t = some (x, t') ∧ R s' t')
    (hcompute : ∀ {o s t}, R s t → (H.compute pid o t).1 = (H.compute pid o s).1 ∧
      R (H.compute pid o s).2 (H.compute pid o t).2) {p : Prog A E α} {x : Except E α} :
    ∀ {s t : S}, p.runWith H pid r s = some (x, s') → R s t →
      ∃ t', p.runWith H pid r t = some (x, t') ∧ R s' t' := by
  induction p with
  | ret a =>
    intro s t h hR
    obtain ⟨rfl, rfl⟩ := Prod.mk.inj (Option.some.inj h)
    exact ⟨t, rfl, hR⟩
  | fail e =>
    intro s t h hR
    obtain ⟨rfl, rfl⟩ := Prod.mk.inj (Option.some.inj h)
    exact ⟨t, rfl, hR⟩
  | await c k ih =>
    intro s t h hR
    rw [runWith] at h ⊢
    cases hp : H.perform pid c r s with
    | none => simp [hp] at h
    | some xs =>
      simp only [hp] at h
      obtain ⟨t₁, ht, hR₁⟩ := hperform hp hR
      rw [ht]
      exact ih _ h hR₁
  | sync o k ih =>
    intro s t h hR
    obtain ⟨hval, hR₁⟩ := hcompute (o := o) hR
    rw [runWith, hval]
    exact ih _ h hR₁

/-- The first reply is another one than the rest. -/
theorem runAlone_await {c : A.Cmd} {v : A.Res c} {x : Except E α} {f : A.Res c → Prog A E α}
    {r' : Reply} (h : H.perform pid c r' s = some (.ok v, s₁))
    (hf : (f v).runWith H pid r s₁ = some (x, s')) :
    ∃ k, ((call c).bind f).runAlone H pid (r' :: List.replicate k r) s = some (x, s') := by
  obtain ⟨k, hk⟩ := runAlone_of_runWith hf
  refine ⟨k, ?_⟩
  rw [call, bind, runAlone, h]
  exact hk

end Prog

namespace Service

variable {P : Service H}

/-- The rest of a process that is left alone. -/
theorem resumes_of_runAlone {c : P.Call} {x : Except E (P.Ret c)} {p : Prog A E (P.Ret c)} :
    ∀ {rs : List Reply} {s : S} (procs : List P.Proc), pid < procs.length →
      p.runAlone H pid rs s = some (x, s') →
      run ⟨(p.settle H pid s).2, procs.set pid ⟨c, (p.settle H pid s).1, true⟩⟩
          (rs.map (.resume pid)) = some ⟨s', procs.set pid ⟨c, Prog.ended x, true⟩⟩ := by
  induction p with
  | ret a =>
    intro rs s procs hlt h
    obtain ⟨rfl, rfl, rfl⟩ := Prog.runAlone_ret h
    rfl
  | fail e =>
    intro rs s procs hlt h
    obtain ⟨rfl, rfl, rfl⟩ := Prog.runAlone_fail h
    rfl
  | sync o k ih => exact fun procs hlt h => ih _ procs hlt h
  | await d k ih =>
    intro rs s procs hlt h
    cases rs with
    | nil => cases h
    | cons r rs =>
      rw [Prog.runAlone] at h
      cases hp : H.perform pid d r s with
      | none => simp [hp] at h
      | some xs =>
        simp only [hp] at h
        have hrest := ih xs.1 (procs.set pid ⟨c, .await d k, true⟩)
          (by rw [List.length_set]; exact hlt) h
        have hget : (procs.set pid (⟨c, .await d k, true⟩ : P.Proc))[pid]? =
            some ⟨c, .await d k, true⟩ := List.getElem?_set_self hlt
        rw [List.map_cons, run]
        simp only [Prog.settle, step, hget, Proc.wake, hp]
        rw [List.set_set] at hrest ⊢
        rw [List.set_set] at hrest
        exact hrest

/-- **A call that is left alone** runs as its program does alone. -/
theorem run_of_runAlone {σ : P.Sys} {c : P.Call} {x : Except E (P.Ret c)} {rs : List Reply}
    (ha : P.accept σ.procs.length c σ.shared = some s)
    (h : (P.body c).runAlone H σ.procs.length rs s = some (x, s')) :
    run σ (.call c :: rs.map (.resume σ.procs.length)) =
      some ⟨s', σ.procs ++ [⟨c, Prog.ended x, true⟩]⟩ := by
  have hlt : σ.procs.length < (σ.procs ++ [(launch σ.procs.length c s).1]).length := by simp
  have hrun := resumes_of_runAlone _ hlt h
  rw [run]
  simp only [step, ha]
  have hset : ∀ p q : P.Proc, (σ.procs ++ [p]).set σ.procs.length q = σ.procs ++ [q] := by
    intro p q
    rw [List.set_append_right _ _ (Nat.le_refl _), Nat.sub_self]
    rfl
  rw [hset, hset] at hrun
  exact hrun

end Service

end FullstackSvc.Async
