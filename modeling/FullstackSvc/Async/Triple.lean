import FullstackSvc.Async.RelyGuarantee

/-!
# Triples

`Triple H pid L pre p ok err`: started in `pre`, the program keeps the guarantee
of `L` at every step, returns only in `ok` and throws only in `err`.  The rules
follow the text of a program; what stands between two awaits must be *stable*,
that is kept by everything the others may do.
-/

namespace FullstackSvc.Async

variable {A : Sig} {E S Reply α β : Type}

/-- Kept by the steps of the others. -/
def Ctx.Stable (L : Ctx A S Reply) (I : S → Prop) : Prop :=
  ∀ s s', I s → L.rely s s' → L.inv s' → I s'

/-- The guarantee is closed under doing nothing and one thing after the other,
and keeps the invariant. -/
structure Ctx.Closed (L : Ctx A S Reply) : Prop where
  refl : ∀ s, L.guar s s
  trans : ∀ s s' s'', L.guar s s' → L.guar s' s'' → L.guar s s''
  inv : ∀ s s', L.inv s → L.guar s s' → L.inv s'

/-- What a program does in the context `L` it may do in `L'`, where the others do
less and the guarantee is the same. -/
structure Ctx.Fits (L L' : Ctx A S Reply) : Prop where
  inv : ∀ s, L'.inv s → L.inv s
  rely : ∀ s s', L'.rely s s' → L.rely s s'
  guar : ∀ s s', L'.inv s → (L'.guar s s' ↔ L.guar s s')
  need : ∀ c s, L'.inv s → L.need c s → L'.need c s
  ok : ∀ c r s, L'.ok c r s → L.ok c r s

namespace Prog

theorem wp_of_fits {H : Host A E S Reply} {pid : Nat} {L L' : Ctx A S Reply} (hL : L.Fits L')
    {Q Q' : Except E α → S → S → Prop}
    (hQ : ∀ x s₀ s, L'.inv s₀ → Q x s₀ s → Q' x s₀ s) :
    ∀ (p : Prog A E α) (s₀ s : S), L'.inv s₀ → p.wp H pid L Q s₀ s → p.wp H pid L' Q' s₀ s := by
  intro p
  induction p with
  | ret a => exact fun s₀ s hi h => hQ _ s₀ s hi h
  | fail e => exact fun s₀ s hi h => hQ _ s₀ s hi h
  | await c k ih =>
    rintro s₀ s hi ⟨hg, h⟩
    refine ⟨(hL.guar s₀ s hi).mpr hg, fun s₁ hr hi₁ => ?_⟩
    have h₁ := h s₁ (hL.rely s s₁ hr) (hL.inv s₁ hi₁)
    exact ⟨hL.need c s₁ hi₁ h₁.1, fun r ho x s₂ hx =>
      ih x s₁ s₂ hi₁ (h₁.2 r (hL.ok c r s₁ ho) x s₂ hx)⟩
  | sync o k ih => exact fun s₀ s hi h => ih _ s₀ _ hi h

/-- What a program ends in: `ok` when it returns, `err` when it throws. -/
def Ends (ok : α → S → Prop) (err : E → S → Prop) : Except E α → S → Prop
  | .ok a => ok a
  | .error e => err e

def Triple (H : Host A E S Reply) (pid : Nat) (L : Ctx A S Reply) (pre : S → Prop)
    (p : Prog A E α) (ok : α → S → Prop) (err : E → S → Prop) : Prop :=
  ∀ s₀ s, L.inv s₀ → L.guar s₀ s → pre s →
    p.wp H pid L (fun x s₀ s => L.inv s₀ ∧ L.guar s₀ s ∧ Ends ok err x s) s₀ s

variable {H : Host A E S Reply} {pid : Nat} {L : Ctx A S Reply} {pre : S → Prop}
  {ok : α → S → Prop} {err : E → S → Prop}

theorem Triple.ret {a : α} (h : ∀ s, pre s → ok a s) : Triple H pid L pre (.ret a) ok err :=
  fun _ s hi hg hp => ⟨hi, hg, h s hp⟩

theorem Triple.fail {e : E} (h : ∀ s, pre s → err e s) : Triple H pid L pre (.fail e) ok err :=
  fun _ s hi hg hp => ⟨hi, hg, h s hp⟩

theorem Triple.mono {pre' : S → Prop} {ok' : α → S → Prop} {err' : E → S → Prop}
    {p : Prog A E α} (h : Triple H pid L pre' p ok' err') (hpre : ∀ s, pre s → pre' s)
    (hok : ∀ a s, ok' a s → ok a s) (herr : ∀ e s, err' e s → err e s) :
    Triple H pid L pre p ok err := by
  intro s₀ s hi hg hp
  refine wp_mono ?_ p s₀ s (h s₀ s hi hg (hpre s hp))
  rintro (e | a) s₀ s ⟨hi, hg, hx⟩
  · exact ⟨hi, hg, herr e s hx⟩
  · exact ⟨hi, hg, hok a s hx⟩

/-- In another context. -/
theorem Triple.of_fits {L' : Ctx A S Reply} {p : Prog A E α} (hL : L.Fits L')
    (h : Triple H pid L pre p ok err) : Triple H pid L' pre p ok err := by
  intro s₀ s hi hg hs
  refine wp_of_fits hL ?_ p s₀ s hi (h s₀ s (hL.inv s₀ hi) ((hL.guar s₀ s hi).mp hg) hs)
  exact fun x s₀ s hi hx => ⟨hi, (hL.guar s₀ s hi).mpr hx.2.1, hx.2.2⟩

/-- One thing after the other. -/
theorem Triple.bind {p : Prog A E α} {f : α → Prog A E β} {okf : β → S → Prop}
    (mid : α → S → Prop) (hp : Triple H pid L pre p mid err)
    (hf : ∀ a, Triple H pid L (mid a) (f a) okf err) :
    Triple H pid L pre (p.bind f) okf err := by
  intro s₀ s hi hg hs
  rw [wp_bind]
  refine wp_mono ?_ p s₀ s (hp s₀ s hi hg hs)
  rintro (e | a) s₀ s ⟨hi, hg, hx⟩
  · exact ⟨hi, hg, hx⟩
  · exact hf a s₀ s hi hg hx

/-- `try p catch e => h e`. -/
theorem Triple.handle {p : Prog A E α} {h : E → Prog A E α} (mid : E → S → Prop)
    (hp : Triple H pid L pre p ok mid) (hh : ∀ e, Triple H pid L (mid e) (h e) ok err) :
    Triple H pid L pre (p.handle h) ok err := by
  intro s₀ s hi hg hs
  rw [wp_handle]
  refine wp_mono ?_ p s₀ s (hp s₀ s hi hg hs)
  rintro (e | a) s₀ s ⟨hi, hg, hx⟩
  · exact hh e s₀ s hi hg hx
  · exact ⟨hi, hg, hx⟩

/-- An awaited command, from a precondition that the others keep. -/
theorem Triple.call {c : A.Cmd} {okc : A.Res c → S → Prop} (hpre : L.Stable pre)
    (hneed : ∀ s, L.inv s → pre s → L.need c s)
    (h : ∀ s r x s', L.inv s → pre s → L.ok c r s → H.perform pid c r s = some (x, s') →
      L.guar s s' ∧ Ends okc err x s') :
    Triple H pid L pre (Prog.call c) okc err := by
  intro s₀ s _ hg hs
  refine (wp_call c _ s₀ s).mpr ⟨hg, fun s₁ hr hi => ?_⟩
  have hs₁ := hpre s s₁ hs hr hi
  exact ⟨hneed s₁ hi hs₁, fun r ho x s₂ hx => ⟨hi, h s₁ r x s₂ hi hs₁ ho hx⟩⟩

/-- A synchronous operation. -/
theorem Triple.op {o : A.Op} {oko : A.Val o → S → Prop} (hL : L.Closed)
    (h : ∀ s, L.inv s → pre s → L.guar s (H.compute pid o s).2 ∧
      oko (H.compute pid o s).1 (H.compute pid o s).2) :
    Triple H pid L pre (Prog.op o) oko err := by
  intro s₀ s hi hg hs
  rw [wp_op]
  have ho := h s (hL.inv _ _ hi hg) hs
  exact ⟨hi, hL.trans _ _ _ hg ho.1, ho.2⟩

/-- In a context that asks for nothing, what does not speak of the state holds at the end too. -/
theorem wp_const (hg : ∀ s s', L.guar s s') (hn : ∀ c s, L.need c s) {Q : Except E α → S → S → Prop}
    (hQ : ∀ x s₀ s, Q x s₀ s) : ∀ (p : Prog A E α) (s₀ s : S), p.wp H pid L Q s₀ s := by
  intro p
  induction p with
  | ret a => exact fun s₀ s => hQ _ s₀ s
  | fail e => exact fun s₀ s => hQ _ s₀ s
  | await c k ih =>
    exact fun s₀ s => ⟨hg s₀ s, fun s₁ _ _ => ⟨hn c s₁, fun _ _ x s₂ _ => ih x s₁ s₂⟩⟩
  | sync o k ih => exact fun s₀ s => ih _ s₀ _

/-- A part of the precondition that does not speak of the state. -/
theorem Triple.assume {φ : Prop} {p : Prog A E α} (h : φ → Triple H pid L pre p ok err) :
    Triple H pid L (fun s => φ ∧ pre s) p ok err :=
  fun s₀ s hi hg ⟨hφ, hs⟩ => h hφ s₀ s hi hg hs

/-- **Frame rule.**  What the others keep and no command or operation undoes is
there at the end when it was there at the start. -/
theorem Triple.frame {J : S → Prop} {p : Prog A E α} (hr : ∀ s s', L.rely s s' → J s → J s')
    (hperform : ∀ c r x s s', H.perform pid c r s = some (x, s') → J s → J s')
    (hcompute : ∀ o s, J s → J (H.compute pid o s).2) (h : Triple H pid L pre p ok err) :
    Triple H pid L (fun s => pre s ∧ J s) p (fun a s => ok a s ∧ J s) (fun e s => err e s ∧ J s) := by
  have key : ∀ (p : Prog A E α) (s₀ s : S), J s →
      p.wp H pid L (fun x s₀ s => L.inv s₀ ∧ L.guar s₀ s ∧ Ends ok err x s) s₀ s →
      p.wp H pid L (fun x s₀ s => L.inv s₀ ∧ L.guar s₀ s ∧
        Ends (fun a s => ok a s ∧ J s) (fun e s => err e s ∧ J s) x s) s₀ s := by
    intro p
    induction p with
    | ret a => exact fun s₀ s hJ h => ⟨h.1, h.2.1, h.2.2, hJ⟩
    | fail e => exact fun s₀ s hJ h => ⟨h.1, h.2.1, h.2.2, hJ⟩
    | await c k ih =>
      rintro s₀ s hJ ⟨hg, h⟩
      refine ⟨hg, fun s₁ hs hi => ⟨(h s₁ hs hi).1, fun r ho x s₂ hx => ?_⟩⟩
      exact ih x s₁ s₂ (hperform c r x s₁ s₂ hx (hr s s₁ hs hJ)) ((h s₁ hs hi).2 r ho x s₂ hx)
    | sync o k ih => exact fun s₀ s hJ h => ih _ s₀ _ (hcompute o s hJ) h
  exact fun s₀ s hi hg hs => key p s₀ s hs.2 (h s₀ s hi hg hs.1)

end Prog

variable {H : Host A E S Reply} {P : Service H}

/-- A call whose program has a triple in its context meets its goal. -/
theorem Outline.goal_of_triple {O : Outline P} {pid : Nat} {c : P.Call} {pre : S → Prop}
    (hL : (O.ctx pid c).Closed)
    (h : Prog.Triple H pid (O.ctx pid c) pre (P.body c) (fun a s => O.done pid c (.ok a) s)
      (fun e s => O.done pid c (.error e) s)) {s : S} (hi : O.inv s) (hs : pre s) :
    (P.body c).wp H pid (O.ctx pid c) (O.goal pid c) s s := by
  refine Prog.wp_mono ?_ _ s s (h s s hi (hL.refl s) hs)
  rintro (e | a) s₀ s ⟨-, hg, hx⟩
  · exact ⟨hg, hx⟩
  · exact ⟨hg, hx⟩

end FullstackSvc.Async
