import Mathlib.Data.List.Pairwise
import FullstackSvc.Async.Triple
import FullstackSvc.Registration.World

/-!
# One user for an email

Nothing but the check of `register` keeps a second row for an email out of the
table, and two checks that both come before the first commit find nobody.
`Serial` is the condition that rules this out: no registration checks an email
that another one has found free and not yet committed.

* `Sound`: what is being registered is free, and no two processes register
  equal emails.
* `proves_register`: what a registration has achieved when it is over.
* `emails_unique`: in such runs an email has one row at most, and of its
  registrations exactly one succeeds.
-/

namespace FullstackSvc.Registration

open Text Async

variable {C : Config} {pid pid' : Nat} {s s' s'' : World}

/-- Process `pid` drew the id. -/
abbrev World.Owns (C : Config) (s : World) (pid : Nat) (id : JsString) : Prop :=
  C.ulid.Drew s.drawnBy pid id

/-- Somebody has the email. -/
def World.Taken (C : Config) (s : World) (email : JsString) : Prop :=
  ∃ user ∈ s.users, C.sameText user.email email = true

/-! ### The invariant -/

structure Sound (C : Config) (s : World) : Prop where
  drawers : ∀ p ∈ s.drawnBy, p < s.calls.length
  origin : ∀ user ∈ s.users, ∃ pid email password, s.calls[pid]? = some (.register email password) ∧
    s.Owns C pid user.id ∧ user.email = email
  unique : s.users.Pairwise fun u v => C.sameText u.email v.email = false
  free : ∀ x ∈ s.checked, ¬ s.Taken C x.2
  apart : ∀ x ∈ s.checked, ∀ y ∈ s.checked, x.1 ≠ y.1 → C.sameText x.2 y.2 = false

/-- What a process may do. -/
structure Guar (C : Config) (pid : Nat) (s s' : World) : Prop where
  sound : Sound C s → Sound C s'
  drawn : ∃ l, s'.drawnBy = s.drawnBy ++ l ∧ ∀ p ∈ l, p = pid
  calls : s'.calls = s.calls
  users : ∃ l, s'.users = s.users ++ l ∧ ∀ user ∈ l, s'.Owns C pid user.id
  transactions : ∀ p ≠ pid, s'.transactions p = s.transactions p
  checked : ∀ x : Nat × JsString, x.1 ≠ pid → (x ∈ s'.checked ↔ x ∈ s.checked)

/-- What a process may count on. -/
structure Rely (C : Config) (pid : Nat) (s s' : World) : Prop where
  drawn : ∃ l, s'.drawnBy = s.drawnBy ++ l ∧ pid ∉ l
  calls : ∃ l, s'.calls = s.calls ++ l
  users : ∃ l, s'.users = s.users ++ l ∧ ∀ user ∈ l, ¬ s'.Owns C pid user.id
  transaction : s'.transactions pid = s.transactions pid
  checked : ∀ email, (pid, email) ∈ s'.checked ↔ (pid, email) ∈ s.checked

theorem Rely.refl : Rely C pid s s :=
  ⟨⟨[], by simp⟩, ⟨[], by simp⟩, ⟨[], by simp⟩, rfl, fun _ => Iff.rfl⟩

theorem Guar.refl : Guar C pid s s :=
  ⟨id, ⟨[], by simp⟩, rfl, ⟨[], by simp⟩, fun _ _ => rfl, fun _ _ => Iff.rfl⟩

theorem Rely.trans (h : Rely C pid s s') (h' : Rely C pid s' s'') : Rely C pid s s'' := by
  obtain ⟨l, hl, hn⟩ := h.drawn
  obtain ⟨m, hm, hn'⟩ := h'.drawn
  obtain ⟨l₁, hc⟩ := h.calls
  obtain ⟨m₁, hc'⟩ := h'.calls
  obtain ⟨l₂, hu, ho⟩ := h.users
  obtain ⟨m₂, hu', ho'⟩ := h'.users
  refine ⟨⟨l ++ m, by rw [hm, hl, List.append_assoc], ?_⟩,
    ⟨l₁ ++ m₁, by rw [hc', hc, List.append_assoc]⟩,
    ⟨l₂ ++ m₂, by rw [hu', hu, List.append_assoc], fun user hm₂ hown => ?_⟩,
    h'.transaction.trans h.transaction, fun email => (h'.checked email).trans (h.checked email)⟩
  · rw [List.mem_append, not_or]
    exact ⟨hn, hn'⟩
  · rcases List.mem_append.mp hm₂ with hmem | hmem
    · rw [World.Owns, hm] at hown
      exact ho user hmem (hown.of_append hn')
    · exact ho' user hmem hown

theorem Guar.trans (h : Guar C pid s s') (h' : Guar C pid s' s'') : Guar C pid s s'' := by
  obtain ⟨l, hl, hn⟩ := h.drawn
  obtain ⟨m, hm, hn'⟩ := h'.drawn
  obtain ⟨l₂, hu, ho⟩ := h.users
  obtain ⟨m₂, hu', ho'⟩ := h'.users
  refine ⟨fun hs => h'.sound (h.sound hs), ⟨l ++ m, by rw [hm, hl, List.append_assoc], ?_⟩,
    h'.calls.trans h.calls, ⟨l₂ ++ m₂, by rw [hu', hu, List.append_assoc], ?_⟩,
    fun p hp => (h'.transactions p hp).trans (h.transactions p hp),
    fun x hx => (h'.checked x hx).trans (h.checked x hx)⟩
  · intro p hp
    rcases List.mem_append.mp hp with hp | hp
    · exact hn p hp
    · exact hn' p hp
  · intro user hmem
    rcases List.mem_append.mp hmem with hmem | hmem
    · rw [World.Owns, hm]
      exact (ho user hmem).mono m
    · exact ho' user hmem

/-- **What one process may do is what the others count on.** -/
theorem Guar.rely (h : Guar C pid s s') (hne : pid ≠ pid') : Rely C pid' s s' := by
  obtain ⟨l, hl, hn⟩ := h.drawn
  obtain ⟨m, hm, ho⟩ := h.users
  exact ⟨⟨l, hl, fun hmem => hne (hn pid' hmem).symm⟩, ⟨[], by rw [h.calls, List.append_nil]⟩,
    ⟨m, hm, fun user hmem hown => hne ((ho user hmem).unique hown)⟩,
    h.transactions pid' hne.symm, fun email => h.checked (pid', email) hne.symm⟩

theorem World.Taken.mono {email : JsString} {l : List User} (h : s.Taken C email)
    (hu : s'.users = s.users ++ l) : s'.Taken C email := by
  obtain ⟨user, hmem, hsame⟩ := h
  exact ⟨user, by rw [hu]; exact List.mem_append_left _ hmem, hsame⟩

/-! ### Steps -/

/-- A step that touches no record but to take something from `checked`. -/
theorem guar_quiet (hd : s'.drawnBy = s.drawnBy) (hc : s'.calls = s.calls)
    (hu : s'.users = s.users) (ht : ∀ p ≠ pid, s'.transactions p = s.transactions p)
    (hsub : ∀ x ∈ s'.checked, x ∈ s.checked)
    (hkept : ∀ x ∈ s.checked, x.1 ≠ pid → x ∈ s'.checked) : Guar C pid s s' where
  sound h :=
    { drawers := by
        rw [hd, hc]
        exact h.drawers
      origin := by
        simp only [World.Owns, hd, hc, hu]
        exact h.origin
      unique := hu ▸ h.unique
      free := fun x hx => by
        rw [World.Taken, hu]
        exact h.free x (hsub x hx)
      apart := fun x hx y hy => h.apart x (hsub x hx) y (hsub y hy) }
  drawn := ⟨[], by rw [hd, List.append_nil], fun _ hp => by cases hp⟩
  calls := hc
  users := ⟨[], by rw [hu, List.append_nil], fun _ hm => by cases hm⟩
  transactions := ht
  checked x hx := ⟨hsub x, fun h => hkept x h hx⟩

theorem guar_setTransaction (t : Transaction) : Guar C pid s (s.setTransaction pid t) :=
  guar_quiet rfl rfl rfl (fun _ hp => Function.update_of_ne hp _ _) (fun _ h => h) fun _ h _ => h

theorem guar_leave : Guar C pid s (s.leave pid) :=
  guar_quiet rfl rfl rfl (fun _ _ => rfl) (fun _ h => (List.mem_filter.mp h).1)
    fun _ h hx => List.mem_filter.mpr ⟨h, decide_eq_true hx⟩

theorem guar_draw (hpid : pid < s.calls.length) :
    Guar C pid s { s with drawnBy := s.drawnBy ++ [pid] } where
  sound h :=
    { drawers := fun p hp => by
        rcases List.mem_append.mp hp with hp | hp
        · exact h.drawers p hp
        · rw [List.mem_singleton.mp hp]
          exact hpid
      origin := fun user hm => by
        obtain ⟨p, email, password, hc, ho, he⟩ := h.origin user hm
        exact ⟨p, email, password, hc, ho.mono [pid], he⟩
      unique := h.unique
      free := h.free
      apart := h.apart }
  drawn := ⟨[pid], rfl, fun _ hp => List.mem_singleton.mp hp⟩
  calls := rfl
  users := ⟨[], by simp⟩
  transactions _ _ := rfl
  checked _ _ := Iff.rfl

/-- **A check that finds nobody** comes when nobody else has found the email
free. -/
theorem guar_look {email : JsString} (ht : s.transactions pid = ⟨none, []⟩)
    (hserial : ∀ x ∈ s.checked, x.1 ≠ pid → C.sameText x.2 email = false) :
    Guar C pid s (s.look C pid email) := by
  have hothers : ∀ p ≠ pid, (s.look C pid email).transactions p = s.transactions p :=
    fun p hp => Function.update_of_ne hp _ _
  cases hf : s.findUser C pid email with
  | some user =>
    have hchecked : (s.look C pid email).checked = s.checked := by
      show (if (s.findUser C pid email).isNone then _ else _) = _
      rw [hf]
      rfl
    exact guar_quiet rfl rfl rfl hothers (fun x hx => hchecked ▸ hx) fun x hx _ => hchecked ▸ hx
  | none =>
    have hchecked : (s.look C pid email).checked = s.checked ++ [(pid, email)] := by
      show (if (s.findUser C pid email).isNone then _ else _) = _
      rw [hf]
      rfl
    have hfree : ¬ s.Taken C email := by
      rintro ⟨user, hm, hsame⟩
      rw [World.findUser, World.visible, ht, List.find?_eq_none] at hf
      exact hf user (List.mem_append_left _ hm) hsame
    have hsymm : ∀ a b, C.sameText a b = false → C.sameText b a = false := by
      intro a b h
      rw [Bool.eq_false_iff] at h ⊢
      exact fun h' => h (C.same.symm h')
    refine ⟨fun h => ⟨h.drawers, h.origin, h.unique, fun x hx => ?_, fun x hx y hy hne => ?_⟩,
      ⟨[], by simp [World.look, World.setTransaction]⟩, rfl,
      ⟨[], by simp [World.look, World.setTransaction]⟩, hothers, fun x hx => ?_⟩
    · rw [hchecked] at hx
      rcases List.mem_append.mp hx with hx | hx
      · exact h.free x hx
      · rw [List.mem_singleton.mp hx]
        exact hfree
    · rw [hchecked] at hx hy
      rcases List.mem_append.mp hx with hx | hx
      · rcases List.mem_append.mp hy with hy | hy
        · exact h.apart x hx y hy hne
        · obtain rfl := List.mem_singleton.mp hy
          exact hserial x hx hne
      · obtain rfl := List.mem_singleton.mp hx
        rcases List.mem_append.mp hy with hy | hy
        · exact hsymm _ _ (hserial y hy hne.symm)
        · obtain rfl := List.mem_singleton.mp hy
          exact absurd rfl hne
    · rw [hchecked, List.mem_append, List.mem_singleton]
      refine ⟨fun h => h.resolve_right fun he => hx (congrArg Prod.fst he), Or.inl⟩

/-- **A commit** of a row whose email is still free. -/
theorem guar_commit {row : User} {password : JsString}
    (hcall : s.calls[pid]? = some (.register row.email password))
    (hrows : (s.transactions pid).rows = [row]) (hchecked : (pid, row.email) ∈ s.checked)
    (howns : s.Owns C pid row.id) : Guar C pid s (s.commit pid) := by
  have husers : (s.commit pid).users = s.users ++ [row] := by rw [World.commit, hrows]
  have hmem : ∀ x, x ∈ (s.commit pid).checked ↔ x ∈ s.checked ∧ x.1 ≠ pid := by
    intro x
    show x ∈ s.checked.filter (fun x => x.1 ≠ pid) ↔ _
    rw [List.mem_filter, decide_eq_true_eq]
  refine ⟨fun h => ⟨h.drawers, fun user hm => ?_, ?_, fun x hx => ?_, fun x hx y hy => ?_⟩,
    ⟨[], by simp [World.commit, World.leave, World.setTransaction]⟩, rfl,
    ⟨[row], husers, fun user hm => ?_⟩, fun p hp => Function.update_of_ne hp _ _,
    fun x hx => ?_⟩
  · rw [husers] at hm
    rcases List.mem_append.mp hm with hm | hm
    · exact h.origin user hm
    · rw [List.mem_singleton.mp hm]
      exact ⟨pid, row.email, password, hcall, howns, rfl⟩
  · rw [husers, List.pairwise_append]
    refine ⟨h.unique, List.pairwise_singleton _ _, fun user hm row' hr => ?_⟩
    rw [List.mem_singleton.mp hr, Bool.eq_false_iff]
    exact fun hsame => h.free _ hchecked ⟨user, hm, hsame⟩
  · obtain ⟨hx, hne⟩ := (hmem x).mp hx
    rintro ⟨user, hm, hsame⟩
    rw [husers] at hm
    rcases List.mem_append.mp hm with hm | hm
    · exact h.free x hx ⟨user, hm, hsame⟩
    · rw [List.mem_singleton.mp hm] at hsame
      rw [h.apart _ hchecked x hx hne.symm] at hsame
      cases hsame
  · exact h.apart x ((hmem x).mp hx).1 y ((hmem y).mp hy).1
  · rw [List.mem_singleton.mp hm]
    exact howns
  · rw [hmem]
    exact ⟨fun h => h.1, fun h => ⟨h, hx⟩⟩

/-! ### The outline -/

/-- The email of a check. -/
def Cmd.checks : Cmd → Option JsString
  | .findOneBy email => some email
  | _ => none

/-- Nobody else has found the email free that the command checks. -/
def Alone (C : Config) (pid : Nat) (c : Cmd) (s : World) : Prop :=
  ∀ email ∈ c.checks, ∀ x ∈ s.checked, x.1 ≠ pid → C.sameText x.2 email = false

instance (c : Cmd) : Decidable (Alone C pid c s) :=
  inferInstanceAs (Decidable (∀ email ∈ c.checks, ∀ x ∈ s.checked, x.1 ≠ pid →
    C.sameText x.2 email = false))

/-- No registration checks an email that another one has found free, and has
neither committed nor given up. -/
def Serial (σ : (service C).Sys) : (service C).Event → Prop
  | .resume pid r => r = .done → ∀ c ∈ σ.pending pid, Alone C pid c σ.shared
  | _ => True

instance (σ : (service C).Sys) : (e : (service C).Event) → Decidable (Serial σ e)
  | .resume pid r =>
    inferInstanceAs (Decidable (r = .done → ∀ c ∈ σ.pending pid, Alone C pid c σ.shared))
  | .call _ => isTrue trivial
  | .env _ => isTrue trivial
  | .kill _ => isTrue trivial

/-- The record of requests is that of the processes. -/
def Linked (σ : (service C).Sys) : Prop := σ.shared.calls = σ.procs.map Service.Proc.call

/-- A process that has not added a row. -/
def Unborn (C : Config) (pid : Nat) (s : World) : Prop := ∀ user ∈ s.users, ¬ s.Owns C pid user.id

/-- What a registration has achieved: a row of its own, or none. -/
def Registered (C : Config) (pid : Nat) (email : JsString) : Except JsError User → World → Prop
  | .ok user, s => user ∈ s.users ∧ s.Owns C pid user.id ∧ user.email = email
  | .error e, s => Unborn C pid s ∧ (e = emailTaken → s.Taken C email)

def outline (C : Config) : Outline (service C) where
  ok σ e := Linked σ ∧ Serial σ e
  cmdOk pid c r s := r = .done → Alone C pid c s
  inv := Sound C
  rely pid _ := Rely C pid
  guar pid _ := Guar C pid
  need pid _ _ := Unborn C pid
  change _ _ := True
  done pid
    | .register email _, x, s => Registered C pid email x s

theorem Unborn.rely (h : Unborn C pid s) (hr : Rely C pid s s') : Unborn C pid s' := by
  obtain ⟨l, hl, hn⟩ := hr.drawn
  obtain ⟨m, hm, ho⟩ := hr.users
  intro user hmem hown
  rw [hm] at hmem
  rcases List.mem_append.mp hmem with hmem | hmem
  · rw [World.Owns, hl] at hown
    exact h user hmem (hown.of_append hn)
  · exact ho user hmem hown

theorem Registered.rely {email : JsString} {x : Except JsError User} (h : Registered C pid email x s)
    (hr : Rely C pid s s') : Registered C pid email x s' := by
  obtain ⟨l, hl, -⟩ := hr.drawn
  obtain ⟨m, hm, -⟩ := hr.users
  cases x with
  | ok user =>
    refine ⟨hm ▸ List.mem_append_left _ h.1, ?_, h.2.2⟩
    rw [World.Owns, hl]
    exact h.2.1.mono l
  | error e => exact ⟨h.1.rely hr, fun he => (h.2 he).mono hm⟩

theorem closed_outline {c : Request} : ((outline C).ctx pid c).Closed where
  refl _ := .refl
  trans _ _ _ := .trans
  inv _ _ hi hg := hg.sound hi

/-! ### One registration -/

section Registration

variable {email password : JsString}

abbrev Proves (C : Config) (pid : Nat) (email password : JsString) {α : Type} (pre : World → Prop)
    (p : Program α) (ok : α → World → Prop) (err : JsError → World → Prop) : Prop :=
  Prog.Triple (host C) pid ((outline C).ctx pid (.register email password)) pre p ok err

/-- A registration that has not added a row. -/
structure Registering (C : Config) (pid : Nat) (email password : JsString) (s : World) : Prop where
  call : s.calls[pid]? = some (.register email password)
  unborn : Unborn C pid s

theorem Registering.rely (h : Registering C pid email password s) (hr : Rely C pid s s') :
    Registering C pid email password s' := by
  obtain ⟨l, hl⟩ := hr.calls
  refine ⟨?_, h.unborn.rely hr⟩
  rw [hl, List.getElem?_append_left (List.getElem?_eq_some_iff.mp h.call).1]
  exact h.call

/-- A step of its own that adds no row. -/
theorem Registering.own (h : Registering C pid email password s) (hd : s'.drawnBy = s.drawnBy)
    (hc : s'.calls = s.calls) (hu : s'.users = s.users) : Registering C pid email password s' := by
  refine ⟨hc ▸ h.call, fun user hm hown => ?_⟩
  rw [hu] at hm
  rw [World.Owns, hd] at hown
  exact h.unborn user hm hown

/-- In an open transaction that has not looked yet. -/
def Opened (C : Config) (pid : Nat) (email password : JsString) (s : World) : Prop :=
  Registering C pid email password s ∧ s.transactions pid = ⟨none, []⟩

/-- The email is free, and nothing is inserted. -/
def Checked (C : Config) (pid : Nat) (email password : JsString) (s : World) : Prop :=
  Registering C pid email password s ∧ (s.transactions pid).rows = [] ∧ (pid, email) ∈ s.checked

/-- The row is inserted. -/
def Adding (C : Config) (pid : Nat) (email password : JsString) (row : User) (s : World) : Prop :=
  Registering C pid email password s ∧ (s.transactions pid).rows = [row] ∧
    (pid, email) ∈ s.checked ∧ row.email = email ∧ s.Owns C pid row.id

/-- The error is known, and nothing will be committed. -/
def Refused (C : Config) (pid : Nat) (email password : JsString) (e : JsError) (s : World) : Prop :=
  Registering C pid email password s ∧ (e = emailTaken → s.Taken C email)

/-- Kept by what the others do. -/
theorem stable_registering :
    ((outline C).ctx pid (.register email password)).Stable (Registering C pid email password) :=
  fun _ _ h hr _ => h.rely hr

theorem stable_opened :
    ((outline C).ctx pid (.register email password)).Stable (Opened C pid email password) :=
  fun _ _ h hr _ => ⟨h.1.rely hr, hr.transaction.trans h.2⟩

theorem stable_checked :
    ((outline C).ctx pid (.register email password)).Stable (Checked C pid email password) := by
  rintro s s' ⟨hreg, hrows, hchecked⟩ hr -
  exact ⟨hreg.rely hr, hr.transaction.symm ▸ hrows, (hr.checked email).mpr hchecked⟩

theorem stable_adding {row : User} :
    ((outline C).ctx pid (.register email password)).Stable (Adding C pid email password row) := by
  rintro s s' ⟨hreg, hrows, hchecked, he, howns⟩ hr -
  obtain ⟨l, hl, -⟩ := hr.drawn
  refine ⟨hreg.rely hr, hr.transaction.symm ▸ hrows, (hr.checked email).mpr hchecked, he, ?_⟩
  rw [World.Owns, hl]
  exact howns.mono l

theorem stable_refused {e : JsError} :
    ((outline C).ctx pid (.register email password)).Stable (Refused C pid email password e) := by
  rintro s s' ⟨hreg, htaken⟩ hr -
  obtain ⟨l, hl, -⟩ := hr.users
  exact ⟨hreg.rely hr, fun he => (htaken he).mono hl⟩

/-- A call that fails leaves nothing behind. -/
theorem refused_of_fails {c : Cmd} {name message : JsString} {x : Except JsError (sig.Res c)}
    (h : Registering C pid email password s)
    (hx : perform C pid c (.fails name message) s = some (x, s')) :
    ∃ e, x = .error e ∧ Guar C pid s s' ∧ Refused C pid email password e s' := by
  obtain ⟨rfl, rfl⟩ := Prod.mk.inj (Option.some.inj hx)
  exact ⟨_, rfl, guar_leave, h.own rfl rfl rfl, fun he => by cases he⟩

theorem proves_open :
    Proves C pid email password (Registering C pid email password) (await .startTransaction)
      (fun _ => Opened C pid email password) (Refused C pid email password) := by
  refine Prog.Triple.call stable_registering (fun s _ h => h.unborn)
    fun s r x s' _ hs _ hx => ?_
  cases r with
  | done =>
    obtain ⟨rfl, rfl⟩ := Prod.mk.inj (Option.some.inj hx)
    exact ⟨guar_setTransaction _, hs.own rfl rfl rfl, Function.update_self _ _ _⟩
  | fails name message =>
    obtain ⟨e, rfl, hg, hrefused⟩ := refused_of_fails hs hx
    exact ⟨hg, hrefused⟩

/-- After the check: somebody has the email, or it is free. -/
def LookedUp (C : Config) (pid : Nat) (email password : JsString) : Option User → World → Prop
  | some _ => Refused C pid email password emailTaken
  | none => Checked C pid email password


theorem proves_findOneBy :
    Proves C pid email password (Opened C pid email password) (await (.findOneBy email))
      (LookedUp C pid email password) (Refused C pid email password) := by
  refine Prog.Triple.call stable_opened (fun s _ h => h.1.unborn) fun s r x s' _ hs hr hx => ?_
  cases r with
  | done =>
    obtain ⟨rfl, rfl⟩ := Prod.mk.inj (Option.some.inj hx)
    refine ⟨guar_look hs.2 (hr rfl email rfl), ?_⟩
    have hreg : Registering C pid email password (s.look C pid email) := hs.1.own rfl rfl rfl
    have hrows : ((s.look C pid email).transactions pid).rows = [] := by
      show (Function.update s.transactions pid _ pid).rows = []
      rw [Function.update_self, hs.2]
    show LookedUp C pid email password (s.findUser C pid email) (s.look C pid email)
    cases hf : s.findUser C pid email with
    | some user =>
      rw [World.findUser, World.visible, hs.2] at hf
      refine ⟨hreg, fun _ => ⟨user, ?_, by simpa using List.find?_some hf⟩⟩
      rcases List.mem_append.mp (List.mem_of_find?_eq_some hf) with hm | hm
      · exact hm
      · cases hm
    | none =>
      refine ⟨hreg, hrows, ?_⟩
      show (pid, email) ∈ if (s.findUser C pid email).isNone then _ else _
      rw [hf]
      exact List.mem_append_right _ List.mem_cons_self
  | fails name message =>
    obtain ⟨e, rfl, hg, hrefused⟩ := refused_of_fails hs.1 hx
    exact ⟨hg, hrefused⟩

theorem proves_ulid {err : JsError → World → Prop} :
    Proves C pid email password (Checked C pid email password) ulid
      (fun id s => Checked C pid email password s ∧ s.Owns C pid id) err := by
  refine Prog.Triple.op closed_outline fun s hi hs => ?_
  have hpid := (List.getElem?_eq_some_iff.mp hs.1.call).1
  refine ⟨guar_draw hpid, ⟨⟨hs.1.call, fun user hm hown => ?_⟩, hs.2⟩, C.ulid.drew_concat _ _⟩
  -- an id has one owner, and that of a user has been drawn before
  obtain ⟨p, _, _, -, howns, -⟩ := hi.origin user hm
  obtain rfl := hown.unique (howns.mono [pid])
  exact hs.1.unborn user hm howns

/-- The salt and the time change nothing that matters. -/
theorem proves_createPasswordHash {err : JsError → World → Prop} :
    Proves C pid email password (Checked C pid email password) (createPasswordHash C password)
      (fun _ => Checked C pid email password) err := by
  refine .bind (fun _ => Checked C pid email password) ?_ fun _ => .ret fun _ h => h
  refine Prog.Triple.op closed_outline fun s _ hs => ?_
  exact ⟨guar_quiet rfl rfl rfl (fun _ _ => rfl) (fun _ h => h) fun _ h _ => h,
    hs.1.own rfl rfl rfl, hs.2⟩

theorem proves_saveUser (row : User) (he : row.email = email) :
    Proves C pid email password
      (fun s => Checked C pid email password s ∧ s.Owns C pid row.id) (await (.saveUser row))
      (fun _ => Adding C pid email password row) (Refused C pid email password) := by
  have hstable : ((outline C).ctx pid (.register email password)).Stable
      fun s => Checked C pid email password s ∧ s.Owns C pid row.id := by
    rintro s s' ⟨h, howns⟩ hr hi
    obtain ⟨l, hl, -⟩ := hr.drawn
    refine ⟨stable_checked s s' h hr hi, ?_⟩
    rw [World.Owns, hl]
    exact howns.mono l
  refine Prog.Triple.call hstable (fun s _ h => h.1.1.unborn) fun s r x s' _ hs _ hx => ?_
  obtain ⟨⟨hreg, hrows, hchecked⟩, howns⟩ := hs
  cases r with
  | done =>
    have hx := Option.some.inj hx
    rw [performDone] at hx
    split at hx
    · obtain ⟨rfl, rfl⟩ := Prod.mk.inj hx
      exact ⟨guar_leave, hreg.own rfl rfl rfl, fun he => by cases he⟩
    · split at hx
      · obtain ⟨rfl, rfl⟩ := Prod.mk.inj hx
        exact ⟨guar_leave, hreg.own rfl rfl rfl, fun he => by cases he⟩
      · obtain ⟨rfl, rfl⟩ := Prod.mk.inj hx
        refine ⟨guar_setTransaction _, hreg.own rfl rfl rfl, ?_, hchecked, he, howns⟩
        show (Function.update s.transactions pid _ pid).rows = [row]
        rw [Function.update_self, hrows]
        rfl
  | fails name message =>
    obtain ⟨e, rfl, hg, hrefused⟩ := refused_of_fails hreg hx
    exact ⟨hg, hrefused⟩

theorem proves_createUser :
    Proves C pid email password (Checked C pid email password) (createUser C email password)
      (Adding C pid email password) (Refused C pid email password) := by
  refine .bind _ proves_createPasswordHash fun hashedPassword => .bind _ proves_ulid fun id => ?_
  refine .bind (fun _ s => Checked C pid email password s ∧ s.Owns C pid id)
    (Prog.Triple.op closed_outline fun s _ hs => ⟨.refl, hs⟩) fun createdAt => ?_
  exact .bind _ (proves_saveUser ⟨id, email, _, _, createdAt⟩ rfl) fun _ => .ret fun _ h => h

theorem proves_commit {row : User} :
    Proves C pid email password (Adding C pid email password row) (await .commitTransaction)
      (fun _ => Registered C pid email (.ok row)) (Refused C pid email password) := by
  refine Prog.Triple.call stable_adding (fun s _ h => h.1.unborn) fun s r x s' _ hs _ hx => ?_
  obtain ⟨hreg, hrows, hchecked, rfl, howns⟩ := hs
  cases r with
  | done =>
    obtain ⟨rfl, rfl⟩ := Prod.mk.inj (Option.some.inj hx)
    refine ⟨guar_commit hreg.call hrows hchecked howns, ?_, howns, rfl⟩
    show row ∈ s.users ++ (s.transactions pid).rows
    rw [hrows]
    exact List.mem_append_right _ List.mem_cons_self
  | fails name message =>
    obtain ⟨e, rfl, hg, hrefused⟩ := refused_of_fails hreg hx
    exact ⟨hg, hrefused⟩

/-- The handler of the transaction throws the error on, whatever becomes of the
rollback. -/
theorem proves_rollback {e : JsError} {err : JsError → World → Prop} :
    Proves C pid email password (Refused C pid email password e)
      ((await .rollbackTransaction).handle fun _ => .ret ())
      (fun _ => Refused C pid email password e) err := by
  refine .handle (fun _ => Refused C pid email password e) ?_ fun _ => .ret fun _ h => h
  refine Prog.Triple.call stable_refused (fun s _ h => h.1.unborn) fun s r x s' _ hs _ hx => ?_
  cases r with
  | done =>
    obtain ⟨rfl, rfl⟩ := Prod.mk.inj (Option.some.inj hx)
    exact ⟨guar_setTransaction _, hs.1.own rfl rfl rfl, hs.2⟩
  | fails name message =>
    obtain ⟨rfl, rfl⟩ := Prod.mk.inj (Option.some.inj hx)
    exact ⟨guar_leave, hs.1.own rfl rfl rfl, hs.2⟩

/-- **A registration** ends with a row of its own, or with none. -/
theorem proves_register :
    Proves C pid email password (Registering C pid email password) (register C email password)
      (fun user => Registered C pid email (.ok user))
      fun e => Registered C pid email (.error e) := by
  refine .handle (Refused C pid email password) ?_ fun e => ?_
  · refine .bind _ proves_open fun _ => .bind (Adding C pid email password) ?_ fun row => ?_
    · refine .bind _ proves_findOneBy fun found => ?_
      cases found with
      | some user => exact .fail fun _ h => h
      | none => exact proves_createUser
    · exact .bind _ proves_commit fun _ => .ret fun _ h => h
  · exact .bind (fun _ => Refused C pid email password e) proves_rollback fun _ =>
      .fail fun s h => ⟨h.1.unborn, h.2⟩

end Registration

/-! ### Runs -/

theorem calls_perform {c : Cmd} {r : Reply} {x : Except JsError (sig.Res c)}
    (h : perform C pid c r s = some (x, s')) : s'.calls = s.calls := by
  cases r with
  | done =>
    have hx := congrArg (fun a : Answer c => a.2.calls) (Option.some.inj h)
    refine hx.symm.trans ?_
    cases c with
    | saveUser row =>
      show (performDone C pid (.saveUser row) s).2.calls = s.calls
      rw [performDone]
      split
      · rfl
      · split <;> rfl
    | startTransaction => rfl
    | findOneBy email => rfl
    | commitTransaction => rfl
    | rollbackTransaction => rfl
  | fails name message =>
    obtain ⟨-, rfl⟩ := Prod.mk.inj (Option.some.inj h)
    rfl

theorem linked_step {σ σ' : (service C).Sys} {e : (service C).Event} (h : Linked σ)
    (hs : Service.step σ e = some σ') : Linked σ' := by
  refine Service.map_call_step (P := service C) (f := World.calls) calls_perform ?_ ?_ ?_ h hs
  · intro pid o s
    cases o with
    | _ => rfl
  · intro pid c s s' ha
    obtain rfl := Option.some.inj ha
    rfl
  · intro e s s' he
    obtain rfl := Option.some.inj he
    rfl

/-- The arrival of a request and the clock touch nothing. -/
theorem rely_quiet (hd : s'.drawnBy = s.drawnBy) (hc : ∃ l, s'.calls = s.calls ++ l)
    (hu : s'.users = s.users) (ht : s'.transactions = s.transactions)
    (hk : s'.checked = s.checked) : Rely C pid s s' :=
  ⟨⟨[], by rw [hd, List.append_nil], by simp⟩, hc, ⟨[], by rw [hu, List.append_nil], by simp⟩,
    by rw [ht], fun _ => by rw [hk]⟩

theorem sound_quiet (h : Sound C s) (hd : s'.drawnBy = s.drawnBy)
    (hc : ∃ l, s'.calls = s.calls ++ l) (hu : s'.users = s.users) (hk : s'.checked = s.checked) :
    Sound C s' := by
  obtain ⟨l, hl⟩ := hc
  refine ⟨fun p hp => ?_, fun user hm => ?_, hu ▸ h.unique, fun x hx => ?_, hk ▸ h.apart⟩
  · have := h.drawers p (hd ▸ hp)
    rw [hl, List.length_append]
    omega
  · obtain ⟨p, email, password, hc, ho, he⟩ := h.origin user (hu ▸ hm)
    refine ⟨p, email, password, ?_, ?_, he⟩
    · rw [hl, List.getElem?_append_left (List.getElem?_eq_some_iff.mp hc).1]
      exact hc
    · rw [World.Owns, hd]
      exact ho
  · rw [World.Taken, hu]
    exact h.free x (hk ▸ hx)

theorem valid_outline : (outline C).Valid where
  rely_refl := .refl
  rely_trans := Rely.trans
  cmdOk_of_ok hok hp hr := hok.2 hr _ (Service.pending_of_await hp)
  guar_inv hi hg := hg.sound hi
  guar_rely hne _ hg := hg.rely hne
  change_refl := trivial
  change_trans _ _ := trivial
  guar_change _ _ := trivial
  guar_done := fun {pid pid' c c' s s' x} hne _ hg hd => by
    cases c' with
    | register email password => exact Registered.rely hd (hg.rely hne)
  accept := fun {σ c s} h hok ha => by
    obtain rfl := Option.some.inj ha
    have hi : Sound C { σ.shared with calls := σ.shared.calls ++ [c] } :=
      sound_quiet h.1 rfl ⟨[c], rfl⟩ rfl rfl
    have hr : ∀ pid, Rely C pid σ.shared { σ.shared with calls := σ.shared.calls ++ [c] } :=
      fun _ => rely_quiet rfl ⟨[c], rfl⟩ rfl rfl rfl
    refine ⟨hi, trivial, fun pid p _ => ⟨fun _ => hr pid, fun x hd => ?_⟩, ?_⟩
    · obtain ⟨⟨email, password⟩, q, alive⟩ := p
      exact Registered.rely hd (hr pid)
    · cases c with
      | register email password =>
        have hlen : σ.shared.calls.length = σ.procs.length := by
          rw [hok.1]
          exact List.length_map _
        refine Outline.goal_of_triple (O := outline C) closed_outline proves_register hi ⟨?_, ?_⟩
        · show (σ.shared.calls ++ [_])[σ.procs.length]? = _
          rw [← hlen, List.getElem?_concat_length]
        · -- the number of the process is new, and no id was drawn under it
          intro user _ hown
          have := h.1.drawers _ hown.mem
          omega
  env := fun {σ e s} h _ he => by
    obtain rfl := Option.some.inj he
    have hr : ∀ pid, Rely C pid σ.shared { σ.shared with now := σ.shared.now + e } :=
      fun _ => rely_quiet rfl ⟨[], (List.append_nil _).symm⟩ rfl rfl rfl
    refine ⟨sound_quiet h.1 rfl ⟨[], (List.append_nil _).symm⟩ rfl rfl, trivial, fun pid p _ =>
      ⟨fun _ => hr pid, fun x hd => ?_⟩⟩
    obtain ⟨⟨email, password⟩, q, alive⟩ := p
    exact Registered.rely hd (hr pid)

theorem sound_initial : Sound C World.initial where
  drawers p hp := by cases hp
  origin user hm := by cases hm
  unique := .nil
  free x hx := by cases hx
  apart x hx := by cases hx

theorem holds_of_reaches {σ : (service C).Sys} (h : Service.Reaches Serial (start C) σ) :
    Linked σ ∧ (∀ p ∈ σ.procs, p.alive = true) ∧ (outline C).Holds σ :=
  have hr := h.strengthen (fun _ _ _ => linked_step) (rfl : Linked (start C))
  have hnone : ∀ p ∈ (start C).procs, p.alive = true := fun _ hp => by cases hp
  have ha := h.strengthen (fun _ _ _ => Service.alive_step fun _ => rfl) hnone
  ⟨hr.1, ha.1, Outline.holds_of_reaches valid_outline (Outline.holds_of_inv sound_initial) hr.2⟩

/-! ### One email, one success -/

/-- Process `pid` serves a registration of the email. -/
def Registers (σ : (service C).Sys) (email : JsString) (pid : Nat) : Prop :=
  ∃ email' password prog alive, σ.procs[pid]? = some ⟨.register email' password, prog, alive⟩ ∧
    C.sameText email' email = true

/-- It has returned a user. -/
def Succeeded (σ : (service C).Sys) (email : JsString) (pid : Nat) : Prop :=
  ∃ email' password user alive, σ.procs[pid]? = some ⟨.register email' password, .ret user, alive⟩ ∧
    C.sameText email' email = true

/-- It has been told that the email is taken. -/
def ToldTaken (σ : (service C).Sys) (email : JsString) (pid : Nat) : Prop :=
  ∃ email' password alive,
    σ.procs[pid]? = some ⟨.register email' password, .fail emailTaken, alive⟩ ∧
    C.sameText email' email = true

/-- The email of a registration that has returned a user. -/
def registeredEmail : (service C).Proc → Option JsString
  | ⟨.register email _, .ret _, _⟩ => some email
  | _ => none

theorem succeeded_of_registeredEmail {σ : (service C).Sys} {pid : Nat} {email : JsString}
    (h : (σ.procs[pid]?).bind registeredEmail = some email) : Succeeded σ email pid := by
  obtain ⟨⟨⟨email', password⟩, prog, alive⟩, hp, he⟩ := Option.bind_eq_some_iff.mp h
  cases prog with
  | ret user =>
    obtain rfl := Option.some.inj he
    exact ⟨_, password, user, alive, hp, C.same.refl _⟩
  | fail e => cases he
  | await d k => cases he
  | sync o k => cases he

/-- Equal emails have equal rows. -/
theorem eq_of_sameText (hs : Sound C s) {u v : User} (hu : u ∈ s.users) (hv : v ∈ s.users)
    (h : C.sameText u.email v.email = true) : u = v := by
  by_contra hne
  have hsymm : Std.Symm fun u v : User => C.sameText u.email v.email = false := by
    refine ⟨fun u v h => ?_⟩
    rw [Bool.eq_false_iff] at h ⊢
    exact fun h' => h (C.same.symm h')
  have := hs.unique.forall hu hv hne
  rw [h] at this
  cases this

/-- The process of a row has returned it: it is over, and not with an error. -/
theorem succeeded_of_taken {σ : (service C).Sys} (hl : Linked σ)
    (ha : ∀ p ∈ σ.procs, p.alive = true) (hh : (outline C).Holds σ) {email : JsString}
    (h : σ.shared.Taken C email) : ∃ pid, Succeeded σ email pid := by
  obtain ⟨user, hm, hsame⟩ := h
  obtain ⟨pid, email', password, hc, howns, rfl⟩ := hh.1.origin user hm
  rw [hl] at hc
  obtain ⟨prog, alive, hp⟩ := Service.exists_proc hc
  obtain rfl : alive = true := ha _ (List.mem_of_getElem? hp)
  refine ⟨pid, user.email, password, ?_⟩
  cases prog with
  | ret user' => exact ⟨user', true, hp, hsame⟩
  | fail e => exact absurd howns ((hh.done_of_fail hp).1 user hm)
  | await d k => exact absurd howns (hh.need valid_outline hp user hm)
  | sync o k => exact (hh.2 pid _ hp).elim

/-- **Emails are unique** as long as no registration checks an email that
another one has found free and not yet committed: an email has one row at most,
and when all its registrations are over and none met an error of the database,
exactly one has succeeded. -/
theorem emails_unique {σ : (service C).Sys} (h : Service.Reaches Serial (start C) σ) :
    σ.shared.users.Pairwise (fun u v => C.sameText u.email v.email = false) ∧
    ∀ email, (∃ pid, Registers σ email pid) →
      (∀ pid, Registers σ email pid → Succeeded σ email pid ∨ ToldTaken σ email pid) →
        ∃ pid, Succeeded σ email pid ∧ ∀ pid', Succeeded σ email pid' → pid' = pid := by
  obtain ⟨hl, ha, hh⟩ := holds_of_reaches h
  refine ⟨hh.1.unique, fun email ⟨pid, hpid⟩ hover => ?_⟩
  have hone : ∀ p p', Succeeded σ email p → Succeeded σ email p' → p' = p := by
    rintro p p' ⟨e, password, user, alive, hp, hsame⟩ ⟨e', password', user', alive', hp', hsame'⟩
    obtain ⟨hm, howns, he⟩ := hh.done_of_ret hp
    obtain ⟨hm', howns', he'⟩ := hh.done_of_ret hp'
    rw [← he] at hsame
    rw [← he'] at hsame'
    obtain rfl := eq_of_sameText hh.1 hm hm' (C.same.trans hsame (C.same.symm hsame'))
    exact howns'.unique howns
  have hsome : ∃ p, Succeeded σ email p := by
    rcases hover pid hpid with hs | ⟨e, password, alive, hp, hsame⟩
    · exact ⟨pid, hs⟩
    · obtain ⟨user, hm, hu⟩ := (hh.done_of_fail hp).2 rfl
      exact succeeded_of_taken hl ha hh ⟨user, hm, C.same.trans hu hsame⟩
  obtain ⟨p, hp⟩ := hsome
  exact ⟨p, hp, fun p' hp' => hone p p' hp hp'⟩

/-- The email of a registration that has been told that it is taken. -/
def takenEmail : (service C).Proc → Option JsString
  | ⟨.register email _, .fail e, _⟩ => if e = emailTaken then some email else none
  | _ => none

theorem toldTaken_of_takenEmail {σ : (service C).Sys} {pid : Nat} {email : JsString}
    (h : (σ.procs[pid]?).bind takenEmail = some email) : ToldTaken σ email pid := by
  obtain ⟨⟨⟨email', password⟩, prog, alive⟩, hp, he⟩ := Option.bind_eq_some_iff.mp h
  cases prog with
  | fail e =>
    rw [takenEmail] at he
    split at he
    · rename_i htaken
      subst htaken
      obtain rfl := Option.some.inj he
      exact ⟨_, password, alive, hp, C.same.refl _⟩
    · cases he
  | ret user => cases he
  | await d k => cases he
  | sync o k => cases he

/-- Two registrations of one email, one after the other. -/
def registeredTwice : List (service Config.plain).Event :=
  .call (.register (js "ann@x.y") (js "pw")) :: (List.replicate 4 (.resume 0 .done) ++
    .call (.register (js "ann@x.y") (js "pw")) :: List.replicate 3 (.resume 1 .done))

theorem emails_unique_registered_twice :
    ∃ σ, Service.runIf Serial (start Config.plain) registeredTwice = some σ ∧
      σ.shared.users.length = 1 ∧
      (σ.shared.users.Pairwise fun u v => Config.plain.sameText u.email v.email = false) ∧
      ToldTaken σ (js "ann@x.y") 1 ∧ ∃ pid, Succeeded σ (js "ann@x.y") pid ∧
        ∀ pid', Succeeded σ (js "ann@x.y") pid' → pid' = pid := by
  have hrun : (Service.runIf Serial (start Config.plain) registeredTwice).map
      (fun σ => (σ.shared.users.length, σ.procs.length)) = some (1, 2) := by decide +kernel
  have hends : (Service.runIf Serial (start Config.plain) registeredTwice).map (fun σ =>
      ((σ.procs[0]?).bind registeredEmail, (σ.procs[1]?).bind takenEmail)) =
      some (some (js "ann@x.y"), some (js "ann@x.y")) := by decide +kernel
  obtain ⟨σ, hσ, hend⟩ := Option.map_eq_some_iff.mp hrun
  obtain ⟨hlen, hprocs⟩ := Prod.mk.inj hend
  rw [hσ] at hends
  obtain ⟨hfirst, hsecond⟩ := Prod.mk.inj (Option.some.inj hends)
  have hsucceeded : Succeeded σ (js "ann@x.y") 0 := succeeded_of_registeredEmail hfirst
  have htold : ToldTaken σ (js "ann@x.y") 1 := toldTaken_of_takenEmail hsecond
  obtain ⟨hunique, hone⟩ := emails_unique (Service.reaches_of_runIf hσ)
  have hregisters : Registers σ (js "ann@x.y") 0 := by
    obtain ⟨email, password, user, alive, hp, hsame⟩ := hsucceeded
    exact ⟨email, password, .ret user, alive, hp, hsame⟩
  refine ⟨σ, hσ, hlen, hunique, htold, hone _ ⟨0, hregisters⟩ fun pid hpid => ?_⟩
  obtain ⟨email, password, prog, alive, hp, -⟩ := hpid
  have hlt := (List.getElem?_eq_some_iff.mp hp).1
  rw [hprocs] at hlt
  obtain rfl | rfl : pid = 0 ∨ pid = 1 := by omega
  · exact Or.inl hsucceeded
  · exact Or.inr htold

/-- Two registrations that both look before one commits. -/
def registeredTogether : List (service Config.plain).Event :=
  [.call (.register (js "ann@x.y") (js "pw")), .call (.register (js "ann@x.y") (js "pw")),
    .resume 0 .done, .resume 1 .done, .resume 0 .done, .resume 1 .done,
    .resume 0 .done, .resume 1 .done, .resume 0 .done, .resume 1 .done]

/-- Both succeed, and the email has two rows. -/
theorem emails_not_unique_registered_together :
    ∃ σ, Service.Reaches Service.anyEvent (start Config.plain) σ ∧
      ¬ (σ.shared.users.map User.email).Nodup ∧
      Succeeded σ (js "ann@x.y") 0 ∧ Succeeded σ (js "ann@x.y") 1 := by
  have hrun : (Service.run (start Config.plain) registeredTogether).map (fun σ =>
      (σ.shared.users.map User.email, (σ.procs[0]?).bind registeredEmail,
        (σ.procs[1]?).bind registeredEmail)) =
      some ([js "ann@x.y", js "ann@x.y"], some (js "ann@x.y"), some (js "ann@x.y")) := by
    decide +kernel
  obtain ⟨σ, hσ, hend⟩ := Option.map_eq_some_iff.mp hrun
  obtain ⟨husers, hend⟩ := Prod.mk.inj hend
  obtain ⟨hfirst, hsecond⟩ := Prod.mk.inj hend
  refine ⟨σ, Service.reaches_of_run hσ fun _ _ _ => trivial, ?_,
    succeeded_of_registeredEmail hfirst, succeeded_of_registeredEmail hsecond⟩
  rw [husers]
  decide

end FullstackSvc.Registration
