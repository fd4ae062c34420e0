import FullstackSvc.LanguageServer.Reachable

/-!
# Records that expire

Every writer of a session record looks first and writes later, with `SETEX` or
`EXPIRE`; when the record expires in between, `SETEX` makes it anew and `EXPIRE`
does nothing.  `Outlives` is the condition that rules this out: the clock does
not run past the end of a record that a process is about to write.

* `poised_of_reaches`: under this condition, a record that a process has seen is
  still there when it is written.
* `expired_stays_expired`: **an expired session stays expired**.
* `renewal_kept`: **a renewal is never undone**, when moreover no renewal comes
  between the `TTL` of another process and the `SETEX` that copies it.
-/

namespace FullstackSvc.LanguageServer

open Text Async

variable {N : Type} {C : Config N} {s s' : World} {pid : Nat} {c : Request} {cmd : Cmd} {r : Reply}
  {sessionId userId key : JsString} {ok : (services C).Sys → (services C).Event → Prop}

/-! ### Records -/

theorem record_eq_some {e : RedisEntry} :
    s.record? key = some e ↔ s.redis.lookup key = some e ∧ s.now ≤ e.expiresAt := by
  rw [World.record?, Option.filter_eq_some_iff, decide_eq_true_iff]

theorem record_eq_none :
    s.record? key = none ↔ ∀ e, s.redis.lookup key = some e → e.expiresAt < s.now := by
  constructor
  · intro h e he
    by_contra hlt
    cases h.symm.trans (record_eq_some.mpr ⟨he, by omega⟩)
  · intro h
    cases hr : s.record? key with
    | none => rfl
    | some e =>
      obtain ⟨he, hle⟩ := record_eq_some.mp hr
      have := h e he
      omega

theorem record_insert {e : RedisEntry} (h : s'.redis = s.redis.insert key e)
    (hle : s'.now ≤ e.expiresAt) : s'.record? key = some e := by
  refine record_eq_some.mpr ⟨?_, hle⟩
  rw [h, AList.lookup_insert]

theorem record_insert_ne {key' : JsString} {e : RedisEntry} (h : s'.redis = s.redis.insert key e)
    (hnow : s'.now = s.now) (hk : key' ≠ key) : s'.record? key' = s.record? key' := by
  rw [World.record?, World.record?, h, hnow, AList.lookup_insert_ne hk]

/-- A call leaves every record that is there. -/
theorem live_perform {x : Except JsError (sig.Res cmd)} (h : perform pid cmd r s = some (x, s'))
    (hl : (s.record? key).isSome) : (s'.record? key).isSome := by
  have hnow := (still_perform h).now
  have hwritten : ∀ (key' : JsString) seconds value,
      s'.redis = s.redis.insert key' ⟨value, s.now + 1000 * seconds⟩ → (s'.record? key).isSome := by
    intro key' seconds value eq
    by_cases hk : key = key'
    · rw [hk, record_insert eq (by rw [hnow]; exact Nat.le_add_right _ _)]
      rfl
    · rwa [record_insert_ne eq hnow hk]
  cases redis_perform h with
  | same eq unset absent => rwa [World.record?, eq, hnow]
  | setex key' seconds value cmd_eq out_eq pos eq => exact hwritten key' seconds value eq
  | expire key' seconds e cmd_eq out_eq found eq => exact hwritten key' seconds e.value eq

/-- The first record of a session is not written over another one. -/
theorem Creates.unknown {seconds : Nat} {d : SessionData} (h : Creates C pid c sessionId seconds d s)
    (hs : Sound C s) : ¬ Known s sessionId := by
  intro hk
  obtain ⟨p, hd, e, he, hp⟩ := hs.created sessionId hk
  exact h.first e he (hp.trans (hd.unique h.drew))

/-! ### Between a look and a write -/

/-- While a process awaits a call that `g` relates to a key, the clock does not run
past the end of the record of this key.  A process that has died with the worker
does not count. -/
def Outlives (g : Cmd → JsString → Prop) (σ : (services C).Sys) (e : (services C).Event) : Prop :=
  ∀ ms, e = .env (.tick ms) → ∀ pid cmd key, σ.pending pid = some cmd → g cmd key →
    σ.shared.dead pid = false → ∀ found, σ.shared.record? key = some found →
      σ.shared.now + ms ≤ found.expiresAt

/-- The process that awaits such a call has seen the record, and it is there. -/
def Poised (g : Cmd → JsString → Prop) (σ : (services C).Sys) : Prop :=
  ∀ pid cmd f, σ.pending pid = some cmd → g cmd f.key → σ.shared.dead pid = false →
    σ.shared.sighted pid = some f → (σ.shared.record? f.key).isSome

variable {σ σ' : (services C).Sys} {e : (services C).Event} {g : Cmd → JsString → Prop}

/-- What a process sees with a call is as it saw it when the call has been made. -/
theorem seen_own (h : Stepped ok σ e σ') (hm : σ.mover e = some pid) {f : Sighting}
    (hf : σ'.shared.sighted pid = some f) : σ'.shared.sight f.key = some f := by
  cases step_cases h.step with
  | call pid' r' cmd' x s₁ event pending eq calm =>
    subst event
    obtain rfl := Option.some.inj hm
    rw [calm.sighted, sighted_perform eq, Function.update_self] at hf
    obtain ⟨hsight, hcmd⟩ := sight_of_sees hf
    have hsame : s₁.record? f.key = σ.shared.record? f.key := by
      cases redis_perform eq with
      | same eq' unset absent => rw [World.record?, World.record?, eq', (still_perform eq).now]
      | setex key seconds value cmd_eq out_eq pos eq' =>
        subst cmd_eq
        rcases hcmd with hcmd | hcmd <;> cases hcmd
      | expire key seconds found cmd_eq out_eq hfound eq' =>
        subst cmd_eq
        rcases hcmd with hcmd | hcmd <;> cases hcmd
    rwa [World.sight, calm.record?, calm.now, hsame, (still_perform eq).now]
  | calm calm event =>
    cases e with
    | call c =>
      obtain rfl := Option.some.inj hm
      rw [calm.sighted, h.unborn.sighted] at hf
      cases hf
    | resume pid' r' => exact absurd rfl (event pid' r')
    | env e => cases hm
    | kill pid' => cases hm
  | tick ms event eq =>
    subst event
    cases hm

theorem poised_step (h : Stepped ok σ e σ') (hg : Outlives g σ e) (hp : Poised g σ) :
    Poised g σ' := by
  intro pid cmd f hpend hgf hd hf
  by_cases hmover : σ.mover e = some pid
  · obtain ⟨found, hfound, -⟩ := Option.map_eq_some_iff.mp (seen_own h hmover hf)
    rw [hfound]
    rfl
  · have hpend' := Service.pending_step h.step hpend hmover
    have hf' : σ.shared.sighted pid = some f := (h.private hmover).sighted.symm.trans hf
    have hlive := hp pid cmd f hpend' hgf (h.undead hd) hf'
    cases step_cases h.step with
    | call pid' r' cmd' x s₁ event pending eq calm =>
      rw [calm.record?]
      exact live_perform eq hlive
    | calm calm event => rwa [calm.record?]
    | tick ms event eq =>
      obtain ⟨found, hfound⟩ := Option.isSome_iff_exists.mp hlive
      have hle := hg ms event pid cmd f.key hpend' hgf (h.undead hd) found hfound
      have hlookup := (record_eq_some.mp hfound).1
      have hrec : σ'.shared.record? f.key = some found := by
        rw [eq]
        exact record_eq_some.mpr ⟨hlookup, hle⟩
      rw [hrec]
      rfl

/-- **A record that a process has seen is still there when it is written.** -/
theorem poised_of_reaches (hg : ∀ σ e, ok σ e → Outlives g σ e)
    (h : Service.Reaches ok (start C) σ) : Poised g σ :=
  inv_of_start (fun _ _ _ hp => by cases hp) (fun hs hp => poised_step hs (hg _ _ hs.meets) hp) h

/-! ### An expired session stays expired -/

/-- The session has had a record, which has expired. -/
def Expired (s : World) (sessionId : JsString) : Prop :=
  Known s sessionId ∧ s.record? (sessionKey sessionId) = none

instance : Decidable (Known s sessionId) :=
  inferInstanceAs (Decidable (sessionKey sessionId ∈ s.redis))

instance : Decidable (Expired s sessionId) := inferInstanceAs (Decidable (_ ∧ _))

/-- The key that a `SETEX` writes. -/
def Cmd.setexKey : Cmd → Option JsString
  | .redisSetex key _ _ => some key
  | _ => none

/-- The call writes the record of the key. -/
abbrev Rewrites (cmd : Cmd) (key : JsString) : Prop := cmd.setexKey = some key

/-- No record expires while a `SETEX` of it is awaited. -/
abbrev Prompt (σ : (services C).Sys) (e : (services C).Event) : Prop := Outlives Rewrites σ e

/-- A record is written that is there, or the first one of its session. -/
theorem setex_cases {seconds : Nat} {d : SessionData} (hb : (outline ok).Holds σ)
    (hp : Poised Rewrites σ) (hd : σ.shared.dead pid = false)
    (hpend : σ.pending pid = some (.redisSetex (sessionKey sessionId) seconds d)) :
    ¬ Known σ.shared sessionId ∨ (σ.shared.record? (sessionKey sessionId)).isSome := by
  obtain ⟨c, -, sid, he, -, -, hcase⟩ := need_of_pending hb hpend
  obtain rfl := sessionKey_inj he
  rcases hcase with hc | ⟨⟨f, d₀, hf, hk, -⟩, -⟩
  · exact Or.inl (hc.unknown hb.1)
  · right
    rw [← hk]
    exact hp pid _ f hpend (congrArg some hk.symm) hd hf

/-- What has expired is not written any more. -/
theorem expired_step (h : Stepped ok σ e σ') (hp : Poised Rewrites σ)
    (he : Expired σ.shared sessionId) : Expired σ'.shared sessionId := by
  refine ⟨he.1.mono h.advances, ?_⟩
  cases step_cases h.step with
  | call pid r cmd x s₁ event pending eq calm =>
    rw [calm.record?]
    have hnow := (still_perform eq).now
    cases redis_perform eq with
    | same eq' unset absent =>
      rw [World.record?, eq', hnow]
      exact he.2
    | setex key seconds value cmd_eq out_eq pos eq' =>
      by_cases hk : sessionKey sessionId = key
      · subst hk cmd_eq
        rcases setex_cases h.before hp (not_dead_of_perform eq) pending with hn | hl
        · exact absurd he.1 hn
        · rw [he.2] at hl
          cases hl
      · rw [record_insert_ne eq' hnow hk]
        exact he.2
    | expire key seconds found cmd_eq out_eq hfound eq' =>
      by_cases hk : sessionKey sessionId = key
      · subst hk
        cases he.2.symm.trans hfound
      · rw [record_insert_ne eq' hnow hk]
        exact he.2
  | calm calm event =>
    rw [calm.record?]
    exact he.2
  | tick ms event eq =>
    rw [eq]
    refine record_eq_none.mpr fun e' he' => ?_
    have := record_eq_none.mp he.2 e' he'
    show e'.expiresAt < σ.shared.now + ms
    omega

/-- **An expired session stays expired**, in every run in which no record expires
while a `SETEX` of it is awaited. -/
theorem expired_stays_expired (C : Config N) (sessionId : JsString) (σ σ' : (services C).Sys)
    (h : Service.Reaches Prompt (start C) σ) (h' : Service.Reaches Prompt σ σ')
    (he : Expired σ.shared sessionId) : Expired σ'.shared sessionId := by
  obtain ⟨hl, hb⟩ := holds_of_reaches h
  have hp : Poised Rewrites σ := poised_of_reaches (fun _ _ ho => ho) h
  refine (inv_of_reaches (J := fun σ => Poised Rewrites σ ∧ Expired σ.shared sessionId)
    (fun hs hJ => ?_) hl hb ⟨hp, he⟩ h').2
  exact ⟨poised_step hs hs.meets hJ.1, expired_step hs hJ.1 hJ.2⟩

/-- One process at a time does not wait with a `SETEX`. -/
theorem outlives_of_alone (h : Alone σ e) : Outlives g σ e := by
  rintro ms rfl pid cmd key hp
  rw [h.pending (by simp [Service.Sys.mover])] at hp
  cases hp

/-- A session is created and expires. -/
def sessionExpires : List (services Config.plain).Event :=
  [.call (.createSession (js "ann")), .resume 0 .done, .env (.tick 600001)]

/-- Its owner tries to renew it. -/
def lateRenewal : List (services Config.plain).Event :=
  [.call (.renewSession (js "0") (js "ann")), .resume 1 .done]

theorem expired_stays_expired_after_late_renewal :
    ∃ σ σ', Service.run (start Config.plain) sessionExpires = some σ ∧
      Service.run σ lateRenewal = some σ' ∧ Expired σ'.shared (js "0") := by
  have hrun : ((Service.runIf Alone (start Config.plain) sessionExpires).bind fun σ =>
      (Service.runIf Alone σ lateRenewal).map fun _ => decide (Expired σ.shared (js "0"))) =
      some true := by decide +kernel
  obtain ⟨σ, hσ, hrun⟩ := Option.bind_eq_some_iff.mp hrun
  obtain ⟨σ', hσ', he⟩ := Option.map_eq_some_iff.mp hrun
  have hprompt : ∀ {σ σ' : (services Config.plain).Sys}, Service.Reaches Alone σ σ' →
      Service.Reaches Prompt σ σ' := fun h => h.mono fun _ _ ha => outlives_of_alone ha
  exact ⟨σ, σ', Service.run_of_runIf hσ, Service.run_of_runIf hσ',
    expired_stays_expired Config.plain (js "0") σ σ' (hprompt (Service.reaches_of_runIf hσ))
      (hprompt (Service.reaches_of_runIf hσ')) (of_decide_eq_true he)⟩

/-- An upload has found 600 seconds left when the session expires. -/
def uploadThenExpiry : List (services Config.plain).Event :=
  [.call (.createSession (js "ann")), .resume 0 .done,
    .call (.uploadFile (js "0") (js "ann") ⟨js "main.dart", [104, 105]⟩)] ++
  List.replicate 5 (.resume 1 .done) ++ [.env (.tick 600001)]

/-- The `SETEX` of the upload makes the record of the expired session anew. -/
theorem expired_session_made_anew :
    ∃ σ σ', Service.Reaches Service.anyEvent (start Config.plain) σ ∧
      Service.Reaches Service.anyEvent σ σ' ∧ Expired σ.shared (js "0") ∧
      ¬ Expired σ'.shared (js "0") := by
  have hrun : ((Service.run (start Config.plain) uploadThenExpiry).bind fun σ =>
      (Service.run σ [.resume 1 .done]).map fun σ' =>
        (decide (Expired σ.shared (js "0")), decide (Expired σ'.shared (js "0")))) =
      some (true, false) := by decide +kernel
  obtain ⟨σ, hσ, hrun⟩ := Option.bind_eq_some_iff.mp hrun
  obtain ⟨σ', hσ', he⟩ := Option.map_eq_some_iff.mp hrun
  obtain ⟨he, he'⟩ := Prod.mk.inj he
  exact ⟨σ, σ', Service.reaches_of_run hσ fun _ _ _ => trivial,
    Service.reaches_of_run hσ' fun _ _ _ => trivial, of_decide_eq_true he, of_decide_eq_false he'⟩

/-! ### A renewal is never undone -/

/-- The call gives the record of the key its full time to live. -/
def Renews (cmd : Cmd) (key : JsString) : Prop :=
  cmd = .redisExpire key sessionTtl ∨ ∃ d, cmd = .redisSetex key sessionTtl d

/-- The entry of the log is a renewal that was carried out: by `createSession`, by
`renewSession`, or by an `updateLastActivity` that found the record. -/
def Renewal (key : JsString) (e : LogEntry) : Prop := e.outcome = .done ∧ Renews e.cmd key

/-- The call extends the time to live of the key. -/
def Prolongs (cmd : Cmd) (key : JsString) : Prop := ∃ seconds, cmd = .redisExpire key seconds

/-- No renewal of a record is carried out while another process is about to write
the record back for a shorter time. -/
def Unovertaken (σ : (services C).Sys) (e : (services C).Event) : Prop :=
  ∀ pid r cmd key, e = .resume pid r → r.faulty = false → σ.pending pid = some cmd →
    Renews cmd key → ∀ pid' seconds d, pid' ≠ pid →
      σ.pending pid' = some (.redisSetex key seconds d) → σ.shared.dead pid' = false →
        sessionTtl ≤ seconds

/-- How far an event moves the clock. -/
def tickOf : (services C).Event → Option Nat
  | .env (.tick ms) => some ms
  | _ => none

/-- Time goes in whole seconds, no record expires while an `EXPIRE` of it is awaited,
and no renewal comes between a `TTL` and the `SETEX` that copies it. -/
structure Careful (σ : (services C).Sys) (e : (services C).Event) : Prop where
  whole : ∀ ms ∈ tickOf e, 1000 ∣ ms
  outlives : Outlives Prolongs σ e
  unovertaken : Unovertaken σ e

/-- What is known of renewals in such runs. -/
structure Renewing (σ : (services C).Sys) : Prop where
  poised : Poised Prolongs σ
  whole : 1000 ∣ σ.shared.now
  wholes : ∀ key found, σ.shared.redis.lookup key = some found → 1000 ∣ found.expiresAt
  past : ∀ e ∈ σ.shared.log, e.time ≤ σ.shared.now
  kept : ∀ key, ∀ e ∈ σ.shared.log, Renewal key e → σ.shared.now ≤ e.time + 1000 * sessionTtl →
    ∃ found, σ.shared.record? key = some found ∧ e.time + 1000 * sessionTtl ≤ found.expiresAt
  copies : ∀ pid key seconds d, σ.pending pid = some (.redisSetex key seconds d) →
    σ.shared.dead pid = false → ∀ e ∈ σ.shared.log, Renewal key e →
      e.time + 1000 * sessionTtl ≤ σ.shared.now + 1000 * seconds

/-- The log after a call. -/
theorem mem_log_perform {x : Except JsError (sig.Res cmd)} (h : perform pid cmd r s = some (x, s'))
    {e : LogEntry} (he : e ∈ s'.log) :
    e ∈ s.log ∨ e = ⟨pid, cmd, outcome cmd x, s.now, s.inside pid⟩ := by
  rw [log_perform h] at he
  rcases List.mem_append.mp he with he | he
  · exact Or.inl he
  · exact Or.inr (List.mem_singleton.mp he)

/-- A renewal that has been carried out has been written, over whatever was there. -/
theorem kept_call {x : Except JsError (sig.Res cmd)} {key : JsString} {s₁ : World} (hJ : Renewing σ)
    (hb : (outline ok).Holds σ) (pending : σ.pending pid = some cmd)
    (eq : perform pid cmd r σ.shared = some (x, s₁)) {e : LogEntry} (he : e ∈ s₁.log)
    (hr : Renewal key e) (hle : s₁.now ≤ e.time + 1000 * sessionTtl) :
    ∃ found, s₁.record? key = some found ∧ e.time + 1000 * sessionTtl ≤ found.expiresAt := by
  obtain ⟨c, -, hneed⟩ := need_of_pending hb pending
  have hnow := (still_perform eq).now
  have hdead := not_dead_of_perform eq
  have hother : s₁.record? key = σ.shared.record? key → e ∈ σ.shared.log →
      ∃ found, s₁.record? key = some found ∧ e.time + 1000 * sessionTtl ≤ found.expiresAt := by
    intro hsame he
    rw [hsame]
    exact hJ.kept key e he hr (hnow ▸ hle)
  cases redis_perform eq with
  | same eq' unset absent =>
    rcases mem_log_perform eq he with he | rfl
    · exact hother (by rw [World.record?, World.record?, eq', hnow]) he
    · exfalso
      obtain ⟨hdone, hcmd | ⟨d, hcmd⟩⟩ := hr
      · -- `EXPIRE` has found the record that its process has seen
        obtain rfl : cmd = .redisExpire key sessionTtl := hcmd
        obtain ⟨-, -, f, hf, rfl⟩ := hneed
        have hlive := hJ.poised pid _ f pending ⟨sessionTtl, rfl⟩ hdead hf
        rw [absent f.key sessionTtl rfl hdone] at hlive
        cases hlive
      · exact unset key sessionTtl d hcmd hdone
  | setex key' seconds value cmd_eq out_eq pos eq' =>
    subst cmd_eq
    by_cases hk : key = key'
    · subst hk
      refine ⟨_, record_insert eq' (by rw [hnow]; exact Nat.le_add_right _ _), ?_⟩
      show e.time + 1000 * sessionTtl ≤ σ.shared.now + 1000 * seconds
      rcases mem_log_perform eq he with he | rfl
      · exact hJ.copies pid key seconds value pending hdead e he hr
      · obtain ⟨-, hcmd | ⟨d, hcmd⟩⟩ := hr
        · cases hcmd
        · obtain ⟨-, rfl, -⟩ := Cmd.redisSetex.inj hcmd
          exact Nat.le_refl _
    · rcases mem_log_perform eq he with he | rfl
      · exact hother (record_insert_ne eq' hnow hk) he
      · obtain ⟨-, hcmd | ⟨d, hcmd⟩⟩ := hr
        · cases hcmd
        · exact absurd (Cmd.redisSetex.inj hcmd).1.symm hk
  | expire key' seconds found cmd_eq out_eq hfound eq' =>
    subst cmd_eq
    obtain ⟨-, rfl, -⟩ := hneed
    by_cases hk : key = key'
    · subst hk
      refine ⟨_, record_insert eq' (by rw [hnow]; exact Nat.le_add_right _ _), ?_⟩
      show e.time + 1000 * sessionTtl ≤ σ.shared.now + 1000 * sessionTtl
      rcases mem_log_perform eq he with he | rfl
      · have := hJ.past e he
        omega
      · exact Nat.le_refl _
    · rcases mem_log_perform eq he with he | rfl
      · exact hother (record_insert_ne eq' hnow hk) he
      · obtain ⟨-, hcmd | ⟨d, hcmd⟩⟩ := hr
        · exact absurd (Cmd.redisExpire.inj hcmd).1.symm hk
        · cases hcmd

theorem kept_step (h : Stepped ok σ e σ') (hJ : Renewing σ) {key : JsString} {entry : LogEntry}
    (he : entry ∈ σ'.shared.log) (hr : Renewal key entry)
    (hle : σ'.shared.now ≤ entry.time + 1000 * sessionTtl) :
    ∃ found, σ'.shared.record? key = some found ∧
      entry.time + 1000 * sessionTtl ≤ found.expiresAt := by
  cases step_cases h.step with
  | call pid r cmd x s₁ event pending eq calm =>
    rw [calm.log] at he
    rw [calm.now] at hle
    rw [calm.record?]
    exact kept_call hJ h.before pending eq he hr hle
  | calm calm event =>
    rw [calm.log] at he
    rw [calm.now] at hle
    rw [calm.record?]
    exact hJ.kept key entry he hr hle
  | tick ms event eq =>
    rw [eq] at he hle ⊢
    have hle' : σ.shared.now + ms ≤ entry.time + 1000 * sessionTtl := hle
    obtain ⟨found, hfound, hexp⟩ := hJ.kept key entry he hr (by omega)
    refine ⟨found, record_eq_some.mpr ⟨(record_eq_some.mp hfound).1, ?_⟩, hexp⟩
    show σ.shared.now + ms ≤ found.expiresAt
    omega

theorem past_step (h : Stepped ok σ e σ') (hJ : Renewing σ) {entry : LogEntry}
    (he : entry ∈ σ'.shared.log) : entry.time ≤ σ'.shared.now := by
  cases step_cases h.step with
  | call pid r cmd x s₁ event pending eq calm =>
    rw [calm.log] at he
    rw [calm.now, (still_perform eq).now]
    rcases mem_log_perform eq he with he | rfl
    · exact hJ.past entry he
    · exact Nat.le_refl _
  | calm calm event =>
    rw [calm.log] at he
    rw [calm.now]
    exact hJ.past entry he
  | tick ms event eq =>
    rw [eq] at he ⊢
    exact (hJ.past entry he).trans (Nat.le_add_right _ _)

/-- Everything happens at whole seconds. -/
theorem wholes_step (h : Stepped Careful σ e σ') (hJ : Renewing σ) : 1000 ∣ σ'.shared.now ∧
    ∀ key found, σ'.shared.redis.lookup key = some found → 1000 ∣ found.expiresAt := by
  cases step_cases h.step with
  | call pid r cmd x s₁ event pending eq calm =>
    have hnow := (still_perform eq).now
    rw [calm.now, hnow, calm.redis]
    refine ⟨hJ.whole, fun key found hl => ?_⟩
    have hwritten : ∀ (key' : JsString) seconds value,
        s₁.redis = σ.shared.redis.insert key' ⟨value, σ.shared.now + 1000 * seconds⟩ →
        1000 ∣ found.expiresAt := by
      intro key' seconds value eq'
      rw [eq'] at hl
      by_cases hk : key = key'
      · rw [hk, AList.lookup_insert] at hl
        obtain rfl := Option.some.inj hl
        exact Nat.dvd_add hJ.whole (Nat.dvd_mul_right _ _)
      · rw [AList.lookup_insert_ne hk] at hl
        exact hJ.wholes key found hl
    cases redis_perform eq with
    | same eq' unset absent => exact hJ.wholes key found (eq' ▸ hl)
    | setex key' seconds value cmd_eq out_eq pos eq' => exact hwritten key' seconds value eq'
    | expire key' seconds found' cmd_eq out_eq hfound eq' =>
      exact hwritten key' seconds found'.value eq'
  | calm calm event =>
    rw [calm.now, calm.redis]
    exact ⟨hJ.whole, hJ.wholes⟩
  | tick ms event eq =>
    rw [eq]
    exact ⟨Nat.dvd_add hJ.whole (h.meets.whole ms (by rw [event]; rfl)), hJ.wholes⟩

/-- At whole seconds `TTL` answers what is left. -/
theorem seconds_exact {f : Sighting} (hle : f.time ≤ f.expiresAt) (ht : 1000 ∣ f.time)
    (he : 1000 ∣ f.expiresAt) : f.time + 1000 * f.seconds = f.expiresAt := by
  obtain ⟨a, ha⟩ := ht
  obtain ⟨b, hb⟩ := he
  rw [Sighting.seconds, ha, hb]
  omega

theorem copies_step (h : Stepped Careful σ e σ') (hJ : Renewing σ)
    (hkept : ∀ key, ∀ entry ∈ σ'.shared.log, Renewal key entry →
      σ'.shared.now ≤ entry.time + 1000 * sessionTtl →
      ∃ found, σ'.shared.record? key = some found ∧ entry.time + 1000 * sessionTtl ≤ found.expiresAt)
    {seconds : Nat} {d : SessionData} (hp : σ'.pending pid = some (.redisSetex key seconds d))
    (hd : σ'.shared.dead pid = false) {entry : LogEntry} (he : entry ∈ σ'.shared.log)
    (hr : Renewal key entry) :
    entry.time + 1000 * sessionTtl ≤ σ'.shared.now + 1000 * seconds := by
  have hpast := past_step h hJ he
  by_cases hmover : σ.mover e = some pid
  · -- the process has just asked for the time that is left, or writes for a new one
    have hfull : seconds = sessionTtl →
        entry.time + 1000 * sessionTtl ≤ σ'.shared.now + 1000 * seconds := by
      rintro rfl
      omega
    obtain ⟨c, -, sid, rfl, -, -, hcase⟩ := need_of_pending h.after hp
    rcases hcase with hc | ⟨⟨f, d₀, hf, hk, -, hsec | ⟨-, hsec⟩, -⟩, -⟩
    · exact hfull hc.seconds
    · exact hfull hsec
    · by_cases hle : σ'.shared.now ≤ entry.time + 1000 * sessionTtl
      · obtain ⟨found, hfound, hexp⟩ := hkept _ entry he hr hle
        have hsight := seen_own h hmover hf
        rw [hk, World.sight, hfound] at hsight
        obtain rfl := Option.some.inj hsight
        obtain ⟨hlookup, hlive⟩ := record_eq_some.mp hfound
        obtain ⟨hwhole, hwholes⟩ := wholes_step h hJ
        have hexact := seconds_exact (f := ⟨sessionKey sid, σ'.shared.now, found.expiresAt⟩) hlive
          hwhole (hwholes _ found hlookup)
        rw [hsec, hexact]
        exact hexp
      · omega
  · have hp' := Service.pending_step h.step hp hmover
    have hd' := h.undead hd
    cases step_cases h.step with
    | call pid' r cmd x s₁ event pending eq calm =>
      rw [calm.log] at he
      rw [calm.now, (still_perform eq).now]
      rcases mem_log_perform eq he with he | rfl
      · exact hJ.copies pid key seconds d hp' hd' entry he hr
      · have hout : outcome cmd x = .done := hr.1
        have hgood : r.faulty = false := not_faulty eq (by rw [hout]; decide)
        have hne : pid ≠ pid' := fun hpid => hmover (by rw [event, hpid]; rfl)
        have hle := h.meets.unovertaken pid' r cmd key event hgood pending hr.2 pid seconds d hne hp'
          hd'
        show σ.shared.now + 1000 * sessionTtl ≤ σ.shared.now + 1000 * seconds
        omega
    | calm calm event =>
      rw [calm.log] at he
      rw [calm.now]
      exact hJ.copies pid key seconds d hp' hd' entry he hr
    | tick ms event eq =>
      rw [eq] at he ⊢
      have := hJ.copies pid key seconds d hp' hd' entry he hr
      show entry.time + 1000 * sessionTtl ≤ σ.shared.now + ms + 1000 * seconds
      omega

theorem renewing_step (h : Stepped Careful σ e σ') (hJ : Renewing σ) : Renewing σ' where
  poised := poised_step h h.meets.outlives hJ.poised
  whole := (wholes_step h hJ).1
  wholes := (wholes_step h hJ).2
  past _ he := past_step h hJ he
  kept _ _ he hr hle := kept_step h hJ he hr hle
  copies _ _ _ _ hp hd _ he hr :=
    copies_step h hJ (fun _ _ he hr hle => kept_step h hJ he hr hle) hp hd he hr

theorem renewing_start : Renewing (start C) where
  poised _ _ _ hp := by cases hp
  whole := Nat.dvd_zero _
  wholes _ _ hl := by cases hl
  past _ he := by cases he
  kept _ _ he := by cases he
  copies _ _ _ _ hp := by cases hp

/-- The call of the process has renewed the session, and this is in the log. -/
def RenewedBy (s : World) (pid : Nat) (sessionId : JsString) : Prop :=
  ∃ e ∈ s.log, e.pid = pid ∧ Renewal (sessionKey sessionId) e

/-- **A renewal is never undone.**  In every run of whole seconds in which no record
expires while an `EXPIRE` of it is awaited and no renewal comes between a `TTL` and
the `SETEX` that copies it: a `createSession` and a `renewSession` that have
returned have renewed their session, and from any renewal on the record is there
until the time to live has passed. -/
theorem renewal_kept (C : Config N) (σ : (services C).Sys)
    (h : Service.Reaches Careful (start C) σ) :
    (∀ key, ∀ e ∈ σ.shared.log, Renewal key e → σ.shared.now ≤ e.time + 1000 * sessionTtl →
      (σ.shared.record? key).isSome) ∧
    (∀ pid userId sessionId alive,
      σ.procs[pid]? = some ⟨.createSession userId, .ret sessionId, alive⟩ →
        RenewedBy σ.shared pid sessionId) ∧
    ∀ pid sessionId userId alive,
      σ.procs[pid]? = some ⟨.renewSession sessionId userId, .ret (), alive⟩ →
        RenewedBy σ.shared pid sessionId := by
  have hJ : Renewing σ := inv_of_start renewing_start (fun hs hJ => renewing_step hs hJ) h
  obtain ⟨-, hb⟩ := holds_of_reaches h
  refine ⟨fun key e he hr hle => ?_, fun pid userId sessionId alive hp => ?_,
    fun pid sessionId userId alive hp => ?_⟩
  · obtain ⟨found, hfound, -⟩ := hJ.kept key e he hr hle
    rw [hfound]
    rfl
  · obtain ⟨-, -, d, e, he, hpid, hcmd, hout⟩ := hb.done_of_ret hp
    exact ⟨e, he, hpid, hout, Or.inr ⟨d, hcmd⟩⟩
  · obtain ⟨-, e, he, hpid, hcmd, hout⟩ := hb.done_of_ret hp
    exact ⟨e, he, hpid, hout, Or.inl hcmd⟩

/-- A session is created and, 500 seconds later, renewed. -/
def renewedInTime : List (services Config.plain).Event :=
  [.call (.createSession (js "ann")), .resume 0 .done, .env (.tick 500000),
    .call (.renewSession (js "0") (js "ann")), .resume 1 .done, .resume 1 .done,
    .env (.tick 600000)]

theorem careful_of_alone {e : (services C).Event} (h : Alone σ e)
    (hw : ∀ ms ∈ tickOf e, 1000 ∣ ms) : Careful σ e := by
  refine ⟨hw, outlives_of_alone h, ?_⟩
  rintro pid r cmd key rfl - - - pid' seconds d hne hp
  rw [h.pending fun he => hne (Option.some.inj he).symm] at hp
  cases hp

/-- At 1100 seconds the record is still there. -/
theorem renewal_kept_renewed_in_time :
    ∃ σ, Service.run (start Config.plain) renewedInTime = some σ ∧ σ.shared.now = 1100000 ∧
      (σ.shared.record? (sessionKey (js "0"))).isSome := by
  have hrun : (Service.runIf (fun σ e => Alone σ e ∧ ∀ ms ∈ tickOf e, 1000 ∣ ms)
      (start Config.plain) renewedInTime).map (fun σ => (σ.shared.now,
        decide (⟨1, .redisExpire (sessionKey (js "0")) sessionTtl, .done, 500000, none⟩ ∈
          σ.shared.log))) = some (1100000, true) := by decide +kernel
  obtain ⟨σ, hσ, hend⟩ := Option.map_eq_some_iff.mp hrun
  obtain ⟨hnow, hmem⟩ := Prod.mk.inj hend
  refine ⟨σ, Service.run_of_runIf hσ, hnow, ?_⟩
  have hr := (Service.reaches_of_runIf hσ).mono fun _ e ho =>
    careful_of_alone ho.1 ho.2
  refine (renewal_kept Config.plain σ hr).1 _ _ (of_decide_eq_true hmem) ⟨rfl, Or.inl rfl⟩ ?_
  rw [hnow]
  decide

/-- The session expires between the `GET` and the `EXPIRE` of its renewal. -/
def renewedTooLate : List (services Config.plain).Event :=
  [.call (.createSession (js "ann")), .resume 0 .done,
    .call (.renewSession (js "0") (js "ann")), .resume 1 .done, .env (.tick 601000),
    .resume 1 .done]

/-- The renewal returns, and there is no record. -/
theorem renewal_lost_too_late :
    ∃ σ, Service.Reaches (fun _ e => ∀ ms ∈ tickOf e, 1000 ∣ ms) (start Config.plain) σ ∧
      (∃ p, σ.procs[1]? = some p ∧ p.call = .renewSession (js "0") (js "ann") ∧ p.prog.Returned) ∧
      (∃ e ∈ σ.shared.log, e.pid = 1 ∧ Renewal (sessionKey (js "0")) e ∧
        σ.shared.now ≤ e.time + 1000 * sessionTtl) ∧
      σ.shared.record? (sessionKey (js "0")) = none := by
  have hrun : (Service.runIf (fun _ e => ∀ ms ∈ tickOf e, 1000 ∣ ms) (start Config.plain)
      renewedTooLate).map (fun σ => ((σ.procs[1]?).map fun p => (p.call, decide p.prog.Returned),
        σ.shared.now, decide (⟨1, .redisExpire (sessionKey (js "0")) sessionTtl, .done, 601000, none⟩ ∈
          σ.shared.log), σ.shared.record? (sessionKey (js "0")))) =
      some (some (.renewSession (js "0") (js "ann"), true), 601000, true, none) := by
    decide +kernel
  obtain ⟨σ, hσ, hend⟩ := Option.map_eq_some_iff.mp hrun
  obtain ⟨hproc, hend⟩ := Prod.mk.inj hend
  obtain ⟨hnow, hend⟩ := Prod.mk.inj hend
  obtain ⟨hmem, hnone⟩ := Prod.mk.inj hend
  obtain ⟨p, hp, hpair⟩ := Option.map_eq_some_iff.mp hproc
  obtain ⟨hcall, hret⟩ := Prod.mk.inj hpair
  refine ⟨σ, Service.reaches_of_runIf hσ, ⟨p, hp, hcall, of_decide_eq_true hret⟩,
    ⟨_, of_decide_eq_true hmem, rfl, ⟨rfl, Or.inl rfl⟩, ?_⟩, hnone⟩
  rw [hnow]
  decide

end FullstackSvc.LanguageServer
