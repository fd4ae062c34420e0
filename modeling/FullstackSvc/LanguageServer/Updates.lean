import FullstackSvc.LanguageServer.Expiry

/-!
# Records that are read, changed and written back

`uploadFile`, `updateLastActivity` and `startContainer` read the whole record of
a session, work, and write the whole record back.  What another one has written
in the meantime is lost.  `Unraced` is the condition that rules this out: when a
record is written back, no file has been added to it and its container fields
have not changed since its writer read it.

* `updates_kept`: **no update is lost**, while the record is live, in runs that
  meet this condition and in which `TTL` does not round the time that is left
  down to nothing.
-/

namespace FullstackSvc.LanguageServer

open Text Async

variable {N : Type} {C : Config N} {s s' : World} {pid : Nat} {c : Request} {cmd : Cmd} {r : Reply}
  {sessionId userId key : JsString} {ok : (services C).Sys → (services C).Event → Prop}
  {σ σ' : (services C).Sys} {e : (services C).Event}

/-! ### The condition -/

/-- The process whose call an event ends, unless the event makes it fail. -/
def answered : (services C).Event → Option Nat
  | .resume pid r => if r.faulty then none else some pid
  | _ => none

theorem answered_resume (h : r.faulty = false) : answered (C := C) (.resume pid r) = some pid := by
  rw [answered, h]
  rfl

/-- The files of a record. -/
def SessionData.files (d : SessionData) : List JsString := d.uploadedFiles.getD []

/-- A record is written back only when what it tracks is as its writer has read it. -/
def Unraced (sessionId : JsString) (σ : (services C).Sys) (e : (services C).Event) : Prop :=
  ∀ pid ∈ answered e, ∀ cmd ∈ σ.pending pid, Rewrites cmd (sessionKey sessionId) →
    ∀ found ∈ σ.shared.record? (sessionKey sessionId), ∀ last ∈ σ.shared.lastGet pid,
      (∀ file ∈ found.value.files, file ∈ last.2.files) ∧
        containerFields found.value = containerFields last.2

/-- `TTL` is not asked in the last half second of the record, when it answers `0`. -/
def InTime (sessionId : JsString) (σ : (services C).Sys) (e : (services C).Event) : Prop :=
  ∀ pid ∈ answered e, σ.pending pid = some (.redisTtl (sessionKey sessionId)) →
    ∀ found ∈ σ.shared.record? (sessionKey sessionId), σ.shared.now + 500 ≤ found.expiresAt

/-- The record of the session is live, from the time it was created on. -/
def StaysLive (sessionId : JsString) (s : World) : Prop :=
  Known s sessionId → (s.record? (sessionKey sessionId)).isSome

instance : Decidable (StaysLive sessionId s) := inferInstanceAs (Decidable (_ → _))

/-- The record stays live, and no writer overtakes another one. -/
def Serialized (sessionId : JsString) (σ : (services C).Sys) (e : (services C).Event) : Prop :=
  StaysLive sessionId σ.shared ∧ Unraced sessionId σ e ∧ InTime sessionId σ e

instance : Decidable (Unraced sessionId σ e) :=
  @Option.decidableForallMem _ _ (fun pid =>
    @Option.decidableForallMem _ _ (fun _ =>
      @instDecidableForall _ _ inferInstance inferInstance) (σ.pending pid)) (answered e)

instance : Decidable (InTime sessionId σ e) :=
  @Option.decidableForallMem _ _ (fun _ =>
    @instDecidableForall _ _ inferInstance inferInstance) (answered e)

instance : Decidable (Serialized sessionId σ e) := inferInstanceAs (Decidable (_ ∧ _))

/-! ### What has been written -/

/-- What `startContainer` has written into the record of the session, by an entry of
the log. -/
def LogEntry.published? (sessionId : JsString) (e : LogEntry) : Option SessionData :=
  match e.cmd with
  | .redisSetex key _ d =>
    if key = sessionKey sessionId ∧ e.outcome = .done ∧ e.part = some (.start sessionId) then some d
    else none
  | _ => none

theorem published?_setex {e : LogEntry} {seconds : Nat} {d : SessionData}
    (hcmd : e.cmd = .redisSetex (sessionKey sessionId) seconds d) (hout : e.outcome = .done) :
    e.published? sessionId = if e.part = some (.start sessionId) then some d else none := by
  simp only [LogEntry.published?, hcmd, hout, true_and]

theorem published?_eq_none {e : LogEntry} (h : ∀ seconds d,
    e.cmd = .redisSetex (sessionKey sessionId) seconds d → e.outcome ≠ .done) :
    e.published? sessionId = none := by
  rw [LogEntry.published?]
  split
  · rename_i key seconds d hcmd
    rw [if_neg]
    rintro ⟨rfl, hdone, -⟩
    exact h seconds d hcmd hdone
  · rfl

/-- What the last `startContainer` has written. -/
def World.lastPublished (s : World) (sessionId : JsString) : Option SessionData :=
  (s.log.filterMap (LogEntry.published? sessionId)).getLast?

theorem lastPublished_perform {x : Except JsError (sig.Res cmd)}
    (h : perform pid cmd r s = some (x, s')) : s'.lastPublished sessionId =
      (LogEntry.published? sessionId ⟨pid, cmd, outcome cmd x, s.now, s.inside pid⟩).or
        (s.lastPublished sessionId) := by
  rw [World.lastPublished, World.lastPublished, log_perform h, List.filterMap_append,
    List.getLast?_append]
  congr 1
  cases hp : LogEntry.published? sessionId ⟨pid, cmd, outcome cmd x, s.now, s.inside pid⟩ with
  | none => rw [List.filterMap_cons_none hp]; rfl
  | some d => rw [List.filterMap_cons_some hp]; rfl

/-- What is known of the record: it has every file that was written into it, and what
the last `startContainer` has written. -/
structure Updated (sessionId : JsString) (s : World) : Prop where
  written : ∀ e ∈ s.log, e.outcome = .done → ∀ seconds d,
    e.cmd = .redisSetex (sessionKey sessionId) seconds d → ∃ found,
      s.redis.lookup (sessionKey sessionId) = some found ∧
        ∀ file ∈ d.files, file ∈ found.value.files
  published : ∀ d, s.lastPublished sessionId = some d → ∃ found,
    s.redis.lookup (sessionKey sessionId) = some found ∧
      containerFields found.value = containerFields d
  timely : ∀ e ∈ s.log, e.cmd = .redisTtl (sessionKey sessionId) → e.outcome ≠ .missed

theorem lookup_of_live (h : (s.record? key).isSome) : ∃ found, s.redis.lookup key = some found ∧
    s.record? key = some found := by
  obtain ⟨found, hfound⟩ := Option.isSome_iff_exists.mp h
  exact ⟨found, (record_eq_some.mp hfound).1, hfound⟩

/-- What the process writes has all that the record tracks. -/
theorem writes_more {seconds : Nat} {d : SessionData} {x : Except JsError (sig.Res cmd)} {s₁ : World}
    (h : Stepped (Serialized sessionId) σ e σ') (event : e = .resume pid r)
    (pending : σ.pending pid = some cmd) (hcmd : cmd = .redisSetex (sessionKey sessionId) seconds d)
    (eq : perform pid cmd r σ.shared = some (x, s₁)) (hdone : outcome cmd x = .done) :
    ¬ Known σ.shared sessionId ∨ ∃ found,
      σ.shared.redis.lookup (sessionKey sessionId) = some found ∧
      (∀ file ∈ found.value.files, file ∈ d.files) ∧
      (containerFields d = containerFields found.value ∨
        σ.shared.inside pid = some (.start sessionId)) := by
  obtain ⟨c, -, hneed⟩ := need_of_pending h.before pending
  subst hcmd
  obtain ⟨sid, hk, -, -, hcase⟩ := hneed
  obtain rfl := sessionKey_inj hk
  rcases hcase with hc | ⟨⟨f, d₀, -, -, hlast, -, hfiles, hfields⟩, hknown⟩
  · exact Or.inl (hc.unknown h.before.1)
  · obtain ⟨found, hlookup, hfound⟩ := lookup_of_live (h.meets.1 hknown)
    have hgood : r.faulty = false := not_faulty eq (by rw [hdone]; decide)
    obtain ⟨hmore, hsame⟩ := h.meets.2.1 pid (by rw [event]; exact answered_resume hgood) _ pending
      rfl found hfound _ hlast
    refine Or.inr ⟨found, hlookup, fun file hf => hfiles file (hmore file hf), ?_⟩
    rcases hfields with hfields | hpub
    · exact Or.inl (hfields.trans hsame.symm)
    · exact Or.inr hpub.1

/-- The record after a call, when it was not written. -/
theorem value_perform {x : Except JsError (sig.Res cmd)} (h : perform pid cmd r s = some (x, s'))
    (hw : ∀ seconds d, cmd = .redisSetex key seconds d → outcome cmd x ≠ .done) {found : RedisEntry}
    (hf : s.redis.lookup key = some found) :
    ∃ found', s'.redis.lookup key = some found' ∧ found'.value = found.value := by
  cases redis_perform h with
  | same eq unset absent => exact ⟨found, eq ▸ hf, rfl⟩
  | setex key' seconds value cmd_eq out_eq pos eq =>
    by_cases hk : key = key'
    · subst hk
      exact absurd out_eq (hw seconds value cmd_eq)
    · exact ⟨found, by rw [eq, AList.lookup_insert_ne hk, hf], rfl⟩
  | expire key' seconds e cmd_eq out_eq hfound eq =>
    by_cases hk : key = key'
    · subst hk
      obtain rfl := Option.some.inj ((record_eq_some.mp hfound).1.symm.trans hf)
      exact ⟨⟨e.value, s.now + 1000 * seconds⟩, by rw [eq, AList.lookup_insert], rfl⟩
    · exact ⟨found, by rw [eq, AList.lookup_insert_ne hk, hf], rfl⟩

theorem lookup_setex {x : Except JsError (sig.Res cmd)} {seconds : Nat} {d : SessionData}
    (h : perform pid cmd r s = some (x, s')) (hcmd : cmd = .redisSetex key seconds d)
    (hdone : outcome cmd x = .done) : ∃ found, s'.redis.lookup key = some found ∧ found.value = d := by
  cases redis_perform h with
  | same eq unset absent => exact absurd hdone (unset key seconds d hcmd)
  | setex key' seconds' value cmd_eq out_eq pos eq =>
    obtain ⟨rfl, rfl, rfl⟩ := Cmd.redisSetex.inj (hcmd.symm.trans cmd_eq)
    exact ⟨_, by rw [eq, AList.lookup_insert], rfl⟩
  | expire key' seconds' e cmd_eq out_eq hfound eq => cases hcmd.symm.trans cmd_eq

theorem known_of_lookup {found : RedisEntry}
    (h : s.redis.lookup (sessionKey sessionId) = some found) : Known s sessionId :=
  AList.lookup_isSome.mp (by rw [h]; rfl)

/-- A call keeps the files that were written. -/
theorem written_call {x : Except JsError (sig.Res cmd)} {s₁ : World}
    (h : Stepped (Serialized sessionId) σ e σ') (hJ : Updated sessionId σ.shared)
    (event : e = .resume pid r) (pending : σ.pending pid = some cmd)
    (eq : perform pid cmd r σ.shared = some (x, s₁)) {entry : LogEntry} (he : entry ∈ s₁.log)
    (hout : entry.outcome = .done) {seconds : Nat} {d : SessionData}
    (hd : entry.cmd = .redisSetex (sessionKey sessionId) seconds d) :
    ∃ found, s₁.redis.lookup (sessionKey sessionId) = some found ∧
      ∀ file ∈ d.files, file ∈ found.value.files := by
  rcases mem_log_perform eq he with he | rfl
  · obtain ⟨old, hold, hfiles⟩ := hJ.written entry he hout seconds d hd
    by_cases hwrite : ∃ seconds d, cmd = .redisSetex (sessionKey sessionId) seconds d ∧
        outcome cmd x = .done
    · -- the record is written
      obtain ⟨seconds', d', hcmd, hdone⟩ := hwrite
      obtain ⟨found', hlookup', rfl⟩ := lookup_setex eq hcmd hdone
      rcases writes_more h event pending hcmd eq hdone with hn | ⟨found, hfound, hmore, -⟩
      · exact absurd (known_of_lookup hold) hn
      · obtain rfl := Option.some.inj (hold.symm.trans hfound)
        exact ⟨found', hlookup', fun file hf => hmore file (hfiles file hf)⟩
    · obtain ⟨found', hfound', hv⟩ := value_perform eq
        (fun seconds d hcmd hdone => hwrite ⟨seconds, d, hcmd, hdone⟩) hold
      exact ⟨found', hfound', by rw [hv]; exact hfiles⟩
  · obtain ⟨found', hlookup', rfl⟩ := lookup_setex eq hd hout
    exact ⟨found', hlookup', fun file hf => hf⟩

/-- A call keeps what the last `startContainer` has written, or is its write. -/
theorem published_call {x : Except JsError (sig.Res cmd)} {s₁ : World}
    (h : Stepped (Serialized sessionId) σ e σ') (hJ : Updated sessionId σ.shared)
    (event : e = .resume pid r) (pending : σ.pending pid = some cmd)
    (eq : perform pid cmd r σ.shared = some (x, s₁)) {d : SessionData}
    (hd : s₁.lastPublished sessionId = some d) :
    ∃ found, s₁.redis.lookup (sessionKey sessionId) = some found ∧
      containerFields found.value = containerFields d := by
  rw [lastPublished_perform eq] at hd
  by_cases hwrite : ∃ seconds d, cmd = .redisSetex (sessionKey sessionId) seconds d ∧
      outcome cmd x = .done
  · -- the record is written
    obtain ⟨seconds, d', hcmd, hdone⟩ := hwrite
    obtain ⟨found', hlookup', rfl⟩ := lookup_setex eq hcmd hdone
    refine ⟨found', hlookup', ?_⟩
    by_cases hin : σ.shared.inside pid = some (.start sessionId)
    · rw [published?_setex hcmd hdone, if_pos hin] at hd
      rw [Option.some.inj hd]
    · rw [published?_setex hcmd hdone, if_neg hin] at hd
      obtain ⟨old, hold, hfields⟩ := hJ.published d hd
      rcases writes_more h event pending hcmd eq hdone with hn | ⟨found, hfound, -, hsame | hin'⟩
      · exact absurd (known_of_lookup hold) hn
      · obtain rfl := Option.some.inj (hold.symm.trans hfound)
        exact hsame.trans hfields
      · exact absurd hin' hin
  · have hw : ∀ seconds d, cmd = .redisSetex (sessionKey sessionId) seconds d →
        outcome cmd x ≠ .done := fun seconds d hcmd hdone => hwrite ⟨seconds, d, hcmd, hdone⟩
    rw [published?_eq_none hw] at hd
    obtain ⟨old, hold, hfields⟩ := hJ.published d hd
    obtain ⟨found', hfound', hv⟩ := value_perform eq hw hold
    exact ⟨found', hfound', by rw [hv]; exact hfields⟩

/-- A `TTL` that is asked in time finds something left. -/
theorem ttl_done {x : Except JsError (sig.Res (.redisTtl key))} {found : RedisEntry}
    (h : perform pid (.redisTtl key) r s = some (x, s')) (hr : r.faulty = false)
    (hf : s.record? key = some found) (ht : s.now + 500 ≤ found.expiresAt) :
    outcome (.redisTtl key) x = .done := by
  cases x with
  | error e => exact absurd rfl (refused_of_failed h rfl hr)
  | ok ttl =>
    have hpos : 0 < ttl := by
      rw [answer_redisTtl h, World.ttl, World.sight, hf]
      show (0 : Int) < (((found.expiresAt - s.now + 500) / 1000 : Nat) : Int)
      omega
    rw [outcome, if_pos hpos]

theorem timely_call {x : Except JsError (sig.Res cmd)} {s₁ : World}
    (h : Stepped (Serialized sessionId) σ e σ') (event : e = .resume pid r)
    (pending : σ.pending pid = some cmd) (hcmd : cmd = .redisTtl (sessionKey sessionId))
    (eq : perform pid cmd r σ.shared = some (x, s₁)) : outcome cmd x ≠ .missed := by
  intro hmissed
  obtain ⟨c, -, hneed⟩ := need_of_pending h.before pending
  subst hcmd
  obtain ⟨sid, hk, hknown⟩ := hneed
  obtain rfl := sessionKey_inj hk
  obtain ⟨found, -, hfound⟩ := lookup_of_live (h.meets.1 hknown)
  have hgood : r.faulty = false := not_faulty eq (by rw [hmissed]; decide)
  have htime := h.meets.2.2 pid (by rw [event]; exact answered_resume hgood) pending found hfound
  cases (ttl_done eq hgood hfound htime).symm.trans hmissed

theorem updated_step (h : Stepped (Serialized sessionId) σ e σ') (hJ : Updated sessionId σ.shared) :
    Updated sessionId σ'.shared := by
  cases step_cases h.step with
  | call pid r cmd x s₁ event pending eq calm =>
    refine ⟨?_, ?_, fun entry he hcmd => ?_⟩
    · rw [calm.log, calm.redis]
      exact fun entry he hout seconds d hd => written_call h hJ event pending eq he hout hd
    · rw [World.lastPublished, calm.log, calm.redis]
      exact fun d hd => published_call h hJ event pending eq hd
    · rw [calm.log] at he
      rcases mem_log_perform eq he with he | rfl
      · exact hJ.timely entry he hcmd
      · exact timely_call h event pending hcmd eq
  | calm calm event =>
    refine ⟨?_, ?_, ?_⟩
    · rw [calm.log, calm.redis]
      exact hJ.written
    · rw [World.lastPublished, calm.log, calm.redis]
      exact hJ.published
    · rw [calm.log]
      exact hJ.timely
  | tick ms event eq =>
    rw [eq]
    exact ⟨hJ.written, hJ.published, hJ.timely⟩

theorem updated_initial : Updated sessionId World.initial where
  written _ he := by cases he
  published _ hd := by cases hd
  timely _ he := by cases he

/-- **No update is lost.**  While the record of a session stays live, in every run in
which no writer overtakes another one and `TTL` is not asked in the last half
second, the record has the name of every file that was uploaded, and the container
fields that the last `startContainer` wrote. -/
theorem updates_kept (C : Config N) (sessionId : JsString) (σ : (services C).Sys)
    (h : Service.Reaches (Serialized sessionId) (start C) σ)
    (hlive : StaysLive sessionId σ.shared) :
    (∀ (pid : Nat) (userId : JsString) (file : UploadedFile) (result : UploadResult) (alive : Bool),
      σ.procs[pid]? = some ⟨.uploadFile sessionId userId file, .ret result, alive⟩ →
        ∃ found, σ.shared.record? (sessionKey sessionId) = some found ∧
          sanitizedName file.originalname ∈ found.value.files) ∧
    ∀ d, σ.shared.lastPublished sessionId = some d →
      ∃ found, σ.shared.record? (sessionKey sessionId) = some found ∧
        containerFields found.value = containerFields d := by
  have hJ : Updated sessionId σ.shared := inv_of_start (J := fun σ => Updated sessionId σ.shared)
    updated_initial (fun hs hJ => updated_step hs hJ) h
  obtain ⟨-, hb⟩ := holds_of_reaches h
  have hrecord : ∀ {found : RedisEntry},
      σ.shared.redis.lookup (sessionKey sessionId) = some found →
      σ.shared.record? (sessionKey sessionId) = some found := by
    intro found hf
    obtain ⟨found', hl, hfound⟩ := lookup_of_live (hlive (known_of_lookup hf))
    exact Option.some.inj (hl.symm.trans hf) ▸ hfound
  refine ⟨fun pid userId file result alive hp => ?_, fun d hd => ?_⟩
  · obtain ⟨-, hup⟩ := hb.done_of_ret hp
    rcases hup with ⟨seconds, d, ⟨e, he, -, hcmd, hout⟩, hname⟩ | ⟨e, he, -, hcmd, hout⟩
    · obtain ⟨found, hf, hfiles⟩ := hJ.written e he hout seconds d hcmd
      exact ⟨found, hrecord hf, hfiles _ hname⟩
    · exact absurd hout (hJ.timely e he hcmd)
  · obtain ⟨found, hf, hfields⟩ := hJ.published d hd
    exact ⟨found, hrecord hf, hfields⟩

/-- A session is created, a file is uploaded, and then its container is started. -/
def updatedInTurn : List (services Config.plain).Event :=
  [.call (.createSession (js "ann")), .resume 0 .done,
    .call (.uploadFile (js "0") (js "ann") ⟨js "main.dart", [104, 105]⟩)] ++
  List.replicate 6 (.resume 1 .done) ++
  [.call .scanAndCreateContainers, .resume 2 (.keys [sessionKey (js "0")])] ++
  List.replicate 7 (.resume 2 .done)

theorem updates_kept_in_turn :
    ∃ σ found d, Service.run (start Config.plain) updatedInTurn = some σ ∧
      σ.shared.lastPublished (js "0") = some d ∧
      σ.shared.record? (sessionKey (js "0")) = some found ∧ found.value.containerId = some 0 ∧
      containerFields found.value = containerFields d := by
  have hrun : (Service.runIf (Serialized (js "0")) (start Config.plain) updatedInTurn).map
      (fun σ => (decide (StaysLive (js "0") σ.shared),
        (σ.shared.lastPublished (js "0")).map SessionData.containerId)) =
      some (true, some (some 0)) := by decide +kernel
  obtain ⟨σ, hσ, hend⟩ := Option.map_eq_some_iff.mp hrun
  obtain ⟨hlive, hpub⟩ := Prod.mk.inj hend
  obtain ⟨d, hd, hid⟩ := Option.map_eq_some_iff.mp hpub
  obtain ⟨found, hfound, hfields⟩ := (updates_kept Config.plain (js "0") σ
    (Service.reaches_of_runIf hσ) (of_decide_eq_true hlive)).2 d hd
  exact ⟨σ, found, d, Service.run_of_runIf hσ, hd, hfound, (congrArg Prod.fst hfields).trans hid,
    hfields⟩

/-- The upload has read the record when the container is started, and writes it back
afterwards. -/
def overtaken : List (services Config.plain).Event :=
  [.call (.createSession (js "ann")), .resume 0 .done,
    .call (.uploadFile (js "0") (js "ann") ⟨js "main.dart", [104, 105]⟩)] ++
  List.replicate 4 (.resume 1 .done) ++
  [.call .scanAndCreateContainers, .resume 2 (.keys [sessionKey (js "0")])] ++
  List.replicate 7 (.resume 2 .done) ++ List.replicate 2 (.resume 1 .done)

/-- All calls have returned, the record has been live throughout, and what
`startContainer` wrote is lost. -/
theorem update_lost_overtaken :
    ∃ σ found d, Service.Reaches (fun σ _ => StaysLive (js "0") σ.shared) (start Config.plain) σ ∧
      (∀ p ∈ σ.procs, p.prog.Returned) ∧
      σ.shared.record? (sessionKey (js "0")) = some found ∧
      σ.shared.lastPublished (js "0") = some d ∧ containerFields found.value ≠ containerFields d := by
  have hrun : (Service.runIf (fun σ _ => StaysLive (js "0") σ.shared) (start Config.plain)
      overtaken).map (fun σ => (decide (∀ p ∈ σ.procs, p.prog.Returned),
        (σ.shared.record? (sessionKey (js "0"))).map fun found => found.value.containerId,
        (σ.shared.lastPublished (js "0")).map SessionData.containerId)) =
      some (true, some none, some (some 0)) := by decide +kernel
  obtain ⟨σ, hσ, hend⟩ := Option.map_eq_some_iff.mp hrun
  obtain ⟨hret, hend⟩ := Prod.mk.inj hend
  obtain ⟨hrec, hpub⟩ := Prod.mk.inj hend
  obtain ⟨found, hfound, hnone⟩ := Option.map_eq_some_iff.mp hrec
  obtain ⟨d, hd, hid⟩ := Option.map_eq_some_iff.mp hpub
  refine ⟨σ, found, d, Service.reaches_of_runIf hσ, of_decide_eq_true hret, hfound, hd, fun he => ?_⟩
  have hsame : found.value.containerId = d.containerId := congrArg Prod.fst he
  rw [hnone, hid] at hsame
  cases hsame

end FullstackSvc.LanguageServer
