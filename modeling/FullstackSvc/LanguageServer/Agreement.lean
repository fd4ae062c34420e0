import FullstackSvc.LanguageServer.Usable

/-!
# The map of the worker and the records agree

`startContainer` puts its container into the map and then, with three more calls,
into the record; the scan leaves alone what is in the map.  When one of the three
calls fails, or `TTL` answers `0` in the last half second, or another process writes
back what it has read before, the record stays without its container.  `Agreeable`
is the condition that rules this out.

* `live_sessions_agree`: **a live session that is in the map has its container in
  the record**, whenever no container is being started.
-/

namespace FullstackSvc.LanguageServer

open Text Async FullstackSvc.Store

variable {N : Type} {C : Config N} {s s' : World} {pid : Nat} {c : Request} {cmd : Cmd} {r : Reply}
  {x : Except JsError (sig.Res cmd)} {sessionId : JsString} {n : Nat} {k k' : Container} {o : Op}
  {σ σ' : (services C).Sys} {e : (services C).Event}

/-! ### The condition -/

/-- The session whose container a process starts. -/
def World.starts (s : World) (pid : Nat) : Option JsString :=
  match s.inside pid with
  | some (.start sessionId) => some sessionId
  | _ => none

theorem starts_of_inside (h : s.inside pid = some (.start sessionId)) :
    s.starts pid = some sessionId := by
  rw [World.starts, h]

/-- The record that a call of `startContainer` is about. -/
def Cmd.recordKey : Cmd → Option JsString
  | .redisGet key => some key
  | .redisTtl key => some key
  | .redisSetex key _ _ => some key
  | _ => none

theorem Cmd.OnRecord.key (h : cmd.OnRecord sessionId) : cmd.recordKey = some (sessionKey sessionId) := by
  rcases h with rfl | rfl | ⟨seconds, d, rfl⟩
  · rfl
  · rfl
  · rfl

/-- A record is written back only when it has the container that its writer has read;
while a record is live, no call of `startContainer` on it fails, and its `TTL` is not
asked in the last half second. -/
structure Agreeable (σ : (services C).Sys) (e : (services C).Event) : Prop where
  sparing : Sparing σ e
  kept : ∀ pid ∈ answered e, ∀ cmd ∈ σ.pending pid, ∀ key ∈ cmd.setexKey,
    ∀ found ∈ σ.shared.record? key, ∀ last ∈ σ.shared.lastGet pid,
      found.value.containerId = last.2.containerId
  lands : ∀ pid ∈ failing e, ∀ sessionId ∈ σ.shared.starts pid, ∀ cmd ∈ σ.pending pid,
    cmd.recordKey = some (sessionKey sessionId) → σ.shared.record? (sessionKey sessionId) = none
  inTime : ∀ pid ∈ answered e, ∀ sessionId ∈ σ.shared.starts pid, InTime sessionId σ e

instance : Decidable (InTime sessionId σ e) := by
  unfold InTime
  infer_instance

instance : Decidable (Agreeable σ e) :=
  decidable_of_iff (Sparing σ e ∧
    (∀ pid ∈ answered e, ∀ cmd ∈ σ.pending pid, ∀ key ∈ cmd.setexKey,
      ∀ found ∈ σ.shared.record? key, ∀ last ∈ σ.shared.lastGet pid,
        found.value.containerId = last.2.containerId) ∧
    (∀ pid ∈ failing e, ∀ sessionId ∈ σ.shared.starts pid, ∀ cmd ∈ σ.pending pid,
      cmd.recordKey = some (sessionKey sessionId) →
        σ.shared.record? (sessionKey sessionId) = none) ∧
    ∀ pid ∈ answered e, ∀ sessionId ∈ σ.shared.starts pid, InTime sessionId σ e)
    ⟨fun h => ⟨h.1, h.2.1, h.2.2.1, h.2.2.2⟩, fun h => ⟨h.sparing, h.kept, h.lands, h.inTime⟩⟩

theorem unrevived_of_agreeable (σ : (services C).Sys) (e : (services C).Event) (h : Agreeable σ e) :
    Unrevived σ e := h.sparing.unrevived

/-! ### Calls on a record -/

/-- A record that has its container keeps it. -/
theorem containerId_perform (hs : Sound C s) (hn : Need C pid c cmd s)
    (ok : allowed (C := C) Agreeable pid cmd r s) (h : perform pid cmd r s = some (x, s'))
    {e' : RedisEntry} (he' : s'.record? (sessionKey sessionId) = some e') (hk : Known s sessionId) :
    ∃ e, s.record? (sessionKey sessionId) = some e ∧
      (e.value.containerId ≠ none → e'.value.containerId ≠ none) := by
  have hnow := (still_perform h).now
  have hinsert : ∀ {seconds : Nat} {value : SessionData}, s'.redis =
      s.redis.insert (sessionKey sessionId) ⟨value, s.now + 1000 * seconds⟩ → e'.value = value := by
    intro seconds value eq
    rw [record_insert eq (by rw [hnow]; exact Nat.le_add_right _ _)] at he'
    exact (congrArg RedisEntry.value (Option.some.inj he')).symm
  cases redis_perform h with
  | same eq unset absent =>
    rw [World.record?, eq, hnow] at he'
    exact ⟨e', he', fun hne => hne⟩
  | setex key seconds value cmd_eq out_eq pos eq =>
    by_cases hkey : sessionKey sessionId = key
    · subst hkey cmd_eq
      rw [hinsert eq]
      have hr : r.faulty = false := not_faulty h (by rw [out_eq]; decide)
      obtain ⟨e, he⟩ := Option.isSome_iff_exists.mp (live_of_unrevived unrevived_of_agreeable ok hr hk)
      obtain ⟨sid, hsid, -, -, hcase⟩ := hn
      obtain rfl := sessionKey_inj hsid
      rcases hcase with hc | ⟨⟨f, d₀, -, -, hlast, -, -, hfields⟩, -⟩
      · exact absurd hk (hc.unknown hs)
      · refine ⟨e, he, fun hne => ?_⟩
        rcases hfields with hfields | ⟨-, -, n, hn, -⟩
        · obtain ⟨σ, rfl, hp, hm⟩ := ok
          have hsame := hm.kept pid (answered_resume hr) _ hp _ rfl e he _ hlast
          have hd : value.containerId = d₀.containerId := congrArg Prod.fst hfields
          rw [hd, ← hsame]
          exact hne
        · rw [hn]
          exact Option.some_ne_none n
    · rw [record_insert_ne eq hnow hkey] at he'
      exact ⟨e', he', fun hne => hne⟩
  | expire key seconds e cmd_eq out_eq found eq =>
    by_cases hkey : sessionKey sessionId = key
    · subst hkey
      rw [hinsert eq]
      exact ⟨e, found, fun hne => hne⟩
    · rw [record_insert_ne eq hnow hkey] at he'
      exact ⟨e', he', fun hne => hne⟩

/-- A call on a live record that is not made to fail finds it. -/
theorem done_of_live (hn : Need C pid c cmd s) (h : perform pid cmd r s = some (x, s'))
    (hc : cmd.OnRecord sessionId) (hr : r.faulty = false) {found : RedisEntry}
    (hf : s.record? (sessionKey sessionId) = some found)
    (ht : cmd = .redisTtl (sessionKey sessionId) → s.now + 500 ≤ found.expiresAt) :
    outcome cmd x = .done := by
  rcases hc with rfl | rfl | ⟨seconds, d, rfl⟩
  · cases x with
    | error e => exact absurd rfl (refused_of_failed h rfl hr)
    | ok a =>
      have ha : a = (s.record? (sessionKey sessionId)).map RedisEntry.value :=
        answer_perform h rfl fun n he => by cases he
      rw [hf] at ha
      rw [ha]
      rfl
  · exact ttl_done h hr hf (ht rfl)
  · have hpos : seconds ≠ 0 := by
      obtain ⟨sid, -, -, -, hcase⟩ := hn
      rcases hcase with hc | ⟨⟨f, d₀, -, -, -, hsec | ⟨hsec, -⟩, -⟩, -⟩
      · rw [hc.seconds]
        decide
      · rw [hsec]
        decide
      · omega
    cases x with
    | error e => exact absurd (if_neg hpos) (refused_of_failed h rfl hr)
    | ok a => rfl

/-! ### The invariant -/

/-- The container is one that a process has made and has still to put into the record. -/
def Underway (s : World) (sessionId : JsString) (n : Nat) : Prop :=
  ∃ k, s.containers[n]? = some k ∧ s.inside k.creator = some (.start sessionId) ∧
    s.dead k.creator = false

/-- What is known of the map and the records. -/
structure Agreeing (s : World) : Prop where
  spared : Spared s
  known : ∀ pid sessionId, s.inside pid = some (.start sessionId) → Known s sessionId
  written : ∀ pid sessionId seconds d n, d.containerId = some n →
    Logged s pid (.redisSetex (sessionKey sessionId) seconds d) .done → Known s sessionId ∧
      ∀ e, s.record? (sessionKey sessionId) = some e → e.value.containerId ≠ none
  faults : ∀ entry ∈ s.log, ∀ sessionId, entry.part = some (.start sessionId) →
    entry.cmd.OnRecord sessionId → entry.outcome ≠ .done → Expired s sessionId
  agreed : ∀ sessionId n e, s.containerMap.Has sessionId n →
    s.record? (sessionKey sessionId) = some e →
      e.value.containerId ≠ none ∨ Underway s sessionId n

theorem agreeing_initial : Agreeing World.initial where
  spared := spared_initial
  known _ _ hin := by cases hin
  written _ _ _ _ _ _ hl := by
    obtain ⟨e, he, -⟩ := hl
    cases he
  faults _ he := by cases he
  agreed _ _ _ hm := absurd hm JsMap.not_has_empty

/-- A call of `startContainer` on a record fails when the session has expired. -/
theorem faults_perform (hJ : Agreeing s) (hn : Need C pid c cmd s)
    (ok : allowed (C := C) Agreeable pid cmd r s) (h : perform pid cmd r s = some (x, s'))
    (hin : s.inside pid = some (.start sessionId)) (hc : cmd.OnRecord sessionId)
    (ho : outcome cmd x ≠ .done) : Expired s sessionId := by
  refine ⟨hJ.known pid sessionId hin, ?_⟩
  cases hf : s.record? (sessionKey sessionId) with
  | none => rfl
  | some found =>
    exfalso
    obtain ⟨σ, rfl, hp, hm⟩ := ok
    cases hr : r.faulty with
    | true =>
      have hnone := hm.lands pid (failing_resume hr) sessionId (starts_of_inside hin) cmd hp hc.key
      cases hf.symm.trans hnone
    | false =>
      refine ho (done_of_live hn h hc hr hf fun he => ?_)
      subst he
      have hpid : answered (C := C) (.resume pid r) = some pid := answered_resume hr
      exact hm.inTime pid hpid sessionId (starts_of_inside hin) pid hpid hp found hf

theorem Underway.mono (h : Underway s sessionId n) (ha : Advances s s')
    (hin : ∀ p, s.inside p = some (.start sessionId) → s'.inside p = some (.start sessionId))
    (hd : ∀ p, s.inside p = some (.start sessionId) → s.dead p = false → s'.dead p = false) :
    Underway s' sessionId n := by
  obtain ⟨k, hk, hi, hdead⟩ := h
  obtain ⟨k', hk', hf⟩ := ha.containers n k hk
  rw [← hf.creator] at hi hdead
  exact ⟨k', hk', hin _ hi, hd _ hi hdead⟩

theorem agreeing_perform (hs : Sound C s) (hJ : Agreeing s) (hc : s.calls[pid]? = some c)
    (hn : Need C pid c cmd s) (ok : allowed (C := C) Agreeable pid cmd r s)
    (h : perform pid cmd r s = some (x, s')) : Agreeing s' := by
  have hst := still_perform h
  have ha := advances_perform h
  have hact : Act C (allowed (C := C) Agreeable) pid c s s' := .perform cmd r x s' hc hn ok h
  have hstays : ∀ sid, Expired s sid → Expired s' sid := fun sid he =>
    expired_act unrevived_of_agreeable hact he
  refine ⟨spared_act unrevived_of_agreeable hs hJ.spared hact,
    fun p sid hin => (hJ.known p sid (hst.inside ▸ hin)).mono ha,
    fun p sid seconds d n hd hl => ?_, fun entry he sid hpart hcmd hout => ?_,
    fun sid n e' hm he' => ?_⟩
  · rcases logged_cases h hl with hl | ⟨-, rfl, hout⟩
    · obtain ⟨hk, hw⟩ := hJ.written p sid seconds d n hd hl
      refine ⟨hk.mono ha, fun e' he' => ?_⟩
      obtain ⟨e, he, hkeeps⟩ := containerId_perform hs hn ok h he' hk
      exact hkeeps (hw e he)
    · obtain ⟨found, hf, rfl⟩ := lookup_setex h rfl hout
      refine ⟨known_of_lookup hf, fun e' he' => ?_⟩
      obtain rfl := Option.some.inj ((record_eq_some.mp he').1.symm.trans hf)
      rw [hd]
      exact Option.some_ne_none n
  · rcases mem_log_perform h he with he | rfl
    · exact hstays sid (hJ.faults entry he sid hpart hcmd hout)
    · exact hstays sid (faults_perform hJ hn ok h hpart hcmd hout)
  · rw [hst.containerMap] at hm
    obtain ⟨e, he, hkeeps⟩ :=
      containerId_perform hs hn ok h he' (hs.known_of_tracked (hs.map sid n hm))
    rcases hJ.agreed sid n e hm he with hne | hu
    · exact Or.inl (hkeeps hne)
    · exact Or.inr (hu.mono ha (fun p hin => by rw [hst.inside]; exact hin)
        fun p _ hd => (hact.dead p).trans hd)

/-- An operation that leaves the map and does not leave `startContainer`. -/
theorem agreed_compute (hJ : Agreeing s) (hd : s.dead pid = false)
    (hact : Act C (allowed (C := C) Agreeable) pid c s (compute C pid o s).2)
    (hn : NeedOp C (allowed (C := C) Agreeable) pid c o s) (hs : Sound C s) {e : RedisEntry}
    (hm : (compute C pid o s).2.containerMap.Has sessionId n)
    (he : s.record? (sessionKey sessionId) = some e) :
    e.value.containerId ≠ none ∨ Underway (compute C pid o s).2 sessionId n := by
  have hstill : s.containerMap.Has sessionId n → (compute C pid o s).2.inside = s.inside →
      e.value.containerId ≠ none ∨ Underway (compute C pid o s).2 sessionId n := by
    intro hm hin
    refine (hJ.agreed sessionId n e hm he).imp_right fun hu => ?_
    exact hu.mono hact.advances (fun p hi => by rwa [hin]) fun p _ hp => (hact.dead p).trans hp
  cases o with
  | containerMapSet sid m =>
    rcases JsMap.has_set_iff.mp hm with ⟨rfl, rfl⟩ | ⟨-, hm⟩
    · rcases hn with ⟨⟨k, hk, -, hcreator, -⟩, hin⟩ | ⟨-, e', he', hn⟩
      · obtain ⟨k', hk', hf⟩ := hact.advances.containers n k hk
        have hpid : k'.creator = pid := hf.creator.trans hcreator
        exact Or.inr ⟨k', hk', by rw [hpid]; exact hin, by rw [hpid, hact.dead]; exact hd⟩
      · obtain rfl := Option.some.inj (he'.symm.trans he)
        rw [hn]
        exact Or.inl (Option.some_ne_none n)
    · exact hstill hm rfl
  | containerMapDelete sid => exact hstill (JsMap.has_delete_iff.mp hm).2 rfl
  | containerMapClear => exact absurd hm JsMap.not_has_clear
  | enter part =>
    refine (hJ.agreed sessionId n e hm he).imp_right fun hu => ?_
    refine hu.mono hact.advances (fun p hi => ?_) fun p _ hp => (hact.dead p).trans hp
    have hne : p ≠ pid := by
      rintro rfl
      cases hi.symm.trans hn.1
    exact (Function.update_of_ne hne _ _).trans hi
  | leave =>
    rcases hJ.agreed sessionId n e hm he with hne | hu
    · exact Or.inl hne
    · obtain ⟨k, hk, hi, hdead⟩ := hu
      by_cases hpid : k.creator = pid
      · -- the process has put the container into the record, or has failed to
        left
        obtain ⟨k₀, hk₀, hname, hreg⟩ := hs.map sessionId n hm
        obtain rfl := Option.some.inj (hk.symm.trans hk₀)
        rcases hn.1 n k sessionId hk hpid hname with ⟨-, hpub⟩ | ⟨hf, -⟩
        · rcases hpub with ⟨seconds, d, hd, hl⟩ | ⟨entry, hl, -, hpart, hcmd, hout⟩
          · exact (hJ.written pid sessionId seconds d n hd hl).2 e he
          · cases (hJ.faults entry hl sessionId hpart hcmd hout).2.symm.trans he
        · cases hf.symm.trans hreg
      · exact Or.inr ⟨k, hk, (Function.update_of_ne hpid _ _).trans hi, (hact.dead _).trans hdead⟩
  | write stream bytes =>
    have hmap : (s.write pid stream bytes).containerMap = s.containerMap :=
      write_keeps World.containerMap (fun _ => rfl) pid stream bytes
    exact hstill (hmap ▸ hm) (write_keeps World.inside (fun _ => rfl) pid stream bytes)
  | _ => exact hstill hm rfl

theorem agreeing_act (hs : Sound C s) (hJ : Agreeing s) (hd : s.dead pid = false)
    (h : Act C (allowed (C := C) Agreeable) pid c s s') : Agreeing s' := by
  have hact := h
  cases h with
  | perform cmd r x s' called need allowed eq => exact agreeing_perform hs hJ called need allowed eq
  | compute o called need =>
    have hcalm : Calm s (compute C pid o s).2 := calm_compute o
    have hstays : ∀ sid, Expired s sid → Expired (compute C pid o s).2 sid := fun sid he =>
      expired_act unrevived_of_agreeable hact he
    refine ⟨spared_act unrevived_of_agreeable hs hJ.spared hact, fun p sid hin => ?_,
      fun p sid seconds d n hd hl => ?_, fun entry he sid hpart hcmd hout => ?_,
      fun sid n e hm he => ?_⟩
    · refine Known.mono ?_ hact.advances
      rcases inside_compute C s pid o with he | ⟨part, rfl, he⟩ | ⟨rfl, he⟩
      · exact hJ.known p sid (he ▸ hin)
      · rw [he] at hin
        by_cases hp : p = pid
        · rw [hp, Function.update_self] at hin
          exact need.2 sid (Option.some.inj hin)
        · rw [Function.update_of_ne hp] at hin
          exact hJ.known p sid hin
      · rw [he] at hin
        by_cases hp : p = pid
        · rw [hp, Function.update_self] at hin
          cases hin
        · rw [Function.update_of_ne hp] at hin
          exact hJ.known p sid hin
    · obtain ⟨entry, hentry, hx⟩ := hl
      obtain ⟨hk, hw⟩ := hJ.written p sid seconds d n hd ⟨entry, hcalm.log ▸ hentry, hx⟩
      refine ⟨hk.mono hact.advances, ?_⟩
      rw [hcalm.record?]
      exact hw
    · exact hstays sid (hJ.faults entry (hcalm.log ▸ he) sid hpart hcmd hout)
    · exact agreed_compute hJ hd hact need hs hm (hcalm.record? _ ▸ he)

theorem agreeing_accept (hs : Sound C s) (hJ : Agreeing s) (h : World.accept pid c s = some s')
    (hshut : ∀ n sid, c = .stopTask n sid → s.record? (sessionKey sid) = none) : Agreeing s' := by
  have hspared := spared_accept hs hJ.spared h hshut
  have ha := advances_accept h
  obtain ⟨tasks, -, rfl⟩ := accept_still h
  refine ⟨hspared, hJ.known, hJ.written, hJ.faults, fun sid n e hm he => ?_⟩
  exact (hJ.agreed sid n e hm he).imp_right fun hu => hu.mono ha (fun _ hi => hi) fun p hi hd =>
    (dead_accept hs h hi).trans hd

/-- What an event from outside leaves of the records was there. -/
theorem record_aside {key : JsString} {found : RedisEntry} (ha : Aside s s')
    (h : s'.record? key = some found) : s.record? key = some found := by
  obtain ⟨hl, hle⟩ := record_eq_some.mp h
  exact record_eq_some.mpr ⟨ha.redis ▸ hl, ha.now.trans hle⟩

theorem agreeing_env {e : Env} (hJ : Agreeing s) (h : World.env C e s = some s') : Agreeing s' := by
  have ha := aside_env h
  refine ⟨spared_env hJ.spared h, fun p sid hin => (hJ.known p sid (ha.inside ▸ hin)).mono ha.advances,
    fun p sid seconds d n hd hl => ?_, fun entry he sid hpart hcmd hout => ?_, fun sid n e hm he => ?_⟩
  · obtain ⟨entry, hentry, hx⟩ := hl
    obtain ⟨hk, hw⟩ := hJ.written p sid seconds d n hd ⟨entry, ha.log ▸ hentry, hx⟩
    exact ⟨hk.mono ha.advances, fun e he => hw e (record_aside ha he)⟩
  · exact expired_env h (hJ.faults entry (ha.log ▸ he) sid hpart hcmd hout)
  · rcases map_env h with ⟨hmap, -, hbirth⟩ | ⟨-, rfl⟩
    · refine (hJ.agreed sid n e (hmap ▸ hm) (record_aside ha he)).imp_right fun hu => ?_
      refine hu.mono ha.advances (fun p hi => ha.inside ▸ hi) fun p _ hd => ?_
      rwa [World.dead, World.ofWorker, ha.calls, hbirth]
    · exact absurd hm JsMap.not_has_empty

theorem agreeing_of_reaches (h : Service.Reaches Agreeable (start C) σ) : Agreeing σ.shared := by
  refine shared_of_reaches agreeing_initial (fun hs hJ hd ha => agreeing_act hs hJ hd ha)
    (fun hs hJ hm ha => agreeing_accept hs hJ ha fun n sid he => ?_)
    (fun _ hJ _ he => agreeing_env hJ he) h
  exact hm.sparing.spares sid (by rw [he]; rfl)

/-- A process that has not died with its worker is in `startContainer`. -/
def Starts (s : World) : Prop :=
  ∃ p sessionId, s.inside p = some (.start sessionId) ∧ s.dead p = false

/-- **A live session that is in the map has its container in the record**, whenever no
container is being started; one without a container is not in the map, so the next
scan picks it up.  This holds in every run in which a record is written back only
with the container that it has, no call of `startContainer` on a live record fails,
and `TTL` is not asked in its last half second. -/
theorem live_sessions_agree (C : Config N) (σ : (services C).Sys)
    (h : Service.Reaches Agreeable (start C) σ) (hq : ¬ Starts σ.shared) (sessionId : JsString)
    (found : RedisEntry) (hrec : σ.shared.record? (sessionKey sessionId) = some found) :
    (∀ n, σ.shared.containerMap.get sessionId = some n → found.value.containerId = some n) ∧
      (found.value.containerId = none → σ.shared.containerMap.get sessionId = none) := by
  have hJ := agreeing_of_reaches h
  have hs : Sound C σ.shared := (holds_of_reaches h).2.1
  have hagree : ∀ n, σ.shared.containerMap.get sessionId = some n →
      found.value.containerId = some n := by
    intro n hget
    have hm := JsMap.get_eq_some_iff.mp hget
    rcases hJ.agreed sessionId n found hm hrec with hne | ⟨k, -, hin, hd⟩
    · obtain ⟨m, hm'⟩ := Option.ne_none_iff_exists'.mp hne
      obtain ⟨k, hk, hname, -⟩ := hs.map sessionId n hm
      obtain ⟨k', hk', hname', -⟩ := (hs.record hrec).container m hm'
      have hlive : (σ.shared.record? (sessionKey sessionId)).isSome := by rw [hrec]; rfl
      rw [hm', hs.alive n m k k' hk hk' (hname.trans hname'.symm)
        (hJ.spared.exists_of_live hs hk hname hlive)
        (hJ.spared.exists_of_live hs hk' hname' hlive)]
    · exact absurd ⟨_, _, hin, hd⟩ hq
  refine ⟨hagree, fun hnone => ?_⟩
  cases hget : σ.shared.containerMap.get sessionId with
  | none => rfl
  | some n => cases hnone.symm.trans (hagree n hget)

theorem not_starts (h : ¬ Busy s) : ¬ Starts s := by
  rintro ⟨p, sid, hin, hd⟩
  exact h ⟨p, _, hin, hd⟩

/-- After its container has been started, the session is in the map with it. -/
theorem live_sessions_agree_started :
    ∃ σ found, Service.run (start Config.plain) containerStarted = some σ ∧
      σ.shared.record? (sessionKey (js "0")) = some found ∧ found.value.containerId = some 0 := by
  have hrun : (Service.runIf Agreeable (start Config.plain) containerStarted).map (fun σ =>
      (decide (∀ p < σ.shared.calls.length, σ.shared.inside p = none ∨ σ.shared.dead p = true),
        decide (σ.shared.record? (sessionKey (js "0"))).isSome,
        σ.shared.containerMap.get (js "0"))) = some (true, true, some 0) := by decide +kernel
  obtain ⟨σ, hσ, hend⟩ := Option.map_eq_some_iff.mp hrun
  obtain ⟨hquiet, hend⟩ := Prod.mk.inj hend
  obtain ⟨hrec, hget⟩ := Prod.mk.inj hend
  obtain ⟨found, hfound⟩ := Option.isSome_iff_exists.mp (of_decide_eq_true hrec)
  have hr := Service.reaches_of_runIf hσ
  have hq := not_starts (not_busy (holds_of_reaches hr).2.1 (of_decide_eq_true hquiet))
  exact ⟨σ, found, Service.run_of_runIf hσ, hfound,
    (live_sessions_agree Config.plain σ hr hq (js "0") found hfound).1 0 hget⟩

/-- The container of a session is started when its record has 400 milliseconds left;
then its owner renews it. -/
def startedTooLate : List (services Config.plain).Event :=
  [.call (.createSession (js "ann")), .resume 0 .done, .env (.tick 599600),
    .call .scanAndCreateContainers, .resume 1 (.keys [sessionKey (js "0")])] ++
  List.replicate 6 (.resume 1 .done) ++
  [.call (.renewSession (js "0") (js "ann")), .resume 2 .done, .resume 2 .done]

/-- Everything has returned, the record is live and without a container, and the map
has the session. -/
theorem live_session_wedged :
    ∃ σ found, Service.Reaches Service.anyEvent (start Config.plain) σ ∧ ¬ Starts σ.shared ∧
      (∀ p ∈ σ.procs, p.prog.Returned) ∧
      σ.shared.record? (sessionKey (js "0")) = some found ∧
      σ.shared.containerMap.get (js "0") = some 0 ∧ found.value.containerId = none := by
  have hrun : (Service.run (start Config.plain) startedTooLate).map (fun σ =>
      (decide (∀ p < σ.shared.calls.length, σ.shared.inside p = none ∨ σ.shared.dead p = true),
        decide (∀ p ∈ σ.procs, p.prog.Returned),
        (σ.shared.record? (sessionKey (js "0"))).map (fun found => found.value.containerId),
        σ.shared.containerMap.get (js "0"))) = some (true, true, some none, some 0) := by
    decide +kernel
  obtain ⟨σ, hσ, hend⟩ := Option.map_eq_some_iff.mp hrun
  obtain ⟨hquiet, hend⟩ := Prod.mk.inj hend
  obtain ⟨hret, hend⟩ := Prod.mk.inj hend
  obtain ⟨hrec, hget⟩ := Prod.mk.inj hend
  obtain ⟨found, hfound, hnone⟩ := Option.map_eq_some_iff.mp hrec
  have hr : Service.Reaches Service.anyEvent (start Config.plain) σ :=
    Service.reaches_of_run hσ fun _ _ _ => trivial
  exact ⟨σ, found, hr, not_starts (not_busy (holds_of_reaches hr).2.1 (of_decide_eq_true hquiet)),
    of_decide_eq_true hret, hfound, hget, hnone⟩

end FullstackSvc.LanguageServer
