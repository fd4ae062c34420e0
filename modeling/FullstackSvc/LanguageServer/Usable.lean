import FullstackSvc.LanguageServer.Containers

/-!
# A container that a record names is there

A container is stopped because its session has expired (`cleanupExpiredSessions`)
or because the worker shuts down.  `Sparing` is the condition that leaves only the
first reason: no record that has expired is written anew, and a shutdown stops no
container of a session that is live.

* `spared_of_reaches`: in such runs what is stopped belongs to an expired session.
* `published_container_exists`: **a live record names a container that exists**.
-/

namespace FullstackSvc.LanguageServer

open Text Async FullstackSvc.Store

variable {N : Type} {C : Config N} {s s' : World} {pid : Nat} {c : Request} {cmd : Cmd} {r : Reply}
  {sessionId : JsString} {n : Nat} {k k' : Container} {o : Op} {σ σ' : (services C).Sys}
  {e : (services C).Event} {ok : (services C).Sys → (services C).Event → Prop}

/-! ### The condition -/

/-- No record that has expired is written anew. -/
def Unrevived (σ : (services C).Sys) (e : (services C).Event) : Prop :=
  ∀ pid ∈ answered e, ∀ cmd ∈ σ.pending pid, ∀ key ∈ cmd.setexKey, key ∈ σ.shared.redis →
    (σ.shared.record? key).isSome

/-- The session whose container `stopAllContainers` begins to stop. -/
def shutFor : (services C).Event → Option JsString
  | .call (.stopTask _ sessionId) => some sessionId
  | _ => none

/-- No record that has expired is written anew, and a shutdown stops no container of a
session that is live. -/
structure Sparing (σ : (services C).Sys) (e : (services C).Event) : Prop where
  unrevived : Unrevived σ e
  spares : ∀ sessionId ∈ shutFor e, σ.shared.record? (sessionKey sessionId) = none

instance : Decidable (Unrevived σ e) :=
  inferInstanceAs (Decidable (∀ pid ∈ answered e, ∀ cmd ∈ σ.pending pid, ∀ key ∈ cmd.setexKey,
    key ∈ σ.shared.redis → (σ.shared.record? key).isSome))

instance : Decidable (Sparing σ e) :=
  decidable_of_iff (Unrevived σ e ∧
    ∀ sessionId ∈ shutFor e, σ.shared.record? (sessionKey sessionId) = none)
    ⟨fun h => ⟨h.1, h.2⟩, fun h => ⟨h.unrevived, h.spares⟩⟩

/-! ### What has expired -/

/-- A record that is written is there, or it is the first one of its session. -/
theorem live_of_unrevived {seconds : Nat} {d : SessionData} (ho : ∀ σ e, ok σ e → Unrevived σ e)
    (ha : allowed ok pid (.redisSetex (sessionKey sessionId) seconds d) r s)
    (hr : r.faulty = false) (hk : Known s sessionId) : (s.record? (sessionKey sessionId)).isSome := by
  obtain ⟨σ, rfl, hp, hm⟩ := ha
  exact ho σ _ hm pid (answered_resume hr) _ hp (sessionKey sessionId) rfl hk

theorem expired_act (ho : ∀ σ e, ok σ e → Unrevived σ e) (h : Act C (allowed ok) pid c s s')
    (he : Expired s sessionId) : Expired s' sessionId := by
  refine ⟨he.1.mono h.advances, ?_⟩
  cases h with
  | compute o called need =>
    rw [(calm_compute o).record?]
    exact he.2
  | perform cmd r x s' called need allowed eq =>
    have hnow := (still_perform eq).now
    cases redis_perform eq with
    | same eq' unset absent =>
      rw [World.record?, eq', hnow]
      exact he.2
    | setex key seconds value cmd_eq out_eq pos eq' =>
      by_cases hk : sessionKey sessionId = key
      · subst hk cmd_eq
        have hl := live_of_unrevived ho allowed (not_faulty eq (by rw [out_eq]; decide)) he.1
        rw [he.2] at hl
        cases hl
      · rw [record_insert_ne eq' hnow hk]
        exact he.2
    | expire key seconds found cmd_eq out_eq hfound eq' =>
      by_cases hk : sessionKey sessionId = key
      · subst hk
        cases he.2.symm.trans hfound
      · rw [record_insert_ne eq' hnow hk]
        exact he.2

theorem expired_accept (h : World.accept pid c s = some s') (he : Expired s sessionId) :
    Expired s' sessionId := by
  obtain ⟨tasks, -, rfl⟩ := accept_still h
  exact he

theorem expired_env {e : Env} (h : World.env C e s = some s') (he : Expired s sessionId) :
    Expired s' sessionId := by
  have ha := aside_env h
  refine ⟨he.1.mono ha.advances, record_eq_none.mpr fun found hf => ?_⟩
  rw [ha.redis] at hf
  exact (record_eq_none.mp he.2 found hf).trans_le ha.now

/-- `EXISTS` misses a record that is not there. -/
theorem absent_of_missed {key : JsString} {x : Except JsError (sig.Res (.redisExists key))}
    (h : perform pid (.redisExists key) r s = some (x, s'))
    (ho : outcome (.redisExists key) x = .missed) :
    s.record? key = none := by
  cases x with
  | error e => cases ho
  | ok found =>
    obtain rfl : found = (s.record? key).isSome := answer_perform h rfl fun n he => by cases he
    cases hr : s.record? key with
    | none => rfl
    | some e =>
      rw [hr] at ho
      cases ho

/-! ### What is stopped -/

/-- What is stopped, and what is about to be stopped, belongs to expired sessions. -/
structure Spared (s : World) : Prop where
  missed : ∀ pid sessionId, Logged s pid (.redisExists (sessionKey sessionId)) .missed →
    Expired s sessionId
  tasked : ∀ (pid n : Nat) sessionId, s.calls[pid]? = some (.stopTask n sessionId) →
    Expired s sessionId
  stopped : ∀ (n : Nat) k sessionId, s.containers[n]? = some k → k.name = containerNameOf sessionId →
    k.stopper ≠ none → Expired s sessionId

/-- A session whose container is to be stopped has expired. -/
theorem Spared.of_doomed (h : Spared s) (hc : s.calls[pid]? = some c) (hd : Doomed c pid sessionId n s) :
    Expired s sessionId := by
  cases c with
  | cleanupExpiredSessions turns => exact h.missed pid sessionId hd
  | stopTask n' sid' =>
    obtain ⟨-, rfl⟩ := hd
    exact h.tasked pid n' sid' hc
  | _ => exact hd.elim

theorem spared_act (ho : ∀ σ e, ok σ e → Unrevived σ e) (hs : Sound C s) (hJ : Spared s)
    (h : Act C (allowed ok) pid c s s') : Spared s' := by
  have hstays : ∀ sid, Expired s sid → Expired s' sid := fun sid he => expired_act ho h he
  refine ⟨fun p sid hl => ?_, fun p n sid hp => hstays sid (hJ.tasked p n sid (h.calls ▸ hp)),
    fun n k' sid hk' hname hst => ?_⟩
  · cases h with
    | compute o called need =>
      obtain ⟨entry, he, hx⟩ := hl
      rw [(calm_compute o).log] at he
      exact hstays sid (hJ.missed p sid ⟨entry, he, hx⟩)
    | perform cmd r x s' called need allowed eq =>
      rcases logged_cases eq hl with hl | ⟨-, rfl, hout⟩
      · exact hstays sid (hJ.missed p sid hl)
      · obtain ⟨sid', hkey, hknown⟩ := need
        obtain rfl := sessionKey_inj hkey
        exact hstays sid ⟨hknown, absent_of_missed eq hout⟩
  · cases h with
    | compute o called need =>
      rcases container_compute o hk' with hk | ⟨sid', k, -, hk, -, rfl⟩
      · exact hstays sid (hJ.stopped n k' sid hk hname hst)
      · exact hstays sid (hJ.stopped n k sid hk hname hst)
    | perform cmd r x s' called need allowed eq =>
      cases handled_perform hs need allowed eq hk' with
      | kept k found => exact hstays sid (hJ.stopped n k' sid found hname hst)
      | create sid' r' new known inside free allowed good => exact absurd rfl hst
      | start k found creator stopper => exact absurd stopper hst
      | stop sid' k found name running stopping =>
        obtain rfl := containerNameOf_inj (name.symm.trans hname)
        exact hstays sid' (hJ.of_doomed called stopping.doomed)
      | remove sid' k found name stopper stopping =>
        exact hstays sid (hJ.stopped n k sid found hname hst)

theorem spared_accept (hs : Sound C s) (hJ : Spared s) (h : World.accept pid c s = some s')
    (hshut : ∀ n sid, c = .stopTask n sid → s.record? (sessionKey sid) = none) : Spared s' := by
  have hadmits := (accept_eq h).1
  have hstays : ∀ sid, Expired s sid → Expired s' sid := fun sid he => expired_accept h he
  obtain ⟨tasks, -, rfl⟩ := accept_still h
  refine ⟨fun p sid hl => hstays sid (hJ.missed p sid hl), fun p n sid hp => hstays sid ?_,
    fun n k sid hk hname hst => hstays sid (hJ.stopped n k sid hk hname hst)⟩
  rcases getElem?_concat_cases hp with hp | ⟨-, rfl⟩
  · exact hJ.tasked p n sid hp
  · exact ⟨hs.known_of_tracked (hs.tasks n sid (of_decide_eq_true hadmits)), hshut n sid rfl⟩

theorem spared_env {e : Env} (hJ : Spared s) (h : World.env C e s = some s') : Spared s' := by
  have ha := aside_env h
  have hstays : ∀ sid, Expired s sid → Expired s' sid := fun sid he => expired_env h he
  refine ⟨fun p sid hl => hstays sid (hJ.missed p sid ?_),
    fun p n sid hp => hstays sid (hJ.tasked p n sid (ha.calls ▸ hp)),
    fun n k' sid hk' hname hst => ?_⟩
  · obtain ⟨entry, he, hx⟩ := hl
    exact ⟨entry, ha.log ▸ he, hx⟩
  · obtain ⟨k, hk, hr⟩ := ha.containers.back n k' hk'
    exact hstays sid (hJ.stopped n k sid hk (hr.follows.name.symm.trans hname) (hr.stopper ▸ hst))

theorem spared_initial : Spared World.initial where
  missed _ _ hl := by
    obtain ⟨e, he, -⟩ := hl
    cases he
  tasked _ _ _ hp := by cases hp
  stopped _ _ _ hk := by cases hk

/-- **What is stopped belongs to expired sessions.** -/
theorem spared_of_reaches (ho : ∀ σ e, ok σ e → Sparing σ e) (h : Service.Reaches ok (start C) σ) :
    Spared σ.shared := by
  refine shared_of_reaches spared_initial
    (fun hs hJ _ ha => spared_act (fun σ e hm => (ho σ e hm).unrevived) hs hJ ha)
    (fun hs hJ hm ha => spared_accept hs hJ ha fun n sid he => ?_) (fun _ hJ _ he => spared_env hJ he) h
  exact (ho _ _ hm).spares sid (by rw [he]; rfl)

/-- A container of a session that is live exists. -/
theorem Spared.exists_of_live (h : Spared s) (hs : Sound C s) (hk : s.containers[n]? = some k)
    (hname : k.name = containerNameOf sessionId)
    (hl : (s.record? (sessionKey sessionId)).isSome) : k.phase ≠ .removed := by
  intro hphase
  have hst : k.stopper ≠ none := by
    intro hnone
    have hstands := (hs.containers n k hk).stopper.mp hnone
    rw [hphase] at hstands
    exact absurd hstands (by decide)
  rw [(h.stopped n k sessionId hk hname hst).2] at hl
  cases hl

/-- **A live record names a container that exists**, the one of its session, in every
run in which no record that has expired is written anew and a shutdown stops no
container of a session that is live. -/
theorem published_container_exists (C : Config N) (σ : (services C).Sys)
    (h : Service.Reaches Sparing (start C) σ) (sessionId : JsString) (found : RedisEntry)
    (hrec : σ.shared.record? (sessionKey sessionId) = some found) (n : Nat)
    (hn : found.value.containerId = some n) :
    ∃ k, σ.shared.containers[n]? = some k ∧ k.name = containerNameOf sessionId ∧
      k.phase ≠ .removed := by
  have hs : Sound C σ.shared := (holds_of_reaches h).2.1
  have hJ : Spared σ.shared := spared_of_reaches (fun _ _ hm => hm) h
  obtain ⟨k, hk, hname, -⟩ := (hs.record hrec).container n hn
  exact ⟨k, hk, hname, hJ.exists_of_live hs hk hname (by rw [hrec]; rfl)⟩

/-- A container is started, and the worker exits and starts anew. -/
def restartedWorker : List (services Config.plain).Event :=
  containerStarted ++ [.env .workerExit, .env .workerInit]

theorem published_container_exists_restarted :
    ∃ σ k, Service.run (start Config.plain) restartedWorker = some σ ∧
      σ.shared.containers[0]? = some k ∧ k.name = containerNameOf (js "0") ∧ k.phase ≠ .removed := by
  have hrun : (Service.runIf Sparing (start Config.plain) restartedWorker).map (fun σ =>
      (σ.shared.record? (sessionKey (js "0"))).map fun found => found.value.containerId) =
      some (some (some 0)) := by decide +kernel
  obtain ⟨σ, hσ, hend⟩ := Option.map_eq_some_iff.mp hrun
  obtain ⟨found, hrec, hn⟩ := Option.map_eq_some_iff.mp hend
  obtain ⟨k, hk⟩ := published_container_exists Config.plain σ (Service.reaches_of_runIf hσ) (js "0")
    found hrec 0 hn
  exact ⟨σ, k, Service.run_of_runIf hσ, hk⟩

/-- The worker shuts down while a session is live, and starts anew. -/
def shutdownAndRestart : List (services Config.plain).Event :=
  containerStarted ++ [.call .onModuleDestroy, .call (.stopTask 0 (js "0"))] ++
  List.replicate 3 (.resume 3 .done) ++ List.replicate 2 (.resume 2 .done) ++
  [.env .workerExit, .env .workerInit]

/-- The record still names the container that the worker has removed. -/
theorem published_container_removed_by_shutdown :
    ∃ σ found, Service.Reaches Service.anyEvent (start Config.plain) σ ∧
      σ.shared.workerUp = true ∧ ¬ Busy σ.shared ∧ (∀ p ∈ σ.procs, p.prog.Returned) ∧
      σ.shared.record? (sessionKey (js "0")) = some found ∧ found.value.containerId = some 0 ∧
      σ.shared.phase? 0 = none := by
  have hrun : (Service.run (start Config.plain) shutdownAndRestart).map (fun σ =>
      ((σ.shared.workerUp, decide (∀ p < σ.shared.calls.length,
        σ.shared.inside p = none ∨ σ.shared.dead p = true)),
        decide (∀ p ∈ σ.procs, p.prog.Returned),
        (σ.shared.record? (sessionKey (js "0"))).map (fun found => found.value.containerId),
        σ.shared.phase? 0)) =
      some ((true, true), true, some (some 0), none) := by decide +kernel
  obtain ⟨σ, hσ, hend⟩ := Option.map_eq_some_iff.mp hrun
  obtain ⟨hup, hend⟩ := Prod.mk.inj hend
  obtain ⟨hup, hquiet⟩ := Prod.mk.inj hup
  obtain ⟨hret, hend⟩ := Prod.mk.inj hend
  obtain ⟨hrec, hphase⟩ := Prod.mk.inj hend
  obtain ⟨found, hfound, hn⟩ := Option.map_eq_some_iff.mp hrec
  have hr : Service.Reaches Service.anyEvent (start Config.plain) σ :=
    Service.reaches_of_run hσ fun _ _ _ => trivial
  exact ⟨σ, found, hr, hup, not_busy (holds_of_reaches hr).2.1 (of_decide_eq_true hquiet),
    of_decide_eq_true hret, hfound, hn, hphase⟩

end FullstackSvc.LanguageServer
