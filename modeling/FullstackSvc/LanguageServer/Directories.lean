import FullstackSvc.LanguageServer.Usable

/-!
# The directories of sessions

Two programs make the directory of a session, and only `stopContainer` deletes it,
after two calls of Docker, for a session that the map of the worker has.
`Housekept` is the condition on the runs in which every directory is deleted in the
end: directories are made only for live sessions, a session with a directory expires
only when the map has it, the calls of the cleanup do not fail, no container that has
exited by itself is told to stop, and the worker forgets its map only when no directory
depends on it.

* `directories_owned`: **every directory belongs to a session that is live or in the
  map**, whenever no container is being started or stopped.
-/

namespace FullstackSvc.LanguageServer

open Text Async FullstackSvc.Store

variable {N : Type} {C : Config N} {s s' : World} {pid : Nat} {c : Request} {cmd : Cmd} {r : Reply}
  {x : Except JsError (sig.Res cmd)} {sessionId path : JsString} {n : Nat} {k k' : Container} {o : Op}
  {σ σ' : (services C).Sys} {e : (services C).Event}

/-! ### The condition -/

/-- The ids that have been drawn. -/
def World.sessionIds (C : Config N) (s : World) : List JsString :=
  (List.range s.drawnBy.length).map C.ulid.text

theorem mem_sessionIds (hs : Sound C s) (hk : Known s sessionId) : sessionId ∈ s.sessionIds C := by
  obtain ⟨p, ⟨i, hi, rfl⟩, -⟩ := hs.created sessionId hk
  exact List.mem_map.mpr ⟨i, List.mem_range.mpr (List.getElem?_eq_some_iff.mp hi).1, rfl⟩

/-- The session has a directory. -/
def World.housed (C : Config N) (s : World) (sessionId : JsString) : Bool :=
  s.directories (join C.basePath sessionId)

/-- The session has a record that has not expired. -/
def World.live (s : World) (sessionId : JsString) : Bool := (s.record? (sessionKey sessionId)).isSome

/-- A process that has not died has stopped the container of the session and is still
in `stopContainer`. -/
def BeingCleared (s : World) (sessionId : JsString) : Prop :=
  ∃ k ∈ s.containers, k.name = containerNameOf sessionId ∧ ∃ q ∈ k.stopper,
    s.inside q = some (.stop sessionId) ∧ s.dead q = false

instance : Decidable (BeingCleared s sessionId) :=
  inferInstanceAs (Decidable (∃ k ∈ s.containers, k.name = containerNameOf sessionId ∧
    ∃ q ∈ k.stopper, s.inside q = some (.stop sessionId) ∧ s.dead q = false))

/-- The call stops or removes a container or deletes a directory. -/
def Cmd.clears : Cmd → Bool
  | .stopContainer _ => true
  | .removeContainer _ => true
  | .rm _ => true
  | _ => false

/-- The directory that a call makes. -/
def Cmd.makes : Cmd → Option JsString
  | .mkdir path => some path
  | _ => none

/-- The worker exits. -/
def exits : (services C).Event → Bool
  | .env .workerExit => true
  | _ => false

/-- No call of the cleanup is made to fail, and no container that has exited is told to
stop; a directory is made only for a live session; a session with a directory expires
only when the map has it; the worker exits only when every session with a directory is
live, and clears its map only when every such session is live or its container is being
stopped. -/
structure Housekept (σ : (services C).Sys) (e : (services C).Event) : Prop where
  sparing : Sparing σ e
  clears : ∀ pid ∈ failing e, ∀ cmd ∈ σ.pending pid, cmd.clears = false
  exited : StopsNoExited σ e
  makes : ∀ pid ∈ answered e, ∀ cmd ∈ σ.pending pid, ∀ path ∈ cmd.makes,
    ∀ sessionId ∈ σ.shared.sessionIds C, path = join C.basePath sessionId →
      σ.shared.live sessionId = true
  expires : ∀ ms ∈ tickOf e, ∀ sessionId ∈ σ.shared.sessionIds C, σ.shared.housed C sessionId = true →
    ∀ found ∈ σ.shared.record? (sessionKey sessionId), found.expiresAt < σ.shared.now + ms →
      (σ.shared.containerMap.get sessionId).isSome
  exits : exits e = true → ∀ sessionId ∈ σ.shared.sessionIds C, σ.shared.housed C sessionId = true →
    σ.shared.live sessionId = true
  forgets : ∀ pid ∈ answered e, σ.pending pid = some .joinStops →
    ∀ sessionId ∈ σ.shared.sessionIds C, σ.shared.housed C sessionId = true →
      σ.shared.live sessionId = true ∨ BeingCleared σ.shared sessionId

instance : Decidable (Housekept σ e) :=
  decidable_of_iff (Sparing σ e ∧
    (∀ pid ∈ failing e, ∀ cmd ∈ σ.pending pid, cmd.clears = false) ∧ StopsNoExited σ e ∧
    (∀ pid ∈ answered e, ∀ cmd ∈ σ.pending pid, ∀ path ∈ cmd.makes,
      ∀ sessionId ∈ σ.shared.sessionIds C, path = join C.basePath sessionId →
        σ.shared.live sessionId = true) ∧
    (∀ ms ∈ tickOf e, ∀ sessionId ∈ σ.shared.sessionIds C, σ.shared.housed C sessionId = true →
      ∀ found ∈ σ.shared.record? (sessionKey sessionId), found.expiresAt < σ.shared.now + ms →
        (σ.shared.containerMap.get sessionId).isSome) ∧
    (LanguageServer.exits e = true → ∀ sessionId ∈ σ.shared.sessionIds C,
      σ.shared.housed C sessionId = true → σ.shared.live sessionId = true) ∧
    ∀ pid ∈ answered e, σ.pending pid = some .joinStops →
      ∀ sessionId ∈ σ.shared.sessionIds C, σ.shared.housed C sessionId = true →
        σ.shared.live sessionId = true ∨ BeingCleared σ.shared sessionId)
    ⟨fun h => ⟨h.1, h.2.1, h.2.2.1, h.2.2.2.1, h.2.2.2.2.1, h.2.2.2.2.2.1, h.2.2.2.2.2.2⟩,
      fun h => ⟨h.sparing, h.clears, h.exited, h.makes, h.expires, h.exits, h.forgets⟩⟩

theorem unrevived_of_housekept (σ : (services C).Sys) (e : (services C).Event) (h : Housekept σ e) :
    Unrevived σ e := h.sparing.unrevived

/-- A call of the cleanup has not been made to fail. -/
theorem good_of_clears (ok : allowed (C := C) Housekept pid cmd r s) (hc : cmd.clears = true) :
    r.faulty = false := by
  obtain ⟨σ, rfl, hp, hm⟩ := ok
  by_contra hf
  have hnot := hm.clears pid (failing_resume ((Bool.not_eq_false _).mp hf)) cmd hp
  cases hc.symm.trans hnot

/-! ### The invariant -/

theorem BeingCleared.mono (h : BeingCleared s sessionId) (ha : Onward s.containers s'.containers)
    (hin : ∀ q, s.inside q = some (.stop sessionId) → s'.inside q = some (.stop sessionId))
    (hd : ∀ q, s.inside q = some (.stop sessionId) → s.dead q = false → s'.dead q = false) :
    BeingCleared s' sessionId := by
  obtain ⟨k, hk, hname, q, hq, hi, hdead⟩ := h
  obtain ⟨n, hn⟩ := List.mem_iff_getElem?.mp hk
  obtain ⟨k', hk', hf⟩ := ha n k hn
  exact ⟨k', List.mem_of_getElem? hk', hf.name.trans hname, q, hf.stopper q hq, hin q hi, hd q hi hdead⟩

/-- What is known of the directories. -/
structure Tidy (C : Config N) (s : World) : Prop where
  spared : Spared s
  stopped : ∀ pid n, Logged s pid (.stopContainer n) .failed →
    ∃ k, s.containers[n]? = some k ∧ k.stopper ≠ none
  removed : ∀ pid n, ¬ Logged s pid (.removeContainer n) .failed
  gone : ∀ pid path out, Logged s pid (.rm path) out → s.directories path = false ∧
    ∃ sessionId, path = join C.basePath sessionId ∧ Expired s sessionId
  cleared : ∀ (n : Nat) k sessionId, s.containers[n]? = some k → k.name = containerNameOf sessionId →
    k.stopper ≠ none → s.housed C sessionId = true → BeingCleared s sessionId
  owned : ∀ path, s.directories path = true → ∃ sessionId, path = join C.basePath sessionId ∧
    Known s sessionId ∧ (s.live sessionId = true ∨ (∃ n, s.containerMap.Has sessionId n) ∨
      BeingCleared s sessionId)

theorem tidy_initial : Tidy C World.initial where
  spared := spared_initial
  stopped _ _ hl := by
    obtain ⟨e, he, -⟩ := hl
    cases he
  removed _ _ hl := by
    obtain ⟨e, he, -⟩ := hl
    cases he
  gone _ _ _ hl := by
    obtain ⟨e, he, -⟩ := hl
    cases he
  cleared _ _ _ hk := by cases hk
  owned _ hp := by cases hp

theorem live_eq_false (he : Expired s sessionId) : s.live sessionId = false := by
  rw [World.live, he.2]
  rfl

/-- No directory is made for an expired session. -/
theorem housed_back (hs : Sound C s) (hn : Need C pid c cmd s)
    (ok : allowed (C := C) Housekept pid cmd r s) (h : perform pid cmd r s = some (x, s'))
    (he : Expired s sessionId) (hh : s'.housed C sessionId = true) : s.housed C sessionId = true := by
  rw [World.housed] at hh ⊢
  cases volume_perform h with
  | same directories files unremoved => rwa [directories] at hh
  | mkdir path cmd_eq out_eq directories files =>
    by_cases hpath : join C.basePath sessionId = path
    · obtain ⟨σ, rfl, hp, hm⟩ := ok
      have hr : r.faulty = false := not_faulty h (by rw [out_eq]; decide)
      have hl := hm.makes pid (answered_resume hr) cmd hp path (by rw [cmd_eq]; rfl) sessionId
        (mem_sessionIds hs he.1) hpath.symm
      cases hl.symm.trans (live_eq_false he)
    · rwa [directories, Function.update_of_ne hpath] at hh
  | file path cmd_eq directories files => rwa [directories] at hh
  | rm path cmd_eq out_eq directories files =>
    rw [directories] at hh
    exact (Bool.and_eq_true_iff.mp hh).1

/-- A directory that is deleted is gone. -/
theorem gone_of_rm {path : JsString} {x : Except JsError (sig.Res (.rm path))}
    (h : perform pid (.rm path) r s = some (x, s')) (hr : r.faulty = false) :
    s'.directories path = false := by
  have hout : outcome (.rm path) x = .done := by
    cases x with
    | error e => exact absurd rfl (refused_of_failed h rfl hr)
    | ok a => rfl
  cases volume_perform h with
  | same directories files unremoved => exact absurd hout (unremoved path rfl)
  | mkdir path' cmd_eq out_eq directories files => cases cmd_eq
  | file path' cmd_eq directories files =>
    rcases cmd_eq with he | ⟨bytes, he⟩
    · cases he
    · cases he
  | rm path' cmd_eq out_eq directories files =>
    obtain rfl := Cmd.rm.inj cmd_eq
    rw [directories]
    show (s.directories path && !within path path) = false
    have hw : within path path = true := Bool.or_eq_true_iff.mpr (Or.inl (decide_eq_true rfl))
    rw [hw, Bool.not_true, Bool.and_false]

variable {may : Nat → Cmd → Reply → World → Prop}

theorem gone_perform (hs : Sound C s) (hJ : Tidy C s) (hc : s.calls[pid]? = some c)
    (hn : Need C pid c cmd s) (ok : allowed (C := C) Housekept pid cmd r s)
    (h : perform pid cmd r s = some (x, s')) {p : Nat} {out : Outcome}
    (hl : Logged s' p (.rm path) out) : s'.directories path = false ∧
      ∃ sessionId, path = join C.basePath sessionId ∧ Expired s' sessionId := by
  have hact : Act C (allowed (C := C) Housekept) pid c s s' := .perform cmd r x s' hc hn ok h
  have hstays : ∀ sid, Expired s sid → Expired s' sid := fun sid he =>
    expired_act unrevived_of_housekept hact he
  rcases logged_cases h hl with hl | ⟨-, rfl, -⟩
  · obtain ⟨hgone, sid, rfl, he⟩ := hJ.gone p path out hl
    refine ⟨?_, sid, rfl, hstays sid he⟩
    by_contra hne
    cases hgone.symm.trans (housed_back hs hn ok h he ((Bool.not_eq_false _).mp hne))
  · obtain ⟨sid, n, rfl, hstopping, -⟩ := hn
    exact ⟨gone_of_rm h (good_of_clears ok rfl), sid, rfl,
      hstays sid (hJ.spared.of_doomed hc hstopping.doomed)⟩

theorem cleared_perform (hs : Sound C s) (hJ : Tidy C s) (hn : Need C pid c cmd s)
    (ok : allowed (C := C) Housekept pid cmd r s) (h : perform pid cmd r s = some (x, s'))
    (hact : Act C (allowed (C := C) Housekept) pid c s s') (hk' : s'.containers[n]? = some k')
    (hname : k'.name = containerNameOf sessionId) (hst : k'.stopper ≠ none)
    (hh : s'.housed C sessionId = true) : BeingCleared s' sessionId := by
  have hstill := still_perform h
  have hold : ∀ k, s.containers[n]? = some k → k.name = containerNameOf sessionId →
      k.stopper ≠ none → BeingCleared s' sessionId := by
    intro k hk hname hst
    have he := hJ.spared.stopped n k sessionId hk hname hst
    exact (hJ.cleared n k sessionId hk hname hst (housed_back hs hn ok h he hh)).mono
      (onward_perform h) (fun q hi => hstill.inside ▸ hi) fun q _ hd => (hact.dead q).trans hd
  cases handled_perform hs hn ok h hk' with
  | kept k found => exact hold k' found hname hst
  | create sid r' new known inside free allowed good => exact absurd rfl hst
  | start k found creator stopper => exact absurd stopper hst
  | stop sid k found name running stopping =>
    obtain rfl := containerNameOf_inj (name.symm.trans hname)
    exact ⟨_, List.mem_of_getElem? hk', name, pid, rfl, hstill.inside ▸ stopping.inside,
      (hact.dead pid).trans (not_dead_of_perform h)⟩
  | remove sid k found name stopper stopping =>
    refine hold k found hname ?_
    rw [stopper]
    exact Option.some_ne_none pid

theorem owned_perform (hs : Sound C s) (hJ : Tidy C s) (hn : Need C pid c cmd s)
    (ok : allowed (C := C) Housekept pid cmd r s) (h : perform pid cmd r s = some (x, s'))
    (hact : Act C (allowed (C := C) Housekept) pid c s s') (hp : s'.directories path = true) :
    ∃ sessionId, path = join C.basePath sessionId ∧ Known s' sessionId ∧
      (s'.live sessionId = true ∨ (∃ n, s'.containerMap.Has sessionId n) ∨
        BeingCleared s' sessionId) := by
  have hstill := still_perform h
  have ha := advances_perform h
  have hold : s.directories path = true → ∃ sessionId, path = join C.basePath sessionId ∧
      Known s' sessionId ∧ (s'.live sessionId = true ∨ (∃ n, s'.containerMap.Has sessionId n) ∨
        BeingCleared s' sessionId) := by
    intro hp
    obtain ⟨sid, hpath, hk, hl | hm | hb⟩ := hJ.owned path hp
    · exact ⟨sid, hpath, hk.mono ha, Or.inl (live_perform h hl)⟩
    · exact ⟨sid, hpath, hk.mono ha, Or.inr (Or.inl (by rwa [hstill.containerMap]))⟩
    · exact ⟨sid, hpath, hk.mono ha, Or.inr (Or.inr (hb.mono ha.containers
        (fun q hi => hstill.inside ▸ hi) fun q _ hd => (hact.dead q).trans hd))⟩
  cases volume_perform h with
  | same directories files unremoved => exact hold (directories ▸ hp)
  | mkdir path' cmd_eq out_eq directories files =>
    by_cases hpath : path = path'
    · subst hpath cmd_eq
      obtain ⟨-, sid, hsid, hk⟩ := hn
      obtain ⟨σ, rfl, hpend, hm⟩ := ok
      have hr : r.faulty = false := not_faulty h (by rw [out_eq]; decide)
      have hl := hm.makes pid (answered_resume hr) _ hpend path rfl sid (mem_sessionIds hs hk) hsid
      exact ⟨sid, hsid, hk.mono ha, Or.inl (live_perform h hl)⟩
    · rw [directories, Function.update_of_ne hpath] at hp
      exact hold hp
  | file path' cmd_eq directories files => exact hold (directories ▸ hp)
  | rm path' cmd_eq out_eq directories files =>
    rw [directories] at hp
    exact hold (Bool.and_eq_true_iff.mp hp).1

theorem tidy_perform (hs : Sound C s) (hJ : Tidy C s) (hc : s.calls[pid]? = some c)
    (hn : Need C pid c cmd s) (ok : allowed (C := C) Housekept pid cmd r s)
    (h : perform pid cmd r s = some (x, s')) : Tidy C s' := by
  have hact : Act C (allowed (C := C) Housekept) pid c s s' := .perform cmd r x s' hc hn ok h
  refine ⟨spared_act unrevived_of_housekept hs hJ.spared hact, fun p n hl => ?_, fun p n hl => ?_,
    fun p path out hl => gone_perform hs hJ hc hn ok h hl,
    fun n k' sid hk' hname hst hh => cleared_perform hs hJ hn ok h hact hk' hname hst hh,
    fun path hp => owned_perform hs hJ hn ok h hact hp⟩
  · refine stopper_onward (onward_perform h) ?_
    rcases logged_cases h hl with hl | ⟨-, rfl, hout⟩
    · exact hJ.stopped p n hl
    · have hr := good_of_clears ok rfl
      exact stopper_of_refused hs hn h hout hr (not_exited_of_stop (fun _ _ hm => hm.exited) ok hr)
  · rcases logged_cases h hl with hl | ⟨-, rfl, hout⟩
    · exact hJ.removed p n hl
    · exact removed_of_good hn h (good_of_clears ok rfl) hout

/-- A process leaves `stopContainer` when the directory is gone. -/
theorem beingCleared_compute (hJ : Tidy C s) (hact : Act C may pid c s (compute C pid o s).2)
    (hn : NeedOp C may pid c o s) (hb : BeingCleared s sessionId)
    (hh : s.housed C sessionId = true) : BeingCleared (compute C pid o s).2 sessionId := by
  have ha := hact.advances
  have hd : ∀ q, s.inside q = some (.stop sessionId) → s.dead q = false →
      (compute C pid o s).2.dead q = false := fun q _ hd => (hact.dead q).trans hd
  rcases inside_compute C s pid o with he | ⟨part, rfl, he⟩ | ⟨rfl, he⟩
  · exact hb.mono ha.containers (fun q hi => by rwa [he]) hd
  · refine hb.mono ha.containers (fun q hi => ?_) hd
    have hne : q ≠ pid := by
      rintro rfl
      cases hi.symm.trans hn.1
    rwa [he, Function.update_of_ne hne]
  · obtain ⟨k, hk, hname, q, hq, hi, hdead⟩ := hb
    obtain ⟨n, hget⟩ := List.mem_iff_getElem?.mp hk
    by_cases hpid : q = pid
    · subst hpid
      rcases hn.2 n k sessionId hget hq hname with ⟨-, out, hl⟩ | hl
      · cases hh.symm.trans (hJ.gone q _ out hl).1
      · exact absurd hl (hJ.removed q n)
    · exact ⟨k, hk, hname, q, hq, (Function.update_of_ne hpid _ _).trans hi, hd q hi hdead⟩

/-- When the map is cleared, a directory needs it no more. -/
theorem kept_by_clear (hs : Sound C s)
    (hn : NeedOp C (allowed (C := C) Housekept) pid c .containerMapClear s) (hk : Known s sessionId)
    (hp : s.housed C sessionId = true) : s.live sessionId = true ∨ BeingCleared s sessionId := by
  obtain ⟨-, s₀, r, x, ⟨σ, rfl, hpend, hm⟩, hx⟩ := hn
  have hstill := still_perform hx
  have hids : sessionId ∈ σ.shared.sessionIds C := by
    have hmem := mem_sessionIds hs hk
    rwa [World.sessionIds, hstill.drawnBy] at hmem
  have hhoused : σ.shared.housed C sessionId = true := by
    rw [World.housed] at hp ⊢
    cases volume_perform hx with
    | same directories files unremoved => rwa [directories] at hp
    | mkdir path cmd_eq out_eq directories files => cases cmd_eq
    | file path cmd_eq directories files => rwa [directories] at hp
    | rm path cmd_eq out_eq directories files => cases cmd_eq
  rcases hm.forgets pid (answered_resume (reply_joinStops hx)) hpend sessionId hids hhoused with hl | hb
  · exact Or.inl (live_perform hx hl)
  · refine Or.inr (hb.mono (onward_perform hx) (fun q hi => hstill.inside ▸ hi) fun q _ hd => ?_)
    rwa [World.dead, World.ofWorker, hstill.calls, hstill.workerBirth]

theorem owned_compute (hs : Sound C s) (hJ : Tidy C s)
    (hact : Act C (allowed (C := C) Housekept) pid c s (compute C pid o s).2)
    (hn : NeedOp C (allowed (C := C) Housekept) pid c o s) (hp : s.directories path = true) :
    ∃ sessionId, path = join C.basePath sessionId ∧ Known (compute C pid o s).2 sessionId ∧
      ((compute C pid o s).2.live sessionId = true ∨
        (∃ n, (compute C pid o s).2.containerMap.Has sessionId n) ∨
        BeingCleared (compute C pid o s).2 sessionId) := by
  obtain ⟨sid, rfl, hk, hwhy⟩ := hJ.owned path hp
  refine ⟨sid, rfl, hk.mono hact.advances, ?_⟩
  have hlive : (compute C pid o s).2.live sid = s.live sid := by
    rw [World.live, World.live, (calm_compute o).record?]
  rcases hwhy with hl | ⟨n, hm⟩ | hb
  · exact Or.inl (hlive.trans hl)
  · cases o with
    | containerMapSet sid' m =>
      right; left
      by_cases hsid : sid = sid'
      · exact ⟨m, JsMap.has_set_iff.mpr (Or.inl ⟨hsid, rfl⟩)⟩
      · exact ⟨n, JsMap.has_set_iff.mpr (Or.inr ⟨hsid, hm⟩)⟩
    | containerMapDelete sid' =>
      by_cases hsid : sid = sid'
      · subst hsid
        obtain ⟨-, -, m, k, hk, hname, -, hend⟩ := id hn
        refine Or.inr (Or.inr (beingCleared_compute hJ hact hn (hJ.cleared m k sid hk hname ?_ hp) hp))
        rcases hend with ⟨hst, -⟩ | hl
        · rw [hst]
          exact Option.some_ne_none pid
        · obtain ⟨k₁, hk₁, hst⟩ := hJ.stopped pid m hl
          obtain rfl := Option.some.inj (hk.symm.trans hk₁)
          exact hst
      · exact Or.inr (Or.inl ⟨n, JsMap.has_delete_iff.mpr ⟨hsid, hm⟩⟩)
    | containerMapClear =>
      rcases kept_by_clear hs hn hk hp with hl | hb
      · exact Or.inl (hlive.trans hl)
      · exact Or.inr (Or.inr (beingCleared_compute hJ hact hn hb hp))
    | write stream bytes =>
      right; left
      have hmap : (s.write pid stream bytes).containerMap = s.containerMap :=
        write_keeps World.containerMap (fun _ => rfl) pid stream bytes
      exact ⟨n, hmap ▸ hm⟩
    | _ => exact Or.inr (Or.inl ⟨n, hm⟩)
  · exact Or.inr (Or.inr (beingCleared_compute hJ hact hn hb hp))

theorem tidy_act (hs : Sound C s) (hJ : Tidy C s) (h : Act C (allowed (C := C) Housekept) pid c s s') :
    Tidy C s' := by
  have hact := h
  cases h with
  | perform cmd r x s' called need allowed eq => exact tidy_perform hs hJ called need allowed eq
  | compute o called need =>
    have hcalm : Calm s (compute C pid o s).2 := calm_compute o
    have hlog : ∀ p cmd out, Logged (compute C pid o s).2 p cmd out → Logged s p cmd out := by
      rintro p cmd out ⟨e, he, hx⟩
      exact ⟨e, hcalm.log ▸ he, hx⟩
    refine ⟨spared_act unrevived_of_housekept hs hJ.spared hact,
      fun p n hl => stopper_onward hact.advances.containers (hJ.stopped p n (hlog p _ _ hl)),
      fun p n hl => hJ.removed p n (hlog p _ _ hl), fun p path out hl => ?_,
      fun n k' sid hk' hname hst hh => ?_, fun path hp => ?_⟩
    · obtain ⟨hgone, sid, hpath, he⟩ := hJ.gone p path out (hlog p _ _ hl)
      rw [hcalm.directories]
      exact ⟨hgone, sid, hpath, expired_act unrevived_of_housekept hact he⟩
    · have hh' : s.housed C sid = true := by rwa [World.housed, hcalm.directories] at hh
      refine beingCleared_compute hJ hact need ?_ hh'
      rcases container_compute o hk' with hk | ⟨sid', k, -, hk, -, rfl⟩
      · exact hJ.cleared n k' sid hk hname hst hh'
      · exact hJ.cleared n k sid hk hname hst hh'
    · exact owned_compute hs hJ hact need (hcalm.directories ▸ hp)

theorem tidy_accept (hs : Sound C s) (hJ : Tidy C s) (h : World.accept pid c s = some s')
    (hshut : ∀ n sid, c = .stopTask n sid → s.record? (sessionKey sid) = none) : Tidy C s' := by
  have hspared := spared_accept hs hJ.spared h hshut
  have hb : ∀ sid, BeingCleared s sid → BeingCleared s' sid := by
    intro sid hb
    have hdead : ∀ q, s.inside q = some (.stop sid) → s'.dead q = s.dead q := fun q hi =>
      dead_accept hs h hi
    have ha := (advances_accept h).containers
    obtain ⟨tasks, -, rfl⟩ := accept_still h
    exact hb.mono ha (fun _ hi => hi) fun q hi hd => (hdead q hi).trans hd
  obtain ⟨tasks, -, rfl⟩ := accept_still h
  refine ⟨hspared, hJ.stopped, hJ.removed, hJ.gone,
    fun n k sid hk hname hst hh => hb sid (hJ.cleared n k sid hk hname hst hh), fun path hp => ?_⟩
  obtain ⟨sid, hpath, hk, hl | hm | hc⟩ := hJ.owned path hp
  · exact ⟨sid, hpath, hk, Or.inl hl⟩
  · exact ⟨sid, hpath, hk, Or.inr (Or.inl hm)⟩
  · exact ⟨sid, hpath, hk, Or.inr (Or.inr (hb sid hc))⟩

/-- A session with a directory expires when the map has it, and the worker exits when
every such session is live. -/
theorem tidy_env {e : Env} (hs : Sound C σ.shared) (hJ : Tidy C σ.shared)
    (hm : Housekept σ (.env e)) (h : World.env C e σ.shared = some s') : Tidy C s' := by
  have ha := aside_env h
  have hlog : ∀ p cmd out, Logged s' p cmd out → Logged σ.shared p cmd out := by
    rintro p cmd out ⟨e, he, hx⟩
    exact ⟨e, ha.log ▸ he, hx⟩
  have hhoused : ∀ sid, s'.housed C sid = σ.shared.housed C sid := fun sid => by
    rw [World.housed, World.housed, ha.directories]
  have hb : s'.workerBirth = σ.shared.workerBirth → ∀ sid, BeingCleared σ.shared sid →
      BeingCleared s' sid := by
    intro hbirth sid hb
    refine hb.mono ha.containers.onwards (fun q hi => ha.inside ▸ hi) fun q _ hd => ?_
    rwa [World.dead, World.ofWorker, ha.calls, hbirth]
  refine ⟨spared_env hJ.spared h, fun p n hl => ?_, fun p n hl => hJ.removed p n (hlog p _ _ hl),
    fun p path out hl => ?_, fun n k' sid hk' hname hst hh => ?_, fun path hp => ?_⟩
  · exact stopper_onward ha.containers.onwards (hJ.stopped p n (hlog p _ _ hl))
  · obtain ⟨hgone, sid, hpath, he⟩ := hJ.gone p path out (hlog p _ _ hl)
    rw [ha.directories]
    exact ⟨hgone, sid, hpath, expired_env h he⟩
  · obtain ⟨k, hk, hr⟩ := ha.containers.back n k' hk'
    have hname' := hr.follows.name.symm.trans hname
    rw [hr.stopper] at hst
    rw [hhoused] at hh
    rcases map_env h with ⟨-, -, hbirth⟩ | ⟨rfl, -⟩
    · exact hb hbirth sid (hJ.cleared n k sid hk hname' hst hh)
    · have he := hJ.spared.stopped n k sid hk hname' hst
      cases (hm.exits rfl sid (mem_sessionIds hs he.1) hh).symm.trans (live_eq_false he)
  · rw [ha.directories] at hp
    obtain ⟨sid, rfl, hk, hwhy⟩ := hJ.owned path hp
    refine ⟨sid, rfl, hk.mono ha.advances, ?_⟩
    have hids := mem_sessionIds hs hk
    rcases map_env h with ⟨hmap, -, hbirth⟩ | ⟨rfl, rfl⟩
    · rcases hwhy with hl | hm' | hc
      · rcases tick_env h with hnow | ⟨ms, rfl, rfl⟩
        · left
          rwa [World.live, World.record?, ha.redis, hnow]
        · obtain ⟨found, hfound⟩ := Option.isSome_iff_exists.mp hl
          by_cases hlt : found.expiresAt < σ.shared.now + ms
          · obtain ⟨n, hn⟩ := Option.isSome_iff_exists.mp
              (hm.expires ms rfl sid hids hp found hfound hlt)
            exact Or.inr (Or.inl ⟨n, JsMap.get_eq_some_iff.mp hn⟩)
          · refine Or.inl (Option.isSome_iff_exists.mpr ⟨found, record_eq_some.mpr ⟨?_, ?_⟩⟩)
            · exact (record_eq_some.mp hfound).1
            · exact Nat.not_lt.mp hlt
      · exact Or.inr (Or.inl (hmap ▸ hm'))
      · exact Or.inr (Or.inr (hb hbirth sid hc))
    · exact Or.inl (hm.exits rfl sid hids hp)

theorem tidy_of_reaches (h : Service.Reaches Housekept (start C) σ) : Tidy C σ.shared := by
  refine shared_of_reaches tidy_initial (fun hs hJ _ ha => tidy_act hs hJ ha)
    (fun hs hJ hm ha => tidy_accept hs hJ ha fun n sid he => ?_)
    (fun hs hJ hm he => tidy_env hs hJ hm he) h
  exact hm.sparing.spares sid (by rw [he]; rfl)

/-- **Every directory belongs to a session that is live or in the map**, whenever no
container is being started or stopped, in every run in which directories are made
only for live sessions, a session with a directory expires only when the map has it,
the calls of the cleanup do not fail, no container that has exited by itself is told to
stop, and the worker forgets its map only when no directory depends on it. -/
theorem directories_owned (C : Config N) (σ : (services C).Sys)
    (h : Service.Reaches Housekept (start C) σ) (hq : ¬ Busy σ.shared) (path : JsString)
    (hp : σ.shared.directories path = true) :
    ∃ sessionId, path = join C.basePath sessionId ∧
      ((σ.shared.record? (sessionKey sessionId)).isSome ∨
        (σ.shared.containerMap.get sessionId).isSome) := by
  obtain ⟨sid, hpath, -, hl | ⟨n, hm⟩ | ⟨k, -, -, q, -, hi, hd⟩⟩ := (tidy_of_reaches h).owned path hp
  · exact ⟨sid, hpath, Or.inl hl⟩
  · refine ⟨sid, hpath, Or.inr ?_⟩
    rw [JsMap.get_eq_some_iff.mpr hm]
    rfl
  · exact absurd ⟨q, _, hi, hd⟩ hq

/-- A session whose container has been started expires. -/
def expiredWithContainer : List (services Config.plain).Event :=
  containerStarted ++ [.env (.tick 600001)]

theorem directories_owned_expired :
    ∃ σ sessionId, Service.run (start Config.plain) expiredWithContainer = some σ ∧
      σ.shared.directories (js "/lsp-files/0") = true ∧
      js "/lsp-files/0" = join Config.plain.basePath sessionId ∧
      ((σ.shared.record? (sessionKey sessionId)).isSome ∨
        (σ.shared.containerMap.get sessionId).isSome) := by
  have hrun : (Service.runIf Housekept (start Config.plain) expiredWithContainer).map (fun σ =>
      (decide (∀ p < σ.shared.calls.length, σ.shared.inside p = none ∨ σ.shared.dead p = true),
        σ.shared.directories (js "/lsp-files/0"))) = some (true, true) := by decide +kernel
  obtain ⟨σ, hσ, hend⟩ := Option.map_eq_some_iff.mp hrun
  obtain ⟨hquiet, hdir⟩ := Prod.mk.inj hend
  have hr := Service.reaches_of_runIf hσ
  obtain ⟨sid, hsid⟩ := directories_owned Config.plain σ hr
    (not_busy (holds_of_reaches hr).2.1 (of_decide_eq_true hquiet)) (js "/lsp-files/0") hdir
  exact ⟨σ, sid, Service.run_of_runIf hσ, hdir, hsid⟩

/-- A file is uploaded to a session that expires before a container is started for it. -/
def uploadedAndExpired : List (services Config.plain).Event :=
  [.call (.createSession (js "ann")), .resume 0 .done,
    .call (.uploadFile (js "0") (js "ann") ⟨js "main.dart", [104, 105]⟩)] ++
  List.replicate 6 (.resume 1 .done) ++ [.env (.tick 600001)]

/-- Everything has returned, and the directory of the session is there; the session is
not live and the map has nothing. -/
theorem directory_orphaned :
    ∃ σ, Service.Reaches Service.anyEvent (start Config.plain) σ ∧ ¬ Busy σ.shared ∧
      (∀ p ∈ σ.procs, p.prog.Returned) ∧
      σ.shared.directories (join Config.plain.basePath (js "0")) = true ∧
      (σ.shared.record? (sessionKey (js "0"))).isSome = false ∧
      (σ.shared.containerMap.get (js "0")).isSome = false := by
  have hrun : (Service.run (start Config.plain) uploadedAndExpired).map (fun σ =>
      (decide (∀ p < σ.shared.calls.length, σ.shared.inside p = none ∨ σ.shared.dead p = true),
        decide (∀ p ∈ σ.procs, p.prog.Returned),
        σ.shared.directories (join Config.plain.basePath (js "0")),
        (σ.shared.record? (sessionKey (js "0"))).isSome,
        (σ.shared.containerMap.get (js "0")).isSome)) =
      some (true, true, true, false, false) := by decide +kernel
  obtain ⟨σ, hσ, hend⟩ := Option.map_eq_some_iff.mp hrun
  obtain ⟨hquiet, hend⟩ := Prod.mk.inj hend
  obtain ⟨hret, hend⟩ := Prod.mk.inj hend
  obtain ⟨hdir, hend⟩ := Prod.mk.inj hend
  obtain ⟨hrec, hmap⟩ := Prod.mk.inj hend
  have hr : Service.Reaches Service.anyEvent (start Config.plain) σ :=
    Service.reaches_of_run hσ fun _ _ _ => trivial
  exact ⟨σ, hr, not_busy (holds_of_reaches hr).2.1 (of_decide_eq_true hquiet),
    of_decide_eq_true hret, hdir, hrec, hmap⟩

end FullstackSvc.LanguageServer
