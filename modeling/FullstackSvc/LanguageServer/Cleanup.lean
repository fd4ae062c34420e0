import FullstackSvc.LanguageServer.Directories

/-!
# The cleanup touches only expired sessions

What `cleanupExpiredSessions` stops, removes and deletes belongs to the session
whose record it has just missed: the ids in the map of the worker are those of
sessions that were created, and the containers in the map are theirs.

* `missed_of_reaches`: an `EXISTS` that missed a record was made when the record was
  not there.
* `cleanup_spares_others`: **the cleanup stops the container and deletes the
  directory of a session whose record was not there when it looked**, and a session
  that has been live all the time keeps its container and its files.
-/

namespace FullstackSvc.LanguageServer

open Text Async FullstackSvc.Store

variable {N : Type} {C : Config N} {s s' : World} {pid : Nat} {c : Request} {cmd : Cmd} {r : Reply}
  {sessionId key path : JsString} {n : Nat} {k : Container} {σ σ' : (services C).Sys}
  {e : (services C).Event} {ok : (services C).Sys → (services C).Event → Prop}

/-! ### When a record was missed -/

/-- In an earlier state of the run the record was not there, and the process made an
`EXISTS` of it. -/
def MissedBefore (σ : (services C).Sys) (pid : Nat) (key : JsString) : Prop :=
  ∃ σ₀ r σ₁, Service.Reaches Service.anyEvent (start C) σ₀ ∧
    σ₀.pending pid = some (.redisExists key) ∧ σ₀.shared.record? key = none ∧
    Service.step σ₀ (.resume pid r) = some σ₁ ∧ Service.Reaches Service.anyEvent σ₁ σ

/-- **A record that was missed was not there.** -/
theorem missed_of_reaches (h : Service.Reaches Service.anyEvent (start C) σ)
    (hl : Logged σ.shared pid (.redisExists key) .missed) : MissedBefore σ pid key := by
  induction h generalizing pid key with
  | refl =>
    obtain ⟨e, he, -⟩ := hl
    cases he
  | tail hr hs ih =>
    rename_i σ σ'
    have hstep := hs
    obtain ⟨e, -, hs⟩ := hs
    have hold : Logged σ.shared pid (.redisExists key) .missed → MissedBefore σ' pid key := by
      intro hl
      obtain ⟨σ₀, r, σ₁, h₀, hpend, hnone, hs₀, h₁⟩ := ih hl
      exact ⟨σ₀, r, σ₁, h₀, hpend, hnone, hs₀, h₁.tail hstep⟩
    have hsame : σ'.shared.log = σ.shared.log → MissedBefore σ' pid key := by
      intro hlog
      obtain ⟨entry, he, hx⟩ := hl
      exact hold ⟨entry, hlog ▸ he, hx⟩
    cases step_cases hs with
    | call pid' r cmd x s event pending eq calm =>
      have hl' : Logged s pid (.redisExists key) .missed := by
        obtain ⟨entry, he, hx⟩ := hl
        exact ⟨entry, calm.log ▸ he, hx⟩
      rcases logged_cases eq hl' with hl' | ⟨rfl, rfl, hout⟩
      · exact hold hl'
      · exact ⟨σ, r, σ', hr, pending, absent_of_missed eq hout, event ▸ hs, .refl⟩
    | calm calm event => exact hsame calm.log
    | tick ms event eq => exact hsame (by rw [eq])

/-! ### Sessions that stay live -/

/-- No process has missed the record of the session. -/
def NeverMissed (sessionId : JsString) (s : World) : Prop :=
  ∀ pid, ¬ Logged s pid (.redisExists (sessionKey sessionId)) .missed

theorem neverMissed_of_reaches
    (h : Service.Reaches (fun σ _ => StaysLive sessionId σ.shared) (start C) σ) :
    NeverMissed sessionId σ.shared := by
  refine inv_of_start (J := fun σ => NeverMissed sessionId σ.shared) (fun pid hl => ?_)
    (fun {σ e σ'} hs hJ pid hl => ?_) h
  · obtain ⟨e, he, -⟩ := hl
    cases he
  · have hsame : σ'.shared.log = σ.shared.log → False := by
      intro hlog
      obtain ⟨entry, he, hx⟩ := hl
      exact hJ pid ⟨entry, hlog ▸ he, hx⟩
    cases step_cases hs.step with
    | call pid' r cmd x s event pending eq calm =>
      obtain ⟨entry, he, hx⟩ := hl
      rcases logged_cases eq ⟨entry, calm.log ▸ he, hx⟩ with hl | ⟨-, rfl, hout⟩
      · exact hJ pid hl
      · obtain ⟨c, -, sid, hkey, hknown⟩ := need_of_pending hs.before pending
        obtain rfl := sessionKey_inj hkey
        have hlive := hs.meets hknown
        rw [absent_of_missed eq hout] at hlive
        cases hlive
    | calm calm event => exact hsame calm.log
    | tick ms event eq => exact hsame (by rw [eq])

/-- The containers of the session stand, and its directory and its files are left. -/
structure Untouched (C : Config N) (sessionId : JsString) (s s' : World) : Prop where
  containers : ∀ (n : Nat) k, s.containers[n]? = some k → k.name = containerNameOf sessionId →
    k.phase.Standing → s'.Stands n
  directory : s.housed C sessionId = true → s'.housed C sessionId = true
  files : ∀ path, within (join C.basePath sessionId) path = true → (s.files path).isSome →
    (s'.files path).isSome

theorem Untouched.of_calm (h : Calm s s') : Untouched C sessionId s s' := by
  refine ⟨fun n k hk _ hstands => ?_, fun hh => ?_, fun path _ hf => ?_⟩
  · exact h.stands n (stands_of_container hk hstands)
  · rwa [World.housed, h.directories]
  · rwa [h.files]

/-- The process works for `stopAllContainers`. -/
def ShutsDown (σ : (services C).Sys) (e : (services C).Event) : Prop :=
  ∃ pid r n sessionId, e = .resume pid r ∧ σ.shared.calls[pid]? = some (.stopTask n sessionId)

/-- Why a container is stopped, other than for a shutdown. -/
theorem not_doomed (hm : NeverMissed sessionId s) (hc : ∀ n sid, c ≠ .stopTask n sid) :
    ¬ Doomed c pid sessionId n s := by
  intro hd
  cases c with
  | cleanupExpiredSessions turns => exact hm pid hd
  | stopTask n' sid' => exact hc n' sid' rfl
  | _ => exact hd

theorem standing_perform {x : Except JsError (sig.Res cmd)} (hs : Sound C s)
    (hm : NeverMissed sessionId s) (hc : ∀ n sid, c ≠ .stopTask n sid) (hn : Need C pid c cmd s)
    (h : perform pid cmd r s = some (x, s')) (hk : s.containers[n]? = some k)
    (hname : k.name = containerNameOf sessionId) (hstands : k.phase.Standing) : s'.Stands n := by
  obtain ⟨k', hk', hf⟩ := onward_perform h n k hk
  refine stands_of_container hk' ?_
  have hhandled : Handled C (fun _ _ _ _ => True) pid c s n k' :=
    handled_perform hs hn trivial h hk'
  cases hhandled with
  | kept k₀ found =>
    obtain rfl := Option.some.inj (hk.symm.trans found)
    exact hstands
  | create sid r' new known inside free allowed good =>
    have hlt := (List.getElem?_eq_some_iff.mp hk).1
    omega
  | start k₀ found creator stopper => exact Or.inr (Or.inl rfl)
  | stop sid k₀ found name running stopping =>
    obtain rfl := Option.some.inj (hk.symm.trans found)
    obtain rfl := containerNameOf_inj (name.symm.trans hname)
    exact absurd stopping.doomed (not_doomed hm hc)
  | remove sid k₀ found name stopper stopping =>
    obtain rfl := Option.some.inj (hk.symm.trans found)
    cases stopper.symm.trans ((hs.containers n k hk).stopper.mpr hstands)

/-- What is in a directory has the name of the directory behind the parent's path. -/
theorem takeWhile_of_within {a m p : JsString} (ha : a ≠ []) (hm : PlainName m)
    (h : within (join a m) p = true) : ∃ t, p = directory a ++ t ∧ t.takeWhile (· ≠ 47) = m := by
  have hall : ∀ u ∈ m, decide (u ≠ 47) = true := fun u hu =>
    decide_eq_true fun he => hm.2.1 (he ▸ hu)
  rw [join_name ha hm] at h
  rcases Bool.or_eq_true_iff.mp h with he | hstarts
  · exact ⟨m, of_decide_eq_true he, List.takeWhile_eq_self_iff.mpr hall⟩
  · obtain ⟨t, ht⟩ := startsWith_iff.mp hstarts
    refine ⟨m ++ 47 :: t, ?_, ?_⟩
    · rw [ht, List.append_assoc, List.append_assoc]
      rfl
    · rw [List.takeWhile_append_of_pos hall, List.takeWhile_cons_of_neg (by decide), List.append_nil]

/-- **The directories of different sessions have nothing in common.** -/
theorem within_disjoint {a m m' p : JsString} (ha : a ≠ []) (hm : PlainName m) (hm' : PlainName m')
    (h : within (join a m) p = true) (h' : within (join a m') p = true) : m = m' := by
  obtain ⟨t, rfl, ht⟩ := takeWhile_of_within ha hm h
  obtain ⟨t', he, ht'⟩ := takeWhile_of_within ha hm' h'
  rw [← ht, ← ht', List.append_cancel_left he]

theorem within_self (path : JsString) : within path path = true :=
  Bool.or_eq_true_iff.mpr (Or.inl (decide_eq_true rfl))

/-- What is deleted is nothing of a session whose record was never missed. -/
theorem not_within_of_rm (hs : Sound C s) (hk : Known s sessionId) (hm : NeverMissed sessionId s)
    (hc : ∀ n sid, c ≠ .stopTask n sid) (hn : Need C pid c (.rm path) s) {p : JsString}
    (hp : within (join C.basePath sessionId) p = true) : within path p = false := by
  obtain ⟨sid, n, rfl, hstopping, -⟩ := hn
  by_contra hne
  obtain rfl := within_disjoint C.basePath_ne_nil (hs.plainName hk)
    (hs.plainName (hs.known_of_tracked hstopping.tracked)) hp ((Bool.not_eq_false _).mp hne)
  exact not_doomed hm hc hstopping.doomed

theorem untouched_perform {x : Except JsError (sig.Res cmd)} (hs : Sound C s)
    (hk : Known s sessionId) (hm : NeverMissed sessionId s) (hc : ∀ n sid, c ≠ .stopTask n sid)
    (hn : Need C pid c cmd s) (h : perform pid cmd r s = some (x, s')) :
    Untouched C sessionId s s' := by
  refine ⟨fun n k hk hname hstands => standing_perform hs hm hc hn h hk hname hstands, ?_, ?_⟩
  · intro hh
    rw [World.housed] at hh ⊢
    cases volume_perform h with
    | same directories files unremoved => rwa [directories]
    | mkdir path cmd_eq out_eq directories files =>
      rw [directories]
      by_cases hpath : join C.basePath sessionId = path
      · rw [hpath, Function.update_self]
      · rwa [Function.update_of_ne hpath]
    | file path cmd_eq directories files left => rwa [directories]
    | rm path cmd_eq out_eq directories files =>
      subst cmd_eq
      rw [directories]
      show (_ && !within path (join C.basePath sessionId)) = true
      rw [not_within_of_rm hs hk hm hc hn (within_self _), hh]
      rfl
  · intro p hp hf
    cases volume_perform h with
    | same directories files unremoved => rwa [files]
    | mkdir path cmd_eq out_eq directories files => rwa [files]
    | file path cmd_eq directories files left =>
      by_cases hpath : p = path
      · rw [hpath] at hf ⊢
        exact left hf
      · rwa [files p hpath]
    | rm path cmd_eq out_eq directories files =>
      subst cmd_eq
      rw [files]
      show (if within path p then none else s.files p).isSome
      rwa [not_within_of_rm hs hk hm hc hn hp]

/-- **A step that is not a shutdown leaves what a session has whose record was never
missed.** -/
theorem untouched_step (hb : (outline ok).Holds σ) (hs : Service.step σ e = some σ')
    (hk : Known σ.shared sessionId) (hm : NeverMissed sessionId σ.shared) (hnot : ¬ ShutsDown σ e) :
    Untouched C sessionId σ.shared σ'.shared := by
  cases step_cases hs with
  | call pid r cmd x s event pending eq calm =>
    obtain ⟨c, hcall, hn⟩ := need_of_pending hb pending
    have hc : ∀ n sid, c ≠ .stopTask n sid := by
      rintro n sid rfl
      exact hnot ⟨pid, r, n, sid, event, hcall⟩
    have hu := untouched_perform hb.1 hk hm hc hn eq
    refine ⟨fun n k hk hname hstands => ?_, fun hh => ?_, fun p hp hf => ?_⟩
    · exact calm.stands n (hu.containers n k hk hname hstands)
    · rw [World.housed, calm.directories]
      exact hu.directory hh
    · rw [calm.files]
      exact hu.files p hp hf
  | calm calm event => exact .of_calm calm
  | tick ms event eq =>
    rw [eq]
    exact ⟨fun n k hk _ hstands => stands_of_container hk hstands, fun hh => hh, fun _ _ hf => hf⟩

/-! ### What a cleanup touches -/

/-- What the cleanup does next is for one session whose record was missed. -/
theorem doomed_of_pending {turns : Nat} (h : Service.Reaches Service.anyEvent (start C) σ)
    (hst : Stopping (.cleanupExpiredSessions turns) pid sessionId n σ.shared) :
    (∃ k, σ.shared.containers[n]? = some k ∧ k.name = containerNameOf sessionId) ∧
      PlainName sessionId ∧ MissedBefore σ pid (sessionKey sessionId) := by
  have hs : Sound C σ.shared := (holds_of_reaches h).2.1
  obtain ⟨k, hk, hname, -⟩ := hst.tracked
  exact ⟨⟨k, hk, hname⟩, hs.plainName (hs.known_of_tracked hst.tracked), missed_of_reaches h hst.doomed⟩

/-- **The cleanup touches only the expired session.**  A container that a run of
`cleanupExpiredSessions` stops or removes is the one of a session, and what it deletes
is the directory of a session, directly below the base path and not the base path
itself; the record of the session was not there when this run looked.  Hence no step
but one of a shutdown stops a container of a session that has been live all the time,
or deletes its directory or a file in it. -/
theorem cleanup_spares_others (C : Config N) (σ : (services C).Sys)
    (h : Service.Reaches Service.anyEvent (start C) σ) :
    (∀ (pid turns : Nat) (cmd : Cmd),
      σ.shared.calls[pid]? = some (.cleanupExpiredSessions turns) → σ.pending pid = some cmd →
      (∀ n, cmd = .stopContainer n ∨ cmd = .removeContainer n →
        ∃ sessionId k, σ.shared.containers[n]? = some k ∧ k.name = containerNameOf sessionId ∧
          MissedBefore σ pid (sessionKey sessionId)) ∧
      ∀ path, cmd = .rm path →
        ∃ sessionId, path = join C.basePath sessionId ∧ PlainName sessionId ∧
          path = directory C.basePath ++ sessionId ∧ path ≠ normalize C.basePath ∧
          MissedBefore σ pid (sessionKey sessionId)) ∧
    ∀ sessionId, Service.Reaches (fun σ _ => StaysLive sessionId σ.shared) (start C) σ →
      Known σ.shared sessionId → ∀ e σ', Service.step σ e = some σ' → ¬ ShutsDown σ e →
        Untouched C sessionId σ.shared σ'.shared := by
  obtain ⟨-, hb⟩ := holds_of_reaches h
  refine ⟨fun pid turns cmd hc hp => ?_, fun sid hlive hk e σ' hs hnot =>
    untouched_step hb hs hk (neverMissed_of_reaches hlive) hnot⟩
  obtain ⟨c, hc', hn⟩ := need_of_pending hb hp
  obtain rfl := Option.some.inj (hc.symm.trans hc')
  refine ⟨fun n hcmd => ?_, fun path hcmd => ?_⟩
  · have hst : ∃ sid, Stopping (.cleanupExpiredSessions turns) pid sid n σ.shared := by
      rcases hcmd with rfl | rfl
      · exact hn
      · obtain ⟨sid, hst, -⟩ := hn
        exact ⟨sid, hst⟩
    obtain ⟨sid, hst⟩ := hst
    obtain ⟨⟨k, hk, hname⟩, -, hmissed⟩ := doomed_of_pending h hst
    exact ⟨sid, k, hk, hname, hmissed⟩
  · subst hcmd
    obtain ⟨sid, n, rfl, hst, -⟩ := hn
    obtain ⟨-, hplain, hmissed⟩ := doomed_of_pending h hst
    exact ⟨sid, rfl, hplain, join_name C.basePath_ne_nil hplain,
      join_name_ne C.basePath_ne_nil hplain, hmissed⟩

/-- The container of a session has been started; the session expires, and the cleanup
has stopped and removed the container. -/
def cleanedUp : List (services Config.plain).Event :=
  containerStarted ++ [.env (.tick 600001), .call (.cleanupExpiredSessions 5)] ++
  List.replicate 3 (.resume 2 .done)

/-- The cleanup is about to delete the directory of the session. -/
theorem cleanup_spares_others_expired :
    ∃ σ sessionId, Service.run (start Config.plain) cleanedUp = some σ ∧
      σ.pending 2 = some (.rm (js "/lsp-files/0")) ∧
      js "/lsp-files/0" = directory Config.plain.basePath ++ sessionId ∧
      MissedBefore σ 2 (sessionKey sessionId) := by
  have hrun : (Service.run (start Config.plain) cleanedUp).map (fun σ =>
      (decide (σ.shared.calls[2]? = some (.cleanupExpiredSessions 5)), σ.pending 2)) =
      some (true, some (.rm (js "/lsp-files/0"))) := by decide +kernel
  obtain ⟨σ, hσ, hend⟩ := Option.map_eq_some_iff.mp hrun
  obtain ⟨hcall, hpend⟩ := Prod.mk.inj hend
  have hr : Service.Reaches Service.anyEvent (start Config.plain) σ :=
    Service.reaches_of_run hσ fun _ _ _ => trivial
  obtain ⟨sid, -, -, hpath, -, hmissed⟩ := ((cleanup_spares_others Config.plain σ hr).1 2 5 _
    (of_decide_eq_true hcall) hpend).2 _ rfl
  exact ⟨σ, sid, hσ, hpend, hpath, hmissed⟩

end FullstackSvc.LanguageServer
