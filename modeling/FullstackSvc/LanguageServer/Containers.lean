import FullstackSvc.LanguageServer.Updates

/-!
# No container escapes

A container is made, started, put into the map, stopped, removed and taken out
of the map by separate calls, and the errors of some of them are swallowed.
`Handled` says what a call can do to one container.

`Dependable` is the condition on the runs in which no container is lost: Docker
starts, stops and removes what it is told to, no container that has exited by
itself is told to stop, no container is made under the name of one that has been
removed, and a shutdown forgets only what it has removed.

* `handled_perform`: **what a call does to a container**.
* `containers_tracked`: **a container of the worker that exists is the one that the
  map has for its session**, whenever no container is being started or stopped.
-/

namespace FullstackSvc.LanguageServer

open Text Async FullstackSvc.Store

variable {N : Type} {C : Config N} {s s' : World} {pid : Nat} {c : Request} {cmd : Cmd} {r : Reply}
  {sessionId : JsString} {n : Nat} {k k' : Container}
  {may : Nat → Cmd → Reply → World → Prop} {σ σ' : (services C).Sys} {e : (services C).Event}

/-! ### What a call does to a container -/

/-- What a call does to one container. -/
inductive Handled (C : Config N) (may : Nat → Cmd → Reply → World → Prop) (pid : Nat) (c : Request)
    (s : World) (n : Nat) : Container → Prop
  | kept (k : Container) (found : s.containers[n]? = some k) : Handled C may pid c s n k
  | create (sessionId : JsString) (r : Reply) (new : n = s.containers.length)
      (known : Known s sessionId) (inside : s.inside pid = some (.start sessionId))
      (free : s.nameTaken (containerNameOf sessionId) = false)
      (allowed : may pid (.createContainer (containerNameOf sessionId)) r s)
      (good : r.faulty = false) :
      Handled C may pid c s n ⟨containerNameOf sessionId, .created, pid, none, false⟩
  | start (k : Container) (found : s.containers[n]? = some k) (creator : k.creator = pid)
      (stopper : k.stopper = none) : Handled C may pid c s n { k with phase := .running }
  | stop (sessionId : JsString) (k : Container) (found : s.containers[n]? = some k)
      (name : k.name = containerNameOf sessionId) (running : k.phase = .running)
      (stopping : Stopping c pid sessionId n s) :
      Handled C may pid c s n { k with phase := .stopped, stopper := some pid }
  | remove (sessionId : JsString) (k : Container) (found : s.containers[n]? = some k)
      (name : k.name = containerNameOf sessionId) (stopper : k.stopper = some pid)
      (stopping : Stopping c pid sessionId n s) : Handled C may pid c s n { k with phase := .removed }

/-- **What a call does to a container.** -/
theorem handled_perform {x : Except JsError (sig.Res cmd)} (hs : Sound C s) (hn : Need C pid c cmd s)
    (ok : may pid cmd r s) (h : perform pid cmd r s = some (x, s'))
    (hk' : s'.containers[n]? = some k') : Handled C may pid c s n k' := by
  cases containers_perform h with
  | same eq => exact .kept k' (eq ▸ hk')
  | create name cmd_eq out_eq free eq =>
    rw [eq] at hk'
    rcases getElem?_concat_cases hk' with hk | ⟨hlen, rfl⟩
    · exact .kept k' hk
    · subst cmd_eq
      obtain ⟨sid, rfl, hknown, hin⟩ := hn
      exact .create sid r hlen hknown hin free ok (not_faulty h (by rw [out_eq]; decide))
  | start m phase cmd_eq out_eq found idle eq =>
    rw [eq] at hk'
    rcases modify_cases hk' with ⟨rfl, k, hk, rfl⟩ | ⟨-, hk⟩
    · subst cmd_eq
      obtain ⟨sid, ⟨k₀, hk₀, -, hcreator, -, hphase⟩, -⟩ := hn
      obtain rfl := Option.some.inj (hk.symm.trans hk₀)
      exact .start k hk hcreator ((hs.containers m k hk).stopper.mpr (Or.inl hphase))
    · exact .kept k' hk
  | stop m cmd_eq out_eq found eq =>
    rw [eq] at hk'
    rcases modify_cases hk' with ⟨rfl, k, hk, rfl⟩ | ⟨-, hk⟩
    · subst cmd_eq
      obtain ⟨sid, hstopping⟩ := hn
      obtain ⟨k₀, hk₀, hname, -⟩ := hstopping.tracked
      obtain ⟨k₁, hk₁, hrun, -⟩ := phase?_eq_some found
      obtain rfl := Option.some.inj (hk.symm.trans hk₀)
      obtain rfl := Option.some.inj (hk.symm.trans hk₁)
      have hnone := (hs.containers m k hk).stopper.mpr (Or.inr (Or.inl hrun))
      rw [hnone]
      exact .stop sid k hk hname hrun hstopping
    · exact .kept k' hk
  | remove m phase cmd_eq out_eq found idle eq =>
    rw [eq] at hk'
    rcases modify_cases hk' with ⟨rfl, k, hk, rfl⟩ | ⟨-, hk⟩
    · subst cmd_eq
      obtain ⟨sid, hstopping, k₁, hk₁, hstopper, -⟩ := hn
      obtain ⟨k₀, hk₀, hname, -⟩ := hstopping.tracked
      obtain rfl := Option.some.inj (hk.symm.trans hk₀)
      obtain rfl := Option.some.inj (hk.symm.trans hk₁)
      exact .remove sid k hk hname hstopper hstopping
    · exact .kept k' hk

/-- Only `containerMap.set` touches a container between two calls. -/
theorem container_compute (o : Op) (hk' : (compute C pid o s).2.containers[n]? = some k') :
    s.containers[n]? = some k' ∨ ∃ sessionId k, o = .containerMapSet sessionId n ∧
      s.containers[n]? = some k ∧ k.creator = pid ∧ k' = { k with registered := true } := by
  cases o with
  | containerMapSet sid m =>
    rcases modify_cases hk' with ⟨rfl, k, hk, rfl⟩ | ⟨-, hk⟩
    · by_cases hcreator : k.creator = pid
      · rw [decide_eq_true hcreator, Bool.or_true]
        exact Or.inr ⟨sid, k, rfl, hk, hcreator, rfl⟩
      · rw [decide_eq_false hcreator, Bool.or_false]
        exact Or.inl hk
    · exact Or.inl hk
  | write stream bytes =>
    have he : (s.write pid stream bytes).containers = s.containers :=
      write_keeps World.containers (fun _ => rfl) pid stream bytes
    exact Or.inl (he ▸ hk')
  | _ => exact Or.inl hk'

/-- Where a process is changes only when it enters or leaves. -/
theorem inside_compute (C : Config N) (s : World) (pid : Nat) (o : Op) :
    (compute C pid o s).2.inside = s.inside ∨
    (∃ part, o = .enter part ∧ (compute C pid o s).2.inside = Function.update s.inside pid (some part)) ∨
    o = .leave ∧ (compute C pid o s).2.inside = Function.update s.inside pid none := by
  cases o with
  | enter part => exact Or.inr (Or.inl ⟨part, rfl, rfl⟩)
  | leave => exact Or.inr (Or.inr ⟨rfl, rfl⟩)
  | write stream bytes => exact Or.inl (write_keeps World.inside (fun _ => rfl) pid stream bytes)
  | _ => exact Or.inl rfl

/-- A container is an old one that goes on, or a new one whose name was free. -/
theorem Handled.origin (h : Handled C may pid c s n k') :
    (∃ k, s.containers[n]? = some k ∧ k.name = k'.name) ∨
      n = s.containers.length ∧ s.nameTaken k'.name = false ∧
        ∃ r, r.faulty = false ∧ may pid (.createContainer k'.name) r s := by
  cases h with
  | kept k found => exact Or.inl ⟨_, found, rfl⟩
  | create sid r new known inside free allowed good => exact Or.inr ⟨new, free, r, good, allowed⟩
  | start k found creator stopper => exact Or.inl ⟨k, found, rfl⟩
  | stop sid k found name running stopping => exact Or.inl ⟨k, found, rfl⟩
  | remove sid k found name stopper stopping => exact Or.inl ⟨k, found, rfl⟩

/-! ### The condition -/

/-- The process whose call an event makes fail. -/
def failing : (services C).Event → Option Nat
  | .resume pid r => if r.faulty then some pid else none
  | _ => none

theorem failing_resume (h : r.faulty = true) : failing (C := C) (.resume pid r) = some pid := by
  rw [failing, h]
  rfl

/-- The call starts, stops or removes a container. -/
def Cmd.handles : Cmd → Bool
  | .startContainer _ => true
  | .stopContainer _ => true
  | .removeContainer _ => true
  | _ => false

/-- The name under which a call makes a container. -/
def Cmd.creates : Cmd → Option JsString
  | .createContainer name => some name
  | _ => none

/-- The container that a call stops. -/
def Cmd.stops : Cmd → Option Nat
  | .stopContainer n => some n
  | _ => none

/-- No container that has exited by itself is told to stop.  Docker refuses that as it
refuses to stop one that has been stopped, and `stopContainer` does not remove it. -/
def StopsNoExited (σ : (services C).Sys) (e : (services C).Event) : Prop :=
  ∀ pid ∈ answered e, ∀ cmd ∈ σ.pending pid, ∀ n ∈ cmd.stops, σ.shared.phase? n ≠ some .exited

instance : Decidable (StopsNoExited σ e) :=
  inferInstanceAs (Decidable (∀ pid ∈ answered e, ∀ cmd ∈ σ.pending pid, ∀ n ∈ cmd.stops, _))

/-- Docker starts, stops and removes what it is told to; no container that has exited
is told to stop; no container is made under the name of one that has been removed; and
`stopAllContainers` clears the map only when the containers of this worker that went
into it have been removed. -/
structure Dependable (σ : (services C).Sys) (e : (services C).Event) : Prop where
  docker : ∀ pid ∈ failing e, ∀ cmd ∈ σ.pending pid, cmd.handles = false
  exited : StopsNoExited σ e
  once : ∀ pid ∈ answered e, ∀ cmd ∈ σ.pending pid, ∀ name ∈ cmd.creates,
    ∀ k ∈ σ.shared.containers, k.name = name → k.phase ≠ .removed
  shutdown : ∀ pid ∈ answered e, σ.pending pid = some .joinStops → ∀ k ∈ σ.shared.containers,
    σ.shared.workerBirth ≤ k.creator → k.registered = true → k.phase = .removed

instance : Decidable (Dependable σ e) :=
  decidable_of_iff ((∀ pid ∈ failing e, ∀ cmd ∈ σ.pending pid, cmd.handles = false) ∧
    StopsNoExited σ e ∧ (∀ pid ∈ answered e, ∀ cmd ∈ σ.pending pid, ∀ name ∈ cmd.creates,
      ∀ k ∈ σ.shared.containers, k.name = name → k.phase ≠ .removed) ∧
    ∀ pid ∈ answered e, σ.pending pid = some .joinStops → ∀ k ∈ σ.shared.containers,
      σ.shared.workerBirth ≤ k.creator → k.registered = true → k.phase = .removed)
    ⟨fun h => ⟨h.1, h.2.1, h.2.2.1, h.2.2.2⟩, fun h => ⟨h.docker, h.exited, h.once, h.shutdown⟩⟩

/-- Docker has not been made to fail. -/
theorem good_of_handles (ok : allowed (C := C) Dependable pid cmd r s) (hc : cmd.handles = true) :
    r.faulty = false := by
  obtain ⟨σ, rfl, hp, hd⟩ := ok
  by_contra hf
  have hnot := hd.docker pid (failing_resume ((Bool.not_eq_false _).mp hf)) cmd hp
  cases hc.symm.trans hnot

/-- A container that is told to stop has not exited by itself. -/
theorem not_exited_of_stop (ho : ∀ σ e, ok σ e → StopsNoExited σ e)
    (hok : allowed (C := C) ok pid (.stopContainer n) r s) (hr : r.faulty = false) :
    s.phase? n ≠ some .exited := by
  obtain ⟨σ, rfl, hp, hm⟩ := hok
  exact ho _ _ hm pid (answered_resume hr) _ hp n rfl

/-- Docker has refused a call that failed. -/
theorem refused_of_handles {x : Except JsError (sig.Res cmd)}
    (ok : allowed (C := C) Dependable pid cmd r s) (hc : cmd.handles = true)
    (h : perform pid cmd r s = some (x, s')) (ho : outcome cmd x = .failed) : s.refuses cmd ≠ none :=
  refused_of_failed h ho (good_of_handles ok hc)

theorem reply_joinStops {x : Except JsError (sig.Res .joinStops)}
    (h : perform pid .joinStops r s = some (x, s')) : r.faulty = false := by
  unfold perform at h
  split at h
  · cases h
  · cases r with
    | fails name message => cases h
    | failsAfter n name message => cases h
    | _ => rfl

/-! ### The invariant -/

/-- What is known of the containers and of the calls that were made on them. -/
structure Contained (s : World) : Prop where
  single : ∀ (n n' : Nat) k k', s.containers[n]? = some k → s.containers[n']? = some k' →
    k.name = k'.name → n = n'
  started : ∀ pid n, ¬ Logged s pid (.startContainer n) .failed
  removed : ∀ pid n, ¬ Logged s pid (.removeContainer n) .failed
  stopped : ∀ pid n, Logged s pid (.stopContainer n) .failed →
    ∃ k, s.containers[n]? = some k ∧ k.stopper ≠ none
  starting : ∀ (n : Nat) k sessionId, s.containers[n]? = some k → k.name = containerNameOf sessionId →
    s.workerBirth ≤ k.creator → k.registered = false → s.inside k.creator = some (.start sessionId)
  stopping : ∀ (n : Nat) k sessionId q, s.containers[n]? = some k →
    k.name = containerNameOf sessionId → s.workerBirth ≤ k.creator → k.stopper = some q →
    k.phase = .removed ∨ s.workerBirth ≤ q ∧ s.inside q = some (.stop sessionId)
  mapped : ∀ (n : Nat) k sessionId, s.containers[n]? = some k → k.name = containerNameOf sessionId →
    s.workerBirth ≤ k.creator → k.registered = true → k.stopper = none →
    s.containerMap.Has sessionId n

theorem contained_initial : Contained World.initial where
  single _ _ _ _ hk := by cases hk
  started _ _ hl := by
    obtain ⟨e, he, -⟩ := hl
    cases he
  removed _ _ hl := by
    obtain ⟨e, he, -⟩ := hl
    cases he
  stopped _ _ hl := by
    obtain ⟨e, he, -⟩ := hl
    cases he
  starting _ _ _ hk := by cases hk
  stopping _ _ _ _ hk := by cases hk
  mapped _ _ _ hk := by cases hk

/-- A call that is in the log has been in it, or has just been made. -/
theorem logged_cases {x : Except JsError (sig.Res cmd)} {pid' : Nat} {cmd' : Cmd} {out : Outcome}
    (h : perform pid cmd r s = some (x, s')) (hl : Logged s' pid' cmd' out) :
    Logged s pid' cmd' out ∨ pid = pid' ∧ cmd = cmd' ∧ outcome cmd x = out := by
  obtain ⟨e, he, hpid, hcmd, hout⟩ := hl
  rcases mem_log_perform h he with he | rfl
  · exact Or.inl ⟨e, he, hpid, hcmd, hout⟩
  · exact Or.inr ⟨hpid, hcmd, hout⟩

/-- A process of the worker that makes a call is not of an earlier worker. -/
theorem born_of_perform {x : Except JsError (sig.Res cmd)} (h : perform pid cmd r s = some (x, s'))
    (hc : s.calls[pid]? = some c) (hw : c.ofWorker = true) : s.workerBirth ≤ pid := by
  have hd := not_dead_of_perform h
  rw [World.dead, World.ofWorker, hc] at hd
  have hd' : (c.ofWorker && decide (pid < s.workerBirth)) = false := hd
  rw [hw, Bool.true_and, decide_eq_false_iff_not] at hd'
  omega

theorem Doomed.ofWorker (h : Doomed c pid sessionId n s) : c.ofWorker = true := by
  cases c with
  | cleanupExpiredSessions turns => rfl
  | stopTask n' sid' => rfl
  | _ => exact h.elim

/-- A name under which a container is made has not been used. -/
theorem name_unused {name : JsString} (ok : allowed (C := C) Dependable pid (.createContainer name) r s)
    (hr : r.faulty = false) (hfree : s.nameTaken name = false) (hk : s.containers[n]? = some k) :
    k.name ≠ name := by
  by_cases hphase : k.phase = .removed
  · obtain ⟨σ, rfl, hp, hd⟩ := ok
    intro hname
    exact hd.once pid (answered_resume hr) _ hp name rfl k (List.mem_of_getElem? hk) hname hphase
  · exact ne_of_nameTaken hfree hk hphase

theorem single_perform {x : Except JsError (sig.Res cmd)} (hs : Sound C s) (hJ : Contained s)
    (hn : Need C pid c cmd s) (ok : allowed (C := C) Dependable pid cmd r s)
    (h : perform pid cmd r s = some (x, s')) {n n' : Nat} {k k' : Container}
    (hk : s'.containers[n]? = some k) (hk' : s'.containers[n']? = some k') (hname : k.name = k'.name) :
    n = n' := by
  rcases (handled_perform hs hn ok h hk).origin with ⟨k₀, hk₀, he⟩ | ⟨hlen, hfree, r₀, hr₀, ok₀⟩
  · rcases (handled_perform hs hn ok h hk').origin with ⟨k₁, hk₁, he'⟩ | ⟨hlen, hfree, r₀, hr₀, ok₀⟩
    · exact hJ.single n n' k₀ k₁ hk₀ hk₁ (he.trans (hname.trans he'.symm))
    · exact absurd (he.trans hname) (name_unused ok₀ hr₀ hfree hk₀)
  · rcases (handled_perform hs hn ok h hk').origin with ⟨k₁, hk₁, he'⟩ | ⟨hlen', -⟩
    · exact absurd (he'.trans hname.symm) (name_unused ok₀ hr₀ hfree hk₁)
    · exact hlen.trans hlen'.symm

/-- A container that a process has created starts when it is told to. -/
theorem started_perform {x : Except JsError (sig.Res cmd)} (hJ : Contained s) (hn : Need C pid c cmd s)
    (ok : allowed (C := C) Dependable pid cmd r s) (h : perform pid cmd r s = some (x, s')) (p n : Nat) :
    ¬ Logged s' p (.startContainer n) .failed := by
  intro hl
  rcases logged_cases h hl with hl | ⟨-, rfl, hout⟩
  · exact hJ.started p n hl
  · obtain ⟨sid, ⟨k, hk, -, -, -, hphase⟩, -⟩ := hn
    refine refused_of_handles ok rfl h hout ?_
    have hne : k.phase ≠ .removed := by rw [hphase]; decide
    rw [World.refuses, phase?_of_container hk hne, hphase]
    rfl

/-- A container that a process has stopped is removed, unless Docker fails. -/
theorem removed_of_good {x : Except JsError (sig.Res (.removeContainer n))}
    (hn : Need C pid c (.removeContainer n) s) (h : perform pid (.removeContainer n) r s = some (x, s'))
    (hr : r.faulty = false) : outcome (.removeContainer n) x ≠ .failed := by
  intro hout
  obtain ⟨sid, -, k, hk, -, hphase⟩ := hn
  refine refused_of_failed h hout hr ?_
  have hne : k.phase ≠ .removed := by rw [hphase]; decide
  rw [World.refuses, phase?_of_container hk hne, hphase]
  rfl

/-- A container that Docker refuses to stop has been stopped, if it has not exited. -/
theorem stopper_of_refused {x : Except JsError (sig.Res (.stopContainer n))} (hs : Sound C s)
    (hn : Need C pid c (.stopContainer n) s) (h : perform pid (.stopContainer n) r s = some (x, s'))
    (hout : outcome (.stopContainer n) x = .failed) (hr : r.faulty = false)
    (hexited : s.phase? n ≠ some .exited) : ∃ k, s.containers[n]? = some k ∧ k.stopper ≠ none := by
  obtain ⟨sid, hstopping⟩ := hn
  obtain ⟨k, hk, -, hreg⟩ := hstopping.tracked
  refine ⟨k, hk, fun hnone => ?_⟩
  have hg := hs.containers n k hk
  rcases hg.stopper.mp hnone with hphase | hphase | hphase
  · exact hg.begun hreg hphase
  · refine refused_of_failed h hout hr ?_
    have hne : k.phase ≠ .removed := by rw [hphase]; decide
    rw [World.refuses, phase?_of_container hk hne, hphase]
    rfl
  · have hne : k.phase ≠ .removed := by rw [hphase]; decide
    exact hexited (hphase ▸ phase?_of_container hk hne)

/-- A stopper stays. -/
theorem stopper_onward {l l' : List Container} (h : Onward l l')
    (hs : ∃ k, l[n]? = some k ∧ k.stopper ≠ none) : ∃ k, l'[n]? = some k ∧ k.stopper ≠ none := by
  obtain ⟨k, hk, hst⟩ := hs
  obtain ⟨k', hk', hf⟩ := h n k hk
  obtain ⟨q, hq⟩ := Option.ne_none_iff_exists'.mp hst
  exact ⟨k', hk', by rw [hf.stopper q hq]; exact Option.some_ne_none q⟩

theorem removed_perform {x : Except JsError (sig.Res cmd)} (hJ : Contained s) (hn : Need C pid c cmd s)
    (ok : allowed (C := C) Dependable pid cmd r s) (h : perform pid cmd r s = some (x, s')) (p n : Nat) :
    ¬ Logged s' p (.removeContainer n) .failed := by
  intro hl
  rcases logged_cases h hl with hl | ⟨-, rfl, hout⟩
  · exact hJ.removed p n hl
  · exact removed_of_good hn h (good_of_handles ok rfl) hout

theorem stopped_perform {x : Except JsError (sig.Res cmd)} (hs : Sound C s) (hJ : Contained s)
    (hn : Need C pid c cmd s) (ok : allowed (C := C) Dependable pid cmd r s)
    (h : perform pid cmd r s = some (x, s')) {p n : Nat} (hl : Logged s' p (.stopContainer n) .failed) :
    ∃ k, s'.containers[n]? = some k ∧ k.stopper ≠ none := by
  refine stopper_onward (onward_perform h) ?_
  rcases logged_cases h hl with hl | ⟨-, rfl, hout⟩
  · exact hJ.stopped p n hl
  · have hr := good_of_handles ok rfl
    exact stopper_of_refused hs hn h hout hr (not_exited_of_stop (fun _ _ hd => hd.exited) ok hr)

theorem contained_perform {x : Except JsError (sig.Res cmd)} (hs : Sound C s) (hJ : Contained s)
    (hc : s.calls[pid]? = some c) (hn : Need C pid c cmd s)
    (ok : allowed (C := C) Dependable pid cmd r s) (h : perform pid cmd r s = some (x, s')) :
    Contained s' := by
  have hst := still_perform h
  refine ⟨fun n n' k k' hk hk' hname => single_perform hs hJ hn ok h hk hk' hname,
    started_perform hJ hn ok h, removed_perform hJ hn ok h,
    fun p n hl => stopped_perform hs hJ hn ok h hl, fun n k' sid hk' hname hown hreg => ?_,
    fun n k' sid q hk' hname hown hq => ?_, fun n k' sid hk' hname hown hreg hnone => ?_⟩
  · rw [hst.workerBirth] at hown
    rw [hst.inside]
    cases handled_perform hs hn ok h hk' with
    | kept k found => exact hJ.starting n _ sid found hname hown hreg
    | create sid' r' new known inside free allowed good =>
      obtain rfl := containerNameOf_inj hname
      exact inside
    | start k found creator stopper => exact hJ.starting n k sid found hname hown hreg
    | stop sid' k found name running stopping => exact hJ.starting n k sid found hname hown hreg
    | remove sid' k found name stopper stopping => exact hJ.starting n k sid found hname hown hreg
  · rw [hst.workerBirth] at hown ⊢
    rw [hst.inside]
    cases handled_perform hs hn ok h hk' with
    | kept k found => exact hJ.stopping n _ sid q found hname hown hq
    | create sid' r' new known inside free allowed good => cases hq
    | start k found creator stopper => cases stopper.symm.trans hq
    | stop sid' k found name running stopping =>
      obtain rfl := Option.some.inj hq
      obtain rfl := containerNameOf_inj (name.symm.trans hname)
      exact Or.inr ⟨born_of_perform h hc stopping.doomed.ofWorker, stopping.inside⟩
    | remove sid' k found name stopper stopping => exact Or.inl rfl
  · rw [hst.workerBirth] at hown
    rw [hst.containerMap]
    cases handled_perform hs hn ok h hk' with
    | kept k found => exact hJ.mapped n _ sid found hname hown hreg hnone
    | create sid' r' new known inside free allowed good => cases hreg
    | start k found creator stopper => exact hJ.mapped n k sid found hname hown hreg hnone
    | stop sid' k found name running stopping => cases hnone
    | remove sid' k found name stopper stopping => cases stopper.symm.trans hnone

variable {o : Op}

theorem starting_compute (hJ : Contained s) (hn : NeedOp C may pid c o s)
    (hk' : (compute C pid o s).2.containers[n]? = some k') (hname : k'.name = containerNameOf sessionId)
    (hown : s.workerBirth ≤ k'.creator) (hreg : k'.registered = false) :
    (compute C pid o s).2.inside k'.creator = some (.start sessionId) := by
  rcases container_compute o hk' with hk | ⟨sid, k, -, -, -, rfl⟩
  · have hin := hJ.starting n k' sessionId hk hname hown hreg
    rcases inside_compute C s pid o with he | ⟨part, rfl, he⟩ | ⟨rfl, he⟩
    · rwa [he]
    · by_cases hpid : k'.creator = pid
      · rw [hpid] at hin
        cases hin.symm.trans hn.1
      · rwa [he, Function.update_of_ne hpid]
    · by_cases hpid : k'.creator = pid
      · rcases hn.1 n k' sessionId hk hpid hname with ⟨hr, -⟩ | ⟨-, hl⟩
        · cases hreg.symm.trans hr
        · exact absurd hl (hJ.started pid n)
      · rwa [he, Function.update_of_ne hpid]
  · cases hreg

theorem stopping_compute {q : Nat} (hJ : Contained s) (hn : NeedOp C may pid c o s)
    (hk' : (compute C pid o s).2.containers[n]? = some k') (hname : k'.name = containerNameOf sessionId)
    (hown : s.workerBirth ≤ k'.creator) (hq : k'.stopper = some q) :
    k'.phase = .removed ∨
      s.workerBirth ≤ q ∧ (compute C pid o s).2.inside q = some (.stop sessionId) := by
  have hold : ∀ k, s.containers[n]? = some k → k.name = containerNameOf sessionId →
      s.workerBirth ≤ k.creator → k.stopper = some q → k.phase = .removed ∨
        s.workerBirth ≤ q ∧ (compute C pid o s).2.inside q = some (.stop sessionId) := by
    intro k hk hname hown hq
    rcases hJ.stopping n k sessionId q hk hname hown hq with hr | ⟨hborn, hin⟩
    · exact Or.inl hr
    · rcases inside_compute C s pid o with he | ⟨part, rfl, he⟩ | ⟨rfl, he⟩
      · exact Or.inr ⟨hborn, by rwa [he]⟩
      · by_cases hpid : q = pid
        · rw [hpid] at hin
          cases hin.symm.trans hn.1
        · exact Or.inr ⟨hborn, by rwa [he, Function.update_of_ne hpid]⟩
      · by_cases hpid : q = pid
        · subst hpid
          rcases hn.2 n k sessionId hk hq hname with ⟨hr, -⟩ | hl
          · exact Or.inl hr
          · exact absurd hl (hJ.removed q n)
        · exact Or.inr ⟨hborn, by rwa [he, Function.update_of_ne hpid]⟩
  rcases container_compute o hk' with hk | ⟨sid, k, -, hk, -, rfl⟩
  · exact hold k' hk hname hown hq
  · exact hold k hk hname hown hq

theorem mapped_compute (hs : Sound C s) (hJ : Contained s)
    (hn : NeedOp C (allowed (C := C) Dependable) pid c o s)
    (hk' : (compute C pid o s).2.containers[n]? = some k') (hname : k'.name = containerNameOf sessionId)
    (hown : s.workerBirth ≤ k'.creator) (hreg : k'.registered = true) (hnone : k'.stopper = none) :
    (compute C pid o s).2.containerMap.Has sessionId n := by
  cases o with
  | containerMapSet sid m =>
    obtain ⟨km, hkm, hnamed⟩ : ∃ km, s.containers[m]? = some km ∧ km.name = containerNameOf sid := by
      rcases hn with ⟨⟨km, hkm, hnamed, -⟩, -⟩ | ⟨⟨km, hkm, hnamed, -⟩, -⟩
      · exact ⟨km, hkm, hnamed⟩
      · exact ⟨km, hkm, hnamed⟩
    refine JsMap.has_set_iff.mpr ?_
    by_cases hsid : sessionId = sid
    · subst hsid
      obtain ⟨k, hk, he⟩ : ∃ k, s.containers[n]? = some k ∧ k.name = k'.name := by
        rcases container_compute (C := C) _ hk' with hk | ⟨sid, k, -, hk, -, rfl⟩
        · exact ⟨k', hk, rfl⟩
        · exact ⟨k, hk, rfl⟩
      exact Or.inl ⟨rfl, hJ.single n m k km hk hkm (he.trans (hname.trans hnamed.symm))⟩
    · rcases container_compute (C := C) _ hk' with hk | ⟨sid', k, he, hk, -, rfl⟩
      · exact Or.inr ⟨hsid, hJ.mapped n k' sessionId hk hname hown hreg hnone⟩
      · obtain ⟨rfl, rfl⟩ := Op.containerMapSet.inj he
        obtain rfl := Option.some.inj (hk.symm.trans hkm)
        exact absurd (containerNameOf_inj (hname.symm.trans hnamed)) hsid
  | containerMapDelete sid =>
    refine JsMap.has_delete_iff.mpr ⟨?_, hJ.mapped n k' sessionId hk' hname hown hreg hnone⟩
    rintro rfl
    obtain ⟨-, -, m, km, hkm, hnamed, -, hend⟩ := hn
    obtain rfl := hJ.single n m k' km hk' hkm (hname.trans hnamed.symm)
    obtain rfl := Option.some.inj (hk'.symm.trans hkm)
    rcases hend with ⟨hst, -⟩ | hl
    · cases hst.symm.trans hnone
    · obtain ⟨k₁, hk₁, hst⟩ := hJ.stopped pid n hl
      obtain rfl := Option.some.inj (hk'.symm.trans hk₁)
      exact absurd hnone hst
  | containerMapClear =>
    obtain ⟨-, s₀, r, x, ⟨σ, rfl, hp, hd⟩, hx⟩ := hn
    have hcontainers : s.containers = σ.shared.containers := containers_of_undocked rfl hx
    have hk₀ : σ.shared.containers[n]? = some k' := hcontainers ▸ hk'
    have hphase := hd.shutdown pid (answered_resume (reply_joinStops hx)) hp k'
      (List.mem_of_getElem? hk₀) ((still_perform hx).workerBirth ▸ hown) hreg
    have hstands := (hs.containers n k' hk').stopper.mp hnone
    rw [hphase] at hstands
    exact absurd hstands (by decide)
  | write stream bytes =>
    have hcontainers : (s.write pid stream bytes).containers = s.containers :=
      write_keeps World.containers (fun _ => rfl) pid stream bytes
    have hmap : (s.write pid stream bytes).containerMap = s.containerMap :=
      write_keeps World.containerMap (fun _ => rfl) pid stream bytes
    exact hmap ▸ hJ.mapped n k' sessionId (hcontainers ▸ hk') hname hown hreg hnone
  | _ => exact hJ.mapped n k' sessionId hk' hname hown hreg hnone

theorem contained_compute (hs : Sound C s) (hJ : Contained s)
    (hn : NeedOp C (allowed (C := C) Dependable) pid c o s) : Contained (compute C pid o s).2 := by
  have hlog : ∀ p cmd out, Logged (compute C pid o s).2 p cmd out → Logged s p cmd out := by
    rintro p cmd out ⟨e, he, hx⟩
    exact ⟨e, (calm_compute (C := C) o).log ▸ he, hx⟩
  have hbirth : (compute C pid o s).2.workerBirth = s.workerBirth := workerBirth_compute o
  refine ⟨fun n n' k k' hk hk' hname => ?_, fun p n hl => hJ.started p n (hlog p _ _ hl),
    fun p n hl => hJ.removed p n (hlog p _ _ hl), fun p n hl => ?_,
    fun n k' sid hk' hname hown hreg => starting_compute hJ hn hk' hname (hbirth ▸ hown) hreg,
    fun n k' sid q hk' hname hown hq => ?_,
    fun n k' sid hk' hname hown hreg hnone =>
      mapped_compute hs hJ hn hk' hname (hbirth ▸ hown) hreg hnone⟩
  · have hold : ∀ {n : Nat} {k' : Container}, (compute C pid o s).2.containers[n]? = some k' →
        ∃ k, s.containers[n]? = some k ∧ k.name = k'.name := by
      intro n k' hk'
      rcases container_compute o hk' with hk | ⟨sid, k, -, hk, -, rfl⟩
      · exact ⟨k', hk, rfl⟩
      · exact ⟨k, hk, rfl⟩
    obtain ⟨k₀, hk₀, he⟩ := hold hk
    obtain ⟨k₁, hk₁, he'⟩ := hold hk'
    exact hJ.single n n' k₀ k₁ hk₀ hk₁ (he.trans (hname.trans he'.symm))
  · have ha : Advances s (compute C pid o s).2 := advances_compute o
    exact stopper_onward ha.containers (hJ.stopped p n (hlog p _ _ hl))
  · rw [hbirth]
    exact stopping_compute hJ hn hk' hname (hbirth ▸ hown) hq

/-! ### Runs -/

theorem contained_act (hs : Sound C s) (hJ : Contained s)
    (h : Act C (allowed (C := C) Dependable) pid c s s') : Contained s' := by
  cases h with
  | perform cmd r x s' called need allowed eq => exact contained_perform hs hJ called need allowed eq
  | compute o called need => exact contained_compute hs hJ need

theorem contained_accept (hJ : Contained s) (h : World.accept pid c s = some s') : Contained s' := by
  obtain ⟨tasks, -, rfl⟩ := accept_still h
  exact ⟨hJ.single, hJ.started, hJ.removed, hJ.stopped, hJ.starting, hJ.stopping, hJ.mapped⟩

/-- When the worker exits, its containers are those of an earlier worker. -/
theorem contained_env {e : Env} (hs : Sound C s) (hJ : Contained s) (h : World.env C e s = some s') :
    Contained s' := by
  have ha := aside_env h
  have hlog : ∀ p cmd out, Logged s' p cmd out → Logged s p cmd out := by
    rintro p cmd out ⟨e, he, hx⟩
    exact ⟨e, ha.log ▸ he, hx⟩
  have hsingle : ∀ (n n' : Nat) k k', s'.containers[n]? = some k → s'.containers[n']? = some k' →
      k.name = k'.name → n = n' := by
    intro n n' k k' hk hk' hname
    obtain ⟨k₀, hk₀, hr⟩ := ha.containers.back n k hk
    obtain ⟨k₁, hk₁, hr'⟩ := ha.containers.back n' k' hk'
    exact hJ.single n n' k₀ k₁ hk₀ hk₁
      (hr.follows.name.symm.trans (hname.trans hr'.follows.name))
  have hstopped : ∀ p n, Logged s' p (.stopContainer n) .failed →
      ∃ k, s'.containers[n]? = some k ∧ k.stopper ≠ none := fun p n hl =>
    stopper_onward ha.containers.onwards (hJ.stopped p n (hlog p _ _ hl))
  have hstarted : ∀ p n, ¬ Logged s' p (.startContainer n) .failed := fun p n hl =>
    hJ.started p n (hlog p _ _ hl)
  have hremoved : ∀ p n, ¬ Logged s' p (.removeContainer n) .failed := fun p n hl =>
    hJ.removed p n (hlog p _ _ hl)
  rcases map_env h with ⟨hmap, -, hbirth⟩ | ⟨-, rfl⟩
  · refine ⟨hsingle, hstarted, hremoved, hstopped, fun n k' sid hk' hname hown hreg => ?_,
      fun n k' sid q hk' hname hown hst => ?_, fun n k' sid hk' hname hown hreg hst => ?_⟩
    · obtain ⟨k, hk, hr⟩ := ha.containers.back n k' hk'
      rw [ha.inside, hr.follows.creator]
      rw [hbirth, hr.follows.creator] at hown
      exact hJ.starting n k sid hk (hr.follows.name.symm.trans hname) hown
        (hr.registered.symm.trans hreg)
    · obtain ⟨k, hk, hr⟩ := ha.containers.back n k' hk'
      rw [ha.inside, hbirth, hr.removed]
      rw [hbirth, hr.follows.creator] at hown
      exact hJ.stopping n k sid q hk (hr.follows.name.symm.trans hname) hown
        (hr.stopper.symm.trans hst)
    · obtain ⟨k, hk, hr⟩ := ha.containers.back n k' hk'
      rw [hmap]
      rw [hbirth, hr.follows.creator] at hown
      exact hJ.mapped n k sid hk (hr.follows.name.symm.trans hname) hown
        (hr.registered.symm.trans hreg) (hr.stopper.symm.trans hst)
  · have hold : ∀ (n : Nat) k, s.containers[n]? = some k → ¬ s.calls.length ≤ k.creator :=
      fun n k hk hle => ((hs.unborn _ hle).containers n k hk).1 rfl
    exact ⟨hsingle, hstarted, hremoved, hstopped, fun n k sid hk _ hown => absurd hown (hold n k hk),
      fun n k sid q hk _ hown => absurd hown (hold n k hk),
      fun n k sid hk _ hown => absurd hown (hold n k hk)⟩

theorem contained_of_reaches (h : Service.Reaches Dependable (start C) σ) : Contained σ.shared :=
  shared_of_reaches contained_initial (fun hs hJ _ ha => contained_act hs hJ ha)
    (fun _ hJ _ ha => contained_accept hJ ha) (fun hs hJ _ he => contained_env hs hJ he) h

/-- A process that has not died with its worker is in `startContainer` or in
`stopContainer`. -/
def Busy (s : World) : Prop := ∃ p part, s.inside p = some part ∧ s.dead p = false

/-- A process of the worker that runs has not died. -/
theorem not_dead_of_born {p : Nat} (h : s.workerBirth ≤ p) : s.dead p = false :=
  (Bool.and_eq_false_iff).mpr (Or.inr (decide_eq_false (Nat.not_lt.mpr h)))

theorem not_busy (hs : Sound C s)
    (h : ∀ p < s.calls.length, s.inside p = none ∨ s.dead p = true) : ¬ Busy s := by
  rintro ⟨p, part, hin, hd⟩
  by_cases hp : p < s.calls.length
  · rcases h p hp with hn | hdead
    · cases hn.symm.trans hin
    · cases hd.symm.trans hdead
  · cases (hs.unborn p (Nat.le_of_not_lt hp)).inside.symm.trans hin

/-- **No container escapes.**  In every run in which Docker does what it is told, no
container that has exited by itself is told to stop, no container is made under the
name of one that has been removed, and a shutdown forgets only what it has removed:
whenever no container is being started or stopped, every container of this worker that
exists is the one that the map has for its session. -/
theorem containers_tracked (C : Config N) (σ : (services C).Sys)
    (h : Service.Reaches Dependable (start C) σ) (hq : ¬ Busy σ.shared) (n : Nat) (k : Container)
    (hk : σ.shared.containers[n]? = some k) (hown : σ.shared.workerBirth ≤ k.creator)
    (he : k.phase ≠ .removed) :
    ∃ sessionId, k.name = containerNameOf sessionId ∧ σ.shared.containerMap.get sessionId = some n := by
  have hJ := contained_of_reaches h
  have hs : Sound C σ.shared := (holds_of_reaches h).2.1
  obtain ⟨sid, hname, -⟩ := (hs.containers n k hk).named
  refine ⟨sid, hname, JsMap.get_eq_some_iff.mpr ?_⟩
  cases hreg : k.registered with
  | false =>
    exact absurd ⟨k.creator, _, hJ.starting n k sid hk hname hown hreg, not_dead_of_born hown⟩ hq
  | true =>
    cases hst : k.stopper with
    | none => exact hJ.mapped n k sid hk hname hown hreg hst
    | some q =>
      rcases hJ.stopping n k sid q hk hname hown hst with hr | ⟨hborn, hin⟩
      · exact absurd hr he
      · exact absurd ⟨q, _, hin, not_dead_of_born hborn⟩ hq

/-- A session is created, and a scan starts its container. -/
def containerStarted : List (services Config.plain).Event :=
  [.call (.createSession (js "ann")), .resume 0 .done, .call .scanAndCreateContainers,
    .resume 1 (.keys [sessionKey (js "0")])] ++ List.replicate 7 (.resume 1 .done)

theorem containers_tracked_started :
    ∃ σ k, Service.run (start Config.plain) containerStarted = some σ ∧
      σ.shared.containers[0]? = some k ∧ k.phase = .running ∧
      ∃ sessionId, k.name = containerNameOf sessionId ∧
        σ.shared.containerMap.get sessionId = some 0 := by
  have hrun : (Service.runIf Dependable (start Config.plain) containerStarted).map (fun σ =>
      (decide (∀ p < σ.shared.calls.length, σ.shared.inside p = none ∨ σ.shared.dead p = true),
        (σ.shared.containers[0]?).map fun k =>
          (decide (σ.shared.workerBirth ≤ k.creator), k.phase))) =
      some (true, some (true, .running)) := by decide +kernel
  obtain ⟨σ, hσ, hend⟩ := Option.map_eq_some_iff.mp hrun
  obtain ⟨hquiet, hend⟩ := Prod.mk.inj hend
  obtain ⟨k, hk, hend⟩ := Option.map_eq_some_iff.mp hend
  obtain ⟨hown, hphase⟩ := Prod.mk.inj hend
  have hr := Service.reaches_of_runIf hσ
  refine ⟨σ, k, Service.run_of_runIf hσ, hk, hphase, containers_tracked Config.plain σ hr
    (not_busy (holds_of_reaches hr).2.1 (of_decide_eq_true hquiet)) 0 k hk
    (of_decide_eq_true hown) ?_⟩
  rw [hphase]
  decide

/-- The container exits by itself, and the session expires.  Docker refuses to stop the
container, which stays with its directory, and the cleanup deletes its entry. -/
example : (Service.run (start Config.plain) (containerStarted ++ [.env (.containerExits 0),
      .env (.tick 600001), .call (.cleanupExpiredSessions 5), .resume 2 .done,
      .resume 2 .done])).map (fun σ => ((σ.shared.containers[0]?).map Container.phase,
        σ.shared.directories (js "/lsp-files/0"), σ.shared.containerMap.get (js "0"))) =
    some (some .exited, true, none) := by decide +kernel

/-- Docker makes the container of a session and does not start it. -/
def containerNotStarted : List (services Config.plain).Event :=
  [.call (.createSession (js "ann")), .resume 0 .done, .call .scanAndCreateContainers,
    .resume 1 (.keys [sessionKey (js "0")]), .resume 1 .done, .resume 1 .done, .resume 1 .done,
    .resume 1 (.fails (js "Error") (js "driver failed"))]

/-- The scan is over, the container is there, and the map has nothing of it. -/
theorem container_escapes_unstarted :
    ∃ σ k, Service.Reaches Service.anyEvent (start Config.plain) σ ∧ ¬ Busy σ.shared ∧
      (∀ p ∈ σ.procs, p.prog.Returned) ∧
      σ.shared.containers[0]? = some k ∧ k.name = containerNameOf (js "0") ∧
      σ.shared.workerBirth ≤ k.creator ∧ k.phase ≠ .removed ∧
      σ.shared.containerMap.get (js "0") = none := by
  have hrun : (Service.run (start Config.plain) containerNotStarted).map (fun σ =>
      (decide (∀ p < σ.shared.calls.length, σ.shared.inside p = none ∨ σ.shared.dead p = true),
        decide (∀ p ∈ σ.procs, p.prog.Returned), (σ.shared.containers[0]?).map (fun k =>
          decide (k.name = containerNameOf (js "0") ∧ σ.shared.workerBirth ≤ k.creator ∧
            k.phase ≠ .removed)), σ.shared.containerMap.get (js "0"))) =
      some (true, true, some true, none) := by decide +kernel
  obtain ⟨σ, hσ, hend⟩ := Option.map_eq_some_iff.mp hrun
  obtain ⟨hquiet, hend⟩ := Prod.mk.inj hend
  obtain ⟨hret, hend⟩ := Prod.mk.inj hend
  obtain ⟨hcontainer, hmap⟩ := Prod.mk.inj hend
  obtain ⟨k, hk, hfacts⟩ := Option.map_eq_some_iff.mp hcontainer
  obtain ⟨hname, hown, hphase⟩ := of_decide_eq_true hfacts
  have hr : Service.Reaches Service.anyEvent (start Config.plain) σ :=
    Service.reaches_of_run hσ fun _ _ _ => trivial
  exact ⟨σ, k, hr, not_busy (holds_of_reaches hr).2.1 (of_decide_eq_true hquiet),
    of_decide_eq_true hret, hk, hname, hown, hphase, hmap⟩

end FullstackSvc.LanguageServer
