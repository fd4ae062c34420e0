import FullstackSvc.LanguageServer.Worker

/-!
# What holds in every state of the language-server services

`outline` says of every call of the two services what it needs, what it does and
what it has achieved when it is over, under any condition `ok` on the schedule.
It is coherent (`valid_outline`), so it holds in every state that a run reaches:

* `holds_of_reaches`: the invariant holds and every process is where its program
  says.
* `shared_of_reaches`: **what every act of a process, every request and every
  event from outside keep** holds of the shared state.

A condition on the schedule reaches the acts as `allowed`: a call is answered in
a state of which the condition holds.
-/

namespace FullstackSvc.LanguageServer

open Text Async FullstackSvc.Stream FullstackSvc.Lsp FullstackSvc.Store

variable {N : Type} {C : Config N} {s s' : World} {pid : Nat} {c : Request} {cmd : Cmd} {r : Reply}
  {sessionId userId : JsString} {n : Nat}

/-! ### What comes from outside -/

/-- An event from outside leaves what the programs own. -/
structure Aside (s s' : World) : Prop where
  now : s.now ≤ s'.now
  drawnBy : s'.drawnBy = s.drawnBy
  calls : s'.calls = s.calls
  directories : s'.directories = s.directories
  files : s'.files = s.files
  redis : s'.redis = s.redis
  containers : Remaining s.containers s'.containers
  writes : s'.writes = s.writes
  users : Extends s.user? s'.user?
  sockets : s'.socket? = s.socket?
  lastGet : s'.lastGet = s.lastGet
  sighted : s'.sighted = s.sighted
  log : s'.log = s.log
  inside : s'.inside = s.inside

theorem Aside.refl : Aside s s :=
  ⟨Nat.le_refl _, rfl, rfl, rfl, rfl, rfl, .refl, rfl, .refl, rfl, rfl, rfl, rfl, rfl⟩

/-- Sockets as they were created. -/
theorem socket?_modify {f : TcpSocket → TcpSocket} (hs : s'.sockets = s.sockets.modify n f)
    (hf : ∀ t, (f t).made = t.made) : s'.socket? = s.socket? := by
  funext m
  rw [World.socket?, World.socket?, hs]
  exact map_getElem?_modify hf m

theorem user?_modify {client : Nat} {f : Client → Client}
    (hs : s'.clients = s.clients.modify client f) (hf : ∀ c, (f c).userId = c.userId) :
    s'.user? = s.user? := by
  funext m
  rw [World.user?, World.user?, hs]
  exact map_getElem?_modify hf m

/-- What an event from outside does. -/
inductive Happens (C : Config N) (s : World) : Env → World → Prop
  | tick (ms : Nat) : Happens C s (.tick ms) { s with now := s.now + ms }
  | workerExit (up : s.workerUp = true) : Happens C s .workerExit s.workerExit
  | workerInit (down : s.workerUp = false) : Happens C s .workerInit s.workerInit
  | containerExits (n : Nat) (k : Container) (found : s.containers[n]? = some k)
      (running : k.phase = .running) : Happens C s (.containerExits n) (s.containerExits n)
  | turnedAway (authToken authorization : Option JsString) :
      Happens C s (.handleConnection authToken authorization) s
  | handleConnection (authToken authorization : Option JsString) (userId : JsString) :
      Happens C s (.handleConnection authToken authorization)
        { s with clients := s.clients ++ [⟨userId, true⟩] }
  | handleDisconnect (client : Nat) (online : s.online client = true) :
      Happens C s (.handleDisconnect client) (s.handleDisconnect client)
  | tcpConnected (n : Nat) (t : TcpSocket) (found : s.sockets[n]? = some t)
      (connecting : t.phase = .connecting) :
      Happens C s (.tcpConnected n)
        (((s.modifySocket n fun t => { t with phase := .connected }).setClientSession t.client
          (some (t.entry n))).emit t.client (.lspConnected t.sessionId))
  | tcpData (n : Nat) (chunk : Bytes) (t : TcpSocket) (found : s.sockets[n]? = some t)
      (connected : t.phase = .connected) : Happens C s (.tcpData n chunk) (s.receive C n t chunk)
  | tcpError (n : Nat) (t : TcpSocket) (found : s.sockets[n]? = some t) :
      Happens C s (.tcpError n) (s.emit t.client (.lspError (js "Connection error") 500))
  | tcpClose (n : Nat) (t : TcpSocket) (found : s.sockets[n]? = some t) (open_ : t.phase ≠ .closed) :
      Happens C s (.tcpClose n)
        (((s.modifySocket n fun t => { t with phase := .closed }).setClientSession t.client
          none).emit t.client (.lspDisconnected (js "Connection closed")))

theorem handleConnection_cases (s : World) (authToken authorization : Option JsString) :
    Happens C s (.handleConnection authToken authorization)
      (s.handleConnection C authToken authorization) := by
  unfold World.handleConnection
  split
  · exact .turnedAway _ _
  · split
    · exact .turnedAway _ _
    · split
      · exact .turnedAway _ _
      · exact .handleConnection _ _ _

/-- **Inversion of an event.** -/
theorem env_cases {e : Env} (h : World.env C e s = some s') : Happens C s e s' := by
  cases e with
  | tick ms => exact Option.some.inj h ▸ .tick ms
  | workerExit =>
    simp only [World.env] at h
    split at h
    · rename_i up
      exact Option.some.inj h ▸ .workerExit up
    · cases h
  | workerInit =>
    simp only [World.env] at h
    split at h
    · cases h
    · rename_i up
      exact Option.some.inj h ▸ .workerInit (Bool.eq_false_iff.mpr up)
  | containerExits n =>
    simp only [World.env] at h
    split at h
    · rename_i hphase
      obtain ⟨k, hk, hrun, -⟩ := phase?_eq_some hphase
      exact Option.some.inj h ▸ .containerExits n k hk hrun
    · cases h
  | handleConnection authToken authorization =>
    exact Option.some.inj h ▸ handleConnection_cases s authToken authorization
  | handleDisconnect client =>
    simp only [World.env] at h
    split at h
    · rename_i online
      exact Option.some.inj h ▸ .handleDisconnect client online
    · cases h
  | tcpConnected n =>
    simp only [World.env] at h
    split at h
    · cases h
    · rename_i t ht
      split at h
      · rename_i hp
        exact Option.some.inj h ▸ .tcpConnected n t ht hp
      · cases h
  | tcpData n chunk =>
    simp only [World.env] at h
    split at h
    · cases h
    · rename_i t ht
      split at h
      · rename_i hp
        exact Option.some.inj h ▸ .tcpData n chunk t ht hp
      · cases h
  | tcpError n =>
    simp only [World.env] at h
    split at h
    · cases h
    · rename_i t ht
      split at h
      · cases h
      · exact Option.some.inj h ▸ .tcpError n t ht
  | tcpClose n =>
    simp only [World.env] at h
    split at h
    · cases h
    · rename_i t ht
      split at h
      · cases h
      · rename_i hp
        exact Option.some.inj h ▸ .tcpClose n t ht hp

theorem remaining_containerExits {k : Container} (hk : s.containers[n]? = some k)
    (hrun : k.phase = .running) : Remaining s.containers (s.containerExits n).containers := by
  refine ⟨fun m k₀ hk₀ => ?_, fun m k' hk' => ?_⟩
  · have hget : (s.containerExits n).containers[m]? =
        (fun k => if n = m then { k with phase := .exited } else k) <$> s.containers[m]? :=
      List.getElem?_modify _ _ _ _
    rw [hk₀] at hget
    refine ⟨_, hget, ?_⟩
    by_cases hm : n = m
    · subst hm
      obtain rfl := Option.some.inj (hk.symm.trans hk₀)
      exact Or.inr ⟨hrun, if_pos rfl⟩
    · exact Or.inl (if_neg hm)
  · rcases modify_cases hk' with ⟨rfl, k₀, hk₀, rfl⟩ | ⟨-, hk₀⟩
    · obtain rfl := Option.some.inj (hk.symm.trans hk₀)
      exact ⟨k, hk, Or.inr ⟨hrun, rfl⟩⟩
    · exact ⟨k', hk₀, Or.inl rfl⟩

/-- The listener of `'data'` touches one socket and what is delivered. -/
theorem receive_eq (s : World) (n : Nat) (t : TcpSocket) (chunk : Bytes) : ∃ delivered,
    s.receive C n t chunk = { s with
      sockets := s.sockets.modify n fun t' =>
        { t' with buffer := (responseCutter.drain (t.buffer ++ chunk)).buffer }
      delivered := delivered } := by
  unfold World.receive
  split
  · exact ⟨_, rfl⟩
  · exact ⟨s.delivered, rfl⟩

theorem aside_handleDisconnect (s : World) (client : Nat) : Aside s (s.handleDisconnect client) := by
  have huser : ∀ s' : World,
      s'.clients = s.clients.modify client (fun c => { c with connected := false }) →
      Extends s.user? s'.user? := fun s' hs' => .of_eq (user?_modify hs' fun _ => rfl)
  unfold World.handleDisconnect
  cases s.clientSessions client with
  | none =>
    exact ⟨Nat.le_refl _, rfl, rfl, rfl, rfl, rfl, .refl, rfl, huser _ rfl, rfl, rfl, rfl, rfl, rfl⟩
  | some session =>
    exact ⟨Nat.le_refl _, rfl, rfl, rfl, rfl, rfl, .refl, rfl, huser _ rfl,
      (socket?_modify rfl fun _ => rfl), rfl, rfl, rfl, rfl⟩

theorem aside_env {e : Env} (h : World.env C e s = some s') : Aside s s' := by
  cases env_cases h with
  | tick ms =>
    exact ⟨Nat.le_add_right _ _, rfl, rfl, rfl, rfl, rfl, .refl, rfl, .refl, rfl, rfl, rfl, rfl, rfl⟩
  | turnedAway authToken authorization => exact .refl
  | handleConnection authToken authorization userId =>
    exact ⟨Nat.le_refl _, rfl, rfl, rfl, rfl, rfl, .refl, rfl, extends_concat_map _ _ _, rfl, rfl, rfl,
      rfl, rfl⟩
  | handleDisconnect client online => exact aside_handleDisconnect s client
  | tcpConnected n t found connecting =>
    exact ⟨Nat.le_refl _, rfl, rfl, rfl, rfl, rfl, .refl, rfl, .refl,
      (socket?_modify rfl fun _ => rfl), rfl, rfl, rfl, rfl⟩
  | tcpData n chunk t found connected =>
    obtain ⟨delivered, he⟩ := receive_eq (C := C) s n t chunk
    rw [he]
    exact ⟨Nat.le_refl _, rfl, rfl, rfl, rfl, rfl, .refl, rfl, .refl,
      (socket?_modify rfl fun _ => rfl), rfl, rfl, rfl, rfl⟩
  | tcpClose n t found open_ =>
    exact ⟨Nat.le_refl _, rfl, rfl, rfl, rfl, rfl, .refl, rfl, .refl,
      (socket?_modify rfl fun _ => rfl), rfl, rfl, rfl, rfl⟩
  | workerExit up =>
    exact ⟨Nat.le_refl _, rfl, rfl, rfl, rfl, rfl, .refl, rfl, .refl, rfl, rfl, rfl, rfl, rfl⟩
  | workerInit down =>
    exact ⟨Nat.le_refl _, rfl, rfl, rfl, rfl, rfl, .refl, rfl, .refl, rfl, rfl, rfl, rfl, rfl⟩
  | containerExits n k found running =>
    exact ⟨Nat.le_refl _, rfl, rfl, rfl, rfl, rfl, remaining_containerExits found running, rfl, .refl,
      rfl, rfl, rfl, rfl, rfl⟩
  | tcpError n t found =>
    exact ⟨Nat.le_refl _, rfl, rfl, rfl, rfl, rfl, .refl, rfl, .refl, rfl, rfl, rfl, rfl, rfl⟩

theorem Aside.advances (h : Aside s s') : Advances s s' :=
  ⟨h.now, .of_eq (by rw [h.drawnBy]), .of_eq (by rw [h.calls]), fun _ hk => h.redis ▸ hk,
    h.containers.onwards, h.users, .of_eq h.sockets, fun _ he => h.log ▸ he⟩

/-- A container that exits was running, so nobody has stopped it. -/
theorem Aside.private (h : Aside s s') (hs : Sound C s) (p : Nat) : Private p s s' := by
  refine ⟨by rw [h.lastGet], by rw [h.sighted], by rw [h.inside], fun _ he _ => h.log ▸ he,
    fun n k' hk' hc => ?_, fun n k' hk' hc => ?_⟩
  · obtain ⟨k, hk, hr⟩ := h.containers.back n k' hk'
    exact ⟨k, hk, hr.follows.creator.symm.trans hc, hr.registered, fun _ => hr.created.symm⟩
  · obtain ⟨k, hk, hr⟩ := h.containers.back n k' hk'
    have hst : k.stopper = some p := hr.stopper.symm.trans hc
    rcases hr.phase with he | ⟨hrun, -⟩
    · exact ⟨k, hk, hst, he⟩
    · have hnone := (hs.containers n k hk).stopper.mpr (Or.inr (Or.inl hrun))
      cases hnone.symm.trans hst

/-- The entry that the callback of `connect` makes is one of its own socket. -/
theorem gated_tcpConnected {t : TcpSocket} (hg : Gated C s) (ha : Advances s s')
    (ht : s.sockets[n]? = some t) (hsockets : s'.socket? = s.socket?)
    (hentries : s'.clientSessions = Function.update s.clientSessions t.client (some (t.entry n)))
    (hwrites : s'.writes = s.writes) : Gated C s' := by
  have hmade : s'.socket? n = some t.made := by
    rw [hsockets, World.socket?, ht]
    rfl
  refine ⟨fun m t' hm => (hg.sockets m t' (hsockets ▸ hm)).mono ha, fun client e he => ?_,
    fun w hw => ?_⟩
  · rw [hentries] at he
    by_cases hc : client = t.client
    · subst hc
      rw [Function.update_self] at he
      obtain rfl := Option.some.inj he
      exact ⟨t.made, hmade, rfl, rfl⟩
    · rw [Function.update_of_ne hc] at he
      obtain ⟨t', ht', hx⟩ := hg.entries client e he
      exact ⟨t', hsockets ▸ ht', hx⟩
  · obtain ⟨t', message, ht', hx⟩ := hg.writes w (hwrites ▸ hw)
    exact ⟨t', message, hsockets ▸ ht', ha.calls _ _ hx⟩

/-- An entry of the registry that is left when one of them is deleted. -/
theorem entry_of_update {client client' : Nat} {e : ClientSession}
    (h : Function.update s.clientSessions client none client' = some e) :
    s.clientSessions client' = some e := by
  by_cases hc : client' = client
  · rw [hc, Function.update_self] at h
    cases h
  · rwa [Function.update_of_ne hc] at h

theorem clientSessions_handleDisconnect {client client' : Nat} {e : ClientSession}
    (h : (s.handleDisconnect client).clientSessions client' = some e) :
    s.clientSessions client' = some e := by
  unfold World.handleDisconnect at h
  cases hs : s.clientSessions client with
  | none =>
    simp only [hs] at h
    exact h
  | some session =>
    simp only [hs] at h
    exact entry_of_update h

theorem gated_env {e : Env} (hg : Gated C s) (h : World.env C e s = some s') : Gated C s' := by
  have haside := aside_env h
  have ha := haside.advances
  have hkept : (∀ client e, s'.clientSessions client = some e → s.clientSessions client = some e) →
      Gated C s' := fun he => hg.of_eq ha (fun n t ht => haside.sockets ▸ ht) he haside.writes
  cases env_cases h with
  | tcpConnected n t found connecting =>
    exact gated_tcpConnected hg ha found haside.sockets rfl haside.writes
  | tcpClose n t found open_ => exact hkept fun client e he => entry_of_update he
  | handleDisconnect client online =>
    exact hkept fun client' e he => clientSessions_handleDisconnect he
  | tcpData n chunk t found connected =>
    obtain ⟨delivered, he⟩ := receive_eq (C := C) s n t chunk
    refine hkept fun client e hc => ?_
    rwa [he] at hc
  | _ => exact hkept fun _ _ he => he

/-- Only a tick moves the clock. -/
theorem tick_env {e : Env} (h : World.env C e s = some s') :
    s'.now = s.now ∨ ∃ ms, e = .tick ms ∧ s' = { s with now := s.now + ms } := by
  cases env_cases h with
  | tick ms => exact Or.inr ⟨ms, rfl, rfl⟩
  | handleDisconnect client online =>
    unfold World.handleDisconnect
    cases s.clientSessions client with
    | none => exact Or.inl rfl
    | some session => exact Or.inl rfl
  | tcpData n chunk t found connected =>
    obtain ⟨delivered, he⟩ := receive_eq (C := C) s n t chunk
    rw [he]
    exact Or.inl rfl
  | _ => exact Or.inl rfl

/-- Only the end of the worker changes its map. -/
theorem map_env {e : Env} (h : World.env C e s = some s') :
    (s'.containerMap = s.containerMap ∧ s'.stopTasks = s.stopTasks ∧ s'.workerBirth = s.workerBirth) ∨
      e = .workerExit ∧ s' = s.workerExit := by
  cases env_cases h with
  | workerExit up => exact Or.inr ⟨rfl, rfl⟩
  | handleDisconnect client online =>
    unfold World.handleDisconnect
    cases s.clientSessions client with
    | none => exact Or.inl ⟨rfl, rfl, rfl⟩
    | some session => exact Or.inl ⟨rfl, rfl, rfl⟩
  | tcpData n chunk t found connected =>
    obtain ⟨delivered, he⟩ := receive_eq (C := C) s n t chunk
    rw [he]
    exact Or.inl ⟨rfl, rfl, rfl⟩
  | _ => exact Or.inl ⟨rfl, rfl, rfl⟩

theorem sound_env {e : Env} (hs : Sound C s) (h : World.env C e s = some s') : Sound C s' := by
  have haside := aside_env h
  have hu : ∀ p, s'.calls.length ≤ p → Unborn s' p := fun p hp =>
    (hs.unborn p (haside.calls ▸ hp)).of_private (haside.private hs p)
  refine hs.of_eq haside.advances hu haside.redis haside.containers
    (fun p n sid hp => hs.tasked p n sid (haside.calls ▸ hp)) (fun sid n hm => ?_) (fun n sid ht => ?_)
    (gated_env hs.gated h)
  · rcases map_env h with ⟨he, -, -⟩ | ⟨-, rfl⟩
    · exact hs.map sid n (he ▸ hm)
    · exact absurd hm JsMap.not_has_empty
  · rcases map_env h with ⟨-, he, -⟩ | ⟨-, rfl⟩
    · exact hs.tasks n sid (he ▸ ht)
    · cases ht

/-! ### Requests -/

theorem accept_eq (h : World.accept pid c s = some s') :
    s.admits c = true ∧ s' = (s.taskTaken c).record c := by
  unfold World.accept at h
  split at h
  · rename_i ha
    exact ⟨ha, (Option.some.inj h).symm⟩
  · cases h

/-- What a request leaves as it was. -/
theorem accept_still (h : World.accept pid c s = some s') : ∃ tasks, (∀ x ∈ tasks, x ∈ s.stopTasks) ∧
    s' = { s with stopTasks := tasks, calls := s.calls ++ [c] } := by
  obtain ⟨-, rfl⟩ := accept_eq h
  cases c with
  | stopTask n sid => exact ⟨_, fun _ hx => List.mem_of_mem_erase hx, rfl⟩
  | _ => exact ⟨_, fun _ hx => hx, rfl⟩

theorem advances_accept (h : World.accept pid c s = some s') : Advances s s' := by
  obtain ⟨tasks, -, rfl⟩ := accept_still h
  exact ⟨Nat.le_refl _, .refl, extends_concat _ _, fun _ hk => hk, .refl, .refl, .refl, fun _ he => he⟩

theorem private_accept (h : World.accept pid c s = some s') (p : Nat) : Private p s s' := by
  obtain ⟨tasks, -, rfl⟩ := accept_still h
  exact .of_containers rfl rfl rfl (fun _ he _ => he) rfl

/-- A process that has been somewhere is none that comes in. -/
theorem dead_accept {p : Nat} {part : Section} (hs : Sound C s) (h : World.accept pid c s = some s')
    (hin : s.inside p = some part) : s'.dead p = s.dead p := by
  have hp : p < s.calls.length := by
    by_contra hlt
    cases (hs.unborn p (Nat.le_of_not_lt hlt)).inside.symm.trans hin
  obtain ⟨tasks, -, rfl⟩ := accept_still h
  rw [World.dead, World.dead, World.ofWorker, World.ofWorker]
  show (((s.calls ++ [c])[p]?).any Request.ofWorker && _) = _
  rw [List.getElem?_append_left hp]

theorem sound_accept (hs : Sound C s) (h : World.accept pid c s = some s') : Sound C s' := by
  have ha := advances_accept h
  have hu : ∀ p, s'.calls.length ≤ p → Unborn s' p := fun p hp =>
    (hs.unborn p (ha.calls_length.trans hp)).of_private (private_accept h p)
  have hadmits := (accept_eq h).1
  obtain ⟨tasks, htasks, rfl⟩ := accept_still h
  refine hs.of_eq ha hu rfl .refl (fun p n sid hp => ?_) hs.map
    (fun n sid ht => hs.tasks n sid (htasks _ ht))
    (hs.gated.of_eq ha (fun _ _ ht => ht) (fun _ _ he => he) rfl)
  rcases getElem?_concat_cases hp with hp | ⟨-, rfl⟩
  · exact hs.tasked p n sid hp
  · exact hs.tasks n sid (of_decide_eq_true hadmits)

/-- A process that has done nothing yet. -/
theorem Unborn.fresh {p : Nat} (h : Unborn s p) : Fresh C p s :=
  ⟨⟨h.inside, fun n k _ hk hc _ => absurd hc (h.containers n k hk).1,
    fun n k _ hk hst _ => absurd hst (h.containers n k hk).2⟩, h.log⟩

/-! ### The outline -/

/-- The record of requests is that of the processes. -/
def Linked (σ : (services C).Sys) : Prop := σ.shared.calls = σ.procs.map Service.Proc.call

theorem linked_start : Linked (start C) := rfl

theorem linked_step {σ σ' : (services C).Sys} {e : (services C).Event} (h : Linked σ)
    (hs : Service.step σ e = some σ') : Linked σ' := by
  refine @Service.map_call_step _ _ _ _ (host C) (services C) World.calls
    (fun hx => (still_perform hx).calls) (fun _ o _ => calls_compute o) (fun {pid} _ _ _ ha => ?_)
    (fun he => (aside_env he).calls) σ σ' e h hs
  obtain ⟨tasks, -, rfl⟩ := @accept_still _ _ pid _ ha
  rfl

variable (ok : (services C).Sys → (services C).Event → Prop)

/-- What a condition on the schedule allows a call to answer. -/
def allowed (pid : Nat) (cmd : Cmd) (r : Reply) (s : World) : Prop :=
  ∃ σ : (services C).Sys, σ.shared = s ∧ σ.pending pid = some cmd ∧ ok σ (.resume pid r)

/-- What a call has achieved that has returned. -/
def Achieved (C : Config N) (pid : Nat) (c : Request) (x : Except JsError ((services C).Ret c))
    (s : World) : Prop :=
  match x with
  | .error _ => True
  | .ok a =>
    match c, a with
    | .createSession _, sessionId => CreatedSession C pid sessionId s
    | .renewSession sessionId _, _ => Renewed pid sessionId s
    | .uploadFile sessionId _ file, _ => Uploaded pid sessionId file s
    | _, _ => True

theorem Achieved.mono {x : Except JsError ((services C).Ret c)} (h : Achieved C pid c x s)
    (ha : Advances s s') : Achieved C pid c x s' := by
  cases x with
  | error e => exact trivial
  | ok a =>
    cases c with
    | createSession u =>
      obtain ⟨hd, d, hl⟩ := h
      exact ⟨drew_mono hd ha, d, hl.mono ha⟩
    | renewSession sid u => exact Logged.mono h ha
    | uploadFile sid u file =>
      rcases h with ⟨seconds, d, hl, hf⟩ | hl
      · exact Or.inl ⟨seconds, d, hl.mono ha, hf⟩
      · exact Or.inr (hl.mono ha)
    | _ => exact trivial

/-- The services under a condition on the schedule. -/
def outline : Outline (services C) where
  ok σ e := Linked σ ∧ ok σ e
  cmdOk := allowed ok
  inv := Sound C
  rely pid _ s s' := Advances s s' ∧ Private pid s s'
  guar pid c := Relation.ReflTransGen (Act C (allowed ok) pid c)
  need pid c cmd s := s.calls[pid]? = some c ∧ Need C pid c cmd s
  change := Advances
  done pid c x s := s.inside pid = none ∧ Achieved C pid c x s

variable {ok}
variable {may : Nat → Cmd → Reply → World → Prop}

theorem advances_acts (h : Relation.ReflTransGen (Act C may pid c) s s') : Advances s s' := by
  induction h with
  | refl => exact .refl
  | tail _ ha ih => exact ih.trans ha.advances

theorem private_acts {p : Nat} (hp : pid ≠ p) (hs : Sound C s)
    (h : Relation.ReflTransGen (Act C may pid c) s s') : Private p s s' := by
  induction h with
  | refl => exact .refl
  | tail hacts ha ih => exact ih.trans (private_act hp (sound_acts hacts hs) ha)

/-- A call whose program serves it meets its goal. -/
theorem goal_of_serves {pre : World → Prop}
    (h : Serves C (allowed ok) pid c pre ((services C).body c)
      (fun a s => Home C pid s ∧ Achieved C pid c (.ok a) s) (Home C pid))
    (hs : Sound C s) (hc : Called pid c s) (hp : pre s) :
    ((services C).body c).wp (host C) pid ((outline ok).ctx pid c) ((outline ok).goal pid c) s s := by
  have hend : Prog.Triple (host C) pid ((outline ok).ctx pid c) (fun s => Called pid c s ∧ pre s)
      ((services C).body c) (fun a s => (outline ok).done pid c (.ok a) s)
      (fun e s => (outline ok).done pid c (.error e) s) :=
    Prog.Triple.mono h (fun _ h => h) (fun a s hx => ⟨hx.2.1.inside, hx.2.2⟩)
      fun e s hx => ⟨hx.2.inside, trivial⟩
  have hclosed : ((outline ok).ctx pid c).Closed := closed_context
  exact Outline.goal_of_triple hclosed hend hs ⟨hc, hp⟩

theorem user?_of_online {client : Nat} (h : s.online client = true) :
    ∃ u, s.user? client = some u := by
  rw [World.online] at h
  rw [World.user?]
  cases hc : s.clients[client]? with
  | none =>
    rw [hc] at h
    cases h
  | some c => exact ⟨c.userId, rfl⟩

/-- A call that comes in meets its goal. -/
theorem goal_of_accept (hs : Sound C s) (hlen : pid = s.calls.length)
    (h : World.accept pid c s = some s') :
    ((services C).body c).wp (host C) pid ((outline ok).ctx pid c) ((outline ok).goal pid c)
      s' s' := by
  have hs' := sound_accept hs h
  have hadmits := (accept_eq h).1
  obtain ⟨tasks, -, rfl⟩ := accept_still h
  have hcalled : Called pid c { s with stopTasks := tasks, calls := s.calls ++ [c] } := by
    show (s.calls ++ [c])[pid]? = some c
    rw [hlen]
    exact List.getElem?_concat_length
  have hfresh : Fresh C pid { s with stopTasks := tasks, calls := s.calls ++ [c] } :=
    ((hs.unborn pid (by omega)).of_private (private_accept h pid)).fresh
  cases c with
  | createSession u =>
    exact goal_of_serves serves_createSession hs' hcalled hfresh
  | renewSession sid u => exact goal_of_serves serves_renewSession hs' hcalled hfresh.1
  | uploadFile sid u file => exact goal_of_serves serves_uploadFile hs' hcalled hfresh.1
  | handleLSPConnect client sid =>
    exact goal_of_serves (serves_handleLSPConnect.mono (fun _ h => h) (fun _ _ h => ⟨h, trivial⟩)
      fun _ h => h) hs' hcalled ⟨hfresh.1, user?_of_online hadmits⟩
  | handleLSPMessage client message =>
    exact goal_of_serves (serves_handleLSPMessage.mono (fun _ h => h) (fun _ _ h => ⟨h, trivial⟩)
      fun _ h => h) hs' hcalled hfresh.1
  | scanAndCreateContainers =>
    exact goal_of_serves (serves_scanAndCreateContainers.mono (fun _ h => h)
      (fun _ _ h => ⟨h, trivial⟩) fun _ h => h) hs' hcalled hfresh.1
  | cleanupExpiredSessions turns =>
    exact goal_of_serves (serves_cleanupExpiredSessions.mono (fun _ h => h)
      (fun _ _ h => ⟨h, trivial⟩) fun _ h => h) hs' hcalled hfresh.1
  | onModuleDestroy =>
    exact goal_of_serves (serves_onModuleDestroy.mono (fun _ h => h)
      (fun _ _ h => ⟨h, trivial⟩) fun _ h => h) hs' hcalled hfresh.1
  | stopTask n sid =>
    exact goal_of_serves (serves_stopTask.mono (fun _ h => h)
      (fun _ _ h => ⟨h, trivial⟩) fun _ h => h) hs' hcalled
      ⟨hfresh.1, hs.tasks n sid (of_decide_eq_true hadmits)⟩

theorem undisturbed_of_private {σ : (services C).Sys} (ha : Advances s s')
    (hp : ∀ p, Private p s s') : (outline ok).Undisturbed σ.procs s s' := fun pid _ _ =>
  ⟨fun _ => ⟨ha, hp pid⟩, fun _ hx => ⟨(hp pid).inside.trans hx.1, hx.2.mono ha⟩⟩

/-- **The outline is coherent.** -/
theorem valid_outline : (outline ok).Valid where
  rely_refl := ⟨.refl, .refl⟩
  rely_trans h h' := ⟨h.1.trans h'.1, h.2.trans h'.2⟩
  cmdOk_of_ok {σ} _ _ _ _ _ ho hp := ⟨σ, rfl, Service.pending_of_await hp, ho.2⟩
  guar_inv hs h := sound_acts h hs
  guar_rely hne hs h := ⟨advances_acts h, private_acts hne hs h⟩
  change_refl := .refl
  change_trans h h' := h.trans h'
  guar_change _ h := advances_acts h
  guar_done hne hs h hx :=
    ⟨(private_acts hne hs h).inside.trans hx.1, hx.2.mono (advances_acts h)⟩
  accept {σ c s} h ho ha := by
    have hlen : σ.procs.length = σ.shared.calls.length := by
      rw [ho.1, List.length_map]
    have ha' : World.accept σ.procs.length c σ.shared = some s := ha
    exact ⟨sound_accept h.1 ha', advances_accept ha',
      undisturbed_of_private (advances_accept ha') (private_accept ha'), goal_of_accept h.1 hlen ha'⟩
  env h _ he := ⟨sound_env h.1 he, (aside_env he).advances,
    undisturbed_of_private (aside_env he).advances ((aside_env he).private h.1)⟩

/-! ### Runs -/

theorem sound_initial : Sound C World.initial where
  unborn _ _ := ⟨rfl, rfl, rfl, fun _ he => (by cases he), fun _ _ hk => (by cases hk)⟩
  records _ _ he := by cases he
  created _ hk := absurd hk (AList.notMem_empty _)
  containers _ _ hk := by cases hk
  alive _ _ _ _ hk := by cases hk
  map _ _ hm := absurd hm JsMap.not_has_empty
  tasks _ _ ht := by cases ht
  tasked _ _ _ hp := by cases hp
  gated := ⟨fun _ _ ht => (by cases ht), fun _ _ he => (by cases he), fun _ hw => (by cases hw)⟩

/-- The services start where the outline says. -/
theorem holds_start : (outline ok).Holds (start C) := Outline.holds_of_inv sound_initial

theorem reaches_outline {σ σ' : (services C).Sys} (hl : Linked σ)
    (h : Service.Reaches ok σ σ') : Linked σ' ∧ Service.Reaches (outline ok).ok σ σ' :=
  h.strengthen (fun _ _ _ => linked_step) hl

/-- **Run rule.**  What the outline says holds in every state that a run reaches. -/
theorem holds_of_reaches {σ : (services C).Sys} (h : Service.Reaches ok (start C) σ) :
    Linked σ ∧ (outline ok).Holds σ := by
  obtain ⟨hl, hr⟩ := reaches_outline linked_start h
  exact ⟨hl, Outline.holds_of_reaches valid_outline holds_start hr⟩

/-- One step of a run that meets the condition. -/
structure Stepped (ok : (services C).Sys → (services C).Event → Prop) (σ : (services C).Sys)
    (e : (services C).Event) (σ' : (services C).Sys) : Prop where
  linked : Linked σ
  before : (outline ok).Holds σ
  after : (outline ok).Holds σ'
  meets : ok σ e
  step : Service.step σ e = some σ'
  advances : Advances σ.shared σ'.shared
  moves : (outline ok).Moves σ e σ'.shared

/-- **Invariant rule for systems.** -/
theorem inv_of_reaches {J : (services C).Sys → Prop}
    (keep : ∀ {σ e σ'}, Stepped ok σ e σ' → J σ → J σ') {σ σ' : (services C).Sys} (hl : Linked σ)
    (hb : (outline ok).Holds σ) (hJ : J σ) (h : Service.Reaches ok σ σ') : J σ' :=
  Outline.inv_of_reaches valid_outline
    (fun hb hb' hJ ho hs ha hm => keep ⟨ho.1, hb, hb', ho.2, hs, ha, hm⟩ hJ) hb hJ
    (reaches_outline hl h).2

theorem stepped_of_reaches {σ σ' : (services C).Sys} {e : (services C).Event}
    (h : Service.Reaches ok (start C) σ) (ho : ok σ e) (hs : Service.step σ e = some σ') :
    Stepped ok σ e σ' := by
  obtain ⟨hl, hb⟩ := holds_of_reaches h
  obtain ⟨hafter, hadvances, hmoves⟩ := Outline.holds_step valid_outline hb ⟨hl, ho⟩ hs
  exact ⟨hl, hb, hafter, ho, hs, hadvances, hmoves⟩

/-- What every step keeps holds in every state that a run reaches. -/
theorem inv_of_start {J : (services C).Sys → Prop} (init : J (start C))
    (keep : ∀ {σ e σ'}, Stepped ok σ e σ' → J σ → J σ') {σ : (services C).Sys}
    (h : Service.Reaches ok (start C) σ) : J σ :=
  inv_of_reaches keep linked_start holds_start init h

/-- What a process needs for the call that it awaits. -/
theorem need_of_pending {σ : (services C).Sys} (h : (outline ok).Holds σ)
    (hp : σ.pending pid = some cmd) :
    ∃ c, σ.shared.calls[pid]? = some c ∧ Need C pid c cmd σ.shared := by
  obtain ⟨c, k, hk⟩ := Service.await_of_pending hp
  exact ⟨c, Outline.Holds.need valid_outline h hk⟩

/-! ### One step -/

/-- **What a step is**: one call has been made, or none, or time has passed. -/
inductive Turn (σ : (services C).Sys) (e : (services C).Event) (σ' : (services C).Sys) : Prop
  | call (pid : Nat) (r : Reply) (cmd : Cmd) (x : Except JsError (sig.Res cmd)) (s : World)
      (event : e = .resume pid r) (pending : σ.pending pid = some cmd)
      (eq : perform pid cmd r σ.shared = some (x, s)) (calm : Calm s σ'.shared)
  | calm (calm : Calm σ.shared σ'.shared) (event : ∀ pid r, e ≠ .resume pid r)
  | tick (ms : Nat) (event : e = .env (.tick ms))
      (eq : σ'.shared = { σ.shared with now := σ.shared.now + ms })

theorem calm_settle {α : Type} (p : Program α) (s : World) : Calm s (p.settle (host C) pid s).2 :=
  Prog.settle_inv (J := Calm s) (fun o _ h => h.trans (calm_compute o)) p s .refl

theorem step_cases {σ σ' : (services C).Sys} {e : (services C).Event}
    (h : Service.step σ e = some σ') : Turn σ e σ' := by
  cases e with
  | call c =>
    obtain ⟨s, ha, rfl⟩ := Service.step_call h
    have haccept : Calm σ.shared s := by
      obtain ⟨tasks, -, rfl⟩ := @accept_still _ _ 0 _ ha
      exact ⟨rfl, rfl, rfl, rfl, rfl, rfl, rfl, fun _ h => h⟩
    exact .calm (haccept.trans (calm_settle _ _)) fun _ _ he => by cases he
  | resume pid r =>
    obtain ⟨c, d, k, x, s, hget, hperf, rfl⟩ := Service.step_resume h
    exact .call pid r d x s rfl (Service.pending_of_await hget) hperf (calm_settle _ _)
  | env e =>
    obtain ⟨s, he, rfl⟩ := Service.step_env h
    have ha := aside_env he
    rcases tick_env he with hnow | ⟨ms, rfl, rfl⟩
    · exact .calm ⟨hnow, ha.redis, ha.directories, ha.files, ha.lastGet, ha.sighted, ha.log,
        fun n hn => stands_remaining ha.containers hn⟩ fun _ _ he => by cases he
    · exact .tick ms rfl rfl
  | kill pid =>
    obtain ⟨p, -, -, rfl⟩ := Service.step_kill h
    exact .calm .refl fun _ _ he => by cases he

variable {σ σ' : (services C).Sys} {e : (services C).Event}

/-- What a process knows of its own doings is kept by the steps of the others. -/
theorem Stepped.private (h : Stepped ok σ e σ') (hne : σ.mover e ≠ some pid) :
    Private pid σ.shared σ'.shared := by
  have hm := h.moves
  have hs := h.step
  cases e with
  | call c =>
    obtain ⟨s, ha, hg⟩ := hm
    have ha' : World.accept σ.procs.length c σ.shared = some s := ha
    exact (private_accept ha' pid).trans
      (private_acts (fun he => hne (congrArg some he)) (sound_accept h.before.1 ha') hg)
  | resume pid' r =>
    obtain ⟨p, -, hg⟩ := hm
    exact private_acts (fun he => hne (congrArg some he)) h.before.1 hg
  | env e =>
    obtain ⟨s, he, rfl⟩ := Service.step_env hs
    exact (aside_env he).private h.before.1 pid
  | kill pid' =>
    obtain ⟨p, -, -, rfl⟩ := Service.step_kill hs
    exact .refl

/-- The process of a call that comes in has done nothing before. -/
theorem Stepped.unborn (h : Stepped ok σ e σ') : Unborn σ.shared σ.procs.length := by
  refine h.before.1.unborn _ ?_
  rw [h.linked, List.length_map]

theorem workerBirth_compute (o : Op) : (compute C pid o s).2.workerBirth = s.workerBirth := by
  cases o with
  | write stream bytes => exact write_keeps World.workerBirth (fun _ => rfl) pid stream bytes
  | _ => rfl

/-- A process can only die with the worker. -/
theorem workerBirth_step (hs : Service.step σ e = some σ') :
    σ'.shared.workerBirth = σ.shared.workerBirth ∨
      e = .env .workerExit ∧ σ'.shared = σ.shared.workerExit := by
  cases e with
  | call c =>
    obtain ⟨s, ha, rfl⟩ := Service.step_call hs
    obtain ⟨tasks, -, rfl⟩ := @accept_still _ _ 0 _ ha
    exact Or.inl (Prog.settle_keeps (H := host C) (fun o _ => workerBirth_compute o) _ _)
  | resume pid r =>
    obtain ⟨c, d, k, x, s, -, hperf, rfl⟩ := Service.step_resume hs
    exact Or.inl ((Prog.settle_keeps (H := host C) (fun o _ => workerBirth_compute o) _ _).trans
      (still_perform hperf).workerBirth)
  | env e =>
    obtain ⟨s, he, rfl⟩ := Service.step_env hs
    rcases map_env he with ⟨-, -, hb⟩ | ⟨rfl, rfl⟩
    · exact Or.inl hb
    · exact Or.inr ⟨rfl, rfl⟩
  | kill pid =>
    obtain ⟨p, -, -, rfl⟩ := Service.step_kill hs
    exact Or.inl rfl

/-- The dead stay dead. -/
theorem dead_mono (hc : Extends (fun i : Nat => s.calls[i]?) (fun i => s'.calls[i]?))
    (hb : s'.workerBirth = s.workerBirth ∨ s'.workerBirth = s'.calls.length)
    (h : s.dead pid = true) : s'.dead pid = true := by
  obtain ⟨hw, hlt⟩ := (Bool.and_eq_true_iff).mp h
  cases hp : s.calls[pid]? with
  | none =>
    rw [World.ofWorker, hp] at hw
    cases hw
  | some c =>
    have hp' : s'.calls[pid]? = some c := hc pid c hp
    have hlt' : pid < s'.calls.length := (List.getElem?_eq_some_iff.mp hp').1
    refine (Bool.and_eq_true_iff).mpr ⟨?_, decide_eq_true ?_⟩
    · rw [World.ofWorker, hp']
      rwa [World.ofWorker, hp] at hw
    · rcases hb with hb | hb
      · rw [hb]
        exact of_decide_eq_true hlt
      · omega

theorem Stepped.undead (h : Stepped ok σ e σ') (hd : σ'.shared.dead pid = false) :
    σ.shared.dead pid = false := by
  by_contra hdead
  refine Bool.false_ne_true
    (hd.symm.trans (dead_mono h.advances.calls ?_ ((Bool.not_eq_false _).mp hdead)))
  rcases workerBirth_step h.step with hb | ⟨-, hb⟩
  · exact Or.inl hb
  · rw [hb]
    exact Or.inr rfl

/-- The processes of an earlier worker are among those that have been started. -/
theorem Stepped.born (h : Stepped ok σ e σ')
    (hb : σ.shared.workerBirth ≤ σ.shared.calls.length) :
    σ'.shared.workerBirth ≤ σ'.shared.calls.length := by
  rcases workerBirth_step h.step with he | ⟨-, he⟩
  · rw [he]
    exact hb.trans h.advances.calls_length
  · rw [he]
    exact Nat.le_refl _

theorem Act.calls (h : Act C may pid c s s') : s'.calls = s.calls := by
  cases h with
  | perform cmd r x s' called need allowed eq => exact (still_perform eq).calls
  | compute o called need => exact calls_compute o

theorem Act.workerBirth (h : Act C may pid c s s') : s'.workerBirth = s.workerBirth := by
  cases h with
  | perform cmd r x s' called need allowed eq => exact (still_perform eq).workerBirth
  | compute o called need => exact workerBirth_compute o

theorem Act.dead (h : Act C may pid c s s') (p : Nat) : s'.dead p = s.dead p := by
  rw [World.dead, World.dead, World.ofWorker, World.ofWorker, h.calls, h.workerBirth]

/-- **Invariant rule for the shared state**: what every act of a process that has not
died, every request and every event from outside keep. -/
theorem shared_of_reaches {J : World → Prop} (init : J World.initial)
    (act : ∀ {pid c s s'}, Sound C s → J s → s.dead pid = false → Act C (allowed ok) pid c s s' → J s')
    (accept : ∀ {σ : (services C).Sys} {c s}, Sound C σ.shared → J σ.shared → ok σ (.call c) →
      World.accept σ.procs.length c σ.shared = some s → J s)
    (env : ∀ {σ : (services C).Sys} {e s}, Sound C σ.shared → J σ.shared → ok σ (.env e) →
      World.env C e σ.shared = some s → J s)
    {σ : (services C).Sys} (h : Service.Reaches ok (start C) σ) : J σ.shared := by
  have hacts : ∀ {pid c s s'}, Sound C s → J s → s.dead pid = false →
      Relation.ReflTransGen (Act C (allowed ok) pid c) s s' → J s' := by
    intro pid c s s' hs hJ hd hg
    have hboth : J s' ∧ s'.dead pid = false := by
      induction hg with
      | refl => exact ⟨hJ, hd⟩
      | tail hacts ha ih => exact ⟨act (sound_acts hacts hs) ih.1 ih.2 ha, (ha.dead pid).trans ih.2⟩
    exact hboth.1
  refine (inv_of_start (J := fun σ => J σ.shared ∧ σ.shared.workerBirth ≤ σ.shared.calls.length)
    ⟨init, Nat.le_refl _⟩ (fun {σ e σ'} hs hJ => ⟨?_, hs.born hJ.2⟩) h).1
  have hm := hs.moves
  cases e with
  | call c =>
    obtain ⟨s, ha, hg⟩ := hm
    have ha' : World.accept σ.procs.length c σ.shared = some s := ha
    refine hacts (sound_accept hs.before.1 ha') (accept hs.before.1 hJ.1 hs.meets ha') ?_ hg
    obtain ⟨tasks, -, rfl⟩ := accept_still ha'
    have hlen : σ.procs.length = σ.shared.calls.length := by rw [hs.linked, List.length_map]
    have hlt : ¬ σ.procs.length < σ.shared.workerBirth := by
      have := hJ.2
      omega
    exact (Bool.and_eq_false_iff).mpr (Or.inr (decide_eq_false hlt))
  | resume pid r =>
    obtain ⟨p, -, hg⟩ := hm
    obtain ⟨c, d, k, x, s, -, hperf, -⟩ := Service.step_resume hs.step
    exact hacts hs.before.1 hJ.1 (not_dead_of_perform hperf) hg
  | env e =>
    have hstep := hs.step
    obtain ⟨s, he, rfl⟩ := Service.step_env hstep
    exact env hs.before.1 hJ.1 hs.meets he
  | kill pid =>
    have hstep := hs.step
    obtain ⟨p, -, -, rfl⟩ := Service.step_kill hstep
    exact hJ.1

/-- No process but the one that moves awaits anything. -/
def Alone (σ : (services C).Sys) (e : (services C).Event) : Prop :=
  ∀ pid < σ.procs.length, σ.mover e ≠ some pid → σ.pending pid = none

instance (σ : (services C).Sys) (e : (services C).Event) : Decidable (Alone σ e) :=
  inferInstanceAs (Decidable (∀ pid < σ.procs.length, _ → _))

theorem Alone.pending (h : Alone σ e) (hne : σ.mover e ≠ some pid) : σ.pending pid = none := by
  by_cases hlt : pid < σ.procs.length
  · exact h pid hlt hne
  · rw [Service.Sys.pending, List.getElem?_eq_none (Nat.le_of_not_lt hlt)]

/-- A step that moves a call is made of acts of its process, after it has come in. -/
theorem Stepped.acts (h : Stepped ok σ e σ') (hc : σ.caller e = some c) :
    ∃ pid s, (s = σ.shared ∨ World.accept pid c σ.shared = some s) ∧
      Relation.ReflTransGen (Act C (allowed ok) pid c) s σ'.shared := by
  have hm := h.moves
  cases e with
  | call c' =>
    obtain rfl := Option.some.inj hc
    obtain ⟨s, ha, hg⟩ := hm
    exact ⟨σ.procs.length, s, Or.inr ha, hg⟩
  | resume pid r =>
    obtain ⟨p, hp, hg⟩ := hm
    have hcall : (σ.procs[pid]?).map Service.Proc.call = some c := hc
    rw [hp] at hcall
    obtain rfl := Option.some.inj hcall
    exact ⟨pid, σ.shared, Or.inl rfl, hg⟩
  | env e => cases hc
  | kill pid => cases hc

end FullstackSvc.LanguageServer
