import FullstackSvc.Async.Triple
import FullstackSvc.LanguageServer.Evolution

/-!
# Whose session is whose

A session belongs to the user whose `createSession` drew its id (`Owner`).  The
record of a session, every socket and every entry of the registry then carry
its owner, and a container that they name, or that the map of the worker or a
stop task names, was created for the session and put into the map by its
creator (`Tracked`).  `Sound` is this invariant, with what it needs of the
containers and of the processes that do not exist yet.

`Need` and `NeedOp` are what a process has to know when one of its commands is
performed or one of its operations is done; `Act` is a step of a process whose
need is met.  What a process knows of its own doings is kept by the acts of the
others (`Private`).

* `owner_unique`: a session has one owner.
* `private_act`: **what a process knows of its own doings is its own**.
* `sound_act`: **an act keeps the invariant**.
-/

namespace FullstackSvc.LanguageServer

open Text Async FullstackSvc.Lsp FullstackSvc.Store

variable {N : Type} {C : Config N} {s s' s'' : World} {pid : Nat} {c : Request} {cmd : Cmd}
  {r : Reply} {x : Except JsError (sig.Res cmd)} {sessionId userId : JsString} {n : Nat}

/-! ### Owners -/

/-- The session was created by this user. -/
def Owner (C : Config N) (s : World) (sessionId userId : JsString) : Prop :=
  ∃ pid, C.ulid.Drew s.drawnBy pid sessionId ∧ s.calls[pid]? = some (.createSession userId)

/-- **A session has one owner.** -/
theorem owner_unique {userId' : JsString} (h : Owner C s sessionId userId)
    (h' : Owner C s sessionId userId') : userId = userId' := by
  obtain ⟨pid, hd, hc⟩ := h
  obtain ⟨pid', hd', hc'⟩ := h'
  obtain rfl := hd.unique hd'
  rw [hc] at hc'
  exact Request.createSession.inj (Option.some.inj hc')

theorem drew_mono (h : C.ulid.Drew s.drawnBy pid sessionId) (ha : Advances s s') :
    C.ulid.Drew s'.drawnBy pid sessionId := by
  obtain ⟨n, hn, he⟩ := h
  exact ⟨n, ha.drawn _ _ hn, he⟩

theorem Owner.mono (h : Owner C s sessionId userId) (ha : Advances s s') :
    Owner C s' sessionId userId := by
  obtain ⟨pid, hd, hc⟩ := h
  exact ⟨pid, drew_mono hd ha, ha.calls _ _ hc⟩

theorem sessionKey_inj {sessionId' : JsString} (h : sessionKey sessionId = sessionKey sessionId') :
    sessionId = sessionId' := List.append_cancel_left h

theorem Config.basePath_ne_nil (C : Config N) : C.basePath ≠ [] := by
  rw [basePath]
  split
  · decide
  · split
    · decide
    · assumption

/-- An id is a plain name. -/
theorem plainName_of_drew {drawnBy : List Nat} (h : C.ulid.Drew drawnBy pid sessionId) :
    PlainName sessionId := by
  obtain ⟨n, -, rfl⟩ := h
  have hmem : ∀ u ∉ js "0123456789ABCDEFGHJKMNPQRSTVWXYZ", u ∉ C.ulid.text n := fun u hu =>
    (C.ulid.ulidText n).not_mem hu
  refine ⟨C.ulid.ne_nil n, hmem 47 (by decide), fun he => ?_, fun he => ?_⟩
  · exact hmem 46 (by decide) (by rw [he]; exact List.mem_cons_self)
  · exact hmem 46 (by decide) (by rw [he]; exact List.mem_cons_self)

theorem containerNameOf_inj {sessionId' : JsString}
    (h : containerNameOf sessionId = containerNameOf sessionId') : sessionId = sessionId' :=
  List.append_cancel_left h

/-! ### Facts that stay -/

/-- The session has had a record. -/
def Known (s : World) (sessionId : JsString) : Prop := sessionKey sessionId ∈ s.redis

theorem Known.mono (h : Known s sessionId) (ha : Advances s s') : Known s' sessionId :=
  ha.known _ h

/-- The container was created for the session and put into the map. -/
def Tracked (s : World) (sessionId : JsString) (n : Nat) : Prop :=
  ∃ k, s.containers[n]? = some k ∧ k.name = containerNameOf sessionId ∧ k.registered = true

theorem Tracked.mono (h : Tracked s sessionId n) (ha : Advances s s') : Tracked s' sessionId n := by
  obtain ⟨k, hk, hname, hreg⟩ := h
  obtain ⟨k', hk', hf⟩ := ha.containers n k hk
  exact ⟨k', hk', hf.name.trans hname, hf.registered hreg⟩

/-- The process has made the call, and it ended in this way. -/
def Logged (s : World) (pid : Nat) (cmd : Cmd) (out : Outcome) : Prop :=
  ∃ e ∈ s.log, e.pid = pid ∧ e.cmd = cmd ∧ e.outcome = out

theorem Logged.mono {out : Outcome} (h : Logged s pid cmd out) (ha : Advances s s') :
    Logged s' pid cmd out := by
  obtain ⟨e, he, hx⟩ := h
  exact ⟨e, ha.log e he, hx⟩

theorem logged_perform (h : perform pid cmd r s = some (x, s')) :
    Logged s' pid cmd (outcome cmd x) := by
  refine ⟨⟨pid, cmd, outcome cmd x, s.now, s.inside pid⟩, ?_, rfl, rfl, rfl⟩
  rw [log_perform h]
  exact List.mem_append_right _ (List.mem_singleton_self _)

/-! ### The invariant -/

/-- What a record says is true of its session. -/
structure GoodRecord (C : Config N) (s : World) (sessionId : JsString) (d : SessionData) : Prop where
  owner : Owner C s sessionId d.userId
  container : ∀ n, d.containerId = some n → Tracked s sessionId n
  root : d.workspaceRoot = some (sessionRoot sessionId)

theorem GoodRecord.mono {d : SessionData} (h : GoodRecord C s sessionId d) (ha : Advances s s') :
    GoodRecord C s' sessionId d :=
  ⟨h.owner.mono ha, fun n hn => (h.container n hn).mono ha, h.root⟩

/-- What a socket closes over is true of its session and its client. -/
structure GoodSocket (C : Config N) (s : World) (t : TcpSocket) : Prop where
  owner : Owner C s t.sessionId t.userId
  user : s.user? t.client = some t.userId
  container : Tracked s t.sessionId t.container
  root : t.workspaceRoot = sessionRoot t.sessionId

theorem GoodSocket.mono {t : TcpSocket} (h : GoodSocket C s t) (ha : Advances s s') :
    GoodSocket C s' t :=
  ⟨h.owner.mono ha, ha.users _ _ h.user, h.container.mono ha, h.root⟩

/-- A container that its creator has not put into the map is the creator's, and
nobody else has stopped it. -/
structure GoodContainer (s : World) (k : Container) : Prop where
  named : ∃ sessionId, k.name = containerNameOf sessionId ∧ Known s sessionId
  begun : k.registered = true → k.phase ≠ .created
  own : k.registered = false → k.phase.Standing
  stopper : k.stopper = none ↔ k.phase.Standing

theorem GoodContainer.mono {k : Container} (h : GoodContainer s k) (ha : Advances s s') :
    GoodContainer s' k := by
  obtain ⟨sid, hn, hk⟩ := h.named
  exact ⟨⟨sid, hn, hk.mono ha⟩, h.begun, h.own, h.stopper⟩

/-- A process that does not exist has done nothing. -/
structure Unborn (s : World) (p : Nat) : Prop where
  lastGet : s.lastGet p = none
  sighted : s.sighted p = none
  inside : s.inside p = none
  log : ∀ e ∈ s.log, e.pid ≠ p
  containers : ∀ (n : Nat) k, s.containers[n]? = some k → k.creator ≠ p ∧ k.stopper ≠ some p

/-- The sockets and the registry of the gateway say what is true, and what was
written to a socket came from its client. -/
structure Gated (C : Config N) (s : World) : Prop where
  sockets : ∀ n t, s.socket? n = some t → GoodSocket C s t
  entries : ∀ client e, s.clientSessions client = some e →
    ∃ t, s.socket? e.stream = some t ∧ t.client = client ∧ e = t.entry e.stream
  writes : ∀ w ∈ s.writes, ∃ t message, s.socket? w.stream = some t ∧
    s.calls[w.pid]? = some (.handleLSPMessage t.client message)

theorem Gated.of_eq (h : Gated C s) (ha : Advances s s')
    (hsockets : ∀ n t, s'.socket? n = some t → s.socket? n = some t)
    (hentries : ∀ client e, s'.clientSessions client = some e → s.clientSessions client = some e)
    (hwrites : s'.writes = s.writes) : Gated C s' := by
  refine ⟨fun n t ht => (h.sockets n t (hsockets n t ht)).mono ha, fun client e he => ?_,
    fun w hw => ?_⟩
  · obtain ⟨t, ht, hx⟩ := h.entries client e (hentries client e he)
    exact ⟨t, ha.sockets _ _ ht, hx⟩
  · obtain ⟨t, message, ht, hx⟩ := h.writes w (hwrites ▸ hw)
    exact ⟨t, message, ha.sockets _ _ ht, ha.calls _ _ hx⟩

/-- **The invariant.** -/
structure Sound (C : Config N) (s : World) : Prop where
  unborn : ∀ p, s.calls.length ≤ p → Unborn s p
  records : ∀ key e, s.redis.lookup key = some e →
    ∃ sessionId, key = sessionKey sessionId ∧ GoodRecord C s sessionId e.value
  created : ∀ sessionId, Known s sessionId →
    ∃ p, C.ulid.Drew s.drawnBy p sessionId ∧ ∃ e ∈ s.log, e.pid = p
  containers : ∀ (n : Nat) k, s.containers[n]? = some k → GoodContainer s k
  alive : ∀ (n n' : Nat) k k', s.containers[n]? = some k → s.containers[n']? = some k' → k.name = k'.name →
    k.phase ≠ .removed → k'.phase ≠ .removed → n = n'
  map : ∀ sessionId n, s.containerMap.Has sessionId n → Tracked s sessionId n
  tasks : ∀ n sessionId, (n, sessionId) ∈ s.stopTasks → Tracked s sessionId n
  tasked : ∀ (p : Nat) n sessionId, s.calls[p]? = some (.stopTask n sessionId) → Tracked s sessionId n
  gated : Gated C s

/-- The record of a session is a good one. -/
theorem Sound.record (h : Sound C s) {e : RedisEntry}
    (he : s.record? (sessionKey sessionId) = some e) : GoodRecord C s sessionId e.value := by
  obtain ⟨sid, hk, hr⟩ := h.records _ e (Option.filter_eq_some_iff.mp he).1
  exact sessionKey_inj hk ▸ hr

theorem known_of_record {e : RedisEntry} (he : s.record? (sessionKey sessionId) = some e) :
    Known s sessionId :=
  AList.lookup_isSome.mp (by rw [(Option.filter_eq_some_iff.mp he).1]; rfl)

theorem Sound.plainName (h : Sound C s) (hk : Known s sessionId) : PlainName sessionId := by
  obtain ⟨p, hd, -⟩ := h.created sessionId hk
  exact plainName_of_drew hd

theorem Sound.known_of_tracked (h : Sound C s) (ht : Tracked s sessionId n) : Known s sessionId := by
  obtain ⟨k, hk, hname, -⟩ := ht
  obtain ⟨sid, hn, hknown⟩ := (h.containers n k hk).named
  exact containerNameOf_inj (hn.symm.trans hname) ▸ hknown

/-- A container that remains is as good as it was. -/
theorem GoodContainer.of_remains {k k' : Container} (h : GoodContainer s k) (ha : Advances s s')
    (hr : k.Remains k') : GoodContainer s' k' := by
  obtain ⟨sid, hn, hk⟩ := h.named
  refine ⟨⟨sid, hr.follows.name.trans hn, hk.mono ha⟩, fun hreg => ?_, fun hreg => ?_, ?_⟩
  · exact fun hc => h.begun (hr.registered.symm.trans hreg) (hr.created.mp hc)
  · exact hr.standing.mpr (h.own (hr.registered.symm.trans hreg))
  · rw [hr.stopper, hr.standing]
    exact h.stopper

/-- A step that leaves records and requests alone, and containers but for their
exit. -/
theorem Sound.of_eq (h : Sound C s) (ha : Advances s s')
    (hu : ∀ p, s'.calls.length ≤ p → Unborn s' p) (hredis : s'.redis = s.redis)
    (hcontainers : Remaining s.containers s'.containers)
    (htasked : ∀ (p : Nat) n sid, s'.calls[p]? = some (.stopTask n sid) → Tracked s sid n)
    (hmap : ∀ sid n, s'.containerMap.Has sid n → Tracked s sid n)
    (htasks : ∀ n sid, (n, sid) ∈ s'.stopTasks → Tracked s sid n) (hg : Gated C s') : Sound C s' := by
  refine ⟨hu, fun key e he => ?_, fun sid hk => ?_, fun n k hk => ?_, ?_,
    fun sid n hm => (hmap sid n hm).mono ha, fun n sid ht => (htasks n sid ht).mono ha,
    fun p n sid hp => (htasked p n sid hp).mono ha, hg⟩
  · obtain ⟨sid, rfl, hr⟩ := h.records key e (hredis ▸ he)
    exact ⟨sid, rfl, hr.mono ha⟩
  · have hk' : Known s sid := by rwa [Known, hredis] at hk
    obtain ⟨p, hd, e, he, hp⟩ := h.created sid hk'
    exact ⟨p, drew_mono hd ha, e, ha.log e he, hp⟩
  · obtain ⟨k₀, hk₀, hr⟩ := hcontainers.back n k hk
    exact (h.containers n k₀ hk₀).of_remains ha hr
  · intro n m k k' hk hk' hname hne hne'
    obtain ⟨k₀, hk₀, hr⟩ := hcontainers.back n k hk
    obtain ⟨k₁, hk₁, hr'⟩ := hcontainers.back m k' hk'
    exact h.alive n m k₀ k₁ hk₀ hk₁ (hr.follows.name.symm.trans (hname.trans hr'.follows.name))
      (fun he => hne (hr.removed.mpr he)) fun he => hne' (hr'.removed.mpr he)

/-! ### What a process has to know -/

/-- A call that names a session is one of its owner. -/
def Permitted (C : Config N) (c : Request) (s : World) : Prop :=
  match c with
  | .renewSession sessionId userId => Owner C s sessionId userId
  | .uploadFile sessionId userId _ => Owner C s sessionId userId
  | .handleLSPConnect client sessionId =>
    ∃ userId, s.user? client = some userId ∧ Owner C s sessionId userId
  | _ => True

theorem Permitted.mono (h : Permitted C c s) (ha : Advances s s') : Permitted C c s' := by
  cases c with
  | renewSession sid u => exact Owner.mono h ha
  | uploadFile sid u file => exact Owner.mono h ha
  | handleLSPConnect client sid =>
    obtain ⟨u, hu, ho⟩ := h
    exact ⟨u, ha.users _ _ hu, ho.mono ha⟩
  | _ => exact trivial

/-- The fields that only `startContainer` changes. -/
def containerFields (d : SessionData) : Option Nat × Option JsString × Option JsString :=
  (d.containerId, d.containerName, d.workspaceRoot)

/-- The process writes the first record of its new session. -/
structure Creates (C : Config N) (pid : Nat) (c : Request) (sessionId : JsString) (seconds : Nat)
    (d : SessionData) (s : World) : Prop where
  call : c = .createSession d.userId
  drew : C.ulid.Drew s.drawnBy pid sessionId
  first : ∀ e ∈ s.log, e.pid ≠ pid
  seconds : seconds = sessionTtl

/-- `startContainer` puts its container into the record. -/
def Publishes (pid : Nat) (sessionId : JsString) (d : SessionData) (s : World) : Prop :=
  s.inside pid = some (.start sessionId) ∧ d.containerName = some (containerNameOf sessionId) ∧
    ∃ n, d.containerId = some n ∧ ∃ k, s.containers[n]? = some k ∧ k.creator = pid

/-- The process writes what it read of the session, with its own changes, for the
time that it saw left or for a new one. -/
def Revises (pid : Nat) (sessionId : JsString) (seconds : Nat) (d : SessionData) (s : World) : Prop :=
  ∃ f d₀, s.sighted pid = some f ∧ f.key = sessionKey sessionId ∧
    s.lastGet pid = some (sessionKey sessionId, d₀) ∧
    (seconds = sessionTtl ∨ 0 < seconds ∧ seconds = f.seconds) ∧
    (∀ file ∈ d₀.uploadedFiles.getD [], file ∈ d.uploadedFiles.getD []) ∧
    (containerFields d = containerFields d₀ ∨ Publishes pid sessionId d s)

/-- Why a container is stopped. -/
def Doomed (c : Request) (pid : Nat) (sessionId : JsString) (n : Nat) (s : World) : Prop :=
  match c with
  | .cleanupExpiredSessions _ => Logged s pid (.redisExists (sessionKey sessionId)) .missed
  | .stopTask n' sessionId' => n' = n ∧ sessionId' = sessionId
  | _ => False

theorem Doomed.mono (h : Doomed c pid sessionId n s) (ha : Advances s s') :
    Doomed c pid sessionId n s' := by
  cases c with
  | cleanupExpiredSessions turns => exact Logged.mono h ha
  | stopTask n' sid' => exact h
  | _ => exact h.elim

theorem Doomed.permitted (h : Doomed c pid sessionId n s) : Permitted C c s' := by
  cases c with
  | cleanupExpiredSessions turns => exact trivial
  | stopTask n' sid' => exact trivial
  | _ => exact h.elim

/-- The process is in `stopContainer`. -/
structure Stopping (c : Request) (pid : Nat) (sessionId : JsString) (n : Nat) (s : World) : Prop where
  inside : s.inside pid = some (.stop sessionId)
  tracked : Tracked s sessionId n
  doomed : Doomed c pid sessionId n s

/-- A container that this process has stopped is in this phase. -/
def StoppedBy (pid n : Nat) (phase : ContainerPhase) (s : World) : Prop :=
  ∃ k, s.containers[n]? = some k ∧ k.stopper = some pid ∧ k.phase = phase

/-- A container that this process has created and neither started nor put into the
map. -/
def CreatedBy (pid n : Nat) (sessionId : JsString) (s : World) : Prop :=
  ∃ k, s.containers[n]? = some k ∧ k.name = containerNameOf sessionId ∧ k.creator = pid ∧
    k.registered = false ∧ k.phase = .created

/-- A container that this process has started and not put into the map. -/
def StartedBy (pid n : Nat) (sessionId : JsString) (s : World) : Prop :=
  ∃ k, s.containers[n]? = some k ∧ k.name = containerNameOf sessionId ∧ k.creator = pid ∧
    k.registered = false ∧ k.phase ≠ .created

/-- What has to be known when a command is performed. -/
def Need (C : Config N) (pid : Nat) (c : Request) (cmd : Cmd) (s : World) : Prop :=
  match cmd with
  | .redisSetex key seconds d => ∃ sessionId, key = sessionKey sessionId ∧ Permitted C c s ∧
      GoodRecord C s sessionId d ∧
      (Creates C pid c sessionId seconds d s ∨ Revises pid sessionId seconds d s ∧ Known s sessionId)
  | .redisExpire key seconds => Permitted C c s ∧ seconds = sessionTtl ∧
      ∃ f, s.sighted pid = some f ∧ f.key = key
  | .redisTtl key => ∃ sessionId, key = sessionKey sessionId ∧ Known s sessionId
  | .redisExists key => ∃ sessionId, key = sessionKey sessionId ∧ Known s sessionId
  | .mkdir path => Permitted C c s ∧ ∃ sessionId, path = join C.basePath sessionId ∧ Known s sessionId
  | .openFile _ => Permitted C c s
  | .writeBytes _ _ => Permitted C c s
  | .createContainer name => ∃ sessionId, name = containerNameOf sessionId ∧ Known s sessionId ∧
      s.inside pid = some (.start sessionId)
  | .startContainer n => ∃ sessionId, CreatedBy pid n sessionId s ∧
      s.inside pid = some (.start sessionId)
  | .stopContainer n => ∃ sessionId, Stopping c pid sessionId n s
  | .removeContainer n => ∃ sessionId, Stopping c pid sessionId n s ∧ StoppedBy pid n .stopped s
  | .rm path => ∃ sessionId n, path = join C.basePath sessionId ∧ Stopping c pid sessionId n s ∧
      StoppedBy pid n .removed s
  | _ => True

/-- A container that the process has stopped is gone, with its directory, or
Docker or the file system has failed. -/
def Cleared (C : Config N) (pid : Nat) (sessionId : JsString) (n : Nat) (k : Container) (s : World) :
    Prop :=
  (k.phase = .removed ∧ ∃ out, Logged s pid (.rm (join C.basePath sessionId)) out) ∨
    Logged s pid (.removeContainer n) .failed

/-- What the process has stopped it has cleared. -/
def StopTidy (C : Config N) (pid : Nat) (s : World) : Prop :=
  ∀ (n : Nat) k sessionId, s.containers[n]? = some k → k.stopper = some pid →
    k.name = containerNameOf sessionId → Cleared C pid sessionId n k s

/-- The calls of `startContainer` on the record. -/
def Cmd.OnRecord (cmd : Cmd) (sessionId : JsString) : Prop :=
  cmd = .redisGet (sessionKey sessionId) ∨ cmd = .redisTtl (sessionKey sessionId) ∨
    ∃ seconds d, cmd = .redisSetex (sessionKey sessionId) seconds d

/-- `startContainer` has put its container into the record, or has not found the
record, or Redis has failed. -/
def Published (pid : Nat) (sessionId : JsString) (n : Nat) (s : World) : Prop :=
  (∃ seconds d, d.containerId = some n ∧
    Logged s pid (.redisSetex (sessionKey sessionId) seconds d) .done) ∨
  ∃ e ∈ s.log, e.pid = pid ∧ e.part = some (.start sessionId) ∧ e.cmd.OnRecord sessionId ∧
    e.outcome ≠ .done

/-- What has become of a container that the process has created. -/
def Settled (pid : Nat) (sessionId : JsString) (n : Nat) (k : Container) (s : World) : Prop :=
  (k.registered = true ∧ Published pid sessionId n s) ∨
    k.registered = false ∧ Logged s pid (.startContainer n) .failed

def StartTidy (pid : Nat) (s : World) : Prop :=
  ∀ (n : Nat) k sessionId, s.containers[n]? = some k → k.creator = pid →
    k.name = containerNameOf sessionId → Settled pid sessionId n k s

/-- The call of `stopContainer` for an entry of the map is over. -/
def Emptied (C : Config N) (pid : Nat) (sessionId : JsString) (s : World) : Prop :=
  ∃ (n : Nat) (k : Container), s.containers[n]? = some k ∧ k.name = containerNameOf sessionId ∧
    k.registered = true ∧
    (k.stopper = some pid ∧ Cleared C pid sessionId n k s ∨ Logged s pid (.stopContainer n) .failed)

/-- What has to be known when an operation is done; `may` is what the schedule
allows. -/
def NeedOp (C : Config N) (may : Nat → Cmd → Reply → World → Prop) (pid : Nat) (c : Request) (o : Op)
    (s : World) : Prop :=
  match o with
  | .connect client sessionId userId workspaceRoot container =>
    Permitted C c s ∧ GoodSocket C s (newSocket client sessionId userId workspaceRoot container)
  | .write stream _ => ∃ t message, s.socket? stream = some t ∧
      s.calls[pid]? = some (.handleLSPMessage t.client message)
  | .containerMapSet sessionId n =>
    (StartedBy pid n sessionId s ∧ s.inside pid = some (.start sessionId)) ∨
    Tracked s sessionId n ∧ ∃ e, s.record? (sessionKey sessionId) = some e ∧
      e.value.containerId = some n
  | .containerMapDelete sessionId => (∃ turns, c = .cleanupExpiredSessions turns) ∧
      Logged s pid (.redisExists (sessionKey sessionId)) .missed ∧ Emptied C pid sessionId s
  | .containerMapClear => c = .onModuleDestroy ∧ ∃ s₀ r x, may pid .joinStops r s₀ ∧
      LanguageServer.perform pid .joinStops r s₀ = some (x, s)
  | .spawnStops => c = .onModuleDestroy
  | .enter part => s.inside pid = none ∧ ∀ sessionId, part = .start sessionId → Known s sessionId
  | .leave => StartTidy pid s ∧ StopTidy C pid s
  | _ => True

/-- A step of a process whose need is met; `may` is what the schedule allows. -/
inductive Act (C : Config N) (may : Nat → Cmd → Reply → World → Prop) (pid : Nat) (c : Request)
    (s : World) : World → Prop
  | perform (cmd : Cmd) (r : Reply) (x : Except JsError (sig.Res cmd)) (s' : World)
      (called : s.calls[pid]? = some c) (need : Need C pid c cmd s) (allowed : may pid cmd r s)
      (eq : LanguageServer.perform pid cmd r s = some (x, s')) : Act C may pid c s s'
  | compute (o : Op) (called : s.calls[pid]? = some c) (need : NeedOp C may pid c o s) :
      Act C may pid c s (LanguageServer.compute C pid o s).2

variable {may : Nat → Cmd → Reply → World → Prop}

theorem Act.called (h : Act C may pid c s s') : s.calls[pid]? = some c := by
  cases h with
  | perform cmd r x s' called need allowed eq => exact called
  | compute o called need => exact called

theorem Act.advances (h : Act C may pid c s s') : Advances s s' := by
  cases h with
  | perform cmd r x s' called need allowed eq => exact advances_perform eq
  | compute o called need => exact advances_compute o

/-! ### What is a process's own -/

/-- What a process has read, where it is, what it has logged, created and stopped
is the same, but that a container may have exited. -/
structure Private (p : Nat) (s s' : World) : Prop where
  lastGet : s'.lastGet p = s.lastGet p
  sighted : s'.sighted p = s.sighted p
  inside : s'.inside p = s.inside p
  log : ∀ e ∈ s'.log, e.pid = p → e ∈ s.log
  made : ∀ (n : Nat) k', s'.containers[n]? = some k' → k'.creator = p → ∃ k,
    s.containers[n]? = some k ∧ k.creator = p ∧ k'.registered = k.registered ∧
      (k.registered = false → (k.phase = .created ↔ k'.phase = .created))
  stopped : ∀ (n : Nat) k', s'.containers[n]? = some k' → k'.stopper = some p → ∃ k,
    s.containers[n]? = some k ∧ k.stopper = some p ∧ k'.phase = k.phase

theorem Private.refl {p : Nat} : Private p s s :=
  ⟨rfl, rfl, rfl, fun _ h _ => h, fun _ k hk hp => ⟨k, hk, hp, rfl, fun _ => Iff.rfl⟩,
    fun _ k hk hp => ⟨k, hk, hp, rfl⟩⟩

theorem Private.trans {p : Nat} (h : Private p s s') (h' : Private p s' s'') : Private p s s'' := by
  refine ⟨h'.lastGet.trans h.lastGet, h'.sighted.trans h.sighted, h'.inside.trans h.inside,
    fun e he hp => h.log e (h'.log e he hp) hp, fun n k'' hk hp => ?_, fun n k'' hk hp => ?_⟩
  · obtain ⟨k', hk', hp', hreg', hphase'⟩ := h'.made n k'' hk hp
    obtain ⟨k, hk, hp, hreg, hphase⟩ := h.made n k' hk' hp'
    exact ⟨k, hk, hp, hreg'.trans hreg, fun hf => (hphase hf).trans (hphase' (hreg.trans hf))⟩
  · obtain ⟨k', hk', hp', hphase'⟩ := h'.stopped n k'' hk hp
    obtain ⟨k, hk, hp, hphase⟩ := h.stopped n k' hk' hp'
    exact ⟨k, hk, hp, hphase'.trans hphase⟩

/-- The containers are as they were. -/
theorem Private.of_containers {p : Nat} (hg : s'.lastGet p = s.lastGet p)
    (hs : s'.sighted p = s.sighted p) (hi : s'.inside p = s.inside p)
    (hl : ∀ e ∈ s'.log, e.pid = p → e ∈ s.log) (hc : s'.containers = s.containers) :
    Private p s s' :=
  ⟨hg, hs, hi, hl, fun _ k hk hp => ⟨k, hc ▸ hk, hp, rfl, fun _ => Iff.rfl⟩,
    fun _ k hk hp => ⟨k, hc ▸ hk, hp, rfl⟩⟩

/-- A change of one container that keeps what is another process's. -/
theorem private_modify {p : Nat} {f : Container → Container}
    (hc : s'.containers = s.containers.modify n f)
    (hg : s'.lastGet p = s.lastGet p) (hs : s'.sighted p = s.sighted p)
    (hi : s'.inside p = s.inside p) (hl : ∀ e ∈ s'.log, e.pid = p → e ∈ s.log)
    (hmade : ∀ k, s.containers[n]? = some k → (f k).creator = p → k.creator = p ∧
      (f k).registered = k.registered ∧
        (k.registered = false → (k.phase = .created ↔ (f k).phase = .created)))
    (hstopped : ∀ k, s.containers[n]? = some k → (f k).stopper = some p →
      k.stopper = some p ∧ (f k).phase = k.phase) : Private p s s' := by
  refine ⟨hg, hs, hi, hl, fun m k' hk' hp => ?_, fun m k' hk' hp => ?_⟩
  · rw [hc] at hk'
    rcases modify_cases hk' with ⟨rfl, k, hk, rfl⟩ | ⟨-, hk⟩
    · exact ⟨k, hk, hmade k hk hp⟩
    · exact ⟨k', hk, hp, rfl, fun _ => Iff.rfl⟩
  · rw [hc] at hk'
    rcases modify_cases hk' with ⟨rfl, k, hk, rfl⟩ | ⟨-, hk⟩
    · exact ⟨k, hk, hstopped k hk hp⟩
    · exact ⟨k', hk, hp, rfl⟩

theorem private_modify_at {p : Nat} {f : Container → Container} {k : Container}
    (hk : s.containers[n]? = some k) (hc : s'.containers = s.containers.modify n f)
    (hg : s'.lastGet p = s.lastGet p) (hs : s'.sighted p = s.sighted p)
    (hi : s'.inside p = s.inside p) (hl : ∀ e ∈ s'.log, e.pid = p → e ∈ s.log)
    (hmade : (f k).creator = p → k.creator = p ∧ (f k).registered = k.registered ∧
      (k.registered = false → (k.phase = .created ↔ (f k).phase = .created)))
    (hstopped : (f k).stopper = some p → k.stopper = some p ∧ (f k).phase = k.phase) :
    Private p s s' := by
  refine private_modify hc hg hs hi hl (fun k₀ hk₀ => ?_) fun k₀ hk₀ => ?_
  · rw [hk] at hk₀
    exact Option.some.inj hk₀ ▸ hmade
  · rw [hk] at hk₀
    exact Option.some.inj hk₀ ▸ hstopped

theorem private_perform {p : Nat} (hp : pid ≠ p) (hs : Sound C s) (hn : Need C pid c cmd s)
    (h : perform pid cmd r s = some (x, s')) : Private p s s' := by
  have hget : s'.lastGet p = s.lastGet p := by
    rcases lastGet_perform h with he | ⟨key, -, -, he⟩
    · rw [he]
    · rw [he]
      exact Function.update_of_ne (Ne.symm hp) _ _
  have hsight : s'.sighted p = s.sighted p := by
    rw [sighted_perform h]
    exact Function.update_of_ne (Ne.symm hp) _ _
  have hin : s'.inside p = s.inside p := by rw [(still_perform h).inside]
  have hlog : ∀ e ∈ s'.log, e.pid = p → e ∈ s.log := by
    intro e he hpid
    rw [log_perform h] at he
    rcases List.mem_append.mp he with he | he
    · exact he
    · rw [List.mem_singleton.mp he] at hpid
      exact absurd hpid hp
  cases containers_perform h with
  | same eq => exact .of_containers hget hsight hin hlog eq
  | create name cmd_eq out_eq free eq =>
    refine ⟨hget, hsight, hin, hlog, fun n k' hk' hc => ?_, fun n k' hk' hc => ?_⟩
    · rw [eq] at hk'
      rcases getElem?_concat_cases hk' with hk | ⟨-, rfl⟩
      · exact ⟨k', hk, hc, rfl, fun _ => Iff.rfl⟩
      · exact absurd hc hp
    · rw [eq] at hk'
      rcases getElem?_concat_cases hk' with hk | ⟨-, rfl⟩
      · exact ⟨k', hk, hc, rfl⟩
      · cases hc
  | start n phase cmd_eq out_eq found idle eq =>
    subst cmd_eq
    obtain ⟨sid, ⟨k, hk, -, hcreator, -, hphase⟩, -⟩ := hn
    refine private_modify_at hk eq hget hsight hin hlog (fun hc => ?_) fun hc => ?_
    · exact absurd (hcreator.symm.trans hc) hp
    · have hnone := (hs.containers n k hk).stopper.mpr (Or.inl hphase)
      cases hnone.symm.trans hc
  | stop n cmd_eq out_eq found eq =>
    subst cmd_eq
    obtain ⟨sid, hstopping⟩ := hn
    obtain ⟨k, hk, -, hreg⟩ := hstopping.tracked
    obtain ⟨k₁, hk₁, hrun, -⟩ := phase?_eq_some found
    rw [hk] at hk₁
    obtain rfl := Option.some.inj hk₁
    refine private_modify_at hk eq hget hsight hin hlog (fun hc => ?_) fun hc => ?_
    · refine ⟨hc, rfl, fun hf => ?_⟩
      rw [hreg] at hf
      cases hf
    · have hnone := (hs.containers n k hk).stopper.mpr (Or.inr (Or.inl hrun))
      have hc' : (k.stopper <|> some pid) = some p := hc
      rw [hnone] at hc'
      exact absurd (Option.some.inj hc') hp
  | remove n phase cmd_eq out_eq found idle eq =>
    subst cmd_eq
    obtain ⟨sid, hstopping, k₁, hk₁, hstopper, -⟩ := hn
    obtain ⟨k, hk, -, hreg⟩ := hstopping.tracked
    rw [hk] at hk₁
    obtain rfl := Option.some.inj hk₁
    refine private_modify_at hk eq hget hsight hin hlog (fun hc => ?_) fun hc => ?_
    · refine ⟨hc, rfl, fun hf => ?_⟩
      rw [hreg] at hf
      cases hf
    · have hc' : k.stopper = some p := hc
      rw [hstopper] at hc'
      exact absurd (Option.some.inj hc') hp

theorem private_compute {p : Nat} (hp : pid ≠ p) (o : Op) : Private p s (compute C pid o s).2 := by
  cases o with
  | write stream bytes =>
    show Private p s (s.write pid stream bytes)
    rcases write_cases s pid stream bytes with he | he
    · rw [he]
      exact .refl
    · rw [he]
      exact .of_containers rfl rfl rfl (fun _ h _ => h) rfl
  | containerMapSet sessionId n =>
    refine private_modify rfl rfl rfl rfl (fun _ h _ => h) (fun k _ hc => ⟨hc, ?_, fun _ => Iff.rfl⟩)
      fun k _ hc => ⟨hc, rfl⟩
    have hne : k.creator ≠ pid := fun he => hp (he.symm.trans hc)
    show (k.registered || decide (k.creator = pid)) = k.registered
    rw [decide_eq_false hne, Bool.or_false]
  | enter part =>
    exact .of_containers rfl rfl (Function.update_of_ne (Ne.symm hp) _ _) (fun _ h _ => h) rfl
  | leave =>
    exact .of_containers rfl rfl (Function.update_of_ne (Ne.symm hp) _ _) (fun _ h _ => h) rfl
  | _ => exact .of_containers rfl rfl rfl (fun _ h _ => h) rfl

/-- **What a process knows of its own doings is its own.** -/
theorem private_act {p : Nat} (hp : pid ≠ p) (hs : Sound C s) (h : Act C may pid c s s') :
    Private p s s' := by
  cases h with
  | perform cmd r x s' called need allowed eq => exact private_perform hp hs need eq
  | compute o called need => exact private_compute hp o

theorem Unborn.of_private {p : Nat} (h : Unborn s p) (hp : Private p s s') : Unborn s' p := by
  refine ⟨hp.lastGet.trans h.lastGet, hp.sighted.trans h.sighted, hp.inside.trans h.inside,
    fun e he hpid => h.log e (hp.log e he hpid) hpid, fun n k' hk' => ⟨fun hc => ?_, fun hc => ?_⟩⟩
  · obtain ⟨k, hk, hc, -⟩ := hp.made n k' hk' hc
    exact (h.containers n k hk).1 hc
  · obtain ⟨k, hk, hc, -⟩ := hp.stopped n k' hk' hc
    exact (h.containers n k hk).2 hc

/-! ### The invariant is kept -/

theorem unborn_act (hs : Sound C s) (h : Act C may pid c s s') (hcalls : s'.calls = s.calls) :
    ∀ p, s'.calls.length ≤ p → Unborn s' p := by
  intro p hle
  rw [hcalls] at hle
  have hlt := (List.getElem?_eq_some_iff.mp h.called).1
  exact (hs.unborn p hle).of_private (private_act (by omega) hs h)

/-- A container that has changed is as good as before. -/
theorem GoodContainer.of_follows {k k' : Container} (h : GoodContainer s k) (ha : Advances s s')
    (hf : k.Follows k') (hbegun : k'.registered = true → k'.phase ≠ .created)
    (hown : k'.registered = false → k'.phase.Standing)
    (hstopper : k'.stopper = none ↔ k'.phase.Standing) :
    GoodContainer s' k' := by
  obtain ⟨sid, hn, hk⟩ := h.named
  exact ⟨⟨sid, hf.name.trans hn, hk.mono ha⟩, hbegun, hown, hstopper⟩

/-- After a change of one container all are good, when the changed one is. -/
theorem Sound.good_modify {f : Container → Container} {k : Container} (hs : Sound C s)
    (ha : Advances s s') (hc : s'.containers = s.containers.modify n f)
    (hk : s.containers[n]? = some k) (hbegun : (f k).registered = true → (f k).phase ≠ .created)
    (hown : (f k).registered = false → (f k).phase.Standing)
    (hstopper : (f k).stopper = none ↔ (f k).phase.Standing)
    {m : Nat} {k' : Container} (hk' : s'.containers[m]? = some k') : GoodContainer s' k' := by
  have hmod := hk'
  rw [hc] at hmod
  rcases modify_cases hmod with ⟨rfl, k₀, hk₀, rfl⟩ | ⟨-, hk₀⟩
  · rw [hk] at hk₀
    obtain rfl := Option.some.inj hk₀
    obtain ⟨k₁, hk₁, hf⟩ := ha.containers n k hk
    rw [hk'] at hk₁
    obtain rfl := Option.some.inj hk₁
    exact (hs.containers n k hk).of_follows ha hf hbegun hown hstopper
  · exact (hs.containers m k' hk₀).mono ha

theorem records_perform (hs : Sound C s) (hn : Need C pid c cmd s)
    (h : perform pid cmd r s = some (x, s')) {key : JsString} {e : RedisEntry}
    (he : s'.redis.lookup key = some e) :
    ∃ sessionId, key = sessionKey sessionId ∧ GoodRecord C s' sessionId e.value := by
  have ha := advances_perform h
  have hold : s.redis.lookup key = some e →
      ∃ sessionId, key = sessionKey sessionId ∧ GoodRecord C s' sessionId e.value := by
    intro he
    obtain ⟨sid, rfl, hr⟩ := hs.records key e he
    exact ⟨sid, rfl, hr.mono ha⟩
  cases redis_perform h with
  | same eq => exact hold (eq ▸ he)
  | setex key' seconds value cmd_eq out_eq pos eq =>
    subst cmd_eq
    obtain ⟨sid, rfl, -, hd, -⟩ := hn
    rw [eq] at he
    by_cases hk : key = sessionKey sid
    · subst hk
      rw [AList.lookup_insert] at he
      obtain rfl := Option.some.inj he
      exact ⟨sid, rfl, hd.mono ha⟩
    · rw [AList.lookup_insert_ne hk] at he
      exact hold he
  | expire key' seconds e' cmd_eq out_eq found eq =>
    rw [eq] at he
    by_cases hk : key = key'
    · subst hk
      rw [AList.lookup_insert] at he
      obtain rfl := Option.some.inj he
      obtain ⟨sid, rfl, hr⟩ := hs.records key e' (Option.filter_eq_some_iff.mp found).1
      exact ⟨sid, rfl, hr.mono ha⟩
    · rw [AList.lookup_insert_ne hk] at he
      exact hold he

theorem created_perform (hs : Sound C s) (hn : Need C pid c cmd s)
    (h : perform pid cmd r s = some (x, s')) (hk : Known s' sessionId) :
    ∃ p, C.ulid.Drew s'.drawnBy p sessionId ∧ ∃ e ∈ s'.log, e.pid = p := by
  have ha := advances_perform h
  have hold : Known s sessionId →
      ∃ p, C.ulid.Drew s'.drawnBy p sessionId ∧ ∃ e ∈ s'.log, e.pid = p := by
    intro hk
    obtain ⟨p, hd, e, he, hp⟩ := hs.created sessionId hk
    exact ⟨p, drew_mono hd ha, e, ha.log e he, hp⟩
  rw [Known] at hk
  cases redis_perform h with
  | same eq => exact hold (by rwa [eq] at hk)
  | setex key' seconds value cmd_eq out_eq pos eq =>
    subst cmd_eq
    obtain ⟨sid, rfl, -, -, hcase⟩ := hn
    rw [eq] at hk
    rcases (AList.mem_insert _).mp hk with he | hk
    · obtain rfl := sessionKey_inj he
      rcases hcase with hc | ⟨-, hk⟩
      · obtain ⟨e, he, hp, -⟩ := logged_perform h
        exact ⟨pid, drew_mono hc.drew ha, e, he, hp⟩
      · exact hold hk
    · exact hold hk
  | expire key' seconds e' cmd_eq out_eq found eq =>
    rw [eq] at hk
    rcases (AList.mem_insert _).mp hk with rfl | hk
    · exact hold (known_of_record found)
    · exact hold hk

theorem containers_good_perform (hs : Sound C s) (hn : Need C pid c cmd s)
    (h : perform pid cmd r s = some (x, s')) {n : Nat} {k' : Container}
    (hk' : s'.containers[n]? = some k') : GoodContainer s' k' := by
  have ha := advances_perform h
  cases containers_perform h with
  | same eq => exact (hs.containers n k' (eq ▸ hk')).mono ha
  | create name cmd_eq out_eq free eq =>
    rw [eq] at hk'
    rcases getElem?_concat_cases hk' with hk | ⟨-, rfl⟩
    · exact (hs.containers n k' hk).mono ha
    · subst cmd_eq
      obtain ⟨sid, hname, hknown, -⟩ := hn
      exact ⟨⟨sid, hname, hknown.mono ha⟩, fun hr => (by cases hr), fun _ => Or.inl rfl,
        fun _ => Or.inl rfl, fun _ => rfl⟩
  | start m phase cmd_eq out_eq found idle eq =>
    subst cmd_eq
    obtain ⟨sid, ⟨k, hk, -, -, hreg, hphase⟩, -⟩ := hn
    refine hs.good_modify ha eq hk (fun hr => ?_) (fun _ => Or.inr (Or.inl rfl))
      ⟨fun _ => Or.inr (Or.inl rfl), fun _ => ?_⟩ hk'
    · cases hreg.symm.trans hr
    · exact (hs.containers m k hk).stopper.mpr (Or.inl hphase)
  | stop m cmd_eq out_eq found eq =>
    subst cmd_eq
    obtain ⟨sid, hstopping⟩ := hn
    obtain ⟨k, hk, -, hreg⟩ := hstopping.tracked
    refine hs.good_modify ha eq hk (fun _ he => (by cases he)) (fun hr => ?_)
      ⟨fun he => ?_, fun he => absurd he (show ¬ ContainerPhase.stopped.Standing by decide)⟩ hk'
    · cases hreg.symm.trans hr
    · have he' : (k.stopper <|> some pid) = none := he
      cases hst : k.stopper with
      | none =>
        rw [hst] at he'
        cases he'
      | some q =>
        rw [hst] at he'
        cases he'
  | remove m phase cmd_eq out_eq found idle eq =>
    subst cmd_eq
    obtain ⟨sid, hstopping, k₁, hk₁, hstopper, -⟩ := hn
    obtain ⟨k, hk, -, hreg⟩ := hstopping.tracked
    rw [hk] at hk₁
    obtain rfl := Option.some.inj hk₁
    refine hs.good_modify ha eq hk (fun _ he => (by cases he)) (fun hr => ?_)
      ⟨fun he => ?_, fun he => absurd he (show ¬ ContainerPhase.removed.Standing by decide)⟩ hk'
    · cases hreg.symm.trans hr
    · have he' : k.stopper = none := he
      cases hstopper.symm.trans he'

/-- A container that exists existed, or its name was free. -/
theorem alive_perform (h : perform pid cmd r s = some (x, s')) {n : Nat} {k' : Container}
    (hk' : s'.containers[n]? = some k') (hne : k'.phase ≠ .removed) :
    (∃ k, s.containers[n]? = some k ∧ k.Follows k' ∧ k.phase ≠ .removed) ∨
      n = s.containers.length ∧ s.nameTaken k'.name = false := by
  cases hk : s.containers[n]? with
  | some k =>
    obtain ⟨k₁, hk₁, hf⟩ := onward_perform h n k hk
    rw [hk'] at hk₁
    obtain rfl := Option.some.inj hk₁
    exact Or.inl ⟨k, rfl, hf, fun hr => hne (hf.removed hr)⟩
  | none =>
    have hnone : ∀ {m : Nat} {f : Container → Container}, s'.containers ≠ s.containers.modify m f := by
      intro m f he
      rw [he] at hk'
      obtain ⟨k, hk₀, -⟩ := getElem?_modify_cases hk'
      cases hk.symm.trans hk₀
    cases containers_perform h with
    | same eq =>
      rw [eq, hk] at hk'
      cases hk'
    | create name cmd_eq out_eq free eq =>
      rw [eq] at hk'
      rcases getElem?_concat_cases hk' with hk₀ | ⟨rfl, rfl⟩
      · cases hk.symm.trans hk₀
      · exact Or.inr ⟨rfl, free⟩
    | start m phase cmd_eq out_eq found idle eq => exact absurd eq hnone
    | stop m cmd_eq out_eq found eq => exact absurd eq hnone
    | remove m phase cmd_eq out_eq found idle eq => exact absurd eq hnone

/-- A name that is not taken is the name of no container that exists. -/
theorem ne_of_nameTaken {name : JsString} (h : s.nameTaken name = false) {n : Nat} {k : Container}
    (hk : s.containers[n]? = some k) (hne : k.phase ≠ .removed) : k.name ≠ name := by
  intro he
  rw [World.nameTaken, List.any_eq_false] at h
  exact h k (List.mem_of_getElem? hk) (decide_eq_true ⟨he, hne⟩)

theorem sound_perform (hc : s.calls[pid]? = some c) (hs : Sound C s) (hn : Need C pid c cmd s)
    (ok : may pid cmd r s) (h : perform pid cmd r s = some (x, s')) : Sound C s' := by
  have ha := advances_perform h
  have hst := still_perform h
  have hact : Act C may pid c s s' := .perform cmd r x s' hc hn ok h
  refine ⟨unborn_act hs hact hst.calls, fun key e he => records_perform hs hn h he,
    fun sid hk => created_perform hs hn h hk, fun n k hk => containers_good_perform hs hn h hk,
    fun n m k k' hk hk' hname hne hne' => ?_, fun sid n hm => ?_, fun n sid ht => ?_,
    fun p n sid hp => ?_, ?_⟩
  · rcases alive_perform h hk hne with ⟨k₀, hk₀, hf, hne₀⟩ | ⟨hlen, hfree⟩
    · rcases alive_perform h hk' hne' with ⟨k₁, hk₁, hf₁, hne₁⟩ | ⟨hlen, hfree⟩
      · exact hs.alive n m k₀ k₁ hk₀ hk₁ (hf.name.symm.trans (hname.trans hf₁.name)) hne₀ hne₁
      · exact absurd (hf.name.symm.trans hname) (ne_of_nameTaken hfree hk₀ hne₀)
    · rcases alive_perform h hk' hne' with ⟨k₁, hk₁, hf₁, hne₁⟩ | ⟨hlen', -⟩
      · exact absurd (hf₁.name.symm.trans hname.symm) (ne_of_nameTaken hfree hk₁ hne₁)
      · exact hlen.trans hlen'.symm
  · exact (hs.map sid n (hst.containerMap ▸ hm)).mono ha
  · exact (hs.tasks n sid (hst.stopTasks ▸ ht)).mono ha
  · exact (hs.tasked p n sid (hst.calls ▸ hp)).mono ha
  · refine hs.gated.of_eq ha (fun n t ht => ?_) (fun client e he => ?_) hst.writes
    · rwa [World.socket?, hst.sockets] at ht
    · rwa [hst.clientSessions] at he

theorem gated_connect {client container : Nat} {workspaceRoot : JsString} (hs : Gated C s)
    (ht : GoodSocket C s (newSocket client sessionId userId workspaceRoot container)) :
    Gated C { s with
      sockets := s.sockets ++ [newSocket client sessionId userId workspaceRoot container] } := by
  have ha : Advances s { s with
      sockets := s.sockets ++ [newSocket client sessionId userId workspaceRoot container] } :=
    ⟨Nat.le_refl _, .refl, .refl, fun _ h => h, .refl, .refl, extends_concat_map _ _ _, fun _ h => h⟩
  refine ⟨fun n t hn => ?_, fun client e he => ?_, fun w hw => ?_⟩
  · obtain ⟨t', ht', rfl⟩ := Option.map_eq_some_iff.mp hn
    rcases getElem?_concat_cases ht' with hold | ⟨-, rfl⟩
    · exact (hs.sockets n _ (Option.map_eq_some_iff.mpr ⟨t', hold, rfl⟩)).mono ha
    · exact ht.mono ha
  · obtain ⟨t, ht, hx⟩ := hs.entries client e he
    exact ⟨t, ha.sockets _ _ ht, hx⟩
  · obtain ⟨t, message, ht, hx⟩ := hs.writes w hw
    exact ⟨t, message, ha.sockets _ _ ht, hx⟩

theorem gated_write {stream : Nat} {bytes : Bytes} {t : TcpSocket} {message : JsString}
    (hs : Gated C s) (ht : s.socket? stream = some t)
    (hc : s.calls[pid]? = some (.handleLSPMessage t.client message)) :
    Gated C { s with writes := s.writes ++ [⟨pid, stream, bytes⟩] } := by
  have ha : Advances s { s with writes := s.writes ++ [⟨pid, stream, bytes⟩] } :=
    ⟨Nat.le_refl _, .refl, .refl, fun _ h => h, .refl, .refl, .refl, fun _ h => h⟩
  refine ⟨fun n t hn => (hs.sockets n t hn).mono ha, hs.entries, fun w hw => ?_⟩
  rcases List.mem_append.mp hw with hw | hw
  · exact hs.writes w hw
  · obtain rfl := List.mem_singleton.mp hw
    exact ⟨t, message, ht, hc⟩

/-- A container that goes into the map was created for the session and has been
started, or has been there before. -/
theorem sound_register (hs : Sound C s)
    (hu : ∀ p, (s.register pid sessionId n).calls.length ≤ p → Unborn (s.register pid sessionId n) p)
    (hn : StartedBy pid n sessionId s ∨ Tracked s sessionId n) :
    Sound C (s.register pid sessionId n) := by
  have ha : Advances s (s.register pid sessionId n) :=
    advances_compute (C := C) (.containerMapSet sessionId n)
  have htracked : Tracked (s.register pid sessionId n) sessionId n := by
    rcases hn with ⟨k, hk, hname, hcreator, -⟩ | ht
    · refine ⟨{ k with registered := k.registered || decide (k.creator = pid) }, ?_, hname, ?_⟩
      · show (s.containers.modify n _)[n]? = _
        rw [List.getElem?_modify, hk]
        exact congrArg some (if_pos rfl)
      · show (k.registered || decide (k.creator = pid)) = true
        rw [decide_eq_true hcreator, Bool.or_true]
    · exact ht.mono ha
  refine ⟨hu, fun key e he => ?_, fun sid hk => ?_, fun m k' hk' => ?_, fun m m' k k' hk hk' => ?_,
    fun sid m hm => ?_, fun m sid ht => (hs.tasks m sid ht).mono ha,
    fun p m sid hp => (hs.tasked p m sid hp).mono ha,
    hs.gated.of_eq ha (fun _ _ h => h) (fun _ _ h => h) rfl⟩
  · obtain ⟨sid, rfl, hr⟩ := hs.records key e he
    exact ⟨sid, rfl, hr.mono ha⟩
  · obtain ⟨p, hd, e, he, hp⟩ := hs.created sid hk
    exact ⟨p, drew_mono hd ha, e, ha.log e he, hp⟩
  · have hthere : ∃ k, s.containers[n]? = some k ∧ k.phase ≠ .created := by
      rcases hn with ⟨k, hk, -, -, -, hphase⟩ | ⟨k, hk, -, hreg⟩
      · exact ⟨k, hk, hphase⟩
      · exact ⟨k, hk, (hs.containers n k hk).begun hreg⟩
    obtain ⟨k, hk, hphase⟩ := hthere
    have hg := hs.containers n k hk
    exact hs.good_modify ha rfl hk (fun _ => hphase)
      (fun hr => hg.own (Bool.or_eq_false_iff.mp hr).1) hg.stopper hk'
  · obtain ⟨k₀, hk₀, he⟩ := getElem?_modify_cases hk
    obtain ⟨k₁, hk₁, he'⟩ := getElem?_modify_cases hk'
    have hsame : ∀ {i : Nat} {k k₀ : Container}, (k = if n = i then
        ({ k₀ with registered := k₀.registered || decide (k₀.creator = pid) } : Container) else k₀) →
        k.name = k₀.name ∧ k.phase = k₀.phase := by
      intro i k k₀ he
      rw [he]
      split
      · exact ⟨rfl, rfl⟩
      · exact ⟨rfl, rfl⟩
    obtain ⟨hname, hphase⟩ := hsame he
    obtain ⟨hname', hphase'⟩ := hsame he'
    rw [hname, hphase, hname', hphase']
    exact hs.alive m m' k₀ k₁ hk₀ hk₁
  · rcases JsMap.has_set_iff.mp hm with ⟨rfl, rfl⟩ | ⟨-, hm⟩
    · exact htracked
    · exact (hs.map sid m hm).mono ha

theorem sound_compute (hc : s.calls[pid]? = some c) (hs : Sound C s) {o : Op}
    (hn : NeedOp C may pid c o s) : Sound C (compute C pid o s).2 := by
  have ha : Advances s (compute C pid o s).2 := advances_compute o
  have hact : Act C may pid c s (compute C pid o s).2 := .compute o hc hn
  have hquiet : (compute C pid o s).2.calls = s.calls → (compute C pid o s).2.redis = s.redis →
      (compute C pid o s).2.containers = s.containers →
      (∀ sid n, (compute C pid o s).2.containerMap.Has sid n → Tracked s sid n) →
      (∀ n sid, (n, sid) ∈ (compute C pid o s).2.stopTasks → Tracked s sid n) →
      Gated C (compute C pid o s).2 → Sound C (compute C pid o s).2 :=
    fun hcalls hredis hcontainers hmap htasks hg => hs.of_eq ha (unborn_act hs hact hcalls) hredis
      (hcontainers ▸ .refl) (fun p n sid hp => hs.tasked p n sid (hcalls ▸ hp)) hmap htasks hg
  have hgate : (compute C pid o s).2.socket? = s.socket? →
      (compute C pid o s).2.clientSessions = s.clientSessions →
      (compute C pid o s).2.writes = s.writes → Gated C (compute C pid o s).2 :=
    fun hsockets hentries hwrites => hs.gated.of_eq ha (fun n t ht => hsockets ▸ ht)
      (fun client e he => hentries ▸ he) hwrites
  cases o with
  | connect client sid u workspaceRoot container =>
    exact hquiet rfl rfl rfl hs.map hs.tasks (gated_connect hs.gated hn.2)
  | write stream bytes =>
    obtain ⟨t, message, ht, hcall⟩ := hn
    show Sound C (s.write pid stream bytes)
    rcases write_cases s pid stream bytes with he | he
    · rw [he]
      exact hs
    · have hcalls : (s.write pid stream bytes).calls = s.calls := by rw [he]
      have hu := unborn_act hs hact hcalls
      change Advances s (s.write pid stream bytes) at ha
      change ∀ p, (s.write pid stream bytes).calls.length ≤ p →
        Unborn (s.write pid stream bytes) p at hu
      rw [he] at ha hu ⊢
      exact hs.of_eq ha hu rfl .refl hs.tasked hs.map hs.tasks (gated_write hs.gated ht hcall)
  | containerMapSet sid n =>
    refine sound_register hs (unborn_act hs hact rfl) ?_
    rcases hn with ⟨hn, -⟩ | ⟨hn, -⟩
    · exact Or.inl hn
    · exact Or.inr hn
  | containerMapDelete sid =>
    exact hquiet rfl rfl rfl (fun sid' n hm => hs.map sid' n (JsMap.has_delete_iff.mp hm).2) hs.tasks
      (hgate rfl rfl rfl)
  | containerMapClear =>
    exact hquiet rfl rfl rfl (fun sid n hm => absurd hm JsMap.not_has_clear) hs.tasks
      (hgate rfl rfl rfl)
  | spawnStops =>
    refine hquiet rfl rfl rfl hs.map (fun n sid ht => ?_) (hgate rfl rfl rfl)
    rcases List.mem_append.mp ht with ht | ht
    · exact hs.tasks n sid ht
    · obtain ⟨⟨sid', n'⟩, hm, he⟩ := List.mem_map.mp ht
      obtain ⟨rfl, rfl⟩ := Prod.mk.inj he
      exact hs.map sid' n' (JsMap.has_iff_mem.mpr hm)
  | _ => exact hquiet rfl rfl rfl hs.map hs.tasks (hgate rfl rfl rfl)

/-- **An act keeps the invariant.** -/
theorem sound_act (hs : Sound C s) (h : Act C may pid c s s') : Sound C s' := by
  cases h with
  | perform cmd r x s' called need allowed eq => exact sound_perform called hs need allowed eq
  | compute o called need => exact sound_compute called hs need

end FullstackSvc.LanguageServer
