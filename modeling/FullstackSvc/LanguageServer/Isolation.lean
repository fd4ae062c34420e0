import FullstackSvc.LanguageServer.Containers

/-!
# A session is its owner's

Every operation reads the record of a session before it acts on it, and goes on only
if the record has the user of the request; the record has had that user since
`createSession` wrote it, for whoever writes it again writes what was read.  So a
request for the session of another user reaches none of the calls that change
something, and what the gateway opens for a client leads to the client's own
sessions.

* `unaffected_acts`: **a request for a foreign session changes nothing**.
* `sessions_isolated`: records and registry name the owner, requests of others change
  nothing, and the bytes of a client go to containers of its user's sessions.
-/

namespace FullstackSvc.LanguageServer

open Text Async FullstackSvc.Store

variable {N : Type} {C : Config N} {s s' s'' : World} {pid : Nat} {c : Request} {cmd : Cmd} {r : Reply}
  {sessionId userId : JsString} {may : Nat → Cmd → Reply → World → Prop}

/-! ### Requests for the sessions of others -/

/-- The user is the one that the session was created with. -/
def OwnedBy (C : Config N) (s : World) (sessionId userId : JsString) : Prop :=
  ∀ u, Owner C s sessionId u ↔ u = userId

theorem Owner.ownedBy (h : Owner C s sessionId userId) : OwnedBy C s sessionId userId := fun _ =>
  ⟨fun hu => owner_unique hu h, fun he => he ▸ h⟩

/-- A request for a session, made by a user who did not create it. -/
def Foreign (C : Config N) (s : World) : Request → Prop
  | .renewSession sessionId userId => ¬ Owner C s sessionId userId
  | .uploadFile sessionId userId _ => ¬ Owner C s sessionId userId
  | .handleLSPConnect client sessionId =>
    ∀ userId, s.user? client = some userId → ¬ Owner C s sessionId userId
  | _ => False

theorem Foreign.not_permitted (h : Foreign C s c) : ¬ Permitted C c s := by
  cases c with
  | renewSession sid u => exact h
  | uploadFile sid u file => exact h
  | handleLSPConnect client sid =>
    rintro ⟨u, hu, ho⟩
    exact h u hu ho
  | _ => exact h.elim

/-- Nobody becomes an owner while no `createSession` draws. -/
theorem owner_of_drawn (hc : s.calls[pid]? = some c) (hne : ∀ u, c ≠ .createSession u)
    (hcalls : s'.calls = s.calls) (hdrawn : s'.drawnBy = s.drawnBy ∨ s'.drawnBy = s.drawnBy ++ [pid])
    (h : Owner C s' sessionId userId) : Owner C s sessionId userId := by
  obtain ⟨p, hd, hp⟩ := h
  rw [hcalls] at hp
  refine ⟨p, ?_, hp⟩
  rcases hdrawn with he | he
  · rwa [he] at hd
  · rw [he] at hd
    refine hd.of_append fun hmem => ?_
    rw [List.mem_singleton.mp hmem, hc] at hp
    exact hne userId (Option.some.inj hp)

theorem drawnBy_compute (o : Op) : (compute C pid o s).2.drawnBy = s.drawnBy ∨
    (compute C pid o s).2.drawnBy = s.drawnBy ++ [pid] := by
  cases o with
  | ulid => exact Or.inr rfl
  | write stream bytes => exact Or.inl (write_keeps World.drawnBy (fun _ => rfl) pid stream bytes)
  | _ => exact Or.inl rfl

/-- A request that is foreign stays so while nobody becomes an owner. -/
theorem Foreign.of_owner (h : Foreign C s c) (hclients : s'.clients = s.clients)
    (howner : ∀ sid u, Owner C s' sid u → Owner C s sid u) : Foreign C s' c := by
  cases c with
  | renewSession sid u => exact fun ho => h (howner sid u ho)
  | uploadFile sid u file => exact fun ho => h (howner sid u ho)
  | handleLSPConnect client sid =>
    intro u hu ho
    rw [World.user?, hclients] at hu
    exact h u hu (howner sid u ho)
  | _ => exact h

theorem Foreign.not_create (h : Foreign C s c) (u : JsString) : c ≠ .createSession u := by
  rintro rfl
  exact h

theorem foreign_act (hf : Foreign C s c) (h : Act C may pid c s s') : Foreign C s' c := by
  have hcalls := h.calls
  have hcalled := h.called
  cases h with
  | perform cmd r x s' called need allowed eq =>
    have hst := still_perform eq
    exact hf.of_owner hst.clients fun _ _ =>
      owner_of_drawn hcalled hf.not_create hcalls (Or.inl hst.drawnBy)
  | compute o called need =>
    exact hf.of_owner (gateway_compute o).1 fun _ _ =>
      owner_of_drawn hcalled hf.not_create hcalls (drawnBy_compute o)

/-! ### They change nothing -/

/-- Records with their times, files, the registry and the sockets are as before. -/
structure Unaffected (s s' : World) : Prop where
  redis : s'.redis = s.redis
  directories : s'.directories = s.directories
  files : s'.files = s.files
  clientSessions : s'.clientSessions = s.clientSessions
  sockets : s'.sockets = s.sockets

theorem Unaffected.refl : Unaffected s s := ⟨rfl, rfl, rfl, rfl, rfl⟩

theorem Unaffected.trans (h : Unaffected s s') (h' : Unaffected s' s'') : Unaffected s s'' :=
  ⟨h'.redis.trans h.redis, h'.directories.trans h.directories, h'.files.trans h.files,
    h'.clientSessions.trans h.clientSessions, h'.sockets.trans h.sockets⟩

/-- Every call that changes a record or the volume is permitted. -/
theorem unaffected_perform {x : Except JsError (sig.Res cmd)} (hf : Foreign C s c)
    (hn : Need C pid c cmd s) (h : perform pid cmd r s = some (x, s')) : Unaffected s s' := by
  have hno := hf.not_permitted
  have hst := still_perform h
  have hredis : s'.redis = s.redis := by
    cases redis_perform h with
    | same eq => exact eq
    | setex key seconds value cmd_eq out_eq pos eq =>
      subst cmd_eq
      obtain ⟨sid, -, hp, -⟩ := hn
      exact absurd hp hno
    | expire key seconds e cmd_eq out_eq found eq =>
      subst cmd_eq
      exact absurd hn.1 hno
  cases volume_perform h with
  | same directories files unremoved =>
    exact ⟨hredis, directories, files, hst.clientSessions, hst.sockets⟩
  | mkdir path cmd_eq out_eq directories files =>
    subst cmd_eq
    exact absurd hn.1 hno
  | file path cmd_eq directories files left =>
    rcases cmd_eq with rfl | ⟨bytes, rfl⟩
    · exact absurd hn hno
    · exact absurd hn hno
  | rm path cmd_eq out_eq directories files =>
    subst cmd_eq
    obtain ⟨sid, n, -, hst, -⟩ := hn
    exact absurd hst.doomed.permitted hno

theorem unaffected_compute {o : Op} (hf : Foreign C s c) (hn : NeedOp C may pid c o s) :
    Unaffected s (compute C pid o s).2 := by
  have hcalm : Calm s (compute C pid o s).2 := calm_compute o
  refine ⟨hcalm.redis, hcalm.directories, hcalm.files, (gateway_compute o).2.1, ?_⟩
  rcases sockets_compute o with he | ⟨client, sid, u, root, container, rfl, -⟩
  · exact he
  · exact absurd hn.1 hf.not_permitted

/-- **A request for a foreign session changes nothing.** -/
theorem unaffected_acts (hf : Foreign C s c) (h : Relation.ReflTransGen (Act C may pid c) s s') :
    Unaffected s s' ∧ Foreign C s' c := by
  induction h with
  | refl => exact ⟨.refl, hf⟩
  | tail _ ha ih =>
    refine ⟨ih.1.trans ?_, foreign_act ih.2 ha⟩
    cases ha with
    | perform cmd r x s' called need allowed eq => exact unaffected_perform ih.2 need eq
    | compute o called need => exact unaffected_compute ih.2 need

/-- Nobody becomes an owner by a request that creates no session. -/
theorem foreign_accept (hf : Foreign C s c) (h : World.accept pid c s = some s') : Foreign C s' c := by
  have hne := hf.not_create
  obtain ⟨tasks, -, rfl⟩ := accept_still h
  refine hf.of_owner rfl ?_
  rintro sid u ⟨p, hd, hp⟩
  rcases getElem?_concat_cases hp with hp | ⟨-, he⟩
  · exact ⟨p, hd, hp⟩
  · exact absurd he.symm (hne u)

theorem unaffected_accept (h : World.accept pid c s = some s') : Unaffected s s' := by
  obtain ⟨tasks, -, rfl⟩ := accept_still h
  exact ⟨rfl, rfl, rfl, rfl, rfl⟩

theorem unaffected_step {ok : (services C).Sys → (services C).Event → Prop} {σ σ' : (services C).Sys}
    {e : (services C).Event} (hs : Stepped ok σ e σ') (hc : σ.caller e = some c)
    (hf : Foreign C σ.shared c) : Unaffected σ.shared σ'.shared := by
  obtain ⟨pid, s, hs | hs, hacts⟩ := hs.acts hc
  · subst hs
    exact (unaffected_acts hf hacts).1
  · exact (unaffected_accept hs).trans (unaffected_acts (foreign_accept hf hs) hacts).1

/-! ### Sessions apart -/

/-- The bytes go to a container of a session of the client's user. -/
structure Addressed (C : Config N) (s : World) (w : StreamWrite) (client : Nat) (message : JsString)
    (t : TcpSocket) : Prop where
  call : s.calls[w.pid]? = some (.handleLSPMessage client message)
  socket : s.sockets[w.stream]? = some t
  client_eq : t.client = client
  user : s.user? client = some t.userId
  owned : OwnedBy C s t.sessionId t.userId
  container : Tracked s t.sessionId t.container

theorem addressed_of_sound (hs : Sound C s) {w : StreamWrite} (hw : w ∈ s.writes) :
    ∃ client message t, Addressed C s w client message t := by
  obtain ⟨t', message, ht', hcall⟩ := hs.gated.writes w hw
  have hgood := hs.gated.sockets w.stream t' ht'
  obtain ⟨t, ht, rfl⟩ := Option.map_eq_some_iff.mp ht'
  exact ⟨t.client, message, t, hcall, ht, rfl, hgood.user, hgood.owner.ownedBy, hgood.container⟩

/-- **A session is its owner's.**  A record is one of a session and has the user that
the session was created with; so has every entry of the registry, and it is the user
of the client whose entry it is.  A step of a request for the session of another user
leaves all records with their times, all files, the registry and the sockets as they
are.  What a process writes to a socket is the message of a client, and the socket is
one to a container of a session of the client's user. -/
theorem sessions_isolated (C : Config N) (σ : (services C).Sys)
    (h : Service.Reaches Service.anyEvent (start C) σ) :
    (∀ key found, σ.shared.redis.lookup key = some found →
      ∃ sessionId, key = sessionKey sessionId ∧ OwnedBy C σ.shared sessionId found.value.userId) ∧
    (∀ client entry, σ.shared.clientSessions client = some entry →
      OwnedBy C σ.shared entry.sessionId entry.userId ∧
        σ.shared.user? client = some entry.userId) ∧
    (∀ e c σ', σ.caller e = some c → Foreign C σ.shared c → Service.step σ e = some σ' →
      Unaffected σ.shared σ'.shared) ∧
    ∀ w ∈ σ.shared.writes, ∃ client message t, Addressed C σ.shared w client message t := by
  obtain ⟨-, hs, -⟩ := holds_of_reaches h
  refine ⟨fun key found hfound => ?_, fun client entry hentry => ?_, fun e c σ' hc hf hstep => ?_,
    fun w hw => addressed_of_sound hs hw⟩
  · obtain ⟨sid, rfl, hr⟩ := hs.records key found hfound
    exact ⟨sid, rfl, hr.owner.ownedBy⟩
  · obtain ⟨t, ht, rfl, he⟩ := hs.gated.entries client entry hentry
    have hgood := hs.gated.sockets entry.stream t ht
    rw [he]
    exact ⟨hgood.owner.ownedBy, hgood.user⟩
  · exact unaffected_step (stepped_of_reaches h trivial hstep) hc hf

/-- The container of ann's session has been started; she has connected to it and sent
a message, and bob has connected to the gateway. -/
def messageSent : List (services Config.plain).Event :=
  containerStarted ++
  [.env (.handleConnection (some (js "ann")) none), .env (.handleConnection (some (js "bob")) none),
    .call (.handleLSPConnect 0 (js "0")), .resume 2 .done, .resume 2 .done, .resume 2 .done,
    .env (.tcpConnected 0), .call (.handleLSPMessage 0 (js "{}"))]

/-- The message goes to ann's container, and bob's request for her session changes
nothing. -/
theorem sessions_isolated_sent :
    ∃ (σ σ' : (services Config.plain).Sys) (w : StreamWrite) (t : TcpSocket),
      Service.run (start Config.plain) messageSent = some σ ∧
      σ.shared.writes = [w] ∧ Addressed Config.plain σ.shared w 0 (js "{}") t ∧
      t.userId = js "ann" ∧
      Service.step σ (.call (.handleLSPConnect 1 (js "0"))) = some σ' ∧
      Unaffected σ.shared σ'.shared := by
  have hrun : (Service.run (start Config.plain) messageSent).map
      (fun σ : (services Config.plain).Sys => decide (
        σ.shared.writes.map (fun w => (w.pid, w.stream)) = [(3, 0)] ∧
        σ.shared.calls[3]? = some (.handleLSPMessage 0 (js "{}")) ∧
        (σ.shared.clientSessions 0).map (fun e => (e.sessionId, e.userId)) =
          some (js "0", js "ann") ∧
        (σ.shared.sockets[0]?).map TcpSocket.userId = some (js "ann") ∧
        σ.shared.user? 1 = some (js "bob") ∧
        (Service.step σ (.call (.handleLSPConnect 1 (js "0")))).isSome = true)) =
      some true := by decide +kernel
  obtain ⟨σ, hσ, hend⟩ := Option.map_eq_some_iff.mp hrun
  obtain ⟨hwrites, hcall, hentry, hsocket, hbob, hstep⟩ := of_decide_eq_true hend
  have hr : Service.Reaches Service.anyEvent (start Config.plain) σ :=
    Service.reaches_of_run hσ fun _ _ _ => trivial
  obtain ⟨-, hentries, hforeign, haddressed⟩ := sessions_isolated Config.plain σ hr
  obtain ⟨σ', hσ'⟩ := Option.isSome_iff_exists.mp hstep
  obtain ⟨w, hw, hpair⟩ := List.map_eq_singleton_iff.mp hwrites
  obtain ⟨client, message, t, ht⟩ := haddressed w (by rw [hw]; exact List.mem_singleton_self _)
  obtain ⟨hpid, hstream⟩ := Prod.mk.inj hpair
  have hsame := ht.call
  rw [hpid, hcall] at hsame
  obtain ⟨rfl, rfl⟩ := Request.handleLSPMessage.inj (Option.some.inj hsame)
  have huser : t.userId = js "ann" := by
    rw [← hstream, ht.socket] at hsocket
    exact Option.some.inj hsocket
  obtain ⟨entry, hfound, hpair⟩ := Option.map_eq_some_iff.mp hentry
  obtain ⟨hsid, hann⟩ := Prod.mk.inj hpair
  have howned : OwnedBy Config.plain σ.shared (js "0") (js "ann") :=
    hsid ▸ hann ▸ (hentries 0 entry hfound).1
  refine ⟨σ, σ', w, t, hσ, hw, ht, huser, hσ', hforeign _ _ σ' rfl ?_ hσ'⟩
  intro u hu ho
  obtain rfl := Option.some.inj (hbob.symm.trans hu)
  exact absurd ((howned _).mp ho) (by decide)

end FullstackSvc.LanguageServer
