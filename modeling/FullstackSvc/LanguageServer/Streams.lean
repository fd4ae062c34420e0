import FullstackSvc.LanguageServer.Isolation

/-!
# Streams and the registry of the gateway

The registry has one entry for a client, and the listeners of a socket know the
client but not whether the entry is theirs: the callback of `connect` writes its own
entry over any other, whether the client is still there or not, and `'close'` deletes
whatever entry there is.  Both go well as long as the attempts of a client do not
meet: a socket connects when its client has no entry, and one that closes has the
entry of its client, or there is none (`World.unrivalled`).

* `Registered`: **a stream that is connected to a client that is online is the
  registered one**, as long as attempts do not meet.
* `streams_released`: a disconnect leaves no entry and no open stream.
* `streams_consistent`: what a client is sent comes from its registered stream, and
  an entry is removed only by its own stream or by the disconnect.
-/

namespace FullstackSvc.LanguageServer

open Text Async FullstackSvc.Stream FullstackSvc.Lsp FullstackSvc.Store

variable {N : Type} {C : Config N} {s s' : World} {pid : Nat} {c : Request} {n : Nat} {e : Env}
  {ok : (services C).Sys → (services C).Event → Prop}

/-! ### Attempts that do not meet -/

/-- The entry of the client that a socket was opened for. -/
def World.rival (s : World) (n : Nat) : Option ClientSession :=
  (s.sockets[n]?).bind fun t => s.clientSessions t.client

theorem rival_eq {t : TcpSocket} (ht : s.sockets[n]? = some t) :
    s.rival n = s.clientSessions t.client := by
  rw [World.rival, ht]
  rfl

/-- No other stream has the entry of the client. -/
def World.unrivalled (s : World) : Env → Prop
  | .tcpConnected n => s.rival n = none
  | .tcpClose n => ∀ entry ∈ s.rival n, entry.stream = n
  | _ => True

instance : Decidable (s.unrivalled e) := by
  unfold World.unrivalled
  split <;> infer_instance

/-- The client of a socket that connects is there. -/
def World.attended (s : World) : Env → Prop
  | .tcpConnected n => ∀ t ∈ s.sockets[n]?, s.online t.client = true
  | _ => True

instance : Decidable (s.attended e) := by
  unfold World.attended
  split <;> infer_instance

/-! ### Registered streams -/

/-- A stream that is connected to a client that is online is the registered one. -/
def Registered (s : World) : Prop :=
  ∀ (n : Nat) t, s.sockets[n]? = some t → t.phase = .connected → s.online t.client = true →
    s.clientSessions t.client = some (t.entry n)

theorem Registered.of_eq (h : Registered s) (hclients : s'.clients = s.clients)
    (hentries : s'.clientSessions = s.clientSessions)
    (hsockets : ∀ (n : Nat) t, s'.sockets[n]? = some t → t.phase = .connected →
      ∃ t₀, s.sockets[n]? = some t₀ ∧ t₀.phase = .connected ∧ t₀.made = t.made) :
    Registered s' := by
  intro n t ht hphase honline
  obtain ⟨t₀, ht₀, hphase₀, hmade⟩ := hsockets n t ht hphase
  have hclient : t₀.client = t.client := show t₀.made.client = t.made.client by rw [hmade]
  have hentry : t₀.entry n = t.entry n := show t₀.made.entry n = t.made.entry n by rw [hmade]
  rw [World.online, hclients, ← World.online] at honline
  rw [hentries, ← hclient, ← hentry]
  exact h n t₀ ht₀ hphase₀ (hclient ▸ honline)

theorem registered_act {may : Nat → Cmd → Reply → World → Prop} (hJ : Registered s)
    (h : Act C may pid c s s') : Registered s' := by
  cases h with
  | perform cmd r x s' called need allowed eq =>
    have hst := still_perform eq
    exact hJ.of_eq hst.clients hst.clientSessions fun n t ht hphase => ⟨t, hst.sockets ▸ ht, hphase, rfl⟩
  | compute o called need =>
    refine hJ.of_eq (gateway_compute o).1 (gateway_compute o).2.1 fun n t ht hphase => ?_
    rcases sockets_compute o with he | ⟨client, sid, u, root, container, -, he⟩
    · exact ⟨t, he ▸ ht, hphase, rfl⟩
    · rw [he] at ht
      rcases getElem?_concat_cases ht with ht | ⟨-, rfl⟩
      · exact ⟨t, ht, hphase, rfl⟩
      · cases hphase

theorem Registered.same (h : Registered s) (hclients : s'.clients = s.clients)
    (hentries : s'.clientSessions = s.clientSessions) (hsockets : s'.sockets = s.sockets) :
    Registered s' :=
  h.of_eq hclients hentries fun _ t ht hphase => ⟨t, hsockets ▸ ht, hphase, rfl⟩

/-- The client of a socket has been there. -/
theorem client_lt (hs : Sound C s) {t : TcpSocket} (ht : s.sockets[n]? = some t) :
    t.client < s.clients.length := by
  have hgood : GoodSocket C s t.made := hs.gated.sockets n t.made (by rw [World.socket?, ht]; rfl)
  obtain ⟨k, hk, -⟩ := Option.map_eq_some_iff.mp hgood.user
  exact (List.getElem?_eq_some_iff.mp hk).1

/-- Who is online after a disconnect was so before and is another client. -/
theorem online_disconnect {client client' : Nat}
    (hs : s'.clients = s.clients.modify client fun c => { c with connected := false })
    (h : s'.online client' = true) : client ≠ client' ∧ s.online client' = true := by
  rw [World.online] at h ⊢
  cases hk' : s'.clients[client']? with
  | none =>
    rw [hk'] at h
    cases h
  | some k' =>
    rw [hk'] at h
    rw [hs] at hk'
    rcases modify_cases hk' with ⟨-, k, -, rfl⟩ | ⟨hc, hk⟩
    · cases h
    · exact ⟨hc, by rw [hk]; exact h⟩

/-- What a disconnect does. -/
inductive Disconnects (s : World) (client : Nat) (s' : World) : Prop
  | idle (clients : s'.clients = s.clients.modify client fun c => { c with connected := false })
      (none : s.clientSessions client = none) (entries : s'.clientSessions = s.clientSessions)
      (sockets : s'.sockets = s.sockets)
  | ends (session : ClientSession)
      (clients : s'.clients = s.clients.modify client fun c => { c with connected := false })
      (found : s.clientSessions client = some session)
      (entries : s'.clientSessions = Function.update s.clientSessions client none)
      (sockets : s'.sockets = s.sockets.modify session.stream fun t => { t with ended := true })

theorem disconnect_cases (s : World) (client : Nat) :
    Disconnects s client (s.handleDisconnect client) := by
  unfold World.handleDisconnect
  cases h : s.clientSessions client with
  | none => exact .idle rfl h rfl rfl
  | some session => exact .ends session rfl h rfl rfl

theorem registered_disconnect {client : Nat} (hJ : Registered s) :
    Registered (s.handleDisconnect client) := by
  intro n t ht hphase honline
  cases disconnect_cases s client with
  | idle clients none entries sockets =>
    obtain ⟨-, hon⟩ := online_disconnect clients honline
    rw [entries]
    exact hJ n t (sockets ▸ ht) hphase hon
  | ends session clients found entries sockets =>
    obtain ⟨hne, hon⟩ := online_disconnect clients honline
    rw [sockets] at ht
    obtain ⟨t₀, ht₀, he⟩ := getElem?_modify_cases ht
    have hmade : t₀.made = t.made ∧ t₀.phase = t.phase := by
      rw [he]
      split
      · exact ⟨rfl, rfl⟩
      · exact ⟨rfl, rfl⟩
    have hclient : t₀.client = t.client := show t₀.made.client = t.made.client by rw [hmade.1]
    have hentry : t₀.entry n = t.entry n := show t₀.made.entry n = t.made.entry n by rw [hmade.1]
    rw [entries, Function.update_of_ne (Ne.symm hne), ← hclient, ← hentry]
    exact hJ n t₀ ht₀ (hmade.2.trans hphase) (hclient ▸ hon)

theorem registered_env (hs : Sound C s) (hJ : Registered s) (hu : s.unrivalled e)
    (h : World.env C e s = some s') : Registered s' := by
  cases env_cases h with
  | handleConnection authToken authorization userId =>
    intro n t ht hphase honline
    refine hJ n t ht hphase ?_
    have hlt := client_lt hs ht
    change ((s.clients ++ [⟨userId, true⟩])[t.client]?).any Client.connected = true at honline
    rwa [List.getElem?_append_left hlt] at honline
  | handleDisconnect client online => exact registered_disconnect hJ
  | tcpConnected n t found connecting =>
    have hnone : s.clientSessions t.client = none := (rival_eq found).symm.trans hu
    intro m t' ht' hphase honline
    rcases modify_cases ht' with ⟨rfl, t₀, ht₀, rfl⟩ | ⟨-, ht₀⟩
    · obtain rfl := Option.some.inj (ht₀.symm.trans found)
      exact Function.update_self ..
    · have hold := hJ m t' ht₀ hphase honline
      have hclient : t'.client ≠ t.client := by
        intro hc
        rw [hc, hnone] at hold
        cases hold
      exact (Function.update_of_ne hclient _ _).trans hold
  | tcpData n chunk t found connected =>
    obtain ⟨delivered, he⟩ := receive_eq (C := C) s n t chunk
    rw [he]
    refine hJ.of_eq rfl rfl fun m t' ht' hphase => ?_
    obtain ⟨t₀, ht₀, he⟩ := getElem?_modify_cases ht'
    subst he
    refine ⟨t₀, ht₀, ?_, ?_⟩
    · split at hphase
      · exact hphase
      · exact hphase
    · split
      · rfl
      · rfl
  | tcpClose n t found open_ =>
    intro m t' ht' hphase honline
    rcases modify_cases ht' with ⟨-, t₀, -, rfl⟩ | ⟨hm, ht₀⟩
    · cases hphase
    · have hold := hJ m t' ht₀ hphase honline
      have hclient : t'.client ≠ t.client := by
        intro hc
        have hrival : s.rival n = some (t'.entry m) := (rival_eq found).trans (hc ▸ hold)
        exact hm (hu _ hrival).symm
      exact (Function.update_of_ne hclient _ _).trans hold
  | _ => exact hJ.same rfl rfl rfl

theorem registered_accept (hJ : Registered s) (h : World.accept pid c s = some s') : Registered s' := by
  obtain ⟨tasks, -, rfl⟩ := accept_still h
  exact hJ.same rfl rfl rfl

/-! ### Streams of clients that are gone -/

/-- No attempt meets another one or a client that is gone. -/
def Orderly (σ : (services C).Sys) (e : (services C).Event) : Prop :=
  match e with
  | .env e => σ.shared.unrivalled e ∧ σ.shared.attended e
  | _ => True

instance (σ : (services C).Sys) (e : (services C).Event) : Decidable (Orderly σ e) := by
  unfold Orderly
  split <;> infer_instance

/-- What the gateway holds for a client that is not there is closed, or will be. -/
structure Dismissed (s : World) (client : Nat) : Prop where
  entry : s.clientSessions client = none
  streams : ∀ (n : Nat) t, s.sockets[n]? = some t → t.client = client → t.phase = .connected →
    t.ended = true

/-- Who is not there has left nothing open. -/
def Vacated (s : World) : Prop := ∀ client, s.online client = false → Dismissed s client

theorem Vacated.same (h : Vacated s) (hclients : s'.clients = s.clients)
    (hentries : s'.clientSessions = s.clientSessions)
    (hsockets : ∀ (n : Nat) t, s'.sockets[n]? = some t → t.phase = .connected →
      ∃ t₀, s.sockets[n]? = some t₀ ∧ t₀.phase = .connected ∧ t₀.client = t.client ∧
        (t₀.ended = true → t.ended = true)) : Vacated s' := by
  intro client hoff
  rw [World.online, hclients, ← World.online] at hoff
  obtain ⟨hentry, hstreams⟩ := h client hoff
  refine ⟨hentries ▸ hentry, fun n t ht hclient hphase => ?_⟩
  obtain ⟨t₀, ht₀, hphase₀, hclient₀, hended⟩ := hsockets n t ht hphase
  exact hended (hstreams n t₀ ht₀ (hclient₀.trans hclient) hphase₀)

theorem vacated_act {may : Nat → Cmd → Reply → World → Prop} (hJ : Vacated s)
    (h : Act C may pid c s s') : Vacated s' := by
  cases h with
  | perform cmd r x s' called need allowed eq =>
    have hst := still_perform eq
    exact hJ.same hst.clients hst.clientSessions fun n t ht hphase =>
      ⟨t, hst.sockets ▸ ht, hphase, rfl, id⟩
  | compute o called need =>
    refine hJ.same (gateway_compute o).1 (gateway_compute o).2.1 fun n t ht hphase => ?_
    rcases sockets_compute o with he | ⟨client, sid, u, root, container, -, he⟩
    · exact ⟨t, he ▸ ht, hphase, rfl, id⟩
    · rw [he] at ht
      rcases getElem?_concat_cases ht with ht | ⟨-, rfl⟩
      · exact ⟨t, ht, hphase, rfl, id⟩
      · cases hphase

theorem vacated_accept (hJ : Vacated s) (h : World.accept pid c s = some s') : Vacated s' := by
  obtain ⟨tasks, -, rfl⟩ := accept_still h
  exact hJ.same rfl rfl fun _ t ht hphase => ⟨t, ht, hphase, rfl, id⟩

/-- A client that comes sends nobody away. -/
theorem online_connect {client : Nat} {k : Client} (hs : s'.clients = s.clients ++ [k])
    (h : s.online client = true) : s'.online client = true := by
  rw [World.online] at h ⊢
  cases hk : s.clients[client]? with
  | none =>
    rw [hk] at h
    cases h
  | some k₀ => rwa [hs, List.getElem?_append_left (List.getElem?_eq_some_iff.mp hk).1]

/-- Another client is online as before. -/
theorem online_others {client client' : Nat}
    (hs : s'.clients = s.clients.modify client fun c => { c with connected := false })
    (hne : client ≠ client') : s'.online client' = s.online client' := by
  rw [World.online, World.online, hs, List.getElem?_modify_ne _ _ hne]

theorem vacated_disconnect {client : Nat} (hJ : Vacated s) (hr : Registered s)
    (hon : s.online client = true) : Vacated (s.handleDisconnect client) := by
  intro client' hoff
  cases disconnect_cases s client with
  | idle clients none entries sockets =>
    refine ⟨?_, fun n t ht hclient hphase => ?_⟩
    · rw [entries]
      by_cases hc : client = client'
      · exact hc ▸ none
      · exact (hJ client' (online_others clients hc ▸ hoff)).entry
    · rw [sockets] at ht
      by_cases hc : client = client'
      · subst hc hclient
        cases (hr n t ht hphase hon).symm.trans none
      · exact (hJ client' (online_others clients hc ▸ hoff)).streams n t ht hclient hphase
  | ends session clients found entries sockets =>
    refine ⟨?_, fun n t ht hclient hphase => ?_⟩
    · rw [entries]
      by_cases hc : client = client'
      · exact hc ▸ Function.update_self ..
      · exact (Function.update_of_ne (Ne.symm hc) _ _).trans
          (hJ client' (online_others clients hc ▸ hoff)).entry
    · rw [sockets] at ht
      rcases modify_cases ht with ⟨-, t₀, -, rfl⟩ | ⟨hstream, ht₀⟩
      · rfl
      · by_cases hc : client = client'
        · subst hc hclient
          have hsame := Option.some.inj (found.symm.trans (hr n t ht₀ hphase hon))
          exact absurd (congrArg ClientSession.stream hsame) hstream
        · exact (hJ client' (online_others clients hc ▸ hoff)).streams n t ht₀ hclient hphase

theorem vacated_env (hJ : Vacated s) (hr : Registered s) (ha : s.attended e)
    (h : World.env C e s = some s') : Vacated s' := by
  cases env_cases h with
  | handleConnection authToken authorization userId =>
    intro client hoff
    have hold : s.online client = false := by
      by_contra hon
      exact Bool.false_ne_true (hoff.symm.trans (online_connect rfl ((Bool.not_eq_false _).mp hon)))
    exact ⟨(hJ client hold).entry, (hJ client hold).streams⟩
  | handleDisconnect client online => exact vacated_disconnect hJ hr online
  | tcpConnected n t found connecting =>
    intro client hoff
    have hon : s.online t.client = true := ha t found
    have hne : client ≠ t.client := by
      rintro rfl
      cases hoff.symm.trans hon
    obtain ⟨hentry, hstreams⟩ := hJ client hoff
    refine ⟨(Function.update_of_ne hne _ _).trans hentry, fun m t' ht' hclient hphase => ?_⟩
    rcases modify_cases ht' with ⟨rfl, t₀, ht₀, rfl⟩ | ⟨-, ht₀⟩
    · obtain rfl := Option.some.inj (ht₀.symm.trans found)
      exact absurd hclient.symm hne
    · exact hstreams m t' ht₀ hclient hphase
  | tcpData n chunk t found connected =>
    obtain ⟨delivered, he⟩ := receive_eq (C := C) s n t chunk
    rw [he]
    refine hJ.same rfl rfl fun m t' ht' hphase => ?_
    obtain ⟨t₀, ht₀, he⟩ := getElem?_modify_cases ht'
    subst he
    refine ⟨t₀, ht₀, ?_, ?_, fun hended => ?_⟩
    · split at hphase
      · exact hphase
      · exact hphase
    · split
      · rfl
      · rfl
    · split
      · exact hended
      · exact hended
  | tcpClose n t found open_ =>
    intro client hoff
    obtain ⟨hentry, hstreams⟩ := hJ client hoff
    refine ⟨?_, fun m t' ht' hclient hphase => ?_⟩
    · show Function.update s.clientSessions t.client none client = none
      by_cases hc : client = t.client
      · rw [hc, Function.update_self]
      · rwa [Function.update_of_ne hc]
    · rcases modify_cases ht' with ⟨-, t₀, -, rfl⟩ | ⟨-, ht₀⟩
      · cases hphase
      · exact hstreams m t' ht₀ hclient hphase
  | _ => exact hJ.same rfl rfl fun _ t ht hphase => ⟨t, ht, hphase, rfl, id⟩

/-! ### After the disconnect -/

/-- A handler of the client. -/
def Request.ofClient (client : Nat) : Request → Bool
  | .handleLSPConnect client' _ => client' = client
  | .handleLSPMessage client' _ => client' = client
  | _ => false

/-- No handler of the client runs, and none of its sockets is connecting. -/
structure AtRest (σ : (services C).Sys) (client : Nat) : Prop where
  handlers : ∀ (pid : Nat) c, σ.shared.calls[pid]? = some c → c.ofClient client = true →
    σ.pending pid = none
  sockets : ∀ (n : Nat) t, σ.shared.sockets[n]? = some t → t.client = client →
    t.phase ≠ .connecting

theorem atRest_of_bounded {σ : (services C).Sys} {client : Nat}
    (hhandlers : ∀ pid < σ.shared.calls.length,
      (σ.shared.calls[pid]?).any (Request.ofClient client) = true → σ.pending pid = none)
    (hsockets : ∀ t ∈ σ.shared.sockets, t.client = client → t.phase ≠ .connecting) :
    AtRest σ client := by
  refine ⟨fun pid c hc hof => ?_, fun n t ht => hsockets t (List.mem_of_getElem? ht)⟩
  refine hhandlers pid (List.getElem?_eq_some_iff.mp hc).1 ?_
  rw [hc]
  exact hof

/-- What a client has left behind is over: it has no entry, and each of its sockets has
been ended or has closed. -/
structure Released (s : World) (client : Nat) : Prop where
  entry : s.clientSessions client = none
  sockets : ∀ (n : Nat) t, s.sockets[n]? = some t → t.client = client →
    t.ended = true ∨ t.phase = .closed

/-- **Nothing survives a disconnect**, in a run in which no attempt of a client meets
another one or ends after the client has gone. -/
theorem streams_released (C : Config N) (σ : (services C).Sys)
    (h : Service.Reaches Orderly (start C) σ) (client : Nat)
    (hoff : σ.shared.online client = false) (hrest : AtRest σ client) :
    Released σ.shared client := by
  have hboth : Vacated σ.shared ∧ Registered σ.shared := by
    refine @shared_of_reaches N C Orderly (fun s => Vacated s ∧ Registered s) ?_
      (fun _ hJ _ ha => ⟨vacated_act hJ.1 ha, registered_act hJ.2 ha⟩)
      (fun _ hJ _ ha => ⟨vacated_accept hJ.1 ha, registered_accept hJ.2 ha⟩)
      (fun hs hJ hok he => ⟨vacated_env hJ.1 hJ.2 hok.2 he, registered_env hs hJ.2 hok.1 he⟩) _ h
    exact ⟨fun _ _ => ⟨rfl, fun _ _ ht => by cases ht⟩, fun _ _ ht => by cases ht⟩
  obtain ⟨hentry, hstreams⟩ := hboth.1 client hoff
  refine ⟨hentry, fun n t ht hclient => ?_⟩
  cases hphase : t.phase with
  | connecting => exact absurd hphase (hrest.sockets n t ht hclient)
  | connected => exact Or.inl (hstreams n t ht hclient hphase)
  | closed => exact Or.inr rfl

/-- Ann disconnects after her message, and the two calls return. -/
def messageThenDisconnect : List (services Config.plain).Event :=
  messageSent ++ [.env (.handleDisconnect 0), .resume 2 .done, .resume 2 .done, .resume 3 .done,
    .resume 3 .done]

theorem streams_released_after_message :
    ∃ σ : (services Config.plain).Sys,
      Service.run (start Config.plain) messageThenDisconnect = some σ ∧
      σ.shared.sockets.length = 1 ∧ Released σ.shared 0 := by
  have hrun : (Service.runIf Orderly (start Config.plain) messageThenDisconnect).map
      (fun σ : (services Config.plain).Sys => decide (
        σ.shared.sockets.length = 1 ∧ σ.shared.online 0 = false ∧
        (∀ pid < σ.shared.calls.length,
          (σ.shared.calls[pid]?).any (Request.ofClient 0) = true → σ.pending pid = none) ∧
        ∀ t ∈ σ.shared.sockets, t.client = 0 → t.phase ≠ .connecting)) =
      some true := by decide +kernel
  obtain ⟨σ, hσ, hend⟩ := Option.map_eq_some_iff.mp hrun
  obtain ⟨hlen, hoff, hhandlers, hsockets⟩ := of_decide_eq_true hend
  exact ⟨σ, Service.run_of_runIf hσ, hlen, streams_released Config.plain σ
    (Service.reaches_of_runIf hσ) 0 hoff (atRest_of_bounded hhandlers hsockets)⟩

/-- Ann disconnects while her socket is connecting, and then it connects. -/
def disconnectThenConnected : List (services Config.plain).Event :=
  containerStarted ++
  [.env (.handleConnection (some (js "ann")) none), .call (.handleLSPConnect 0 (js "0")),
    .resume 2 .done, .resume 2 .done, .resume 2 .done, .env (.handleDisconnect 0),
    .resume 2 .done, .resume 2 .done, .env (.tcpConnected 0)]

/-- The client is gone and nothing of it runs, but it has an entry and an open stream. -/
theorem stream_survives_disconnect :
    ∃ (σ : (services Config.plain).Sys) (entry : ClientSession) (t : TcpSocket),
      Service.Reaches Service.anyEvent (start Config.plain) σ ∧ σ.shared.online 0 = false ∧
      AtRest σ 0 ∧ σ.shared.clientSessions 0 = some entry ∧ σ.shared.sockets[0]? = some t ∧
      t.client = 0 ∧ t.ended = false ∧ t.phase = .connected ∧ ¬ Released σ.shared 0 := by
  have hrun : (Service.run (start Config.plain) disconnectThenConnected).map
      (fun σ : (services Config.plain).Sys => decide (
        σ.shared.online 0 = false ∧
        (∀ pid < σ.shared.calls.length,
          (σ.shared.calls[pid]?).any (Request.ofClient 0) = true → σ.pending pid = none) ∧
        (∀ t ∈ σ.shared.sockets, t.client = 0 → t.phase ≠ .connecting) ∧
        (σ.shared.clientSessions 0).isSome = true ∧
        (σ.shared.sockets[0]?).map (fun t => (t.client, t.ended, t.phase)) =
          some (0, false, .connected))) =
      some true := by decide +kernel
  obtain ⟨σ, hσ, hend⟩ := Option.map_eq_some_iff.mp hrun
  obtain ⟨hoff, hhandlers, hsockets, hentry, hsocket⟩ := of_decide_eq_true hend
  obtain ⟨entry, hentry⟩ := Option.isSome_iff_exists.mp hentry
  obtain ⟨t, ht, hx⟩ := Option.map_eq_some_iff.mp hsocket
  simp only [Prod.mk.injEq] at hx
  obtain ⟨hclient, hended, hphase⟩ := hx
  refine ⟨σ, entry, t, Service.reaches_of_run hσ fun _ _ _ => trivial, hoff,
    atRest_of_bounded hhandlers hsockets, hentry, ht, hclient, hended, hphase, fun hr => ?_⟩
  cases hr.entry.symm.trans hentry

/-! ### What a client is sent -/

/-- No string of the message in the frame names the workspace root. -/
def NamesNothing (T : NumText N) (workspaceRoot : JsString) (rawMessage : Bytes) : Prop :=
  ∀ message ∈ LspMessage.parse T (utf8Decode rawMessage), ∀ s ∈ strValues (.obj message),
    ¬ NamesRoot workspaceRoot s

instance (T : NumText N) (workspaceRoot : JsString) (rawMessage : Bytes) :
    Decidable (NamesNothing T workspaceRoot rawMessage) :=
  inferInstanceAs (Decidable (∀ message ∈ LspMessage.parse T (utf8Decode rawMessage),
    ∀ s ∈ strValues (.obj message), ¬ NamesRoot workspaceRoot s))

/-- The client reads the message of the frame with its URIs rewritten by the root. -/
def Rewritten (T : NumText N) (workspaceRoot : JsString) (rawMessage : Bytes) (message : JsString) :
    Prop :=
  LspMessage.parse T message =
    (LspMessage.parse T (utf8Decode rawMessage)).map (clientView workspaceRoot)

theorem rewritten_of_namesNothing {T : NumText N} {workspaceRoot : JsString} {rawMessage : Bytes}
    (h : NamesNothing T workspaceRoot rawMessage) (currentSession : Option JsString) :
    Rewritten T workspaceRoot rawMessage (lspMessage T currentSession rawMessage) := by
  rw [Rewritten, lspMessage_eq]
  cases hp : LspMessage.parse T (utf8Decode rawMessage) with
  | none => rfl
  | some message =>
    exact congrArg some ((clientView_eq_self_iff _ _).mpr (Or.inr (h message hp))).symm

/-- There is nothing to rewrite in the frames that a chunk completes. -/
def World.unnamed (C : Config N) (s : World) : Env → Prop
  | .tcpData n chunk => ∀ t ∈ s.sockets[n]?, ∀ raw ∈ (responseCutter.drain (t.buffer ++ chunk)).emitted,
      NamesNothing C.numbers t.workspaceRoot raw
  | _ => True

instance : Decidable (s.unnamed C e) := by
  unfold World.unnamed
  split <;> infer_instance

/-- No attempt meets another one, and there is nothing to rewrite. -/
def Unmixed (σ : (services C).Sys) (e : (services C).Event) : Prop :=
  match e with
  | .env e => σ.shared.unrivalled e ∧ σ.shared.unnamed C e
  | _ => True

instance (σ : (services C).Sys) (e : (services C).Event) : Decidable (Unmixed σ e) := by
  unfold Unmixed
  split <;> infer_instance

/-- The message came from the stream that was registered for the client, and was
rewritten with the root of the session of that stream. -/
structure Relayed (C : Config N) (s : World) (d : Delivery) (t : TcpSocket) : Prop where
  socket : s.socket? d.socket = some t
  client : t.client = d.client
  registered : d.currentSession = some (t.entry d.socket)
  root : t.workspaceRoot = sessionRoot t.sessionId
  rewritten : Rewritten C.numbers t.workspaceRoot d.rawMessage d.message

/-- Whatever has been sent was relayed. -/
def AllRelayed (C : Config N) (s : World) : Prop := ∀ d ∈ s.delivered, ∃ t, Relayed C s d t

theorem AllRelayed.mono (h : AllRelayed C s) (ha : Advances s s') (hd : s'.delivered = s.delivered) :
    AllRelayed C s' := by
  intro d hmem
  obtain ⟨t, ht⟩ := h d (hd ▸ hmem)
  exact ⟨t, ha.sockets _ _ ht.socket, ht.client, ht.registered, ht.root, ht.rewritten⟩

theorem allRelayed_act {may : Nat → Cmd → Reply → World → Prop} (hJ : AllRelayed C s)
    (h : Act C may pid c s s') : AllRelayed C s' := by
  have ha := h.advances
  cases h with
  | perform cmd r x s' called need allowed eq => exact hJ.mono ha (still_perform eq).delivered
  | compute o called need => exact hJ.mono ha (gateway_compute o).2.2

theorem allRelayed_accept (hJ : AllRelayed C s) (h : World.accept pid c s = some s') :
    AllRelayed C s' := by
  have ha := advances_accept h
  obtain ⟨tasks, -, rfl⟩ := accept_still h
  exact hJ.mono ha rfl

theorem delivered_receive {t : TcpSocket} {chunk : Bytes} {d : Delivery}
    (h : d ∈ (s.receive C n t chunk).delivered) : d ∈ s.delivered ∨ s.online t.client = true ∧
      ∃ raw ∈ (responseCutter.drain (t.buffer ++ chunk)).emitted,
        d = delivery C t n (s.clientSessions t.client) raw := by
  unfold World.receive at h
  split at h
  · rename_i honline
    rcases List.mem_append.mp h with h | h
    · exact Or.inl h
    · obtain ⟨raw, hraw, rfl⟩ := List.mem_map.mp h
      exact Or.inr ⟨honline, raw, hraw, rfl⟩
  · exact Or.inl h

theorem allRelayed_env (hs : Sound C s) (hr : Registered s) (hJ : AllRelayed C s)
    (hu : s.unnamed C e) (h : World.env C e s = some s') : AllRelayed C s' := by
  have ha := (aside_env h).advances
  cases env_cases h with
  | tcpData n chunk t found connected =>
    intro d hd
    rcases delivered_receive hd with hd | ⟨honline, raw, hraw, rfl⟩
    · obtain ⟨t', ht'⟩ := hJ d hd
      exact ⟨t', ha.sockets _ _ ht'.socket, ht'.client, ht'.registered, ht'.root, ht'.rewritten⟩
    · have hmade : s.socket? n = some t.made := by
        rw [World.socket?, found]
        rfl
      exact ⟨t.made, ha.sockets _ _ hmade, rfl, hr n t found connected honline,
        (hs.gated.sockets n _ hmade).root, rewritten_of_namesNothing (hu t found raw hraw) _⟩
  | handleDisconnect client online =>
    refine hJ.mono ha ?_
    unfold World.handleDisconnect
    cases s.clientSessions client with
    | none => rfl
    | some session => rfl
  | _ => exact hJ.mono ha rfl

/-! ### After a new connection -/

/-- Only the listeners change the registry. -/
theorem clientSessions_acts {may : Nat → Cmd → Reply → World → Prop}
    (h : Relation.ReflTransGen (Act C may pid c) s s') : s'.clientSessions = s.clientSessions := by
  induction h with
  | refl => rfl
  | tail _ ha ih =>
    refine Eq.trans ?_ ih
    cases ha with
    | perform cmd r x s' called need allowed eq => exact (still_perform eq).clientSessions
    | compute o called need => exact (gateway_compute o).2.1

theorem entry_env {client : Nat} {entry : ClientSession} (hu : s.unrivalled e)
    (h : World.env C e s = some s') (hentry : s.clientSessions client = some entry)
    (hne : s'.clientSessions client ≠ some entry) :
    e = .tcpClose entry.stream ∨ e = .handleDisconnect client := by
  cases env_cases h with
  | handleDisconnect client' online =>
    by_cases hc : client = client'
    · exact Or.inr (hc ▸ rfl)
    · refine absurd ?_ hne
      cases disconnect_cases s client' with
      | idle clients none entries sockets => rwa [entries]
      | ends session clients found entries sockets =>
        rwa [entries, Function.update_of_ne hc]
  | tcpConnected n t found connecting =>
    by_cases hc : client = t.client
    · subst hc
      have hnone : s.clientSessions t.client = none := (rival_eq found).symm.trans hu
      cases hentry.symm.trans hnone
    · exact absurd ((Function.update_of_ne hc _ _).trans hentry) hne
  | tcpData n chunk t found connected =>
    refine absurd ?_ hne
    obtain ⟨delivered, he⟩ := receive_eq (C := C) s n t chunk
    rwa [he]
  | tcpClose n t found open_ =>
    by_cases hc : client = t.client
    · subst hc
      have hstream : entry.stream = n := hu entry ((rival_eq found).trans hentry)
      exact Or.inl (hstream ▸ rfl)
    · exact absurd ((Function.update_of_ne hc _ _).trans hentry) hne
  | _ => exact absurd hentry hne

/-- While attempts do not meet, an entry is changed only by its own stream or by the
disconnect. -/
theorem entry_step {σ σ' : (services C).Sys} {e : (services C).Event} {client : Nat}
    {entry : ClientSession} (hs : Stepped ok σ e σ')
    (hu : ∀ e', e = .env e' → σ.shared.unrivalled e')
    (hentry : σ.shared.clientSessions client = some entry)
    (hne : σ'.shared.clientSessions client ≠ some entry) :
    e = .env (.tcpClose entry.stream) ∨ e = .env (.handleDisconnect client) := by
  have hcall : ∀ c, σ.caller e ≠ some c := by
    intro c hc
    refine hne ?_
    obtain ⟨pid, s, ha, hacts⟩ := hs.acts hc
    rw [clientSessions_acts hacts]
    rcases ha with rfl | ha
    · exact hentry
    · rwa [(unaffected_accept ha).clientSessions]
  have hstep := hs.step
  cases e with
  | call c => exact absurd rfl (hcall c)
  | resume pid r =>
    obtain ⟨c, d, k, x, s, hget, -, -⟩ := Service.step_resume hstep
    refine absurd ?_ (hcall c)
    show (σ.procs[pid]?).map Service.Proc.call = some c
    rw [hget]
    rfl
  | env e =>
    obtain ⟨s, he, rfl⟩ := Service.step_env hstep
    rcases entry_env (hu e rfl) he hentry hne with rfl | rfl
    · exact Or.inl rfl
    · exact Or.inr rfl
  | kill pid =>
    obtain ⟨p, -, -, rfl⟩ := Service.step_kill hstep
    exact absurd hentry hne

/-- **Streams and the registry agree**, in a run in which no attempt of a client meets
another one and no frame names what would have to be rewritten: a message for a client
came from the stream registered for it, rewritten with the root of that stream's
session, and an entry goes only with its own stream or with the client. -/
theorem streams_consistent (C : Config N) (σ : (services C).Sys)
    (h : Service.Reaches Unmixed (start C) σ) :
    (∀ d ∈ σ.shared.delivered, ∃ t, Relayed C σ.shared d t) ∧
    ∀ e σ' client entry, Unmixed σ e → Service.step σ e = some σ' →
      σ.shared.clientSessions client = some entry → σ'.shared.clientSessions client ≠ some entry →
        e = .env (.tcpClose entry.stream) ∨ e = .env (.handleDisconnect client) := by
  have hboth : Registered σ.shared ∧ AllRelayed C σ.shared := by
    refine @shared_of_reaches N C Unmixed (fun s => Registered s ∧ AllRelayed C s) ?_
      (fun _ hJ _ ha => ⟨registered_act hJ.1 ha, allRelayed_act hJ.2 ha⟩)
      (fun _ hJ _ ha => ⟨registered_accept hJ.1 ha, allRelayed_accept hJ.2 ha⟩)
      (fun hs hJ hok he => ⟨registered_env hs hJ.1 hok.1 he, allRelayed_env hs hJ.1 hJ.2 hok.2 he⟩) _ h
    exact ⟨fun _ _ ht => (by cases ht), fun _ hd => (by cases hd)⟩
  refine ⟨hboth.2, fun e σ' client entry hok hstep hentry hne => ?_⟩
  refine entry_step (stepped_of_reaches h hok hstep) ?_ hentry hne
  rintro e' rfl
  exact hok.1

/-- The container answers ann's message. -/
def answerSent : List (services Config.plain).Event :=
  messageSent ++ [.env (.tcpData 0 (utf8Encode (js "Content-Length: 7\r\n\r\n\x7b\"a\":1\x7d")))]

theorem streams_consistent_answered :
    ∃ (σ : (services Config.plain).Sys) (d : Delivery) (t : TcpSocket),
      Service.run (start Config.plain) answerSent = some σ ∧ σ.shared.delivered = [d] ∧
      Relayed Config.plain σ.shared d t := by
  have hrun : (Service.runIf Unmixed (start Config.plain) answerSent).map
      (fun σ : (services Config.plain).Sys => σ.shared.delivered.length) = some 1 := by decide +kernel
  obtain ⟨σ, hσ, hlen⟩ := Option.map_eq_some_iff.mp hrun
  obtain ⟨d, hd⟩ := List.length_eq_one_iff.mp hlen
  have hr := Service.reaches_of_runIf hσ
  obtain ⟨t, ht⟩ := (streams_consistent Config.plain σ hr).1 d
    (by rw [hd]; exact List.mem_singleton_self _)
  exact ⟨σ, d, t, Service.run_of_runIf hσ, hd, ht⟩

/-- Ann's client asks for a second connection before the first one is there; the first
connects, and the second fails. -/
def secondAttemptFails : List (services Config.plain).Event :=
  containerStarted ++
  [.env (.handleConnection (some (js "ann")) none), .call (.handleLSPConnect 0 (js "0")),
    .resume 2 .done, .resume 2 .done, .resume 2 .done, .call (.handleLSPConnect 0 (js "0")),
    .resume 3 .done, .resume 3 .done, .resume 3 .done, .env (.tcpConnected 0), .env (.tcpError 1)]

/-- The close of the second socket removes the entry of the first, which is connected. -/
theorem entry_removed_by_failed_attempt :
    ∃ (σ σ' : (services Config.plain).Sys) (entry : ClientSession) (t : TcpSocket),
      Service.Reaches Service.anyEvent (start Config.plain) σ ∧
      σ.shared.clientSessions 0 = some entry ∧ entry.stream = 0 ∧
      σ'.shared.sockets[0]? = some t ∧ t.phase = .connected ∧ σ'.shared.online 0 = true ∧
      Service.step σ (.env (.tcpClose 1)) = some σ' ∧ σ'.shared.clientSessions 0 = none := by
  have hrun : ((Service.run (start Config.plain) secondAttemptFails).bind
      fun σ : (services Config.plain).Sys =>
        (Service.step σ (.env (.tcpClose 1))).map fun σ' => (σ, σ')).map (fun x => decide (
          (x.1.shared.clientSessions 0).map ClientSession.stream = some 0 ∧
          (x.2.shared.sockets[0]?).map TcpSocket.phase = some .connected ∧
          x.2.shared.online 0 = true ∧ x.2.shared.clientSessions 0 = none)) = some true := by
    decide +kernel
  obtain ⟨⟨σ, σ'⟩, hσ, hend⟩ := Option.map_eq_some_iff.mp hrun
  obtain ⟨hentry, hsocket, honline, hnone⟩ := of_decide_eq_true hend
  obtain ⟨σ₀, hσ₀, hmap⟩ := Option.bind_eq_some_iff.mp hσ
  obtain ⟨σ₁, hstep, he⟩ := Option.map_eq_some_iff.mp hmap
  obtain ⟨rfl, rfl⟩ := Prod.mk.inj he
  obtain ⟨entry, hentry, hstream⟩ := Option.map_eq_some_iff.mp hentry
  obtain ⟨t, ht, hphase⟩ := Option.map_eq_some_iff.mp hsocket
  exact ⟨σ₀, σ₁, entry, t, Service.reaches_of_run hσ₀ fun _ _ _ => trivial, hentry, hstream, ht,
    hphase, honline, hstep, hnone⟩

end FullstackSvc.LanguageServer
