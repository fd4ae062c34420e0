import FullstackSvc.Async.Early
import FullstackSvc.LanguageServer.Streams

/-!
# The gateway as a relay

Every socket has its own `LspResponseBuffer`, and every message of a client is written in
the turn in which it arrives.  So whatever the other processes do in between, each stream
is relayed in its order.

* `Heard`: the buffer of a socket and the frames that it has delivered are those of the
  chunks that have come in on it.
* `frames_relayed`: **a client is sent the frames of its container**, each once and in
  their order, as long as it is there.
* `messages_relayed`: **a container is sent the messages of its client**, each once and in
  the order in which they arrive.
-/

namespace FullstackSvc.LanguageServer

open Text Async FullstackSvc.Stream FullstackSvc.Lsp FullstackSvc.Store

variable {N : Type} {C : Config N} {s s' : World} {pid n : Nat}

/-! ### From a container to its client -/

/-- The chunk that an event brings in on a socket. -/
def chunkOn (n : Nat) : (services C).Event → Option Bytes
  | .env (.tcpData m chunk) => if m = n then some chunk else none
  | _ => none

/-- The chunks that a socket has received. -/
def chunksOf (es : List (services C).Event) (n : Nat) : List Bytes := es.filterMap (chunkOn n)

/-- The frames that a socket has delivered. -/
def World.framesOf (s : World) (n : Nat) : List Bytes :=
  (s.delivered.filter fun d => d.socket = n).map Delivery.rawMessage

/-- A socket after these chunks. -/
structure Decoded (s : World) (chunks : List Bytes) (n : Nat) (t : TcpSocket) : Prop where
  buffer : t.buffer = (responseCutter.feedAll [] chunks).buffer
  frames : s.framesOf n <+: (responseCutter.feedAll [] chunks).emitted
  online : s.online t.client = true → s.framesOf n = (responseCutter.feedAll [] chunks).emitted

/-- What is sent to a client is what the listener of `'message'` makes of a frame.  The
transformer throws on a `Buffer` and hands it back, so this is the frame as it stands
(`Delivery.Rewritten.text`). -/
def Delivery.Rewritten (C : Config N) (d : Delivery) : Prop :=
  d.message = lspMessage C.numbers (d.currentSession.map ClientSession.workspaceRoot) d.rawMessage

/-- **No URI is rewritten**: the text that is sent is that of the frame. -/
theorem Delivery.Rewritten.text {d : Delivery} (h : d.Rewritten C) :
    d.message = utf8Decode d.rawMessage :=
  h.trans (lspMessage_eq C.numbers _ d.rawMessage)

structure Heard (C : Config N) (chunks : Nat → List Bytes) (s : World) : Prop where
  unopened : ∀ n, s.sockets.length ≤ n → chunks n = []
  deliveries : ∀ d ∈ s.delivered, d.Rewritten C ∧
    ∃ t, s.sockets[d.socket]? = some t ∧ d.client = t.client
  sockets : ∀ (n : Nat) t, s.sockets[n]? = some t → Decoded s (chunks n) n t

/-- What a step does that receives nothing. -/
structure Unheard (s s' : World) : Prop where
  delivered : s'.delivered = s.delivered
  kept : ∀ (n : Nat) t, s.sockets[n]? = some t → ∃ t', s'.sockets[n]? = some t' ∧
    t'.client = t.client ∧ t'.buffer = t.buffer ∧
      (s'.online t.client = true → s.online t.client = true)
  opened : ∀ (n : Nat) t', s'.sockets[n]? = some t' → s.sockets.length ≤ n → t'.buffer = []

variable {chunks : Nat → List Bytes}

theorem framesOf_of_delivered (h : s'.delivered = s.delivered) : s'.framesOf n = s.framesOf n := by
  rw [World.framesOf, World.framesOf, h]

/-- A socket that is not there has delivered nothing. -/
theorem Heard.framesOf_eq_nil (h : Heard C chunks s) (hn : s.sockets.length ≤ n) :
    s.framesOf n = [] := by
  rw [World.framesOf, List.map_eq_nil_iff, List.filter_eq_nil_iff]
  intro d hd he
  obtain ⟨-, t, ht, -⟩ := h.deliveries d hd
  have hlt := (List.getElem?_eq_some_iff.mp ht).1
  have := of_decide_eq_true he
  omega

theorem Heard.unheard (h : Heard C chunks s) (hu : Unheard s s') : Heard C chunks s' := by
  have hlen : s.sockets.length ≤ s'.sockets.length := by
    by_contra hlt
    have hget := List.getElem?_eq_getElem (l := s.sockets) (i := s'.sockets.length) (by omega)
    obtain ⟨t', ht', -⟩ := hu.kept _ _ hget
    have := (List.getElem?_eq_some_iff.mp ht').1
    omega
  refine ⟨fun m hm => h.unopened m (by omega), fun d hd => ?_, fun m t' ht' => ?_⟩
  · obtain ⟨hd, t, ht, hc⟩ := h.deliveries d (hu.delivered ▸ hd)
    obtain ⟨t', ht', hclient, -⟩ := hu.kept _ _ ht
    exact ⟨hd, t', ht', hc.trans hclient.symm⟩
  · rcases Nat.lt_or_ge m s.sockets.length with hlt | hge
    · obtain ⟨t₁, ht₁, hclient, hbuffer, honline⟩ :=
        hu.kept m _ (List.getElem?_eq_getElem hlt)
      obtain rfl := Option.some.inj (ht'.symm.trans ht₁)
      have hold := h.sockets m _ (List.getElem?_eq_getElem hlt)
      refine ⟨hbuffer.trans hold.buffer, ?_, fun hon => ?_⟩
      · rw [framesOf_of_delivered hu.delivered]
        exact hold.frames
      · rw [framesOf_of_delivered hu.delivered]
        exact hold.online (honline (hclient ▸ hon))
    · have hframes : s'.framesOf m = [] := by
        rw [framesOf_of_delivered hu.delivered]
        exact h.framesOf_eq_nil hge
      rw [h.unopened m hge]
      exact ⟨hu.opened m t' ht' hge, by rw [hframes]; exact List.nil_prefix, fun _ => hframes⟩

/-- A step that leaves the sockets alone. -/
theorem Unheard.of_eq (hd : s'.delivered = s.delivered) (hc : s'.clients = s.clients)
    (hs : s'.sockets = s.sockets) : Unheard s s' := by
  refine ⟨hd, fun m t ht => ⟨t, hs ▸ ht, rfl, rfl, fun hon => ?_⟩, fun m t' ht' hm => ?_⟩
  · rwa [World.online, hc] at hon
  · have := (List.getElem?_eq_some_iff.mp ht').1
    rw [hs] at this
    omega

/-- A change of one socket that keeps its client and its buffer. -/
theorem Unheard.of_modify {f : TcpSocket → TcpSocket} (hd : s'.delivered = s.delivered)
    (hs : s'.sockets = s.sockets.modify n f) (hclient : ∀ t, (f t).client = t.client)
    (hbuffer : ∀ t, (f t).buffer = t.buffer)
    (honline : ∀ client, s'.online client = true → s.online client = true) : Unheard s s' := by
  refine ⟨hd, fun m t ht => ?_, fun m t' ht' hm => ?_⟩
  · by_cases hm : n = m
    · subst hm
      refine ⟨f t, ?_, hclient t, hbuffer t, honline _⟩
      rw [hs, List.getElem?_modify_eq, ht]
      rfl
    · refine ⟨t, ?_, rfl, rfl, honline _⟩
      rw [hs, List.getElem?_modify_ne _ _ hm]
      exact ht
  · have := (List.getElem?_eq_some_iff.mp ht').1
    rw [hs, List.length_modify] at this
    omega

theorem unheard_perform {cmd : Cmd} {r : Reply} {x : Except JsError (sig.Res cmd)}
    (h : perform pid cmd r s = some (x, s')) : Unheard s s' :=
  have hst := still_perform h
  .of_eq hst.delivered hst.clients hst.sockets

theorem unheard_compute (o : Op) : Unheard s (compute C pid o s).2 := by
  have hgateway : (compute C pid o s).2.clients = s.clients ∧ _ := gateway_compute o
  have hsockets : (compute C pid o s).2.sockets = s.sockets ∨ _ := sockets_compute o
  obtain ⟨hclients, -, hdelivered⟩ := hgateway
  rcases hsockets with hs | ⟨client, sid, u, root, k, -, hs⟩
  · exact .of_eq hdelivered hclients hs
  · refine ⟨hdelivered, fun m t ht => ⟨t, ?_, rfl, rfl, fun hon => ?_⟩, fun m t' ht' hm => ?_⟩
    · rw [hs, List.getElem?_append_left (List.getElem?_eq_some_iff.mp ht).1]
      exact ht
    · rwa [World.online, hclients] at hon
    · rw [hs] at ht'
      rcases getElem?_concat_cases ht' with hold | ⟨-, rfl⟩
      · have := (List.getElem?_eq_some_iff.mp hold).1
        omega
      · rfl

theorem online_disconnect_of {client client' : Nat}
    (h : (s.handleDisconnect client).online client' = true) : s.online client' = true := by
  cases disconnect_cases s client with
  | idle hclients hnone entries sockets => exact (online_disconnect hclients h).2
  | ends session hclients found entries sockets => exact (online_disconnect hclients h).2

/-- **What comes from outside**, other than bytes. -/
theorem unheard_env {e : Env} (hs : Sound C s) (he : ∀ m chunk, e ≠ .tcpData m chunk)
    (h : World.env C e s = some s') : Unheard s s' := by
  cases env_cases h with
  | tcpData m chunk t found connected => exact absurd rfl (he m chunk)
  | handleConnection authToken authorization userId =>
    refine ⟨rfl, fun m t ht => ⟨t, ht, rfl, rfl, fun hon => ?_⟩, fun m t' ht' hm => ?_⟩
    · have hlt := client_lt hs ht
      rw [World.online] at hon ⊢
      rwa [List.getElem?_append_left hlt] at hon
    · exact absurd (List.getElem?_eq_some_iff.mp ht').1 (Nat.not_lt_of_le hm)
  | handleDisconnect client online =>
    have hon : ∀ client', (s.handleDisconnect client).online client' = true →
        s.online client' = true := fun _ => online_disconnect_of
    have hdelivered : (s.handleDisconnect client).delivered = s.delivered := by
      unfold World.handleDisconnect
      cases s.clientSessions client with
      | none => rfl
      | some session => rfl
    cases disconnect_cases s client with
    | idle hclients hnone entries sockets =>
      refine .of_modify (n := s.sockets.length) (f := id) hdelivered ?_ (fun _ => rfl)
        (fun _ => rfl) hon
      rw [sockets, List.modify_id]
    | ends session hclients found entries sockets =>
      exact .of_modify hdelivered sockets (fun _ => rfl) (fun _ => rfl) hon
  | tcpConnected m t found connecting =>
    exact .of_modify (n := m) rfl rfl (fun _ => rfl) (fun _ => rfl) fun _ hon => hon
  | tcpClose m t found opened =>
    exact .of_modify (n := m) rfl rfl (fun _ => rfl) (fun _ => rfl) fun _ hon => hon
  | tick ms => exact .of_eq rfl rfl rfl
  | workerExit up => exact .of_eq rfl rfl rfl
  | workerInit down => exact .of_eq rfl rfl rfl
  | containerExits m k found running => exact .of_eq rfl rfl rfl
  | turnedAway authToken authorization => exact .of_eq rfl rfl rfl
  | tcpError m t found => exact .of_eq rfl rfl rfl

/-! #### A chunk comes in -/

/-- What the listener of `'data'` delivers. -/
theorem delivered_eq_receive (s : World) (n : Nat) (t : TcpSocket) (chunk : Bytes) :
    (s.receive C n t chunk).delivered = s.delivered ++
      if s.online t.client then
        (responseCutter.feed t.buffer chunk).emitted.map (delivery C t n (s.clientSessions t.client))
      else [] := by
  unfold World.receive
  by_cases hon : s.online t.client = true
  · rw [if_pos hon, if_pos hon]
    rfl
  · rw [if_neg hon, if_neg hon, List.append_nil]
    rfl

theorem clients_receive (s : World) (n : Nat) (t : TcpSocket) (chunk : Bytes) :
    (s.receive C n t chunk).clients = s.clients := by
  obtain ⟨delivered, he⟩ := receive_eq (C := C) s n t chunk
  rw [he]

theorem sockets_receive (s : World) (n : Nat) (t : TcpSocket) (chunk : Bytes) :
    (s.receive C n t chunk).sockets = s.sockets.modify n fun t' =>
      { t' with buffer := (responseCutter.feed t.buffer chunk).buffer } := by
  obtain ⟨delivered, he⟩ := receive_eq (C := C) s n t chunk
  rw [he]
  rfl

/-- The frames that a socket has delivered after a chunk on some socket. -/
theorem framesOf_receive (s : World) (n m : Nat) (t : TcpSocket) (chunk : Bytes) :
    (s.receive C n t chunk).framesOf m = s.framesOf m ++
      if n = m ∧ s.online t.client = true then (responseCutter.feed t.buffer chunk).emitted
      else [] := by
  rw [World.framesOf, delivered_eq_receive, List.filter_append, List.map_append]
  congr 1
  by_cases hon : s.online t.client = true
  · rw [if_pos hon]
    by_cases hm : n = m
    · rw [if_pos ⟨hm, hon⟩, List.filter_eq_self.mpr, List.map_map]
      · exact List.map_id _
      · intro d hd
        obtain ⟨raw, -, rfl⟩ := List.mem_map.mp hd
        exact decide_eq_true hm
    · rw [if_neg fun h => hm h.1, List.map_eq_nil_iff, List.filter_eq_nil_iff]
      intro d hd he
      obtain ⟨raw, -, rfl⟩ := List.mem_map.mp hd
      exact hm (of_decide_eq_true he)
  · rw [if_neg hon, if_neg fun h => hon h.2]
    rfl

/-- **A chunk**: the decoder of its socket goes on. -/
theorem Heard.receive (h : Heard C chunks s) {t : TcpSocket} (ht : s.sockets[n]? = some t)
    (chunk : Bytes) {chunks' : Nat → List Bytes} (hn : chunks' n = chunks n ++ [chunk])
    (hother : ∀ m, n ≠ m → chunks' m = chunks m) :
    Heard C chunks' (s.receive C n t chunk) := by
  have hlt := (List.getElem?_eq_some_iff.mp ht).1
  have honline : ∀ client, (s.receive C n t chunk).online client = s.online client := by
    intro client
    rw [World.online, clients_receive, ← World.online]
  refine ⟨fun m hm => ?_, fun d hd => ?_, fun m t' ht' => ?_⟩
  · rw [sockets_receive, List.length_modify] at hm
    rw [hother m (by omega)]
    exact h.unopened m hm
  · rw [delivered_eq_receive] at hd
    have hsocket : ∀ {m : Nat} {t₀ : TcpSocket}, s.sockets[m]? = some t₀ →
        ∃ t₁, (s.receive C n t chunk).sockets[m]? = some t₁ ∧ t₀.client = t₁.client := by
      intro m t₀ ht₀
      rw [sockets_receive]
      by_cases hm : n = m
      · subst hm
        refine ⟨{ t₀ with buffer := (responseCutter.feed t.buffer chunk).buffer }, ?_, rfl⟩
        rw [List.getElem?_modify_eq, ht₀]
        rfl
      · exact ⟨t₀, by rw [List.getElem?_modify_ne _ _ hm]; exact ht₀, rfl⟩
    rcases List.mem_append.mp hd with hd | hd
    · obtain ⟨hrewritten, t₀, ht₀, hc⟩ := h.deliveries d hd
      obtain ⟨t₁, ht₁, hc₁⟩ := hsocket ht₀
      exact ⟨hrewritten, t₁, ht₁, hc.trans hc₁⟩
    · split at hd
      · obtain ⟨raw, -, rfl⟩ := List.mem_map.mp hd
        obtain ⟨t₁, ht₁, hc₁⟩ := hsocket ht
        exact ⟨rfl, t₁, ht₁, hc₁⟩
      · cases hd
  · rw [sockets_receive] at ht'
    by_cases hm : n = m
    · subst hm
      rw [List.getElem?_modify_eq, ht] at ht'
      obtain rfl := Option.some.inj ht'
      have hold := h.sockets n t ht
      rw [hn]
      refine ⟨?_, ?_, fun hon => ?_⟩
      · rw [Cutter.feedAll_concat, ← hold.buffer]
      · rw [framesOf_receive, Cutter.feedAll_concat, ← hold.buffer]
        split
        · rename_i hboth
          have hframes := hold.online hboth.2
          exact ⟨[], by rw [hframes, List.append_nil]⟩
        · rw [List.append_nil]
          exact hold.frames.trans (List.prefix_append _ _)
      · rw [honline] at hon
        rw [framesOf_receive, if_pos ⟨rfl, hon⟩, hold.online hon, Cutter.feedAll_concat,
          ← hold.buffer]
    · rw [List.getElem?_modify_ne _ _ hm] at ht'
      have hold := h.sockets m t' ht'
      have hframes : (s.receive C n t chunk).framesOf m = s.framesOf m := by
        rw [framesOf_receive, if_neg fun hb => hm hb.1, List.append_nil]
      rw [hother m hm]
      refine ⟨hold.buffer, hframes ▸ hold.frames, fun hon => ?_⟩
      rw [honline] at hon
      rw [hframes]
      exact hold.online hon

/-! #### Every run -/

variable {es : List (services C).Event} {σ σ' : (services C).Sys}

theorem chunksOf_concat (es : List (services C).Event) (e : (services C).Event) (n : Nat) :
    chunksOf (es ++ [e]) n = chunksOf es n ++ (chunkOn n e).toList := by
  rw [chunksOf, List.filterMap_append]
  refine congrArg (chunksOf es n ++ ·) ?_
  cases h : chunkOn n e with
  | none => exact List.filterMap_cons_none h
  | some chunk => exact List.filterMap_cons_some h

/-- Other events bring no chunk. -/
theorem chunksOf_unheard {e : (services C).Event} (he : ∀ m chunk, e ≠ .env (.tcpData m chunk)) :
    chunksOf (es ++ [e]) = chunksOf es := by
  funext n
  have hnone : chunkOn n e = none := by
    cases e with
    | env e =>
      cases e with
      | tcpData m chunk => exact absurd rfl (he m chunk)
      | _ => rfl
    | _ => rfl
  rw [chunksOf_concat, hnone]
  exact List.append_nil _

/-- The steps of the processes. -/
theorem Heard.settle (h : Heard C chunks s) (pid : Nat) {α : Type} (p : Program α) :
    Heard C chunks (p.settle (host C) pid s).2 :=
  Prog.settle_inv (fun o _ hs => hs.unheard (unheard_compute o)) p s h

theorem heard_step {e : (services C).Event} (hs : Sound C σ.shared)
    (h : Heard C (chunksOf es) σ.shared) (hstep : Service.step σ e = some σ') :
    Heard C (chunksOf (es ++ [e])) σ'.shared := by
  cases e with
  | call c =>
    rw [chunksOf_unheard fun _ _ he => by cases he]
    obtain ⟨s, ha, rfl⟩ := Service.step_call hstep
    obtain ⟨tasks, -, rfl⟩ := accept_still (show World.accept σ.procs.length c σ.shared = some s from ha)
    have hcalled : Heard C (chunksOf es)
        { σ.shared with stopTasks := tasks, calls := σ.shared.calls ++ [c] } :=
      h.unheard (.of_eq rfl rfl rfl)
    exact hcalled.settle σ.procs.length ((services C).body c)
  | resume pid r =>
    rw [chunksOf_unheard fun _ _ he => by cases he]
    obtain ⟨c, d, k, x, s, -, hx, rfl⟩ := Service.step_resume hstep
    exact (h.unheard (unheard_perform hx)).settle pid (k x)
  | kill pid =>
    rw [chunksOf_unheard fun _ _ he => by cases he]
    obtain ⟨p, -, -, rfl⟩ := Service.step_kill hstep
    exact h
  | env e =>
    obtain ⟨s, he, rfl⟩ := Service.step_env hstep
    by_cases hdata : ∃ m chunk, e = .tcpData m chunk
    · obtain ⟨m, chunk, rfl⟩ := hdata
      have he : World.env C (.tcpData m chunk) σ.shared = some s := he
      cases env_cases he with
      | tcpData _ _ t found connected =>
        refine h.receive found chunk ?_ fun m' hm => ?_
        · rw [chunksOf_concat, chunkOn, if_pos rfl]
          rfl
        · rw [chunksOf_concat, chunkOn, if_neg hm]
          exact List.append_nil _
    · have hno : ∀ m chunk, e ≠ .tcpData m chunk := fun m chunk he => hdata ⟨m, chunk, he⟩
      rw [chunksOf_unheard fun m chunk he => hno m chunk (Service.Event.env.inj he)]
      exact h.unheard (unheard_env hs hno he)

theorem heard_of_run (h : Service.run (start C) es = some σ) :
    Service.Reaches Service.anyEvent (start C) σ ∧ Heard C (chunksOf es) σ.shared := by
  refine Service.run_induction (J := fun es σ => Service.Reaches Service.anyEvent (start C) σ ∧
    Heard C (chunksOf es) σ.shared) ⟨.refl, ?_⟩ ?_ h
  · exact ⟨fun _ _ => rfl, fun _ hd => absurd hd List.not_mem_nil, fun _ _ ht => by cases ht⟩
  · rintro es σ₁ e σ₂ ⟨hr, hJ⟩ hs
    exact ⟨hr.tail ⟨e, trivial, hs⟩, heard_step (holds_of_reaches hr).2.1 hJ hs⟩

/-- **A client is sent the frames of its container**, whatever else happens.  In every run
the frames that a socket has delivered are, each once and in their order, those that the
bytes it has received are cut into; all of them as long as its client is there, and then
they are with the rest in the buffer all the bytes.  Each was sent to the client of the
socket, as the text that it is: the gateway means to rewrite its URIs and does not. -/
theorem frames_relayed {es : List (services C).Event} {σ : (services C).Sys}
    (h : Service.run (start C) es = some σ) {n : Nat} {t : TcpSocket}
    (ht : σ.shared.sockets[n]? = some t) :
    σ.shared.framesOf n <+: (responseCutter.drain (chunksOf es n).flatten).emitted ∧
    t.buffer = (responseCutter.drain (chunksOf es n).flatten).buffer ∧
    (σ.shared.online t.client = true →
      σ.shared.framesOf n = (responseCutter.drain (chunksOf es n).flatten).emitted ∧
      (σ.shared.framesOf n).flatten ++ t.buffer = (chunksOf es n).flatten) ∧
    ∀ d ∈ σ.shared.delivered, d.socket = n →
      d.client = t.client ∧ d.Rewritten C ∧ d.message = utf8Decode d.rawMessage := by
  obtain ⟨-, hheard⟩ := heard_of_run h
  have hdecoded := hheard.sockets n t ht
  have hall := Cutter.feeds_conserves (Cutter.feeds_feedAll (C := responseCutter) (chunksOf es n))
  have hempty : responseCutter.drain [] = ⟨[], [], false⟩ := rfl
  obtain ⟨hemit, hbuffer, -⟩ := Cutter.feedAll_eq_drain hempty (chunksOf es n)
  rw [List.nil_append] at hemit hbuffer
  refine ⟨hemit ▸ hdecoded.frames, hbuffer ▸ hdecoded.buffer, fun hon => ⟨?_, ?_⟩,
    fun d hd hn => ?_⟩
  · rw [hdecoded.online hon, hemit]
  · rw [hdecoded.online hon, hdecoded.buffer]
    exact hall
  · obtain ⟨hrewritten, t', ht', hclient⟩ := hheard.deliveries d hd
    rw [hn, ht] at ht'
    obtain rfl := Option.some.inj ht'
    exact ⟨hclient, hrewritten, hrewritten.text⟩

/-- The container answers ann's message in two pieces. -/
def answeredInPieces : List (services Config.plain).Event :=
  messageSent ++ [.env (.tcpData 0 (utf8Encode (js "Content-Len"))),
    .env (.tcpData 0 (utf8Encode (js "gth: 7\r\n\r\n\x7b\"a\":1\x7dCont")))]

theorem frames_relayed_in_pieces :
    ∃ (σ : (services Config.plain).Sys) (t : TcpSocket),
      Service.run (start Config.plain) answeredInPieces = some σ ∧
      σ.shared.sockets[0]? = some t ∧ σ.shared.delivered.length = 1 ∧
      (σ.shared.framesOf 0).flatten ++ t.buffer = (chunksOf answeredInPieces 0).flatten := by
  have hrun : (Service.run (start Config.plain) answeredInPieces).map (fun σ =>
      (σ.shared.sockets.length, σ.shared.delivered.length,
        (σ.shared.sockets[0]?).map fun t => σ.shared.online t.client)) =
      some (1, 1, some true) := by decide +kernel
  obtain ⟨σ, hσ, hend⟩ := Option.map_eq_some_iff.mp hrun
  obtain ⟨-, hend⟩ := Prod.mk.inj hend
  obtain ⟨hlen, honline⟩ := Prod.mk.inj hend
  obtain ⟨t, ht, hon⟩ := Option.map_eq_some_iff.mp honline
  exact ⟨σ, t, hσ, ht, hlen, ((frames_relayed hσ ht).2.2.1 hon).2⟩

/-! ### From a client to its container -/

/-- No operation on a stream. -/
def Op.Dry (o : Op) : Prop := ∀ stream bytes, o ≠ .write stream bytes

section Programs

variable {sessionId userId : JsString}

/-- The program writes to no stream. -/
abbrev Dry {α : Type} (p : Program α) : Prop := p.Only Op.Dry

theorem dry_await (c : Cmd) : Dry (await c) := Prog.only_call (A := sig) c

theorem dry_sync {o : Op} (h : o.Dry) : Dry (sync o) := Prog.only_op h

theorem dry_emitError (client : Nat) (error : JsString) (code : Nat) :
    Dry (emitError client error code) := dry_sync nofun

theorem dry_writeFile (path : JsString) (bytes : Bytes) : Dry (writeFile path bytes) :=
  Prog.only_bind (dry_await _) fun _ => dry_await _

theorem dry_createSession : Dry (createSession userId) :=
  Prog.only_bind (dry_sync nofun) fun _ => Prog.only_bind (dry_sync nofun) fun _ =>
    Prog.only_bind (dry_await _) fun _ => trivial

theorem dry_renewSession : Dry (renewSession sessionId userId) := by
  refine Prog.only_bind (dry_await _) fun data => ?_
  cases data with
  | none => exact trivial
  | some sessionData =>
    show Dry (if _ then _ else _)
    split
    · exact trivial
    · exact dry_await _

theorem dry_updateLastActivity : Dry (updateLastActivity sessionId) := by
  refine Prog.only_bind (dry_await _) fun data => ?_
  cases data with
  | none => exact trivial
  | some sessionData => exact Prog.only_bind (dry_sync nofun) fun _ => dry_await _

theorem dry_writeBack (data : SessionData) : Dry (writeBack sessionId data) := by
  refine Prog.only_bind (dry_await _) fun ttl => ?_
  show Dry (if _ then _ else _)
  split
  · exact dry_await _
  · exact trivial

theorem dry_uploadFile (file : UploadedFile) : Dry (uploadFile C sessionId userId file) := by
  refine Prog.only_bind (dry_await _) fun found => ?_
  cases found with
  | none => exact trivial
  | some sessionData =>
    show Dry (if _ then _ else _)
    split
    · exact trivial
    · exact Prog.only_bind (dry_await _) fun _ => Prog.only_bind (dry_writeFile _ _) fun _ =>
        Prog.only_bind (dry_writeBack _) fun _ => trivial

theorem dry_startContainer : Dry (startContainer C sessionId) := by
  refine Prog.only_bind (dry_sync nofun) fun _ => Prog.only_bind (Prog.only_handle ?_ fun e =>
    Prog.only_bind (dry_sync nofun) fun _ => trivial) fun _ => dry_sync nofun
  refine Prog.only_bind (dry_await _) fun _ => Prog.only_bind (dry_await _) fun n =>
    Prog.only_bind (dry_await _) fun _ => Prog.only_bind (dry_sync nofun) fun _ =>
      Prog.only_bind (dry_await _) fun data => ?_
  cases data with
  | none => exact trivial
  | some sessionData => exact dry_writeBack _

theorem dry_scanKey (key : JsString) : Dry (scanKey C key) := by
  refine Prog.only_bind (dry_sync nofun) fun known => ?_
  show Dry (if _ then _ else _)
  split
  · exact trivial
  · refine Prog.only_bind (dry_await _) fun data => ?_
    cases data with
    | none => exact trivial
    | some sessionData =>
      refine Prog.only_handle ?_ fun _ => trivial
      cases sessionData.containerId with
      | none => exact dry_startContainer
      | some n => exact dry_sync nofun

theorem dry_scanKeys (keys : List JsString) : Dry (scanKeys C keys) := by
  induction keys with
  | nil => exact trivial
  | cons key keys ih => exact Prog.only_bind (dry_scanKey key) fun _ => ih

theorem dry_stopContainer (n : Nat) : Dry (stopContainer C n sessionId) := by
  refine Prog.only_bind (dry_sync nofun) fun _ => Prog.only_bind (Prog.only_handle ?_ fun _ =>
    trivial) fun _ => dry_sync nofun
  exact Prog.only_bind (dry_await _) fun _ => Prog.only_bind (dry_await _) fun _ =>
    Prog.only_handle (dry_await _) fun _ => trivial

theorem dry_deleteEntries (sessionIds : List JsString) : Dry (deleteEntries sessionIds) := by
  induction sessionIds with
  | nil => exact trivial
  | cons sid sids ih => exact Prog.only_bind (dry_sync nofun) fun _ => ih

theorem dry_cleanupFrom (place : Nat) (sessionsToClean : List JsString) (turns : Nat) :
    Dry (cleanupFrom C place sessionsToClean turns) := by
  induction turns generalizing place sessionsToClean with
  | zero => exact dry_await _
  | succ turns ih =>
    refine Prog.only_bind (dry_sync nofun) fun entry => ?_
    cases entry with
    | none => exact dry_deleteEntries sessionsToClean
    | some entry =>
      refine Prog.only_bind (dry_await _) fun found => ?_
      show Dry (if _ then _ else _)
      split
      · exact ih _ _
      · exact Prog.only_bind (dry_stopContainer _) fun _ => ih _ _

theorem dry_onModuleDestroy : Dry onModuleDestroy :=
  Prog.only_bind (dry_sync nofun) fun _ => Prog.only_bind (Prog.only_bind (dry_sync nofun) fun _ =>
    Prog.only_bind (dry_await _) fun _ => dry_sync nofun) fun _ => dry_await _

theorem dry_connectToContainer (client : Nat) (workspaceRoot : JsString) (n : Nat) :
    Dry (connectToContainer client sessionId userId workspaceRoot n) := by
  refine Prog.only_bind (dry_await _) fun address => ?_
  cases address with
  | none => exact dry_emitError _ _ _
  | some k => exact Prog.only_bind (dry_sync nofun) fun _ => dry_updateLastActivity

theorem dry_handleLSPConnect (client : Nat) : Dry (handleLSPConnect client sessionId) := by
  refine Prog.only_handle ?_ fun _ => dry_emitError _ _ _
  refine Prog.only_bind (dry_sync nofun) fun userId => Prog.only_bind
    (Prog.only_bind (dry_await _) fun _ => trivial) fun isOwner => ?_
  show Dry (if _ then _ else _)
  split
  · exact dry_emitError _ _ _
  · refine Prog.only_bind (dry_await _) fun session => ?_
    cases session with
    | none => exact dry_emitError _ _ _
    | some session =>
      simp only
      cases session.containerId with
      | none => exact dry_emitError _ _ _
      | some n =>
        show Dry (if _ then _ else _)
        split
        · exact dry_emitError _ _ _
        · exact dry_connectToContainer _ _ _

/-- A message is written before the first await. -/
theorem early_handleLSPMessage (client : Nat) (message : JsString) :
    (handleLSPMessage C client message).Early Op.Dry := by
  refine Prog.early_handle (Prog.early_op_bind fun session => ?_) fun _ => dry_emitError _ _ _
  cases session with
  | none => exact (dry_emitError _ _ _).early
  | some session => exact Prog.early_op_bind fun _ => dry_updateLastActivity.early

/-- Other requests write to no stream. -/
theorem dry_body (c : Request) (hc : ∀ client message, c ≠ .handleLSPMessage client message) :
    Dry ((services C).body c) := by
  cases c with
  | createSession userId => exact dry_createSession
  | renewSession sessionId userId => exact dry_renewSession
  | uploadFile sessionId userId file => exact dry_uploadFile file
  | handleLSPConnect client sessionId => exact dry_handleLSPConnect client
  | handleLSPMessage client message => exact absurd rfl (hc client message)
  | scanAndCreateContainers => exact Prog.only_bind (dry_await _) fun keys => dry_scanKeys keys
  | cleanupExpiredSessions turns => exact dry_cleanupFrom 0 [] turns
  | onModuleDestroy => exact dry_onModuleDestroy
  | stopTask n sessionId => exact Prog.only_bind (dry_stopContainer n) fun _ => dry_sync nofun

theorem early_body (c : Request) : ((services C).body c).Early Op.Dry := by
  by_cases hc : ∃ client message, c = .handleLSPMessage client message
  · obtain ⟨client, message, rfl⟩ := hc
    exact early_handleLSPMessage client message
  · exact (dry_body c fun client message he => hc ⟨client, message, he⟩).early

end Programs

/-- What an event has the gateway write: a message that arrives while the stream that is
registered for its client is open. -/
def forwardedAt (σ : (services C).Sys) : (services C).Event → Option StreamWrite
  | .call (.handleLSPMessage client message) =>
    (σ.shared.clientSessions client).bind fun session =>
      (σ.shared.sockets[session.stream]?).bind fun t =>
        if t.phase = .connected ∧ t.ended = false then
          some ⟨σ.procs.length, session.stream,
            utf8Encode (transformMessage C.numbers message session.workspaceRoot)⟩
        else none
  | _ => none

/-- What a schedule has it write. -/
def forwarded : (services C).Sys → List (services C).Event → List StreamWrite
  | _, [] => []
  | σ, e :: es =>
    match Service.step σ e with
    | none => []
    | some σ' => (forwardedAt σ e).toList ++ forwarded σ' es

/-- What is answered to a client that is not registered. -/
def notConnected (client : Nat) : Nat × ServerMessage :=
  (client, .lspError (js "Not connected") 400)

theorem writes_write (s : World) (pid stream : Nat) (bytes : Bytes) :
    (s.write pid stream bytes).writes = s.writes ++ ((s.sockets[stream]?).bind fun t =>
      if t.phase = .connected ∧ t.ended = false then some ⟨pid, stream, bytes⟩ else none).toList := by
  unfold World.write
  cases s.sockets[stream]? with
  | none => exact (List.append_nil _).symm
  | some t =>
    by_cases hopen : t.phase = .connected ∧ t.ended = false
    · simp only [Option.bind_some, if_pos hopen]
      rfl
    · simp only [Option.bind_some, if_neg hopen]
      exact (List.append_nil _).symm

/-- **The turn in which a message arrives.** -/
theorem turn_message (s : World) (pid client : Nat) (message : JsString) :
    (s.clientSessions client = none →
      ((handleLSPMessage C client message).settle (host C) pid s).2 =
        { s with emitted := s.emitted ++ [notConnected client] }) ∧
    ∀ session, s.clientSessions client = some session →
      ((handleLSPMessage C client message).settle (host C) pid s).2 = s.write pid session.stream
        (utf8Encode (transformMessage C.numbers message session.workspaceRoot)) := by
  unfold handleLSPMessage sync
  simp only [Prog.op, Prog.bind_eq, Prog.tryCatch_eq, Prog.bind, Prog.handle, Prog.settle, host,
    compute]
  refine ⟨fun hnone => ?_, fun session hsession => ?_⟩
  · rw [hnone]
    rfl
  · rw [hsession]
    rfl

/-- Every process has written what it will. -/
theorem dry_of_run (h : Service.Reaches Service.anyEvent (start C) σ) :
    ∀ p ∈ σ.procs, p.prog.Only Op.Dry :=
  have hnone : ∀ p ∈ (start C).procs, p.prog.Only Op.Dry := fun _ hp => by cases hp
  (h.strengthen (fun _ _ _ => Service.only_step early_body) hnone).1

theorem writes_compute {o : Op} (ho : o.Dry) (pid : Nat) (s : World) :
    (compute C pid o s).2.writes = s.writes := by
  cases o with
  | write stream bytes => exact absurd rfl (ho stream bytes)
  | _ => rfl

theorem writes_env {e : Env} (h : World.env C e s = some s') : s'.writes = s.writes :=
  (aside_env h).writes

/-- **Only a message that arrives is written**, and at once. -/
theorem writes_step {e : (services C).Event} (hdry : ∀ p ∈ σ.procs, p.prog.Only Op.Dry)
    (hs : Service.step σ e = some σ') :
    σ'.shared.writes = σ.shared.writes ++ (forwardedAt σ e).toList := by
  have hkeep : ∀ pid o s, Op.Dry o → ((host C).compute pid o s).2.writes = s.writes :=
    fun pid o s ho => writes_compute ho pid s
  cases e with
  | resume pid r =>
    exact (Service.keeps_resume (f := World.writes) hkeep (fun hx => (still_perform hx).writes)
      hdry hs).trans (List.append_nil _).symm
  | env e =>
    obtain ⟨s, he, rfl⟩ := Service.step_env hs
    exact (writes_env he).trans (List.append_nil _).symm
  | kill pid =>
    obtain ⟨p, -, -, rfl⟩ := Service.step_kill hs
    exact (List.append_nil _).symm
  | call c =>
    obtain ⟨s, ha, rfl⟩ := Service.step_call hs
    obtain ⟨tasks, -, rfl⟩ := accept_still (show World.accept σ.procs.length c σ.shared = some s from ha)
    by_cases hc : ∃ client message, c = .handleLSPMessage client message
    · obtain ⟨client, message, rfl⟩ := hc
      obtain ⟨hnone, hsome⟩ := turn_message (C := C)
        { σ.shared with
          stopTasks := tasks
          calls := σ.shared.calls ++ [.handleLSPMessage client message] }
        σ.procs.length client message
      show ((handleLSPMessage C client message).settle (host C) _ _).2.writes = _
      cases hsession : σ.shared.clientSessions client with
      | none =>
        rw [hnone hsession, forwardedAt, hsession]
        exact (List.append_nil _).symm
      | some session =>
        rw [hsome session hsession, forwardedAt, hsession]
        exact writes_write _ _ _ _
    · have hother : ∀ client message, c ≠ .handleLSPMessage client message :=
        fun client message he => hc ⟨client, message, he⟩
      have hnone : forwardedAt σ (.call c) = none := by
        cases c with
        | handleLSPMessage client message => exact absurd rfl (hother client message)
        | _ => rfl
      rw [hnone]
      exact (Prog.keeps_settle (f := World.writes) (hkeep _) _ _ (dry_body c hother)).trans
        (List.append_nil _).symm

theorem writes_run {es : List (services C).Event} :
    ∀ {σ σ' : (services C).Sys}, (∀ p ∈ σ.procs, p.prog.Only Op.Dry) →
      Service.run σ es = some σ' → σ'.shared.writes = σ.shared.writes ++ forwarded σ es := by
  induction es with
  | nil =>
    intro σ σ' hdry h
    obtain rfl := Option.some.inj h
    exact (List.append_nil _).symm
  | cons e es ih =>
    intro σ σ' hdry h
    rw [Service.run] at h
    rw [forwarded]
    cases hs : Service.step σ e with
    | none =>
      rw [hs] at h
      cases h
    | some σ₁ =>
      rw [hs] at h
      rw [ih (Service.only_step early_body hdry hs) h, writes_step hdry hs, List.append_assoc]

/-- A message that is forwarded is that of the process that arrives. -/
theorem length_step {e : (services C).Event} (hs : Service.step σ e = some σ') :
    σ.procs.length ≤ σ'.procs.length ∧ ∀ w, forwardedAt σ e = some w →
      w.pid = σ.procs.length ∧ σ.procs.length < σ'.procs.length := by
  cases e with
  | call c =>
    obtain ⟨s, -, rfl⟩ := Service.step_call hs
    have hlen : σ.procs.length < (σ.procs ++ [(Service.launch σ.procs.length c s).1]).length := by
      simp
    refine ⟨Nat.le_of_lt hlen, fun w hw => ⟨?_, hlen⟩⟩
    cases c with
    | handleLSPMessage client message =>
      obtain ⟨session, -, hw⟩ := Option.bind_eq_some_iff.mp hw
      obtain ⟨t, -, hw⟩ := Option.bind_eq_some_iff.mp hw
      split at hw
      · rw [← Option.some.inj hw]
      · cases hw
    | _ => cases hw
  | resume pid r =>
    obtain ⟨c, d, k, x, s, -, -, rfl⟩ := Service.step_resume hs
    refine ⟨by simp, fun w hw => by cases hw⟩
  | env e =>
    obtain ⟨s, -, rfl⟩ := Service.step_env hs
    exact ⟨by simp, fun w hw => by cases hw⟩
  | kill pid =>
    obtain ⟨p, -, -, rfl⟩ := Service.step_kill hs
    exact ⟨by simp, fun w hw => by cases hw⟩

/-- What is forwarded comes from processes that arrive later and later. -/
theorem forwarded_sorted {es : List (services C).Event} :
    ∀ {σ : (services C).Sys}, (∀ w ∈ forwarded σ es, σ.procs.length ≤ w.pid) ∧
      (forwarded σ es).Pairwise fun w w' => w.pid < w'.pid := by
  induction es with
  | nil => exact ⟨fun _ hw => absurd hw List.not_mem_nil, .nil⟩
  | cons e es ih =>
    intro σ
    rw [forwarded]
    cases hs : Service.step σ e with
    | none => exact ⟨fun _ hw => absurd hw List.not_mem_nil, .nil⟩
    | some σ₁ =>
      obtain ⟨hlater, hsorted⟩ := ih (σ := σ₁)
      obtain ⟨hle, hnew⟩ := length_step hs
      have hfirst : ∀ w ∈ (forwardedAt σ e).toList,
          w.pid = σ.procs.length ∧ σ.procs.length < σ₁.procs.length :=
        fun w hw => hnew w (Option.mem_toList.mp hw)
      refine ⟨fun w hw => ?_, ?_⟩
      · rcases List.mem_append.mp hw with hw | hw
        · exact (hfirst w hw).1.ge
        · exact hle.trans (hlater w hw)
      · refine List.pairwise_append.mpr ⟨?_, hsorted, fun w hw w' hw' => ?_⟩
        · cases forwardedAt σ e with
          | none => exact .nil
          | some w => exact List.pairwise_singleton _ w
        · have := hfirst w hw
          have := hlater w' hw'
          omega

/-- **A container is sent the messages of its client**, whatever else happens.  In every run
what the gateway has written to its streams are the messages that have arrived while the
stream that was registered for their client was open, rewritten for its session, each once
and in the order of their arrival; every one went to a stream of the client that sent it.
A client that has no stream is told so at once, and nothing is written. -/
theorem messages_relayed {es : List (services C).Event} {σ : (services C).Sys}
    (h : Service.run (start C) es = some σ) :
    σ.shared.writes = forwarded (start C) es ∧
    σ.shared.writes.Pairwise (fun w w' => w.pid < w'.pid) ∧
    (∀ w ∈ σ.shared.writes, ∃ t message, σ.shared.socket? w.stream = some t ∧
      σ.shared.calls[w.pid]? = some (.handleLSPMessage t.client message)) ∧
    ∀ es₁ client message es₂ σ₁, es = es₁ ++ .call (.handleLSPMessage client message) :: es₂ →
      Service.run (start C) es₁ = some σ₁ → σ₁.shared.clientSessions client = none →
        ∃ σ₂, Service.step σ₁ (.call (.handleLSPMessage client message)) = some σ₂ ∧
          σ₂.shared.emitted = σ₁.shared.emitted ++ [notConnected client] ∧
          σ₂.shared.writes = σ₁.shared.writes := by
  have hwrites : σ.shared.writes = forwarded (start C) es :=
    (writes_run (fun _ hp => by cases hp) h).trans (List.nil_append _)
  have hreach : Service.Reaches Service.anyEvent (start C) σ :=
    Service.reaches_of_run h fun _ _ _ => trivial
  refine ⟨hwrites, ?_, (holds_of_reaches hreach).2.1.gated.writes, ?_⟩
  · rw [hwrites]
    exact forwarded_sorted.2
  · rintro es₁ client message es₂ σ₁ rfl h₁ hnone
    rw [Service.run_append, h₁, Option.bind_some, Service.run] at h
    cases hs : Service.step σ₁ (.call (.handleLSPMessage client message)) with
    | none =>
      rw [hs] at h
      cases h
    | some σ₂ =>
      obtain ⟨s, ha, rfl⟩ := Service.step_call hs
      obtain ⟨tasks, -, rfl⟩ :=
        accept_still (show World.accept σ₁.procs.length _ σ₁.shared = some s from ha)
      have hturn := (turn_message (C := C) { σ₁.shared with
        stopTasks := tasks
        calls := σ₁.shared.calls ++ [.handleLSPMessage client message] } σ₁.procs.length client
        message).1 hnone
      exact ⟨_, rfl, (congrArg World.emitted hturn).trans rfl,
        (congrArg World.writes hturn).trans rfl⟩

theorem messages_relayed_sent :
    ∃ σ : (services Config.plain).Sys, Service.run (start Config.plain) messageSent = some σ ∧
      σ.shared.writes.length = 1 ∧ σ.shared.writes = forwarded (start Config.plain) messageSent := by
  have hrun : (Service.run (start Config.plain) messageSent).map (fun σ => σ.shared.writes.length) =
      some 1 := by decide +kernel
  obtain ⟨σ, hσ, hlen⟩ := Option.map_eq_some_iff.mp hrun
  exact ⟨σ, hσ, hlen, (messages_relayed hσ).1⟩

end FullstackSvc.LanguageServer
