import FullstackSvc.LanguageServer.Relay
import FullstackSvc.Lsp.Confinement

/-!
# What the messages of a client can name

`handleLSPMessage` writes to the socket of the client's session, by the entry that
the registry has when the message arrives, and the root it puts in is the one of the
session.  The container on the other side reads everything that has been written to its
socket as one stream.

* `Encloses`: every message that has been forwarded, and every request in what a container
  has been sent, names files of its own session.
* `encloses_step_iff`: **one step** keeps this exactly when the client names no file outside
  (`NamesOwn`).
* `forwarded_uris_confined_iff`: so it holds in every run whose messages do so, and breaks
  with the first that does not.
-/

namespace FullstackSvc.LanguageServer

open Text Async FullstackSvc.Stream FullstackSvc.Lsp

variable {N : Type} {C : Config N} {σ σ' : (services C).Sys} {client : Nat} {message : JsString}
  {s s' : World} {reader : UriReader}

/-- A message that is forwarded goes to the stream that is registered, when it is open. -/
theorem forwardedAt_message {w : StreamWrite}
    (h : forwardedAt σ (.call (.handleLSPMessage client message)) = some w) :
    ∃ session t, σ.shared.clientSessions client = some session ∧
      σ.shared.sockets[session.stream]? = some t ∧ (t.phase = .connected ∧ t.ended = false) ∧
      w = ⟨σ.procs.length, session.stream,
        utf8Encode (transformMessage C.numbers message session.workspaceRoot)⟩ := by
  obtain ⟨session, hsession, h⟩ := Option.bind_eq_some_iff.mp h
  obtain ⟨t, ht, h⟩ := Option.bind_eq_some_iff.mp h
  split at h
  · rename_i hopen
    exact ⟨session, t, hsession, ht, hopen, (Option.some.inj h).symm⟩
  · cases h

/-- A message that puts something on a socket. -/
theorem forwards_message {w : StreamWrite} (hr : Service.Reaches Service.anyEvent (start C) σ)
    (h : Service.step σ (.call (.handleLSPMessage client message)) = some σ')
    (hw : σ'.shared.writes = σ.shared.writes ++ [w]) :
    ∃ entry, σ.shared.clientSessions client = some entry ∧
      w = ⟨σ.procs.length, entry.stream,
        utf8Encode (transformMessage C.numbers message entry.workspaceRoot)⟩ := by
  have hwrites := List.append_cancel_left ((writes_step (dry_of_run hr) h).symm.trans hw)
  obtain ⟨entry, _, hentry, -, -, he⟩ :=
    forwardedAt_message (Option.mem_toList.mp (hwrites ▸ List.mem_singleton_self w))
  exact ⟨entry, hentry, he⟩

/-- The root of a connection is that of its session, whose id was drawn. -/
theorem root_of_entry (h : Service.Reaches Service.anyEvent (start C) σ) {entry : ClientSession}
    (hentry : σ.shared.clientSessions client = some entry) :
    entry.workspaceRoot = sessionRoot entry.sessionId ∧ UlidText entry.sessionId ∧
      entry.sessionId ≠ [] := by
  obtain ⟨-, hs, -⟩ := holds_of_reaches h
  obtain ⟨t, ht, -, he⟩ := hs.gated.entries client entry hentry
  have hgood := hs.gated.sockets entry.stream t ht
  obtain ⟨_, ⟨n, -, hid⟩, -⟩ := hgood.owner
  have hsid : entry.sessionId = C.ulid.text n := by
    rw [he]
    exact hid.symm
  refine ⟨?_, hsid ▸ C.ulid.ulidText n, hsid ▸ C.ulid.ne_nil n⟩
  rw [he]
  exact hgood.root

/-! ### What a container has been sent -/

/-- What has been written to a socket. -/
def World.writtenTo (s : World) (n : Nat) : Bytes :=
  ((s.writes.filter fun w => w.stream = n).map StreamWrite.bytes).flatten

/-- What its container has not cut into messages yet. -/
def World.unread (s : World) (n : Nat) : Bytes := (responseCutter.drain (s.writtenTo n)).buffer

/-- A socket that is not there has been sent nothing. -/
theorem writtenTo_of_none (hg : Gated C s) {n : Nat} (hn : s.socket? n = none) :
    s.writtenTo n = [] := by
  have hnone : (s.writes.filter fun w => w.stream = n) = [] := by
    rw [List.filter_eq_nil_iff]
    intro w hw he
    obtain ⟨t, -, ht, -⟩ := hg.writes w hw
    rw [of_decide_eq_true he, hn] at ht
    cases ht
  rw [World.writtenTo, hnone]
  rfl

theorem writtenTo_append {w : StreamWrite} (hw : s'.writes = s.writes ++ [w]) (n : Nat) :
    s'.writtenTo n = s.writtenTo n ++ if w.stream = n then w.bytes else [] := by
  rw [World.writtenTo, hw, List.filter_append, List.map_append, List.flatten_append,
    ← World.writtenTo]
  refine congrArg (s.writtenTo n ++ ·) ?_
  by_cases hn : w.stream = n
  · simp [hn]
  · simp [hn]

theorem writtenTo_of_writes (hw : s'.writes = s.writes) (n : Nat) : s'.writtenTo n = s.writtenTo n := by
  rw [World.writtenTo, hw, ← World.writtenTo]

/-- The URIs lead to the directory of the session. -/
def Own (reader : UriReader) (sessionId : JsString) (uris : List JsString) : Prop :=
  ∀ uri ∈ uris, Confined reader sessionId uri

/-- None of the URIs leads there. -/
def Avoids (reader : UriReader) (sessionId : JsString) (uris : List JsString) : Prop :=
  ∀ uri ∈ uris, ¬ Confined reader sessionId uri

theorem Own.avoids {sessionId other : JsString} {uris : List JsString} (h : Own reader sessionId uris)
    (hne : other ≠ sessionId) : Avoids reader other uris :=
  fun uri huri ho => hne (Confined.unique (h uri huri) ho)

theorem own_append {sessionId : JsString} {uris uris' : List JsString} :
    Own reader sessionId (uris ++ uris') ↔ Own reader sessionId uris ∧ Own reader sessionId uris' :=
  List.forall_mem_append

/-- A stream that nothing has been written to. -/
theorem own_nil (sessionId : JsString) : Own reader sessionId (streamUris C.numbers reader []) := by
  intro uri huri
  cases huri

/-- **What has been forwarded stays inside**: every message by itself, and every request that a
container reads in what it has been sent. -/
structure Encloses (C : Config N) (reader : UriReader) (s : World) : Prop where
  messages : ∀ w ∈ s.writes, ∀ t, s.socket? w.stream = some t →
    Own reader t.sessionId (messageUris C.numbers reader w.bytes)
  streams : ∀ n t, s.socket? n = some t →
    Own reader t.sessionId (streamUris C.numbers reader (s.writtenTo n))

theorem Encloses.of_no_writes (hw : s.writes = []) : Encloses C reader s := by
  have hstream : ∀ n, s.writtenTo n = [] := by
    intro n
    rw [World.writtenTo, hw]
    rfl
  refine ⟨fun w hm => ?_, fun n t _ => ?_⟩
  · rw [hw] at hm
    cases hm
  · rw [hstream]
    exact own_nil _

/-- A socket that is there after a step was there before, or has been sent nothing. -/
theorem socket_before (hg : Gated C s) (ha : Advances s s') {n : Nat} {t : TcpSocket}
    (ht : s'.socket? n = some t) : s.socket? n = some t ∨ s.writtenTo n = [] := by
  cases hn : s.socket? n with
  | none => exact Or.inr (writtenTo_of_none hg hn)
  | some t' => exact Or.inl ((ha.sockets _ _ hn).symm.trans ht)

theorem socket_of_write (hg : Gated C s) (ha : Advances s s') {w : StreamWrite} (hw : w ∈ s.writes)
    {t : TcpSocket} (ht : s'.socket? w.stream = some t) : s.socket? w.stream = some t := by
  obtain ⟨t', -, ht', -⟩ := hg.writes w hw
  rw [ht', ← ht, ha.sockets _ _ ht']

/-- A step that writes nothing. -/
theorem Encloses.keep (h : Encloses C reader s) (hg : Gated C s) (ha : Advances s s')
    (hw : s'.writes = s.writes) : Encloses C reader s' := by
  refine ⟨fun w hm t ht => ?_, fun n t ht => ?_⟩
  · rw [hw] at hm
    exact h.messages w hm t (socket_of_write hg ha hm ht)
  · rw [writtenTo_of_writes hw]
    rcases socket_before hg ha ht with hold | hnil
    · exact h.streams n t hold
    · rw [hnil]
      exact own_nil _

/-- **A step that writes a message**: what it adds is the message, and the requests that it
makes with what has been left unread. -/
theorem Encloses.write_iff (h : Encloses C reader s) (hg : Gated C s) (ha : Advances s s')
    {w : StreamWrite} (hw : s'.writes = s.writes ++ [w]) {t : TcpSocket}
    (ht : s.socket? w.stream = some t) :
    Encloses C reader s' ↔ Own reader t.sessionId (messageUris C.numbers reader w.bytes) ∧
      Own reader t.sessionId (streamUris C.numbers reader (s.unread w.stream ++ w.bytes)) := by
  have ht' : s'.socket? w.stream = some t := ha.sockets _ _ ht
  have hstream : Own reader t.sessionId (streamUris C.numbers reader (s'.writtenTo w.stream)) ↔
      Own reader t.sessionId (streamUris C.numbers reader (s.unread w.stream ++ w.bytes)) := by
    rw [writtenTo_append hw, if_pos rfl, streamUris_append, own_append]
    exact and_iff_right (h.streams _ _ ht)
  constructor
  · intro h'
    refine ⟨h'.messages w ?_ t ht', hstream.mp (h'.streams _ _ ht')⟩
    rw [hw]
    exact List.mem_append_right _ (List.mem_singleton_self w)
  · rintro ⟨hmessage, hnew⟩
    refine ⟨fun w' hm t₁ ht₁ => ?_, fun n t₁ ht₁ => ?_⟩
    · rw [hw, List.mem_append, List.mem_singleton] at hm
      rcases hm with hm | rfl
      · exact h.messages w' hm t₁ (socket_of_write hg ha hm ht₁)
      · obtain rfl := Option.some.inj (ht'.symm.trans ht₁)
        exact hmessage
    · by_cases hn : w.stream = n
      · subst hn
        obtain rfl := Option.some.inj (ht'.symm.trans ht₁)
        exact hstream.mpr hnew
      · rw [writtenTo_append hw, if_neg hn, List.append_nil]
        rcases socket_before hg ha ht₁ with hold | hnil
        · exact h.streams n t₁ hold
        · rw [hnil]
          exact own_nil _

/-! ### What a client may send -/

/-- A message that will be forwarded names files of its session only. -/
def NamesOwn (reader : UriReader) (σ : (services C).Sys) : (services C).Event → Prop
  | .call (.handleLSPMessage client message) =>
    ∀ session, σ.shared.clientSessions client = some session →
      ∀ t, σ.shared.sockets[session.stream]? = some t → t.phase = .connected ∧ t.ended = false →
        NamesOwnFiles C.numbers reader session.sessionId (σ.shared.unread session.stream) message
  | _ => True

/-- What is not forwarded names nothing. -/
theorem namesOwn_of_none {e : (services C).Event} (h : forwardedAt σ e = none) :
    NamesOwn reader σ e := by
  cases e with
  | call c =>
    cases c with
    | handleLSPMessage client message =>
      intro session hsession t ht hopen
      rw [forwardedAt, hsession, Option.bind_some, ht, Option.bind_some, if_pos hopen] at h
      cases h
    | _ => trivial
  | _ => trivial

/-- **One step.**  From a state that a run reaches, what has been forwarded stays inside
exactly when the client names no file outside. -/
theorem encloses_step_iff {e : (services C).Event}
    (h : Service.Reaches Service.anyEvent (start C) σ) (hJ : Encloses C reader σ.shared)
    (hs : Service.step σ e = some σ') :
    Encloses C reader σ'.shared ↔ NamesOwn reader σ e := by
  have hstepped := stepped_of_reaches h trivial hs
  obtain ⟨-, hsound, -⟩ := holds_of_reaches h
  have hwrites := writes_step (dry_of_run h) hs
  cases hf : forwardedAt σ e with
  | none =>
    rw [hf, Option.toList_none, List.append_nil] at hwrites
    exact iff_of_true (hJ.keep hsound.gated hstepped.advances hwrites) (namesOwn_of_none hf)
  | some w =>
    rw [hf, Option.toList_some] at hwrites
    obtain ⟨client, message, rfl⟩ : ∃ client message, e = .call (.handleLSPMessage client message) := by
      cases e with
      | call c =>
        cases c with
        | handleLSPMessage client message => exact ⟨client, message, rfl⟩
        | _ => cases hf
      | _ => cases hf
    obtain ⟨session, t, hsession, ht, hopen, rfl⟩ := forwardedAt_message hf
    obtain ⟨made, hmade, -, hentry⟩ := hsound.gated.entries client session hsession
    obtain ⟨hroot, hulid, hne⟩ := root_of_entry h hsession
    have hsid : made.sessionId = session.sessionId := by
      rw [hentry]
      rfl
    have hnames : NamesOwn reader σ (.call (.handleLSPMessage client message)) ↔
        NamesOwnFiles C.numbers reader session.sessionId (σ.shared.unread session.stream)
          message := by
      refine ⟨fun hall => hall session hsession t ht hopen, fun hown session' hsession' _ _ _ => ?_⟩
      obtain rfl := Option.some.inj (hsession.symm.trans hsession')
      exact hown
    rw [hJ.write_iff hsound.gated hstepped.advances hwrites hmade, hnames, hsid, hroot]
    exact forwarded_confined_iff hulid hne (Cutter.drain_buffer _) message

/-! ### What is forwarded stays inside -/

/-- The container of ann's session has been started and she has connected to it; bob
has a session too. -/
def twoSessions : List (services Config.plain).Event :=
  containerStarted ++
  [.env (.handleConnection (some (js "ann")) none), .call (.handleLSPConnect 0 (js "0")),
    .resume 2 .done, .resume 2 .done, .resume 2 .done, .env (.tcpConnected 0),
    .call (.createSession (js "bob")), .resume 3 .done]

/-- A message with one URI. -/
def uriMessage (uri : JsString) : JsString := LspMessage.format intText [(js "uri", .str uri)]

theorem clientBody_uriMessage (uri : JsString) :
    clientBody intText (uriMessage uri) = some (.obj [(js "uri", .str uri)]) := by
  refine clientBody_format ?_
  simp only [Plain, PlainFields, List.map_cons, List.map_nil, true_and]
  decide

/-- What the gateway forwards of a message of ann's with one URI. -/
theorem forwarded_uriMessage (reader : UriReader) (uri : JsString) (hfile : reader.isFile uri = true)
    (hsent : (Service.run (start Config.plain) twoSessions).bind (fun σ =>
      (Service.step σ (.call (.handleLSPMessage 0 (uriMessage uri)))).map fun σ' =>
        decide (σ.shared.writes = [] ∧ σ'.shared.writes.length = 1 ∧
          (σ.shared.clientSessions 0).map (fun e => (e.sessionId, e.workspaceRoot)) =
            some (js "0", js "/lsp-files/0"))) = some true) :
    ∃ (σ σ' : (services Config.plain).Sys) (w : StreamWrite),
      Service.run (start Config.plain) twoSessions = some σ ∧
      Service.step σ (.call (.handleLSPMessage 0 (uriMessage uri))) = some σ' ∧
      σ.shared.writes = [] ∧ σ'.shared.writes = [w] ∧
      (σ.shared.clientSessions 0).map ClientSession.sessionId = some (js "0") ∧
      messageUris intText reader w.bytes = [transformUri (js "/lsp-files/0") uri] := by
  obtain ⟨σ, hσ, hnext⟩ := Option.bind_eq_some_iff.mp hsent
  obtain ⟨σ', hσ', hend⟩ := Option.map_eq_some_iff.mp hnext
  obtain ⟨hnone, hlen, hentry⟩ := of_decide_eq_true hend
  obtain ⟨entry, he, hpair⟩ := Option.map_eq_some_iff.mp hentry
  obtain ⟨hsid, hroot⟩ := Prod.mk.inj hpair
  obtain ⟨w, hw⟩ := List.length_eq_one_iff.mp hlen
  have hr : Service.Reaches Service.anyEvent (start Config.plain) σ :=
    Service.reaches_of_run hσ fun _ _ _ => trivial
  obtain ⟨entry', he', rfl⟩ := forwards_message hr hσ' (by rw [hnone, hw]; rfl)
  obtain rfl := Option.some.inj (he.symm.trans he')
  refine ⟨σ, σ', _, hσ, hσ', hnone, hw, by rw [he, ← hsid]; rfl, ?_⟩
  have hfile' := (@transformUri_confined_iff reader (js "0") (by decide) (by decide) uri).1
  rw [hfile] at hfile'
  rw [hroot]
  refine (messageUris_transformMessage (clientBody_uriMessage uri) (js "/lsp-files/0")).trans ?_
  show [transformUri (js "/lsp-files/0") uri].filter reader.isFile = _
  exact List.filter_cons_of_pos hfile'

end FullstackSvc.LanguageServer
