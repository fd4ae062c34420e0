import FullstackSvc.Cli.App

/-!
# The sockets of a client

A client holds at most one socket.  Every socket was opened with a token, and is
open until it is disposed of.  Only `connect` opens one, and only `disconnect`
disposes of one; what comes while a menu item awaits a call does neither.
-/

namespace FullstackSvc.Cli

open Text Lsp Store Async

variable {N : Type} {D : DartNumbers N}

/-- The token of a socket, and whether it was disposed of. -/
def Connection.stub (conn : Connection) : JsString × Bool := (conn.auth, conn.disposed)

namespace LspClient

variable {s s' : LspClient N} {e : Event} {o : Option DartError}

/-- The socket that is held, and all that were opened. -/
def sockets (s : LspClient N) : Option Nat × List (JsString × Bool) :=
  (s.socket, s.connections.map Connection.stub)

theorem sockets_setConnection {c : Nat} {conn conn' : Connection}
    (hc : s.connections[c]? = some conn) (h : conn'.stub = conn.stub) :
    (s.setConnection c conn').sockets = s.sockets := by
  obtain ⟨hlt, rfl⟩ := List.getElem?_eq_some_iff.mp hc
  show (s.socket, (s.connections.set c conn').map Connection.stub) = _
  rw [List.map_set, h, ← List.getElem_map Connection.stub (h := by rwa [List.length_map]),
    List.set_getElem_self]
  rfl

theorem sockets_beginAttempt {c : Nat} {conn conn' : Connection}
    (hc : s.connections[c]? = some conn) (h : conn'.stub = conn.stub) (attempt : Nat) :
    (s.beginAttempt c conn' attempt).sockets = s.sockets := by
  unfold beginAttempt
  split
  · exact sockets_setConnection hc h
  · exact sockets_setConnection hc h

theorem sockets_completeAttempt {c : Nat} {conn : Connection} (hc : s.connections[c]? = some conn)
    (completer : Completer Unit) (r : Except DartError Unit) :
    (s.completeAttempt c conn completer r).2.sockets = s.sockets := by
  unfold completeAttempt
  split
  · rfl
  · exact sockets_setConnection hc rfl

theorem sockets_sendLspMessage (s : LspClient N) (message : List (JsString × Json N)) :
    (sendLspMessage D s message).sockets = s.sockets := by
  unfold sendLspMessage
  split
  · rfl
  · rfl

theorem sockets_completeRequest (s : LspClient N) (i : Nat) (request : Request N)
    (r : Except DartError (Json N)) : (completeRequest D s i request r).2.sockets = s.sockets := by
  unfold completeRequest
  split
  · rfl
  · split
    · rfl
    · dsimp only
      split
      · exact sockets_sendLspMessage _ _
      · rfl

theorem sockets_handleLspMessage (s : LspClient N) (raw : JsString) :
    (handleLspMessage D s raw).2.sockets = s.sockets := by
  rcases handleLspMessage_cases D s raw with ⟨pending, h⟩ | ⟨pending, i, request, r, h⟩
  · rw [h]
    rfl
  · rw [h]
    exact sockets_completeRequest { s with pendingRequests := pending } i request r

theorem sockets_handle {c : Nat} {conn : Connection} (hc : s.connections[c]? = some conn)
    (e : SocketEvent) : (handle D s c conn e).2.sockets = s.sockets := by
  cases e with
  | connect =>
    show (s.onConnect c conn).2.sockets = _
    unfold onConnect
    split
    · rfl
    · exact sockets_beginAttempt hc (by rfl) 0
  | connectError error =>
    show (s.onConnectError c conn error).2.sockets = _
    simp only [onConnectError]
    split
    · rfl
    · exact sockets_setConnection (s := { s with state := .error }) hc rfl
  | lspConnected =>
    show (s.onLspConnected c conn).2.sockets = _
    simp only [onLspConnected]
    split
    · rfl
    · exact sockets_completeAttempt (s := { s with state := .connected }) hc _ _
  | lspMessage raw => exact sockets_handleLspMessage s raw
  | lspError error code =>
    show (s.onLspError c conn error code).2.sockets = _
    unfold onLspError
    split
    · rfl
    · split
      · rfl
      · split
        · rfl
        · exact sockets_completeAttempt hc _ _
  | lspDisconnected => rfl

theorem sockets_initializeClient (s : LspClient N) (rootUri : String) :
    (initializeClient D s rootUri).2.sockets = s.sockets := by
  unfold initializeClient
  split
  · rfl
  · exact sockets_sendLspMessage _ _

theorem sockets_openDocument (s : LspClient N) (uri content : String) :
    (openDocument D s uri content).2.sockets = s.sockets := by
  unfold openDocument
  split
  · rfl
  · exact sockets_sendLspMessage _ _

theorem sockets_goToDefinition (s : LspClient N) (uri : String) (line character : Int) :
    (goToDefinition D s uri line character).2.sockets = s.sockets := by
  unfold goToDefinition
  split
  · rfl
  · exact sockets_sendLspMessage _ _

theorem sockets_of_happens {out : Outcome N} (hconnect : ∀ sessionId, e ≠ .connect sessionId)
    (hdisconnect : e ≠ .disconnect) (hs : Happens D s e out) : out.2.sockets = s.sockets := by
  cases hs with
  | connect sessionId => exact absurd rfl (hconnect sessionId)
  | initializeClient rootUri => exact sockets_initializeClient s rootUri
  | openDocument uri content => exact sockets_openDocument s uri content
  | goToDefinition uri line character => exact sockets_goToDefinition s uri line character
  | disconnect => exact absurd rfl hdisconnect
  | socket c e conn found live => exact sockets_handle found e
  | attemptTimeout c conn attempt found awaited =>
    show (s.onAttemptTimeout c conn attempt).sockets = s.sockets
    unfold onAttemptTimeout
    split
    · exact sockets_setConnection found rfl
    · exact sockets_beginAttempt found (by rfl) _
  | requestTimeout i request found awaited => rfl

/-- **Only `connect` opens a socket, and only `disconnect` disposes of one.** -/
theorem sockets_step (hconnect : ∀ sessionId, e ≠ .connect sessionId)
    (hdisconnect : e ≠ .disconnect) (hs : step D s e = some (o, s')) : s'.sockets = s.sockets :=
  sockets_of_happens hconnect hdisconnect (step_cases hs)

/-- While a call is awaited, no other is made. -/
theorem sockets_awaitResult {α : Type} {result : LspClient N → Option α} {a : α} {es : List Event}
    (h : awaitResult D result s es = some (a, s')) : s'.sockets = s.sockets := by
  induction es generalizing s with
  | nil =>
    obtain ⟨b, -, heq⟩ := Option.map_eq_some_iff.mp h
    cases heq
    rfl
  | cons e es ih =>
    rw [awaitResult] at h
    split at h
    · cases h
    · rename_i hgo
      split at h
      · cases h
      · rename_i o s₁ hs
        have hconnect : ∀ sessionId, e ≠ .connect sessionId := by
          rintro sessionId rfl
          exact hgo (Bool.or_true _)
        have hdisconnect : e ≠ .disconnect := by
          rintro rfl
          exact hgo (Bool.or_true _)
        exact (ih h).trans (sockets_step hconnect hdisconnect hs)

theorem sockets_awaitCall {α : Type} {result : LspClient N → Option (Except DartError α)}
    {out : Outcome N} {a : Except DartError α} {es : List Event}
    (h : awaitCall D result out es = some (a, s')) : s'.sockets = out.2.sockets := by
  obtain ⟨x, s₁⟩ := out
  cases x with
  | some x =>
    cases h
    rfl
  | none => exact sockets_awaitResult h

/-- A client that was made for a call of `connect` holds its socket when the
call is over. -/
theorem sockets_awaitConnect {serverUrl token sessionId : JsString} {es : List Event}
    {r : Except DartError Unit}
    (h : awaitConnect D (.new serverUrl token) sessionId es = some (r, s)) :
    s.sockets = (some 0, [(token, false)]) :=
  sockets_awaitCall h

theorem sockets_awaitInitialize {rootUri : String} {es : List Event}
    {r : Except DartError (Json N)} (h : awaitInitialize D s rootUri es = some (r, s')) :
    s'.sockets = s.sockets :=
  (sockets_awaitCall h).trans (sockets_initializeClient s rootUri)

theorem sockets_awaitDefinition {uri : String} {line character : Int} {es : List Event}
    {r : Except DartError (Json N)}
    (h : awaitDefinition D s uri line character es = some (r, s')) : s'.sockets = s.sockets :=
  (sockets_awaitCall h).trans (sockets_goToDefinition s uri line character)

end LspClient

end FullstackSvc.Cli
