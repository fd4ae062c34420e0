import FullstackSvc.Async.Machine
import FullstackSvc.Lsp.Message
import FullstackSvc.Store.JsMap

/-!
# The LSP client of the command line (`lsp_client.dart`)

A `LspClient` with its sockets, its pending requests and the calls that await
them.  One event is one turn of the event loop: a call of a method up to its
first `await`, an event of a socket, or a timer; what awaits a completer goes on
in the turn in which it is completed.  The events come in any order.

* Every call of `connect` makes a socket with handlers of its own, a
  `Connection`; its two completers are captured by them, and `lspConnectCompleter`
  is made anew for every attempt.
* A `Request` has the completer of `_sendRequest` and the future that is
  returned, which is the one of the completer with a timeout of 30 seconds.

The lines of `statusStream` are left out, and what `goToDefinition` makes of the
value that it gets.
-/

namespace FullstackSvc.Cli

open Text Lsp Store Async

/-! ### Errors and completers -/

inductive DartError
  | exception (message : JsString)
  | timeoutException (message : JsString)
  /-- `Bad state: Future already completed`. -/
  | stateError
  /-- A cast, a type argument or a `!` that fails. -/
  | typeError
  deriving DecidableEq

/-- A `Completer`: what it was completed with, if it was. -/
structure Completer (α : Type) where
  result : Option (Except DartError α)

namespace Completer

variable {α : Type}

/-- `Completer()`. -/
def new : Completer α := ⟨none⟩

def isCompleted (c : Completer α) : Bool := c.result.isSome

/-- `complete` and `completeError`: a completer is completed once. -/
def complete (c : Completer α) (r : Except DartError α) : Except DartError (Completer α) :=
  if c.isCompleted then .error .stateError else .ok ⟨some r⟩

theorem complete_of_open {c : Completer α} (h : c.isCompleted = false) (r : Except DartError α) :
    c.complete r = .ok ⟨some r⟩ := by
  rw [complete, h]
  rfl

end Completer

/-! ### Values of JSON in Dart -/

/-- The numbers of Dart: their text, and which of them are an `int`. -/
structure DartNumbers (N : Type) where
  text : NumText N
  asInt : N → Option Int

variable {N : Type}

/-- `json[key]`, if `json.containsKey(key)`. -/
def entry (json : List (JsString × Json N)) (key : String) : Option (Json N) :=
  (json.find? fun f => f.1 = js key).map Prod.snd

mutual

/-- `toString()`. -/
def toText (D : DartNumbers N) : Json N → JsString
  | .null => js "null"
  | .bool b => if b then js "true" else js "false"
  | .num n => D.text.dart n
  | .str s => s
  | .arr items => js "[" ++ itemsText D items ++ js "]"
  | .obj fields => js "\x7b" ++ fieldsText D fields ++ js "\x7d"

def itemsText (D : DartNumbers N) : List (Json N) → JsString
  | [] => []
  | [v] => toText D v
  | v :: vs => toText D v ++ js ", " ++ itemsText D vs

def fieldsText (D : DartNumbers N) : List (JsString × Json N) → JsString
  | [] => []
  | [(k, v)] => k ++ js ": " ++ toText D v
  | (k, v) :: fs => k ++ js ": " ++ toText D v ++ js ", " ++ fieldsText D fs

end

/-! ### The state -/

inductive LspState
  | disconnected
  | connecting
  | connected
  | initializing
  | initialized
  | error
  deriving DecidableEq

/-- Where a call of `connect` stands: at `await connectCompleter.future`, at the
`await` of an attempt, or at its end. -/
inductive ConnectCall
  | opening
  | attempting (attempt : Nat)
  | returned
  | threw (e : DartError)
  deriving DecidableEq

/-- What the attempt that is awaited comes to. -/
def ConnectCall.settle (r : Except DartError Unit) : ConnectCall → ConnectCall
  | .attempting _ =>
    match r with
    | .ok () => .returned
    | .error e => .threw e
  | call => call

/-- A socket with the variables of the call of `connect` that made it. -/
structure Connection where
  url : JsString
  auth : JsString
  disposed : Bool
  sessionId : JsString
  connectCompleter : Completer Unit
  lspConnectCompleter : Option (Completer Unit)
  call : ConnectCall

/-- The calls of `_sendRequest<T>`: `T` is `Map<String, dynamic>` for the first, `dynamic` for
the second. -/
inductive RequestKind
  | initializeRequest
  | definitionRequest
  deriving DecidableEq

/-- The value is a `T?`, for the type of the request. -/
def RequestKind.Fits : RequestKind → Json N → Prop
  | .definitionRequest, _ => True
  | .initializeRequest, .null => True
  | .initializeRequest, .obj _ => True
  | .initializeRequest, _ => False

instance (kind : RequestKind) (v : Json N) : Decidable (kind.Fits v) := by
  cases kind <;> cases v <;> unfold RequestKind.Fits <;> infer_instance

structure Request (N : Type) where
  id : Int
  kind : RequestKind
  completer : Completer (Json N)
  /-- What the future with the timeout was settled with, in order. -/
  future : List (Except DartError (Json N))

inductive Emission
  | lspConnect (sessionId : JsString)
  | lspMessage (message : JsString)
  deriving DecidableEq

structure LspClient (N : Type) where
  serverUrl : JsString
  token : JsString
  socket : Option Nat
  state : LspState
  nextId : Int
  /-- The completers of pending requests, by their place in `requests`. -/
  pendingRequests : JsMap Int Nat
  requests : List (Request N)
  connections : List Connection
  emitted : List (Nat × Emission)

def LspClient.new (serverUrl token : JsString) : LspClient N where
  serverUrl := serverUrl
  token := token
  socket := none
  state := .disconnected
  nextId := 1
  pendingRequests := .empty
  requests := []
  connections := []
  emitted := []

/-- What a call or a handler leaves: what it throws, if it does, and the client. -/
abbrev Outcome (N : Type) := Option DartError × LspClient N

namespace LspClient

def setConnection (s : LspClient N) (c : Nat) (conn : Connection) : LspClient N :=
  { s with connections := s.connections.set c conn }

def setRequest (s : LspClient N) (i : Nat) (request : Request N) : LspClient N :=
  { s with requests := s.requests.set i request }

/-! ### `connect` -/

def maxRetries : Nat := 10

/-- One turn of the loop of `connect`, up to its `await`: a `_socket!` that is `null` throws. -/
def beginAttempt (s : LspClient N) (c : Nat) (conn : Connection) (attempt : Nat) : LspClient N :=
  match s.socket with
  | none => s.setConnection c { conn with
      lspConnectCompleter := some .new, call := .threw .typeError }
  | some socket =>
    { s.setConnection c { conn with
        lspConnectCompleter := some .new, call := .attempting attempt } with
      emitted := s.emitted ++ [(socket, .lspConnect conn.sessionId)] }

def connect (s : LspClient N) (sessionId : JsString) : Outcome N :=
  if s.state ≠ .disconnected then (some (.exception (js "Already connected or connecting")), s)
  else
    (none, { s with
      state := .connecting
      socket := some s.connections.length
      connections := s.connections ++ [{
        url := s.serverUrl ++ js "/lsp"
        auth := s.token
        disposed := false
        sessionId := sessionId
        connectCompleter := .new
        lspConnectCompleter := none
        call := .opening }] })

def onConnect (s : LspClient N) (c : Nat) (conn : Connection) : Outcome N :=
  match conn.connectCompleter.complete (.ok ()) with
  | .error e => (some e, s)
  | .ok completer => (none, s.beginAttempt c { conn with connectCompleter := completer } 0)

def onConnectError (s : LspClient N) (c : Nat) (conn : Connection) (error : JsString) :
    Outcome N :=
  let s := { s with state := .error }
  let failure := .exception (js "연결 실패: " ++ error)
  match conn.connectCompleter.complete (.error failure) with
  | .error e => (some e, s)
  | .ok completer =>
    (none, s.setConnection c { conn with connectCompleter := completer, call := .threw failure })

/-- The completer of the attempt is completed, and the call that awaits it goes on. -/
def completeAttempt (s : LspClient N) (c : Nat) (conn : Connection) (completer : Completer Unit)
    (r : Except DartError Unit) : Outcome N :=
  match completer.complete r with
  | .error e => (some e, s)
  | .ok completer =>
    (none, s.setConnection c { conn with
      lspConnectCompleter := some completer, call := conn.call.settle r })

def onLspConnected (s : LspClient N) (c : Nat) (conn : Connection) : Outcome N :=
  let s := { s with state := .connected }
  match conn.lspConnectCompleter with
  | none => (none, s)
  | some completer => s.completeAttempt c conn completer (.ok ())

def onLspError (s : LspClient N) (c : Nat) (conn : Connection) (error : JsString) (code : Int) :
    Outcome N :=
  if code = 404 then (none, s)
  else
    match conn.lspConnectCompleter with
    | none => (none, s)
    | some completer =>
      if completer.isCompleted then (none, s)
      else s.completeAttempt c conn completer
        (.error (.exception (js "LSP 에러 (" ++ decimalInt code ++ js "): " ++ error)))

def onLspDisconnected (s : LspClient N) : Outcome N :=
  (none, { s with state := .disconnected })

/-- The timer of an attempt, two seconds after it began. -/
def onAttemptTimeout (s : LspClient N) (c : Nat) (conn : Connection) (attempt : Nat) :
    LspClient N :=
  if attempt = maxRetries - 1 then
    s.setConnection c { conn with call := .threw (.exception (js "LSP 컨테이너 연결 타임아웃")) }
  else s.beginAttempt c conn (attempt + 1)

/-! ### Requests -/

def sendLspMessage (D : DartNumbers N) (s : LspClient N) (message : List (JsString × Json N)) :
    LspClient N :=
  match s.socket with
  | none => s
  | some socket =>
    { s with emitted := s.emitted ++ [(socket, .lspMessage (LspMessage.format D.text message))] }

/-- `_generateId` and `_sendRequest`, up to the `await` of the future. -/
def sendRequest (D : DartNumbers N) (s : LspClient N) (kind : RequestKind)
    (message : Int → List (JsString × Json N)) : LspClient N :=
  sendLspMessage D { s with
    nextId := s.nextId + 1
    requests := s.requests ++ [⟨s.nextId, kind, .new, []⟩]
    pendingRequests := s.pendingRequests.set s.nextId s.requests.length } (message s.nextId)

/-- `initialize`. -/
def initializeClient (D : DartNumbers N) (s : LspClient N) (rootUri : String) : Outcome N :=
  if s.state ≠ .connected then (some (.exception (js "LSP가 연결되지 않았습니다")), s)
  else
    (none, sendRequest D { s with state := .initializing } .initializeRequest fun id =>
      LspMessage.createInitializeRequest D.text id rootUri)

/-- The rest of `initialize`, when its request is answered. -/
def finishInitialize (D : DartNumbers N) (s : LspClient N) : LspClient N :=
  { sendLspMessage D s LspMessage.createInitializedNotification with state := .initialized }

def openDocument (D : DartNumbers N) (s : LspClient N) (uri content : String) : Outcome N :=
  if s.state ≠ .initialized then (some (.exception (js "LSP가 초기화되지 않았습니다")), s)
  else
    (none, sendLspMessage D s
      (LspMessage.createDidOpenNotification D.text uri "dart" 1 content))

def goToDefinition (D : DartNumbers N) (s : LspClient N) (uri : String) (line character : Int) :
    Outcome N :=
  if s.state ≠ .initialized then (some (.exception (js "LSP가 초기화되지 않았습니다")), s)
  else
    (none, sendRequest D s .definitionRequest fun id =>
      LspMessage.createDefinitionRequest D.text id uri line character)

/-- The completer of a request is completed.  Its future, if its timer has not settled it, is
settled with the same, and the call that awaits the future goes on. -/
def completeRequest (D : DartNumbers N) (s : LspClient N) (i : Nat) (request : Request N)
    (r : Except DartError (Json N)) : Outcome N :=
  match request.completer.complete r with
  | .error e => (some e, s)
  | .ok completer =>
    if request.future ≠ [] then (none, s.setRequest i { request with completer := completer })
    else
      let s := s.setRequest i { request with completer := completer, future := request.future ++ [r] }
      match request.kind, r with
      | .initializeRequest, .ok _ => (none, finishInitialize D s)
      | _, _ => (none, s)

/-- The completer that was pending for the id of a message is completed by the message. -/
def settleRequest (D : DartNumbers N) (s : LspClient N) (i : Nat) (request : Request N)
    (json : List (JsString × Json N)) : Outcome N :=
  match entry json "error" with
  | some (.obj error) =>
    completeRequest D s i request (.error (.exception (js "LSP 에러: " ++
      toText D ((entry error "message").getD .null) ++ js " (" ++
      toText D ((entry error "code").getD .null) ++ js ")")))
  | some _ => (some .typeError, s)
  | none =>
    let result := (entry json "result").getD .null
    if request.kind.Fits result then completeRequest D s i request (.ok result)
    else (some .typeError, s)

/-- `_handleLspMessage` for a text that was parsed. -/
def handleJson (D : DartNumbers N) (s : LspClient N) (json : List (JsString × Json N)) :
    Outcome N :=
  match entry json "id" with
  | none => (none, s)
  | some .null => (none, s)
  | some (.num n) =>
    match D.asInt n with
    | none => (some .typeError, s)
    | some id =>
      match s.pendingRequests.get id with
      | none => (none, s)
      | some i =>
        match s.requests[i]? with
        | none => (none, s)
        | some request =>
          settleRequest D { s with pendingRequests := s.pendingRequests.delete id } i request json
  | some _ => (some .typeError, s)

def handleLspMessage (D : DartNumbers N) (s : LspClient N) (raw : JsString) : Outcome N :=
  match LspMessage.parse D.text raw with
  | none => (none, s)
  | some json => handleJson D s json

/-- A message leaves all but the pending requests, or it completes one. -/
theorem handleLspMessage_cases (D : DartNumbers N) (s : LspClient N) (raw : JsString) :
    (∃ pending, (handleLspMessage D s raw).2 = { s with pendingRequests := pending }) ∨
      ∃ pending i request r, handleLspMessage D s raw =
        completeRequest D { s with pendingRequests := pending } i request r := by
  unfold handleLspMessage
  split
  · exact Or.inl ⟨s.pendingRequests, rfl⟩
  · unfold handleJson
    split
    · exact Or.inl ⟨s.pendingRequests, rfl⟩
    · exact Or.inl ⟨s.pendingRequests, rfl⟩
    · split
      · exact Or.inl ⟨s.pendingRequests, rfl⟩
      · split
        · exact Or.inl ⟨s.pendingRequests, rfl⟩
        · split
          · exact Or.inl ⟨s.pendingRequests, rfl⟩
          · unfold settleRequest
            split
            · exact Or.inr ⟨_, _, _, _, rfl⟩
            · exact Or.inl ⟨_, rfl⟩
            · dsimp only
              split
              · exact Or.inr ⟨_, _, _, _, rfl⟩
              · exact Or.inl ⟨_, rfl⟩
    · exact Or.inl ⟨s.pendingRequests, rfl⟩

/-- The timer of a request, 30 seconds after it was sent. -/
def onRequestTimeout (s : LspClient N) (i : Nat) (request : Request N) : LspClient N :=
  { s.setRequest i { request with
      future := request.future ++ [.error (.exception (js "요청 타임아웃"))] } with
    pendingRequests := s.pendingRequests.delete request.id }

/-! ### Events -/

/-- `disconnect`: the socket is disposed of, and its handlers with it. -/
def disconnect (s : LspClient N) : LspClient N :=
  match s.socket with
  | none => { s with state := .disconnected }
  | some c => { s with
      state := .disconnected
      socket := none
      connections := s.connections.modify c fun conn => { conn with disposed := true } }

inductive SocketEvent
  | connect
  | connectError (error : JsString)
  | lspConnected
  | lspMessage (message : JsString)
  | lspError (error : JsString) (code : Int)
  | lspDisconnected
  deriving DecidableEq

inductive Event
  | connect (sessionId : JsString)
  | initializeClient (rootUri : String)
  | openDocument (uri content : String)
  | goToDefinition (uri : String) (line character : Int)
  | disconnect
  | socket (c : Nat) (e : SocketEvent)
  | attemptTimeout (c : Nat)
  | requestTimeout (i : Nat)
  deriving DecidableEq

def handle (D : DartNumbers N) (s : LspClient N) (c : Nat) (conn : Connection) :
    SocketEvent → Outcome N
  | .connect => s.onConnect c conn
  | .connectError error => s.onConnectError c conn error
  | .lspConnected => s.onLspConnected c conn
  | .lspMessage message => handleLspMessage D s message
  | .lspError error code => s.onLspError c conn error code
  | .lspDisconnected => s.onLspDisconnected

/-- A socket that was disposed of has no more events, and a timer fires while what it is for is
awaited. -/
def step (D : DartNumbers N) (s : LspClient N) : Event → Option (Outcome N)
  | .connect sessionId => some (s.connect sessionId)
  | .initializeClient rootUri => some (initializeClient D s rootUri)
  | .openDocument uri content => some (openDocument D s uri content)
  | .goToDefinition uri line character => some (goToDefinition D s uri line character)
  | .disconnect => some (none, s.disconnect)
  | .socket c e =>
    match s.connections[c]? with
    | none => none
    | some conn => if conn.disposed then none else some (handle D s c conn e)
  | .attemptTimeout c =>
    match s.connections[c]? with
    | none => none
    | some conn =>
      match conn.call with
      | .attempting attempt => some (none, s.onAttemptTimeout c conn attempt)
      | _ => none
  | .requestTimeout i =>
    match s.requests[i]? with
    | none => none
    | some request =>
      if request.future ≠ [] then none else some (none, s.onRequestTimeout i request)

/-- What an event does, when it can happen. -/
inductive Happens (D : DartNumbers N) (s : LspClient N) : Event → Outcome N → Prop
  | connect (sessionId : JsString) : Happens D s (.connect sessionId) (s.connect sessionId)
  | initializeClient (rootUri : String) :
    Happens D s (.initializeClient rootUri) (initializeClient D s rootUri)
  | openDocument (uri content : String) :
    Happens D s (.openDocument uri content) (openDocument D s uri content)
  | goToDefinition (uri : String) (line character : Int) :
    Happens D s (.goToDefinition uri line character) (goToDefinition D s uri line character)
  | disconnect : Happens D s .disconnect (none, s.disconnect)
  | socket (c : Nat) (e : SocketEvent) (conn : Connection) (found : s.connections[c]? = some conn)
    (live : conn.disposed = false) : Happens D s (.socket c e) (handle D s c conn e)
  | attemptTimeout (c : Nat) (conn : Connection) (attempt : Nat)
    (found : s.connections[c]? = some conn) (awaited : conn.call = .attempting attempt) :
    Happens D s (.attemptTimeout c) (none, s.onAttemptTimeout c conn attempt)
  | requestTimeout (i : Nat) (request : Request N) (found : s.requests[i]? = some request)
    (awaited : request.future = []) :
    Happens D s (.requestTimeout i) (none, s.onRequestTimeout i request)

theorem step_cases {D : DartNumbers N} {s : LspClient N} {e : Event} {out : Outcome N}
    (h : step D s e = some out) : Happens D s e out := by
  cases e with
  | connect sessionId => exact Option.some.inj h ▸ .connect sessionId
  | initializeClient rootUri => exact Option.some.inj h ▸ .initializeClient rootUri
  | openDocument uri content => exact Option.some.inj h ▸ .openDocument uri content
  | goToDefinition uri line character =>
    exact Option.some.inj h ▸ .goToDefinition uri line character
  | disconnect => exact Option.some.inj h ▸ .disconnect
  | socket c e =>
    rw [step] at h
    split at h
    · cases h
    · rename_i conn found
      split at h
      · cases h
      · rename_i live
        exact Option.some.inj h ▸ .socket c e conn found (Bool.eq_false_iff.mpr live)
  | attemptTimeout c =>
    rw [step] at h
    split at h
    · cases h
    · rename_i conn found
      split at h
      · rename_i attempt awaited
        exact Option.some.inj h ▸ .attemptTimeout c conn attempt found awaited
      · cases h
  | requestTimeout i =>
    rw [step] at h
    split at h
    · cases h
    · rename_i request found
      split at h
      · cases h
      · rename_i awaited
        exact Option.some.inj h ▸ .requestTimeout i request found (not_not.mp awaited)

/-- The client as a machine. -/
def machine (D : DartNumbers N) : Machine (LspClient N) Event (Option DartError) where
  step := step D

end LspClient

end FullstackSvc.Cli
