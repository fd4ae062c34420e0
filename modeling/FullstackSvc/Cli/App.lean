import FullstackSvc.Cli.LspClient

/-!
# The menu of the command line (`cli_app.dart`)

`CliApp` with what its menu items share: the token storage, the `Authorization`
header of the HTTP client, and the session manager with its client and its timer
(`token_storage.dart`, `api_client.dart`, `lsp_session_manager.dart`).

An action runs from its choice to the next menu.  What the servers answer, what
is read from files, and the events that the client meets while the action awaits
it come with the action; between two actions there are the events of the active
client and the ticks of the renewal timer.  A client that was never stored, or
was given up, is left out, as is what is printed.

`asked` is a record of the calls of `LspApi`, with the header that they were made
with; nothing reads it.
-/

namespace FullstackSvc.Cli

open Text Lsp Store Async

variable {N : Type}

/-! ### The client, as the menu items await it -/

namespace LspClient

/-- The menu items call the methods. -/
def Event.isCall : Event → Bool
  | .connect _ => true
  | .initializeClient _ => true
  | .openDocument _ _ => true
  | .goToDefinition _ _ _ => true
  | .disconnect => true
  | _ => false

/-- What has become of the call of `connect` that made a connection. -/
def connectResult (s : LspClient N) (c : Nat) : Option (Except DartError Unit) :=
  match (s.connections[c]?).map Connection.call with
  | some .returned => some (.ok ())
  | some (.threw e) => some (.error e)
  | _ => none

/-- What the future of a request was settled with. -/
def requestResult (s : LspClient N) (i : Nat) : Option (Except DartError (Json N)) :=
  (s.requests[i]?).bind fun request => request.future.head?

/-- The events that come until a result is there. -/
def awaitResult {α : Type} (D : DartNumbers N) (result : LspClient N → Option α) :
    LspClient N → List Event → Option (α × LspClient N)
  | s, [] => (result s).map fun a => (a, s)
  | s, e :: es =>
    if (result s).isSome || e.isCall then none
    else
      match step D s e with
      | none => none
      | some (_, s') => awaitResult D result s' es

/-- `await` of a call that throws, or is over when its result is there. -/
def awaitCall {α : Type} (D : DartNumbers N) (result : LspClient N → Option (Except DartError α)) :
    Outcome N → List Event → Option (Except DartError α × LspClient N)
  | (some e, s), _ => some (.error e, s)
  | (none, s), es => awaitResult D result s es

/-- `await lspClient.connect(sessionId)`. -/
def awaitConnect (D : DartNumbers N) (s : LspClient N) (sessionId : JsString) (es : List Event) :
    Option (Except DartError Unit × LspClient N) :=
  awaitCall D (fun s' => s'.connectResult s.connections.length) (s.connect sessionId) es

/-- `await lspClient.initialize(rootUri)`. -/
def awaitInitialize (D : DartNumbers N) (s : LspClient N) (rootUri : String) (es : List Event) :
    Option (Except DartError (Json N) × LspClient N) :=
  awaitCall D (fun s' => s'.requestResult s.requests.length) (initializeClient D s rootUri) es

/-- `await lspClient.goToDefinition(uri, line, character)`. -/
def awaitDefinition (D : DartNumbers N) (s : LspClient N) (uri : String) (line character : Int)
    (es : List Event) : Option (Except DartError (Json N) × LspClient N) :=
  awaitCall D (fun s' => s'.requestResult s.requests.length)
    (goToDefinition D s uri line character) es

end LspClient

/-! ### The state -/

structure TokenStorage where
  token : Option JsString
  email : Option JsString

namespace TokenStorage

def saveToken (token email : JsString) : TokenStorage := ⟨some token, some email⟩

def deleteToken : TokenStorage := ⟨none, none⟩

def isLoggedIn (storage : TokenStorage) : Bool := storage.token.isSome

end TokenStorage

structure LspSessionManager (N : Type) where
  currentSessionId : Option JsString
  activeClient : Option (LspClient N)
  /-- `_renewalTimer` is running. -/
  renewing : Bool

namespace LspSessionManager

def hasActiveConnection (m : LspSessionManager N) : Bool := m.activeClient.isSome

/-- `disconnect`: the client is disposed of, and forgotten. -/
def disconnect : LspSessionManager N := ⟨none, none, false⟩

/-- `dispose`: the client is disposed of, and kept. -/
def dispose (m : LspSessionManager N) : LspSessionManager N :=
  { m with renewing := false, activeClient := m.activeClient.map LspClient.disconnect }

end LspSessionManager

inductive LspApiCall
  | createSession (answer : Except DartError JsString)
  | renewSession (sessionId : JsString)
  | uploadFile (sessionId : JsString)

structure CliApp (N : Type) where
  baseUrl : JsString
  storage : TokenStorage
  /-- `dio.options.headers['Authorization']`. -/
  authorization : Option JsString
  lspSessionManager : LspSessionManager N
  running : Bool
  asked : List (LspApiCall × Option JsString)

/-- The text of the header. -/
def bearer (token : JsString) : JsString := js "Bearer " ++ token

/-- A new `CliApp` whose `_init` has found no token. -/
def CliApp.new (baseUrl : JsString) : CliApp N where
  baseUrl := baseUrl
  storage := ⟨none, none⟩
  authorization := none
  lspSessionManager := ⟨none, none, false⟩
  running := true
  asked := []

/-! ### The menu items -/

namespace CliApp

open LspClient

def ask (s : CliApp N) (call : LspApiCall) : CliApp N :=
  { s with asked := s.asked ++ [(call, s.authorization)] }

/-- `LoginMenuItem`, with the token that the server answers. -/
def login (s : CliApp N) (email : JsString) : Except DartError JsString → CliApp N
  | .error _ => s
  | .ok token =>
    { s with storage := TokenStorage.saveToken token email, authorization := some (bearer token) }

/-- `LogoutMenuItem`. -/
def logout (s : CliApp N) : CliApp N :=
  if s.storage.isLoggedIn then
    { s with storage := TokenStorage.deleteToken, authorization := none }
  else s

/-- What `LspOpenSessionMenuItem` does on an error. -/
def giveUp (s : CliApp N) : CliApp N :=
  { s with lspSessionManager :=
      { s.lspSessionManager with currentSessionId := none, activeClient := none } }

/-- `LspOpenSessionMenuItem`, with the answer to `createSession`, and the events that come while
`connect` and `initialize` are awaited. -/
def openSession (D : DartNumbers N) (s : CliApp N) (created : Except DartError JsString)
    (connecting initializing : List Event) : Option (CliApp N) :=
  match s.storage.token with
  | none => some s
  | some token =>
    if s.lspSessionManager.hasActiveConnection then some s
    else
      let s := s.ask (.createSession created)
      match created with
      | .error _ => some s.giveUp
      | .ok sessionId =>
        match awaitConnect D (.new s.baseUrl token) sessionId connecting with
        | none => none
        | some (.error _, _) => some s.giveUp
        | some (.ok _, client) =>
          match awaitInitialize D client "file:///workspace" initializing with
          | none => none
          | some (.error _, _) => some s.giveUp
          | some (.ok _, client) =>
            some { s with lspSessionManager := ⟨some sessionId, some client, true⟩ }

/-- The client goes on. -/
def withClient (s : CliApp N) (client : LspClient N) : CliApp N :=
  { s with lspSessionManager := { s.lspSessionManager with activeClient := some client } }

/-- `LspGotoDefinitionMenuItem`, with what is read from the prompts and the file, unless that
leads back to the menu, the path of the file that was uploaded, and the events that come while
the definition is awaited. -/
def gotoDefinition (D : DartNumbers N) (s : CliApp N) (input : Option (String × Int × Int))
    (upload : Except DartError String) (awaiting : List Event) : Option (CliApp N) :=
  if ! s.storage.isLoggedIn then some s
  else
    match s.lspSessionManager.activeClient, input, s.lspSessionManager.currentSessionId with
    | some client, some (content, line, character), some sessionId =>
      let s := s.ask (.uploadFile sessionId)
      match upload with
      | .error _ => some s
      | .ok filePath =>
        let uri := "file://" ++ filePath
        match openDocument D client uri content with
        | (some _, client) => some (s.withClient client)
        | (none, client) =>
          match awaitDefinition D client uri line character awaiting with
          | none => none
          | some (_, client) => some (s.withClient client)
    | _, _, _ => some s

/-- `LspCloseSessionMenuItem`. -/
def closeSession (s : CliApp N) : CliApp N :=
  if ! s.storage.isLoggedIn then s
  else if ! s.lspSessionManager.hasActiveConnection then s
  else { s with lspSessionManager := .disconnect }

/-- `ExitMenuItem`, and the end of `run`. -/
def exit (s : CliApp N) : CliApp N :=
  { s with running := false, lspSessionManager := s.lspSessionManager.dispose }

/-- A tick of the timer of `startRenewal`. -/
def renew (s : CliApp N) : CliApp N :=
  match s.lspSessionManager.currentSessionId with
  | none => s
  | some sessionId => s.ask (.renewSession sessionId)

inductive Action
  | register
  | login (email : JsString) (answer : Except DartError JsString)
  | runCode
  | openSession (created : Except DartError JsString) (connecting initializing : List Event)
  | gotoDefinition (input : Option (String × Int × Int)) (upload : Except DartError String)
      (awaiting : List Event)
  | closeSession
  | logout
  | exit

inductive AppEvent
  | menu (action : Action)
  | client (e : Event)
  | renewal

/-- Registering and running code touch nothing of this state. -/
def execute (D : DartNumbers N) (s : CliApp N) : Action → Option (CliApp N)
  | .register => some s
  | .login email answer => some (s.login email answer)
  | .runCode => some s
  | .openSession created connecting initializing => s.openSession D created connecting initializing
  | .gotoDefinition input upload awaiting => s.gotoDefinition D input upload awaiting
  | .closeSession => some s.closeSession
  | .logout => some s.logout
  | .exit => some s.exit

def react (D : DartNumbers N) (s : CliApp N) : AppEvent → Option (CliApp N)
  | .menu action => s.execute D action
  | .client e =>
    match s.lspSessionManager.activeClient with
    | none => none
    | some client =>
      if e.isCall then none
      else
        match step D client e with
        | none => none
        | some (_, client) => some (s.withClient client)
  | .renewal => if s.lspSessionManager.renewing then some s.renew else none

/-- The program, while it runs. -/
def machine (D : DartNumbers N) : Machine (CliApp N) AppEvent Unit where
  step s e := if s.running then (s.react D e).map fun s' => ((), s') else none

end CliApp

end FullstackSvc.Cli
