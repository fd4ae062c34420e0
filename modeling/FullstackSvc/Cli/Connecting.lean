import FullstackSvc.Cli.Requests

/-!
# The states of the connection

The handlers of `connect` complete two completers, and assign the state,
whatever the state is.  A socket connects again by itself, and an attempt may be
answered when a later one is awaited.

* `Turn`, `turn_of_step`: what each event does to the state, and what it throws.
* `safe_iff`: in a state that is `Steady`, an event is safe if and only if it is
  orderly.
* `connection_safe_iff`: **no completer is completed twice and no initialization
  is lost along a run exactly when its events are orderly as they come**.
-/

namespace FullstackSvc.Cli

open Text Lsp Store Async

/-- The completer of the attempt that is under way, or of the last one, is completed. -/
def Connection.answered (conn : Connection) : Bool :=
  conn.lspConnectCompleter.any Completer.isCompleted

/-- The initialization is under way, or over. -/
def LspState.begun : LspState → Bool
  | .initializing => true
  | .initialized => true
  | _ => false

namespace LspClient

variable {N : Type} {D : DartNumbers N} {s s' : LspClient N} {e : Event} {o : Option DartError}

/-! ### The state, after each part of the client -/

theorem state_beginAttempt (s : LspClient N) (c : Nat) (conn : Connection) (attempt : Nat) :
    (s.beginAttempt c conn attempt).state = s.state := by
  unfold beginAttempt
  split
  · rfl
  · rfl

theorem state_completeAttempt (s : LspClient N) (c : Nat) (conn : Connection)
    (completer : Completer Unit) (r : Except DartError Unit) :
    (s.completeAttempt c conn completer r).2.state = s.state := by
  unfold completeAttempt
  split
  · rfl
  · rfl

theorem throws_completeAttempt (s : LspClient N) (c : Nat) (conn : Connection)
    (completer : Completer Unit) (r : Except DartError Unit) :
    (s.completeAttempt c conn completer r).1 =
      if completer.isCompleted then some .stateError else none := by
  unfold completeAttempt Completer.complete
  cases completer.isCompleted with
  | false => rfl
  | true => rfl

theorem state_sendLspMessage (s : LspClient N) (message : List (JsString × Json N)) :
    (sendLspMessage D s message).state = s.state := by
  unfold sendLspMessage
  split
  · rfl
  · rfl

theorem state_onAttemptTimeout (s : LspClient N) (c : Nat) (conn : Connection) (attempt : Nat) :
    (s.onAttemptTimeout c conn attempt).state = s.state := by
  unfold onAttemptTimeout
  split
  · rfl
  · exact state_beginAttempt _ _ _ _

theorem state_disconnect (s : LspClient N) : s.disconnect.state = .disconnected := by
  unfold disconnect
  split
  · rfl
  · rfl

/-- What is completed leaves the state, or ends the initialization. -/
theorem state_completeRequest (s : LspClient N) (i : Nat) (request : Request N)
    (r : Except DartError (Json N)) :
    (completeRequest D s i request r).2.state = s.state ∨
      (completeRequest D s i request r).2.state = .initialized := by
  unfold completeRequest
  split
  · exact Or.inl rfl
  · split
    · exact Or.inl rfl
    · dsimp only
      split
      · exact Or.inr rfl
      · exact Or.inl rfl

theorem state_handleLspMessage (s : LspClient N) (raw : JsString) :
    (handleLspMessage D s raw).2.state = s.state ∨
      (handleLspMessage D s raw).2.state = .initialized := by
  rcases handleLspMessage_cases D s raw with ⟨pending, h⟩ | ⟨pending, i, request, r, h⟩
  · rw [h]
    exact Or.inl rfl
  · rw [h]
    exact state_completeRequest { s with pendingRequests := pending } i request r

/-- A message completes no completer twice. -/
theorem throws_handleLspMessage (h : WellKept s) (raw : JsString) :
    (handleLspMessage D s raw).1 ≠ some .stateError := by
  have hd := handled_message (D := D) h 0 raw
  generalize handleLspMessage D s raw = out at hd
  cases hd with
  | aside => exact nofun
  | answered => exact nofun
  | taken => exact nofun
  | threw => exact nofun

/-! ### What an event does -/

/-- What a handler throws that completes a completer. -/
def thrown (completed : Bool) : Option DartError := if completed then some .stateError else none

theorem none_ne_stateError : (none : Option DartError) ≠ some .stateError := nofun

theorem exception_ne_stateError (message : JsString) :
    some (DartError.exception message) ≠ some .stateError := nofun

/-- The handler of the event completes a completer of `connect` without a look at it. -/
def Event.blunt : Event → Bool
  | .socket _ .connect => true
  | .socket _ (.connectError _) => true
  | .socket _ .lspConnected => true
  | _ => false

/-- **What each event does to the state, and what it throws.** -/
inductive Turn (s : LspClient N) : Event → Option DartError → LspState → Prop
  | connecting (sessionId : JsString) : Turn s (.connect sessionId) none .connecting
  | initializing (rootUri : String) : Turn s (.initializeClient rootUri) none .initializing
  | initialized (c : Nat) (raw : JsString) (o : Option DartError) (ho : o ≠ some .stateError) :
      Turn s (.socket c (.lspMessage raw)) o .initialized
  | disconnected (e : Event) (he : e.blunt = false) : Turn s e none .disconnected
  | quiet (e : Event) (o : Option DartError) (he : e.blunt = false) (ho : o ≠ some .stateError) :
      Turn s e o s.state
  | opened (c : Nat) (conn : Connection) (hc : s.connections[c]? = some conn) :
      Turn s (.socket c .connect) (thrown conn.connectCompleter.isCompleted) s.state
  | failed (c : Nat) (conn : Connection) (error : JsString) (hc : s.connections[c]? = some conn) :
      Turn s (.socket c (.connectError error)) (thrown conn.connectCompleter.isCompleted) .error
  | connected (c : Nat) (conn : Connection) (hc : s.connections[c]? = some conn) :
      Turn s (.socket c .lspConnected) (thrown conn.answered) .connected

theorem turn_onConnect {c : Nat} {conn : Connection} (hc : s.connections[c]? = some conn) :
    Turn s (.socket c .connect) (s.onConnect c conn).1 (s.onConnect c conn).2.state := by
  have ht := Turn.opened c conn hc
  unfold onConnect Completer.complete
  cases hcompleted : conn.connectCompleter.isCompleted with
  | true =>
    rw [hcompleted] at ht
    exact ht
  | false =>
    rw [hcompleted] at ht
    show Turn s _ none (s.beginAttempt c _ 0).state
    rw [state_beginAttempt]
    exact ht

theorem turn_onConnectError {c : Nat} {conn : Connection} (hc : s.connections[c]? = some conn)
    (error : JsString) : Turn s (.socket c (.connectError error)) (s.onConnectError c conn error).1
      (s.onConnectError c conn error).2.state := by
  have ht := Turn.failed c conn error hc
  unfold onConnectError Completer.complete
  cases hcompleted : conn.connectCompleter.isCompleted with
  | true =>
    rw [hcompleted] at ht
    exact ht
  | false =>
    rw [hcompleted] at ht
    exact ht

theorem turn_onLspConnected {c : Nat} {conn : Connection} (hc : s.connections[c]? = some conn) :
    Turn s (.socket c .lspConnected) (s.onLspConnected c conn).1
      (s.onLspConnected c conn).2.state := by
  have ht := Turn.connected c conn hc
  unfold Connection.answered at ht
  simp only [onLspConnected]
  cases hcompleter : conn.lspConnectCompleter with
  | none =>
    rw [hcompleter] at ht
    exact ht
  | some completer =>
    rw [hcompleter] at ht
    dsimp only
    rw [state_completeAttempt, throws_completeAttempt]
    exact ht

theorem turn_onLspError {c : Nat} {conn : Connection} (error : JsString) (code : Int) :
    Turn s (.socket c (.lspError error code)) (s.onLspError c conn error code).1
      (s.onLspError c conn error code).2.state := by
  have hquiet : Turn s (.socket c (.lspError error code)) none s.state :=
    .quiet _ _ rfl none_ne_stateError
  unfold onLspError
  split
  · exact hquiet
  · split
    · exact hquiet
    · split
      · exact hquiet
      · rename_i hopen
        rw [state_completeAttempt, throws_completeAttempt, if_neg hopen]
        exact hquiet

theorem turn_handle (h : WellKept s) {c : Nat} {conn : Connection}
    (hc : s.connections[c]? = some conn) (e : SocketEvent) :
    Turn s (.socket c e) (handle D s c conn e).1 (handle D s c conn e).2.state := by
  cases e with
  | connect => exact turn_onConnect hc
  | connectError error => exact turn_onConnectError hc error
  | lspConnected => exact turn_onLspConnected hc
  | lspMessage raw =>
    have ho := throws_handleLspMessage (D := D) h raw
    show Turn s _ (handleLspMessage D s raw).1 (handleLspMessage D s raw).2.state
    rcases state_handleLspMessage (D := D) s raw with hstate | hstate
    · rw [hstate]
      exact .quiet _ _ rfl ho
    · rw [hstate]
      exact .initialized c raw _ ho
  | lspError error code => exact turn_onLspError error code
  | lspDisconnected => exact .disconnected _ rfl

theorem turn_connect (s : LspClient N) (sessionId : JsString) :
    Turn s (.connect sessionId) (s.connect sessionId).1 (s.connect sessionId).2.state := by
  rw [connect]
  split
  · exact .quiet _ _ rfl (exception_ne_stateError _)
  · exact .connecting sessionId

theorem turn_initializeClient (s : LspClient N) (rootUri : String) :
    Turn s (.initializeClient rootUri) (initializeClient D s rootUri).1
      (initializeClient D s rootUri).2.state := by
  rw [initializeClient]
  split
  · exact .quiet _ _ rfl (exception_ne_stateError _)
  · unfold sendRequest
    rw [state_sendLspMessage]
    exact .initializing rootUri

theorem turn_openDocument (s : LspClient N) (uri content : String) :
    Turn s (.openDocument uri content) (openDocument D s uri content).1
      (openDocument D s uri content).2.state := by
  rw [openDocument]
  split
  · exact .quiet _ _ rfl (exception_ne_stateError _)
  · rw [state_sendLspMessage]
    exact .quiet _ _ rfl none_ne_stateError

theorem turn_goToDefinition (s : LspClient N) (uri : String) (line character : Int) :
    Turn s (.goToDefinition uri line character) (goToDefinition D s uri line character).1
      (goToDefinition D s uri line character).2.state := by
  rw [goToDefinition]
  split
  · exact .quiet _ _ rfl (exception_ne_stateError _)
  · unfold sendRequest
    rw [state_sendLspMessage]
    exact .quiet _ _ rfl none_ne_stateError

theorem turn_of_happens {out : Outcome N} (h : WellKept s) (hs : Happens D s e out) :
    Turn s e out.1 out.2.state := by
  cases hs with
  | connect sessionId => exact turn_connect s sessionId
  | initializeClient rootUri => exact turn_initializeClient s rootUri
  | openDocument uri content => exact turn_openDocument s uri content
  | goToDefinition uri line character => exact turn_goToDefinition s uri line character
  | disconnect =>
    show Turn s .disconnect none s.disconnect.state
    rw [state_disconnect]
    exact .disconnected _ rfl
  | socket c e conn found live => exact turn_handle h found e
  | attemptTimeout c conn attempt found awaited =>
    show Turn s (.attemptTimeout c) none (s.onAttemptTimeout c conn attempt).state
    rw [state_onAttemptTimeout]
    exact .quiet _ _ rfl none_ne_stateError
  | requestTimeout i request found awaited => exact .quiet _ _ rfl none_ne_stateError

theorem turn_of_step (h : WellKept s) (hs : step D s e = some (o, s')) : Turn s e o s'.state :=
  turn_of_happens h (step_cases hs)

/-! ### Whole runs -/

/-- The client, and whether it has been initializing or initialized since the last call of
`connect`, which no code keeps. -/
structure Watched (N : Type) where
  client : LspClient N
  begun : Bool

def Event.isConnect : Event → Bool
  | .connect _ => true
  | _ => false

/-- A call of `connect` that does not throw begins anew. -/
def Watched.after (σ : Watched N) (e : Event) (o : Option DartError) (s : LspClient N) :
    Watched N :=
  ⟨s, if e.isConnect && o.isNone then false else σ.begun || s.state.begun⟩

def watchedMachine (D : DartNumbers N) : Machine (Watched N) Event (Option DartError) where
  step σ e := (step D σ.client e).map fun out => (out.1, σ.after e out.1 out.2)

/-- No completer is completed twice, and what has been initializing or initialized gets back to
connecting or connected by a call of `connect` only. -/
structure Safe (σ : Watched N) (e : Event) (o : Option DartError) (σ' : Watched N) : Prop where
  noStateError : o ≠ some .stateError
  noReturn : σ.begun = true → e.isConnect = false →
    σ'.client.state ≠ .connecting ∧ σ'.client.state ≠ .connected

/-- A socket connects, or fails to, once for a call of `connect`; and the gateway answers an
attempt while its completer is not completed, and before the initialization. -/
def Orderly (σ : Watched N) : Event → Prop
  | .socket c .connect =>
    ∀ conn, σ.client.connections[c]? = some conn → conn.connectCompleter.isCompleted = false
  | .socket c (.connectError _) =>
    ∀ conn, σ.client.connections[c]? = some conn → conn.connectCompleter.isCompleted = false
  | .socket c .lspConnected =>
    σ.begun = false ∧ ∀ conn, σ.client.connections[c]? = some conn → conn.answered = false
  | _ => True

/-- The invariant: what has begun is neither connecting nor connected. -/
structure Steady (σ : Watched N) : Prop where
  wellKept : WellKept σ.client
  begun : σ.begun = true → σ.client.state ≠ .connecting ∧ σ.client.state ≠ .connected

theorem orderly_of_not_blunt {σ : Watched N} (he : e.blunt = false) : Orderly σ e := by
  unfold Orderly
  split
  · cases he
  · cases he
  · cases he
  · trivial

theorem thrown_iff (b : Bool) : thrown b ≠ some .stateError ↔ b = false := by
  cases b with
  | false => exact iff_of_true nofun rfl
  | true => exact iff_of_false (fun h => h rfl) nofun

theorem turn_of_watched {σ σ' : Watched N} (h : Steady σ)
    (hs : (watchedMachine D).step σ e = some (o, σ')) :
    Turn σ.client e o σ'.client.state ∧ WellKept σ'.client ∧ σ' = σ.after e o σ'.client := by
  obtain ⟨⟨o', s'⟩, hstep, heq⟩ := Option.map_eq_some_iff.mp hs
  obtain ⟨rfl, rfl⟩ := Prod.mk.inj heq
  exact ⟨turn_of_step h.wellKept hstep, wellKept_step h.wellKept hstep, rfl⟩

/-- **An event is safe if and only if it is orderly.** -/
theorem safe_iff {σ σ' : Watched N} (h : Steady σ)
    (hs : (watchedMachine D).step σ e = some (o, σ')) : Safe σ e o σ' ↔ Orderly σ e := by
  have hturn := (turn_of_watched h hs).1
  generalize hstate : σ'.client.state = state at hturn
  -- what is left of the two properties of the event
  have hsafe : Safe σ e o σ' ↔ o ≠ some .stateError ∧ (σ.begun = true → e.isConnect = false →
      state ≠ .connecting ∧ state ≠ .connected) := by
    rw [← hstate]
    exact ⟨fun h => ⟨h.1, h.2⟩, fun h => ⟨h.1, h.2⟩⟩
  rw [hsafe]
  cases hturn with
  | connecting sessionId => exact iff_of_true ⟨nofun, nofun⟩ trivial
  | initializing rootUri => exact iff_of_true ⟨nofun, fun _ _ => ⟨nofun, nofun⟩⟩ trivial
  | initialized c raw o ho => exact iff_of_true ⟨ho, fun _ _ => ⟨nofun, nofun⟩⟩ trivial
  | disconnected e he =>
    exact iff_of_true ⟨nofun, fun _ _ => ⟨nofun, nofun⟩⟩ (orderly_of_not_blunt he)
  | quiet e o he ho => exact iff_of_true ⟨ho, fun hb _ => h.begun hb⟩ (orderly_of_not_blunt he)
  | opened c conn hc =>
    rw [thrown_iff, and_iff_left fun hb _ => h.begun hb]
    constructor
    · intro hcompleted conn' hc'
      obtain rfl := Option.some.inj (hc.symm.trans hc')
      exact hcompleted
    · intro ho
      exact ho conn hc
  | failed c conn error hc =>
    rw [thrown_iff, and_iff_left fun _ _ => ⟨nofun, nofun⟩]
    constructor
    · intro hcompleted conn' hc'
      obtain rfl := Option.some.inj (hc.symm.trans hc')
      exact hcompleted
    · intro ho
      exact ho conn hc
  | connected c conn hc =>
    rw [thrown_iff]
    constructor
    · rintro ⟨hanswered, hreturn⟩
      refine ⟨?_, fun conn' hc' => ?_⟩
      · cases hb : σ.begun with
        | false => rfl
        | true => exact absurd rfl (hreturn hb rfl).2
      · obtain rfl := Option.some.inj (hc.symm.trans hc')
        exact hanswered
    · rintro ⟨hb, ho⟩
      refine ⟨ho conn hc, fun hb' => ?_⟩
      rw [hb] at hb'
      cases hb'

/-- **Safe events keep the invariant.** -/
theorem steady_step {σ σ' : Watched N} (h : Steady σ) (hsafe : Safe σ e o σ')
    (hs : (watchedMachine D).step σ e = some (o, σ')) : Steady σ' := by
  obtain ⟨hturn, hkept, hafter⟩ := turn_of_watched h hs
  refine ⟨hkept, fun hb => ?_⟩
  rw [hafter] at hb
  unfold Watched.after at hb
  dsimp only at hb
  split at hb
  · cases hb
  · rename_i hcall
    rcases (Bool.or_eq_true _ _).mp hb with hb | hb
    · cases he : e.isConnect with
      | false => exact hsafe.noReturn hb he
      | true =>
        -- a call that throws
        rw [he, Bool.true_and] at hcall
        generalize σ'.client.state = state at hturn
        cases hturn with
        | connecting => exact absurd rfl hcall
        | quiet => exact h.begun hb
        | disconnected => exact ⟨nofun, nofun⟩
        | _ => cases he
    · revert hb
      cases σ'.client.state with
      | initializing => exact fun _ => ⟨nofun, nofun⟩
      | initialized => exact fun _ => ⟨nofun, nofun⟩
      | _ => exact nofun

/-- **A run is safe exactly when its events are orderly**: no completer is completed twice in a
run, and what has been initializing or initialized gets back to connecting or connected by a new
call of `connect` only, if and only if a socket connects, or fails to, only while the completer
of its call of `connect` is open, and `lsp-connected` comes only while the completer of its
attempt is, and before the initialization. -/
theorem connection_safe_iff (D : DartNumbers N) (serverUrl token : JsString) (es : List Event) :
    (watchedMachine D).Along Safe ⟨LspClient.new serverUrl token, false⟩ es ↔
      (watchedMachine D).Meets Orderly ⟨LspClient.new serverUrl token, false⟩ es :=
  Machine.along_iff ⟨wellKept_new serverUrl token, nofun⟩ (fun _ _ _ _ h hs => safe_iff h hs)
    fun _ _ _ _ h ho hs => steady_step h ((safe_iff h hs).mpr ho) hs

/-- The first attempt is answered when the second is awaited, and the client goes on; then the
second is answered. -/
def answeredTwice : List Event :=
  [.connect (js "s"), .socket 0 .connect, .attemptTimeout 0, .socket 0 .lspConnected,
    .initializeClient "file:///workspace"]

/-- The second answer throws a `StateError`, and moves a client that is initializing back to
connected. -/
theorem initialization_undone_by_late_answer :
    (∃ σ σ' : Watched Int, (watchedMachine integers).run
        ⟨LspClient.new (js "http://localhost:3000") (js "t"), false⟩ answeredTwice = some σ ∧
      σ.client.state = .initializing ∧ (watchedMachine integers).step σ (.socket 0 .lspConnected) =
        some (some .stateError, σ') ∧ σ'.client.state = .connected) ∧
    ¬ (watchedMachine integers).Along Safe
      ⟨LspClient.new (js "http://localhost:3000") (js "t"), false⟩
      (answeredTwice ++ [.socket 0 .lspConnected]) := by
  obtain ⟨σ, σ', hrun, hbefore, hstep, hafter⟩ : ∃ σ σ' : Watched Int,
      (watchedMachine integers).run
        ⟨LspClient.new (js "http://localhost:3000") (js "t"), false⟩ answeredTwice = some σ ∧
      σ.client.state = .initializing ∧ (watchedMachine integers).step σ (.socket 0 .lspConnected) =
        some (some .stateError, σ') ∧ σ'.client.state = .connected :=
    ⟨_, _, rfl, rfl, rfl, rfl⟩
  refine ⟨⟨σ, σ', hrun, hbefore, hstep, hafter⟩, fun h => ?_⟩
  exact (h.of_run hrun hstep).noStateError rfl

end LspClient

end FullstackSvc.Cli
