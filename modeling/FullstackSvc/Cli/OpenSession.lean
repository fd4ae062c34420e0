import FullstackSvc.Cli.Requests
import FullstackSvc.Cli.Sockets

/-!
# A session that could not be opened (`lsp_open_session_menu_item.dart`)

`execute` makes a client once the session is created, and stores it once the
client is initialized.  When `connect` or `initialize` throws, the handler sets
two references that are still `null`, and nobody can dispose of the client.

* `openingRun`: a call of `execute` with the client that it made and the call
  that threw.
* `ends_openingRun`: a client that is given up holds its socket, whatever has
  come.
* `failed_opening_leaves_nothing_iff`: **a failure leaves nothing behind exactly
  when it comes before there is a client**.
-/

namespace FullstackSvc.Cli

open Text Lsp Store Async

variable {N : Type}

/-- What `execute` awaits in its `try`. -/
inductive Awaited
  | createSession
  | connect
  | initialization
  deriving DecidableEq

/-- The end of a call of `execute`. -/
structure Opening (N : Type) where
  app : CliApp N
  /-- The client that it made. -/
  client : Option (LspClient N)
  /-- What threw. -/
  thrower : Option Awaited

namespace CliApp

open LspClient

/-- `openSession`, with the client that it made. -/
def openingRun (D : DartNumbers N) (s : CliApp N) (created : Except DartError JsString)
    (connecting initializing : List Event) : Option (Opening N) :=
  match s.storage.token with
  | none => some ⟨s, none, none⟩
  | some token =>
    if s.lspSessionManager.hasActiveConnection then some ⟨s, none, none⟩
    else
      let s := s.ask (.createSession created)
      match created with
      | .error _ => some ⟨s.giveUp, none, some .createSession⟩
      | .ok sessionId =>
        match awaitConnect D (.new s.baseUrl token) sessionId connecting with
        | none => none
        | some (.error _, client) => some ⟨s.giveUp, some client, some .connect⟩
        | some (.ok _, client) =>
          match awaitInitialize D client "file:///workspace" initializing with
          | none => none
          | some (.error _, client) => some ⟨s.giveUp, some client, some .initialization⟩
          | some (.ok _, client) =>
            some ⟨{ s with lspSessionManager := ⟨some sessionId, some client, true⟩ }, some client,
              none⟩

variable {D : DartNumbers N} {s s' : CliApp N} {created : Except DartError JsString}
  {connecting initializing : List Event} {opening : Opening N}

theorem openSession_eq (D : DartNumbers N) (s : CliApp N) (created : Except DartError JsString)
    (connecting initializing : List Event) :
    s.openSession D created connecting initializing =
      (s.openingRun D created connecting initializing).map Opening.app := by
  unfold openSession openingRun
  cases s.storage.token with
  | none => rfl
  | some token =>
    dsimp only
    cases s.lspSessionManager.hasActiveConnection with
    | true => rfl
    | false =>
      cases created with
      | error e => rfl
      | ok sessionId =>
        dsimp only
        cases awaitConnect D (.new (s.ask (.createSession (.ok sessionId))).baseUrl token) sessionId
            connecting with
        | none => rfl
        | some a =>
          obtain ⟨r, client⟩ := a
          cases r with
          | error e => rfl
          | ok _ =>
            dsimp only
            cases awaitInitialize D client "file:///workspace" initializing with
            | none => rfl
            | some a =>
              obtain ⟨r, client'⟩ := a
              cases r with
              | error e => rfl
              | ok _ => rfl

/-! ### What a failure leaves -/

/-- A client that was disposed of, and its sockets with it. -/
def Disposed (client : LspClient N) : Prop :=
  client.socket = none ∧ ∀ conn ∈ client.connections, conn.disposed = true

/-- Nothing is left behind; `closed` are the sockets that the server has closed for good, and
all others are connected or reconnecting until they are disposed of. -/
structure LeavesNothing (closed : Nat → Bool) (opening : Opening N) : Prop where
  sockets : ∀ client, opening.client = some client → ∀ (c : Nat) (conn : Connection),
    client.connections[c]? = some conn → conn.disposed = true ∨ closed c = true
  disposed : ∀ client, opening.client = some client → Disposed client
  session : opening.app.lspSessionManager.currentSessionId = none
  activeClient : opening.app.lspSessionManager.activeClient = none
  renewal : opening.app.lspSessionManager.renewing = false
  state : ∀ client, opening.client = some client → opening.thrower = some .connect →
    client.state = .disconnected

/-- Without a client there is no session and no renewal. -/
def Idle (s : CliApp N) : Prop :=
  s.lspSessionManager.activeClient = none →
    s.lspSessionManager.currentSessionId = none ∧ s.lspSessionManager.renewing = false

/-- **How a call of `execute` ends.** -/
inductive Ends (s : CliApp N) : Except DartError JsString → Opening N → Prop
  | refused (created : Except DartError JsString) : Ends s created ⟨s, none, none⟩
  | notCreated (e : DartError) (hidle : s.lspSessionManager.activeClient = none) :
      Ends s (.error e) ⟨(s.ask (.createSession (.error e))).giveUp, none, some .createSession⟩
  | threw {sessionId token : JsString} {client : LspClient N} {thrower : Awaited}
      (hidle : s.lspSessionManager.activeClient = none)
      (hsockets : client.sockets = (some 0, [(token, false)])) :
      Ends s (.ok sessionId)
        ⟨(s.ask (.createSession (.ok sessionId))).giveUp, some client, some thrower⟩
  | opened {sessionId : JsString} {client : LspClient N} :
      Ends s (.ok sessionId) ⟨{ s.ask (.createSession (.ok sessionId)) with
        lspSessionManager := ⟨some sessionId, some client, true⟩ }, some client, none⟩

/-- A client that was given up holds its socket, whatever has come. -/
theorem ends_openingRun (h : s.openingRun D created connecting initializing = some opening) :
    Ends s created opening := by
  unfold openingRun at h
  split at h
  · cases h
    exact .refused _
  · split at h
    · cases h
      exact .refused _
    · rename_i hactive
      have hidle : s.lspSessionManager.activeClient = none :=
        Option.not_isSome_iff_eq_none.mp hactive
      dsimp only at h
      split at h
      · cases h
        exact .notCreated _ hidle
      · split at h
        · cases h
        · rename_i hconnect
          cases h
          exact .threw hidle (sockets_awaitConnect hconnect)
        · rename_i hconnect
          split at h
          · cases h
          · rename_i hinit
            cases h
            exact .threw hidle ((sockets_awaitInitialize hinit).trans (sockets_awaitConnect hconnect))
          · cases h
            exact .opened

theorem idle_ends (hidle : Idle s) (h : Ends s created opening) : Idle opening.app := by
  cases h with
  | refused => exact hidle
  | notCreated e hnone => exact fun _ => ⟨rfl, (hidle hnone).2⟩
  | threw hnone => exact fun _ => ⟨rfl, (hidle hnone).2⟩
  | opened => exact nofun

theorem idle_gotoDefinition {input : Option (String × Int × Int)}
    {upload : Except DartError String} {awaiting : List Event} (hidle : Idle s)
    (h : s.gotoDefinition D input upload awaiting = some s') : Idle s' := by
  unfold gotoDefinition at h
  split at h
  · exact Option.some.inj h ▸ hidle
  · split at h
    · dsimp only at h
      split at h
      · exact Option.some.inj h ▸ hidle
      · split at h
        · exact Option.some.inj h ▸ nofun
        · split at h
          · cases h
          · exact Option.some.inj h ▸ nofun
    · exact Option.some.inj h ▸ hidle

theorem idle_execute {action : Action} (hidle : Idle s) (h : s.execute D action = some s') :
    Idle s' := by
  cases action with
  | register => exact Option.some.inj h ▸ hidle
  | login email answer =>
    cases answer with
    | error e => exact Option.some.inj h ▸ hidle
    | ok token => exact Option.some.inj h ▸ hidle
  | runCode => exact Option.some.inj h ▸ hidle
  | openSession created connecting initializing =>
    change s.openSession D created connecting initializing = some s' at h
    rw [openSession_eq] at h
    obtain ⟨opening, hopening, rfl⟩ := Option.map_eq_some_iff.mp h
    exact idle_ends hidle (ends_openingRun hopening)
  | gotoDefinition input upload awaiting => exact idle_gotoDefinition hidle h
  | closeSession =>
    obtain rfl := Option.some.inj h
    unfold closeSession
    split
    · exact hidle
    · split
      · exact hidle
      · exact fun _ => ⟨rfl, rfl⟩
  | logout =>
    obtain rfl := Option.some.inj h
    unfold logout
    split
    · exact hidle
    · exact hidle
  | exit =>
    obtain rfl := Option.some.inj h
    intro hnone
    exact ⟨(hidle (Option.map_eq_none_iff.mp hnone)).1, rfl⟩

theorem idle_step {e : AppEvent} {o : Unit} (hidle : Idle s)
    (hs : (machine D).step s e = some (o, s')) : Idle s' := by
  simp only [machine] at hs
  split at hs
  · obtain ⟨s₁, hreact, heq⟩ := Option.map_eq_some_iff.mp hs
    obtain ⟨-, rfl⟩ := Prod.mk.inj heq
    cases e with
    | menu action => exact idle_execute hidle hreact
    | client e =>
      simp only [react] at hreact
      split at hreact
      · cases hreact
      · split at hreact
        · cases hreact
        · split at hreact
          · cases hreact
          · exact Option.some.inj hreact ▸ nofun
    | renewal =>
      simp only [react] at hreact
      split at hreact
      · obtain rfl := Option.some.inj hreact
        unfold renew
        split
        · exact hidle
        · exact hidle
      · cases hreact
  · cases hs

/-- **A failed opening leaves nothing behind exactly when `createSession` throws.**  In every
state that the program reaches, when a call of `execute` ends with an error, no socket and no
client is left, the session manager is empty, nothing is renewed, and a client whose `connect`
threw is disconnected, if and only if the error is that of `createSession`, which comes before
there is a client. -/
theorem failed_opening_leaves_nothing_iff (D : DartNumbers N) (baseUrl : JsString)
    {events : List AppEvent} (hreach : (machine D).run (CliApp.new baseUrl) events = some s)
    (h : s.openingRun D created connecting initializing = some opening)
    (hthrew : opening.thrower.isSome) (closed : Nat → Bool) :
    LeavesNothing closed opening ↔ ∃ e, created = .error e := by
  have hidle : Idle s := Machine.run_inv (fun _ _ _ _ hi hs => idle_step hi hs)
    (fun _ => ⟨rfl, rfl⟩) hreach
  cases ends_openingRun h with
  | refused => cases hthrew
  | notCreated e hnone =>
    refine iff_of_true ⟨nofun, nofun, rfl, rfl, (hidle hnone).2, nofun⟩ ⟨e, rfl⟩
  | opened => cases hthrew
  | threw hnone hsockets =>
    refine iff_of_false ?_ nofun
    intro hleaves
    have hheld := (hleaves.disposed _ rfl).1
    have hsocket := congrArg Prod.fst hsockets
    cases hheld.symm.trans hsocket

/-- A user logs in. -/
def loggedIn : List AppEvent := [.menu (.login (js "kim@example.com") (.ok (js "t")))]

/-- The server refuses to create a session. -/
theorem failed_creation_leaves_nothing :
    ∃ s opening, (machine integers).run (CliApp.new (js "http://localhost:3000")) loggedIn = some s ∧
      s.openingRun integers (.error (.exception (js "401"))) [] [] = some opening ∧
      LeavesNothing (fun _ => false) opening := by
  obtain ⟨s, hs⟩ : ∃ s, (machine integers).run (CliApp.new (js "http://localhost:3000")) loggedIn =
      some s := ⟨_, rfl⟩
  obtain ⟨opening, hopening⟩ : ∃ opening, s.openingRun integers
      (.error (.exception (js "401"))) [] [] = some opening := by
    cases hs
    exact ⟨_, rfl⟩
  have hthrew : opening.thrower.isSome := by
    cases hs
    cases hopening
    rfl
  exact ⟨s, opening, hs, hopening, (failed_opening_leaves_nothing_iff integers _ hs hopening hthrew
    _).mpr ⟨_, rfl⟩⟩

/-- What is left of the client: the call that threw, its state and its sockets. -/
def remains (opening : Opening Int) :
    Option Awaited × Option (LspState × Option Nat × List (JsString × Bool)) :=
  (opening.thrower, opening.client.map fun client => (client.state, client.sockets))

/-- The server cannot be reached: the socket goes on trying to connect.  And the container never
answers: the socket stays connected. -/
theorem failed_connection_leaves_socket :
    ∃ s, (machine integers).run (CliApp.new (js "http://localhost:3000")) loggedIn = some s ∧
      (∃ opening, s.openingRun integers (.ok (js "s")) [.socket 0 (.connectError (js "refused"))] [] =
          some opening ∧
        remains opening = (some .connect, some (.error, some 0, [(js "t", false)])) ∧
        ¬ LeavesNothing (fun _ => false) opening) ∧
      ∃ opening, s.openingRun integers (.ok (js "s"))
          (.socket 0 .connect :: List.replicate 10 (.attemptTimeout 0)) [] = some opening ∧
        remains opening = (some .connect, some (.connecting, some 0, [(js "t", false)])) ∧
        ¬ LeavesNothing (fun _ => false) opening := by
  have hleft : ∀ (state : LspState) (opening : Opening Int), state ≠ .disconnected →
      remains opening = (some .connect, some (state, some 0, [(js "t", false)])) →
      ¬ LeavesNothing (fun _ => false) opening := by
    intro state opening hstate hremains hleaves
    obtain ⟨hthrower, hclient⟩ := Prod.mk.inj hremains
    obtain ⟨client, hclient, hrest⟩ := Option.map_eq_some_iff.mp hclient
    exact hstate ((Prod.mk.inj hrest).1.symm.trans (hleaves.state client hclient hthrower))
  refine ⟨_, rfl, ⟨_, rfl, by rfl, ?_⟩, _, rfl, by rfl, ?_⟩
  · exact hleft .error _ (by decide) (by rfl)
  · exact hleft .connecting _ (by decide) (by rfl)

end CliApp

end FullstackSvc.Cli
