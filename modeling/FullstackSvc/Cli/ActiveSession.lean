import FullstackSvc.Cli.Requests
import FullstackSvc.Cli.Sockets

/-!
# The active session belongs to the user

The token storage, the header and the session manager are changed by different
menu items.  Opening a session is the only one that reads all three, and closing
it the only one that drops the client; logging in and out leave it.

* `auths_step`: the tokens that the sockets of a client were opened with stay.
* `Kept`: the header is the one of the stored token, and the active session is
  the user's.
* `belongs_iff`: in such a state, an event leaves the session to its user if and
  only if it is considerate.
* `active_session_belongs_iff`: **the active session belongs to the user along a
  run exactly when nobody logs out, or in as somebody else, while it is open**.
-/

namespace FullstackSvc.Cli

open Text Lsp Store Async

variable {N : Type} {D : DartNumbers N}

/-! ### The tokens of the sockets -/

namespace LspClient

variable {s s' : LspClient N} {e : Event} {o : Option DartError}

/-- The tokens that the sockets were opened with. -/
def auths (s : LspClient N) : List JsString := s.connections.map Connection.auth

theorem auths_eq (s : LspClient N) : s.auths = s.sockets.2.map Prod.fst := by
  rw [sockets, List.map_map]
  rfl

theorem auths_of_sockets (h : s'.sockets = s.sockets) : s'.auths = s.auths := by
  rw [auths_eq, auths_eq, h]

theorem auths_disconnect (s : LspClient N) : s.disconnect.auths = s.auths := by
  unfold disconnect
  split
  · rfl
  · rename_i c _
    refine List.ext_getElem? fun i => ?_
    simp only [auths, List.getElem?_map, List.getElem?_modify]
    cases s.connections[i]? with
    | none => rfl
    | some conn =>
      by_cases hi : c = i
      · simp [hi]
      · simp [hi]

/-- **Only `connect` opens a socket**, and a socket keeps its token. -/
theorem auths_step (he : ∀ sessionId, e ≠ .connect sessionId)
    (hs : step D s e = some (o, s')) : s'.auths = s.auths := by
  by_cases hdisconnect : e = .disconnect
  · subst hdisconnect
    cases hs
    exact auths_disconnect s
  · exact auths_of_sockets (sockets_step he hdisconnect hs)

end LspClient

namespace CliApp

open LspClient

variable {User : Type} {user : JsString → User} {s s' : CliApp N} {e : AppEvent}
  {sessionId token made : JsString}

/-! ### Whose session it is -/

/-- The session was made with this token, when it was made last. -/
def MadeWith (s : CliApp N) (sessionId token : JsString) : Prop :=
  ∃ before after, s.asked =
      before ++ (.createSession (.ok sessionId), some (bearer token)) :: after ∧
    ∀ header, (.createSession (.ok sessionId), header) ∉ after

/-- The session of the client, and its socket, are those of the user who is logged in. -/
structure Owned (user : JsString → User) (s : CliApp N) (client : LspClient N)
    (sessionId token made opened : JsString) : Prop where
  current : s.lspSessionManager.currentSessionId = some sessionId
  loggedIn : s.storage.token = some token
  madeWith : s.MadeWith sessionId made
  maker : user made = user token
  openedWith : client.auths = [opened]
  opener : user opened = user token

/-- The active session, if there is one, belongs to the user. -/
def Belongs (user : JsString → User) (s : CliApp N) : Prop :=
  ∀ client, s.lspSessionManager.activeClient = some client →
    ∃ sessionId token made opened, Owned user s client sessionId token made opened

/-- While a session is open, nobody logs out, and nobody logs in but its user. -/
def Considerate (user : JsString → User) (s : CliApp N) : AppEvent → Prop
  | .menu .logout => s.lspSessionManager.activeClient = none
  | .menu (.login _ (.ok token')) => s.lspSessionManager.activeClient = none ∨
      ∀ token, s.storage.token = some token → user token' = user token
  | _ => True

theorem madeWith_ask {call : LspApiCall} (h : s.MadeWith sessionId made)
    (hcall : ∀ sessionId, call ≠ .createSession (.ok sessionId)) :
    (s.ask call).MadeWith sessionId made := by
  obtain ⟨before, after, heq, hno⟩ := h
  refine ⟨before, after ++ [(call, s.authorization)], ?_, fun header hm => ?_⟩
  · show s.asked ++ _ = _
    rw [heq, List.append_assoc, List.cons_append]
  · rcases List.mem_append.mp hm with hm | hm
    · exact hno header hm
    · exact hcall sessionId (congrArg Prod.fst (List.mem_singleton.mp hm)).symm

/-! ### What an event does -/

/-- The session is as it was: another client in its place has the same sockets. -/
structure Like (s s' : CliApp N) : Prop where
  storage : s'.storage = s.storage
  authorization : s'.authorization = s.authorization
  current : s'.lspSessionManager.currentSessionId = s.lspSessionManager.currentSessionId
  client : ∀ client', s'.lspSessionManager.activeClient = some client' →
    ∃ client, s.lspSessionManager.activeClient = some client ∧ client'.auths = client.auths
  madeWith : ∀ sessionId made, s.MadeWith sessionId made → s'.MadeWith sessionId made

theorem Like.refl (s : CliApp N) : Like s s :=
  ⟨rfl, rfl, rfl, fun client' h => ⟨client', h, rfl⟩, fun _ _ h => h⟩

theorem like_ask {call : LspApiCall} (hcall : ∀ sessionId, call ≠ .createSession (.ok sessionId)) :
    Like s (s.ask call) :=
  ⟨rfl, rfl, rfl, fun client' h => ⟨client', h, rfl⟩, fun _ _ h => madeWith_ask h hcall⟩

theorem Like.withClient {client client' : LspClient N} (h : Like s s')
    (hc : s.lspSessionManager.activeClient = some client) (hauths : client'.auths = client.auths) :
    Like s (s'.withClient client') :=
  ⟨h.storage, h.authorization, h.current, fun _ heq => by
    obtain rfl := Option.some.inj heq
    exact ⟨client, hc, hauths⟩, h.madeWith⟩

/-- Somebody logs in or out. -/
def AppEvent.logs : AppEvent → Bool
  | .menu .logout => true
  | .menu (.login _ (.ok _)) => true
  | _ => false

/-- **What each event does.** -/
inductive Effect (s : CliApp N) : AppEvent → CliApp N → Prop
  | like (e : AppEvent) {s' : CliApp N} (h : Like s s') (he : e.logs = false) : Effect s e s'
  | idle (e : AppEvent) {s' : CliApp N} (hstorage : s'.storage = s.storage)
      (hauthorization : s'.authorization = s.authorization)
      (h : s'.lspSessionManager.activeClient = none) (he : e.logs = false) : Effect s e s'
  | opened (connecting initializing : List Event) {client : LspClient N}
      {sessionId token : JsString} (h : s.storage.token = some token)
      (hauths : client.auths = [token]) :
      Effect s (.menu (.openSession (.ok sessionId) connecting initializing))
        { s.ask (.createSession (.ok sessionId)) with
          lspSessionManager := ⟨some sessionId, some client, true⟩ }
  | loggedIn (email token : JsString) :
      Effect s (.menu (.login email (.ok token))) (s.login email (.ok token))
  | loggedOut : Effect s (.menu .logout) s.logout

theorem effect_openSession {created : Except DartError JsString}
    {connecting initializing : List Event}
    (h : s.openSession D created connecting initializing = some s') :
    Effect s (.menu (.openSession created connecting initializing)) s' := by
  unfold openSession at h
  split at h
  · cases h
    exact .like _ (.refl s) rfl
  · rename_i token htoken
    split at h
    · cases h
      exact .like _ (.refl s) rfl
    · dsimp only at h
      split at h
      · cases h
        exact .idle _ rfl rfl rfl rfl
      · rename_i sessionId
        split at h
        · cases h
        · cases h
          exact .idle _ rfl rfl rfl rfl
        · rename_i client₁ hconnect
          split at h
          · cases h
          · cases h
            exact .idle _ rfl rfl rfl rfl
          · rename_i client hinit
            cases h
            have hsockets : client.sockets = (some 0, [(token, false)]) :=
              (sockets_awaitInitialize hinit).trans (sockets_awaitConnect hconnect)
            have hauths : client.auths = [token] := by
              rw [auths_eq, hsockets]
              rfl
            exact .opened connecting initializing htoken hauths

theorem effect_gotoDefinition {input : Option (String × Int × Int)}
    {upload : Except DartError String} {awaiting : List Event}
    (h : s.gotoDefinition D input upload awaiting = some s') :
    Effect s (.menu (.gotoDefinition input upload awaiting)) s' := by
  unfold gotoDefinition at h
  split at h
  · cases h
    exact .like _ (.refl s) rfl
  · split at h
    · rename_i client content line character sessionId hclient _
      have hask : Like s (s.ask (.uploadFile sessionId)) := like_ask nofun
      dsimp only at h
      split at h
      · cases h
        exact .like _ hask rfl
      · rename_i filePath
        have hopen : (openDocument D client ("file://" ++ filePath) content).2.auths =
            client.auths :=
          auths_of_sockets (sockets_openDocument _ _ _)
        split at h
        · rename_i hout
          rw [hout] at hopen
          cases h
          exact .like _ (hask.withClient hclient hopen) rfl
        · rename_i client₁ hout
          rw [hout] at hopen
          split at h
          · cases h
          · rename_i client₂ hdefinition
            have hgoto : client₂.auths = client₁.auths :=
              auths_of_sockets (sockets_awaitDefinition hdefinition)
            cases h
            exact .like _ (hask.withClient hclient (hgoto.trans hopen)) rfl
    · cases h
      exact .like _ (.refl s) rfl

theorem effect_execute {action : Action} (h : s.execute D action = some s') :
    Effect s (.menu action) s' := by
  cases action with
  | register =>
    cases h
    exact .like _ (.refl s) rfl
  | login email answer =>
    cases answer with
    | error x =>
      cases h
      exact .like _ (.refl s) rfl
    | ok token =>
      cases h
      exact .loggedIn email token
  | runCode =>
    cases h
    exact .like _ (.refl s) rfl
  | openSession created connecting initializing => exact effect_openSession h
  | gotoDefinition input upload awaiting => exact effect_gotoDefinition h
  | closeSession =>
    obtain rfl := Option.some.inj h
    unfold closeSession
    split
    · exact .like _ (.refl s) rfl
    · split
      · exact .like _ (.refl s) rfl
      · exact .idle _ rfl rfl rfl rfl
  | logout =>
    cases h
    exact .loggedOut
  | exit =>
    cases h
    refine .like _ ⟨rfl, rfl, rfl, fun client' hclient => ?_, fun _ _ hm => hm⟩ rfl
    obtain ⟨client, hc, rfl⟩ := Option.map_eq_some_iff.mp hclient
    exact ⟨client, hc, auths_disconnect client⟩

theorem effect_of_react (h : s.react D e = some s') : Effect s e s' := by
  cases e with
  | menu action => exact effect_execute h
  | client e =>
    simp only [react] at h
    split at h
    · cases h
    · rename_i client hclient
      split at h
      · cases h
      · rename_i hcall
        split at h
        · cases h
        · rename_i o client' hs
          have he : ∀ sessionId, e ≠ .connect sessionId := by
            rintro sessionId rfl
            exact hcall rfl
          cases h
          exact .like _ ((Like.refl s).withClient hclient (auths_step he hs)) rfl
  | renewal =>
    simp only [react] at h
    split at h
    · cases h
      unfold renew
      split
      · exact .like _ (.refl s) rfl
      · exact .like _ (like_ask nofun) rfl
    · cases h

/-! ### Whole runs -/

/-- The invariant: the header is the one of the stored token, and the session is the user's. -/
structure Kept (user : JsString → User) (s : CliApp N) : Prop where
  header : s.authorization = s.storage.token.map bearer
  belongs : Belongs user s

theorem kept_new (user : JsString → User) (baseUrl : JsString) :
    Kept user (CliApp.new baseUrl : CliApp N) :=
  ⟨rfl, fun _ h => by cases h⟩

theorem belongs_of_idle (h : s.lspSessionManager.activeClient = none) : Belongs user s := by
  intro client hc
  rw [h] at hc
  cases hc

theorem Belongs.of_like (h : Belongs user s) (hl : Like s s') : Belongs user s' := by
  intro client' hc'
  obtain ⟨client, hc, hauths⟩ := hl.client client' hc'
  obtain ⟨sessionId, token, made, opened, ho⟩ := h client hc
  exact ⟨sessionId, token, made, opened, hl.current.trans ho.current,
    (congrArg TokenStorage.token hl.storage).trans ho.loggedIn, hl.madeWith _ _ ho.madeWith,
    ho.maker, hauths.trans ho.openedWith, ho.opener⟩

/-- Who logs in is the user of the session, if there is one. -/
theorem belongs_login_iff (h : Belongs user s) (email token' : JsString) :
    Belongs user (s.login email (.ok token')) ↔ s.lspSessionManager.activeClient = none ∨
      ∀ token, s.storage.token = some token → user token' = user token := by
  constructor
  · intro hb
    cases hc : s.lspSessionManager.activeClient with
    | none => exact Or.inl rfl
    | some client =>
      refine Or.inr fun token htoken => ?_
      obtain ⟨_, _, _, opened, ho⟩ := h client hc
      obtain ⟨_, _, _, opened', ho'⟩ := hb client hc
      obtain rfl := Option.some.inj (htoken.symm.trans ho.loggedIn)
      obtain rfl := Option.some.inj ho'.loggedIn
      obtain rfl : opened = opened' :=
        List.head_eq_of_cons_eq (ho.openedWith.symm.trans ho'.openedWith)
      exact ho'.opener.symm.trans ho.opener
  · rintro (hnone | hsame)
    · exact belongs_of_idle hnone
    · intro client hc
      obtain ⟨sessionId, token, made, opened, ho⟩ := h client hc
      have huser := hsame token ho.loggedIn
      exact ⟨sessionId, token', made, opened, ho.current, rfl, ho.madeWith,
        ho.maker.trans huser.symm, ho.openedWith, ho.opener.trans huser.symm⟩

/-- After a logout the session has no user. -/
theorem belongs_logout_iff :
    Belongs user s.logout ↔ s.lspSessionManager.activeClient = none := by
  unfold logout
  split
  · constructor
    · intro hb
      cases hc : s.lspSessionManager.activeClient with
      | none => rfl
      | some client =>
        obtain ⟨_, _, _, _, ho⟩ := hb client hc
        cases ho.loggedIn
    · intro hnone
      refine belongs_of_idle ?_
      exact hnone
  · rename_i hout
    constructor
    · intro hb
      cases hc : s.lspSessionManager.activeClient with
      | none => rfl
      | some client =>
        obtain ⟨_, _, _, _, ho⟩ := hb client hc
        exact absurd (by rw [TokenStorage.isLoggedIn, ho.loggedIn]; rfl) hout
    · exact belongs_of_idle

/-- A session that is opened is the user's, by the header and by the token. -/
theorem belongs_opened (h : Kept user s) {client : LspClient N}
    (htoken : s.storage.token = some token) (hauths : client.auths = [token]) :
    Belongs user { s.ask (.createSession (.ok sessionId)) with
      lspSessionManager := ⟨some sessionId, some client, true⟩ } := by
  intro client' hc'
  obtain rfl := Option.some.inj hc'
  refine ⟨sessionId, token, token, token, rfl, htoken, ⟨s.asked, [], ?_, nofun⟩, rfl, hauths, rfl⟩
  show s.asked ++ [(_, s.authorization)] = _
  rw [h.header, htoken]
  rfl

theorem considerate_of_logs (he : e.logs = false) : Considerate user s e := by
  unfold Considerate
  split
  · cases he
  · cases he
  · trivial

/-- **An event leaves the session to its user if and only if it is considerate.** -/
theorem belongs_iff (h : Kept user s) (he : Effect s e s') :
    Belongs user s' ↔ Considerate user s e := by
  cases he with
  | like e hl he => exact iff_of_true (h.belongs.of_like hl) (considerate_of_logs he)
  | idle e _ _ hidle he => exact iff_of_true (belongs_of_idle hidle) (considerate_of_logs he)
  | opened connecting initializing htoken hauths =>
    exact iff_of_true (belongs_opened h htoken hauths) trivial
  | loggedIn email token => exact belongs_login_iff h.belongs email token
  | loggedOut => exact belongs_logout_iff

/-- The header goes with the token. -/
theorem header_of_effect (h : s.authorization = s.storage.token.map bearer) (he : Effect s e s') :
    s'.authorization = s'.storage.token.map bearer := by
  cases he with
  | like e hl => rw [hl.authorization, hl.storage, h]
  | idle e hstorage hauthorization => rw [hauthorization, hstorage, h]
  | opened connecting initializing htoken hauths => exact h
  | loggedIn email token => rfl
  | loggedOut =>
    unfold logout
    split
    · rfl
    · exact h

theorem effect_of_step {o : Unit} (hs : (machine D).step s e = some (o, s')) : Effect s e s' := by
  simp only [machine] at hs
  split at hs
  · obtain ⟨s₁, hreact, heq⟩ := Option.map_eq_some_iff.mp hs
    obtain ⟨-, rfl⟩ := Prod.mk.inj heq
    exact effect_of_react hreact
  · cases hs

/-- **The active session belongs to the logged-in user exactly when nobody slips in**: along a
run of the program, after every event, a client that is active has a current session, made with
a token of the user who is logged in, and one socket, opened with a token of that user, if and
only if nobody logs out while a client is active, and nobody logs in but the user of the
session. -/
theorem active_session_belongs_iff (D : DartNumbers N) (user : JsString → User)
    (baseUrl : JsString) (es : List AppEvent) :
    (machine D).Along (fun _ _ _ s' => Belongs user s') (CliApp.new baseUrl) es ↔
      (machine D).Meets (Considerate user) (CliApp.new baseUrl) es := by
  apply Machine.along_iff (kept_new user baseUrl)
  · intro s e o s' h hs
    exact belongs_iff h (effect_of_step hs)
  · intro s e o s' h hc hs
    have he := effect_of_step hs
    exact ⟨header_of_effect h.header he, (belongs_iff h he).mpr hc⟩

/-- A user logs in and opens a session, which the server answers. -/
def sessionOpened : List AppEvent :=
  [.menu (.login (js "kim@example.com") (.ok (js "t"))),
    .menu (.openSession (.ok (js "s")) [.socket 0 .connect, .socket 0 .lspConnected]
      [.socket 0 (.lspMessage (LspMessage.format intText
        [(js "jsonrpc", .str (js "2.0")), (js "id", .num 1), (js "result", .obj [])]))])]

/-- The user logs out, and the session stays. -/
theorem session_survives_logout :
    (∃ s, (machine integers).run (CliApp.new (js "http://localhost:3000"))
        (sessionOpened ++ [.menu .logout]) = some s ∧
      s.lspSessionManager.hasActiveConnection = true ∧ s.storage.isLoggedIn = false) ∧
    ¬ (machine integers).Along (fun _ _ _ s' => Belongs id s')
      (CliApp.new (js "http://localhost:3000")) (sessionOpened ++ [.menu .logout]) := by
  have hopened : ((machine integers).run (CliApp.new (js "http://localhost:3000"))
      sessionOpened).map (fun s => (s.running, s.lspSessionManager.hasActiveConnection,
        s.storage.isLoggedIn)) = some (true, true, true) := by decide +kernel
  obtain ⟨s, hrun, hs⟩ := Option.map_eq_some_iff.mp hopened
  obtain ⟨hrunning, hs⟩ := Prod.mk.inj hs
  obtain ⟨hactive, hloggedIn⟩ := Prod.mk.inj hs
  have hstep : (machine integers).step s (.menu .logout) = some ((), s.logout) := by
    simp only [machine, hrunning]
    rfl
  have hlogout : s.logout =
      { s with storage := TokenStorage.deleteToken, authorization := none } := if_pos hloggedIn
  refine ⟨⟨s.logout, Machine.run_concat hrun hstep, ?_, ?_⟩, fun h => ?_⟩
  · rw [hlogout]
    exact hactive
  · rw [hlogout]
    rfl
  · have hidle := belongs_logout_iff.mp (h.of_run hrun hstep)
    rw [LspSessionManager.hasActiveConnection, hidle] at hactive
    cases hactive

end CliApp

end FullstackSvc.Cli
