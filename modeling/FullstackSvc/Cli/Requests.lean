import FullstackSvc.Cli.LspClient
import FullstackSvc.Lsp.ClientChannel

/-!
# A request is settled by its own response

The requests of a `LspClient` are numbered by the client, and the server numbers
its own as it likes; `_handleLspMessage` looks at the `id` of a message only.

* `WellKept`: what is pending waits for its completer, and no future is settled
  twice; every event keeps it.
* `settledBy_iff`: in such a state a message is handled as it should be if and only
  if it is harmless.
* `settled_by_own_response_iff`: **the requests of a run are settled by their own
  responses exactly when every message is harmless as it comes**.
-/

namespace FullstackSvc.Cli

open Text Lsp Store Async

namespace LspClient

variable {N : Type} {D : DartNumbers N} {s s' : LspClient N} {e : Event} {o : Option DartError}
  {i : Nat} {id : Int} {request : Request N} {kind : RequestKind} {json : List (JsString × Json N)}

/-! ### Messages -/

/-- The text is a response, an object without `method`, with this id. -/
def Answers (D : DartNumbers N) (raw : JsString) (id : Int) : Prop :=
  ∃ json n, LspMessage.parse D.text raw = some json ∧ entry json "method" = none ∧
    entry json "id" = some (.num n) ∧ D.asInt n = some id

/-- The error of the response is an object, or it has none and its result is of the type of the
request. -/
def Readable (kind : RequestKind) (json : List (JsString × Json N)) : Prop :=
  match entry json "error" with
  | some (.obj _) => True
  | some _ => False
  | none => kind.Fits ((entry json "result").getD .null)

/-- What is awaited under this id is answered by a response that can be read. -/
def AnswersPending (s : LspClient N) (json : List (JsString × Json N)) (id : Int) : Prop :=
  ∀ i request, s.pendingRequests.Has id i → s.requests[i]? = some request →
    entry json "method" = none ∧ Readable request.kind json

/-- A text is harmless if it is no object, has no id but `null`, or has an integer for its id
and answers what is pending under it. -/
def Harmless (D : DartNumbers N) (s : LspClient N) : Event → Prop
  | .socket _ (.lspMessage raw) =>
    ∀ json, LspMessage.parse D.text raw = some json → ∀ v, entry json "id" = some v →
      v = .null ∨ ∃ n id, v = .num n ∧ D.asInt n = some id ∧ AnswersPending s json id
  | _ => True

/-- What one event does to the requests, if a message is taken for what it is. -/
structure SettledByOwnResponse (D : DartNumbers N) (s : LspClient N) (e : Event)
    (o : Option DartError) (s' : LspClient N) : Prop where
  /-- `_handleLspMessage` returns. -/
  returns : ∀ c raw, e = .socket c (.lspMessage raw) → o = none
  /-- No future is settled twice. -/
  once : ∀ r ∈ s'.requests, r.future.length ≤ 1
  /-- What a future was settled with stays. -/
  kept : ∀ (i : Nat) (r : Request N), s.requests[i]? = some r →
    ∃ r' : Request N, s'.requests[i]? = some r' ∧ r'.id = r.id ∧ r.future <+: r'.future
  /-- A value is the result of the response to the request. -/
  own : ∀ (i : Nat) (r : Request N) (v : Json N), s'.requests[i]? = some r → .ok v ∈ r.future →
    (∃ r₀ : Request N, s.requests[i]? = some r₀ ∧ .ok v ∈ r₀.future) ∨
      ∃ c raw, e = .socket c (.lspMessage raw) ∧ Answers D raw r.id
  /-- A message of any other kind leaves what is pending. -/
  others : ∀ c raw, e = .socket c (.lspMessage raw) →
    (∀ id i, s.pendingRequests.Has id i → ¬ Answers D raw id) →
    s'.pendingRequests = s.pendingRequests

/-! ### What the parts of the client do to the requests -/

/-- Nothing is done to the requests. -/
structure Keeps (s s' : LspClient N) : Prop where
  requests : s'.requests = s.requests
  pendingRequests : s'.pendingRequests = s.pendingRequests

theorem keeps_beginAttempt (s : LspClient N) (c : Nat) (conn : Connection) (attempt : Nat) :
    Keeps s (s.beginAttempt c conn attempt) := by
  unfold beginAttempt
  split
  · exact ⟨rfl, rfl⟩
  · exact ⟨rfl, rfl⟩

theorem keeps_completeAttempt (s : LspClient N) (c : Nat) (conn : Connection)
    (completer : Completer Unit) (r : Except DartError Unit) :
    Keeps s (s.completeAttempt c conn completer r).2 := by
  unfold completeAttempt
  split
  · exact ⟨rfl, rfl⟩
  · exact ⟨rfl, rfl⟩

theorem keeps_sendLspMessage (s : LspClient N) (message : List (JsString × Json N)) :
    Keeps s (sendLspMessage D s message) := by
  unfold sendLspMessage
  split
  · exact ⟨rfl, rfl⟩
  · exact ⟨rfl, rfl⟩

theorem keeps_finishInitialize (s : LspClient N) : Keeps s (finishInitialize D s) :=
  ⟨(keeps_sendLspMessage s _).requests, (keeps_sendLspMessage s _).pendingRequests⟩

theorem keeps_connect (s : LspClient N) (sessionId : JsString) :
    Keeps s (s.connect sessionId).2 := by
  unfold connect
  split
  · exact ⟨rfl, rfl⟩
  · exact ⟨rfl, rfl⟩

theorem keeps_disconnect (s : LspClient N) : Keeps s s.disconnect := by
  unfold disconnect
  split
  · exact ⟨rfl, rfl⟩
  · exact ⟨rfl, rfl⟩

theorem keeps_openDocument (s : LspClient N) (uri content : String) :
    Keeps s (openDocument D s uri content).2 := by
  unfold openDocument
  split
  · exact ⟨rfl, rfl⟩
  · exact keeps_sendLspMessage _ _

theorem keeps_onAttemptTimeout (s : LspClient N) (c : Nat) (conn : Connection) (attempt : Nat) :
    Keeps s (s.onAttemptTimeout c conn attempt) := by
  unfold onAttemptTimeout
  split
  · exact ⟨rfl, rfl⟩
  · exact keeps_beginAttempt _ _ _ _

/-- Only a message touches the requests. -/
theorem keeps_handle {c : Nat} {conn : Connection} {e : SocketEvent}
    (h : ∀ raw, e ≠ .lspMessage raw) : Keeps s (handle D s c conn e).2 := by
  cases e with
  | connect =>
    show Keeps s (s.onConnect c conn).2
    unfold onConnect
    split
    · exact ⟨rfl, rfl⟩
    · exact keeps_beginAttempt _ _ _ _
  | connectError error =>
    show Keeps s (s.onConnectError c conn error).2
    simp only [onConnectError]
    split
    · exact ⟨rfl, rfl⟩
    · exact ⟨rfl, rfl⟩
  | lspConnected =>
    show Keeps s (s.onLspConnected c conn).2
    simp only [onLspConnected]
    split
    · exact ⟨rfl, rfl⟩
    · rename_i completer _
      have h := keeps_completeAttempt { s with state := .connected } c conn completer (.ok ())
      exact ⟨h.requests, h.pendingRequests⟩
  | lspMessage raw => exact absurd rfl (h raw)
  | lspError error code =>
    show Keeps s (s.onLspError c conn error code).2
    unfold onLspError
    split
    · exact ⟨rfl, rfl⟩
    · split
      · exact ⟨rfl, rfl⟩
      · split
        · exact ⟨rfl, rfl⟩
        · exact keeps_completeAttempt _ _ _ _ _
  | lspDisconnected => exact ⟨rfl, rfl⟩

/-! ### The invariant -/

/-- **What is pending waits for its completer, and no future is settled twice.** -/
structure WellKept (s : LspClient N) : Prop where
  pending : ∀ {id i}, s.pendingRequests.Has id i →
    ∃ r, s.requests[i]? = some r ∧ r.id = id ∧ r.completer = .new ∧ r.future = []
  once : ∀ r ∈ s.requests, r.future.length ≤ 1

theorem wellKept_new (serverUrl token : JsString) :
    WellKept (LspClient.new serverUrl token : LspClient N) where
  pending h := absurd h JsMap.not_has_empty
  once r hr := by cases hr

theorem WellKept.of_keeps (h : WellKept s) (hk : Keeps s s') : WellKept s' where
  pending hp := by
    rw [hk.pendingRequests] at hp
    rw [hk.requests]
    exact h.pending hp
  once := by
    rw [hk.requests]
    exact h.once

/-- What keeps the requests settles nothing. -/
theorem settledBy_of_keeps (h : WellKept s) (hk : Keeps s s')
    (ho : ∀ c raw, e = .socket c (.lspMessage raw) → o = none) :
    SettledByOwnResponse D s e o s' where
  returns := ho
  once := (h.of_keeps hk).once
  kept i r hr := ⟨r, by rw [hk.requests, hr], rfl, List.prefix_refl _⟩
  own i r v hr hv := by
    rw [hk.requests] at hr
    exact Or.inl ⟨r, hr, hv⟩
  others _ _ _ _ := hk.pendingRequests

/-! ### A request is sent -/

/-- The request is the last one, and it is pending. -/
structure Sent (s : LspClient N) (kind : RequestKind) (s' : LspClient N) : Prop where
  requests : s'.requests = s.requests ++ [⟨s.nextId, kind, .new, []⟩]
  pendingRequests : s'.pendingRequests = s.pendingRequests.set s.nextId s.requests.length

theorem sent_sendRequest (s : LspClient N) (kind : RequestKind)
    (message : Int → List (JsString × Json N)) : Sent s kind (sendRequest D s kind message) := by
  have hk := keeps_sendLspMessage (D := D) { s with
    nextId := s.nextId + 1
    requests := s.requests ++ [⟨s.nextId, kind, .new, []⟩]
    pendingRequests := s.pendingRequests.set s.nextId s.requests.length } (message s.nextId)
  exact ⟨hk.requests, hk.pendingRequests⟩

theorem Sent.wellKept (h : WellKept s) (hs : Sent s kind s') : WellKept s' where
  pending hp := by
    rw [hs.pendingRequests] at hp
    rw [hs.requests]
    rcases JsMap.has_set_iff.mp hp with ⟨rfl, rfl⟩ | ⟨-, hp⟩
    · exact ⟨_, List.getElem?_concat_length, rfl, rfl, rfl⟩
    · obtain ⟨r, hr, hrest⟩ := h.pending hp
      exact ⟨r, List.getElem?_append_left (List.getElem?_eq_some_iff.mp hr).1 ▸ hr, hrest⟩
  once := by
    intro r hr
    rw [hs.requests, List.mem_append, List.mem_singleton] at hr
    rcases hr with hr | rfl
    · exact h.once r hr
    · exact Nat.zero_le _

theorem Sent.settledBy (h : WellKept s) (hs : Sent s kind s')
    (he : ∀ c raw, e ≠ .socket c (.lspMessage raw)) : SettledByOwnResponse D s e o s' where
  returns c raw heq := absurd heq (he c raw)
  once := (hs.wellKept h).once
  kept i r hr := by
    refine ⟨r, ?_, rfl, List.prefix_refl _⟩
    rw [hs.requests, List.getElem?_append_left (List.getElem?_eq_some_iff.mp hr).1]
    exact hr
  own i r v hr hv := by
    rw [hs.requests] at hr
    by_cases hi : i < s.requests.length
    · rw [List.getElem?_append_left hi] at hr
      exact Or.inl ⟨r, hr, hv⟩
    · rw [List.getElem?_append_right (by omega), List.getElem?_singleton] at hr
      split at hr
      · obtain rfl := Option.some.inj hr
        cases hv
      · cases hr
  others c raw heq := absurd heq (he c raw)

/-! ### A request is settled -/

/-- The future of the request is settled with `x`, and the request is no longer pending. -/
structure Settled (s : LspClient N) (i : Nat) (request : Request N)
    (x : Except DartError (Json N)) (s' : LspClient N) : Prop where
  requests : ∃ completer, s'.requests =
    s.requests.set i { request with completer := completer, future := request.future ++ [x] }
  pendingRequests : s'.pendingRequests = s.pendingRequests.delete request.id

theorem Settled.wellKept {x : Except DartError (Json N)} (h : WellKept s)
    (hreq : s.requests[i]? = some request) (hopen : request.future = [])
    (hs : Settled s i request x s') : WellKept s' where
  pending {id' i'} hp := by
    rw [hs.pendingRequests] at hp
    obtain ⟨hne, hp⟩ := JsMap.has_delete_iff.mp hp
    obtain ⟨r, hr, rfl, hrest⟩ := h.pending hp
    obtain ⟨completer, hset⟩ := hs.requests
    have hi : i ≠ i' := by
      rintro rfl
      obtain rfl := Option.some.inj (hreq.symm.trans hr)
      exact hne rfl
    exact ⟨r, by rw [hset, List.getElem?_set_ne hi, hr], rfl, hrest⟩
  once := by
    intro r hr
    obtain ⟨completer, hset⟩ := hs.requests
    rw [hset] at hr
    rcases List.mem_or_eq_of_mem_set hr with hr | rfl
    · exact h.once r hr
    · show (request.future ++ [x]).length ≤ 1
      rw [hopen]
      exact Nat.le_refl 1

theorem Settled.settledBy {x : Except DartError (Json N)} (h : WellKept s)
    (hreq : s.requests[i]? = some request) (hopen : request.future = [])
    (hs : Settled s i request x s')
    (ho : ∀ c raw, e = .socket c (.lspMessage raw) → o = none)
    (hx : ∀ v, x = .ok v → ∃ c raw, e = .socket c (.lspMessage raw) ∧ Answers D raw request.id)
    (hp : ∀ c raw, e = .socket c (.lspMessage raw) →
      ∃ id i, s.pendingRequests.Has id i ∧ Answers D raw id) :
    SettledByOwnResponse D s e o s' where
  returns := ho
  once := (hs.wellKept h hreq hopen).once
  kept j r hr := by
    obtain ⟨completer, hset⟩ := hs.requests
    by_cases hj : i = j
    · subst hj
      obtain rfl := Option.some.inj (hreq.symm.trans hr)
      refine ⟨{ request with completer := completer, future := request.future ++ [x] }, ?_, rfl,
        List.prefix_append _ _⟩
      rw [hset, List.getElem?_set_self (List.getElem?_eq_some_iff.mp hreq).1]
    · exact ⟨r, by rw [hset, List.getElem?_set_ne hj, hr], rfl, List.prefix_refl _⟩
  own j r v hr hv := by
    obtain ⟨completer, hset⟩ := hs.requests
    rw [hset] at hr
    by_cases hj : i = j
    · subst hj
      rw [List.getElem?_set_self (List.getElem?_eq_some_iff.mp hreq).1] at hr
      obtain rfl := Option.some.inj hr
      have hv : Except.ok v ∈ request.future ++ [x] := hv
      rw [hopen, List.nil_append, List.mem_singleton] at hv
      exact Or.inr (hx v hv.symm)
    · rw [List.getElem?_set_ne hj] at hr
      exact Or.inl ⟨r, hr, hv⟩
  others c raw heq hnone := by
    obtain ⟨id, i, hid, ha⟩ := hp c raw heq
    exact absurd ha (hnone id i hid)

theorem Settled.of_keeps {x : Except DartError (Json N)} {s₁ : LspClient N}
    (hs : Settled s i request x s₁) (hk : Keeps s₁ s') : Settled s i request x s' :=
  ⟨hs.requests.imp fun _ h => hk.requests.trans h, hk.pendingRequests.trans hs.pendingRequests⟩

theorem settled_onRequestTimeout (s : LspClient N) (i : Nat) (request : Request N) :
    Settled s i request (.error (.exception (js "요청 타임아웃"))) (s.onRequestTimeout i request) :=
  ⟨⟨request.completer, rfl⟩, rfl⟩

/-- The completer of a request that is awaited takes what it is completed with. -/
theorem settled_completeRequest (hnew : request.completer = .new) (hopen : request.future = [])
    (x : Except DartError (Json N)) :
    ∃ s', completeRequest D { s with pendingRequests := s.pendingRequests.delete request.id }
      i request x = (none, s') ∧ Settled s i request x s' := by
  have hset : Settled s i request x (LspClient.setRequest
      { s with pendingRequests := s.pendingRequests.delete request.id } i
      { request with completer := ⟨some x⟩, future := request.future ++ [x] }) :=
    ⟨⟨⟨some x⟩, rfl⟩, rfl⟩
  unfold completeRequest
  rw [hnew, Completer.complete_of_open rfl]
  dsimp only
  rw [if_neg (fun h => h hopen)]
  split
  · exact ⟨_, rfl, hset.of_keeps (keeps_finishInitialize _)⟩
  · exact ⟨_, rfl, hset⟩

/-! ### A message is handled -/

/-- A text that is no object, or has no id but `null`, does nothing. -/
theorem handleLspMessage_aside {raw : JsString}
    (h : ∀ json, LspMessage.parse D.text raw = some json → ∀ v, entry json "id" = some v →
      v = .null) : handleLspMessage D s raw = (none, s) := by
  cases hp : LspMessage.parse D.text raw with
  | none => simp only [handleLspMessage, hp]
  | some json =>
    cases hv : entry json "id" with
    | none => simp only [handleLspMessage, hp, handleJson, hv]
    | some v =>
      obtain rfl := h json hp v hv
      simp only [handleLspMessage, hp, handleJson, hv]

/-- An integer under which nothing is pending does nothing. -/
theorem handleLspMessage_unknown {raw : JsString} {n : N}
    (hp : LspMessage.parse D.text raw = some json) (hv : entry json "id" = some (.num n))
    (hn : D.asInt n = some id) (hnone : s.pendingRequests.get id = none) :
    handleLspMessage D s raw = (none, s) := by
  simp only [handleLspMessage, hp, handleJson, hv, hn, hnone]

theorem handleLspMessage_pending {raw : JsString} {n : N}
    (hp : LspMessage.parse D.text raw = some json) (hv : entry json "id" = some (.num n))
    (hn : D.asInt n = some id) (hget : s.pendingRequests.get id = some i)
    (hreq : s.requests[i]? = some request) :
    handleLspMessage D s raw = settleRequest D
      { s with pendingRequests := s.pendingRequests.delete id } i request json := by
  simp only [handleLspMessage, hp, handleJson, hv, hn, hget, hreq]

/-- An id that is neither `null` nor an integer throws. -/
theorem handleLspMessage_throws {raw : JsString} {v : Json N}
    (hp : LspMessage.parse D.text raw = some json) (hv : entry json "id" = some v)
    (hnull : v ≠ .null) (hint : ∀ n, v = .num n → D.asInt n = none) :
    handleLspMessage D s raw = (some .typeError, s) := by
  simp only [handleLspMessage, hp, handleJson, hv]
  cases v with
  | null => exact absurd rfl hnull
  | num n => simp only [hint n rfl]
  | bool b => rfl
  | str t => rfl
  | arr items => rfl
  | obj fields => rfl

/-- A response that can be read settles the request. -/
theorem settleRequest_of_readable (hread : Readable request.kind json)
    (hnew : request.completer = .new) (hopen : request.future = []) :
    ∃ x s', settleRequest D { s with pendingRequests := s.pendingRequests.delete request.id }
      i request json = (none, s') ∧ Settled s i request x s' := by
  cases herr : entry json "error" with
  | none =>
    simp only [Readable, herr] at hread
    simp only [settleRequest, herr, if_pos hread]
    exact ⟨_, settled_completeRequest hnew hopen _⟩
  | some v =>
    simp only [Readable, herr] at hread
    cases v with
    | obj fields =>
      simp only [settleRequest, herr]
      exact ⟨_, settled_completeRequest hnew hopen _⟩
    | _ => exact hread.elim

/-- One that cannot be read throws. -/
theorem settleRequest_throws (hread : ¬ Readable request.kind json) :
    settleRequest D s i request json = (some .typeError, s) := by
  cases herr : entry json "error" with
  | none =>
    simp only [Readable, herr] at hread
    simp only [settleRequest, herr, if_neg hread]
  | some v =>
    simp only [Readable, herr] at hread
    cases v with
    | obj fields => exact absurd trivial hread
    | _ => simp only [settleRequest, herr]

/-! ### What a message can do -/

theorem harmless_iff {c : Nat} {raw : JsString} {v : Json N}
    (hp : LspMessage.parse D.text raw = some json) (hv : entry json "id" = some v) :
    Harmless D s (.socket c (.lspMessage raw)) ↔
      v = .null ∨ ∃ n id, v = .num n ∧ D.asInt n = some id ∧ AnswersPending s json id := by
  constructor
  · intro hh
    exact hh json hp v hv
  · intro hh json' hp' v' hv'
    obtain rfl := Option.some.inj (hp.symm.trans hp')
    obtain rfl := Option.some.inj (hv.symm.trans hv')
    exact hh

theorem harmless_num_iff {c : Nat} {raw : JsString} {n : N}
    (hp : LspMessage.parse D.text raw = some json) (hv : entry json "id" = some (.num n))
    (hn : D.asInt n = some id) :
    Harmless D s (.socket c (.lspMessage raw)) ↔ AnswersPending s json id := by
  rw [harmless_iff hp hv]
  constructor
  · rintro (hnull | ⟨n', id', heq, hn', ha⟩)
    · cases hnull
    · obtain rfl := Json.num.inj heq
      obtain rfl := Option.some.inj (hn.symm.trans hn')
      exact ha
  · intro ha
    exact Or.inr ⟨n, id, rfl, hn, ha⟩

theorem answersPending_iff (hi : s.pendingRequests.Has id i) (hreq : s.requests[i]? = some request) :
    AnswersPending s json id ↔ entry json "method" = none ∧ Readable request.kind json := by
  constructor
  · intro ha
    exact ha i request hi hreq
  · intro ha i' request' hi' hreq'
    obtain rfl := hi.unique hi'
    obtain rfl := Option.some.inj (hreq.symm.trans hreq')
    exact ha

/-- **What `_handleLspMessage` can do**: nothing, or settle the request that is pending under
the id of the message, by its response or not, or throw. -/
inductive Handled (D : DartNumbers N) (s : LspClient N) (c : Nat) (raw : JsString) :
    Outcome N → Prop
  | aside (hh : Harmless D s (.socket c (.lspMessage raw))) : Handled D s c raw (none, s)
  | answered {i : Nat} {request : Request N} {x : Except DartError (Json N)} {s' : LspClient N}
      (hh : Harmless D s (.socket c (.lspMessage raw)))
      (hi : s.pendingRequests.Has request.id i) (hreq : s.requests[i]? = some request)
      (hopen : request.future = []) (hset : Settled s i request x s')
      (ha : Answers D raw request.id) : Handled D s c raw (none, s')
  | taken {i : Nat} {request : Request N} {x : Except DartError (Json N)} {s' : LspClient N}
      (hh : ¬ Harmless D s (.socket c (.lspMessage raw)))
      (hi : s.pendingRequests.Has request.id i) (hreq : s.requests[i]? = some request)
      (hopen : request.future = []) (hset : Settled s i request x s')
      (ha : ∀ id, ¬ Answers D raw id) : Handled D s c raw (none, s')
  | threw {s' : LspClient N} (hh : ¬ Harmless D s (.socket c (.lspMessage raw)))
      (hr : s'.requests = s.requests)
      (hp : ∀ {id i}, s'.pendingRequests.Has id i → s.pendingRequests.Has id i) :
      Handled D s c raw (some .typeError, s')

/-- A message with the id of a request that is pending. -/
theorem handled_pending (h : WellKept s) (c : Nat) {raw : JsString} {n : N}
    (hp : LspMessage.parse D.text raw = some json) (hv : entry json "id" = some (.num n))
    (hn : D.asInt n = some id) (hi : s.pendingRequests.Has id i) :
    Handled D s c raw (handleLspMessage D s raw) := by
  obtain ⟨request, hreq, rfl, hnew, hopen⟩ := h.pending hi
  have hharm : Harmless D s (.socket c (.lspMessage raw)) ↔
      entry json "method" = none ∧ Readable request.kind json :=
    (harmless_num_iff hp hv hn).trans (answersPending_iff hi hreq)
  rw [handleLspMessage_pending hp hv hn (JsMap.get_eq_some_iff.mpr hi) hreq]
  by_cases hread : Readable request.kind json
  · obtain ⟨x, s', hs, hset⟩ :=
      settleRequest_of_readable (D := D) (i := i) (s := s) hread hnew hopen
    rw [hs]
    by_cases hmethod : entry json "method" = none
    · have ha : Answers D raw request.id := ⟨json, n, hp, hmethod, hv, hn⟩
      exact .answered (hharm.mpr ⟨hmethod, hread⟩) hi hreq hopen hset ha
    · -- a request of the server, or a notification, under the same number
      refine .taken (fun hh => hmethod (hharm.mp hh).1) hi hreq hopen hset ?_
      rintro id ⟨json', n', hp', hm', -, -⟩
      obtain rfl := Option.some.inj (hp.symm.trans hp')
      exact hmethod hm'
  · rw [settleRequest_throws hread]
    exact .threw (fun hh => hread (hharm.mp hh).2) rfl fun hp => (JsMap.has_delete_iff.mp hp).2

theorem handled_message (h : WellKept s) (c : Nat) (raw : JsString) :
    Handled D s c raw (handleLspMessage D s raw) := by
  by_cases haside : ∀ json, LspMessage.parse D.text raw = some json →
      ∀ v, entry json "id" = some v → v = .null
  · rw [handleLspMessage_aside haside]
    exact .aside fun json hp v hv => Or.inl (haside json hp v hv)
  push Not at haside
  obtain ⟨json, hp, v, hv, hnull⟩ := haside
  by_cases hint : ∃ n id, v = .num n ∧ D.asInt n = some id
  · obtain ⟨n, id, rfl, hn⟩ := hint
    cases hget : s.pendingRequests.get id with
    | none =>
      rw [handleLspMessage_unknown hp hv hn hget]
      refine .aside ((harmless_num_iff hp hv hn).mpr fun i request hi _ => ?_)
      exact absurd hi (JsMap.get_eq_none_iff.mp hget i)
    | some i => exact handled_pending h c hp hv hn (JsMap.get_eq_some_iff.mp hget)
  · rw [handleLspMessage_throws hp hv hnull fun n hn => ?_]
    · refine .threw (fun hh => ?_) rfl id
      rcases (harmless_iff hp hv).mp hh with hv' | ⟨n, id, hn, hid, -⟩
      · exact hnull hv'
      · exact hint ⟨n, id, hn, hid⟩
    · cases hid : D.asInt n with
      | none => rfl
      | some id => exact absurd ⟨n, id, hn, hid⟩ hint

/-- Any message keeps the invariant. -/
theorem Handled.wellKept {c : Nat} {raw : JsString} {out : Outcome N} (h : WellKept s)
    (hd : Handled D s c raw out) : WellKept out.2 := by
  cases hd with
  | aside => exact h
  | answered _ _ hreq hopen hset _ => exact hset.wellKept h hreq hopen
  | taken _ _ hreq hopen hset _ => exact hset.wellKept h hreq hopen
  | threw _ hr hp => exact ⟨fun hi => hr ▸ h.pending (hp hi), hr ▸ h.once⟩

/-- **A message is taken for what it is if and only if it is harmless.** -/
theorem Handled.settledBy_iff {c : Nat} {raw : JsString} {out : Outcome N} (h : WellKept s)
    (hd : Handled D s c raw out) :
    SettledByOwnResponse D s (.socket c (.lspMessage raw)) out.1 out.2 ↔
      Harmless D s (.socket c (.lspMessage raw)) := by
  cases hd with
  | aside hh => exact iff_of_true (settledBy_of_keeps h ⟨rfl, rfl⟩ fun _ _ _ => rfl) hh
  | answered hh hi hreq hopen hset ha =>
    refine iff_of_true ?_ hh
    refine hset.settledBy h hreq hopen (fun _ _ _ => rfl) (fun _ _ => ⟨c, raw, rfl, ha⟩) ?_
    rintro _ _ ⟨⟩
    exact ⟨_, _, hi, ha⟩
  | taken hnot hi _ _ hset ha =>
    refine iff_of_false (fun hs => ?_) hnot
    -- the request is no longer pending, though the message was no response
    have hkept := hs.others c raw rfl fun id _ _ => ha id
    rw [← hkept, hset.pendingRequests] at hi
    exact (JsMap.has_delete_iff.mp hi).1 rfl
  | threw hnot =>
    refine iff_of_false (fun hs => ?_) hnot
    cases hs.returns c raw rfl

/-! ### Whole runs -/

/-- What an event other than a message does to the requests. -/
inductive Acts (s s' : LspClient N) : Prop
  | keeps (hk : Keeps s s')
  | sent (kind : RequestKind) (hs : Sent s kind s')
  | timedOut (i : Nat) (request : Request N) (x : DartError)
      (hreq : s.requests[i]? = some request) (hopen : request.future = [])
      (hs : Settled s i request (.error x) s')

theorem acts_initializeClient (s : LspClient N) (rootUri : String) :
    Acts s (initializeClient D s rootUri).2 := by
  rw [initializeClient]
  split
  · exact .keeps ⟨rfl, rfl⟩
  · have hsent := sent_sendRequest (D := D) { s with state := .initializing } .initializeRequest
      fun id => LspMessage.createInitializeRequest D.text id rootUri
    exact .sent _ ⟨hsent.requests, hsent.pendingRequests⟩

theorem acts_goToDefinition (s : LspClient N) (uri : String) (line character : Int) :
    Acts s (goToDefinition D s uri line character).2 := by
  rw [goToDefinition]
  split
  · exact .keeps ⟨rfl, rfl⟩
  · exact .sent _ (sent_sendRequest s .definitionRequest fun id =>
      LspMessage.createDefinitionRequest D.text id uri line character)

theorem acts_of_happens {out : Outcome N} (he : ∀ c raw, e ≠ .socket c (.lspMessage raw))
    (hs : Happens D s e out) : Acts s out.2 := by
  cases hs with
  | connect sessionId => exact .keeps (keeps_connect s sessionId)
  | initializeClient rootUri => exact acts_initializeClient s rootUri
  | openDocument uri content => exact .keeps (keeps_openDocument s uri content)
  | goToDefinition uri line character => exact acts_goToDefinition s uri line character
  | disconnect => exact .keeps (keeps_disconnect s)
  | socket c e conn found live => exact .keeps (keeps_handle fun raw hraw => he c raw (by rw [hraw]))
  | attemptTimeout c conn attempt found awaited => exact .keeps (keeps_onAttemptTimeout _ _ _ _)
  | requestTimeout i request found awaited =>
    exact .timedOut i request _ found awaited (settled_onRequestTimeout s i request)

/-- **What the other events can do.** -/
theorem acts_of_step (he : ∀ c raw, e ≠ .socket c (.lspMessage raw))
    (hs : step D s e = some (o, s')) : Acts s s' :=
  acts_of_happens he (step_cases hs)

theorem Acts.wellKept (h : WellKept s) (ha : Acts s s') : WellKept s' := by
  cases ha with
  | keeps hk => exact h.of_keeps hk
  | sent kind hs => exact hs.wellKept h
  | timedOut i request x hreq hopen hs => exact hs.wellKept h hreq hopen

theorem Acts.settledBy (h : WellKept s) (he : ∀ c raw, e ≠ .socket c (.lspMessage raw))
    (ha : Acts s s') : SettledByOwnResponse D s e o s' := by
  cases ha with
  | keeps hk => exact settledBy_of_keeps h hk fun c raw heq => absurd heq (he c raw)
  | sent kind hs => exact hs.settledBy h he
  | timedOut i request x hreq hopen hs =>
    exact hs.settledBy h hreq hopen (fun c raw heq => absurd heq (he c raw))
      (fun v hv => by cases hv) fun c raw heq => absurd heq (he c raw)

theorem message_or_not (e : Event) :
    (∃ c raw, e = .socket c (.lspMessage raw)) ∨ ∀ c raw, e ≠ .socket c (.lspMessage raw) := by
  by_cases h : ∃ c raw, e = .socket c (.lspMessage raw)
  · exact Or.inl h
  · exact Or.inr fun c raw he => h ⟨c, raw, he⟩

theorem handled_of_happens {c : Nat} {raw : JsString} {out : Outcome N} (h : WellKept s)
    (he : e = .socket c (.lspMessage raw)) (hs : Happens D s e out) : Handled D s c raw out := by
  cases hs with
  | socket c' e' conn found live =>
    obtain ⟨rfl, rfl⟩ := Event.socket.inj he
    exact handled_message h c' raw
  | _ => cases he

theorem handled_of_step {c : Nat} {raw : JsString} (h : WellKept s)
    (hs : step D s (.socket c (.lspMessage raw)) = some (o, s')) : Handled D s c raw (o, s') :=
  handled_of_happens h rfl (step_cases hs)

/-- **Every event keeps the invariant.** -/
theorem wellKept_step (h : WellKept s) (hs : step D s e = some (o, s')) : WellKept s' := by
  rcases message_or_not e with ⟨c, raw, rfl⟩ | he
  · exact (handled_of_step h hs).wellKept h
  · exact (acts_of_step he hs).wellKept h

/-- **An event does what it should to the requests if and only if it is harmless.** -/
theorem settledBy_iff (h : WellKept s) (hs : step D s e = some (o, s')) :
    SettledByOwnResponse D s e o s' ↔ Harmless D s e := by
  rcases message_or_not e with ⟨c, raw, rfl⟩ | he
  · exact (handled_of_step h hs).settledBy_iff h
  · refine iff_of_true ((acts_of_step he hs).settledBy h he) ?_
    unfold Harmless
    split
    · exact absurd rfl (he _ _)
    · trivial

/-- **Requests are settled by their own responses exactly when every message is harmless**:
along a run, whatever its events and their order, no message makes `_handleLspMessage` throw, no
future is settled twice, a value comes from a response that carries the id of its request, and
other messages leave what is pending, if and only if every text that comes is no object, or has
no id but `null`, or has an integer for its id and is a readable response to what is pending
under it. -/
theorem settled_by_own_response_iff (D : DartNumbers N) (serverUrl token : JsString)
    (es : List Event) :
    (machine D).Along (SettledByOwnResponse D) (LspClient.new serverUrl token) es ↔
      (machine D).Meets (Harmless D) (LspClient.new serverUrl token) es :=
  Machine.along_iff (wellKept_new serverUrl token) (fun _ _ _ _ h hs => settledBy_iff h hs)
    fun _ _ _ _ h _ hs => wellKept_step h hs

/-! ### A request of the server under the same number -/

/-- The numbers are integers. -/
def integers : DartNumbers Int := ⟨intText, some⟩

/-- The server asks the user something while it is being initialized. -/
def showMessageRequest : List (JsString × Json Int) :=
  [(js "jsonrpc", .str (js "2.0")),
    (js "id", .num 1),
    (js "method", .str (js "window/showMessageRequest")),
    (js "params", .obj [
      (js "type", .num 3),
      (js "message", .str (js "Analyze the workspace?"))])]

/-- The client connects and asks to be initialized. -/
def initializing : List Event :=
  [.connect (js "s"), .socket 0 .connect, .socket 0 .lspConnected,
    .initializeClient "file:///workspace"]

theorem parse_showMessageRequest :
    LspMessage.parse intText (LspMessage.format intText showMessageRequest) =
      some showMessageRequest := by
  apply parse_format
  simp only [showMessageRequest, Plain, PlainFields, List.map_cons, List.map_nil, true_and,
    and_true]
  decide

/-- The first request of the server has the number of the first request of the client, which is
settled with `null`, and the client goes on as if it were initialized. -/
theorem request_settled_by_server_request :
    (∃ s, (machine integers).run (LspClient.new (js "http://localhost:3000") (js "t"))
        (initializing ++
          [.socket 0 (.lspMessage (LspMessage.format intText showMessageRequest))]) = some s ∧
      s.state = .initialized ∧ s.requests.map Request.kind = [.initializeRequest] ∧
      s.requests.map Request.future = [[.ok .null]]) ∧
    ¬ (machine integers).Along (SettledByOwnResponse integers)
      (LspClient.new (js "http://localhost:3000") (js "t"))
      (initializing ++
        [.socket 0 (.lspMessage (LspMessage.format intText showMessageRequest))]) := by
  obtain ⟨s, conn, hrun, hsocket, hconn, hlive, hget, hreq⟩ : ∃ s conn, (machine integers).run
      (LspClient.new (js "http://localhost:3000") (js "t")) initializing = some s ∧
      s.socket = some 0 ∧ s.connections[0]? = some conn ∧ conn.disposed = false ∧
      s.pendingRequests.get 1 = some 0 ∧ s.requests = [⟨1, .initializeRequest, .new, []⟩] :=
    ⟨_, _, rfl, rfl, rfl, rfl, rfl, rfl⟩
  have hhandle : handleLspMessage integers s (LspMessage.format intText showMessageRequest) =
      settleRequest integers { s with pendingRequests := s.pendingRequests.delete 1 } 0
        ⟨1, .initializeRequest, .new, []⟩ showMessageRequest :=
    handleLspMessage_pending parse_showMessageRequest rfl rfl hget (by rw [hreq]; rfl)
  have hsettle : settleRequest integers { s with pendingRequests := s.pendingRequests.delete 1 } 0
      ⟨1, .initializeRequest, .new, []⟩ showMessageRequest =
      (none, finishInitialize integers (LspClient.setRequest
        { s with pendingRequests := s.pendingRequests.delete 1 } 0
        ⟨1, .initializeRequest, ⟨some (.ok .null)⟩, [.ok .null]⟩)) := rfl
  have hstep : step integers s
      (.socket 0 (.lspMessage (LspMessage.format intText showMessageRequest))) =
      some (none, finishInitialize integers (LspClient.setRequest
        { s with pendingRequests := s.pendingRequests.delete 1 } 0
        ⟨1, .initializeRequest, ⟨some (.ok .null)⟩, [.ok .null]⟩)) := by
    rw [step, hconn]
    simp only [hlive, handle, hhandle, hsettle]
    rfl
  have hkeeps := keeps_finishInitialize (D := integers) (LspClient.setRequest
    { s with pendingRequests := s.pendingRequests.delete 1 } 0
    ⟨1, .initializeRequest, ⟨some (.ok .null)⟩, [.ok .null]⟩)
  have hset : (LspClient.setRequest { s with pendingRequests := s.pendingRequests.delete 1 } 0
      ⟨1, .initializeRequest, ⟨some (.ok .null)⟩, [.ok .null]⟩).requests =
      [⟨1, .initializeRequest, ⟨some (.ok .null)⟩, [.ok .null]⟩] := by
    show s.requests.set 0 _ = _
    rw [hreq]
    rfl
  constructor
  · refine ⟨_, Machine.run_concat hrun hstep, rfl, ?_, ?_⟩
    · rw [hkeeps.requests, hset]
      rfl
    · rw [hkeeps.requests, hset]
      rfl
  · intro h
    have hkept := (h.of_run hrun hstep).others 0 _ rfl ?_
    · rw [hkeeps.pendingRequests] at hkept
      have hnone : s.pendingRequests.get 1 = none := by
        rw [← hkept]
        exact JsMap.get_eq_none_iff.mpr fun v hv => (JsMap.has_delete_iff.mp hv).1 rfl
      rw [hget] at hnone
      cases hnone
    · rintro id i - ⟨json, n, hp, hmethod, -, -⟩
      obtain rfl := Option.some.inj (parse_showMessageRequest.symm.trans hp)
      cases hmethod

end LspClient

end FullstackSvc.Cli
