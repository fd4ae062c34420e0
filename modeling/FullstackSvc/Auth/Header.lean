import FullstackSvc.Auth.Token
import FullstackSvc.LanguageServer.Programs

/-!
# The header `Authorization` (`auth.guard.ts`, `request-validator.ts`)

A token reaches the service by two ways.  Under HTTP it is what stands between
the first and the second blank of the header, under any scheme.  On a socket
without `auth.token` it is the header less the first `Bearer `, and so also a
header with no scheme at all.  Which texts are tokens is left open.
-/

namespace FullstackSvc.Auth

open Text

/-- What the guard reads of a request and writes to it. -/
structure Request where
  authorization : Option JsString
  requester : Option Requester
  deriving DecidableEq

def authenticationRequired : JsError := .unauthorized (js "인증이 필요합니다.")

section

variable (jwtVerify : JsString → Option JsString)

/-- `RequestValidator.validate`. -/
def RequestValidator.validate (request : Request) : Except JsError Request :=
  match request.authorization with
  | none => throw authenticationRequired
  | some authHeader =>
    if authHeader = [] then throw authenticationRequired
    else
      match (authHeader.splitOn 32)[1]? with
      | none => throw authenticationRequired
      | some token =>
        if token = [] then throw authenticationRequired
        else do
          let payload ← TokenManager.verify jwtVerify token
          pure { request with requester := some payload }

/-- `AuthGuard.canActivate`; `shouldCheckAuth` is what `@Auth` has set on the
handler. -/
def AuthGuard.canActivate (shouldCheckAuth : Option Bool) (request : Request) :
    Except JsError (Bool × Request) :=
  if shouldCheckAuth.getD false = false then pure (true, request)
  else
    match request.authorization with
    | none => throw (.unauthorized (js "Unauthorized"))
    | some authHeader =>
      if authHeader = [] then throw (.unauthorized (js "Unauthorized"))
      else do
        let request ← RequestValidator.validate jwtVerify request
        pure (true, request)

/-- The guard of a handler with `@Auth` lets a request with this header through,
as one of this user. -/
def AcceptsHttp (header userId : JsString) : Prop :=
  AuthGuard.canActivate jwtVerify (some true) ⟨some header, none⟩ =
    .ok (true, ⟨some header, some ⟨userId⟩⟩)

/-- What `jwt.verify` accepts was issued: it is not empty and has no blank. -/
def IssuedOnly : Prop := ∀ token userId, jwtVerify token = some userId → token ≠ [] ∧ 32 ∉ token

end

/-- A client that connects with this header, and without `auth.token`, stays
connected as this user. -/
def AcceptsSocket {N : Type} (C : LanguageServer.Config N) (s : LanguageServer.World)
    (header userId : JsString) : Prop :=
  (s.handleConnection C none (some header)).clients = s.clients ++ [⟨userId, true⟩]

/-! ### What each way reads -/

/-- What follows a word: the end of the text, or a blank. -/
def EndsWord (more : JsString) : Prop := more = [] ∨ ∃ rest, more = 32 :: rest

theorem exists_word (h : JsString) : ∃ t more, h = t ++ more ∧ 32 ∉ t ∧ EndsWord more := by
  by_cases hmem : (32 : UInt16) ∈ h
  · obtain ⟨t, rest, rfl, ht⟩ := List.eq_append_cons_of_mem hmem
    exact ⟨t, _, rfl, ht, Or.inr ⟨rest, rfl⟩⟩
  · exact ⟨h, [], (List.append_nil h).symm, hmem, Or.inl rfl⟩

theorem splitOn_word {t more : JsString} (ht : 32 ∉ t) (hmore : EndsWord more) :
    ((t ++ more).splitOn 32).head? = some t := by
  rcases hmore with rfl | ⟨rest, rfl⟩
  · rw [List.append_nil, List.splitOn_eq_singleton ht]
    rfl
  · rw [List.splitOn_append_cons_self_of_not_mem ht]
    rfl

/-- The word after the first blank. -/
theorem splitOn_second {s t more : JsString} (hs : 32 ∉ s) (ht : 32 ∉ t) (hmore : EndsWord more) :
    ((s ++ 32 :: (t ++ more)).splitOn 32)[1]? = some t := by
  rw [List.splitOn_append_cons_self_of_not_mem hs, List.getElem?_cons_succ,
    ← List.head?_eq_getElem?]
  exact splitOn_word ht hmore

variable {jwtVerify : JsString → Option JsString}

/-- With its second word as the token. -/
theorem acceptsHttp_second {s t more u : JsString} (hs : 32 ∉ s) (ht : 32 ∉ t)
    (hmore : EndsWord more) :
    AcceptsHttp jwtVerify (s ++ 32 :: (t ++ more)) u ↔ t ≠ [] ∧ jwtVerify t = some u := by
  have hne : s ++ 32 :: (t ++ more) ≠ [] := List.append_ne_nil_of_right_ne_nil s (List.cons_ne_nil _ _)
  simp only [AcceptsHttp, AuthGuard.canActivate, RequestValidator.validate, Option.getD_some,
    Bool.true_eq_false, if_false, if_neg hne, splitOn_second hs ht hmore]
  by_cases hempty : t = []
  · rw [if_pos hempty]
    exact iff_of_false (fun h => by cases h) fun h => h.1 hempty
  · rw [if_neg hempty, TokenManager.verify]
    cases hv : jwtVerify t with
    | none => exact iff_of_false (fun h => by cases h) fun h => by cases h.2
    | some v =>
      constructor
      · intro h
        cases h
        exact ⟨hempty, rfl⟩
      · rintro ⟨-, h⟩
        obtain rfl := Option.some.inj h
        rfl

theorem not_acceptsHttp_of_not_mem {h u : JsString} (hh : 32 ∉ h) : ¬ AcceptsHttp jwtVerify h u := by
  intro hacc
  simp only [AcceptsHttp, AuthGuard.canActivate, RequestValidator.validate, Option.getD_some,
    Bool.true_eq_false, if_false, List.splitOn_eq_singleton hh] at hacc
  by_cases hempty : h = []
  · rw [if_pos hempty] at hacc
    cases hacc
  · rw [if_neg hempty, if_neg hempty] at hacc
    cases hacc

/-- A token has no blank. -/
theorem not_token_of_mem (hissued : IssuedOnly jwtVerify) {h : JsString} (hh : 32 ∈ h) :
    jwtVerify h = none := by
  cases hv : jwtVerify h with
  | none => rfl
  | some u => exact absurd hh (hissued h u hv).2

/-- **HTTP**: the second word, whatever stands before and after it. -/
theorem acceptsHttp_iff (hissued : IssuedOnly jwtVerify) {h u : JsString} :
    AcceptsHttp jwtVerify h u ↔
      ∃ s t more, h = s ++ 32 :: (t ++ more) ∧ 32 ∉ s ∧ 32 ∉ t ∧ EndsWord more ∧
        jwtVerify t = some u := by
  constructor
  · intro hacc
    by_cases hmem : (32 : UInt16) ∈ h
    · obtain ⟨s, rest, rfl, hs⟩ := List.eq_append_cons_of_mem hmem
      obtain ⟨t, more, rfl, ht, hmore⟩ := exists_word rest
      exact ⟨s, t, more, rfl, hs, ht, hmore, ((acceptsHttp_second hs ht hmore).mp hacc).2⟩
    · exact absurd hacc (not_acceptsHttp_of_not_mem hmem)
  · rintro ⟨s, t, more, rfl, hs, ht, hmore, hv⟩
    exact (acceptsHttp_second hs ht hmore).mpr ⟨(hissued t u hv).1, hv⟩

theorem handleConnection_header {N : Type} (C : LanguageServer.Config N) (s : LanguageServer.World)
    (h : JsString) :
    s.handleConnection C none (some h) =
      if h = [] then s
      else
        match C.verify (replace h (js "Bearer ") []) with
        | none => s
        | some userId => { s with clients := s.clients ++ [⟨userId, true⟩] } := rfl

/-- The header less the first `Bearer `. -/
theorem acceptsSocket_iff_stripped {N : Type} (C : LanguageServer.Config N)
    (hissued : IssuedOnly C.verify) (s : LanguageServer.World) {h u : JsString} :
    AcceptsSocket C s h u ↔ C.verify (replace h (js "Bearer ") []) = some u := by
  have hskip : s.clients ≠ s.clients ++ [⟨u, true⟩] := by
    intro heq
    have := congrArg List.length heq
    rw [List.length_append, List.length_singleton] at this
    omega
  rw [AcceptsSocket, handleConnection_header]
  by_cases hempty : h = []
  · rw [if_pos hempty, hempty]
    have hnil : replace [] (js "Bearer ") [] = [] := by decide
    rw [hnil]
    exact iff_of_false hskip fun hv => (hissued [] u hv).1 rfl
  · rw [if_neg hempty]
    cases C.verify (replace h (js "Bearer ") []) with
    | none => exact iff_of_false hskip fun hv => by cases hv
    | some v =>
      constructor
      · intro hc
        have := List.append_cancel_left hc
        cases this
        rfl
      · intro hv
        rw [Option.some.inj hv]

/-- A text with one blank is cut there in one way. -/
theorem blank_inj {s s' t t' : JsString} (hs : 32 ∉ s) (ht : 32 ∉ t)
    (h : s ++ 32 :: t = s' ++ 32 :: t') : s = s' ∧ t = t' := by
  obtain ⟨hs, -, ht⟩ := (List.append_cons_inj_of_notMem hs ht).mp h
  exact ⟨hs, ht⟩

theorem bearer_blank (t : JsString) : js "Bearer " ++ t = js "Bearer" ++ 32 :: t := rfl

theorem bearer_not_mem {x : JsString} (hx : 32 ∉ x) : 32 ∉ x ++ js "Bearer" := by
  intro h
  rcases List.mem_append.mp h with h | h
  · exact hx h
  · exact absurd h (by decide)

theorem bearer_inj {x x' t t' : JsString} (hx : 32 ∉ x) (ht : 32 ∉ t)
    (h : x ++ js "Bearer" ++ 32 :: t = x' ++ js "Bearer" ++ 32 :: t') : x = x' ∧ t = t' := by
  obtain ⟨hx, ht⟩ := blank_inj (bearer_not_mem hx) ht h
  exact ⟨List.append_cancel_right hx, ht⟩

/-- **Sockets**: a token alone, or one with `Bearer ` anywhere before its end. -/
theorem acceptsSocket_iff {N : Type} (C : LanguageServer.Config N) (hissued : IssuedOnly C.verify)
    (s : LanguageServer.World) {h u : JsString} :
    AcceptsSocket C s h u ↔
      C.verify h = some u ∨
        ∃ x t, h = x ++ js "Bearer" ++ 32 :: t ∧ 32 ∉ x ∧ 32 ∉ t ∧ C.verify (x ++ t) = some u := by
  rw [acceptsSocket_iff_stripped C hissued, replace]
  cases hi : indexOf (js "Bearer ") h with
  | none =>
    refine ⟨Or.inl, ?_⟩
    rintro (hv | ⟨x, t, rfl, -, -, -⟩)
    · exact hv
    · refine absurd ⟨x, t, ?_⟩ (indexOf_eq_none_iff.mp hi)
      rw [List.append_assoc, List.append_assoc, bearer_blank]
  | some n =>
    obtain ⟨x, t, hx, ht, hh⟩ : ∃ x t, h.take n = x ∧ h.drop (n + (js "Bearer ").length) = t ∧
        h = x ++ js "Bearer" ++ 32 :: t := by
      refine ⟨_, _, rfl, rfl, ?_⟩
      calc h = h.take n ++ (js "Bearer " ++ h.drop (n + (js "Bearer ").length)) :=
            (indexOf_take hi).1
        _ = h.take n ++ js "Bearer" ++ 32 :: h.drop (n + (js "Bearer ").length) := by
            rw [bearer_blank, List.append_assoc]
    simp only [hx, ht, expandReplacement, List.append_nil]
    subst hh
    constructor
    · intro hv
      have hblank := (hissued _ _ hv).2
      rw [List.mem_append, not_or] at hblank
      exact Or.inr ⟨x, t, rfl, hblank.1, hblank.2, hv⟩
    · rintro (hv | ⟨y, v, heq, hy, hblank, hv⟩)
      · exact absurd (List.mem_append_right _ List.mem_cons_self) (hissued _ _ hv).2
      · obtain ⟨rfl, rfl⟩ := bearer_inj hy hblank heq.symm
        exact hv

/-! ### Where they agree -/

/-- What a header must not hold for the two ways to differ. -/
structure ReadsAlike (jwtVerify : JsString → Option JsString) (h : JsString) : Prop where
  /-- It is no token itself. -/
  scheme : jwtVerify h = none
  /-- A token that is its second word is its last, after one that ends in
  `Bearer`. -/
  bearer : ∀ s t more, h = s ++ 32 :: (t ++ more) → 32 ∉ s → 32 ∉ t → EndsWord more →
    jwtVerify t ≠ none → more = [] ∧ js "Bearer" <:+ s
  /-- What stands before that `Bearer` does not change whose token it is. -/
  before : ∀ x t, h = x ++ js "Bearer" ++ 32 :: t → 32 ∉ x → 32 ∉ t →
    jwtVerify (x ++ t) = jwtVerify t

theorem endsWord_of_not_mem {t more : JsString} (hmore : EndsWord more) (h : 32 ∉ t ++ more) :
    more = [] := by
  rcases hmore with rfl | ⟨rest, rfl⟩
  · rfl
  · exact absurd (List.mem_append_right t List.mem_cons_self) h

/-- `Bearer <token>` and nothing else. -/
theorem readsAlike_bearer (hissued : IssuedOnly jwtVerify) {t : JsString} (ht : 32 ∉ t) :
    ReadsAlike jwtVerify (js "Bearer " ++ t) := by
  have hbearer : (32 : UInt16) ∉ js "Bearer" := bearer_not_mem List.not_mem_nil
  rw [bearer_blank]
  refine ⟨?_, ?_, ?_⟩
  · exact not_token_of_mem hissued (List.mem_append_right _ List.mem_cons_self)
  · intro s v more heq _ _ hmore _
    obtain ⟨rfl, rfl⟩ := blank_inj hbearer ht heq
    exact ⟨endsWord_of_not_mem hmore ht, List.suffix_refl _⟩
  · intro x v heq _ _
    obtain ⟨hx, rfl⟩ := blank_inj hbearer ht heq
    obtain rfl := List.self_eq_append_left.mp hx
    rfl

/-- **The two ways read a header alike exactly when it holds one token after `Bearer`, or none
at all.**  Under HTTP and on a socket without `auth.token`, a header is accepted as the same
users if and only if it is no token itself, a token that is its second word is also its last and
comes after a word that ends in `Bearer`, and what stands before this `Bearer` does not change
whose token is read. -/
theorem authentication_agrees_iff {N : Type} (C : LanguageServer.Config N)
    (hissued : IssuedOnly C.verify) (s : LanguageServer.World) (h : JsString) :
    (∀ u, AcceptsHttp C.verify h u ↔ AcceptsSocket C s h u) ↔ ReadsAlike C.verify h := by
  simp only [acceptsHttp_iff hissued, acceptsSocket_iff C hissued]
  constructor
  · intro hagree
    refine ⟨?_, ?_, ?_⟩
    · cases hv : C.verify h with
      | none => rfl
      | some u =>
        obtain ⟨w, t, more, rfl, -⟩ := (hagree u).mpr (Or.inl hv)
        exact absurd (List.mem_append_right _ List.mem_cons_self) (hissued _ u hv).2
    · intro w t more heq hw ht hmore hne
      obtain ⟨u, hv⟩ := Option.ne_none_iff_exists'.mp hne
      rcases (hagree u).mp ⟨w, t, more, heq, hw, ht, hmore, hv⟩ with hv' | ⟨x, t', heq', hx, ht', -⟩
      · rw [heq] at hv'
        exact absurd (List.mem_append_right _ List.mem_cons_self) (hissued _ u hv').2
      · obtain ⟨rfl, rfl⟩ := blank_inj (bearer_not_mem hx) ht' (heq'.symm.trans heq)
        exact ⟨endsWord_of_not_mem hmore ht', List.suffix_append x _⟩
    · intro x t heq hx ht
      apply Option.ext
      intro u
      constructor
      · intro hv
        obtain ⟨w, t', more, heq', -, -, hmore, hv'⟩ :=
          (hagree u).mpr (Or.inr ⟨x, t, heq, hx, ht, hv⟩)
        obtain ⟨rfl, rfl⟩ := blank_inj (bearer_not_mem hx) ht (heq.symm.trans heq')
        obtain rfl := endsWord_of_not_mem hmore ht
        rw [List.append_nil]
        exact hv'
      · intro hv
        have hend : t = t ++ [] := (List.append_nil t).symm
        rcases (hagree u).mp ⟨_, t, [], hend ▸ heq, bearer_not_mem hx, ht, Or.inl rfl, hv⟩ with
          hv' | ⟨y, t', heq', hy, ht', hv'⟩
        · rw [heq] at hv'
          exact absurd (List.mem_append_right _ List.mem_cons_self) (hissued _ u hv').2
        · obtain ⟨rfl, rfl⟩ := bearer_inj hx ht (heq.symm.trans heq')
          exact hv'
  · rintro ⟨hscheme, hbearer, hbefore⟩ u
    constructor
    · rintro ⟨w, t, more, heq, hw, ht, hmore, hv⟩
      obtain ⟨rfl, x, rfl⟩ := hbearer w t more heq hw ht hmore (by rw [hv]; exact Option.some_ne_none u)
      rw [List.append_nil] at heq
      rw [List.mem_append, not_or] at hw
      exact Or.inr ⟨x, t, heq, hw.1, ht, (hbefore x t heq hw.1 ht).trans hv⟩
    · rintro (hv | ⟨x, t, heq, hx, ht, hv⟩)
      · rw [hscheme] at hv
        cases hv
      · refine ⟨x ++ js "Bearer", t, [], ?_, bearer_not_mem hx, ht, Or.inl rfl, ?_⟩
        · rw [List.append_nil]
          exact heq
        · exact (hbefore x t heq hx ht).symm.trans hv

/-- One token, for runs on concrete inputs. -/
def annsToken : LanguageServer.Config Int :=
  { LanguageServer.Config.plain with
    verify := fun token => if token = js "eyJ.ann.sig" then some (js "ann") else none }

theorem issuedOnly_annsToken : IssuedOnly annsToken.verify := by
  intro token userId hv
  by_cases ht : token = js "eyJ.ann.sig"
  · rw [ht]
    decide
  · simp only [annsToken, if_neg ht] at hv
    cases hv

/-- The header that the client sends. -/
theorem authentication_agrees_on_bearer :
    ReadsAlike annsToken.verify (js "Bearer eyJ.ann.sig") ∧
      (AcceptsHttp annsToken.verify (js "Bearer eyJ.ann.sig") (js "ann") ↔
        AcceptsSocket annsToken LanguageServer.World.initial (js "Bearer eyJ.ann.sig") (js "ann")) := by
  have halike : ReadsAlike annsToken.verify (js "Bearer eyJ.ann.sig") :=
    readsAlike_bearer issuedOnly_annsToken (t := js "eyJ.ann.sig") (by decide)
  exact ⟨halike, (authentication_agrees_iff annsToken issuedOnly_annsToken _ _).mpr halike _⟩

/-- Under another scheme a token is good for HTTP alone, and without a scheme
for a socket alone. -/
theorem authentication_differs :
    (AcceptsHttp annsToken.verify (js "Basic eyJ.ann.sig") (js "ann") ∧
      ¬ AcceptsSocket annsToken LanguageServer.World.initial (js "Basic eyJ.ann.sig") (js "ann")) ∧
    (AcceptsSocket annsToken LanguageServer.World.initial (js "eyJ.ann.sig") (js "ann") ∧
      ¬ AcceptsHttp annsToken.verify (js "eyJ.ann.sig") (js "ann")) := by
  refine ⟨⟨?_, ?_⟩, ?_, ?_⟩
  · exact (acceptsHttp_second (s := js "Basic") (t := js "eyJ.ann.sig") (by decide) (by decide)
      (Or.inl rfl)).mpr ⟨by decide, by decide⟩
  · rw [acceptsSocket_iff_stripped annsToken issuedOnly_annsToken]
    decide
  · rw [acceptsSocket_iff_stripped annsToken issuedOnly_annsToken]
    decide
  · exact not_acceptsHttp_of_not_mem (by decide)

end FullstackSvc.Auth
