import FullstackSvc.Text.Utf8

/-!
# Tokens (`token-manager.ts`, `requester.decorator.ts`)

`jsonwebtoken` is left open: a `Jwt` signs the `userId` of a payload at some
time, and at another time finds it again in a token or throws.
-/

namespace FullstackSvc.Auth

open Text

structure Requester where
  userId : JsString
  deriving DecidableEq

inductive JsError
  | unauthorized (message : JsString)
  | badRequest (message : JsString)
  deriving DecidableEq

/-- `jwt.sign` and `jwt.verify`; what expires does so after whole seconds. -/
structure Jwt where
  sign : (payload : Requester) → (secret : JsString) → (expiresIn : Nat) → (now : Nat) → JsString
  verify : (token secret : JsString) → (now : Nat) → Option Requester

/-- A token signed at one time has not expired at another. -/
def Unexpired (expiresIn signed now : Nat) : Prop := now / 1000 < signed / 1000 + expiresIn

/-- `jwt.verify` inverts `jwt.sign` under the same secret. -/
def Jwt.Inverts (J : Jwt) : Prop :=
  ∀ payload secret expiresIn signed now, Unexpired expiresIn signed now →
    J.verify (J.sign payload secret expiresIn signed) secret now = some payload

/-- `appConfig`: `process.env.JWT_SECRET || 'jwtSecret'`. -/
def jwtSecret (env : Option JsString) : JsString :=
  match env with
  | none => js "jwtSecret"
  | some secret => if secret = [] then js "jwtSecret" else secret

/-- `'1d'`, in seconds. -/
def oneDay : Nat := 86400

/-- `TokenManager.create`. -/
def TokenManager.create (J : Jwt) (env : Option JsString) (payload : Requester) (now : Nat) :
    JsString :=
  J.sign payload (jwtSecret env) oneDay now

/-- `TokenManager.verify`, for what `jwt.verify` makes of a token. -/
def TokenManager.verify (jwtVerify : JsString → Option JsString) (token : JsString) :
    Except JsError Requester :=
  match jwtVerify token with
  | none => throw (.badRequest (js "Token verification failed"))
  | some userId => pure { userId := userId }

/-- What `jwt.verify` makes of a token at some time. -/
def Jwt.userIdAt (J : Jwt) (env : Option JsString) (now : Nat) (token : JsString) :
    Option JsString :=
  (J.verify token (jwtSecret env) now).map Requester.userId

/-- A token is good for a day, for the user it was made for. -/
theorem TokenManager.verify_create {J : Jwt} (hJ : J.Inverts) (env : Option JsString)
    (payload : Requester) {signed now : Nat} (h : Unexpired oneDay signed now) :
    TokenManager.verify (J.userIdAt env now) (TokenManager.create J env payload signed) =
      .ok payload := by
  have hv : J.userIdAt env now (TokenManager.create J env payload signed) = some payload.userId := by
    rw [Jwt.userIdAt, TokenManager.create, hJ payload _ _ _ _ h]
    rfl
  rw [TokenManager.verify, hv]
  rfl

end FullstackSvc.Auth
