import Mathlib.Data.List.Nodup
import Mathlib.Data.Set.Function
import FullstackSvc.Auth.Token
import FullstackSvc.Registration.World

/-!
# Registration and login as a password table (`user.service.ts`)

Calls that come one at a time, on a database that answers them.  What they have
answered so far says which email is registered with which password; the rows of
`User` say the same, by a salt and a hash.

* `Turn.play` runs one call to its end, `Plays` a history of them.
* `Tabled` is the link between the two: a row for every successful registration,
  and a registration for every row.
* A plain select outside a transaction, as in `login`, sees the committed rows.
-/

namespace FullstackSvc.Registration

open Text Async Auth

inductive LoginError
  | notFound (message : JsString)
  | forbidden (message : JsString)
  deriving DecidableEq

def userNotFound : LoginError := .notFound (js "해당 유저는 존재하지 않습니다.")

def passwordMismatch : LoginError := .forbidden (js "비밀번호가 일치하지 않습니다.")

/-- The environment of `UserService`, the tokens included. -/
structure Accounts extends Config where
  jwt : Jwt
  /-- `process.env.JWT_SECRET`. -/
  secret : Option JsString

variable (C : Accounts)

/-- `PasswordHashCreator.verify`. -/
def verifyPassword (password : JsString) (hashedPassword : HashedPassword) :
    Except LoginError Unit :=
  let hash := C.hmac hashedPassword.salt password
  if hash ≠ hashedPassword.hash then throw passwordMismatch else pure ()

/-- `findOneBy({ email })` outside a transaction. -/
def findOneBy (s : World) (email : JsString) : Option User :=
  s.users.find? fun user => C.sameText user.email email

/-- `UserService.login`. -/
def login (s : World) (email password : JsString) : Except LoginError JsString :=
  match findOneBy C s email with
  | none => throw userNotFound
  | some user => do
    verifyPassword C password { hash := user.passwordHash, salt := user.salt }
    let requester : Requester := { userId := user.id }
    pure (TokenManager.create C.jwt C.secret requester s.now)

/-! ### Histories -/

inductive Turn
  | wait (milliseconds : Nat)
  | register (email password : JsString)
  | login (email password : JsString)
  deriving DecidableEq

inductive Outcome
  | waited
  | registered (result : Except JsError User)
  | loggedIn (result : Except LoginError JsString)

/-- A call of `register` has come. -/
def World.called (s : World) (email password : JsString) : World :=
  { s with calls := s.calls ++ [.register email password] }

/-- One call, from its arrival to its end. -/
def Turn.play (s : World) : Turn → Option (Outcome × World)
  | .wait milliseconds => some (.waited, { s with now := s.now + milliseconds })
  | .register email password =>
    ((Registration.register C.toConfig email password).runWith (host C.toConfig) s.calls.length
      .done (s.called email password)).map fun (result, s') => (.registered result, s')
  | .login email password => some (.loggedIn (Registration.login C s email password), s)

/-- Calls one after the other from the empty table, and what they have answered. -/
inductive Plays : List (Turn × Outcome) → World → Prop
  | start : Plays [] World.initial
  | turn {log : List (Turn × Outcome)} {s s' : World} {turn : Turn} {answer : Outcome} :
    Plays log s → turn.play C s = some (answer, s') → Plays (log ++ [(turn, answer)]) s'

/-- The email was registered with the password, as this user. -/
def RegisteredAs (log : List (Turn × Outcome)) (email password : JsString) (user : User) : Prop :=
  (.register email password, .registered (.ok user)) ∈ log

def Turn.email? : Turn → Option JsString
  | .wait _ => none
  | .register email _ => some email
  | .login email _ => some email

def Turn.password? : Turn → Option JsString
  | .wait _ => none
  | .register _ password => some password
  | .login _ password => some password

/-- What is assumed of the texts that the store and `crypto` are given and give. -/
structure Assumed (turns : List Turn) : Prop where
  /-- The store compares emails exactly. -/
  sameText : ∀ a b, C.sameText a b = true ↔ a = b
  /-- Emails fit their column. -/
  emails : ∀ turn ∈ turns, ∀ email, turn.email? = some email → FitsVarchar 100 email
  /-- So do the ids of this history, the salts and the hashes. -/
  ids : ∀ n < turns.length, FitsVarchar 50 (C.ulid.text n)
  salts : ∀ n, FitsVarchar 100 (C.randomHex n)
  hashes : ∀ salt password, FitsVarchar 100 (C.hmac salt password)
  /-- The HMAC tells the passwords of this history apart under any one salt. -/
  hmac : ∀ salt, Set.InjOn (C.hmac salt) {password | ∃ turn ∈ turns, turn.password? = some password}

/-! ### One registration -/

variable {C} {s : World} {pid : Nat} {email password : JsString}

/-- A transaction that has begun. -/
def World.opened (s : World) (pid : Nat) : World := s.setTransaction pid ⟨none, []⟩

@[simp] theorem opened_users : (s.opened pid).users = s.users := rfl

@[simp] theorem opened_transactions : (s.opened pid).transactions pid = ⟨none, []⟩ :=
  Function.update_self ..

theorem look_rows : ((s.look C.toConfig pid email).transactions pid).rows =
    (s.transactions pid).rows := by
  show ((Function.update s.transactions pid _) pid).rows = _
  rw [Function.update_self]

theorem insert_rows {row : User} : ((s.insert pid row).transactions pid).rows =
    (s.transactions pid).rows ++ [row] := by
  show ((Function.update s.transactions pid _) pid).rows = _
  rw [Function.update_self]

theorem commit_users : (s.commit pid).users = s.users ++ (s.transactions pid).rows := rfl

/-- It sees the rows that are committed. -/
theorem findUser_opened : (s.opened pid).findUser C.toConfig pid email = findOneBy C s email := by
  simp only [World.findUser, World.visible, opened_transactions, opened_users, Option.getD_none,
    List.append_nil]
  rfl

theorem runWith_findOneBy {α : Type} (f : Option User → Program α) :
    ((await (.findOneBy email)).bind f).runWith (host C.toConfig) pid .done (s.opened pid) =
      (f (findOneBy C s email)).runWith (host C.toConfig) pid .done
        ((s.opened pid).look C.toConfig pid email) := by
  have hperform : (host C.toConfig).perform pid (.findOneBy email) .done (s.opened pid) =
      some (.ok (findOneBy C s email), (s.opened pid).look C.toConfig pid email) := by
    rw [← findUser_opened]
    rfl
  exact Prog.runWith_await hperform f

section

variable {α : Type} {body : Program α} {s₁ : World}

theorem runWith_transaction_ok {a : α}
    (h : body.runWith (host C.toConfig) pid .done (s.opened pid) = some (.ok a, s₁)) :
    (transaction body).runWith (host C.toConfig) pid .done s = some (.ok a, s₁.commit pid) := by
  have hstart : (host C.toConfig).perform pid .startTransaction .done s =
      some (.ok (), s.opened pid) := rfl
  rw [transaction, Prog.tryCatch_eq, Prog.runWith_handle, Prog.bind_eq, await,
    Prog.runWith_await hstart, Prog.bind_eq, Prog.runWith_bind, h]
  rfl

/-- What an error leaves is rolled back. -/
theorem runWith_transaction_error {e : JsError}
    (h : body.runWith (host C.toConfig) pid .done (s.opened pid) = some (.error e, s₁)) :
    (transaction body).runWith (host C.toConfig) pid .done s =
      some (.error e, s₁.opened pid) := by
  have hstart : (host C.toConfig).perform pid .startTransaction .done s =
      some (.ok (), s.opened pid) := rfl
  rw [transaction, Prog.tryCatch_eq, Prog.runWith_handle, Prog.bind_eq, await,
    Prog.runWith_await hstart, Prog.bind_eq, Prog.runWith_bind, h]
  rfl

end

/-- Who comes second is told so, and the table stays as it is. -/
theorem runWith_register_taken {user : User} (h : findOneBy C s email = some user) :
    (register C.toConfig email password).runWith (host C.toConfig) pid .done s =
      some (.error emailTaken, ((s.opened pid).look C.toConfig pid email).opened pid) := by
  refine runWith_transaction_error ?_
  rw [Prog.bind_eq, runWith_findOneBy, h]
  rfl

/-- The row that `register` makes. -/
def newRow (C : Accounts) (s : World) (email password : JsString) : User where
  id := C.ulid.text s.drawnBy.length
  email := email
  passwordHash := C.hmac (C.randomHex s.saltsDrawn) password
  salt := C.randomHex s.saltsDrawn
  createdAt := s.now

/-- An id and a salt are drawn. -/
def World.drawn (s : World) (pid : Nat) : World :=
  { s with drawnBy := s.drawnBy ++ [pid], saltsDrawn := s.saltsDrawn + 1 }

theorem runWith_createUser (hfits : (newRow C s email password).Fits)
    (hid : (newRow C s email password).id ∉ (s.users ++ (s.transactions pid).rows).map User.id) :
    (createUser C.toConfig email password).runWith (host C.toConfig) pid .done s =
      some (.ok (newRow C s email password),
        (s.drawn pid).insert pid (newRow C s email password)) := by
  have hsave : (host C.toConfig).perform pid (.saveUser (newRow C s email password)) .done
      (s.drawn pid) = some (.ok (), (s.drawn pid).insert pid (newRow C s email password)) := by
    show some (performDone C.toConfig pid _ _) = _
    rw [performDone, if_neg (not_not_intro hfits)]
    exact congrArg some (if_neg hid)
  show ((await (.saveUser (newRow C s email password))).bind fun _ =>
    Prog.ret (newRow C s email password)).runWith _ _ _ (s.drawn pid) = _
  rw [await, Prog.runWith_await hsave]
  rfl

/-- Who comes first gets a row. -/
theorem runWith_register_free (h : findOneBy C s email = none)
    (hfits : (newRow C s email password).Fits)
    (hid : (newRow C s email password).id ∉ s.users.map User.id) :
    ∃ s', (register C.toConfig email password).runWith (host C.toConfig) pid .done s =
        some (.ok (newRow C s email password), s') ∧
      s'.users = s.users ++ [newRow C s email password] ∧ s'.drawnBy = s.drawnBy ++ [pid] := by
  have hrows : (((s.opened pid).look C.toConfig pid email).transactions pid).rows = [] := by
    rw [look_rows, opened_transactions]
  have hid' : (newRow C s email password).id ∉
      (s.users ++ (((s.opened pid).look C.toConfig pid email).transactions pid).rows).map
        User.id := by
    rw [hrows, List.append_nil]
    exact hid
  refine ⟨((((s.opened pid).look C.toConfig pid email).drawn pid).insert pid
    (newRow C s email password)).commit pid, runWith_transaction_ok ?_, ?_, rfl⟩
  · rw [Prog.bind_eq, runWith_findOneBy, h]
    exact runWith_createUser (s := (s.opened pid).look C.toConfig pid email) hfits hid'
  · rw [commit_users, insert_rows]
    show s.users ++ ((((s.opened pid).look C.toConfig pid email).transactions pid).rows ++ _) = _
    rw [hrows]
    rfl

/-! ### The rows and the history -/

/-- The rows of the table and what the history has answered. -/
structure Tabled (C : Accounts) (log : List (Turn × Outcome)) (s : World) : Prop where
  /-- Who has registered has a row, with the hash of the password. -/
  row : ∀ email password user, RegisteredAs log email password user →
    user ∈ s.users ∧ user.email = email ∧ user.passwordHash = C.hmac user.salt password
  /-- Who has a row has registered. -/
  logged : ∀ user ∈ s.users, ∃ password, RegisteredAs log user.email password user
  emails : (s.users.map User.email).Nodup
  ids : ∀ user ∈ s.users, ∃ n < s.drawnBy.length, C.ulid.text n = user.id
  drawn : s.drawnBy.length ≤ log.length

theorem tabled_initial : Tabled C [] World.initial :=
  ⟨fun _ _ _ h => absurd h List.not_mem_nil, fun _ h => absurd h List.not_mem_nil, List.nodup_nil,
    fun _ h => absurd h List.not_mem_nil, Nat.le_refl 0⟩

section

variable {log : List (Turn × Outcome)}

/-- Any two registrations of one email are one. -/
theorem Tabled.unique (h : Tabled C log s) {password' : JsString} {user user' : User}
    (hu : RegisteredAs log email password user) (hu' : RegisteredAs log email password' user') :
    user = user' := by
  obtain ⟨hmem, hemail, -⟩ := h.row _ _ _ hu
  obtain ⟨hmem', hemail', -⟩ := h.row _ _ _ hu'
  exact List.inj_on_of_nodup_map h.emails hmem hmem' (hemail.trans hemail'.symm)

theorem findOneBy_spec (hsame : ∀ a b, C.sameText a b = true ↔ a = b) {user : User}
    (hf : findOneBy C s email = some user) : user ∈ s.users ∧ user.email = email := by
  have hfound := List.find?_some (p := fun row : User => C.sameText row.email email) hf
  exact ⟨List.mem_of_find?_eq_some hf, (hsame _ _).mp hfound⟩

/-- The select finds who has registered. -/
theorem Tabled.findOneBy_eq_some (h : Tabled C log s)
    (hsame : ∀ a b, C.sameText a b = true ↔ a = b) {user : User} :
    findOneBy C s email = some user ↔ ∃ password, RegisteredAs log email password user := by
  constructor
  · intro hf
    obtain ⟨hmem, hemail⟩ := findOneBy_spec hsame hf
    obtain ⟨password, hp⟩ := h.logged user hmem
    exact ⟨password, hemail ▸ hp⟩
  · rintro ⟨password, hp⟩
    obtain ⟨hmem, hemail, -⟩ := h.row _ _ _ hp
    cases hf : findOneBy C s email with
    | none => exact absurd ((hsame _ _).mpr hemail) (List.find?_eq_none.mp hf user hmem)
    | some user' =>
      obtain ⟨hmem', hemail'⟩ := findOneBy_spec hsame hf
      exact congrArg some (List.inj_on_of_nodup_map h.emails hmem' hmem
        (hemail'.trans hemail.symm))

theorem Tabled.findOneBy_eq_none (h : Tabled C log s)
    (hsame : ∀ a b, C.sameText a b = true ↔ a = b) :
    findOneBy C s email = none ↔ ¬ ∃ password user, RegisteredAs log email password user := by
  rw [← not_iff_not, not_not, ← ne_eq, Option.ne_none_iff_exists']
  constructor
  · rintro ⟨user, hf⟩
    obtain ⟨password, hp⟩ := (h.findOneBy_eq_some hsame).mp hf
    exact ⟨password, user, hp⟩
  · rintro ⟨password, user, hp⟩
    exact ⟨user, (h.findOneBy_eq_some hsame).mpr ⟨password, hp⟩⟩

theorem registeredAs_append {entry : Turn × Outcome} {user : User} :
    RegisteredAs (log ++ [entry]) email password user ↔
      RegisteredAs log email password user ∨
        entry = (.register email password, .registered (.ok user)) := by
  rw [RegisteredAs, List.mem_append, List.mem_singleton]
  exact or_congr_right eq_comm

/-- A turn that adds no row. -/
theorem Tabled.quiet (h : Tabled C log s) {entry : Turn × Outcome} {s' : World}
    (hentry : ∀ email password user, entry ≠ (.register email password, .registered (.ok user)))
    (husers : s'.users = s.users) (hdrawn : s'.drawnBy = s.drawnBy) :
    Tabled C (log ++ [entry]) s' := by
  have hsame : ∀ email password user, RegisteredAs (log ++ [entry]) email password user ↔
      RegisteredAs log email password user :=
    fun email password user => registeredAs_append.trans (or_iff_left (hentry email password user))
  refine ⟨?_, ?_, ?_, ?_, ?_⟩
  · intro email password user hu
    rw [husers]
    exact h.row _ _ _ ((hsame _ _ _).mp hu)
  · intro user hu
    obtain ⟨password, hp⟩ := h.logged user (husers ▸ hu)
    exact ⟨password, (hsame _ _ _).mpr hp⟩
  · rw [husers]
    exact h.emails
  · rw [husers, hdrawn]
    exact h.ids
  · rw [hdrawn, List.length_append]
    exact Nat.le_add_right_of_le h.drawn

/-- A turn that adds the row of an email that had none. -/
theorem Tabled.add (h : Tabled C log s) (hsame : ∀ a b, C.sameText a b = true ↔ a = b)
    (hfree : findOneBy C s email = none) {s' : World}
    (husers : s'.users = s.users ++ [newRow C s email password])
    (hdrawn : s'.drawnBy = s.drawnBy ++ [pid]) :
    Tabled C (log ++ [(.register email password, .registered (.ok (newRow C s email password)))])
      s' := by
  refine ⟨?_, ?_, ?_, ?_, ?_⟩
  · intro e p user hu
    rw [husers]
    rcases registeredAs_append.mp hu with hu | hu
    · obtain ⟨hmem, hrow⟩ := h.row _ _ _ hu
      exact ⟨List.mem_append_left _ hmem, hrow⟩
    · cases hu
      exact ⟨List.mem_append_right _ List.mem_cons_self, rfl, rfl⟩
  · intro user hu
    rw [husers] at hu
    rcases List.mem_append.mp hu with hu | hu
    · obtain ⟨p, hp⟩ := h.logged user hu
      exact ⟨p, registeredAs_append.mpr (Or.inl hp)⟩
    · obtain rfl := List.mem_singleton.mp hu
      exact ⟨password, registeredAs_append.mpr (Or.inr rfl)⟩
  · have hnew : ∀ user ∈ s.users, user.email ≠ email := by
      intro user hu heq
      exact List.find?_eq_none.mp hfree user hu ((hsame _ _).mpr heq)
    rw [husers, List.map_append, List.nodup_append]
    refine ⟨h.emails, List.pairwise_singleton _ _, ?_⟩
    intro a ha b hb
    obtain ⟨user, hu, rfl⟩ := List.mem_map.mp ha
    obtain rfl := List.mem_singleton.mp hb
    exact hnew user hu
  · intro user hu
    rw [husers] at hu
    rw [hdrawn, List.length_append, List.length_singleton]
    rcases List.mem_append.mp hu with hu | hu
    · obtain ⟨n, hn, hid⟩ := h.ids user hu
      exact ⟨n, by omega, hid⟩
    · obtain rfl := List.mem_singleton.mp hu
      exact ⟨s.drawnBy.length, by omega, rfl⟩
  · rw [hdrawn, List.length_append, List.length_append]
    have := h.drawn
    simp only [List.length_singleton]
    omega

/-- What `register` does: it refuses an email that it finds, and else makes a
row that goes in. -/
theorem Tabled.register_cases (h : Tabled C log s)
    (hassumed : Assumed C (log.map Prod.fst ++ [.register email password])) :
    (∃ user s', findOneBy C s email = some user ∧
      Turn.play C s (.register email password) = some (.registered (.error emailTaken), s') ∧
      s'.users = s.users ∧ s'.drawnBy = s.drawnBy) ∨
    ∃ s', findOneBy C s email = none ∧
      Turn.play C s (.register email password) =
        some (.registered (.ok (newRow C s email password)), s') ∧
      s'.users = s.users ++ [newRow C s email password] ∧
      s'.drawnBy = s.drawnBy ++ [s.calls.length] := by
  cases hf : findOneBy C s email with
  | some user =>
    refine Or.inl ⟨user, (((s.called email password).opened s.calls.length).look C.toConfig
      s.calls.length email).opened s.calls.length, rfl, ?_, rfl, rfl⟩
    rw [Turn.play, runWith_register_taken (s := s.called email password) hf]
    rfl
  | none =>
    have hlength : s.drawnBy.length < (log.map Prod.fst ++ [Turn.register email password]).length := by
      rw [List.length_append, List.length_map, List.length_singleton]
      exact Nat.lt_succ_of_le h.drawn
    have hfits : (newRow C s email password).Fits :=
      ⟨hassumed.ids _ hlength, hassumed.emails (.register email password)
        (List.mem_append_right _ List.mem_cons_self) email rfl, hassumed.hashes _ _,
        hassumed.salts _⟩
    have hid : (newRow C s email password).id ∉ s.users.map User.id := by
      intro hmem
      obtain ⟨user, hu, heq⟩ := List.mem_map.mp hmem
      obtain ⟨n, hn, hid⟩ := h.ids user hu
      have := C.ulid.injective (hid.trans heq)
      omega
    obtain ⟨s', hrun, husers, hdrawn⟩ :=
      runWith_register_free (s := s.called email password) hf hfits hid
    refine Or.inr ⟨s', rfl, ?_, husers, hdrawn⟩
    rw [Turn.play, hrun]
    rfl

/-- What `login` does: a token for the password that the email was registered
with, and no other. -/
theorem Tabled.login_eq_ok (h : Tabled C log s)
    (hassumed : Assumed C (log.map Prod.fst ++ [.login email password])) {token : JsString} :
    login C s email password = .ok token ↔
      ∃ user, RegisteredAs log email password user ∧
        token = TokenManager.create C.jwt C.secret ⟨user.id⟩ s.now := by
  cases hf : findOneBy C s email with
  | none =>
    have hnone := (h.findOneBy_eq_none hassumed.sameText).mp hf
    simp only [login, hf]
    refine iff_of_false (fun hc => by cases hc) ?_
    rintro ⟨user, hu, -⟩
    exact hnone ⟨password, user, hu⟩
  | some user =>
    obtain ⟨password', hp⟩ := (h.findOneBy_eq_some hassumed.sameText).mp hf
    obtain ⟨-, -, hhash⟩ := h.row _ _ _ hp
    simp only [login, hf, verifyPassword, hhash]
    by_cases hsame : C.hmac user.salt password = C.hmac user.salt password'
    · have hused : Turn.register email password' ∈ log.map Prod.fst := List.mem_map_of_mem hp
      have hpassword : password = password' := hassumed.hmac user.salt
        ⟨_, List.mem_append_right _ List.mem_cons_self, rfl⟩
        ⟨_, List.mem_append_left _ hused, rfl⟩ hsame
      subst hpassword
      rw [if_neg (not_not_intro rfl)]
      constructor
      · intro hc
        cases hc
        exact ⟨user, hp, rfl⟩
      · rintro ⟨user', hp', rfl⟩
        rw [h.unique hp' hp]
        rfl
    · rw [if_pos hsame]
      refine iff_of_false (fun hc => by cases hc) ?_
      rintro ⟨user', hp', -⟩
      obtain ⟨-, -, hhash'⟩ := h.row _ _ _ hp'
      rw [h.unique hp' hp] at hhash'
      exact hsame (hhash'.symm.trans hhash)

end

/-! ### Every history -/

theorem Assumed.left {turns turns' : List Turn} (h : Assumed C (turns ++ turns')) :
    Assumed C turns where
  sameText := h.sameText
  emails turn hm := h.emails turn (List.mem_append_left _ hm)
  ids n hn := h.ids n (by rw [List.length_append]; omega)
  salts := h.salts
  hashes := h.hashes
  hmac salt := by
    refine (h.hmac salt).mono ?_
    rintro password ⟨turn, hm, he⟩
    exact ⟨turn, List.mem_append_left _ hm, he⟩

theorem tabled_of_plays {log : List (Turn × Outcome)} (h : Plays C log s)
    (hassumed : Assumed C (log.map Prod.fst)) : Tabled C log s := by
  induction h with
  | start => exact tabled_initial
  | @turn log s s' turn outcome _ hplay ih =>
    rw [List.map_append, List.map_singleton] at hassumed
    have htabled := ih hassumed.left
    cases turn with
    | wait milliseconds =>
      cases hplay
      exact htabled.quiet (fun _ _ _ h => by cases h) rfl rfl
    | login email password =>
      cases hplay
      exact htabled.quiet (fun _ _ _ h => by cases h) rfl rfl
    | register email password =>
      rcases htabled.register_cases hassumed with ⟨user, s'', -, hrun, husers, hdrawn⟩ |
        ⟨s'', hfree, hrun, husers, hdrawn⟩
      · rw [hrun] at hplay
        cases hplay
        exact htabled.quiet (fun _ _ _ h => by cases h) husers hdrawn
      · rw [hrun] at hplay
        cases hplay
        exact htabled.add hassumed.sameText hfree husers hdrawn

/-- **Registration and login are a password table.**  After any history of calls one at a time
from the empty table, `register` fails exactly for an email that has been registered, and then
changes nothing; `login` returns a token exactly for the password with which its email has been
registered, and before that token expires `TokenManager.verify` finds in it the id that the
registration returned.  Assumed are what the store and `crypto` do with the texts of this history,
and that `jwt.verify` inverts `jwt.sign`. -/
theorem accounts_are_password_table (hjwt : C.jwt.Inverts) {log : List (Turn × Outcome)}
    (hplays : Plays C log s) :
    (∀ email password, Assumed C (log.map Prod.fst ++ [.register email password]) →
      ∃ result s', Turn.play C s (.register email password) = some (.registered result, s') ∧
        ((∃ e, result = .error e) ↔ ∃ password' user, RegisteredAs log email password' user) ∧
        ((∃ e, result = .error e) → s'.users = s.users)) ∧
    (∀ email password, Assumed C (log.map Prod.fst ++ [.login email password]) →
      ∃ result, Turn.play C s (.login email password) = some (.loggedIn result, s) ∧
        ((∃ token, result = .ok token) ↔ ∃ user, RegisteredAs log email password user) ∧
        ∀ token user now, result = .ok token → RegisteredAs log email password user →
          Unexpired oneDay s.now now →
          TokenManager.verify (C.jwt.userIdAt C.secret now) token = .ok ⟨user.id⟩) := by
  refine ⟨fun email password hassumed => ?_, fun email password hassumed => ?_⟩
  · have htabled := tabled_of_plays hplays hassumed.left
    rcases htabled.register_cases hassumed with ⟨user, s', hfound, hrun, husers, -⟩ |
      ⟨s', hfree, hrun, -, -⟩
    · obtain ⟨password', hp⟩ := (htabled.findOneBy_eq_some hassumed.sameText).mp hfound
      exact ⟨_, s', hrun, iff_of_true ⟨_, rfl⟩ ⟨password', user, hp⟩, fun _ => husers⟩
    · have hnone := (htabled.findOneBy_eq_none hassumed.sameText).mp hfree
      have hok : ¬ ∃ e : JsError, (.ok (newRow C s email password) : Except JsError User) =
          .error e := by
        rintro ⟨e, he⟩
        cases he
      exact ⟨_, s', hrun, iff_of_false hok hnone, fun he => absurd he hok⟩
  · have htabled := tabled_of_plays hplays hassumed.left
    refine ⟨login C s email password, rfl, ?_, ?_⟩
    · constructor
      · rintro ⟨token, ht⟩
        obtain ⟨user, hu, -⟩ := (htabled.login_eq_ok hassumed).mp ht
        exact ⟨user, hu⟩
      · rintro ⟨user, hu⟩
        exact ⟨_, (htabled.login_eq_ok hassumed).mpr ⟨user, hu, rfl⟩⟩
    · intro token user now ht hu hnow
      obtain ⟨user', hu', rfl⟩ := (htabled.login_eq_ok hassumed).mp ht
      rw [htabled.unique hu' hu]
      exact TokenManager.verify_create hjwt C.secret ⟨user.id⟩ hnow

/-- Tokens that are ids and hashes that are readable, for runs on concrete
inputs. -/
def Accounts.plain : Accounts where
  toConfig := { Config.plain with
    randomHex := fun _ => js "00"
    hmac := fun salt password => (password ++ salt).take 100 }
  jwt := ⟨fun payload _ _ _ => payload.userId, fun token _ _ => some ⟨token⟩⟩
  secret := none

def annsRow : User where
  id := js "0"
  email := js "ann@example.com"
  passwordHash := js "pw00"
  salt := js "00"
  createdAt := 0

/-- A history with one registration, and who comes next. -/
theorem assumed_plain {turn : Turn} (hemail : turn.email? = some (js "ann@example.com"))
    (hpassword : turn.password? = some (js "pw") ∨ turn.password? = some (js "other")) :
    Assumed Accounts.plain [.register (js "ann@example.com") (js "pw"), turn] where
  sameText a b := beq_iff_eq
  emails turn' hm email he := by
    have heq : email = js "ann@example.com" := by
      rcases List.mem_cons.mp hm with rfl | hm
      · exact (Option.some.inj he).symm
      · rw [List.mem_singleton.mp hm, hemail] at he
        exact (Option.some.inj he).symm
    rw [heq]
    decide
  ids n hn := by
    have : ∀ n < 2, FitsVarchar 50 (Accounts.plain.ulid.text n) := by decide
    exact this n hn
  salts n := by
    show FitsVarchar 100 (js "00")
    decide
  hashes salt password := by
    have hle := List.length_filter_le (fun u => !isLow u) ((password ++ salt).take 100)
    have htake := List.length_take_le 100 (password ++ salt)
    exact hle.trans htake
  hmac salt := by
    have hused : ∀ password, (∃ turn' ∈ [Turn.register (js "ann@example.com") (js "pw"), turn],
        turn'.password? = some password) → password = js "pw" ∨ password = js "other" := by
      rintro password ⟨turn', hm, he⟩
      rcases List.mem_cons.mp hm with rfl | hm
      · exact Or.inl (Option.some.inj he).symm
      · rw [List.mem_singleton.mp hm] at he
        exact hpassword.imp (fun h => Option.some.inj (he.symm.trans h))
          fun h => Option.some.inj (he.symm.trans h)
    -- the two differ in the unit that the hash begins with
    have hhead : ∀ u v (p q : JsString), u ≠ v →
        Accounts.plain.hmac salt (u :: p) ≠ Accounts.plain.hmac salt (v :: q) :=
      fun u v p q hne heq => hne (List.cons.inj heq).1
    intro p hp q hq heq
    rcases hused p hp with rfl | rfl <;> rcases hused q hq with rfl | rfl
    · rfl
    · exact absurd heq (hhead _ _ _ _ (by decide))
    · exact absurd heq (hhead _ _ _ _ (by decide))
    · rfl

/-- The email again, and then its password. -/
theorem accounts_are_password_table_after_one :
    ∃ log s, Plays Accounts.plain log s ∧
      RegisteredAs log (js "ann@example.com") (js "pw") annsRow ∧
      (∃ e s', Turn.play Accounts.plain s (.register (js "ann@example.com") (js "other")) =
        some (.registered (.error e), s') ∧ s'.users = s.users) ∧
      ∃ token, Turn.play Accounts.plain s (.login (js "ann@example.com") (js "pw")) =
          some (.loggedIn (.ok token), s) ∧
        TokenManager.verify (Accounts.plain.jwt.userIdAt none 1000) token = .ok ⟨js "0"⟩ := by
  obtain ⟨s, hplay⟩ : ∃ s, Turn.play Accounts.plain World.initial
      (.register (js "ann@example.com") (js "pw")) = some (.registered (.ok annsRow), s) :=
    ⟨_, rfl⟩
  have hjwt : Accounts.plain.jwt.Inverts := fun _ _ _ _ _ _ => rfl
  have hlog : RegisteredAs [(.register (js "ann@example.com") (js "pw"), .registered (.ok annsRow))]
      (js "ann@example.com") (js "pw") annsRow := List.mem_cons_self
  obtain ⟨hregister, hlogin⟩ := accounts_are_password_table hjwt (.turn .start hplay)
  refine ⟨_, s, .turn .start hplay, hlog, ?_, ?_⟩
  · obtain ⟨result, s', hrun, hiff, hkeep⟩ := hregister (js "ann@example.com") (js "other")
      (assumed_plain rfl (Or.inr rfl))
    obtain ⟨e, rfl⟩ := hiff.mpr ⟨_, _, hlog⟩
    exact ⟨e, s', hrun, hkeep ⟨e, rfl⟩⟩
  · obtain ⟨result, hrun, hiff, hverify⟩ := hlogin (js "ann@example.com") (js "pw")
      (assumed_plain rfl (Or.inl rfl))
    obtain ⟨token, rfl⟩ := hiff.mpr ⟨_, hlog⟩
    refine ⟨token, hrun, hverify token annsRow 1000 rfl hlog ?_⟩
    show 1000 / 1000 < s.now / 1000 + 86400
    omega

end FullstackSvc.Registration
