import Mathlib.Logic.Function.Basic
import FullstackSvc.Async.Pool
import FullstackSvc.Text.Ulid

/-!
# Registration (`user.service.ts`)

The table `User` and the transactions that `UserService.register` runs on it.
`init.sql` declares a primary key and no other constraint.  Under `REPEATABLE
READ` a plain select takes no locks: the first one fixes the view of its
transaction, and what a transaction inserts is invisible to the others until its
commit.

The database compares texts by the collation of the column, an equivalence that
is left open.  Every awaited call may fail, and then has done nothing.
`World.calls`, `World.drawnBy` and `World.checked` are records that no program
reads.
-/

namespace FullstackSvc.Registration

open Text Async

structure User where
  id : JsString
  email : JsString
  passwordHash : JsString
  salt : JsString
  createdAt : Nat
  deriving DecidableEq

structure HashedPassword where
  hash : JsString
  salt : JsString

inductive JsError
  | failure (name message : JsString)
  | unprocessableEntity (message : JsString)
  deriving DecidableEq

/-- The error of `register` for an email that it has found. -/
def emailTaken : JsError := .unprocessableEntity (js "이미 해당 이메일로 가입한 유저가 존재합니다.")

inductive Request
  | register (email password : JsString)
  deriving DecidableEq

structure Transaction where
  /-- The rows that its first select saw. -/
  view : Option (List User)
  /-- What it has inserted. -/
  rows : List User

structure World where
  now : Nat
  drawnBy : List Nat
  saltsDrawn : Nat
  calls : List Request
  users : List User
  transactions : Nat → Transaction
  /-- Who has found which email free, and has neither committed nor failed. -/
  checked : List (Nat × JsString)

def World.initial : World where
  now := 0
  drawnBy := []
  saltsDrawn := 0
  calls := []
  users := []
  transactions := fun _ => ⟨none, []⟩
  checked := []

structure Config where
  ulid : UlidSource
  /-- Whether the collation takes two texts for equal. -/
  sameText : JsString → JsString → Bool
  same : Equivalence fun a b => sameText a b = true
  /-- `crypto.randomBytes(16).toString('hex')`, at each call. -/
  randomHex : Nat → JsString
  /-- `crypto.createHmac('sha256', salt).update(password).digest('hex')`. -/
  hmac : JsString → JsString → JsString

/-- A collation that tells all texts apart, for runs on concrete inputs. -/
def Config.plain : Config where
  ulid := decimalUlids
  sameText a b := a == b
  same := ⟨fun _ => beq_self_eq_true _, fun h => beq_iff_eq.mpr (beq_iff_eq.mp h).symm,
    fun h h' => beq_iff_eq.mpr ((beq_iff_eq.mp h).trans (beq_iff_eq.mp h'))⟩
  randomHex := decimal
  hmac salt password := salt ++ password

/-! ### Calls -/

inductive Cmd
  | startTransaction
  | findOneBy (email : JsString)
  | saveUser (row : User)
  | commitTransaction
  | rollbackTransaction

inductive Op
  | ulid
  | now
  | randomHex

@[reducible] def sig : Sig where
  Cmd := Cmd
  Res
    | .findOneBy _ => Option User
    | _ => Unit
  Op := Op
  Val
    | .now => Nat
    | _ => JsString

inductive Reply
  | done
  | fails (name message : JsString)
  deriving DecidableEq

abbrev Answer (c : Cmd) := Except JsError (sig.Res c) × World

/-- A column of type `VARCHAR(n)` in strict mode. -/
def FitsVarchar (n : Nat) (value : JsString) : Prop := (value.filter fun u => !isLow u).length ≤ n

instance (n : Nat) (value : JsString) : Decidable (FitsVarchar n value) :=
  inferInstanceAs (Decidable (_ ≤ _))

def User.Fits (row : User) : Prop :=
  FitsVarchar 50 row.id ∧ FitsVarchar 100 row.email ∧ FitsVarchar 100 row.passwordHash ∧
    FitsVarchar 100 row.salt

instance (row : User) : Decidable row.Fits := inferInstanceAs (Decidable (_ ∧ _))

def dataTooLong : JsError := .failure (js "QueryFailedError") (js "Data too long for column")

def duplicateEntry : JsError := .failure (js "QueryFailedError") (js "Duplicate entry")

def World.setTransaction (s : World) (pid : Nat) (t : Transaction) : World :=
  { s with transactions := (Function.update s.transactions pid t) }

/-- A process that goes on to add nothing. -/
def World.leave (s : World) (pid : Nat) : World :=
  { s with checked := s.checked.filter fun x => x.1 ≠ pid }

variable (C : Config)

/-- The rows that a select of a transaction sees. -/
def World.visible (s : World) (pid : Nat) : List User :=
  (s.transactions pid).view.getD s.users ++ (s.transactions pid).rows

/-- `findOneBy({ email })`. -/
def World.findUser (s : World) (pid : Nat) (email : JsString) : Option User :=
  (s.visible pid).find? fun user => C.sameText user.email email

/-- The first select of a transaction fixes its view. -/
def World.look (s : World) (pid : Nat) (email : JsString) : World :=
  let t := s.transactions pid
  { s.setTransaction pid { t with view := some (t.view.getD s.users) } with
    checked := if (s.findUser C pid email).isNone then s.checked ++ [(pid, email)] else s.checked }

/-- `save` of a row with a new id: an insert. -/
def World.insert (s : World) (pid : Nat) (row : User) : World :=
  let t := s.transactions pid
  s.setTransaction pid { t with rows := t.rows ++ [row] }

def World.commit (s : World) (pid : Nat) : World :=
  { (s.setTransaction pid ⟨none, []⟩).leave pid with
    users := s.users ++ (s.transactions pid).rows }

def performDone (pid : Nat) : (c : Cmd) → World → Answer c
  | .startTransaction, s => (.ok (), s.setTransaction pid ⟨none, []⟩)
  | .findOneBy email, s => (.ok (s.findUser C pid email), s.look C pid email)
  | .saveUser row, s =>
    if ¬ row.Fits then (.error dataTooLong, s.leave pid)
    else if row.id ∈ (s.users ++ (s.transactions pid).rows).map User.id then
      (.error duplicateEntry, s.leave pid)
    else (.ok (), s.insert pid row)
  | .commitTransaction, s => (.ok (), s.commit pid)
  | .rollbackTransaction, s => (.ok (), s.setTransaction pid ⟨none, []⟩)

def perform (pid : Nat) (c : Cmd) (r : Reply) (s : World) : Option (Answer c) :=
  match r with
  | .done => some (performDone C pid c s)
  | .fails name message => some (.error (.failure name message), s.leave pid)

def compute (pid : Nat) : (o : Op) → World → sig.Val o × World
  | .ulid, s => (C.ulid.text s.drawnBy.length, { s with drawnBy := s.drawnBy ++ [pid] })
  | .now, s => (s.now, s)
  | .randomHex, s => (C.randomHex s.saltsDrawn, { s with saltsDrawn := s.saltsDrawn + 1 })

def host : Host sig JsError World Reply where
  perform := perform C
  compute := compute C

/-! ### The programs -/

abbrev Program := Prog sig JsError

def ulid : Program JsString := Prog.op (A := sig) Op.ulid
def newDate : Program Nat := Prog.op (A := sig) Op.now
def createSalt : Program JsString := Prog.op (A := sig) Op.randomHex
def await (c : Cmd) : Program (sig.Res c) := Prog.call (A := sig) c

/-- `dataSource.transaction`: commit what `body` did, or roll back and throw on. -/
def transaction {α : Type} (body : Program α) : Program α :=
  tryCatch (do
    await .startTransaction
    let result ← body
    await .commitTransaction
    pure result)
  fun err => do
    tryCatch (await .rollbackTransaction) fun _ => pure ()
    throw err

/-- `PasswordHashCreator.create`. -/
def createPasswordHash (password : JsString) : Program HashedPassword := do
  let newSalt ← createSalt
  let newHash := C.hmac newSalt password
  pure { hash := newHash, salt := newSalt }

/-- What `register` does once it has found nobody. -/
def createUser (email password : JsString) : Program User := do
  let hashedPassword ← createPasswordHash C password
  let id ← ulid
  let createdAt ← newDate
  let newUser : User :=
    { id := id, email := email, passwordHash := hashedPassword.hash, salt := hashedPassword.salt,
      createdAt := createdAt }
  await (.saveUser newUser)
  pure newUser

def register (email password : JsString) : Program User :=
  transaction do
    let prevUser ← await (.findOneBy email)
    match prevUser with
    | some _ => throw emailTaken
    | none => createUser C email password

/-- Requests come at any time, and time passes. -/
@[reducible] def service : Service (host C) where
  Call := Request
  Ret _ := User
  body
    | .register email password => register C email password
  accept _ c s := some { s with calls := s.calls ++ [c] }
  Env := Nat
  env milliseconds s := some { s with now := s.now + milliseconds }
  mortal _ := false

def start : (service C).Sys := ⟨World.initial, []⟩

end FullstackSvc.Registration
