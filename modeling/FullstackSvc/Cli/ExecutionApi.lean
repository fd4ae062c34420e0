import FullstackSvc.Cli.LspClient
import FullstackSvc.Execution.Responses

/-!
# Running code from the command line (`execution_api.dart`)

The models of `api/models`, which are read from the bodies of the API server, the three
calls of `ExecutionApi`, and `RunCodeMenuItem`.  What is thrown is known by its `toString()`,
which is all that the menu looks at; the texts of Dart's own errors are left open, as are
those of `dio`.  The pens of the terminal are left out.

* `getJobStatus_body`: **the client reads the job that the server answers with**.
-/

namespace FullstackSvc.Cli

open Text

variable {N : Type}

/-! ### The models -/

/-- Numbers, and the texts of the errors, of Dart. -/
structure DartRuntime (N : Type) where
  text : NumText N
  /-- `num.toInt()`; none for what is not finite. -/
  toInt : N → Option Int
  /-- `toString()` of the error of a cast to a type, of `DateTime.parse`, of `toInt`, of
  `jsonDecode`, and of `dio` on an answer that is an exception. -/
  castError : Option (Json N) → JsString → JsString
  dateError : JsString → JsString
  numError : N → JsString
  jsonError : JsString → JsString
  badResponse : Execution.HttpException → JsString

/-- `toInt` is exact on what fits into 32 bits. -/
def DartRuntime.Exact (D : DartRuntime N) : Prop :=
  ∀ i : Int, i.natAbs < 2147483648 → D.toInt (D.text.ofInt i) = some i

/-- Numbers that are integers. -/
def intRuntime : DartRuntime Int where
  text := intText
  toInt := some
  castError _ type := js "type 'dynamic' is not a subtype of type '" ++ type ++ js "' in type cast"
  dateError s := js "FormatException: Invalid date format\n" ++ s
  numError _ := js "Unsupported operation: Infinity or NaN toInt"
  jsonError _ := js "FormatException: Unexpected character"
  badResponse
    | .badRequest _ => js "DioException [bad response]: status code of 400"
    | .notFound _ => js "DioException [bad response]: status code of 404"

theorem exact_intRuntime : intRuntime.Exact := fun _ _ => rfl

/-- A `DateTime` is its microseconds. -/
structure ExecutionJob where
  id : JsString
  status : JsString
  filePath : JsString
  createdAt : Int
  output : Option JsString
  error : Option JsString
  exitCode : Option Int
  completedAt : Option Int
  deriving DecidableEq

def ExecutionJob.isTerminal (job : ExecutionJob) : Bool :=
  job.status = js "FINISHED_WITH_SUCCESS" || job.status = js "FINISHED_WITH_ERROR" ||
    job.status = js "FAILED"

def ExecutionJob.isSuccess (job : ExecutionJob) : Bool := job.status = js "FINISHED_WITH_SUCCESS"

structure ExecutionJobCreated where
  id : JsString
  status : JsString
  createdAt : Int
  deriving DecidableEq

section Api

variable (D : DartRuntime N)

/-- `value as String`. -/
def asString : Option (Json N) → Except JsString JsString
  | some (.str s) => .ok s
  | value => .error (D.castError value (js "String"))

/-- `value as String?`. -/
def asStringOrNull : Option (Json N) → Except JsString (Option JsString)
  | none => .ok none
  | some .null => .ok none
  | some (.str s) => .ok (some s)
  | value => .error (D.castError value (js "String?"))

/-- `(value as num?)?.toInt()`. -/
def asIntOrNull : Option (Json N) → Except JsString (Option Int)
  | none => .ok none
  | some .null => .ok none
  | some (.num n) =>
    match D.toInt n with
    | some i => .ok (some i)
    | none => .error (D.numError n)
  | value => .error (D.castError value (js "num?"))

/-- `DateTime.parse(value as String)`. -/
def asDate (value : Option (Json N)) : Except JsString Int := do
  let s ← asString D value
  match parseDateTime s with
  | some t => .ok t
  | none => .error (D.dateError s)

/-- `value == null ? null : DateTime.parse(value as String)`. -/
def asDateOrNull : Option (Json N) → Except JsString (Option Int)
  | none => .ok none
  | some .null => .ok none
  | value => (asDate D value).map some

/-- `_$ExecutionJobFromJson`. -/
def ExecutionJob.fromJson (json : List (JsString × Json N)) : Except JsString ExecutionJob := do
  let id ← asString D (entry json "id")
  let status ← asString D (entry json "status")
  let filePath ← asString D (entry json "filePath")
  let createdAt ← asDate D (entry json "createdAt")
  let output ← asStringOrNull D (entry json "output")
  let error ← asStringOrNull D (entry json "error")
  let exitCode ← asIntOrNull D (entry json "exitCode")
  let completedAt ← asDateOrNull D (entry json "completedAt")
  pure ⟨id, status, filePath, createdAt, output, error, exitCode, completedAt⟩

/-- `_$ExecutionJobCreatedFromJson`. -/
def ExecutionJobCreated.fromJson (json : List (JsString × Json N)) :
    Except JsString ExecutionJobCreated := do
  let id ← asString D (entry json "id")
  let status ← asString D (entry json "status")
  let createdAt ← asDate D (entry json "createdAt")
  pure ⟨id, status, createdAt⟩

/-- `response.data`, passed as a `Map<String, dynamic>`. -/
def responseData (body : Bytes) : Except JsString (List (JsString × Json N)) :=
  match readText D.text.read dartDefine (utf8Decode body) with
  | none => .error (D.jsonError (utf8Decode body))
  | some (.obj fields) => .ok fields
  | some v => .error (D.castError (some v) (js "Map<String, dynamic>"))

/-! ### `ExecutionApi` -/

/-- `submitCode`, with what `dio.post` returns or throws. -/
def submitCode (response : Except JsString Bytes) : Except JsString ExecutionJobCreated := do
  let data ← responseData D (← response)
  ExecutionJobCreated.fromJson D data

/-- `getJobStatus`, with what `dio.get` returns or throws. -/
def getJobStatus (response : Except JsString Bytes) : Except JsString ExecutionJob := do
  let data ← responseData D (← response)
  ExecutionJob.fromJson D data

end Api

/-! ### What the server sends is what the client reads -/

/-- The columns `DATETIME(3)` and `INT`. -/
structure FitsColumns (answer : Execution.JobAnswer) : Prop where
  createdAt : answer.createdAt ≤ maxMilliseconds
  completedAt : ∀ t ∈ answer.completedAt, t ≤ maxMilliseconds
  exitCode : ∀ code ∈ answer.exitCode, code.natAbs < 2147483648

/-- The job as the client has it. -/
def clientJob (answer : Execution.JobAnswer) : ExecutionJob where
  id := answer.id
  status := Execution.statusText answer.status
  filePath := answer.filePath
  createdAt := answer.createdAt * 1000
  output := answer.output
  error := answer.error
  exitCode := answer.exitCode
  completedAt := answer.completedAt.map fun t : Nat => (t : Int) * 1000

def clientCreated (answer : Execution.CreatedAnswer) : ExecutionJobCreated where
  id := answer.id
  status := answer.status
  createdAt := answer.createdAt * 1000

variable {D : DartRuntime N}

theorem asDate_dateJson {t : Nat} (h : t ≤ maxMilliseconds) :
    asDate D (some (Execution.dateJson t)) = .ok ((t : Int) * 1000) := by
  simp only [asDate, Execution.dateJson, asString, bind, Except.bind, parseDateTime_toISOString h]

theorem asStringOrNull_orNull (value : Option JsString) :
    asStringOrNull D (some (Execution.orNull .str value)) = .ok value := by
  cases value <;> rfl

theorem asDateOrNull_orNull {value : Option Nat} (h : ∀ t ∈ value, t ≤ maxMilliseconds) :
    asDateOrNull D (some (Execution.orNull Execution.dateJson value)) =
      .ok (value.map fun t : Nat => (t : Int) * 1000) := by
  cases value with
  | none => rfl
  | some t =>
    show (asDate D (some (Execution.dateJson t))).map some = _
    rw [asDate_dateJson (h t rfl)]
    rfl

theorem asIntOrNull_orNull (hD : D.Exact) {value : Option Int}
    (h : ∀ code ∈ value, code.natAbs < 2147483648) :
    asIntOrNull D (some (Execution.orNull (fun code => .num (D.text.ofInt code)) value)) =
      .ok value := by
  cases value with
  | none => rfl
  | some code =>
    show (match D.toInt (D.text.ofInt code) with
      | some i => Except.ok (some i)
      | none => .error (D.numError (D.text.ofInt code))) = _
    rw [hD code (h code rfl)]

/-- The entry that is asked for stands here, or further on. -/
theorem entry_cons_self (key : String) (v : Json N) (fs : List (JsString × Json N)) :
    entry ((js key, v) :: fs) key = some v := by
  rw [entry, List.find?_cons_of_pos (by simp)]
  rfl

theorem entry_cons_of_ne {k : JsString} {key : String} (h : k ≠ js key) (v : Json N)
    (fs : List (JsString × Json N)) : entry ((k, v) :: fs) key = entry fs key := by
  rw [entry, entry, List.find?_cons_of_neg (by simpa using h)]

theorem responseData_body {fields : List (JsString × Json N)} (h : Plain (.obj fields)) :
    responseData D (Execution.responseBody D.text fields) = .ok fields := by
  rw [responseData, Execution.readText_responseBody appends_dartDefine h]

/-- **The client reads the job that the server answers with.** -/
theorem getJobStatus_body (hD : D.Exact) {answer : Execution.JobAnswer} (h : FitsColumns answer) :
    getJobStatus D (.ok (Execution.responseBody D.text (answer.fields D.text))) =
      .ok (clientJob answer) := by
  have hdata := responseData_body (D := D) (Execution.plain_jobAnswer D.text answer)
  have hcreated := asDate_dateJson (D := D) h.createdAt
  have hcompleted := asDateOrNull_orNull (D := D) h.completedAt
  have hcode := asIntOrNull_orNull hD h.exitCode
  have hread : ExecutionJob.fromJson D (answer.fields D.text) = .ok (clientJob answer) := by
    rw [Execution.JobAnswer.fields]
    simp (disch := decide) only [ExecutionJob.fromJson, entry_cons_self, entry_cons_of_ne, asString,
      asStringOrNull_orNull, hcreated, hcompleted, hcode, bind, Except.bind]
    rfl
  simp only [getJobStatus, bind, Except.bind, hdata, hread]

/-- **The client reads what it is answered when it submits code.** -/
theorem submitCode_body {answer : Execution.CreatedAnswer}
    (h : answer.createdAt ≤ maxMilliseconds) :
    submitCode D (.ok (Execution.responseBody D.text answer.fields)) =
      .ok (clientCreated answer) := by
  have hdata := responseData_body (D := D) (Execution.plain_createdAnswer answer)
  have hread : ExecutionJobCreated.fromJson D answer.fields = .ok (clientCreated answer) := by
    rw [Execution.CreatedAnswer.fields]
    simp (disch := decide) only [ExecutionJobCreated.fromJson, entry_cons_self, entry_cons_of_ne,
      asString, asDate_dateJson h, bind, Except.bind]
    rfl
  simp only [submitCode, bind, Except.bind, hdata, hread]

end FullstackSvc.Cli
