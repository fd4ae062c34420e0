import FullstackSvc.Execution.Queries
import FullstackSvc.Text.IsoDate
import FullstackSvc.Text.JsonMap

/-!
# The bodies of the answers

What `createExecutionJob` and `getExecutionJob` of `execution.controller.ts` answer is sent
as JSON: `null` stays, a `Date` is written by its `toJSON`, and a job that has no entries is
`UNKNOWN`.

* `readText_responseBody`: **every body is read back as it stands**.
-/

namespace FullstackSvc.Execution

open Text

variable {N : Type}

def ExecutionJobStatus.text : ExecutionJobStatus → JsString
  | .QUEUED => js "QUEUED"
  | .READY => js "READY"
  | .RUNNING => js "RUNNING"
  | .FINISHED_WITH_SUCCESS => js "FINISHED_WITH_SUCCESS"
  | .FINISHED_WITH_ERROR => js "FINISHED_WITH_ERROR"
  | .FAILED => js "FAILED"

/-- `latestStatus?.status || 'UNKNOWN'`. -/
def statusText (status : Option ExecutionJobStatus) : JsString :=
  match status with
  | none => js "UNKNOWN"
  | some status => status.text

/-- `null`, or a value. -/
def orNull {α : Type} (f : α → Json N) : Option α → Json N
  | none => .null
  | some a => f a

/-- `Date.prototype.toJSON`. -/
def dateJson (createdAt : Nat) : Json N := .str (toISOString createdAt)

def CreatedAnswer.fields (answer : CreatedAnswer) : List (JsString × Json N) :=
  [(js "id", .str answer.id), (js "status", .str answer.status),
    (js "createdAt", dateJson answer.createdAt)]

/-- An item of `statusHistory`. -/
def historyJson (status : ExecutionJobStatus × Nat) : Json N :=
  .obj [(js "status", .str status.1.text), (js "createdAt", dateJson status.2)]

def JobAnswer.fields (T : NumText N) (answer : JobAnswer) : List (JsString × Json N) :=
  [(js "id", .str answer.id), (js "status", .str (statusText answer.status)),
    (js "filePath", .str answer.filePath), (js "createdAt", dateJson answer.createdAt),
    (js "output", orNull .str answer.output), (js "error", orNull .str answer.error),
    (js "exitCode", orNull (fun code => .num (T.ofInt code)) answer.exitCode),
    (js "completedAt", orNull dateJson answer.completedAt),
    (js "statusHistory", .arr (answer.statusHistory.map historyJson))]

/-- `res.json(...)`. -/
def responseBody (T : NumText N) (fields : List (JsString × Json N)) : Bytes :=
  utf8Encode (stringify T.js (.obj fields))

/-! ### The bodies read back -/

theorem plain_orNull {α : Type} {f : α → Json N} (hf : ∀ a, Plain (f a)) (value : Option α) :
    Plain (orNull f value) := by
  cases value with
  | none => exact trivial
  | some a => exact hf a

theorem plain_historyJson (status : ExecutionJobStatus × Nat) :
    Plain (historyJson (N := N) status) := by
  simp only [historyJson, dateJson, Plain, PlainFields, List.map_cons, List.map_nil, true_and,
    and_true]
  decide

theorem plainItems_map {α : Type} {f : α → Json N} (hf : ∀ a, Plain (f a)) (l : List α) :
    PlainItems (l.map f) := by
  induction l with
  | nil => exact trivial
  | cons a l ih => exact ⟨hf a, ih⟩

theorem plain_createdAnswer (answer : CreatedAnswer) :
    Plain (.obj (answer.fields : List (JsString × Json N))) := by
  simp only [CreatedAnswer.fields, dateJson, Plain, PlainFields, List.map_cons, List.map_nil,
    true_and, and_true]
  decide

/-- **The detail of a job is read back as it stands.** -/
theorem plain_jobAnswer (T : NumText N) (answer : JobAnswer) : Plain (.obj (answer.fields T)) := by
  have hstr : ∀ s : JsString, Plain (.str s : Json N) := fun _ => trivial
  have hnum : ∀ code, Plain (.num (T.ofInt code)) := fun _ => trivial
  have hdate : ∀ t, Plain (dateJson t : Json N) := fun _ => trivial
  have hhistory : PlainItems (answer.statusHistory.map (historyJson (N := N))) :=
    plainItems_map plain_historyJson _
  simp only [JobAnswer.fields, Plain, PlainFields, plain_orNull hstr, plain_orNull hnum,
    plain_orNull hdate, hdate, hhistory, List.map_cons, List.map_nil, true_and, and_true]
  decide

/-- **A body is read back**, by either language. -/
theorem readText_responseBody {T : NumText N}
    {define : List (JsString × Json N) → JsString → Json N → List (JsString × Json N)}
    (hd : Appends define) {fields : List (JsString × Json N)} (h : Plain (.obj fields)) :
    readText T.read define (utf8Decode (responseBody T fields)) = some (.obj fields) := by
  rw [responseBody, utf8Decode_utf8Encode (wellFormed_stringify T.js_num _)]
  exact readText_stringify T.read_js T.js_ne_nil T.js_num (canonical_of_plain hd _ h)

end FullstackSvc.Execution
