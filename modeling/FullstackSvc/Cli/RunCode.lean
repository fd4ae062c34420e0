import FullstackSvc.Cli.ExecutionApi

/-!
# The menu item that runs code (`run_code_menu_item.dart`)

`pollUntilComplete` asks for the job until it is terminal, at most sixty times, and hands
every answer to the menu item, which prints a status when it has changed.

* `returned_pollUntilComplete`: **what is returned** depends on the statuses of the answers, as
  `Execution.pollUntilComplete` has it.
* `follows_poll`: **what is printed of jobs whose statuses are the ends of a growing list** is
  a part of that list, in its order, and only the last of it is terminal.
-/

namespace FullstackSvc.Cli

open Text
open Execution (ExecutionJobStatus statusText)

/-! ### `ExecutionApi.pollUntilComplete` -/

def pollingTimeout : JsString :=
  js "Exception: Polling timeout: 실행 시간이 초과되었습니다 (60초)"

/-- The jobs that `onStatusUpdate` was called with, and what was returned or thrown, once it is. -/
structure Polling where
  updates : List ExecutionJob
  result : Option (Except JsString ExecutionJob)

/-- `pollUntilComplete`, with the answers of `getJobStatus` so far. -/
def pollUntilComplete : (attempts : Nat) → List (Except JsString ExecutionJob) → Polling
  | 0, _ => ⟨[], some (.error pollingTimeout)⟩
  | _ + 1, [] => ⟨[], none⟩
  | _ + 1, .error e :: _ => ⟨[], some (.error e)⟩
  | attempts + 1, .ok job :: answers =>
    if job.isTerminal then ⟨[job], some (.ok job)⟩
    else
      let polling := pollUntilComplete attempts answers
      { polling with updates := job :: polling.updates }

/-- The job that is returned. -/
def Polling.returned (polling : Polling) : Option ExecutionJob :=
  match polling.result with
  | some (.ok job) => some job
  | _ => none

theorem isTerminal_of_text {job : ExecutionJob} {status : ExecutionJobStatus}
    (h : job.status = status.text) : job.isTerminal = status.isTerminal := by
  rw [ExecutionJob.isTerminal, h]
  cases status <;> decide

theorem isTerminal_of_statusText {job : ExecutionJob} {status : Option ExecutionJobStatus}
    (h : job.status = statusText status) : job.isTerminal = Execution.isTerminal status := by
  cases status with
  | none =>
    rw [ExecutionJob.isTerminal, h]
    decide
  | some status => exact isTerminal_of_text h

/-- **The statuses decide**: the job that is returned shows the status that polling ends with
when only the statuses of the answers are looked at. -/
theorem returned_pollUntilComplete {jobs : List ExecutionJob}
    {statuses : List (Option ExecutionJobStatus)}
    (h : jobs.map ExecutionJob.status = statuses.map statusText) (attempts : Nat) :
    (pollUntilComplete attempts (jobs.map .ok)).returned.map ExecutionJob.status =
      (Execution.pollUntilComplete attempts statuses).map statusText := by
  induction jobs generalizing statuses attempts with
  | nil =>
    obtain rfl : statuses = [] := List.map_eq_nil_iff.mp h.symm
    rw [Execution.pollUntilComplete, List.take_nil]
    cases attempts with
    | zero => rfl
    | succ n => rfl
  | cons job jobs ih =>
    cases statuses with
    | nil => cases h
    | cons status statuses =>
      obtain ⟨hstatus, hrest⟩ := List.cons.inj h
      cases attempts with
      | zero => rfl
      | succ n =>
        rw [List.map_cons, pollUntilComplete, isTerminal_of_statusText hstatus,
          Execution.pollUntilComplete, List.take_succ_cons]
        cases hterm : Execution.isTerminal status with
        | true =>
          rw [if_pos rfl, List.find?_cons_of_pos hterm]
          exact congrArg some hstatus
        | false =>
          rw [if_neg Bool.false_ne_true, List.find?_cons_of_neg (by rw [hterm]; decide)]
          exact ih hrest n

/-! ### `RunCodeMenuItem` -/

/-- The statuses that `onStatusUpdate` prints, with `lastStatus`. -/
def statusChanges : (lastStatus : JsString) → List ExecutionJob → List JsString
  | _, [] => []
  | lastStatus, job :: jobs =>
    if job.status ≠ lastStatus then job.status :: statusChanges job.status jobs
    else statusChanges lastStatus jobs

def formatStatus (status : JsString) : JsString :=
  if status = js "QUEUED" then js "대기 중"
  else if status = js "READY" then js "준비 완료"
  else if status = js "RUNNING" then js "실행 중"
  else if status = js "FINISHED_WITH_SUCCESS" then js "성공"
  else if status = js "FINISHED_WITH_ERROR" then js "에러 발생"
  else if status = js "FAILED" then js "실패"
  else status

def printSuccess (message : JsString) : JsString := js "\n✅ " ++ message
def printError (message : JsString) : JsString := js "\n❌ " ++ message
def printInfo (message : JsString) : JsString := js "\nℹ️  " ++ message

def divider : JsString := List.replicate 50 61

def printHeader (title : JsString) : List JsString :=
  [js "\n" ++ divider, List.replicate ((50 - title.length) / 2) 32 ++ title, divider]

def waitForEnter : JsString := js "\n계속하려면 Enter를 누르세요..."

def exitCodeLines : Option Int → List JsString
  | none => []
  | some exitCode => [js "종료 코드: " ++ decimalInt exitCode]

/-- A text of the job between two lines, unless it is missing or empty. -/
def textLines (title : JsString) : Option JsString → List JsString
  | none => []
  | some text => if text = [] then [] else [js "\n" ++ title, text, divider]

/-- What is printed of a job that is complete. -/
def resultLines (result : ExecutionJob) : List JsString :=
  [] :: (if result.isSuccess then
    printSuccess (js "실행 완료!") :: (textLines (js "=== 출력 ===") result.output ++
      exitCodeLines result.exitCode)
  else
    printError (js "실행 실패") :: (textLines (js "=== 에러 ===") result.error ++
      exitCodeLines result.exitCode))

/-- `s.replaceAll(pattern, '')`, where `skip` units of an occurrence are left. -/
def removeAllFrom (pattern : JsString) : (skip : Nat) → JsString → JsString
  | _, [] => []
  | skip + 1, _ :: s => removeAllFrom pattern skip s
  | 0, u :: s =>
    if startsWith (u :: s) pattern then removeAllFrom pattern (pattern.length - 1) s
    else u :: removeAllFrom pattern 0 s

def contains (s pattern : JsString) : Bool := (indexOf pattern s).isSome

/-- The handler of `execute`. -/
def errorLine (e : JsString) : JsString :=
  let errorMsg := removeAllFrom (js "Exception: ") 0 e
  if contains errorMsg (js "401") then printError (js "인증이 만료되었습니다. 다시 로그인해주세요")
  else if contains errorMsg (js "400") then printError (js "잘못된 요청입니다. 파일을 확인해주세요")
  else if contains errorMsg (js "timeout") || contains errorMsg (js "Polling timeout") then
    printError (js "실행 시간이 초과되었습니다 (60초)")
  else printError (js "오류 발생: " ++ errorMsg)

example : errorLine pollingTimeout = printError (js "실행 시간이 초과되었습니다 (60초)") := by
  decide +kernel

/-- What follows the statuses. -/
def endingLines : Option (Except JsString ExecutionJob) → List JsString
  | none => []
  | some (.ok result) => resultLines result ++ [waitForEnter]
  | some (.error e) => [errorLine e, waitForEnter]

/-- The units that `trim` takes away. -/
def isTrimmed (u : UInt16) : Bool :=
  (9 ≤ u && u ≤ 13) || u == 32 || u == 0x85 || u == 0xA0 || u == 0x1680 ||
    (0x2000 ≤ u && u ≤ 0x200A) || u == 0x2028 || u == 0x2029 || u == 0x202F || u == 0x205F ||
      u == 0x3000 || u == 0xFEFF

/-- The checks of the path, with what `existsSync` answers. -/
def pathError (filePath : JsString) (existsSync : Bool) : Option JsString :=
  if filePath.all isTrimmed then some (js "파일 경로를 입력해주세요")
  else if ! existsSync then some (js "파일을 찾을 수 없습니다: " ++ filePath)
  else if ¬ js ".dart" <:+ filePath then some (js ".dart 파일만 실행할 수 있습니다")
  else none

/-- `file.path.split('/').last`. -/
def uploadName (filePath : JsString) : JsString :=
  (filePath.reverse.takeWhile (· ≠ 47)).reverse

def statusLine (status : JsString) : JsString := js "상태: " ++ formatStatus status

/-- What is printed when the code has been submitted. -/
def submittedLines (job : ExecutionJobCreated) : List JsString :=
  [js "작업 ID: " ++ job.id, printInfo (js "실행 중...")]

/-- `RunCodeMenuItem.execute`: the lines that it has printed, with the answers so far. -/
def runCode (isLoggedIn : Bool) (filePath : JsString) (existsSync : Bool)
    (created : Except JsString ExecutionJobCreated)
    (answers : List (Except JsString ExecutionJob)) : List JsString :=
  if ! isLoggedIn then [printError (js "로그인이 필요합니다"), waitForEnter]
  else
    printHeader (js "코드 실행") ++
      match pathError filePath existsSync with
      | some message => [printError message, waitForEnter]
      | none =>
        printInfo (js "파일 업로드 중...") ::
          match created with
          | .error e => [errorLine e, waitForEnter]
          | .ok job =>
            let polling := pollUntilComplete 60 answers
            submittedLines job ++ (statusChanges [] polling.updates).map statusLine ++
              endingLines polling.result

/-- What it prints of a file that it has submitted. -/
theorem runCode_submitted {filePath : JsString} (h : pathError filePath true = none)
    (created : ExecutionJobCreated) (answers : List (Except JsString ExecutionJob)) :
    runCode true filePath true (.ok created) answers =
      printHeader (js "코드 실행") ++ printInfo (js "파일 업로드 중...") :: (submittedLines created ++
        (statusChanges [] (pollUntilComplete 60 answers).updates).map statusLine ++
          endingLines (pollUntilComplete 60 answers).result) := by
  simp only [runCode, h, Bool.not_true, Bool.false_eq_true, if_false]

/-- **A file that passes the checks of the menu passes the filter of the server.** -/
theorem fileFilter_uploadName {filePath : JsString} (h : pathError filePath true = none) :
    Execution.fileFilter (uploadName filePath) = true := by
  have hsuffix : js ".dart" <:+ filePath := by
    by_contra hnot
    rw [pathError, if_pos hnot] at h
    split at h
    · cases h
    · cases h
  obtain ⟨t, rfl⟩ := hsuffix
  have hslash : ∀ u ∈ (js ".dart").reverse, decide (u ≠ 47) = true :=
    List.all_eq_true.mp (by decide)
  have hdot : (46 : UInt16) ∈ js ".dart" := by decide
  have hname : uploadName (t ++ js ".dart") =
      (t.reverse.takeWhile (· ≠ 47)).reverse ++ js ".dart" := by
    rw [uploadName, List.reverse_append, List.takeWhile_append_of_pos hslash,
      List.reverse_append, List.reverse_reverse]
  rw [hname, Execution.fileFilter, Execution.fileExtension, if_pos (List.mem_append_right _ hdot),
    List.reverse_append]
  exact decide_eq_true rfl

/-! ### Jobs whose statuses are the ends of a growing list -/

/-- The jobs show, one after another, the ends of lists that grow from `p` on up to `l`. -/
inductive Follows (l : List ExecutionJobStatus) : List ExecutionJobStatus → List ExecutionJob → Prop
  | nil {p : List ExecutionJobStatus} : Follows l p []
  | cons {p q : List ExecutionJobStatus} {job : ExecutionJob} {jobs : List ExecutionJob}
    (grows : p <+: q) (upTo : q <+: l) {status : ExecutionJobStatus} (last : q.getLast? = some status)
    (shows : job.status = status.text) (rest : Follows l q jobs) : Follows l p (job :: jobs)

/-- How polling ends, after these statuses have been printed. -/
def EndsWith (attempts : Nat) (jobs : List ExecutionJob) (shown : List ExecutionJobStatus) :
    Option (Except JsString ExecutionJob) → Prop
  | none => jobs.length < attempts ∧ ∀ status ∈ shown, status.isTerminal = false
  | some (.ok job) => job ∈ jobs ∧ ∃ before status, shown = before ++ [status] ∧
    (∀ status ∈ before, status.isTerminal = false) ∧ status.isTerminal = true ∧
      job.status = status.text
  | some (.error e) => e = pollingTimeout ∧ attempts ≤ jobs.length ∧
    ∀ status ∈ shown, status.isTerminal = false

variable {l p q : List ExecutionJobStatus} {jobs : List ExecutionJob}

theorem text_injective {a b : ExecutionJobStatus} (h : a.text = b.text) : a = b := by
  cases a <;> cases b <;> first | rfl | exact absurd h (by decide)

theorem text_ne_nil (status : ExecutionJobStatus) : status.text ≠ [] := by
  cases status <;> decide

theorem drop_of_isPrefix (hp : p <+: q) (hq : q <+: l) :
    ∃ m, q = p ++ m ∧ l.drop p.length = m ++ l.drop q.length := by
  obtain ⟨m, rfl⟩ := hp
  obtain ⟨n, rfl⟩ := hq
  refine ⟨m, rfl, ?_⟩
  rw [List.append_assoc, List.drop_left, ← List.append_assoc, List.drop_left]

/-- The last of a list that has grown is new, unless nothing has come. -/
theorem getLast?_of_grown {m : List ExecutionJobStatus} {status : ExecutionJobStatus}
    (h : (p ++ m).getLast? = some status) :
    p.getLast? = some status ∨ ∃ before, m = before ++ [status] := by
  rcases List.eq_nil_or_concat' m with rfl | ⟨before, s, rfl⟩
  · rw [List.append_nil] at h
    exact Or.inl h
  · rw [← List.append_assoc, List.getLast?_concat] at h
    obtain rfl := Option.some.inj h
    exact Or.inr ⟨before, rfl⟩

/-- What has been printed last, when `p` was what the list had come to. -/
def PrintedLast (p : List ExecutionJobStatus) (lastStatus : JsString) : Prop :=
  match p.getLast? with
  | none => lastStatus = []
  | some status => lastStatus = status.text ∧ status.isTerminal = false

/-- An answer is printed when it is new, and the statuses that are printed later follow it. -/
theorem statusChanges_cons {lastStatus : JsString} {job : ExecutionJob}
    {status : ExecutionJobStatus} {shown : List ExecutionJobStatus} (hp : PrintedLast p lastStatus)
    (hgrows : p <+: q) (hupTo : q <+: l) (hlast : q.getLast? = some status)
    (hshows : job.status = status.text) (jobs : List ExecutionJob)
    (hrest : statusChanges status.text jobs = shown.map ExecutionJobStatus.text)
    (hsub : shown.Sublist (l.drop q.length)) :
    (statusChanges lastStatus (job :: jobs) = (status :: shown).map ExecutionJobStatus.text ∧
      (status :: shown).Sublist (l.drop p.length)) ∨
    (p.getLast? = some status ∧
      statusChanges lastStatus (job :: jobs) = shown.map ExecutionJobStatus.text ∧
        shown.Sublist (l.drop p.length)) := by
  obtain ⟨m, rfl, hdrop⟩ := drop_of_isPrefix hgrows hupTo
  by_cases hsame : job.status = lastStatus
  · right
    have hp' : p.getLast? = some status := by
      rw [PrintedLast] at hp
      cases hpl : p.getLast? with
      | none =>
        rw [hpl] at hp
        exact absurd (hshows.symm.trans (hsame.trans hp)) (text_ne_nil status)
      | some s =>
        rw [hpl] at hp
        rw [text_injective (hshows.symm.trans (hsame.trans hp.1))]
    refine ⟨hp', ?_, ?_⟩
    · rw [statusChanges, if_neg (not_not.mpr hsame), ← hsame, hshows]
      exact hrest
    · rw [hdrop]
      exact hsub.trans (List.sublist_append_right _ _)
  · left
    have hnew : ∃ before, m = before ++ [status] := by
      refine (getLast?_of_grown hlast).resolve_left fun hpl => hsame ?_
      rw [PrintedLast, hpl] at hp
      exact hshows.trans hp.1.symm
    obtain ⟨before, rfl⟩ := hnew
    constructor
    · rw [statusChanges, if_pos hsame, hshows, hrest]
      rfl
    · rw [hdrop, List.append_assoc]
      exact (List.Sublist.cons_cons status hsub).trans (List.sublist_append_right _ _)

/-- One answer more, of a job that is not terminal. -/
theorem EndsWith.more {attempts : Nat} {job : ExecutionJob} {shown : List ExecutionJobStatus}
    {result : Option (Except JsString ExecutionJob)} (h : EndsWith attempts jobs shown result) :
    EndsWith (attempts + 1) (job :: jobs) shown result := by
  cases result with
  | none => exact ⟨Nat.succ_lt_succ h.1, h.2⟩
  | some r =>
    cases r with
    | ok job => exact ⟨List.mem_cons_of_mem _ h.1, h.2⟩
    | error e => exact ⟨h.1, Nat.succ_le_succ h.2.1, h.2.2⟩

theorem EndsWith.more_shown {attempts : Nat} {job : ExecutionJob} {status : ExecutionJobStatus}
    {shown : List ExecutionJobStatus} {result : Option (Except JsString ExecutionJob)}
    (h : EndsWith attempts jobs shown result) (hopen : status.isTerminal = false) :
    EndsWith (attempts + 1) (job :: jobs) (status :: shown) result := by
  cases result with
  | none => exact ⟨Nat.succ_lt_succ h.1, List.forall_mem_cons.mpr ⟨hopen, h.2⟩⟩
  | some r =>
    cases r with
    | ok job =>
      obtain ⟨hmem, before, last, hshown, hbefore, hlast⟩ := h
      exact ⟨List.mem_cons_of_mem _ hmem, status :: before, last, by rw [hshown, List.cons_append],
        List.forall_mem_cons.mpr ⟨hopen, hbefore⟩, hlast⟩
    | error e => exact ⟨h.1, Nat.succ_le_succ h.2.1, List.forall_mem_cons.mpr ⟨hopen, h.2.2⟩⟩

/-- **What polling prints.**  The induction is on the answers; what was printed last is the end of
the list as the answer before has shown it, and is not terminal. -/
theorem follows_poll {lastStatus : JsString} (h : Follows l p jobs) (hp : PrintedLast p lastStatus)
    (attempts : Nat) :
    ∃ shown : List ExecutionJobStatus, shown.Sublist (l.drop p.length) ∧
      statusChanges lastStatus (pollUntilComplete attempts (jobs.map .ok)).updates =
        shown.map ExecutionJobStatus.text ∧
      EndsWith attempts jobs shown (pollUntilComplete attempts (jobs.map .ok)).result := by
  induction h generalizing lastStatus attempts with
  | nil =>
    cases attempts with
    | zero => exact ⟨[], List.nil_sublist _, rfl, rfl, Nat.le_refl 0, List.forall_mem_nil _⟩
    | succ n => exact ⟨[], List.nil_sublist _, rfl, Nat.succ_pos n, List.forall_mem_nil _⟩
  | @cons p q job jobs hgrows hupTo status hlast hshows hrest ih =>
    cases attempts with
    | zero => exact ⟨[], List.nil_sublist _, rfl, rfl, Nat.zero_le _, List.forall_mem_nil _⟩
    | succ n =>
      rw [List.map_cons, pollUntilComplete, isTerminal_of_text hshows]
      cases hterm : status.isTerminal with
      | true =>
        -- a terminal status is new, and the last
        rw [if_pos rfl]
        have hnil : statusChanges status.text [] =
            ([] : List ExecutionJobStatus).map ExecutionJobStatus.text := rfl
        rcases statusChanges_cons hp hgrows hupTo hlast hshows [] hnil (List.nil_sublist _) with ⟨hchanges, hsub⟩ | ⟨hpl, -, -⟩
        · exact ⟨[status], hsub, hchanges, List.mem_cons_self .., [], status, rfl,
            List.forall_mem_nil _, hterm, hshows⟩
        · rw [PrintedLast, hpl] at hp
          rw [hp.2] at hterm
          cases hterm
      | false =>
        rw [if_neg Bool.false_ne_true]
        have hq : PrintedLast q status.text := by
          rw [PrintedLast, hlast]
          exact ⟨rfl, hterm⟩
        obtain ⟨shown, hsub, hchanges, hends⟩ := ih hq n
        rcases statusChanges_cons hp hgrows hupTo hlast hshows _ hchanges hsub with
          ⟨hchanges, hsub⟩ | ⟨-, hchanges, hsub⟩
        · exact ⟨status :: shown, hsub, hchanges, hends.more_shown hterm⟩
        · exact ⟨shown, hsub, hchanges, hends.more⟩

end FullstackSvc.Cli
