import FullstackSvc.Execution.Programs

/-!
# What one call does

For each call, what comes back and what becomes of the state, in one lemma that
the proofs about programs use instead of the definition of `perform`.  An error
of a call is *ordinary* unless it says that a job or a file is not there.
-/

namespace FullstackSvc.Execution

open Text Async

/-- An error that is neither "job not found" nor "no such file". -/
def JsError.Ordinary : JsError → Prop
  | .jobNotFound _ => False
  | .noEntry _ => False
  | _ => True

variable {pid : Nat} {r : Reply} {s s' : World}

/-- A failed call that did nothing. -/
def Failed {α : Type} (x : Except JsError α) (s s' : World) : Prop :=
  ∃ e : JsError, x = .error e ∧ e.Ordinary ∧ s' = s

/-- A call succeeds as far as the state lets it, or fails and does nothing, or
is a write that stops halfway. -/
theorem perform_cases {c : Cmd} {x : Except JsError (sig.Res c)}
    (h : perform pid c r s = some (x, s')) :
    (r = .done ∧ performDone pid c s = some (x, s')) ∨ (r ≠ .done ∧ Failed x s s') ∨
      ∃ path bytes n e, c = .writeBytes path bytes ∧ r ≠ .done ∧ x = .error e ∧ e.Ordinary ∧
        s' = { s with files := Function.update s.files path (some (bytes.take n)) } := by
  cases r with
  | done => exact Or.inl ⟨rfl, h⟩
  | fails name message =>
    obtain ⟨rfl, rfl⟩ := Prod.mk.inj (Option.some.inj h)
    exact Or.inr (Or.inl ⟨by simp, _, rfl, trivial, rfl⟩)
  | failsAfter n name message =>
    cases c with
    | writeBytes path bytes =>
      obtain ⟨rfl, rfl⟩ := Prod.mk.inj (Option.some.inj h)
      exact Or.inr (Or.inr ⟨path, bytes, n, _, rfl, by simp, rfl, trivial, rfl⟩)
    | _ => cases h
  | timeout =>
    cases c with
    | waitOrTimeout n =>
      obtain ⟨rfl, rfl⟩ := Prod.mk.inj (Option.some.inj h)
      exact Or.inr (Or.inl ⟨by simp, _, rfl, trivial, rfl⟩)
    | _ => cases h

theorem perform_mkdir {x : Except JsError Unit} {path : JsString}
    (h : perform pid (.mkdir path) r s = some (x, s')) :
    (x = .ok () ∧ s' = { s with directories := Function.update s.directories path true }) ∨
      Failed x s s' := by
  rcases perform_cases h with ⟨-, h⟩ | ⟨-, h⟩ | ⟨path, bytes, n, e, hc, -⟩
  · obtain ⟨rfl, rfl⟩ := Prod.mk.inj (Option.some.inj h)
    exact Or.inl ⟨rfl, rfl⟩
  · exact Or.inr h
  · cases hc

theorem perform_openFile {x : Except JsError Unit} {path : JsString}
    (h : perform pid (.openFile path) r s = some (x, s')) :
    (x = .ok () ∧ s' = { s with files := Function.update s.files path (some []) }) ∨ Failed x s s' := by
  rcases perform_cases h with ⟨-, h⟩ | ⟨-, h⟩ | ⟨path, bytes, n, e, hc, -⟩
  · obtain ⟨rfl, rfl⟩ := Prod.mk.inj (Option.some.inj h)
    exact Or.inl ⟨rfl, rfl⟩
  · exact Or.inr h
  · cases hc

/-- A write that fails leaves a part of the bytes, or nothing. -/
theorem perform_writeBytes {x : Except JsError Unit} {path : JsString} {bytes : Bytes}
    (h : perform pid (.writeBytes path bytes) r s = some (x, s')) :
    (x = .ok () ∧ s' = { s with files := Function.update s.files path (some bytes) }) ∨
      Failed x s s' ∨
      ∃ e n, x = .error e ∧ e.Ordinary ∧
        s' = { s with files := Function.update s.files path (some (bytes.take n)) } := by
  rcases perform_cases h with ⟨-, h⟩ | ⟨-, h⟩ | ⟨path', bytes', n, e, hc, -, hx, he, hs⟩
  · obtain ⟨rfl, rfl⟩ := Prod.mk.inj (Option.some.inj h)
    exact Or.inl ⟨rfl, rfl⟩
  · exact Or.inr (Or.inl h)
  · cases hc
    exact Or.inr (Or.inr ⟨e, n, hx, he, hs⟩)

theorem perform_startTransaction {x : Except JsError Unit}
    (h : perform pid .startTransaction r s = some (x, s')) :
    (x = .ok () ∧ s' = { s with transactions := Function.update s.transactions pid ⟨[], []⟩ }) ∨
      Failed x s s' := by
  rcases perform_cases h with ⟨-, h⟩ | ⟨-, h⟩ | ⟨path, bytes, n, e, hc, -⟩
  · obtain ⟨rfl, rfl⟩ := Prod.mk.inj (Option.some.inj h)
    exact Or.inl ⟨rfl, rfl⟩
  · exact Or.inr h
  · cases hc

theorem perform_insertJob {x : Except JsError Unit} {row : ExecutionJob}
    (h : perform pid (.insertJob row) r s = some (x, s')) :
    (x = .ok () ∧ row.id ∉ (s.jobs ++ (s.transactions pid).jobs).map ExecutionJob.id ∧
        s' = s.insertPending pid [row] []) ∨ Failed x s s' := by
  rcases perform_cases h with ⟨-, h⟩ | ⟨-, h⟩ | ⟨path, bytes, n, e, hc, -⟩
  · rw [performDone] at h
    split at h
    · obtain ⟨rfl, rfl⟩ := Prod.mk.inj (Option.some.inj h)
      exact Or.inr ⟨_, rfl, trivial, rfl⟩
    · rename_i hid
      obtain ⟨rfl, rfl⟩ := Prod.mk.inj (Option.some.inj h)
      exact Or.inl ⟨rfl, hid, rfl⟩
  · exact Or.inr h
  · cases hc

theorem perform_insertStatusLog {x : Except JsError Unit} {row : ExecutionJobStatusLog}
    (h : perform pid (.insertStatusLog row) r s = some (x, s')) :
    (x = .ok () ∧ row.jobId ∈ (s.jobs ++ (s.transactions pid).jobs).map ExecutionJob.id ∧
        s' = s.insertPending pid [] [row]) ∨ Failed x s s' := by
  rcases perform_cases h with ⟨-, h⟩ | ⟨-, h⟩ | ⟨path, bytes, n, e, hc, -⟩
  · rw [performDone] at h
    split at h
    · rename_i hid
      obtain ⟨rfl, rfl⟩ := Prod.mk.inj (Option.some.inj h)
      exact Or.inl ⟨rfl, hid, rfl⟩
    · obtain ⟨rfl, rfl⟩ := Prod.mk.inj (Option.some.inj h)
      exact Or.inr ⟨_, rfl, trivial, rfl⟩
  · exact Or.inr h
  · cases hc

/-- The state after the commit of the transaction of a process. -/
def World.committed (s : World) (pid : Nat) : World :=
  { s with
    jobs := s.jobs ++ (s.transactions pid).jobs
    logs := s.logs ++ (s.transactions pid).logs
    transactions := Function.update s.transactions pid ⟨[], []⟩ }

theorem perform_commitTransaction {x : Except JsError Unit}
    (h : perform pid .commitTransaction r s = some (x, s')) :
    (x = .ok () ∧ s' = s.committed pid) ∨ Failed x s s' := by
  rcases perform_cases h with ⟨-, h⟩ | ⟨-, h⟩ | ⟨path, bytes, n, e, hc, -⟩
  · obtain ⟨rfl, rfl⟩ := Prod.mk.inj (Option.some.inj h)
    exact Or.inl ⟨rfl, rfl⟩
  · exact Or.inr h
  · cases hc

theorem perform_rollbackTransaction {x : Except JsError Unit}
    (h : perform pid .rollbackTransaction r s = some (x, s')) :
    (x = .ok () ∧ s' = { s with transactions := Function.update s.transactions pid ⟨[], []⟩ }) ∨
      Failed x s s' := by
  rcases perform_cases h with ⟨-, h⟩ | ⟨-, h⟩ | ⟨path, bytes, n, e, hc, -⟩
  · obtain ⟨rfl, rfl⟩ := Prod.mk.inj (Option.some.inj h)
    exact Or.inl ⟨rfl, rfl⟩
  · exact Or.inr h
  · cases hc

theorem perform_addToQueue {x : Except JsError Unit} {jobId : JsString}
    (h : perform pid (.addToQueue jobId) r s = some (x, s')) :
    (x = .ok () ∧ s' = { s with waiting := s.waiting ++ [jobId] }) ∨
      (r ≠ .done ∧ Failed x s s') := by
  rcases perform_cases h with ⟨-, h⟩ | h | ⟨path, bytes, n, e, hc, -⟩
  · obtain ⟨rfl, rfl⟩ := Prod.mk.inj (Option.some.inj h)
    exact Or.inl ⟨rfl, rfl⟩
  · exact Or.inr h
  · cases hc

theorem perform_findJob {x : Except JsError (Option ExecutionJob)} {jobId : JsString}
    (h : perform pid (.findJob jobId) r s = some (x, s')) :
    (x = .ok (s.job? jobId) ∧ s' = s) ∨ Failed x s s' := by
  rcases perform_cases h with ⟨-, h⟩ | ⟨-, h⟩ | ⟨path, bytes, n, e, hc, -⟩
  · obtain ⟨rfl, rfl⟩ := Prod.mk.inj (Option.some.inj h)
    exact Or.inl ⟨rfl, rfl⟩
  · exact Or.inr h
  · cases hc

theorem perform_saveStatusLog {x : Except JsError Unit} {row : ExecutionJobStatusLog}
    (h : perform pid (.saveStatusLog row) r s = some (x, s')) :
    (x = .ok () ∧ row.jobId ∈ s.jobs.map ExecutionJob.id ∧
        s' = { s with logs := s.logs ++ [row] }) ∨ Failed x s s' := by
  rcases perform_cases h with ⟨-, h⟩ | ⟨-, h⟩ | ⟨path, bytes, n, e, hc, -⟩
  · rw [performDone] at h
    split at h
    · rename_i hid
      obtain ⟨rfl, rfl⟩ := Prod.mk.inj (Option.some.inj h)
      exact Or.inl ⟨rfl, hid, rfl⟩
    · obtain ⟨rfl, rfl⟩ := Prod.mk.inj (Option.some.inj h)
      exact Or.inr ⟨_, rfl, trivial, rfl⟩
  · exact Or.inr h
  · cases hc

/-- The state after an update of the row of a job. -/
def World.withUpdate (s : World) (jobId : JsString) (changes : JobUpdate) : World :=
  { s with jobs := s.jobs.map fun row => if row.id = jobId then row.update changes else row }

theorem perform_updateJob {x : Except JsError Unit} {jobId : JsString} {changes : JobUpdate}
    (h : perform pid (.updateJob jobId changes) r s = some (x, s')) :
    (x = .ok () ∧ r = .done ∧ s' = s.withUpdate jobId changes) ∨ Failed x s s' := by
  rcases perform_cases h with ⟨hr, h⟩ | ⟨-, h⟩ | ⟨path, bytes, n, e, hc, -⟩
  · rw [performDone] at h
    split at h
    · obtain ⟨rfl, rfl⟩ := Prod.mk.inj (Option.some.inj h)
      exact Or.inl ⟨rfl, hr, rfl⟩
    · obtain ⟨rfl, rfl⟩ := Prod.mk.inj (Option.some.inj h)
      exact Or.inr ⟨_, rfl, trivial, rfl⟩
  · exact Or.inr h
  · cases hc

theorem perform_access {x : Except JsError Unit} {path : JsString}
    (h : perform pid (.access path) r s = some (x, s')) :
    (x = .ok () ∧ s' = s) ∨ Failed x s s' ∨
      (x = .error (.noEntry path) ∧ s.files path = none ∧ s' = s) := by
  rcases perform_cases h with ⟨-, h⟩ | ⟨-, h⟩ | ⟨path, bytes, n, e, hc, -⟩
  · rw [performDone] at h
    split at h
    · obtain ⟨rfl, rfl⟩ := Prod.mk.inj (Option.some.inj h)
      exact Or.inl ⟨rfl, rfl⟩
    · rename_i hf
      obtain ⟨rfl, rfl⟩ := Prod.mk.inj (Option.some.inj h)
      exact Or.inr (Or.inr ⟨rfl, hf, rfl⟩)
  · exact Or.inr (Or.inl h)
  · cases hc

theorem perform_createContainer {x : Except JsError Nat} {file : JsString}
    (h : perform pid (.createContainer file) r s = some (x, s')) :
    (x = .ok s.containers.length ∧
        s' = { s with containers := s.containers ++ [⟨file, false, none, [], false⟩] }) ∨
      Failed x s s' := by
  rcases perform_cases h with ⟨-, h⟩ | ⟨-, h⟩ | ⟨path, bytes, n, e, hc, -⟩
  · obtain ⟨rfl, rfl⟩ := Prod.mk.inj (Option.some.inj h)
    exact Or.inl ⟨rfl, rfl⟩
  · exact Or.inr h
  · cases hc

/-- A change of one container that leaves what it ran and wrote as it is, and
its exit code once there is one. -/
def Container.Keeps (f : Container → Container) : Prop :=
  ∀ c : Container, (f c).file = c.file ∧ (f c).log = c.log ∧
    ∀ code, c.exited = some code → (f c).exited = some code

theorem perform_startContainer {x : Except JsError Unit} {n : Nat}
    (h : perform pid (.startContainer n) r s = some (x, s')) :
    (x = .ok () ∧ ∃ f, Container.Keeps f ∧ s' = s.modifyContainer n f) ∨ Failed x s s' := by
  rcases perform_cases h with ⟨-, h⟩ | ⟨-, h⟩ | ⟨path, bytes, n, e, hc, -⟩
  · obtain ⟨rfl, rfl⟩ := Prod.mk.inj (Option.some.inj h)
    exact Or.inl ⟨rfl, fun c => { c with started := true },
      fun c => ⟨rfl, rfl, fun _ hc => hc⟩, rfl⟩
  · exact Or.inr h
  · cases hc

theorem perform_removeContainer {x : Except JsError Unit} {n : Nat}
    (h : perform pid (.removeContainer n) r s = some (x, s')) :
    (x = .ok () ∧ ∃ f, Container.Keeps f ∧ s' = s.modifyContainer n f) ∨ Failed x s s' := by
  rcases perform_cases h with ⟨-, h⟩ | ⟨-, h⟩ | ⟨path, bytes, n, e, hc, -⟩
  · obtain ⟨rfl, rfl⟩ := Prod.mk.inj (Option.some.inj h)
    exact Or.inl ⟨rfl, fun c => { c with removed := true },
      fun c => ⟨rfl, rfl, fun _ hc => hc⟩, rfl⟩
  · exact Or.inr h
  · cases hc

theorem perform_killContainer {x : Except JsError Unit} {n : Nat}
    (h : perform pid (.killContainer n) r s = some (x, s')) :
    (x = .ok () ∧ ∃ f, Container.Keeps f ∧ s' = s.modifyContainer n f) ∨ Failed x s s' := by
  rcases perform_cases h with ⟨-, h⟩ | ⟨-, h⟩ | ⟨path, bytes, n, e, hc, -⟩
  · obtain ⟨rfl, rfl⟩ := Prod.mk.inj (Option.some.inj h)
    refine Or.inl ⟨rfl, fun c => { c with exited := c.exited <|> some 137 },
      fun c => ⟨rfl, rfl, fun code hc => ?_⟩, rfl⟩
    simp only [hc]
    rfl
  · exact Or.inr h
  · cases hc

/-- The race is won by a container that has exited, and lost in any other
way. -/
theorem perform_waitOrTimeout {x : Except JsError Int} {n : Nat}
    (h : perform pid (.waitOrTimeout n) r s = some (x, s')) :
    (∃ c code, x = .ok code ∧ s.containers[n]? = some c ∧ c.exited = some code ∧ s' = s) ∨
      Failed x s s' := by
  rcases perform_cases h with ⟨-, h⟩ | ⟨-, h⟩ | ⟨path, bytes, n, e, hc, -⟩
  · rw [performDone] at h
    split at h
    · obtain ⟨rfl, rfl⟩ := Prod.mk.inj (Option.some.inj h)
      exact Or.inr ⟨_, rfl, trivial, rfl⟩
    · rename_i c hc
      obtain ⟨code, hcode, he⟩ := Option.map_eq_some_iff.mp h
      obtain ⟨rfl, rfl⟩ := Prod.mk.inj he
      exact Or.inl ⟨c, code, rfl, hc, hcode, rfl⟩
  · exact Or.inr h
  · cases hc

theorem perform_containerLogs {x : Except JsError Bytes} {n : Nat}
    (h : perform pid (.containerLogs n) r s = some (x, s')) :
    (∃ c, x = .ok c.logs ∧ s.containers[n]? = some c ∧ s' = s) ∨ Failed x s s' := by
  rcases perform_cases h with ⟨-, h⟩ | ⟨-, h⟩ | ⟨path, bytes, n, e, hc, -⟩
  · rw [performDone] at h
    split at h
    · obtain ⟨rfl, rfl⟩ := Prod.mk.inj (Option.some.inj h)
      exact Or.inr ⟨_, rfl, trivial, rfl⟩
    · rename_i c hc
      obtain ⟨rfl, rfl⟩ := Prod.mk.inj (Option.some.inj h)
      exact Or.inl ⟨c, rfl, hc, rfl⟩
  · exact Or.inr h
  · cases hc

end FullstackSvc.Execution
