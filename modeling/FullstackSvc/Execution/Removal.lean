import FullstackSvc.Async.Trace
import FullstackSvc.Execution.Reachable

/-!
# Containers that are left behind

`processJob` removes its container at the end of the `try` block and in the handler
of the race, which is there for a timeout and catches every failure of `wait`.  The
outer handler, where all other failures end, knows no container.

A run is a trace of `processJob`: any calls may fail, in any combination.

* `clears_raceWithTimeout`: a race that is lost removes the container.
* `container_removed_iff`: **the container is removed exactly when it could be started
  and its log could be read**, whatever else fails.
-/

namespace FullstackSvc.Execution

open Text Async

variable {C : Config} {jobId : JsString} {n : Nat}

abbrev Trace := List (Happening sig JsError)

/-! ### Calls beside the container -/

/-- The call is none of the four that make a container, start it, read its log and
remove it. -/
def Cmd.Aside : Cmd → Prop
  | .createContainer _ => False
  | .startContainer _ => False
  | .containerLogs _ => False
  | .removeContainer _ => False
  | _ => True

def Aside (tr : Trace) : Prop := ∀ c : Cmd, Called (A := sig) c tr → c.Aside

theorem makes_createStatusLog (status : ExecutionJobStatus) :
    (createStatusLog jobId status).Makes (A := sig) Cmd.Aside :=
  Prog.makes_bind (Prog.makes_op _) fun _ => Prog.makes_bind (Prog.makes_op _) fun _ =>
    Prog.makes_call trivial

theorem makes_updateResult (output error : Option JsString) (exitCode : Int) :
    (updateResult jobId output error exitCode).Makes (A := sig) Cmd.Aside :=
  Prog.makes_bind (Prog.makes_op _) fun _ => Prog.makes_call trivial

theorem makes_saveResult (output : JsString) (exitCode : Int) :
    (saveResult jobId output exitCode).Makes (A := sig) Cmd.Aside := by
  rw [saveResult]
  split
  · exact Prog.makes_bind (makes_updateResult _ _ _) fun _ => makes_createStatusLog _
  · exact Prog.makes_bind (makes_updateResult _ _ _) fun _ => makes_createStatusLog _

/-- The container is removed exactly when it could be started and its log could be read. -/
def Clears (n : Nat) (tr : Trace) : Prop :=
  Called (A := sig) (Cmd.removeContainer n) tr ↔
    ¬ Refused (A := sig) (Cmd.startContainer n) tr ∧ ¬ Refused (A := sig) (Cmd.containerLogs n) tr

variable {tr tr' : Trace}

theorem clears_append_aside (h : Aside tr') : Clears n (tr ++ tr') ↔ Clears n tr := by
  have hremove : ¬ Called (A := sig) (Cmd.removeContainer n) tr' := fun hc => h _ hc
  have hstart : ¬ Refused (A := sig) (Cmd.startContainer n) tr' := fun hc => h _ hc.called
  have hlogs : ¬ Refused (A := sig) (Cmd.containerLogs n) tr' := fun hc => h _ hc.called
  simp only [Clears, called_append, refused_append, hremove, hstart, hlogs, or_false]

theorem clears_aside_append (h : Aside tr) : Clears n (tr ++ tr') ↔ Clears n tr' := by
  have hremove : ¬ Called (A := sig) (Cmd.removeContainer n) tr := fun hc => h _ hc
  have hstart : ¬ Refused (A := sig) (Cmd.startContainer n) tr := fun hc => h _ hc.called
  have hlogs : ¬ Refused (A := sig) (Cmd.containerLogs n) tr := fun hc => h _ hc.called
  simp only [Clears, called_append, refused_append, hremove, hstart, hlogs, false_or]

/-- A call that succeeds changes nothing, other than the removal. -/
theorem clears_ok_append {c : Cmd} {a : sig.Res c} (hne : c ≠ .removeContainer n) :
    Clears n ([Happening.call (A := sig) c (.ok a)] ++ tr) ↔ Clears n tr := by
  have hremove : ¬ Called (A := sig) (Cmd.removeContainer n)
      [(Happening.call (A := sig) c (.ok a) : Happening sig JsError)] :=
    fun h => hne (called_singleton.mp h).symm
  have hok : ∀ d : Cmd, ¬ Refused (A := sig) d
      [(Happening.call (A := sig) c (.ok a) : Happening sig JsError)] := fun _ => not_refused_ok
  simp only [Clears, called_append, refused_append, hremove, hok, false_or]

/-- The run ends here, and the outer handler does not know the container. -/
theorem clears_refused {c : Cmd} {e : JsError} (hne : c ≠ .removeContainer n)
    (h : c = .startContainer n ∨ c = .containerLogs n) :
    Clears n [Happening.call (A := sig) c (.error e)] := by
  refine iff_of_false (fun hc => hne (called_singleton.mp hc).symm) ?_
  rintro ⟨hstart, hlogs⟩
  rcases h with rfl | rfl
  · exact hstart ⟨e, List.mem_singleton_self _⟩
  · exact hlogs ⟨e, List.mem_singleton_self _⟩

/-! ### The container of a run -/

theorem makes_kill : ((await (.killContainer n)).handle fun _ => .ret ()).Makes (A := sig)
    Cmd.Aside := Prog.makes_handle (Prog.makes_call trivial) fun _ => trivial

/-- A removal that is tried is a removal that is called. -/
theorem called_remove {x : Except JsError Unit}
    (h : ((await (.removeContainer n)).handle fun _ => .ret ()).Finishes tr x) :
    Called (A := sig) (Cmd.removeContainer n) tr := by
  rcases Prog.finishes_handle h with ⟨a, -, h₁⟩ | ⟨tr₁, tr₂, e, rfl, h₁, -⟩
  · obtain rfl := Prog.finishes_call h₁
    exact called_singleton.mpr rfl
  · obtain rfl := Prog.finishes_call h₁
    exact called_append.mpr (Or.inl (called_singleton.mpr rfl))

/-- The calls of the race and its handler. -/
theorem makes_raceWithTimeout : (raceWithTimeout jobId n).Makes (A := sig)
    fun c => c.Aside ∨ c = .removeContainer n := by
  have haside : ∀ c : Cmd, c.Aside → c.Aside ∨ c = .removeContainer n := fun _ h => Or.inl h
  have hremove : ((await (.removeContainer n)).handle fun _ => .ret ()).Makes (A := sig)
      fun c => c.Aside ∨ c = .removeContainer n :=
    Prog.makes_handle (Prog.makes_call (Or.inr rfl)) fun _ => trivial
  refine Prog.makes_handle (Prog.makes_call (Or.inl trivial)) fun e => ?_
  refine Prog.makes_bind (Prog.makes_mono haside makes_kill) fun _ => ?_
  refine Prog.makes_bind hremove fun _ => ?_
  refine Prog.makes_bind (Prog.makes_mono haside (makes_updateResult _ _ _)) fun _ => ?_
  exact Prog.makes_bind (Prog.makes_mono haside (makes_createStatusLog _)) fun _ => trivial

/-- **A race that is lost** removes the container, whatever comes of it. -/
theorem finishes_raceWithTimeout {x : Except JsError Int}
    (h : (raceWithTimeout jobId n).Finishes tr x) :
    (Aside tr ∧ ∃ code, x = .ok code) ∨
      ((∃ e, x = .error e) ∧ Called (A := sig) (Cmd.removeContainer n) tr) := by
  rcases Prog.finishes_handle h with ⟨code, rfl, h₁⟩ | ⟨tr₁, tr₂, e, rfl, -, h₂⟩
  · obtain rfl := Prog.finishes_call h₁
    refine Or.inl ⟨fun c hc => ?_, code, rfl⟩
    rw [called_singleton.mp hc]
    trivial
  · right
    -- the handler ends with the error, and its removal comes before all that may throw
    rcases Prog.finishes_bind h₂ with ⟨tr₃, tr₄, _, rfl, -, h₄⟩ | ⟨e', rfl, h₃⟩
    · rcases Prog.finishes_bind h₄ with ⟨tr₅, tr₆, _, rfl, h₅, h₆⟩ | ⟨e', rfl, h₅⟩
      · have hcalled := called_remove h₅
        refine ⟨?_, by simp only [called_append, hcalled, true_or, or_true]⟩
        rcases Prog.finishes_bind h₆ with ⟨tr₇, tr₈, _, rfl, -, h₈⟩ | ⟨e', rfl, -⟩
        · rcases Prog.finishes_bind h₈ with ⟨tr₉, tr₁₀, _, rfl, -, h₁₀⟩ | ⟨e', rfl, -⟩
          · exact ⟨e, (Prog.finishes_fail h₁₀).2⟩
          · exact ⟨e', rfl⟩
        · exact ⟨e', rfl⟩
      · have hcalled := called_remove h₅
        exact ⟨⟨e', rfl⟩, by simp only [called_append, hcalled, or_true]⟩
    · rcases Prog.finishes_handle h₃ with ⟨a, he, -⟩ | ⟨_, _, _, -, -, h₅⟩
      · cases he
      · obtain ⟨-, he⟩ := Prog.finishes_ret h₅
        cases he

/-- The race of the container that has been started. -/
theorem clears_raceWithTimeout {x : Except JsError Int}
    (h : (raceWithTimeout jobId n).Finishes tr x) (he : ∃ e, x = .error e) : Clears n tr := by
  rcases finishes_raceWithTimeout h with ⟨-, code, rfl⟩ | ⟨-, hcalled⟩
  · obtain ⟨e, he⟩ := he
    cases he
  · have hnot : ∀ c : Cmd, ¬ c.Aside → c ≠ .removeContainer n → ¬ Refused (A := sig) c tr := by
      intro c hc hne hr
      rcases h.called makes_raceWithTimeout hr.called with ha | rfl
      · exact hc ha
      · exact hne rfl
    exact iff_of_true hcalled ⟨hnot _ id (by simp), hnot _ id (by simp)⟩

/-- What is done with a container, once there is one. -/
def useContainer (jobId : JsString) (n : Nat) : Program Unit := do
  await (.startContainer n)
  let exitCode ← raceWithTimeout jobId n
  let logs ← await (.containerLogs n)
  await (.removeContainer n)
  saveResult jobId (utf8Decode logs) exitCode

theorem runContainer_eq (row : ExecutionJob) : runContainer jobId row =
    (await (.createContainer (js "/code-files/" ++ row.filePath))).bind (useContainer jobId) := rfl

/-- One container is enough for a run. -/
theorem makes_useContainer : (useContainer jobId n).Makes (A := sig)
    fun c => ∀ file, c ≠ .createContainer file := by
  have haside : ∀ c : Cmd, c.Aside → ∀ file, c ≠ .createContainer file := by
    rintro c h file rfl
    exact h
  have hrace : ∀ c : Cmd, c.Aside ∨ c = .removeContainer n → ∀ file, c ≠ .createContainer file := by
    rintro c (h | rfl) file he
    · exact haside c h file he
    · cases he
  refine Prog.makes_bind (Prog.makes_call fun _ he => by cases he) fun _ => ?_
  refine Prog.makes_bind (Prog.makes_mono hrace makes_raceWithTimeout) fun _ => ?_
  refine Prog.makes_bind (Prog.makes_call fun _ he => by cases he) fun _ => ?_
  refine Prog.makes_bind (Prog.makes_call fun _ he => by cases he) fun _ => ?_
  exact Prog.makes_mono haside (makes_saveResult _ _)

/-- The end of a run, with the removal. -/
theorem clears_removal {x : Except JsError Unit} {output : JsString} {exitCode : Int}
    (h : ((await (.removeContainer n)).bind fun _ => saveResult jobId output exitCode).Finishes tr x) :
    Clears n tr := by
  have hcalls : ((await (.removeContainer n)).bind fun _ => saveResult jobId output exitCode).Makes
      (A := sig) fun c => c.Aside ∨ c = .removeContainer n :=
    Prog.makes_bind (Prog.makes_call (Or.inr rfl)) fun _ =>
      Prog.makes_mono (fun _ h => Or.inl h) (makes_saveResult _ _)
  have hnot : ∀ c : Cmd, ¬ c.Aside → c ≠ .removeContainer n → ¬ Refused (A := sig) c tr := by
    intro c hc hne hr
    rcases h.called hcalls hr.called with ha | rfl
    · exact hc ha
    · exact hne rfl
  have hcalled : Called (A := sig) (Cmd.removeContainer n) tr := by
    rcases Prog.finishes_bind h with ⟨tr₁, tr₂, _, rfl, h₁, -⟩ | ⟨e, -, h₁⟩
    · obtain rfl := Prog.finishes_call h₁
      exact called_append.mpr (Or.inl (called_singleton.mpr rfl))
    · obtain rfl := Prog.finishes_call h₁
      exact called_singleton.mpr rfl
  exact iff_of_true hcalled ⟨hnot _ id (by simp), hnot _ id (by simp)⟩

/-- **The exits of a run**, from the container on. -/
theorem clears_useContainer {x : Except JsError Unit} (h : (useContainer jobId n).Finishes tr x) :
    Clears n tr := by
  rcases Prog.finishes_bind h with ⟨tr₁, tr₂, _, rfl, h₁, h₂⟩ | ⟨e, -, h₁⟩
  · obtain rfl := Prog.finishes_call h₁
    rw [clears_ok_append (by simp)]
    rcases Prog.finishes_bind h₂ with ⟨tr₃, tr₄, code, rfl, h₃, h₄⟩ | ⟨e, -, h₃⟩
    · have haside : Aside tr₃ := by
        rcases finishes_raceWithTimeout h₃ with ⟨ha, -⟩ | ⟨⟨e, he⟩, -⟩
        · exact ha
        · cases he
      rw [clears_aside_append haside]
      rcases Prog.finishes_bind h₄ with ⟨tr₅, tr₆, logs, rfl, h₅, h₆⟩ | ⟨e, -, h₅⟩
      · obtain rfl := Prog.finishes_call h₅
        rw [clears_ok_append (by simp)]
        exact clears_removal h₆
      · obtain rfl := Prog.finishes_call h₅
        exact clears_refused (by simp) (Or.inr rfl)
    · exact clears_raceWithTimeout h₃ ⟨e, rfl⟩
  · obtain rfl := Prog.finishes_call h₁
    exact clears_refused (by simp) (Or.inl rfl)

/-- The container that a run has created. -/
theorem clears_runContainer {row : ExecutionJob} {x : Except JsError Unit} {file : JsString}
    (h : (runContainer jobId row).Finishes tr x)
    (hcreated : Happening.call (A := sig) (Cmd.createContainer file) (.ok n) ∈ tr) :
    Clears n tr := by
  rw [runContainer_eq] at h
  rcases Prog.finishes_bind h with ⟨tr₁, tr₂, m, rfl, h₁, h₂⟩ | ⟨e, -, h₁⟩
  · obtain rfl := Prog.finishes_call h₁
    rcases List.mem_append.mp hcreated with hc | hc
    · cases List.mem_singleton.mp hc
      rw [clears_ok_append (by simp)]
      exact clears_useContainer h₂
    · exact absurd rfl (h₂.called makes_useContainer ⟨_, hc⟩ file)
  · obtain rfl := Prog.finishes_call h₁
    cases List.mem_singleton.mp hcreated

/-- The part of a run before its container. -/
theorem clears_executeJob {x : Except JsError Unit} {file : JsString}
    (h : (executeJob C jobId).Finishes tr x)
    (hcreated : Happening.call (A := sig) (Cmd.createContainer file) (.ok n) ∈ tr) :
    Clears n tr := by
  have hnone : ∀ {tr : Trace}, Aside tr →
      Happening.call (A := sig) (Cmd.createContainer file) (.ok n) ∉ tr :=
    fun ha hc => ha _ ⟨_, hc⟩
  have hskip : ∀ {α : Type} {p : Program α} {f : α → Program Unit} {tr : Trace}
      {x : Except JsError Unit}, p.Makes (A := sig) Cmd.Aside → (p.bind f).Finishes tr x →
      Happening.call (A := sig) (Cmd.createContainer file) (.ok n) ∈ tr →
      ∃ tr₁ tr₂ a, tr = tr₁ ++ tr₂ ∧ Aside tr₁ ∧ (f a).Finishes tr₂ x ∧
        Happening.call (A := sig) (Cmd.createContainer file) (.ok n) ∈ tr₂ := by
    intro α p f tr x hp h hc
    rcases Prog.finishes_bind h with ⟨tr₁, tr₂, a, rfl, h₁, h₂⟩ | ⟨e, -, h₁⟩
    · have ha : Aside tr₁ := fun c hc => h₁.called hp hc
      exact ⟨tr₁, tr₂, a, rfl, ha, h₂, (List.mem_append.mp hc).resolve_left (hnone ha)⟩
    · exact absurd hc (hnone fun c hc => h₁.called hp hc)
  have hfind : (await (.findJob jobId)).Makes (A := sig) Cmd.Aside := Prog.makes_call trivial
  obtain ⟨tr₁, tr₂, found, rfl, ha, h, hcreated⟩ := hskip hfind h hcreated
  rw [clears_aside_append ha]
  cases found with
  | none =>
    obtain ⟨rfl, -⟩ := Prog.finishes_fail h
    cases hcreated
  | some row =>
    obtain ⟨tr₃, tr₄, _, rfl, ha, h, hcreated⟩ := hskip (makes_createStatusLog _) h hcreated
    rw [clears_aside_append ha]
    have haccess : (await (.access (join C.basePath row.filePath))).Makes (A := sig) Cmd.Aside :=
      Prog.makes_call trivial
    obtain ⟨tr₅, tr₆, _, rfl, ha, h, hcreated⟩ := hskip haccess h hcreated
    rw [clears_aside_append ha]
    obtain ⟨tr₇, tr₈, _, rfl, ha, h, hcreated⟩ := hskip (makes_createStatusLog _) h hcreated
    rw [clears_aside_append ha]
    exact clears_runContainer h hcreated

/-! ### When the run is over -/

/-- **When the container of a run is removed.**  In any run of `processJob`, whatever its
calls answer, `remove` is called on the container that was created if and only if `start` and
`logs` of it did not fail. -/
theorem container_removed_iff (C : Config) (jobId : JsString) (tr : Trace)
    (x : Except JsError Unit) (file : JsString) (n : Nat)
    (h : (processJob C jobId).Finishes tr x)
    (hcreated : Happening.call (A := sig) (Cmd.createContainer file) (.ok n) ∈ tr) :
    (∃ answer, Happening.call (A := sig) (Cmd.removeContainer n) answer ∈ tr) ↔
      (∀ e, Happening.call (A := sig) (Cmd.startContainer n) (.error e) ∉ tr) ∧
        ∀ e, Happening.call (A := sig) (Cmd.containerLogs n) (.error e) ∉ tr := by
  have hhandler : ∀ error : JsError, ((updateResult jobId none (some (errorText error)) (-1)).bind
      fun _ => (createStatusLog jobId .FAILED).bind fun _ => .fail error).Makes (A := sig)
        (α := Unit) Cmd.Aside := fun error =>
    Prog.makes_bind (makes_updateResult _ _ _) fun _ =>
      Prog.makes_bind (makes_createStatusLog _) fun _ => trivial
  have hclears : Clears n tr := by
    rcases Prog.finishes_handle h with ⟨a, rfl, h₁⟩ | ⟨tr₁, tr₂, e, rfl, h₁, h₂⟩
    · exact clears_executeJob h₁ hcreated
    · have ha : Aside tr₂ := fun c hc => h₂.called (hhandler e) hc
      rw [clears_append_aside ha]
      exact clears_executeJob h₁ ((List.mem_append.mp hcreated).resolve_right fun hc =>
        ha _ ⟨_, hc⟩)
  simpa only [Clears, Called, Refused, not_exists] using hclears

/-- A job whose file is `0.dart`. -/
def uploadedJob : ExecutionJob := ⟨js "1", js "ann", js "0.dart", 0, none, none, none, none⟩

/-- A run up to the answer of `start`. -/
def containerCreated (started : Except JsError Unit) : Trace :=
  [.call (.findJob (js "1")) (.ok (some uploadedJob)), .op .ulid (js "3"), .op .now (0 : Nat),
    .call (.saveStatusLog ⟨js "3", js "1", .READY, 0⟩) (.ok ()),
    .call (.access (js "/code-files/0.dart")) (.ok ()), .op .ulid (js "4"), .op .now (0 : Nat),
    .call (.saveStatusLog ⟨js "4", js "1", .RUNNING, 0⟩) (.ok ()),
    .call (.createContainer (js "/code-files/0.dart")) (.ok (0 : Nat)),
    .call (.startContainer 0) started]

/-- The outer handler. -/
def saveFailure (message : String) : Trace :=
  [.op .now (0 : Nat),
    .call (.updateJob (js "1") ⟨none, some (js message), -1, 0⟩) (.ok ()), .op .ulid (js "5"),
    .op .now (0 : Nat), .call (.saveStatusLog ⟨js "5", js "1", .FAILED, 0⟩) (.ok ())]

/-- The log cannot be read. -/
def logsRefused : Trace :=
  containerCreated (.ok ()) ++ [.call (.waitOrTimeout 0) (.ok (0 : Int)),
    .call (.containerLogs 0) (.error noContainer)] ++ saveFailure "No such container"

theorem container_removed_iff_logs_refused :
    ∃ tr x, (processJob Config.plain (js "1")).Finishes tr x ∧
      ¬ ∃ answer, Happening.call (A := sig) (Cmd.removeContainer 0) answer ∈ tr := by
  have hrun : (processJob Config.plain (js "1")).Finishes logsRefused (.error noContainer) :=
    .call (.op (.op (.call (.call (.op (.op (.call (.call (.call (.call (.call (.op (.call (.op (.op
      (.call (.refl _)))))))))))))))))
  refine ⟨logsRefused, _, hrun, fun h => ?_⟩
  have hcreated : Happening.call (A := sig) (Cmd.createContainer (js "/code-files/0.dart"))
      (.ok (0 : Nat)) ∈ logsRefused := by simp [logsRefused, containerCreated]
  refine ((container_removed_iff Config.plain (js "1") logsRefused _ _ 0 hrun hcreated).mp h).2
    noContainer ?_
  simp [logsRefused]

/-- The upload is taken, and its container cannot be started. -/
def startRefused : List (services Config.plain).Event :=
  .call (.processJob (js "1")) :: (List.replicate 5 (.resume 1 .done) ++
    .resume 1 (.fails (js "Error") (js "no space left on device")) ::
      List.replicate 2 (.resume 1 .done))

/-- The container that cannot be started is left behind. -/
theorem container_left_behind :
    (∃ tr x, (processJob Config.plain (js "1")).Finishes tr x ∧
      Happening.call (A := sig) (Cmd.createContainer (js "/code-files/0.dart")) (.ok (0 : Nat)) ∈ tr ∧
      ∀ answer, Happening.call (A := sig) (Cmd.removeContainer 0) answer ∉ tr) ∧
    ∃ σ, Service.run (start Config.plain) (firstUpload ++ startRefused) = some σ ∧
      (∀ p ∈ σ.procs, ¬ p.Live) ∧ σ.shared.containers.map Container.removed = [false] := by
  have hend : (Service.run (start Config.plain) (firstUpload ++ startRefused)).map (fun σ =>
      (decide (∀ p ∈ σ.procs, ¬ p.Live), σ.shared.containers.map Container.removed)) =
      some (true, [false]) := by decide +kernel
  obtain ⟨σ, hσ, hpair⟩ := Option.map_eq_some_iff.mp hend
  obtain ⟨hlive, hremoved⟩ := Prod.mk.inj hpair
  have hrun : (processJob Config.plain (js "1")).Finishes
      (containerCreated (.error (.failure (js "Error") (js "no space left on device"))) ++
        saveFailure "no space left on device")
      (.error (.failure (js "Error") (js "no space left on device"))) :=
    .call (.op (.op (.call (.call (.op (.op (.call (.call (.call (.op (.call (.op (.op
      (.call (.refl _)))))))))))))))
  refine ⟨⟨_, _, hrun, ?_, ?_⟩, σ, hσ, of_decide_eq_true hlive, hremoved⟩
  · simp [containerCreated]
  · simp [containerCreated, saveFailure]

end FullstackSvc.Execution
