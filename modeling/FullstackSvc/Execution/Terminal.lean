import FullstackSvc.Execution.Reachable

/-!
# Terminal statuses

A run of the worker that is alone on its job and does not lose the race with the
timer saves one terminal entry, and saves it last.  `OneRun` is that condition
on the schedule: an entry is taken only when no other run of the job can still
act and its log has no terminal entry, and no `waitOrTimeout` fails.

* `terminalStages`: the log has no terminal entry up to the last save.
* `terminal_absorbing`: in such runs a terminal entry is the last one for good,
  and it is what the client reports.
-/

namespace FullstackSvc.Execution

open Text Async

variable {C : Config} {pid pid' : Nat} {s s' s'' : World} {jobId : JsString}

/-! ### Logs -/

/-- No entry is terminal. -/
def NoTerminal (logs : List ExecutionJobStatusLog) : Prop :=
  ∀ log ∈ logs, log.status.isTerminal = false

instance (logs : List ExecutionJobStatusLog) : Decidable (NoTerminal logs) := List.decidableBAll _ _

/-- Nothing comes after a terminal entry. -/
def Absorbing (logs : List ExecutionJobStatusLog) : Prop :=
  ∀ l₁ log l₂, logs = l₁ ++ log :: l₂ → log.status.isTerminal = true → l₂ = []

theorem NoTerminal.absorbing {logs : List ExecutionJobStatusLog} (h : NoTerminal logs) :
    Absorbing logs := by
  rintro l₁ log l₂ rfl hlog
  have := h log (List.mem_append_right _ (List.mem_cons_self ..))
  rw [hlog] at this
  cases this

/-- One entry more, whatever it is. -/
theorem NoTerminal.absorbing_concat {logs : List ExecutionJobStatusLog} (h : NoTerminal logs)
    (log : ExecutionJobStatusLog) : Absorbing (logs ++ [log]) := by
  intro l₁ log' l₂ he hlog
  rcases List.eq_nil_or_concat l₂ with rfl | ⟨l₃, last, rfl⟩
  · rfl
  · rw [List.concat_eq_append] at he
    have he' : logs ++ [log] = (l₁ ++ log' :: l₃) ++ [last] := by
      rw [he, List.append_assoc, List.cons_append]
    have hlogs := (List.append_inj' he' rfl).1
    have := h log' (by rw [hlogs]; exact List.mem_append_right _ (List.mem_cons_self ..))
    rw [hlog] at this
    cases this

/-- The terminal entry is the last one. -/
theorem Absorbing.getLast? {logs : List ExecutionJobStatusLog} (h : Absorbing logs)
    {log : ExecutionJobStatusLog} (hm : log ∈ logs) (hlog : log.status.isTerminal = true) :
    logs.getLast? = some log := by
  obtain ⟨l₁, l₂, rfl⟩ := List.append_of_mem hm
  obtain rfl := h l₁ log l₂ rfl hlog
  exact List.getLast?_concat

/-- No job has an entry after a terminal one. -/
def Settles (s : World) : Prop := ∀ jobId, Absorbing (s.logsOf jobId)

theorem logsOf_append {l : List ExecutionJobStatusLog} (h : s'.logs = s.logs ++ l)
    (jobId : JsString) :
    s'.logsOf jobId = s.logsOf jobId ++ l.filter fun log => log.jobId = jobId := by
  rw [World.logsOf, World.logsOf, h, List.filter_append]

/-- A job without a row has no entry. -/
theorem logsOf_eq_nil (hs : Sound C s) (h : ∀ k ∈ s.keys, k.id ≠ jobId) : s.logsOf jobId = [] := by
  rw [World.logsOf, List.filter_eq_nil_iff]
  intro log hlog he
  obtain ⟨k, hk, hid⟩ := hs.logged log hlog
  exact h k hk (hid.trans (of_decide_eq_true he))

/-! ### The outline -/

/-- A process adds entries only to the log of a job that it holds, or that has
no row yet. -/
structure Holding (pid : Nat) (s s' : World) : Prop where
  settles : Settles s → Settles s'
  logs : ∃ l, s'.logs = s.logs ++ l ∧
    ∀ log ∈ l, s.taken log.jobId = some pid ∨ ∀ k ∈ s.keys, k.id ≠ log.jobId

theorem Holding.of_logs (h : s'.logs = s.logs) : Holding pid s s' :=
  ⟨fun hs j => by rw [World.logsOf, h]; exact hs j, [], by simp [h], by simp⟩

theorem Holding.trans {c : Request} (hg : Guar C pid c s s') (h : Holding pid s s')
    (h' : Holding pid s' s'') : Holding pid s s'' := by
  obtain ⟨l, hl, hheld⟩ := h.logs
  obtain ⟨m, hm, hheld'⟩ := h'.logs
  refine ⟨fun hs => h'.settles (h.settles hs), l ++ m, by rw [hm, hl, List.append_assoc],
    fun log hlog => ?_⟩
  rcases List.mem_append.mp hlog with hlog | hlog
  · exact hheld log hlog
  · obtain ⟨n, hn, -⟩ := hg.keys
    rcases hheld' log hlog with ht | hno
    · exact Or.inl (hg.taken ▸ ht)
    · exact Or.inr fun k hk => hno k (hn ▸ List.mem_append_left _ hk)

/-- The log of a job that another process holds is left alone. -/
theorem Holding.logsOf_eq (hs : Sound C s) (h : Holding pid s s') (hne : pid ≠ pid')
    (ht : s.taken jobId = some pid') : s'.logsOf jobId = s.logsOf jobId := by
  obtain ⟨l, hl, hheld⟩ := h.logs
  have hnil : (l.filter fun log => log.jobId = jobId) = [] := by
    rw [List.filter_eq_nil_iff]
    intro log hlog he
    obtain rfl := of_decide_eq_true he
    rcases hheld log hlog with ht' | hno
    · exact hne (Option.some.inj (ht'.symm.trans ht))
    · obtain ⟨k, hk, hid⟩ := hs.published _ (Or.inr (by rw [ht]; rfl))
      exact hno k hk hid
  rw [logsOf_append hl, hnil, List.append_nil]

/-- New rows with `QUEUED` entries settle nothing. -/
theorem Adds.holding (hs : Sound C s) (h : Adds s s') : Holding pid s s' := by
  obtain ⟨l, hl, hq⟩ := h.logs
  refine ⟨fun hset j => ?_, l, hl, fun log hlog => Or.inr (hq log hlog).2⟩
  rw [logsOf_append hl]
  by_cases hnil : (l.filter fun log => log.jobId = j) = []
  · rw [hnil, List.append_nil]
    exact hset j
  · obtain ⟨log, hlog⟩ := List.exists_mem_of_ne_nil _ hnil
    obtain ⟨hmem, hid⟩ := List.mem_filter.mp hlog
    obtain rfl := of_decide_eq_true hid
    rw [logsOf_eq_nil hs (hq log hmem).2, List.nil_append]
    refine NoTerminal.absorbing fun log' hlog' => ?_
    rw [(hq log' (List.mem_filter.mp hlog').1).1]
    rfl

/-- The race between the container and the timer. -/
def Cmd.isRace : Cmd → Bool
  | .waitOrTimeout _ => true
  | _ => false

/-- An entry is taken only when no other run of the job can still act and its
log has no terminal entry, and the race is never lost. -/
def OneRun (σ : (services C).Sys) : (services C).Event → Prop
  | .call (.processJob jobId) =>
    (∀ p ∈ σ.procs, p.call = Request.processJob jobId → ¬ p.Live) ∧
      NoTerminal (σ.shared.logsOf jobId)
  | .resume pid r => ∀ c ∈ σ.pending pid, c.isRace = true → r = .done
  | _ => True

instance (σ : (services C).Sys) : (e : (services C).Event) → Decidable (OneRun σ e)
  | .call (.processJob jobId) => inferInstanceAs (Decidable
      ((∀ p ∈ σ.procs, p.call = Request.processJob jobId → ¬ p.Live) ∧
        NoTerminal (σ.shared.logsOf jobId)))
  | .call (.createExecutionJob _ _) => isTrue trivial
  | .resume pid r =>
    inferInstanceAs (Decidable (∀ c ∈ σ.pending pid, c.isRace = true → r = .done))
  | .env _ => isTrue trivial
  | .kill _ => isTrue trivial

def terminalOutline (C : Config) : Outline (services C) where
  ok σ e := Linked σ ∧ OneRun σ e
  cmdOk _ c r _ := c.isRace = true → r = .done
  inv s := Sound C s ∧ Settles s
  rely pid c s s' := Rely C pid s s' ∧ ∀ jobId, c = .processJob jobId →
    s.taken jobId = some pid → s'.taken jobId = some pid ∧ s'.logsOf jobId = s.logsOf jobId
  guar pid c s s' := Guar C pid c s s' ∧ Holding pid s s'
  need _ _ _ _ := True
  change s s' := ∃ l, s'.logs = s.logs ++ l
  done _ _ _ _ := True

theorem closed_terminal {c : Request} : ((terminalOutline C).ctx pid c).Closed where
  refl _ := ⟨.refl, .of_logs rfl⟩
  trans _ _ _ h h' := ⟨h.1.trans h'.1, h.2.trans h.1 h'.2⟩
  inv _ _ hi hg := ⟨hg.1.sound hi.1, hg.2.settles hi.2⟩

/-- A creation does what it did before. -/
theorem fits_terminal {c : Request} (hc : ∀ jobId, c ≠ .processJob jobId) :
    (context C False pid c).Fits ((terminalOutline C).ctx pid c) where
  inv _ h := h.1
  rely _ _ h := h.1
  guar _ _ hi := ⟨fun h => h.1, fun h => ⟨h, (h.adds hc).holding hi.1⟩⟩
  need _ _ _ _ := trivial
  ok _ _ _ _ h := h.elim

/-! ### One run -/

/-- A run that holds its job, whose log has no terminal entry. -/
def Pending (pid : Nat) (jobId : JsString) (s : World) : Prop :=
  Working pid jobId s ∧ s.taken jobId = some pid ∧ NoTerminal (s.logsOf jobId)

abbrev Settling (C : Config) (pid : Nat) (jobId : JsString) {α : Type} (pre : World → Prop)
    (p : Program α) (ok : α → World → Prop) (err : JsError → World → Prop) : Prop :=
  Prog.Triple (host C) pid ((terminalOutline C).ctx pid (.processJob jobId)) pre p ok err

theorem Pending.guar (h : Pending pid jobId s) (hg : Guar C pid (.processJob jobId) s s')
    (hl : s'.logs = s.logs) : Pending pid jobId s' :=
  ⟨steady_working.guar s s' h.1 hg, by rw [hg.taken]; exact h.2.1,
    by rw [World.logsOf, hl]; exact h.2.2⟩

theorem stable_pending :
    ((terminalOutline C).ctx pid (.processJob jobId)).Stable (Pending pid jobId) := by
  rintro s s' h ⟨hr, hkept⟩ -
  obtain ⟨ht, hl⟩ := hkept jobId rfl h.2.1
  exact ⟨steady_working.rely s s' h.1 hr, ht, by rw [hl]; exact h.2.2⟩

/-- A call that saves no entry. -/
theorem settling_await {c : Cmd} (hc : WorkerCmd c) (hne : ∀ row, c ≠ .saveStatusLog row) :
    Settling C pid jobId (Pending pid jobId) (await c) (fun _ => Pending pid jobId)
      fun _ => Pending pid jobId := by
  refine Prog.Triple.call stable_pending (fun _ _ _ => trivial) fun s r x s' _ hs _ hx => ?_
  have hw := workerStep hc hx
  have hl : s'.logs = s.logs := by
    cases hw with
    | quiet h _ => exact h.same.logs
    | saved _ => exact absurd rfl (hne _)
    | updated => rfl
  have hs' := hs.guar (C := C) hw.guar hl
  refine ⟨⟨hw.guar, .of_logs hl⟩, ?_⟩
  cases x with
  | ok a => exact hs'
  | error e => exact hs'

/-- An entry that is saved on a log without a terminal entry. -/
theorem settling_save {row : ExecutionJobStatusLog} (hid : row.jobId = jobId) :
    Settling C pid jobId (Pending pid jobId) (await (.saveStatusLog row))
      (fun _ s => row.status.isTerminal = false → Pending pid jobId s)
      fun _ => Pending pid jobId := by
  subst hid
  refine Prog.Triple.call stable_pending (fun _ _ _ => trivial) fun s r x s' _ hs _ hx => ?_
  have hw := workerStep (c := .saveStatusLog row) trivial hx
  rcases perform_saveStatusLog hx with ⟨rfl, -, rfl⟩ | ⟨e, rfl, -, rfl⟩
  · refine ⟨⟨hw.guar, fun hset j => ?_, [row], rfl, fun log hlog => Or.inl ?_⟩, fun hst => ?_⟩
    · rw [World.logsOf_of_append (s := s) rfl]
      split
      · rename_i hj
        subst hj
        exact hs.2.2.absorbing_concat row
      · rw [List.append_nil]
        exact hset j
    · rw [List.mem_singleton.mp hlog]
      exact hs.2.1
    · refine ⟨hs.1, hs.2.1, fun log hlog => ?_⟩
      rw [World.logsOf_of_append (s := s) rfl, if_pos rfl] at hlog
      rcases List.mem_append.mp hlog with hlog | hlog
      · exact hs.2.2 log hlog
      · rw [List.mem_singleton.mp hlog]
        exact hst
  · exact ⟨⟨.refl, .of_logs rfl⟩, hs⟩

theorem draws_pending :
    Draws pid ((terminalOutline C).ctx pid (.processJob jobId)) (Pending pid jobId) :=
  fun _ _ hs => ⟨⟨guar_draw hs.1.1, .of_logs rfl⟩, hs.guar (C := C) (guar_draw hs.1.1) rfl⟩

theorem settling_createStatusLog {status : ExecutionJobStatus} :
    Settling C pid jobId (Pending pid jobId) (createStatusLog jobId status)
      (fun _ s => status.isTerminal = false → Pending pid jobId s) fun _ => Pending pid jobId :=
  triple_createStatusLog closed_terminal draws_pending fun _ _ => settling_save rfl

theorem settling_updateResult {output error : Option JsString} {exitCode : Int} :
    Settling C pid jobId (Pending pid jobId) (updateResult jobId output error exitCode)
      (fun _ => Pending pid jobId) fun _ => Pending pid jobId :=
  triple_updateResult closed_terminal fun _ => settling_await trivial fun _ he => by cases he

/-- The run has a container. -/
def Started (pid : Nat) (jobId : JsString) (n : Nat) (s : World) : Prop :=
  Pending pid jobId s ∧ ∃ c, s.containers[n]? = some c

theorem stable_started {n : Nat} :
    ((terminalOutline C).ctx pid (.processJob jobId)).Stable (Started pid jobId n) := by
  rintro s s' ⟨hp, c, hc⟩ hr hi
  obtain ⟨c', hc', -⟩ := hr.1.containers n c hc
  exact ⟨stable_pending s s' hp hr hi, c', hc'⟩

theorem settling_create {file : JsString} :
    Settling C pid jobId (Pending pid jobId) (await (.createContainer file)) (Started pid jobId)
      fun _ => Pending pid jobId := by
  refine Prog.Triple.call stable_pending (fun _ _ _ => trivial) fun s r x s' _ hs _ hx => ?_
  have hw := workerStep (c := .createContainer file) trivial hx
  rcases perform_createContainer hx with ⟨rfl, rfl⟩ | ⟨e, rfl, -, rfl⟩
  · exact ⟨⟨hw.guar, .of_logs rfl⟩, hs.guar (C := C) hw.guar rfl, _, List.getElem?_concat_length⟩
  · exact ⟨⟨.refl, .of_logs rfl⟩, hs⟩

theorem settling_start {n : Nat} :
    Settling C pid jobId (Started pid jobId n) (await (.startContainer n))
      (fun _ => Started pid jobId n) fun _ => Pending pid jobId := by
  refine Prog.Triple.call stable_started (fun _ _ _ => trivial) fun s r x s' _ hs _ hx => ?_
  have hw := workerStep (c := .startContainer n) trivial hx
  rcases perform_startContainer hx with ⟨rfl, f, -, rfl⟩ | ⟨e, rfl, -, rfl⟩
  · obtain ⟨c, hc⟩ := hs.2
    have hg : Guar C pid (.processJob jobId) _ _ := hw.guar
    obtain ⟨c', hc', -⟩ := hg.containers n c hc
    exact ⟨⟨hg, .of_logs rfl⟩, hs.1.guar (C := C) hw.guar rfl, c', hc'⟩
  · exact ⟨⟨.refl, .of_logs rfl⟩, hs.1⟩

/-- In time, the race is won. -/
theorem settling_wait {n : Nat} :
    Settling C pid jobId (Started pid jobId n) (await (.waitOrTimeout n))
      (fun _ => Pending pid jobId) fun _ _ => False := by
  refine Prog.Triple.call stable_started (fun _ _ _ => trivial) fun s r x s' _ hs hr hx => ?_
  obtain rfl := hr rfl
  obtain ⟨c, hc⟩ := hs.2
  have hx : (c.exited.map fun code => ((.ok code : Except JsError Int), s)) = some (x, s') := by
    have hd : performDone pid (.waitOrTimeout n) s = some (x, s') := hx
    rw [performDone, hc] at hd
    exact hd
  obtain ⟨code, -, he⟩ := Option.map_eq_some_iff.mp hx
  obtain ⟨rfl, rfl⟩ := Prod.mk.inj he
  exact ⟨⟨.refl, .of_logs rfl⟩, hs.1⟩

theorem settling_findJob :
    Settling C pid jobId (Pending pid jobId) (await (.findJob jobId)) (fun _ => Pending pid jobId)
      fun _ => Pending pid jobId := by
  refine Prog.Triple.call stable_pending (fun _ _ _ => trivial) fun s r x s' _ hs _ hx => ?_
  rcases perform_findJob hx with ⟨rfl, rfl⟩ | ⟨e, rfl, -, rfl⟩
  · exact ⟨⟨.refl, .of_logs rfl⟩, hs⟩
  · exact ⟨⟨.refl, .of_logs rfl⟩, hs⟩

theorem settling_access {path : JsString} :
    Settling C pid jobId (Pending pid jobId) (await (.access path)) (fun _ => Pending pid jobId)
      fun _ => Pending pid jobId := by
  refine Prog.Triple.call stable_pending (fun _ _ _ => trivial) fun s r x s' _ hs _ hx => ?_
  rcases perform_access hx with ⟨rfl, rfl⟩ | ⟨e, rfl, -, rfl⟩ | ⟨rfl, -, rfl⟩
  · exact ⟨⟨.refl, .of_logs rfl⟩, hs⟩
  · exact ⟨⟨.refl, .of_logs rfl⟩, hs⟩
  · exact ⟨⟨.refl, .of_logs rfl⟩, hs⟩

/-- No terminal entry up to the last save. -/
def terminalStages (pid : Nat) (jobId : JsString) : Stages where
  begun := Pending pid jobId
  found _ := Pending pid jobId
  created _ := Started pid jobId
  exited _ _ _ := Pending pid jobId
  collected _ _ _ := Pending pid jobId
  late _ _ := False
  lateSaved _ _ := False
  succeeded := Pending pid jobId
  errored := Pending pid jobId
  finished _ := True
  caught _ := Pending pid jobId
  caughtSaved _ := Pending pid jobId
  failed _ _ := True

/-- What never happens may be followed by anything. -/
theorem settling_of_false {α : Type} {p : Program α} {ok : α → World → Prop}
    {err : JsError → World → Prop} : Settling C pid jobId (fun _ => False) p ok err :=
  fun _ _ _ _ h => h.elim

theorem valid_terminalStages : (terminalStages pid jobId).Valid C pid
    ((terminalOutline C).ctx pid (.processJob jobId)) jobId where
  find := settling_findJob.mono (fun _ h => h)
    (fun found _ h => by cases found <;> exact h) fun _ _ h => h
  ready _ := settling_createStatusLog.mono (fun _ h => h) (fun _ _ h => h rfl) fun _ _ h => h
  access _ := settling_access
  run _ := settling_createStatusLog.mono (fun _ h => h) (fun _ _ h => h rfl) fun _ _ h => h
  create _ := settling_create
  start _ _ := settling_start
  wait _ _ := settling_wait
  kill _ _ := settling_of_false
  removeLate _ _ := settling_of_false
  saveLate _ := settling_of_false
  logLate _ := settling_of_false
  logs _ _ _ := settling_await trivial fun _ h => by cases h
  remove _ _ _ _ := settling_await trivial fun _ h => by cases h
  saveOutput _ _ := settling_updateResult
  logSuccess := settling_createStatusLog.mono (fun _ h => h) (fun _ _ _ => trivial) fun _ _ h => h
  saveError _ _ _ _ := settling_updateResult
  logError := settling_createStatusLog.mono (fun _ h => h) (fun _ _ _ => trivial) fun _ _ h => h
  saveCaught _ := settling_updateResult.mono (fun _ h => h) (fun _ _ h => h) fun _ _ _ => trivial
  logCaught _ := settling_createStatusLog.mono (fun _ h => h) (fun _ _ _ => trivial)
    fun _ _ _ => trivial

/-! ### Runs -/

theorem settles_of_logs (h : s'.logs = s.logs) (hs : Settles s) : Settles s' :=
  fun j => by rw [World.logsOf, h]; exact hs j

theorem terminal_goal {σ : (services C).Sys} {c : Request} {s : World} (hl : Linked σ)
    (hone : OneRun σ (.call c)) (hi : (terminalOutline C).inv σ.shared)
    (h : World.accept σ.procs.length c σ.shared = some s) :
    ((services C).body c).wp (host C) σ.procs.length ((terminalOutline C).ctx σ.procs.length c)
      ((terminalOutline C).goal σ.procs.length c) s s := by
  have ha := arrives h
  have hi' : (terminalOutline C).inv s := ⟨ha.sound hi.1, settles_of_logs ha.logs hi.2⟩
  cases c with
  | createExecutionJob userId file =>
    obtain ⟨hext, hc⟩ := creating_of_accept hl hi.1 h
    have hp : Proves C False σ.procs.length (.createExecutionJob userId file)
        (Creating C σ.procs.length userId file) (createExecutionJob C userId file) _ _ :=
      proves_createExecutionJob hext
    have hp := hp.of_fits (fits_terminal fun _ he => by cases he)
    exact Outline.goal_of_triple (O := terminalOutline C) closed_terminal
      (hp.mono (fun _ h => h) (fun _ _ _ => trivial) fun _ _ _ => trivial) hi' hc
  | processJob jobId =>
    obtain ⟨hw, ht⟩ := working_of_accept hl h
    have hno : NoTerminal (s.logsOf jobId) := by
      rw [World.logsOf, ha.logs]
      exact hone.2
    exact Outline.goal_of_triple (O := terminalOutline C) closed_terminal
      (triple_processJob valid_terminalStages) hi' ⟨hw, ht, hno⟩

/-- Another entry that is taken leaves the holders as they are. -/
theorem taken_of_accept {σ : (services C).Sys} {c : Request} {s : World} (hone : OneRun σ (.call c))
    (h : World.accept σ.procs.length c σ.shared = some s) {p : (services C).Proc}
    (hp : σ.procs[pid]? = some p) (hlive : p.Live) (hj : p.call = .processJob jobId)
    (ht : σ.shared.taken jobId = some pid) : s.taken jobId = some pid := by
  cases c with
  | createExecutionJob userId file => rw [taken_creation h, ht]
  | processJob j =>
    by_cases hjob : jobId = j
    · subst hjob
      exact absurd hlive (hone.1 p (List.mem_of_getElem? hp) hj)
    · rw [taken_process h, Function.update_of_ne hjob, ht]

theorem valid_terminalOutline : (terminalOutline C).Valid where
  rely_refl := ⟨.refl, fun _ _ ht => ⟨ht, rfl⟩⟩
  rely_trans h h' := ⟨h.1.trans h'.1, fun j hc ht => by
    obtain ⟨ht', hl⟩ := h.2 j hc ht
    obtain ⟨ht'', hl'⟩ := h'.2 j hc ht'
    exact ⟨ht'', hl'.trans hl⟩⟩
  cmdOk_of_ok hok hp := hok.2 _ (Service.pending_of_await hp)
  guar_inv hi hg := ⟨hg.1.sound hi.1, hg.2.settles hi.2⟩
  guar_rely hne hi hg := ⟨hg.1.rely hne, fun j _ ht =>
    ⟨hg.1.taken ▸ ht, hg.2.logsOf_eq hi.1 hne ht⟩⟩
  change_refl := ⟨[], by simp⟩
  change_trans := by
    rintro s s' s'' ⟨l, hl⟩ ⟨m, hm⟩
    exact ⟨l ++ m, by rw [hm, hl, List.append_assoc]⟩
  guar_change _ hg := hg.2.logs.imp fun _ h => h.1
  guar_done _ _ _ _ := trivial
  accept h hok ha :=
    have har := arrives ha
    ⟨⟨har.sound h.1.1, settles_of_logs har.logs h.1.2⟩, ⟨[], by simp [har.logs]⟩,
      fun pid p hp => ⟨fun hlive => ⟨har.rely pid, fun j hj ht =>
        ⟨taken_of_accept hok.2 ha hp hlive hj ht, by rw [World.logsOf, har.logs, World.logsOf]⟩⟩,
        fun _ _ => trivial⟩, terminal_goal hok.1 hok.2 h.1 ha⟩
  env h _ he :=
    have hq := quiet_env he
    ⟨⟨hq.same.sound h.1.1, settles_of_logs hq.same.logs h.1.2⟩, ⟨[], by simp [hq.same.logs]⟩,
      fun pid _ _ => ⟨fun _ => ⟨hq.rely pid, fun j _ ht =>
        ⟨hq.same.taken ▸ ht, by rw [World.logsOf, hq.same.logs, World.logsOf]⟩⟩,
        fun _ _ => trivial⟩⟩

theorem terminal_of_reaches {σ σ' : (services C).Sys} (hl : Linked σ)
    (hh : (terminalOutline C).Holds σ) (h : Service.Reaches OneRun σ σ') :
    (Linked σ' ∧ (terminalOutline C).Holds σ') ∧ ∃ l, σ'.shared.logs = σ.shared.logs ++ l := by
  obtain ⟨hl', hr⟩ := h.strengthen (fun _ _ _ => linked_step) hl
  exact ⟨⟨hl', Outline.holds_of_reaches valid_terminalOutline hh hr⟩,
    Outline.change_of_reaches valid_terminalOutline hh hr⟩

theorem terminal_start : (terminalOutline C).Holds (start C) :=
  Outline.holds_of_inv ⟨sound_initial, fun _ => NoTerminal.absorbing fun _ h => by cases h⟩

/-! ### What the client sees -/

/-- A reported status is that of an entry. -/
theorem mem_of_reportedStatus {logs : List ExecutionJobStatusLog} {status : ExecutionJobStatus}
    (h : reportedStatus logs = some status) : ∃ log ∈ logs, log.status = status := by
  obtain ⟨log, hlog, rfl⟩ := Option.map_eq_some_iff.mp h
  exact ⟨log, (List.mergeSort_perm logs _).mem_iff.mp (List.mem_of_getLast? hlog), rfl⟩

/-- The status of the last entry that was saved. -/
def finalStatus (logs : List ExecutionJobStatusLog) : Option ExecutionJobStatus :=
  logs.getLast?.map ExecutionJobStatusLog.status

/-- There is one terminal entry at most. -/
theorem Absorbing.length_le_one {logs : List ExecutionJobStatusLog} (h : Absorbing logs) :
    (logs.filter fun log => log.status.isTerminal).length ≤ 1 := by
  induction logs with
  | nil => simp
  | cons log logs ih =>
    by_cases hlog : log.status.isTerminal = true
    · obtain rfl := h [] log logs rfl hlog
      simp [hlog]
    · rw [List.filter_cons_of_neg (p := fun log : ExecutionJobStatusLog => log.status.isTerminal)
        hlog]
      exact ih fun l₁ log' l₂ he => h (log :: l₁) log' l₂ (by rw [he, List.cons_append])

/-- A snapshot with a terminal status shows the status that the job keeps. -/
theorem finalStatus_of_snapshot {σ σ' : (services C).Sys}
    (h : Service.Reaches OneRun (start C) σ) (h' : Service.Reaches OneRun σ σ')
    {logs : List ExecutionJobStatusLog} (hp : logs.Perm (σ.shared.logsOf jobId))
    {status : Option ExecutionJobStatus} (hr : reportedStatus logs = status)
    (ht : isTerminal status = true) : finalStatus (σ'.shared.logsOf jobId) = status := by
  obtain ⟨⟨hl, hh⟩, -⟩ := terminal_of_reaches linked_start terminal_start h
  obtain ⟨⟨-, hh'⟩, l, hgrow⟩ := terminal_of_reaches hl hh h'
  cases status with
  | none => cases ht
  | some status =>
    obtain ⟨log, hlog, rfl⟩ := mem_of_reportedStatus hr
    have hmem : log ∈ σ'.shared.logsOf jobId := by
      rw [logsOf_append hgrow]
      exact List.mem_append_left _ (hp.mem_iff.mp hlog)
    rw [finalStatus, (hh'.1.2 jobId).getLast? hmem ht]
    rfl

/-- **Terminal statuses are absorbing.**  As long as no entry is taken while
another run of its job can act, or after a terminal entry, and no race is lost,
the log of a job has at most one terminal entry, nothing comes after it, and the
status that polling returns is the one that the job keeps. -/
theorem terminal_absorbing (C : Config) (jobId : JsString) :
    (∀ σ : (services C).Sys, Service.Reaches OneRun (start C) σ →
      Absorbing (σ.shared.logsOf jobId) ∧
        ((σ.shared.logsOf jobId).filter fun log => log.status.isTerminal).length ≤ 1) ∧
    ∀ (maxAttempts : Nat) (answers : List ((services C).Sys × List ExecutionJobStatusLog)),
      (∀ a ∈ answers, Service.Reaches OneRun (start C) a.1 ∧
        a.2.Perm (a.1.shared.logsOf jobId)) →
      ∀ status, pollUntilComplete maxAttempts (answers.map fun a => reportedStatus a.2) =
          some status →
        ∃ a ∈ answers, reportedStatus a.2 = status ∧
          ∀ σ', Service.Reaches OneRun a.1 σ' → finalStatus (σ'.shared.logsOf jobId) = status := by
  refine ⟨fun σ h => ?_, fun maxAttempts answers hanswers status hpoll => ?_⟩
  · obtain ⟨⟨-, hh⟩, -⟩ := terminal_of_reaches linked_start terminal_start h
    exact ⟨hh.1.2 jobId, (hh.1.2 jobId).length_le_one⟩
  · have hterm : isTerminal status = true := by
      have := List.find?_some hpoll
      exact this
    obtain ⟨a, ha, hr⟩ := List.mem_map.mp (List.mem_of_mem_take (List.mem_of_find?_eq_some hpoll))
    obtain ⟨hreach, hperm⟩ := hanswers a ha
    exact ⟨a, ha, hr, fun σ' h' => finalStatus_of_snapshot hreach h' hperm hr hterm⟩

/-- The upload is taken, and its container exits with code 0. -/
def firstExecution : List (services Config.plain).Event :=
  .call (.processJob (js "1")) :: (List.replicate 6 (.resume 1 .done) ++
    .env (.exits 0 0) :: List.replicate 5 (.resume 1 .done))

theorem terminal_absorbing_first_execution :
    ∃ σ, Service.runIf OneRun (start Config.plain) (firstUpload ++ firstExecution) = some σ ∧
      finalStatus (σ.shared.logsOf (js "1")) = some .FINISHED_WITH_SUCCESS ∧
      Absorbing (σ.shared.logsOf (js "1")) := by
  have hfinal : (Service.runIf OneRun (start Config.plain) (firstUpload ++ firstExecution)).map
      (fun σ => finalStatus (σ.shared.logsOf (js "1"))) = some (some .FINISHED_WITH_SUCCESS) := by
    decide +kernel
  obtain ⟨σ, hσ, hstatus⟩ := Option.map_eq_some_iff.mp hfinal
  exact ⟨σ, hσ, hstatus,
    ((terminal_absorbing Config.plain (js "1")).1 σ (Service.reaches_of_runIf hσ)).1⟩

/-- The upload is taken, and the timer is faster than its container. -/
def lateExecution : List (services Config.plain).Event :=
  .call (.processJob (js "1")) :: (List.replicate 6 (.resume 1 .done) ++
    .resume 1 .timeout :: List.replicate 6 (.resume 1 .done))

/-- A lost race saves two terminal entries. -/
theorem terminal_not_absorbing_after_timeout :
    ∃ σ, Service.Reaches Service.anyEvent (start Config.plain) σ ∧
      ¬ Absorbing (σ.shared.logsOf (js "1")) := by
  have hlate : (Service.run (start Config.plain) (firstUpload ++ lateExecution)).map
      (fun σ => (σ.shared.logsOf (js "1")).map ExecutionJobStatusLog.status) =
        some [.QUEUED, .READY, .RUNNING, .FINISHED_WITH_ERROR, .FAILED] := by decide +kernel
  obtain ⟨σ, hσ, hlogs⟩ := Option.map_eq_some_iff.mp hlate
  refine ⟨σ, Service.reaches_of_run hσ fun _ _ _ => trivial, fun h => ?_⟩
  have hlen := h.length_le_one
  have htwo : ((σ.shared.logsOf (js "1")).map ExecutionJobStatusLog.status).filter
      ExecutionJobStatus.isTerminal = [.FINISHED_WITH_ERROR, .FAILED] := by rw [hlogs]; rfl
  have hlen₂ : ((σ.shared.logsOf (js "1")).filter fun log => log.status.isTerminal).length = 2 := by
    rw [List.filter_map] at htwo
    simpa [Function.comp_def] using congrArg List.length htwo
  omega

end FullstackSvc.Execution
