import FullstackSvc.Execution.Job
import FullstackSvc.Execution.Ownership

/-!
# Publishing a job

`createExecutionJob` writes the file, commits the row with its `QUEUED` entry
and only then adds the entry to the queue.  The outline of the two services
says what each of them has at every await; `strict` restricts the runs to those
in which adding to the queue never fails.

* `proves_createExecutionJob`, `proves_processJob`: the two programs.
-/

namespace FullstackSvc.Execution

open Text Async

variable {C : Config} {pid : Nat} {s s' : World}

/-! ### The outline -/

/-- No row carries an id of the process. -/
def NoRow (C : Config) (pid : Nat) (s : World) : Prop := ∀ k ∈ s.keys, ¬ s.Owns C pid k.id

/-- Every row with an id of the process is published. -/
def NothingStuck (C : Config) (pid : Nat) (s : World) : Prop :=
  ∀ k ∈ s.keys, s.Owns C pid k.id → s.Published k.id

/-- What a call has achieved once it is over. -/
def Achieved (C : Config) (strict : Prop) (pid : Nat) :
    (c : Request) → Except JsError ((services C).Ret c) → World → Prop
  | .createExecutionJob _ _, _, s => strict → NothingStuck C pid s
  | .processJob _, x, _ => ∀ e, x = .error e → e.Ordinary

/-- Adding to the queue succeeds. -/
def AddsToQueue (σ : (services C).Sys) (e : (services C).Event) : Prop :=
  ∀ pid r jobId, e = .resume pid r → σ.pending pid = some (.addToQueue jobId) → r = .done

/-- The record of requests is that of the processes. -/
def Linked (σ : (services C).Sys) : Prop :=
  σ.shared.calls = σ.procs.map Service.Proc.call

/-- A job is looked up when it has a row, and a file is looked for when it is
there. -/
def Needs : Cmd → World → Prop
  | .findJob jobId, s => ∃ row, s.job? jobId = some row
  | .access path, s => ∃ bytes, s.files path = some bytes
  | _, _ => True

/-- Draws, requests and keys of rows are only added. -/
structure Grows (s s' : World) : Prop where
  drawnBy : ∃ l, s'.drawnBy = s.drawnBy ++ l
  calls : ∃ l, s'.calls = s.calls ++ l
  keys : ∃ l, s'.keys = s.keys ++ l

def outline (C : Config) (strict : Prop) : Outline (services C) where
  ok σ e := Linked σ ∧ (strict → AddsToQueue σ e)
  cmdOk _ c r _ := strict → ∀ jobId, c = .addToQueue jobId → r = .done
  inv := Sound C
  rely pid _ := Rely C pid
  guar pid c := Guar C pid c
  need _ _ := Needs
  change := Grows
  done := Achieved C strict

/-- The context of a process. -/
def context (C : Config) (strict : Prop) (pid : Nat) (c : Request) :
    Ctx sig World Reply where
  inv := Sound C
  rely := Rely C pid
  guar := Guar C pid c
  need := Needs
  ok c r _ := strict → ∀ jobId, c = .addToQueue jobId → r = .done

variable {strict : Prop} {c : Request}

theorem closed_context : (context C strict pid c).Closed where
  refl _ := Guar.refl
  trans _ _ _ := Guar.trans
  inv _ _ hi hg := hg.sound hi

abbrev Proves (C : Config) (strict : Prop) (pid : Nat) (c : Request) {α : Type} (pre : World → Prop)
    (p : Program α) (ok : α → World → Prop) (err : JsError → World → Prop) : Prop :=
  Prog.Triple (host C) pid (context C strict pid c) pre p ok err

/-! ### Creating a job -/

/-- A creation that has no row yet. -/
def Creating (C : Config) (pid : Nat) (userId : JsString) (file : UploadedFile) (s : World) :
    Prop :=
  s.calls[pid]? = some (.createExecutionJob userId file) ∧ NoRow C pid s

variable {userId : JsString} {file : UploadedFile}

theorem NoRow.rely (h : NoRow C pid s) (hr : Rely C pid s s') : NoRow C pid s' := by
  obtain ⟨l, hl, ho⟩ := hr.keys
  intro k hk hown
  rw [hl] at hk
  rcases List.mem_append.mp hk with hk | hk
  · exact h k hk (hr.owns_back hown)
  · exact ho k hk hown

theorem NothingStuck.rely (h : NothingStuck C pid s) (hr : Rely C pid s s') :
    NothingStuck C pid s' := by
  obtain ⟨l, hl, ho⟩ := hr.keys
  intro k hk hown
  rw [hl] at hk
  rcases List.mem_append.mp hk with hk | hk
  · exact hr.published _ (h k hk (hr.owns_back hown))
  · exact absurd hown (ho k hk)

theorem calls_rely (hr : Rely C pid s s') {p : Nat} {c : Request} (h : s.calls[p]? = some c) :
    s'.calls[p]? = some c := by
  obtain ⟨l, hl⟩ := hr.calls
  rw [hl, List.getElem?_append_left (List.getElem?_eq_some_iff.mp h).1]
  exact h

theorem Creating.rely (h : Creating C pid userId file s) (hr : Rely C pid s s') :
    Creating C pid userId file s' :=
  ⟨calls_rely hr h.1, h.2.rely hr⟩

/-- Steps that add no row leave a creation without one. -/
theorem Creating.same (h : Creating C pid userId file s) (hs : Same s s') :
    Creating C pid userId file s' := by
  refine ⟨by rw [hs.calls]; exact h.1, fun k hk hown => ?_⟩
  exact h.2 k (hs.keys ▸ hk) (hs.owns.mp hown)

theorem creating_draw (hs : Sound C s) (h : Creating C pid userId file s) :
    Creating C pid userId file { s with drawnBy := s.drawnBy ++ [pid] } := by
  refine ⟨h.1, fun k hk hown => ?_⟩
  rcases owns_draw_cases hown with hown | ⟨-, he⟩
  · exact h.2 k hk hown
  · obtain ⟨p, file, -, ⟨n, hn, hid⟩, -⟩ := hs.origin k hk
    have := C.ulid.injective (hid.trans he)
    have hlt := (List.getElem?_eq_some_iff.mp hn).1
    omega

theorem pid_lt_of_calls {c : Request} (h : s.calls[pid]? = some c) : pid < s.calls.length :=
  (List.getElem?_eq_some_iff.mp h).1

/-- Drawing an id, with what is known before. -/
theorem proves_ulid {K : World → Prop} {err : JsError → World → Prop}
    (hcall : ∀ s, K s → pid < s.calls.length)
    (hK : ∀ s, Sound C s → K s → K { s with drawnBy := s.drawnBy ++ [pid] }) :
    Proves C strict pid c K ulid (fun id s => K s ∧ s.Owns C pid id) err :=
  Prog.Triple.op closed_context fun s hi hs =>
    ⟨guar_draw (hcall s hs), hK s hi hs, owns_draw⟩

theorem proves_newDate {K : World → Prop} {err : JsError → World → Prop} :
    Proves C strict pid c K newDate (fun _ => K) err :=
  Prog.Triple.op closed_context fun _ _ hs => ⟨Guar.refl, hs⟩

/-- A file of the process, as long as no row refers to it. -/
theorem guar_file {id : JsString} (hid : s.Owns C pid id) (hno : NoRow C pid s)
    (v : Option Bytes) :
    Guar C pid c s
      { s with files := Function.update s.files (join C.basePath (codeFile id)) v } where
  sound hs :=
    { drawers := hs.drawers
      unwritten := fun n hn => by
        have hne : join C.basePath (codeFile (C.ulid.text n)) ≠ join C.basePath (codeFile id) := by
          intro he
          have := codeFile_inj (C.ulid.ulidText n) (ulidText_of_owns hid) he
          obtain ⟨m, hm, hmid⟩ := hid
          have hlt := (List.getElem?_eq_some_iff.mp hm).1
          obtain rfl := C.ulid.injective (this.trans hmid.symm)
          exact absurd hlt (Nat.not_lt.mpr hn)
        exact (Function.update_of_ne hne _ _).trans (hs.unwritten n hn)
      origin := fun k hk => by
        obtain ⟨p, file, hcall, hkid, ⟨id', hfid, hpath⟩, hfile⟩ := hs.origin k hk
        refine ⟨p, file, hcall, hkid, ⟨id', hfid, hpath⟩, ?_⟩
        have hne : join C.basePath k.filePath ≠ join C.basePath (codeFile id) := by
          rw [hpath]
          intro he
          obtain rfl := codeFile_inj (ulidText_of_owns hfid) (ulidText_of_owns hid) he
          obtain rfl := owner_unique hfid hid
          exact hno k hk hkid
        show Function.update s.files _ v _ = _
        rw [Function.update_of_ne hne]
        exact hfile
      nodup := hs.nodup
      logged := hs.logged
      queued := hs.queued
      published := hs.published }
  drawn := ⟨0, by simp⟩
  calls := rfl
  keys := ⟨[], by simp [World.keys]⟩
  files path := by
    by_cases hp : path = join C.basePath (codeFile id)
    · exact Or.inr ⟨id, hid, hp⟩
    · exact Or.inl (Function.update_of_ne hp _ _)
  transactions _ _ := rfl
  published _ hj := hj
  taken := rfl
  containers := .of_eq rfl
  adds _ := .of_eq rfl rfl

/-- A creation that has chosen the name of its file. -/
def Named (C : Config) (pid : Nat) (userId : JsString) (file : UploadedFile) (id : JsString)
    (s : World) : Prop :=
  Creating C pid userId file s ∧ s.Owns C pid id

theorem Named.rely {id : JsString} (h : Named C pid userId file id s) (hr : Rely C pid s s') :
    Named C pid userId file id s' :=
  ⟨h.1.rely hr, hr.owns h.2⟩

/-- The file is written. -/
def Written (C : Config) (pid : Nat) (userId : JsString) (file : UploadedFile) (id : JsString)
    (s : World) : Prop :=
  Named C pid userId file id s ∧ s.files (join C.basePath (codeFile id)) = some file.buffer

theorem Written.rely {id : JsString} (h : Written C pid userId file id s)
    (hr : Rely C pid s s') : Written C pid userId file id s' :=
  ⟨h.1.rely hr, (hr.files id h.1.2).trans h.2⟩

theorem creating_of_failed {α : Type} {x : Except JsError α} {ok : α → World → Prop}
    (h : Failed x s s') (hc : Creating C pid userId file s) :
    Guar C pid c s s' ∧ Prog.Ends ok (fun _ => Creating C pid userId file) x s' := by
  obtain ⟨e, rfl, -, rfl⟩ := h
  exact ⟨.refl, hc⟩

theorem same_directories (s : World) (d : JsString → Bool) : Same s { s with directories := d } :=
  ⟨rfl, rfl, rfl, rfl, rfl, rfl, rfl⟩

theorem same_transactions (s : World) (t : Nat → Transaction) :
    Same s { s with transactions := t } :=
  ⟨rfl, rfl, rfl, rfl, rfl, rfl, rfl⟩

theorem proves_mkdir {id path : JsString} :
    Proves C strict pid c (Named C pid userId file id) (await (.mkdir path))
      (fun _ => Named C pid userId file id) (fun _ => Creating C pid userId file) := by
  refine Prog.Triple.call (fun s s' h hr _ => h.rely hr) (fun _ _ _ => trivial)
    fun s r x s' _ hs _ hx => ?_
  rcases perform_mkdir hx with ⟨rfl, rfl⟩ | hf
  · have hsame := same_directories s (Function.update s.directories path true)
    exact ⟨hsame.guar (.of_eq rfl) (fun _ => rfl) fun _ _ => rfl, hs.1.same hsame, hsame.owns.mpr hs.2⟩
  · exact creating_of_failed hf hs.1

theorem proves_writeFile {id : JsString} :
    Proves C strict pid c (Named C pid userId file id)
      (writeFile (join C.basePath (codeFile id)) file.buffer)
      (fun _ => Written C pid userId file id) (fun _ => Creating C pid userId file) := by
  refine .bind (fun _ => Named C pid userId file id) ?_ fun _ => ?_
  · refine Prog.Triple.call (fun s s' h hr _ => h.rely hr) (fun _ _ _ => trivial)
      fun s r x s' _ hs _ hx => ?_
    rcases perform_openFile hx with ⟨rfl, rfl⟩ | hf
    · exact ⟨guar_file hs.2 hs.1.2 _, hs⟩
    · exact creating_of_failed hf hs.1
  · refine Prog.Triple.call (fun s s' h hr _ => h.rely hr) (fun _ _ _ => trivial)
      fun s r x s' _ hs _ hx => ?_
    rcases perform_writeBytes hx with ⟨rfl, rfl⟩ | hf | ⟨e, n, rfl, -, rfl⟩
    · exact ⟨guar_file hs.2 hs.1.2 _, hs, Function.update_self _ _ _⟩
    · exact creating_of_failed hf hs.1
    · exact ⟨guar_file hs.2 hs.1.2 _, hs.1⟩

/-- The transaction is open and holds these rows. -/
def Open (C : Config) (pid : Nat) (userId : JsString) (file : UploadedFile) (id : JsString)
    (jobs : List ExecutionJob) (logs : List ExecutionJobStatusLog) (s : World) : Prop :=
  Written C pid userId file id s ∧ s.transactions pid = ⟨jobs, logs⟩

theorem Open.rely {id : JsString} {jobs : List ExecutionJob} {logs : List ExecutionJobStatusLog}
    (h : Open C pid userId file id jobs logs s) (hr : Rely C pid s s') :
    Open C pid userId file id jobs logs s' :=
  ⟨h.1.rely hr, hr.transactions.trans h.2⟩

theorem open_draw {id : JsString} {jobs : List ExecutionJob} {logs : List ExecutionJobStatusLog}
    (hs : Sound C s) (h : Open C pid userId file id jobs logs s) :
    Open C pid userId file id jobs logs { s with drawnBy := s.drawnBy ++ [pid] } :=
  ⟨⟨⟨creating_draw hs h.1.1.1, owns_mono rfl h.1.1.2⟩, h.1.2⟩, h.2⟩

theorem written_same {id : JsString} (h : Written C pid userId file id s) (hs : Same s s') :
    Written C pid userId file id s' :=
  ⟨⟨h.1.1.same hs, hs.owns.mpr h.1.2⟩, by rw [hs.files]; exact h.2⟩

/-- The row that a creation inserts, and its first entry. -/
structure NewRows (C : Config) (pid : Nat) (userId id : JsString) (job : ExecutionJob)
    (log : ExecutionJobStatusLog) (s : World) : Prop where
  key : job.key = ⟨job.id, userId, codeFile id⟩
  owns : s.Owns C pid job.id
  jobId : log.jobId = job.id
  status : log.status = .QUEUED
  fresh : job.output = none ∧ job.error = none ∧ job.exitCode = none

theorem proves_insertNewJob {id : JsString} :
    Proves C strict pid c (Open C pid userId file id [] []) (insertNewJob userId (codeFile id))
      (fun job s => ∃ log, Open C pid userId file id [job] [log] s ∧
        NewRows C pid userId id job log s)
      (fun _ => Creating C pid userId file) := by
  have hpid : ∀ {jobs logs} (s : World), Open C pid userId file id jobs logs s →
      pid < s.calls.length := fun s h => pid_lt_of_calls h.1.1.1.1
  refine .bind _ (proves_ulid (fun s => hpid s) fun s => open_draw) fun jobId => ?_
  refine .bind _ proves_newDate fun now => ?_
  let job : ExecutionJob := ⟨jobId, userId, codeFile id, now, none, none, none, none⟩
  refine .bind (fun _ s => Open C pid userId file id [job] [] s ∧ s.Owns C pid jobId) ?_
    fun _ => ?_
  · refine Prog.Triple.call ?_ (fun _ _ _ => trivial) fun s r x s' _ hs _ hx => ?_
    · exact fun s s' h hr _ => ⟨h.1.rely hr, hr.owns h.2⟩
    · rcases perform_insertJob hx with ⟨rfl, -, rfl⟩ | hf
      · have hsame := same_transactions s (Function.update s.transactions pid
          ⟨(s.transactions pid).jobs ++ [job], (s.transactions pid).logs ++ []⟩)
        refine ⟨hsame.guar (.of_eq rfl) (fun _ => rfl) fun p hp => Function.update_of_ne hp _ _,
          ⟨written_same hs.1.1 hsame, ?_⟩, hsame.owns.mpr hs.2⟩
        show Function.update _ _ _ pid = _
        rw [Function.update_self, hs.1.2]
        rfl
      · exact creating_of_failed hf hs.1.1.1.1
  · refine .bind _ (proves_ulid (fun s h => hpid s h.1) fun s hi h =>
      ⟨open_draw hi h.1, owns_mono rfl h.2⟩) fun logId => ?_
    let log : ExecutionJobStatusLog := ⟨logId, jobId, .QUEUED, now⟩
    refine .bind (fun _ s => Open C pid userId file id [job] [log] s ∧ s.Owns C pid jobId) ?_
      fun _ => ?_
    · refine Prog.Triple.call ?_ (fun _ _ _ => trivial) fun s r x s' _ hs _ hx => ?_
      · exact fun s s' h hr _ => ⟨⟨h.1.1.rely hr, hr.owns h.1.2⟩, hr.owns h.2⟩
      · rcases perform_insertStatusLog hx with ⟨rfl, -, rfl⟩ | hf
        · have hsame := same_transactions s (Function.update s.transactions pid
            ⟨(s.transactions pid).jobs ++ [], (s.transactions pid).logs ++ [log]⟩)
          refine ⟨hsame.guar (.of_eq rfl) (fun _ => rfl) fun p hp => Function.update_of_ne hp _ _,
            ⟨written_same hs.1.1.1 hsame, ?_⟩, hsame.owns.mpr hs.1.2⟩
          show Function.update _ _ _ pid = _
          rw [Function.update_self, hs.1.1.2]
          rfl
        · exact creating_of_failed hf hs.1.1.1.1.1
    · exact .ret fun s hs => ⟨log, hs.1, rfl, hs.2, rfl, rfl, rfl, rfl, rfl⟩

/-- The row is committed, and it is the only one of the process. -/
def Committed (C : Config) (pid : Nat) (job : ExecutionJob) (s : World) : Prop :=
  (∃ k ∈ s.keys, k.id = job.id) ∧ ∀ k ∈ s.keys, s.Owns C pid k.id → k.id = job.id

theorem Committed.rely {job : ExecutionJob} (h : Committed C pid job s) (hr : Rely C pid s s') :
    Committed C pid job s' := by
  obtain ⟨l, hl, ho⟩ := hr.keys
  obtain ⟨⟨k, hk, he⟩, hall⟩ := h
  refine ⟨⟨k, by rw [hl]; exact List.mem_append_left _ hk, he⟩, fun k' hk' hown => ?_⟩
  rw [hl] at hk'
  rcases List.mem_append.mp hk' with hk' | hk'
  · exact hall k' hk' (hr.owns_back hown)
  · exact absurd hown (ho k' hk')

theorem keys_committed (s : World) (pid : Nat) :
    (s.committed pid).keys = s.keys ++ (s.transactions pid).jobs.map ExecutionJob.key :=
  List.map_append

/-- A job without a row has no entries. -/
theorem Sound.logsOf_eq_nil (hs : Sound C s) {jobId : JsString}
    (hfresh : ∀ k ∈ s.keys, k.id ≠ jobId) : s.logsOf jobId = [] := by
  rw [World.logsOf, List.filter_eq_nil_iff]
  intro l hl he
  obtain ⟨k, hk, hid⟩ := hs.logged l hl
  exact hfresh k hk (hid.trans (of_decide_eq_true he))

section Commit

variable {id : JsString} {job : ExecutionJob} {log : ExecutionJobStatusLog}

theorem Open.keys_commit (h : Open C pid userId file id [job] [log] s) :
    (s.committed pid).keys = s.keys ++ [job.key] := by
  rw [keys_committed, h.2]
  rfl

theorem Open.logs_commit (h : Open C pid userId file id [job] [log] s) :
    (s.committed pid).logs = s.logs ++ [log] := by
  rw [World.committed, h.2]

/-- No row has the id of the new one. -/
theorem Open.fresh (h : Open C pid userId file id [job] [log] s)
    (hn : NewRows C pid userId id job log s) : ∀ k ∈ s.keys, k.id ≠ job.id := by
  intro k hk he
  exact h.1.1.1.2 k hk (he ▸ hn.owns)

theorem origin_commit (h : Open C pid userId file id [job] [log] s)
    (hn : NewRows C pid userId id job log s) :
    Origin C (s.committed pid) job.key pid file := by
  refine ⟨?_, hn.owns, ⟨id, h.1.1.2, ?_⟩, ?_⟩
  · rw [hn.key]
    exact h.1.1.1.1
  · rw [hn.key]
  · rw [hn.key]
    exact h.1.2

/-- What every row must have, the new one has. -/
theorem sound_commit (h : Open C pid userId file id [job] [log] s)
    (hn : NewRows C pid userId id job log s) (hs : Sound C s) : Sound C (s.committed pid) := by
  have hkeys := h.keys_commit
  have hlogs := h.logs_commit
  refine { drawers := hs.drawers, unwritten := hs.unwritten, origin := ?_, nodup := ?_,
           logged := ?_, queued := ?_, published := ?_ }
  · intro k hk
    rw [hkeys] at hk
    rcases List.mem_append.mp hk with hk | hk
    · exact hs.origin k hk
    · rw [List.mem_singleton.mp hk]
      exact ⟨pid, file, origin_commit h hn⟩
  · rw [hkeys, List.map_append, List.nodup_append]
    refine ⟨hs.nodup, by simp, fun a ha b hb => ?_⟩
    obtain ⟨k, hk, rfl⟩ := List.mem_map.mp ha
    obtain rfl := List.mem_singleton.mp hb
    exact h.fresh hn k hk
  · intro l hl
    rw [hlogs] at hl
    rw [hkeys]
    rcases List.mem_append.mp hl with hl | hl
    · obtain ⟨k, hk, he⟩ := hs.logged l hl
      exact ⟨k, List.mem_append_left _ hk, he⟩
    · rw [List.mem_singleton.mp hl]
      exact ⟨job.key, List.mem_append_right _ (List.mem_singleton_self _), hn.jobId.symm⟩
  · intro k hk
    rw [hkeys] at hk
    rcases List.mem_append.mp hk with hk | hk
    · obtain ⟨l, hl, hq⟩ := hs.queued k hk
      exact ⟨l, World.head?_logsOf_of_append hlogs hl, hq⟩
    · have hid : job.key.id = job.id := rfl
      rw [List.mem_singleton.mp hk, World.logsOf_of_append hlogs, hid,
        hs.logsOf_eq_nil (h.fresh hn), List.nil_append, if_pos hn.jobId]
      exact ⟨log, rfl, hn.status⟩
  · intro j hj
    obtain ⟨k, hk, he⟩ := hs.published j hj
    exact ⟨k, by rw [hkeys]; exact List.mem_append_left _ hk, he⟩

/-- **The commit**: the row and its first entry appear together. -/
theorem guar_commit (h : Open C pid userId file id [job] [log] s)
    (hn : NewRows C pid userId id job log s) : Guar C pid c s (s.committed pid) where
  sound := sound_commit h hn
  drawn := ⟨0, by simp [World.committed]⟩
  calls := rfl
  keys := by
    refine ⟨[job.key], h.keys_commit, fun k hk => ?_⟩
    rw [List.mem_singleton.mp hk]
    exact hn.owns
  files _ := Or.inl rfl
  transactions p hp := Function.update_of_ne hp _ _
  published _ hj := hj
  taken := rfl
  containers := .of_eq rfl
  adds _ := by
    refine ⟨⟨[job], by rw [World.committed, h.2], fun row hrow => ?_⟩,
      ⟨[log], h.logs_commit, fun l hl => ?_⟩⟩
    · rw [List.mem_singleton.mp hrow]
      exact hn.fresh
    · rw [List.mem_singleton.mp hl, hn.jobId]
      exact ⟨hn.status, h.fresh hn⟩

/-- Of the rows with an id of the process, only the new one is there. -/
theorem committed_commit (h : Open C pid userId file id [job] [log] s) :
    Committed C pid job (s.committed pid) := by
  have hkeys := h.keys_commit
  refine ⟨⟨job.key, by rw [hkeys]; simp, rfl⟩, fun k hk hown => ?_⟩
  rw [hkeys] at hk
  rcases List.mem_append.mp hk with hk | hk
  · exact absurd hown (h.1.1.1.2 k hk)
  · rw [List.mem_singleton.mp hk]
    rfl

theorem NewRows.rely (h : NewRows C pid userId id job log s) (hr : Rely C pid s s') :
    NewRows C pid userId id job log s' :=
  ⟨h.key, hr.owns h.owns, h.jobId, h.status, h.fresh⟩

end Commit

theorem proves_transaction {id : JsString} :
    Proves C strict pid c (Written C pid userId file id)
      (transaction (insertNewJob userId (codeFile id))) (Committed C pid)
      (fun _ => Creating C pid userId file) := by
  refine .handle (fun _ => Creating C pid userId file) ?_ fun e => ?_
  · refine .bind (fun _ => Open C pid userId file id [] []) ?_ fun _ => ?_
    · refine Prog.Triple.call (fun s s' h hr _ => h.rely hr) (fun _ _ _ => trivial)
        fun s r x s' _ hs _ hx => ?_
      rcases perform_startTransaction hx with ⟨rfl, rfl⟩ | hf
      · have hsame := same_transactions s (Function.update s.transactions pid ⟨[], []⟩)
        exact ⟨hsame.guar (.of_eq rfl) (fun _ => rfl) fun p hp => Function.update_of_ne hp _ _,
          written_same hs hsame, Function.update_self _ _ _⟩
      · exact creating_of_failed hf hs.1.1
    · refine .bind _ proves_insertNewJob fun job => ?_
      refine .bind (fun _ => Committed C pid job) ?_ fun _ => .ret fun s hs => hs
      refine Prog.Triple.call ?_ (fun _ _ _ => trivial) fun s r x s' _ hs _ hx => ?_
      · rintro s s' ⟨log, ho, hn⟩ hr _
        exact ⟨log, ho.rely hr, hn.rely hr⟩
      · obtain ⟨log, ho, hn⟩ := hs
        rcases perform_commitTransaction hx with ⟨rfl, rfl⟩ | hf
        · exact ⟨guar_commit ho hn, committed_commit ho⟩
        · exact creating_of_failed hf ho.1.1.1
  · refine .bind (fun _ => Creating C pid userId file) ?_ fun _ => .fail fun s hs => hs
    refine .handle (fun _ => Creating C pid userId file) ?_ fun _ => .ret fun s hs => hs
    refine Prog.Triple.call (fun s s' h hr _ => h.rely hr) (fun _ _ _ => trivial)
      fun s r x s' _ hs _ hx => ?_
    rcases perform_rollbackTransaction hx with ⟨rfl, rfl⟩ | hf
    · have hsame := same_transactions s (Function.update s.transactions pid ⟨[], []⟩)
      exact ⟨hsame.guar (.of_eq rfl) (fun _ => rfl) fun p hp => Function.update_of_ne hp _ _,
        hs.same hsame⟩
    · exact creating_of_failed hf hs

/-- Adding the entry of a job that has a row. -/
theorem guar_addToQueue {jobId : JsString} (h : ∃ k ∈ s.keys, k.id = jobId) :
    Guar C pid c s { s with waiting := s.waiting ++ [jobId] } where
  sound hs :=
    { drawers := hs.drawers
      unwritten := hs.unwritten
      origin := hs.origin
      nodup := hs.nodup
      logged := hs.logged
      queued := hs.queued
      published := fun j hj => by
        rcases hj with hj | hj
        · rcases List.mem_append.mp hj with hj | hj
          · exact hs.published j (Or.inl hj)
          · rw [List.mem_singleton.mp hj]
            exact h
        · exact hs.published j (Or.inr hj) }
  drawn := ⟨0, by simp⟩
  calls := rfl
  keys := ⟨[], by simp [World.keys]⟩
  files _ := Or.inl rfl
  transactions _ _ := rfl
  published j hj := hj.imp_left fun hj => List.mem_append_left _ hj
  taken := rfl
  containers := .of_eq rfl
  adds _ := .of_eq rfl rfl

theorem nothingStuck_of_creating (h : Creating C pid userId file s) : NothingStuck C pid s :=
  fun k hk hown => absurd hown (h.2 k hk)

/-- **A creation leaves no row that is not published**, unless adding to the
queue failed. -/
theorem proves_createExecutionJob (hext : fileFilter file.originalname = true) :
    Proves C strict pid c (Creating C pid userId file) (createExecutionJob C userId file)
      (fun _ s => strict → NothingStuck C pid s) (fun _ s => strict → NothingStuck C pid s) := by
  have hdart : fileExtension file.originalname = js ".dart" := of_decide_eq_true hext
  have hweak : ∀ (e : JsError) (s : World), Creating C pid userId file s →
      strict → NothingStuck C pid s := fun _ _ h _ => nothingStuck_of_creating h
  refine .bind (fun id => Named C pid userId file id)
    (proves_ulid (fun s h => pid_lt_of_calls h.1) fun s hi h => creating_draw hi h) fun id => ?_
  rw [hdart]
  refine .bind (fun _ => Named C pid userId file id)
    (proves_mkdir.mono (fun _ h => h) (fun _ _ h => h) hweak) fun _ => ?_
  refine .bind (fun _ => Written C pid userId file id)
    (proves_writeFile.mono (fun _ h => h) (fun _ _ h => h) hweak) fun _ => ?_
  refine .bind (Committed C pid) (proves_transaction.mono (fun _ h => h) (fun _ _ h => h) hweak)
    fun job => ?_
  refine .bind (fun _ s => strict → NothingStuck C pid s) ?_ fun _ => .ret fun s hs => hs
  refine Prog.Triple.call (fun s s' h hr _ => h.rely hr) (fun _ _ _ => trivial)
    fun s r x s' _ hs hr hx => ?_
  rcases perform_addToQueue hx with ⟨rfl, rfl⟩ | ⟨hne, e, rfl, -, rfl⟩
  · refine ⟨guar_addToQueue hs.1, fun _ k hk hown => Or.inl ?_⟩
    rw [hs.2 k hk hown]
    exact List.mem_append_right _ (List.mem_singleton_self _)
  · exact ⟨.refl, fun hst => absurd (hr hst _ rfl) hne⟩

/-! ### Processing a job -/

/-- What a run on a job may know throughout: kept by the others and by itself. -/
structure Steady (C : Config) (pid : Nat) (jobId : JsString) (K : World → Prop) : Prop where
  rely : ∀ s s', K s → Rely C pid s s' → K s'
  guar : ∀ s s', K s → Guar C pid (.processJob jobId) s s' → K s'
  called : ∀ s, K s → pid < s.calls.length

/-- A program of the worker, which keeps what is known and throws ordinary
errors. -/
abbrev Works (C : Config) (strict : Prop) (pid : Nat) (jobId : JsString) (K : World → Prop)
    {α : Type} (p : Program α) : Prop :=
  Proves C strict pid (.processJob jobId) K p (fun _ => K) fun e s => e.Ordinary ∧ K s

variable {K : World → Prop} {jobId : JsString}

theorem needs_of_workerCmd {c : Cmd} (hc : WorkerCmd c) : Needs c s := by
  cases c with
  | findJob _ => exact hc.elim
  | access _ => exact hc.elim
  | _ => exact trivial

theorem works_await (hK : Steady C pid jobId K) {c : Cmd} (hc : WorkerCmd c) :
    Works C strict pid jobId K (await c) := by
  refine Prog.Triple.call (fun s s' h hr _ => hK.rely s s' h hr) (fun s _ _ => needs_of_workerCmd hc)
    fun s r x s' _ hs _ hx => ?_
  have hw := workerStep hc hx
  refine ⟨hw.guar, ?_⟩
  cases x with
  | ok a => exact hK.guar s s' hs hw.guar
  | error e => exact ⟨hw.ordinary rfl, hK.guar s s' hs hw.guar⟩

theorem draws_of_steady (hK : Steady C pid jobId K) :
    Draws pid (context C strict pid (.processJob jobId)) K :=
  fun s _ hs => ⟨guar_draw (hK.called s hs), hK.guar _ _ hs (guar_draw (hK.called s hs))⟩

theorem works_createStatusLog (hK : Steady C pid jobId K) (status : ExecutionJobStatus) :
    Works C strict pid jobId K (createStatusLog jobId status) :=
  triple_createStatusLog closed_context (draws_of_steady hK) fun _ _ => works_await hK trivial

theorem works_updateResult (hK : Steady C pid jobId K) (output error : Option JsString)
    (exitCode : Int) : Works C strict pid jobId K (updateResult jobId output error exitCode) :=
  triple_updateResult closed_context fun _ => works_await hK trivial

/-- In a handler the error that is handled stays ordinary. -/
theorem works_handling {α : Type} {p : Program α} (h : Works C strict pid jobId K p) (e : JsError) :
    Proves C strict pid (.processJob jobId) (fun s => e.Ordinary ∧ K s) p
      (fun _ s => e.Ordinary ∧ K s) fun e' s => e'.Ordinary ∧ e.Ordinary ∧ K s :=
  .assume fun he => h.mono (fun _ hs => hs) (fun _ _ hs => ⟨he, hs⟩) fun _ _ hs => ⟨hs.1, he, hs.2⟩

/-- A worker that has taken the entry of a job. -/
def Working (pid : Nat) (jobId : JsString) (s : World) : Prop :=
  pid < s.calls.length ∧ s.Published jobId

theorem steady_working : Steady C pid jobId (Working pid jobId) where
  rely s s' h hr := by
    obtain ⟨l, hl⟩ := hr.calls
    refine ⟨?_, hr.published _ h.2⟩
    have := h.1
    rw [hl, List.length_append]
    omega
  guar s s' h hg := ⟨by rw [hg.calls]; exact h.1, hg.published _ h.2⟩
  called s h := h.1

/-- It has found the row with the key `k`. -/
def Found (pid : Nat) (jobId : JsString) (k : JobKey) (s : World) : Prop :=
  Working pid jobId s ∧ k ∈ s.keys

theorem steady_found (k : JobKey) : Steady C pid jobId (Found pid jobId k) where
  rely s s' h hr := by
    obtain ⟨l, hl, -⟩ := hr.keys
    exact ⟨steady_working.rely s s' h.1 hr, by rw [hl]; exact List.mem_append_left _ h.2⟩
  guar s s' h hg := by
    obtain ⟨l, hl, -⟩ := hg.keys
    exact ⟨steady_working.guar s s' h.1 hg, by rw [hl]; exact List.mem_append_left _ h.2⟩
  called s h := h.1.1

/-- A published job has a row. -/
theorem job?_of_published (hs : Sound C s) (h : s.Published jobId) :
    ∃ row, s.job? jobId = some row := by
  obtain ⟨k, hk, rfl⟩ := hs.published jobId h
  exact job?_of_mem_keys hk

/-- The file of a row is there. -/
theorem file_of_mem_keys (hs : Sound C s) {k : JobKey} (hk : k ∈ s.keys) :
    ∃ bytes, s.files (join C.basePath k.filePath) = some bytes := by
  obtain ⟨_, file, -, -, -, hfile⟩ := hs.origin k hk
  exact ⟨_, hfile⟩

theorem proves_findJob : Proves C strict pid (.processJob jobId) (Working pid jobId)
    (await (.findJob jobId))
    (fun found s => ∃ row : ExecutionJob, found = some row ∧ Found pid jobId row.key s)
    fun e s => e.Ordinary ∧ Working pid jobId s := by
  refine Prog.Triple.call (fun s s' h hr _ => steady_working.rely s s' h hr)
    (fun s hi hs => job?_of_published hi hs.2) fun s r x s' hi hs _ hx => ?_
  rcases perform_findJob hx with ⟨rfl, rfl⟩ | ⟨e, rfl, he, rfl⟩
  · obtain ⟨row, hrow⟩ := job?_of_published hi hs.2
    exact ⟨.refl, row, hrow, hs, (mem_keys_of_job? hrow).1⟩
  · exact ⟨.refl, he, hs⟩

theorem works_access (k : JobKey) :
    Works C strict pid jobId (Found pid jobId k) (await (.access (join C.basePath k.filePath))) := by
  refine Prog.Triple.call (fun s s' h hr _ => (steady_found k).rely s s' h hr)
    (fun s hi hs => file_of_mem_keys hi hs.2) fun s r x s' hi hs _ hx => ?_
  rcases perform_access hx with ⟨rfl, rfl⟩ | ⟨e, rfl, he, rfl⟩ | ⟨-, hnone, -⟩
  · exact ⟨.refl, hs⟩
  · exact ⟨.refl, he, hs⟩
  · obtain ⟨bytes, hfile⟩ := file_of_mem_keys hi hs.2
    rw [hnone] at hfile
    cases hfile

/-- The row is known from the lookup to the start of the container. -/
def publishedStages (pid : Nat) (jobId : JsString) : Stages where
  begun := Working pid jobId
  found row := Found pid jobId row.key
  created _ _ := Working pid jobId
  exited _ _ _ := Working pid jobId
  collected _ _ _ := Working pid jobId
  late e s := e.Ordinary ∧ Working pid jobId s
  lateSaved e s := e.Ordinary ∧ Working pid jobId s
  succeeded := Working pid jobId
  errored := Working pid jobId
  finished := Working pid jobId
  caught e s := e.Ordinary ∧ Working pid jobId s
  caughtSaved e s := e.Ordinary ∧ Working pid jobId s
  failed e s := e.Ordinary ∧ Working pid jobId s

theorem valid_publishedStages :
    (publishedStages pid jobId).Valid C pid (context C strict pid (.processJob jobId)) jobId :=
  have hW : Steady C pid jobId (Working pid jobId) := steady_working
  have hF : ∀ {row : ExecutionJob} {α : Type} {p : Program α},
      Works C strict pid jobId (Found pid jobId row.key) p →
        Proves C strict pid (.processJob jobId) (Found pid jobId row.key) p
          (fun _ => Found pid jobId row.key) fun e s => e.Ordinary ∧ Working pid jobId s :=
    fun h => h.mono (fun _ hs => hs) (fun _ _ hs => hs) fun _ _ hs => ⟨hs.1, hs.2.1⟩
  have hH : ∀ {α : Type} {p : Program α}, Works C strict pid jobId (Working pid jobId) p →
      ∀ e : JsError, Proves C strict pid (.processJob jobId)
        (fun s => e.Ordinary ∧ Working pid jobId s) p (fun _ s => e.Ordinary ∧ Working pid jobId s)
        fun e' s => e'.Ordinary ∧ Working pid jobId s :=
    fun h e => (works_handling h e).mono (fun _ hs => hs) (fun _ _ hs => hs)
      fun _ _ hs => ⟨hs.1, hs.2.2⟩
  { find := proves_findJob.mono (fun _ hs => hs) (fun _ _ ⟨_, hrow, hs⟩ => hrow ▸ hs)
      fun _ _ hs => hs
    ready := fun row => hF (works_createStatusLog (steady_found row.key) .READY)
    access := fun row => hF (works_access row.key)
    run := fun row => hF (works_createStatusLog (steady_found row.key) .RUNNING)
    create := fun _ => (works_await hW (c := .createContainer _) trivial).mono
      (fun _ hs => hs.1) (fun _ _ hs => hs) fun _ _ hs => hs
    start := fun _ _ => works_await hW trivial
    wait := fun _ _ => works_await hW trivial
    kill := fun n e => (works_handling (works_await hW (c := .killContainer n) trivial) e).mono
      (fun _ hs => hs) (fun _ _ hs => hs) fun _ _ hs => hs.2
    removeLate := fun n e => (works_handling (works_await hW (c := .removeContainer n) trivial)
      e).mono (fun _ hs => hs) (fun _ _ hs => hs) fun _ _ hs => hs.2
    saveLate := hH (works_updateResult hW _ _ _)
    logLate := hH (works_createStatusLog hW _)
    logs := fun _ _ _ => works_await hW trivial
    remove := fun _ _ _ _ => works_await hW trivial
    saveOutput := fun _ _ => works_updateResult hW _ _ _
    logSuccess := works_createStatusLog hW _
    saveError := fun _ _ _ _ => works_updateResult hW _ _ _
    logError := works_createStatusLog hW _
    saveCaught := fun e => hH (works_updateResult hW _ _ _) e
    logCaught := hH (works_createStatusLog hW _) }

/-- **A run of the worker throws only ordinary errors.** -/
theorem proves_processJob : Proves C strict pid (.processJob jobId) (Working pid jobId)
    (processJob C jobId) (fun _ => Working pid jobId) fun e s => e.Ordinary ∧ Working pid jobId s :=
  triple_processJob valid_publishedStages

end FullstackSvc.Execution
