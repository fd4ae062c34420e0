import FullstackSvc.Async.Triple
import FullstackSvc.Execution.Calls

/-!
# Who owns what in the execution services

Every id belongs to the process that drew it, and with it the row and the file
that carry it.  `Sound` says what the tables, the volume and the queue have to do
with each other; `Guar` is what a process may do to them, and `Rely` what it may
count on.

* `owner_unique`: an id has one owner, since ids are fresh.
* `Guar.rely`: what one process may do is what the others count on.
-/

namespace FullstackSvc.Execution

open Text Async

/-! ### Keys of jobs and owners of ids -/

/-- What never changes in a row. -/
structure JobKey where
  id : JsString
  userId : JsString
  filePath : JsString

def ExecutionJob.key (row : ExecutionJob) : JobKey := ⟨row.id, row.userId, row.filePath⟩

namespace World

def keys (s : World) : List JobKey := s.jobs.map ExecutionJob.key

/-- The entries of one job, in the order in which they were saved. -/
def logsOf (s : World) (jobId : JsString) : List ExecutionJobStatusLog :=
  s.logs.filter fun log => log.jobId = jobId

/-- One entry more. -/
theorem logsOf_of_append {s s' : World} {log : ExecutionJobStatusLog}
    (h : s'.logs = s.logs ++ [log]) (jobId : JsString) :
    s'.logsOf jobId = s.logsOf jobId ++ if log.jobId = jobId then [log] else [] := by
  rw [logsOf, logsOf, h, List.filter_append]
  congr 1
  split
  · rename_i he
    rw [List.filter_cons_of_pos (by simpa using he), List.filter_nil]
  · rename_i hne
    rw [List.filter_cons_of_neg (by simpa using hne), List.filter_nil]

/-- The first entry of a job stays its first. -/
theorem head?_logsOf_of_append {s s' : World} {log first : ExecutionJobStatusLog}
    (h : s'.logs = s.logs ++ [log]) {jobId : JsString}
    (hfirst : (s.logsOf jobId).head? = some first) :
    (s'.logsOf jobId).head? = some first := by
  have hne : s.logsOf jobId ≠ [] := by
    intro hnil
    rw [hnil] at hfirst
    cases hfirst
  rw [logsOf_of_append h, List.head?_append_of_ne_nil _ hne]
  exact hfirst

/-- The entry of the job is in the queue, or a worker has taken it. -/
def Published (s : World) (jobId : JsString) : Prop :=
  jobId ∈ s.waiting ∨ (s.taken jobId).isSome = true

/-- Process `pid` drew the id. -/
def Owns (C : Config) (s : World) (pid : Nat) (id : JsString) : Prop :=
  ∃ n, s.drawnBy[n]? = some pid ∧ C.ulid.text n = id

end World

variable {C : Config} {pid pid' : Nat} {s s' s'' : World}

/-- **An id has one owner.** -/
theorem owner_unique {id : JsString} (h : s.Owns C pid id) (h' : s.Owns C pid' id) : pid = pid' :=
  UlidSource.Drew.unique h h'

theorem owns_mono {l : List Nat} (hd : s'.drawnBy = s.drawnBy ++ l) {id : JsString}
    (h : s.Owns C pid id) : s'.Owns C pid id := by
  rw [World.Owns, hd]
  exact UlidSource.Drew.mono h l

/-- The draws of others give a process nothing. -/
theorem owns_of_draws {l : List Nat} (hd : s'.drawnBy = s.drawnBy ++ l) (hl : pid ∉ l)
    {id : JsString} (h : s'.Owns C pid id) : s.Owns C pid id := by
  rw [World.Owns, hd] at h
  exact UlidSource.Drew.of_append h hl

theorem ulidText_of_owns {id : JsString} (h : s.Owns C pid id) : UlidText id := by
  obtain ⟨n, -, rfl⟩ := h
  exact C.ulid.ulidText n

/-- The name of the file of an upload. -/
def codeFile (id : JsString) : JsString := id ++ js ".dart"

theorem plainName_codeFile {id : JsString} (h : UlidText id) : PlainName (codeFile id) := by
  have hd : (100 : UInt16) ∈ codeFile id := List.mem_append_right _ (by decide)
  refine ⟨List.append_ne_nil_of_right_ne_nil _ (by decide), ?_, ?_, ?_⟩
  · intro hm
    rcases List.mem_append.mp hm with hm | hm
    · exact h.not_mem (by decide) hm
    · exact absurd hm (by decide)
  · intro he
    rw [he] at hd
    exact absurd hd (by decide)
  · intro he
    rw [he] at hd
    exact absurd hd (by decide)

/-- **Different ids name different files.** -/
theorem codeFile_inj {id id' : JsString} (h : UlidText id) (h' : UlidText id')
    (he : join C.basePath (codeFile id) = join C.basePath (codeFile id')) : id = id' :=
  List.append_cancel_right
    (join_name_inj C.basePath_ne_nil (plainName_codeFile h) (plainName_codeFile h') he)

/-! ### The invariant -/

/-- Where the row of a job comes from: an upload whose bytes its file holds. -/
def Origin (C : Config) (s : World) (k : JobKey) (pid : Nat) (file : UploadedFile) : Prop :=
  s.calls[pid]? = some (.createExecutionJob k.userId file) ∧ s.Owns C pid k.id ∧
    (∃ id, s.Owns C pid id ∧ k.filePath = codeFile id) ∧
    s.files (join C.basePath k.filePath) = some file.buffer

structure Sound (C : Config) (s : World) : Prop where
  drawers : ∀ p ∈ s.drawnBy, p < s.calls.length
  unwritten : ∀ n, s.drawnBy.length ≤ n →
    s.files (join C.basePath (codeFile (C.ulid.text n))) = none
  origin : ∀ k ∈ s.keys, ∃ pid file, Origin C s k pid file
  nodup : (s.keys.map JobKey.id).Nodup
  logged : ∀ log ∈ s.logs, ∃ k ∈ s.keys, k.id = log.jobId
  queued : ∀ k ∈ s.keys, ∃ log, (s.logsOf k.id).head? = some log ∧ log.status = .QUEUED
  published : ∀ jobId, s.Published jobId → ∃ k ∈ s.keys, k.id = jobId

/-! ### What a process may do -/

/-- No container disappears, and one that has exited is settled. -/
def ContainersKept (s s' : World) : Prop :=
  ∀ (n : Nat) (c : Container), s.containers[n]? = some c → ∃ c', s'.containers[n]? = some c' ∧ c'.file = c.file ∧
    ∀ code, c.exited = some code → c'.exited = some code ∧ c'.log = c.log

/-- Only new rows without a result, and `QUEUED` entries of new jobs. -/
structure Adds (s s' : World) : Prop where
  jobs : ∃ l, s'.jobs = s.jobs ++ l ∧
    ∀ row ∈ l, row.output = none ∧ row.error = none ∧ row.exitCode = none
  logs : ∃ l, s'.logs = s.logs ++ l ∧
    ∀ log ∈ l, log.status = .QUEUED ∧ ∀ k ∈ s.keys, k.id ≠ log.jobId

/-- What a process that serves `c` does: it draws ids, adds rows and files with
its own ids, and takes nothing away. -/
structure Guar (C : Config) (pid : Nat) (c : Request) (s s' : World) : Prop where
  sound : Sound C s → Sound C s'
  drawn : ∃ k, s'.drawnBy = s.drawnBy ++ List.replicate k pid
  calls : s'.calls = s.calls
  keys : ∃ l, s'.keys = s.keys ++ l ∧ ∀ k ∈ l, s'.Owns C pid k.id
  files : ∀ path, s'.files path = s.files path ∨
    ∃ id, s'.Owns C pid id ∧ path = join C.basePath (codeFile id)
  transactions : ∀ p, p ≠ pid → s'.transactions p = s.transactions p
  published : ∀ jobId, s.Published jobId → s'.Published jobId
  taken : s'.taken = s.taken
  containers : ContainersKept s s'
  adds : (∀ jobId, c ≠ .processJob jobId) → Adds s s'

/-- What a process counts on: what carries its ids is left alone. -/
structure Rely (C : Config) (pid : Nat) (s s' : World) : Prop where
  drawn : ∃ l, s'.drawnBy = s.drawnBy ++ l ∧ pid ∉ l
  calls : ∃ l, s'.calls = s.calls ++ l
  keys : ∃ l, s'.keys = s.keys ++ l ∧ ∀ k ∈ l, ¬ s'.Owns C pid k.id
  files : ∀ id, s.Owns C pid id →
    s'.files (join C.basePath (codeFile id)) = s.files (join C.basePath (codeFile id))
  transactions : s'.transactions pid = s.transactions pid
  published : ∀ jobId, s.Published jobId → s'.Published jobId
  containers : ContainersKept s s'

theorem ContainersKept.of_eq (h : s'.containers = s.containers) : ContainersKept s s' :=
  fun n c hc => ⟨c, by rw [h]; exact hc, rfl, fun _ he => ⟨he, rfl⟩⟩

theorem ContainersKept.trans (h : ContainersKept s s') (h' : ContainersKept s' s'') :
    ContainersKept s s'' := by
  intro n c hc
  obtain ⟨c', hc', hfile, hexit⟩ := h n c hc
  obtain ⟨c'', hc'', hfile', hexit'⟩ := h' n c' hc'
  refine ⟨c'', hc'', hfile'.trans hfile, fun code he => ?_⟩
  obtain ⟨he', hlog⟩ := hexit code he
  obtain ⟨he'', hlog'⟩ := hexit' code he'
  exact ⟨he'', hlog'.trans hlog⟩

theorem Adds.of_eq (hj : s'.jobs = s.jobs) (hl : s'.logs = s.logs) : Adds s s' :=
  ⟨⟨[], by simp [hj], by simp⟩, ⟨[], by simp [hl], by simp⟩⟩

theorem Adds.trans (h : Adds s s') (h' : Adds s' s'') : Adds s s'' := by
  obtain ⟨l, hl, hnew⟩ := h.jobs
  obtain ⟨m, hm, hnew'⟩ := h'.jobs
  obtain ⟨k, hk, hq⟩ := h.logs
  obtain ⟨n, hn, hq'⟩ := h'.logs
  have hkeys : ∀ key ∈ s.keys, key ∈ s'.keys := fun key hkey => by
    rw [World.keys, hl, List.map_append]
    exact List.mem_append_left _ hkey
  refine ⟨⟨l ++ m, by rw [hm, hl, List.append_assoc], fun row hrow => ?_⟩,
    ⟨k ++ n, by rw [hn, hk, List.append_assoc], fun log hlog => ?_⟩⟩
  · exact (List.mem_append.mp hrow).elim (hnew row) (hnew' row)
  · rcases List.mem_append.mp hlog with hlog | hlog
    · exact hq log hlog
    · exact ⟨(hq' log hlog).1, fun key hkey => (hq' log hlog).2 key (hkeys key hkey)⟩

variable {c : Request}

theorem Guar.owns (h : Guar C pid c s s') {p : Nat} {id : JsString} (ho : s.Owns C p id) :
    s'.Owns C p id := by
  obtain ⟨k, hk⟩ := h.drawn
  exact owns_mono hk ho

theorem Guar.refl : Guar C pid c s s where
  sound := id
  drawn := ⟨0, by simp⟩
  calls := rfl
  keys := ⟨[], by simp⟩
  files _ := Or.inl rfl
  transactions _ _ := rfl
  published _ := id
  taken := rfl
  containers := .of_eq rfl
  adds _ := .of_eq rfl rfl

theorem Guar.trans (h : Guar C pid c s s') (h' : Guar C pid c s' s'') : Guar C pid c s s'' where
  sound hs := h'.sound (h.sound hs)
  drawn := by
    obtain ⟨k, hk⟩ := h.drawn
    obtain ⟨m, hm⟩ := h'.drawn
    exact ⟨k + m, by rw [hm, hk, List.append_assoc, List.replicate_append_replicate]⟩
  calls := h'.calls.trans h.calls
  keys := by
    obtain ⟨l, hl, ho⟩ := h.keys
    obtain ⟨m, hm, ho'⟩ := h'.keys
    refine ⟨l ++ m, by rw [hm, hl, List.append_assoc], fun k hk => ?_⟩
    rcases List.mem_append.mp hk with hk | hk
    · exact h'.owns (ho k hk)
    · exact ho' k hk
  files path := by
    rcases h'.files path with he | hown
    · rcases h.files path with he' | ⟨id, hid, hp⟩
      · exact Or.inl (he.trans he')
      · exact Or.inr ⟨id, h'.owns hid, hp⟩
    · exact Or.inr hown
  transactions p hp := (h'.transactions p hp).trans (h.transactions p hp)
  published j hj := h'.published j (h.published j hj)
  taken := h'.taken.trans h.taken
  containers := h.containers.trans h'.containers
  adds hc := (h.adds hc).trans (h'.adds hc)

/-- **What one process may do is what the others count on.** -/
theorem Guar.rely (h : Guar C pid c s s') (hne : pid ≠ pid') : Rely C pid' s s' where
  drawn := by
    obtain ⟨k, hk⟩ := h.drawn
    refine ⟨_, hk, fun hm => hne ?_⟩
    exact (List.eq_of_mem_replicate hm).symm
  calls := ⟨[], by rw [h.calls, List.append_nil]⟩
  keys := by
    obtain ⟨l, hl, ho⟩ := h.keys
    exact ⟨l, hl, fun k hk hown => hne (owner_unique (ho k hk) hown)⟩
  files id hid := by
    rcases h.files (join C.basePath (codeFile id)) with he | ⟨id', hid', hp⟩
    · exact he
    · have he := codeFile_inj (ulidText_of_owns hid) (ulidText_of_owns hid') hp
      exact absurd (owner_unique hid' (he ▸ h.owns hid)) hne
  transactions := h.transactions pid' (Ne.symm hne)
  published := h.published
  containers := h.containers

theorem Rely.owns (h : Rely C pid s s') {p : Nat} {id : JsString} (ho : s.Owns C p id) :
    s'.Owns C p id := by
  obtain ⟨l, hl, -⟩ := h.drawn
  exact owns_mono hl ho

theorem Rely.owns_back (h : Rely C pid s s') {id : JsString} (ho : s'.Owns C pid id) :
    s.Owns C pid id := by
  obtain ⟨l, hl, hp⟩ := h.drawn
  exact owns_of_draws hl hp ho

theorem Rely.refl : Rely C pid s s where
  drawn := ⟨[], by simp⟩
  calls := ⟨[], by simp⟩
  keys := ⟨[], by simp⟩
  files _ _ := rfl
  transactions := rfl
  published _ := id
  containers := .of_eq rfl

theorem Rely.trans (h : Rely C pid s s') (h' : Rely C pid s' s'') : Rely C pid s s'' where
  drawn := by
    obtain ⟨l, hl, hp⟩ := h.drawn
    obtain ⟨m, hm, hp'⟩ := h'.drawn
    refine ⟨l ++ m, by rw [hm, hl, List.append_assoc], fun hmem => ?_⟩
    rcases List.mem_append.mp hmem with hmem | hmem
    · exact hp hmem
    · exact hp' hmem
  calls := by
    obtain ⟨l, hl⟩ := h.calls
    obtain ⟨m, hm⟩ := h'.calls
    exact ⟨l ++ m, by rw [hm, hl, List.append_assoc]⟩
  keys := by
    obtain ⟨l, hl, ho⟩ := h.keys
    obtain ⟨m, hm, ho'⟩ := h'.keys
    refine ⟨l ++ m, by rw [hm, hl, List.append_assoc], fun k hk hown => ?_⟩
    rcases List.mem_append.mp hk with hk | hk
    · exact ho k hk (h'.owns_back hown)
    · exact ho' k hk hown
  files id hid := (h'.files id (h.owns hid)).trans (h.files id hid)
  transactions := h'.transactions.trans h.transactions
  published j hj := h'.published j (h.published j hj)
  containers := h.containers.trans h'.containers

/-! ### Steps that only touch what nobody owns -/

/-- The parts of the state that `Sound` speaks of are as they were. -/
structure Same (s s' : World) : Prop where
  drawnBy : s'.drawnBy = s.drawnBy
  calls : s'.calls = s.calls
  keys : s'.keys = s.keys
  files : s'.files = s.files
  logs : s'.logs = s.logs
  waiting : s'.waiting = s.waiting
  taken : s'.taken = s.taken

theorem Same.owns (h : Same s s') {id : JsString} : s'.Owns C pid id ↔ s.Owns C pid id := by
  rw [World.Owns, World.Owns, h.drawnBy]

theorem Same.published (h : Same s s') (jobId : JsString) :
    s'.Published jobId ↔ s.Published jobId := by
  rw [World.Published, World.Published, h.waiting, h.taken]

theorem Same.sound (h : Same s s') (hs : Sound C s) : Sound C s' where
  drawers p hp := by
    rw [h.calls]
    exact hs.drawers p (h.drawnBy ▸ hp)
  unwritten n hn := by
    rw [h.files]
    exact hs.unwritten n (h.drawnBy ▸ hn)
  origin k hk := by
    rw [h.keys] at hk
    obtain ⟨pid, file, hcall, hid, ⟨id, hfid, hpath⟩, hfile⟩ := hs.origin k hk
    refine ⟨pid, file, ?_, h.owns.mpr hid, ⟨id, h.owns.mpr hfid, hpath⟩, ?_⟩
    · rw [h.calls]
      exact hcall
    · rw [h.files]
      exact hfile
  nodup := by
    rw [h.keys]
    exact hs.nodup
  logged log hlog := by
    rw [h.keys]
    exact hs.logged log (h.logs ▸ hlog)
  queued k hk := by
    rw [World.logsOf, h.logs]
    exact hs.queued k (h.keys ▸ hk)
  published j hj := by
    rw [h.keys]
    exact hs.published j ((h.published j).mp hj)

theorem Same.guar (h : Same s s') (hc : ContainersKept s s')
    (hj : (∀ jobId, c ≠ .processJob jobId) → s'.jobs = s.jobs)
    (ht : ∀ p, p ≠ pid → s'.transactions p = s.transactions p) : Guar C pid c s s' where
  sound := h.sound
  drawn := ⟨0, by simp [h.drawnBy]⟩
  calls := h.calls
  keys := ⟨[], by simp [h.keys]⟩
  files path := Or.inl (by rw [h.files])
  transactions := ht
  published j hj := (h.published j).mpr hj
  taken := h.taken
  containers := hc
  adds hne := .of_eq (hj hne) h.logs

/-- A draw. -/
theorem guar_draw (hpid : pid < s.calls.length) :
    Guar C pid c s { s with drawnBy := s.drawnBy ++ [pid] } where
  sound hs :=
    have hown : ∀ {p : Nat} {id : JsString}, s.Owns C p id →
        ({ s with drawnBy := s.drawnBy ++ [pid] } : World).Owns C p id := owns_mono rfl
    { drawers := fun p hp => by
        rcases List.mem_append.mp hp with hp | hp
        · exact hs.drawers p hp
        · rw [List.mem_singleton.mp hp]
          exact hpid
      unwritten := fun n hn => hs.unwritten n (by
        rw [List.length_append] at hn
        omega)
      origin := fun k hk => by
        obtain ⟨p, file, hcall, hid, ⟨id, hfid, hpath⟩, hfile⟩ := hs.origin k hk
        exact ⟨p, file, hcall, hown hid, ⟨id, hown hfid, hpath⟩, hfile⟩
      nodup := hs.nodup
      logged := hs.logged
      queued := hs.queued
      published := hs.published }
  drawn := ⟨1, rfl⟩
  calls := rfl
  keys := ⟨[], by simp [World.keys]⟩
  files _ := Or.inl rfl
  transactions _ _ := rfl
  published _ := id
  taken := rfl
  containers := .of_eq rfl
  adds _ := .of_eq rfl rfl

theorem owns_draw :
    ({ s with drawnBy := s.drawnBy ++ [pid] } : World).Owns C pid
      (C.ulid.text s.drawnBy.length) :=
  ⟨s.drawnBy.length, List.getElem?_concat_length, rfl⟩

/-- What others drew before is not what is drawn now. -/
theorem owns_draw_cases {id : JsString}
    (h : ({ s with drawnBy := s.drawnBy ++ [pid] } : World).Owns C pid' id) :
    s.Owns C pid' id ∨ (pid' = pid ∧ id = C.ulid.text s.drawnBy.length) := by
  obtain ⟨n, hn, rfl⟩ := h
  by_cases hlt : n < s.drawnBy.length
  · exact Or.inl ⟨n, by rwa [List.getElem?_append_left hlt] at hn, rfl⟩
  · have hlen := (List.getElem?_eq_some_iff.mp hn).1
    rw [List.length_append, List.length_singleton] at hlen
    obtain rfl : n = s.drawnBy.length := by omega
    rw [List.getElem?_concat_length] at hn
    exact Or.inr ⟨(Option.some.inj hn).symm, rfl⟩

/-! ### The calls of the worker -/

/-- A job that has a row with the key `k`. -/
theorem job?_of_mem_keys {k : JobKey} (hk : k ∈ s.keys) : ∃ row, s.job? k.id = some row := by
  obtain ⟨row, hrow, rfl⟩ := List.mem_map.mp hk
  have : (s.jobs.find? fun r => r.id = row.id).isSome = true := by
    rw [List.find?_isSome]
    exact ⟨row, hrow, decide_eq_true rfl⟩
  exact Option.isSome_iff_exists.mp this

theorem mem_of_job? {jobId : JsString} {row : ExecutionJob} (h : s.job? jobId = some row) :
    row ∈ s.jobs ∧ row.id = jobId := by
  have hid : decide (row.id = jobId) = true :=
    List.find?_some (p := fun row : ExecutionJob => decide (row.id = jobId)) h
  exact ⟨List.mem_of_find?_eq_some h, of_decide_eq_true hid⟩

theorem mem_keys_of_job? {jobId : JsString} {row : ExecutionJob} (h : s.job? jobId = some row) :
    row.key ∈ s.keys ∧ row.id = jobId :=
  ⟨List.mem_map_of_mem (mem_of_job? h).1, (mem_of_job? h).2⟩

theorem keys_withUpdate (s : World) (jobId : JsString) (changes : JobUpdate) :
    (s.withUpdate jobId changes).keys = s.keys := by
  rw [World.keys, World.keys, World.withUpdate, List.map_map]
  refine List.map_congr_left fun row _ => ?_
  rw [Function.comp_apply]
  split <;> rfl

theorem mem_ids_iff {jobId : JsString} :
    jobId ∈ s.jobs.map ExecutionJob.id ↔ ∃ k ∈ s.keys, k.id = jobId := by
  rw [World.keys, List.mem_map]
  constructor
  · rintro ⟨row, hrow, rfl⟩
    exact ⟨row.key, List.mem_map_of_mem hrow, rfl⟩
  · rintro ⟨k, hk, rfl⟩
    obtain ⟨row, hrow, rfl⟩ := List.mem_map.mp hk
    exact ⟨row, hrow, rfl⟩

/-- Saving an entry of a job that has a row. -/
theorem guar_saveStatusLog {jobId : JsString} {row : ExecutionJobStatusLog}
    (hid : row.jobId ∈ s.jobs.map ExecutionJob.id) :
    Guar C pid (.processJob jobId) s { s with logs := s.logs ++ [row] } where
  sound hs :=
    { drawers := hs.drawers
      unwritten := hs.unwritten
      origin := hs.origin
      nodup := hs.nodup
      logged := fun log hlog => by
        rcases List.mem_append.mp hlog with hlog | hlog
        · exact hs.logged log hlog
        · rw [List.mem_singleton.mp hlog]
          exact mem_ids_iff.mp hid
      queued := fun k hk => by
        obtain ⟨log, hhead, hq⟩ := hs.queued k hk
        exact ⟨log, World.head?_logsOf_of_append (s := s) rfl hhead, hq⟩
      published := hs.published }
  drawn := ⟨0, by simp⟩
  calls := rfl
  keys := ⟨[], by simp [World.keys]⟩
  files _ := Or.inl rfl
  transactions _ _ := rfl
  published _ := id
  taken := rfl
  containers := .of_eq rfl
  adds hne := absurd rfl (hne jobId)

theorem same_withUpdate (s : World) (jobId : JsString) (changes : JobUpdate) :
    Same s (s.withUpdate jobId changes) where
  drawnBy := rfl
  calls := rfl
  keys := keys_withUpdate s jobId changes
  files := rfl
  logs := rfl
  waiting := rfl
  taken := rfl

theorem same_modifyContainer (s : World) (n : Nat) (f : Container → Container) :
    Same s (s.modifyContainer n f) where
  drawnBy := rfl
  calls := rfl
  keys := rfl
  files := rfl
  logs := rfl
  waiting := rfl
  taken := rfl

theorem same_createContainer (s : World) (c : Container) :
    Same s { s with containers := s.containers ++ [c] } where
  drawnBy := rfl
  calls := rfl
  keys := rfl
  files := rfl
  logs := rfl
  waiting := rfl
  taken := rfl

theorem containersKept_create (s : World) (c : Container) :
    ContainersKept s { s with containers := s.containers ++ [c] } := by
  intro n c' hc
  refine ⟨c', ?_, rfl, fun _ he => ⟨he, rfl⟩⟩
  rw [List.getElem?_append_left (List.getElem?_eq_some_iff.mp hc).1]
  exact hc

theorem containersKept_modify {n : Nat} {f : Container → Container} (hf : Container.Keeps f) :
    ContainersKept s (s.modifyContainer n f) := by
  intro m c hc
  by_cases hm : n = m
  · subst hm
    refine ⟨f c, ?_, (hf c).1, fun code he => ⟨(hf c).2.2 code he, (hf c).2.1⟩⟩
    rw [World.modifyContainer, List.getElem?_modify_eq, hc]
    rfl
  · refine ⟨c, ?_, rfl, fun _ he => ⟨he, rfl⟩⟩
    rw [World.modifyContainer, List.getElem?_modify_ne f _ hm]
    exact hc

/-- The calls that the worker makes once it has found the row and the file. -/
def WorkerCmd : Cmd → Prop
  | .saveStatusLog _ => True
  | .updateJob _ _ => True
  | .createContainer _ => True
  | .startContainer _ => True
  | .waitOrTimeout _ => True
  | .killContainer _ => True
  | .removeContainer _ => True
  | .containerLogs _ => True
  | _ => False

/-- A step that adds no row, no entry and no result. -/
structure Quiet (s s' : World) : Prop where
  same : Same s s'
  jobs : s'.jobs = s.jobs
  transactions : s'.transactions = s.transactions
  containers : ContainersKept s s'

theorem Quiet.refl : Quiet s s :=
  ⟨⟨rfl, rfl, rfl, rfl, rfl, rfl, rfl⟩, rfl, rfl, .of_eq rfl⟩

theorem Quiet.guar (h : Quiet s s') : Guar C pid c s s' :=
  h.same.guar h.containers (fun _ => h.jobs) fun _ _ => by rw [h.transactions]

theorem quiet_modifyContainer {n : Nat} {f : Container → Container} (hf : Container.Keeps f) :
    Quiet s (s.modifyContainer n f) :=
  ⟨same_modifyContainer s n f, rfl, rfl, containersKept_modify hf⟩

/-- What a call of the worker does: it saves an entry of a job that has a row,
or updates a row, or nothing of the two. -/
inductive WorkerStep : (c : Cmd) → Except JsError (sig.Res c) → World → World → Prop
  | quiet {c x s s'} (h : Quiet s s') (he : ∀ e, x = .error e → e.Ordinary) : WorkerStep c x s s'
  | saved {row s} (hid : row.jobId ∈ s.jobs.map ExecutionJob.id) :
    WorkerStep (.saveStatusLog row) (.ok ()) s { s with logs := s.logs ++ [row] }
  | updated {id changes s} : WorkerStep (.updateJob id changes) (.ok ()) s (s.withUpdate id changes)

theorem WorkerStep.of_failed {c : Cmd} {x : Except JsError (sig.Res c)} (h : Failed x s s') :
    WorkerStep c x s s' := by
  obtain ⟨e, rfl, he, rfl⟩ := h
  refine .quiet .refl fun e' he' => ?_
  obtain rfl := Except.error.inj he'
  exact he

theorem WorkerStep.of_quiet {c : Cmd} {a : sig.Res c} {x : Except JsError (sig.Res c)}
    (hx : x = .ok a) (h : Quiet s s') : WorkerStep c x s s' :=
  .quiet h fun e he => by rw [hx] at he; cases he

theorem workerStep {c : Cmd} (hc : WorkerCmd c) {r : Reply} {x : Except JsError (sig.Res c)}
    (h : perform pid c r s = some (x, s')) : WorkerStep c x s s' := by
  cases c with
  | saveStatusLog row =>
    rcases perform_saveStatusLog h with ⟨rfl, hid, rfl⟩ | hf
    · exact .saved hid
    · exact .of_failed hf
  | updateJob id changes =>
    rcases perform_updateJob h with ⟨rfl, -, rfl⟩ | hf
    · exact .updated
    · exact .of_failed hf
  | createContainer file =>
    rcases perform_createContainer h with ⟨hx, rfl⟩ | hf
    · exact .of_quiet hx ⟨same_createContainer s _, rfl, rfl, containersKept_create s _⟩
    · exact .of_failed hf
  | startContainer n =>
    rcases perform_startContainer h with ⟨hx, f, hk, rfl⟩ | hf
    · exact .of_quiet hx (quiet_modifyContainer hk)
    · exact .of_failed hf
  | waitOrTimeout n =>
    rcases perform_waitOrTimeout h with ⟨c, code, hx, -, -, rfl⟩ | hf
    · exact .of_quiet hx .refl
    · exact .of_failed hf
  | killContainer n =>
    rcases perform_killContainer h with ⟨hx, f, hk, rfl⟩ | hf
    · exact .of_quiet hx (quiet_modifyContainer hk)
    · exact .of_failed hf
  | removeContainer n =>
    rcases perform_removeContainer h with ⟨hx, f, hk, rfl⟩ | hf
    · exact .of_quiet hx (quiet_modifyContainer hk)
    · exact .of_failed hf
  | containerLogs n =>
    rcases perform_containerLogs h with ⟨c, hx, -, rfl⟩ | hf
    · exact .of_quiet hx .refl
    · exact .of_failed hf
  | _ => exact hc.elim

/-- **A call of the worker is within the guarantee.** -/
theorem WorkerStep.guar {jobId : JsString} {c : Cmd} {x : Except JsError (sig.Res c)}
    (h : WorkerStep c x s s') : Guar C pid (.processJob jobId) s s' := by
  cases h with
  | quiet h _ => exact h.guar
  | saved hid => exact guar_saveStatusLog hid
  | updated =>
    exact (same_withUpdate s _ _).guar (.of_eq rfl) (fun hne => absurd rfl (hne jobId))
      fun _ _ => rfl

/-- The errors of its calls are ordinary. -/
theorem WorkerStep.ordinary {c : Cmd} {x : Except JsError (sig.Res c)} (h : WorkerStep c x s s')
    {e : JsError} (hx : x = .error e) : e.Ordinary := by
  cases h with
  | quiet _ he => exact he e hx
  | saved => cases hx
  | updated => cases hx

end FullstackSvc.Execution
