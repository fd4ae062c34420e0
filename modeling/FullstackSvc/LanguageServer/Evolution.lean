import FullstackSvc.Async.Extends
import FullstackSvc.LanguageServer.Programs

/-!
# What a step changes

`perform_cases` is the inversion of a call: it has succeeded, or it has failed
and done nothing, or it has left a part of a file.  From it comes one lemma for
each table of the state (`redis_perform`, `containers_perform`,
`volume_perform`), which says which calls change it and how.

`Advances s s'` holds of every step: ids, requests, keys, containers, clients,
sockets and the log of calls are only added to, and a container only goes on.
-/

namespace FullstackSvc.LanguageServer

open Text Async FullstackSvc.Lsp FullstackSvc.Store

variable {N : Type} {C : Config N} {s s' s'' : World} {pid : Nat} {cmd : Cmd} {r : Reply}
  {x : Except JsError (sig.Res cmd)}

/-! ### The end of a call -/

/-- The world makes the call fail. -/
def Reply.faulty : Reply → Bool
  | .fails _ _ => true
  | .failsAfter _ _ _ => true
  | _ => false

/-- How a call may end. -/
inductive Ended (pid : Nat) (cmd : Cmd) (r : Reply) (s : World) :
    Except JsError (sig.Res cmd) → World → Prop
  | done (a : sig.Res cmd) (free : s.refuses cmd = none)
      (said : s.answer cmd = some a ∨ s.answer cmd = none ∨ ∃ n, cmd = .inspect n)
      (kind : r.faulty = false) :
      Ended pid cmd r s (.ok a) ((s.after pid cmd).note pid cmd (.ok a))
  | failed (e : JsError) (why : r.faulty = true ∨ s.refuses cmd = some e) :
      Ended pid cmd r s (.error e) (s.note pid cmd (.error e))
  | cut (e : JsError) (path : JsString) (bytes part : Bytes) (eq : cmd = .writeBytes path bytes)
      (kind : r.faulty = true) :
      Ended pid cmd r s (.error e) ((s.writeBytes path part).note pid cmd (.error e))

theorem not_dead_of_perform (h : perform pid cmd r s = some (x, s')) : s.dead pid = false := by
  unfold perform at h
  split at h
  · cases h
  · rename_i hb
    rw [Bool.eq_false_iff]
    intro hd
    apply hb
    unfold World.blocked
    rw [hd]
    rfl

/-- **Inversion of a call.** -/
theorem perform_cases (h : perform pid cmd r s = some (x, s')) : Ended pid cmd r s x s' := by
  unfold perform at h
  split at h
  · cases h
  · obtain ⟨⟨y, s₁⟩, hy, he⟩ := Option.map_eq_some_iff.mp h
    obtain ⟨rfl, rfl⟩ := Prod.mk.inj he
    cases r with
    | done =>
      simp only [performReply] at hy
      split at hy
      · rename_i e hr
        obtain ⟨rfl, rfl⟩ := Prod.mk.inj (Option.some.inj hy)
        exact .failed e (Or.inr hr)
      · rename_i hr
        obtain ⟨a, ha, he⟩ := Option.map_eq_some_iff.mp hy
        obtain ⟨rfl, rfl⟩ := Prod.mk.inj he
        exact .done a hr (Or.inl ha) rfl
    | fails name message =>
      simp only [performReply] at hy
      split at hy
      · cases hy
      · obtain ⟨rfl, rfl⟩ := Prod.mk.inj (Option.some.inj hy)
        exact .failed _ (Or.inl rfl)
    | failsAfter n name message =>
      cases cmd with
      | writeBytes path bytes =>
        obtain ⟨rfl, rfl⟩ := Prod.mk.inj (Option.some.inj hy)
        exact .cut _ path bytes _ rfl rfl
      | _ => cases hy
    | keys found =>
      cases cmd with
      | redisKeys start =>
        simp only [performReply] at hy
        split at hy
        · obtain ⟨rfl, rfl⟩ := Prod.mk.inj (Option.some.inj hy)
          exact @Ended.done pid (.redisKeys start) (.keys found) s found rfl (Or.inr (Or.inl rfl)) rfl
        · cases hy
      | _ => cases hy
    | unattached =>
      cases cmd with
      | inspect n =>
        simp only [performReply] at hy
        split at hy
        · rename_i hn
          obtain ⟨rfl, rfl⟩ := Prod.mk.inj (Option.some.inj hy)
          obtain ⟨phase, hphase⟩ := Option.isSome_iff_exists.mp hn
          refine @Ended.done pid (.inspect n) .unattached s none ?_ (Or.inr (Or.inr ⟨n, rfl⟩)) rfl
          rw [World.refuses, hphase]
        · cases hy
      | _ => cases hy

theorem outcome_error (cmd : Cmd) (e : JsError) :
    outcome cmd (.error e : Except JsError (sig.Res cmd)) = .failed := by
  cases cmd <;> rfl

/-- A call that has not failed has not been made to fail. -/
theorem not_faulty (h : perform pid cmd r s = some (x, s')) (ho : outcome cmd x ≠ .failed) :
    r.faulty = false := by
  cases perform_cases h with
  | done a free said kind => exact kind
  | failed e why => exact absurd (outcome_error cmd e) ho
  | cut e path bytes part eq => exact absurd (outcome_error cmd e) ho

theorem outcome_ok (cmd : Cmd) (a : sig.Res cmd) : outcome cmd (.ok a) ≠ .failed := by
  cases cmd with
  | redisGet key =>
    rw [outcome]
    split <;> decide
  | redisTtl key =>
    rw [outcome]
    split <;> decide
  | redisExists key =>
    rw [outcome]
    split <;> decide
  | _ => exact fun h => by cases h

/-- A call that fails and has not been made to fail has been refused. -/
theorem refused_of_failed (h : perform pid cmd r s = some (x, s')) (ho : outcome cmd x = .failed)
    (hr : r.faulty = false) : s.refuses cmd ≠ none := by
  intro hfree
  cases perform_cases h with
  | done a free said kind => exact outcome_ok cmd a ho
  | failed e why =>
    rcases why with why | why
    · cases hr.symm.trans why
    · cases hfree.symm.trans why
  | cut e path bytes part eq kind => cases hr.symm.trans kind

/-- What a call answers, where the state decides. -/
theorem answer_perform {a b : sig.Res cmd} (h : perform pid cmd r s = some (.ok a, s'))
    (hb : s.answer cmd = some b) (hi : ∀ n, cmd ≠ .inspect n) : a = b := by
  cases perform_cases h with
  | done a free said =>
    rcases said with ha | ha | ⟨n, hn⟩
    · exact Option.some.inj (ha.symm.trans hb)
    · cases ha.symm.trans hb
    · exact absurd hn (hi n)

/-- A call that succeeds has not been refused, and has done what it does. -/
theorem ok_perform {a : sig.Res cmd} (h : perform pid cmd r s = some (.ok a, s')) :
    s.refuses cmd = none ∧ r.faulty = false ∧ s' = (s.after pid cmd).note pid cmd (.ok a) := by
  cases perform_cases h with
  | done a free said kind => exact ⟨free, kind, rfl⟩

/-- The address belongs to the container that was inspected. -/
theorem answer_inspect {n m : Nat} (h : perform pid (.inspect n) r s = some (.ok (some m), s')) :
    m = n := by
  unfold perform at h
  split at h
  · cases h
  · obtain ⟨⟨y, s₁⟩, hy, he⟩ := Option.map_eq_some_iff.mp h
    obtain ⟨rfl, rfl⟩ := Prod.mk.inj he
    cases r with
    | done =>
      simp only [performReply] at hy
      split at hy
      · cases (Prod.mk.inj (Option.some.inj hy)).1
      · obtain ⟨a, ha, he⟩ := Option.map_eq_some_iff.mp hy
        obtain rfl := Except.ok.inj (Prod.mk.inj he).1
        have ha' : (if s.phase? n = some .running then some n else none) = some m :=
          Option.some.inj ha
        split at ha'
        · exact (Option.some.inj ha').symm
        · cases ha'
    | unattached =>
      simp only [performReply] at hy
      split at hy
      · have he := Except.ok.inj (Prod.mk.inj (Option.some.inj hy)).1
        cases he
      · cases hy
    | fails name message =>
      simp only [performReply] at hy
      split at hy
      · cases hy
      · cases (Prod.mk.inj (Option.some.inj hy)).1
    | failsAfter n name message => cases hy
    | keys found => cases hy

theorem answer_redisKeys {start : JsString} {keys : List JsString}
    (h : perform pid (.redisKeys start) r s = some (.ok keys, s')) : keys.Perm (s.liveKeys start) := by
  unfold perform at h
  split at h
  · cases h
  · obtain ⟨⟨y, s₁⟩, hy, he⟩ := Option.map_eq_some_iff.mp h
    obtain ⟨rfl, rfl⟩ := Prod.mk.inj he
    cases r with
    | keys found =>
      simp only [performReply] at hy
      split at hy
      · rename_i hp
        obtain rfl := Except.ok.inj (Prod.mk.inj (Option.some.inj hy)).1
        exact hp
      · cases hy
    | done => cases hy
    | fails name message =>
      simp only [performReply] at hy
      split at hy
      · cases hy
      · cases (Prod.mk.inj (Option.some.inj hy)).1
    | failsAfter n name message => cases hy
    | unattached => cases hy

/-- A property of what a call does is one of a success, of the record of the
call, and of the bytes of a file. -/
theorem perform_induction {Q : World → Prop} (h : perform pid cmd r s = some (x, s'))
    (done : s.refuses cmd = none → Q (s.after pid cmd)) (failed : Q s)
    (cut : ∀ path bytes, Q (s.writeBytes path bytes)) (note : ∀ s₁, Q s₁ → Q (s₁.note pid cmd x)) :
    Q s' := by
  cases perform_cases h with
  | done a free said => exact note _ (done free)
  | failed e why => exact note _ failed
  | cut e path bytes part eq => exact note _ (cut path part)

theorem writeBytes_eq (s : World) (path : JsString) (bytes : Bytes) :
    ∃ files, s.writeBytes path bytes = { s with files := files } := by
  unfold World.writeBytes
  split
  · exact ⟨_, rfl⟩
  · exact ⟨s.files, rfl⟩

/-! ### What calls change -/

/-- What only operations and the environment change is the same. -/
structure Still (s s' : World) : Prop where
  now : s'.now = s.now
  drawnBy : s'.drawnBy = s.drawnBy
  calls : s'.calls = s.calls
  containerMap : s'.containerMap = s.containerMap
  workerBirth : s'.workerBirth = s.workerBirth
  stopTasks : s'.stopTasks = s.stopTasks
  clients : s'.clients = s.clients
  clientSessions : s'.clientSessions = s.clientSessions
  sockets : s'.sockets = s.sockets
  delivered : s'.delivered = s.delivered
  writes : s'.writes = s.writes
  inside : s'.inside = s.inside

theorem Still.refl : Still s s :=
  ⟨rfl, rfl, rfl, rfl, rfl, rfl, rfl, rfl, rfl, rfl, rfl, rfl⟩

theorem still_writeBytes (path : JsString) (bytes : Bytes) : Still s (s.writeBytes path bytes) := by
  obtain ⟨files, he⟩ := writeBytes_eq s path bytes
  rw [he]
  exact ⟨rfl, rfl, rfl, rfl, rfl, rfl, rfl, rfl, rfl, rfl, rfl, rfl⟩

theorem expire_cases (s : World) (key : JsString) (seconds : Nat) :
    (s.record? key = none ∧ s.expire key seconds = s) ∨
      ∃ e, s.record? key = some e ∧ s.expire key seconds =
        { s with redis := s.redis.insert key ⟨e.value, s.now + 1000 * seconds⟩ } := by
  unfold World.expire
  split
  · rename_i h
    exact Or.inl ⟨h, rfl⟩
  · rename_i e h
    exact Or.inr ⟨e, h, rfl⟩

theorem still_after (s : World) (pid : Nat) (cmd : Cmd) : Still s (s.after pid cmd) := by
  cases cmd with
  | redisExpire key seconds =>
    show Still s (s.expire key seconds)
    rcases expire_cases s key seconds with ⟨-, he⟩ | ⟨e, -, he⟩
    · rw [he]
      exact .refl
    · rw [he]
      exact ⟨rfl, rfl, rfl, rfl, rfl, rfl, rfl, rfl, rfl, rfl, rfl, rfl⟩
  | writeBytes path bytes => exact still_writeBytes path bytes
  | _ => exact ⟨rfl, rfl, rfl, rfl, rfl, rfl, rfl, rfl, rfl, rfl, rfl, rfl⟩

theorem still_perform (h : perform pid cmd r s = some (x, s')) : Still s s' := by
  refine perform_induction (Q := Still s) h (fun _ => still_after s pid cmd) .refl
    still_writeBytes fun s₁ hs => ?_
  exact ⟨hs.now, hs.drawnBy, hs.calls, hs.containerMap, hs.workerBirth, hs.stopTasks, hs.clients,
    hs.clientSessions, hs.sockets, hs.delivered, hs.writes, hs.inside⟩

/-- Every call has its entry in the log. -/
theorem log_perform (h : perform pid cmd r s = some (x, s')) :
    s'.log = s.log ++ [⟨pid, cmd, outcome cmd x, s.now, s.inside pid⟩] := by
  have hlog : ∀ s₁ : World, s₁.log = s.log → Still s s₁ → (s₁.note pid cmd x).log =
      s.log ++ [⟨pid, cmd, outcome cmd x, s.now, s.inside pid⟩] := by
    intro s₁ hl hs
    rw [World.note, hl, hs.now, hs.inside]
  have hbytes : ∀ path bytes, (s.writeBytes path bytes).log = s.log := by
    intro path bytes
    obtain ⟨files, he⟩ := writeBytes_eq s path bytes
    rw [he]
  have hafter : (s.after pid cmd).log = s.log := by
    cases cmd with
    | redisExpire key seconds =>
      show (s.expire key seconds).log = s.log
      rcases expire_cases s key seconds with ⟨-, he⟩ | ⟨e, -, he⟩
      · rw [he]
      · rw [he]
    | writeBytes path bytes => exact hbytes path bytes
    | _ => rfl
  cases perform_cases h with
  | done a free said => exact hlog _ hafter (still_after s pid cmd)
  | failed e why => exact hlog _ rfl .refl
  | cut e path bytes part eq => exact hlog _ (hbytes path part) (still_writeBytes path part)

/-- **What a call does to the records.** -/
inductive RedisChange (cmd : Cmd) (out : Outcome) (s s' : World) : Prop
  | same (eq : s'.redis = s.redis)
      (unset : ∀ key seconds d, cmd = .redisSetex key seconds d → out ≠ .done)
      (absent : ∀ key seconds, cmd = .redisExpire key seconds → out = .done → s.record? key = none)
  | setex (key : JsString) (seconds : Nat) (value : SessionData)
      (cmd_eq : cmd = .redisSetex key seconds value) (out_eq : out = .done) (pos : 0 < seconds)
      (eq : s'.redis = s.redis.insert key ⟨value, s.now + 1000 * seconds⟩)
  | expire (key : JsString) (seconds : Nat) (e : RedisEntry)
      (cmd_eq : cmd = .redisExpire key seconds) (out_eq : out = .done) (found : s.record? key = some e)
      (eq : s'.redis = s.redis.insert key ⟨e.value, s.now + 1000 * seconds⟩)

theorem redis_perform (h : perform pid cmd r s = some (x, s')) :
    RedisChange cmd (outcome cmd x) s s' := by
  cases perform_cases h with
  | failed e why =>
    rw [outcome_error]
    exact .same rfl (fun _ _ _ _ he => by cases he) fun _ _ _ he => by cases he
  | cut e path bytes part eq =>
    obtain ⟨files, he⟩ := writeBytes_eq s path part
    rw [outcome_error]
    exact .same (by rw [he]; rfl) (fun _ _ _ _ he => by cases he) fun _ _ _ he => by cases he
  | done a free said =>
    cases cmd with
    | redisSetex key seconds value =>
      refine .setex key seconds value rfl rfl ?_ rfl
      by_contra hs
      rw [World.refuses, if_pos (by omega)] at free
      cases free
    | redisExpire key seconds =>
      rcases expire_cases s key seconds with ⟨hrec, he⟩ | ⟨e, hrec, he⟩
      · refine .same ?_ (fun _ _ _ he => by cases he) fun key' seconds' he _ => ?_
        · show (s.expire key seconds).redis = s.redis
          rw [he]
        · obtain ⟨rfl, -⟩ := Cmd.redisExpire.inj he
          exact hrec
      · refine .expire key seconds e rfl rfl hrec ?_
        show (s.expire key seconds).redis = _
        rw [he]
    | writeBytes path bytes =>
      obtain ⟨files, he⟩ := writeBytes_eq s path bytes
      refine .same ?_ (fun _ _ _ he => by cases he) fun _ _ he => by cases he
      show (s.writeBytes path bytes).redis = s.redis
      rw [he]
    | _ => exact .same rfl (fun _ _ _ he => by cases he) fun _ _ he => by cases he

/-- **What a call does to the containers.** -/
inductive ContainerChange (pid : Nat) (cmd : Cmd) (out : Outcome) (s s' : World) : Prop
  | same (eq : s'.containers = s.containers)
  | create (name : JsString) (cmd_eq : cmd = .createContainer name) (out_eq : out = .done)
      (free : s.nameTaken name = false)
      (eq : s'.containers = s.containers ++ [⟨name, .created, pid, none, false⟩])
  | start (n : Nat) (phase : ContainerPhase) (cmd_eq : cmd = .startContainer n) (out_eq : out = .done)
      (found : s.phase? n = some phase) (idle : phase ≠ .running)
      (eq : s'.containers = s.containers.modify n fun k => { k with phase := .running })
  | stop (n : Nat) (cmd_eq : cmd = .stopContainer n) (out_eq : out = .done)
      (found : s.phase? n = some .running)
      (eq : s'.containers = s.containers.modify n fun k =>
        { k with phase := .stopped, stopper := k.stopper <|> some pid })
  | remove (n : Nat) (phase : ContainerPhase) (cmd_eq : cmd = .removeContainer n)
      (out_eq : out = .done) (found : s.phase? n = some phase) (idle : phase ≠ .running)
      (eq : s'.containers = s.containers.modify n fun k => { k with phase := .removed })

theorem containers_perform (h : perform pid cmd r s = some (x, s')) :
    ContainerChange pid cmd (outcome cmd x) s s' := by
  cases perform_cases h with
  | failed e why => exact .same rfl
  | cut e path bytes part eq =>
    obtain ⟨files, he⟩ := writeBytes_eq s path part
    exact .same (by rw [he]; rfl)
  | done a free said =>
    cases cmd with
    | createContainer name =>
      refine .create name rfl rfl ?_ rfl
      by_contra hn
      rw [World.refuses, if_pos (by simpa using hn)] at free
      cases free
    | startContainer n =>
      simp only [World.refuses] at free
      split at free
      · cases free
      · rename_i phase hphase
        split at free
        · cases free
        · rename_i hne
          exact .start n phase rfl rfl hphase hne rfl
    | stopContainer n =>
      simp only [World.refuses] at free
      split at free
      · cases free
      · rename_i phase hphase
        split at free
        · rename_i he
          exact .stop n rfl rfl (he ▸ hphase) rfl
        · cases free
    | removeContainer n =>
      simp only [World.refuses] at free
      split at free
      · cases free
      · rename_i phase hphase
        split at free
        · cases free
        · rename_i hne
          exact .remove n phase rfl rfl hphase hne rfl
    | redisExpire key seconds =>
      refine .same ?_
      show (s.expire key seconds).containers = s.containers
      rcases expire_cases s key seconds with ⟨-, he⟩ | ⟨e, -, he⟩
      · rw [he]
      · rw [he]
    | writeBytes path bytes =>
      obtain ⟨files, he⟩ := writeBytes_eq s path bytes
      refine .same ?_
      show (s.writeBytes path bytes).containers = s.containers
      rw [he]
    | _ => exact .same rfl

/-- **What a call does to the volume.** -/
inductive VolumeChange (cmd : Cmd) (out : Outcome) (s s' : World) : Prop
  | same (directories : s'.directories = s.directories) (files : s'.files = s.files)
      (unremoved : ∀ path, cmd = .rm path → out ≠ .done)
  | mkdir (path : JsString) (cmd_eq : cmd = .mkdir path) (out_eq : out = .done)
      (directories : s'.directories = Function.update s.directories path true)
      (files : s'.files = s.files)
  | file (path : JsString) (cmd_eq : cmd = .openFile path ∨ ∃ bytes, cmd = .writeBytes path bytes)
      (directories : s'.directories = s.directories)
      (files : ∀ p, p ≠ path → s'.files p = s.files p)
      (left : (s.files path).isSome → (s'.files path).isSome)
  | rm (path : JsString) (cmd_eq : cmd = .rm path) (out_eq : out = .done)
      (directories : s'.directories = fun p => s.directories p && !within path p)
      (files : s'.files = fun p => if within path p then none else s.files p)

theorem writeBytes_volume (s : World) (path : JsString) (bytes : Bytes) :
    (s.writeBytes path bytes).directories = s.directories ∧
      (∀ p, p ≠ path → (s.writeBytes path bytes).files p = s.files p) ∧
      ((s.files path).isSome → ((s.writeBytes path bytes).files path).isSome) := by
  unfold World.writeBytes
  split
  · refine ⟨rfl, fun p hp => Function.update_of_ne hp _ _, fun _ => ?_⟩
    show (Function.update s.files path (some bytes) path).isSome
    rw [Function.update_self]
    rfl
  · exact ⟨rfl, fun _ _ => rfl, fun h => h⟩

theorem volume_perform (h : perform pid cmd r s = some (x, s')) :
    VolumeChange cmd (outcome cmd x) s s' := by
  cases perform_cases h with
  | failed e why =>
    rw [outcome_error]
    exact .same rfl rfl fun _ _ he => by cases he
  | cut e path bytes part eq =>
    obtain ⟨hd, hf, hl⟩ := writeBytes_volume s path part
    exact .file path (Or.inr ⟨bytes, eq⟩) hd hf hl
  | done a free said =>
    cases cmd with
    | mkdir path => exact .mkdir path rfl rfl rfl rfl
    | openFile path =>
      refine .file path (Or.inl rfl) rfl (fun p hp => Function.update_of_ne hp _ _) fun _ => ?_
      show (Function.update s.files path (some []) path).isSome
      rw [Function.update_self]
      rfl
    | writeBytes path bytes =>
      obtain ⟨hd, hf, hl⟩ := writeBytes_volume s path bytes
      exact .file path (Or.inr ⟨bytes, rfl⟩) hd hf hl
    | rm path => exact .rm path rfl rfl rfl rfl
    | redisExpire key seconds =>
      have hsame : (s.expire key seconds).directories = s.directories ∧
          (s.expire key seconds).files = s.files := by
        rcases expire_cases s key seconds with ⟨-, he⟩ | ⟨e, -, he⟩
        · rw [he]
          exact ⟨rfl, rfl⟩
        · rw [he]
          exact ⟨rfl, rfl⟩
      exact .same hsame.1 hsame.2 fun _ he => by cases he
    | _ => exact .same rfl rfl fun _ he => by cases he

/-! ### What a process has read -/

theorem lastGet_perform (h : perform pid cmd r s = some (x, s')) :
    s'.lastGet = s.lastGet ∨ ∃ key, cmd = .redisGet key ∧ outcome cmd x ≠ .failed ∧
      s'.lastGet = Function.update s.lastGet pid ((s.record? key).map fun e => (key, e.value)) := by
  cases perform_cases h with
  | failed e why => exact Or.inl rfl
  | cut e path bytes part eq =>
    obtain ⟨files, he⟩ := writeBytes_eq s path part
    exact Or.inl (by rw [he]; rfl)
  | done a free said =>
    cases cmd with
    | redisGet key =>
      refine Or.inr ⟨key, rfl, ?_, rfl⟩
      rw [outcome]
      split <;> decide
    | redisExpire key seconds =>
      refine Or.inl ?_
      show (s.expire key seconds).lastGet = s.lastGet
      rcases expire_cases s key seconds with ⟨-, he⟩ | ⟨e, -, he⟩
      · rw [he]
      · rw [he]
    | writeBytes path bytes =>
      obtain ⟨files, he⟩ := writeBytes_eq s path bytes
      refine Or.inl ?_
      show (s.writeBytes path bytes).lastGet = s.lastGet
      rw [he]
    | _ => exact Or.inl rfl

theorem sighted_perform (h : perform pid cmd r s = some (x, s')) :
    s'.sighted = Function.update s.sighted pid (s.sees cmd x) := by
  cases perform_cases h with
  | failed e why => rfl
  | cut e path bytes part eq =>
    subst eq
    obtain ⟨files, he⟩ := writeBytes_eq s path part
    rw [he]
    rfl
  | done a free said =>
    cases cmd with
    | redisExpire key seconds =>
      show Function.update (s.expire key seconds).sighted pid none = _
      rcases expire_cases s key seconds with ⟨-, he⟩ | ⟨e, -, he⟩
      · rw [he]
        rfl
      · rw [he]
        rfl
    | writeBytes path bytes =>
      obtain ⟨files, he⟩ := writeBytes_eq s path bytes
      show Function.update (s.writeBytes path bytes).sighted pid none = _
      rw [he]
      rfl
    | _ => rfl

/-- A call sees a record only by `GET` and `TTL`. -/
theorem sight_of_sees {f : Sighting} (h : s.sees cmd x = some f) :
    s.sight f.key = some f ∧ (cmd = .redisGet f.key ∨ cmd = .redisTtl f.key) := by
  have hkey : ∀ {key : JsString}, s.sight key = some f → f.key = key := by
    intro key hs
    obtain ⟨e, -, rfl⟩ := Option.map_eq_some_iff.mp hs
    rfl
  cases cmd with
  | redisGet key =>
    cases x with
    | ok a =>
      have hs : s.sight key = some f := h
      obtain rfl := hkey hs
      exact ⟨hs, Or.inl rfl⟩
    | error e => cases h
  | redisTtl key =>
    cases x with
    | ok a =>
      have hs : s.sight key = some f := h
      obtain rfl := hkey hs
      exact ⟨hs, Or.inr rfl⟩
    | error e => cases h
  | _ => cases h

/-! ### What is only added to -/

def World.user? (s : World) (client : Nat) : Option JsString :=
  (s.clients[client]?).map Client.userId

/-- The socket as it was created. -/
def TcpSocket.made (t : TcpSocket) : TcpSocket :=
  newSocket t.client t.sessionId t.userId t.workspaceRoot t.container

def World.socket? (s : World) (n : Nat) : Option TcpSocket := (s.sockets[n]?).map TcpSocket.made

/-- A container goes on. -/
structure Container.Follows (k k' : Container) : Prop where
  name : k'.name = k.name
  creator : k'.creator = k.creator
  registered : k.registered = true → k'.registered = true
  stopper : ∀ p, k.stopper = some p → k'.stopper = some p
  begun : k.phase ≠ .created → k'.phase ≠ .created
  removed : k.phase = .removed → k'.phase = .removed

theorem Container.Follows.refl {k : Container} : k.Follows k :=
  ⟨rfl, rfl, fun h => h, fun _ h => h, fun h => h, fun h => h⟩

theorem Container.Follows.trans {k k' k'' : Container} (h : k.Follows k') (h' : k'.Follows k'') :
    k.Follows k'' :=
  ⟨h'.name.trans h.name, h'.creator.trans h.creator, fun hr => h'.registered (h.registered hr),
    fun p hp => h'.stopper p (h.stopper p hp), fun hb => h'.begun (h.begun hb),
    fun hr => h'.removed (h.removed hr)⟩

/-- Every container goes on. -/
def Onward (l l' : List Container) : Prop :=
  ∀ (n : Nat) (k : Container), l[n]? = some k → ∃ k', l'[n]? = some k' ∧ k.Follows k'

theorem Onward.refl {l : List Container} : Onward l l := fun _ k hk => ⟨k, hk, .refl⟩

theorem Onward.of_eq {l l' : List Container} (h : l' = l) : Onward l l' := by
  subst h
  exact .refl

theorem Onward.trans {l l' l'' : List Container} (h : Onward l l') (h' : Onward l' l'') :
    Onward l l'' := by
  intro n k hk
  obtain ⟨k', hk', hf⟩ := h n k hk
  obtain ⟨k'', hk'', hf'⟩ := h' n k' hk'
  exact ⟨k'', hk'', hf.trans hf'⟩

theorem onward_concat (l : List Container) (k : Container) : Onward l (l ++ [k]) :=
  fun n k' hk' => ⟨k', extends_concat l k n k' hk', .refl⟩

theorem onward_modify {l : List Container} {n : Nat} {f : Container → Container}
    (h : ∀ k, l[n]? = some k → k.Follows (f k)) : Onward l (l.modify n f) := by
  intro m k hk
  rw [List.getElem?_modify, hk]
  by_cases hm : n = m
  · subst hm
    refine ⟨f k, ?_, h k hk⟩
    show some (if n = n then f k else k) = some (f k)
    rw [if_pos rfl]
  · refine ⟨k, ?_, .refl⟩
    show some (if n = m then f k else k) = some k
    rw [if_neg hm]

/-- Without a call a container stays as it is, but its server may end. -/
def Container.Remains (k k' : Container) : Prop :=
  k' = k ∨ k.phase = .running ∧ k' = { k with phase := .exited }

theorem Container.Remains.follows {k k' : Container} (h : k.Remains k') : k.Follows k' := by
  rcases h with rfl | ⟨hphase, rfl⟩
  · exact .refl
  · refine ⟨rfl, rfl, fun h => h, fun _ h => h, fun _ he => (by cases he), fun hr => ?_⟩
    cases hphase.symm.trans hr

theorem Container.Remains.registered {k k' : Container} (h : k.Remains k') :
    k'.registered = k.registered := by
  rcases h with rfl | ⟨-, rfl⟩
  · rfl
  · rfl

theorem Container.Remains.stopper {k k' : Container} (h : k.Remains k') : k'.stopper = k.stopper := by
  rcases h with rfl | ⟨-, rfl⟩
  · rfl
  · rfl

theorem Container.Remains.phase {k k' : Container} (h : k.Remains k') :
    k'.phase = k.phase ∨ k.phase = .running ∧ k'.phase = .exited := by
  rcases h with rfl | ⟨hphase, rfl⟩
  · exact Or.inl rfl
  · exact Or.inr ⟨hphase, rfl⟩

theorem Container.Remains.standing {k k' : Container} (h : k.Remains k') :
    k'.phase.Standing ↔ k.phase.Standing := by
  rcases h.phase with he | ⟨hrun, he⟩
  · rw [he]
  · rw [hrun, he]
    decide

theorem Container.Remains.created {k k' : Container} (h : k.Remains k') :
    k'.phase = .created ↔ k.phase = .created := by
  rcases h.phase with he | ⟨hrun, he⟩
  · rw [he]
  · rw [hrun, he]
    decide

theorem Container.Remains.removed {k k' : Container} (h : k.Remains k') :
    k'.phase = .removed ↔ k.phase = .removed := by
  rcases h.phase with he | ⟨hrun, he⟩
  · rw [he]
  · rw [hrun, he]
    decide

/-- Every container remains, and there are no others. -/
structure Remaining (l l' : List Container) : Prop where
  onward : ∀ (n : Nat) k, l[n]? = some k → ∃ k', l'[n]? = some k' ∧ k.Remains k'
  back : ∀ (n : Nat) k', l'[n]? = some k' → ∃ k, l[n]? = some k ∧ k.Remains k'

theorem Remaining.refl {l : List Container} : Remaining l l :=
  ⟨fun _ k hk => ⟨k, hk, Or.inl rfl⟩, fun _ k hk => ⟨k, hk, Or.inl rfl⟩⟩

theorem Remaining.onwards {l l' : List Container} (h : Remaining l l') : Onward l l' := by
  intro n k hk
  obtain ⟨k', hk', hr⟩ := h.onward n k hk
  exact ⟨k', hk', hr.follows⟩

/-- Ids, requests, keys, containers, clients, sockets and the log stay. -/
structure Advances (s s' : World) : Prop where
  now : s.now ≤ s'.now
  drawn : Extends (fun i : Nat => s.drawnBy[i]?) (fun i => s'.drawnBy[i]?)
  calls : Extends (fun i : Nat => s.calls[i]?) (fun i => s'.calls[i]?)
  known : ∀ key ∈ s.redis, key ∈ s'.redis
  containers : Onward s.containers s'.containers
  users : Extends s.user? s'.user?
  sockets : Extends s.socket? s'.socket?
  log : ∀ e ∈ s.log, e ∈ s'.log

theorem Advances.refl : Advances s s :=
  ⟨Nat.le_refl _, .refl, .refl, fun _ h => h, .refl, .refl, .refl, fun _ h => h⟩

theorem Advances.trans (h : Advances s s') (h' : Advances s' s'') : Advances s s'' :=
  ⟨h.now.trans h'.now, h.drawn.trans h'.drawn, h.calls.trans h'.calls,
    fun key hk => h'.known key (h.known key hk), h.containers.trans h'.containers,
    h.users.trans h'.users, h.sockets.trans h'.sockets, fun e he => h'.log e (h.log e he)⟩

theorem Advances.calls_length (h : Advances s s') : s.calls.length ≤ s'.calls.length := by
  by_contra hlt
  have hlt' : s'.calls.length < s.calls.length := Nat.lt_of_not_le hlt
  have hget : s.calls[s'.calls.length]? = some s.calls[s'.calls.length] :=
    List.getElem?_eq_getElem hlt'
  have hnone : s'.calls[s'.calls.length]? = none := List.getElem?_eq_none (Nat.le_refl _)
  cases (h.calls _ _ hget).symm.trans hnone

theorem known_perform (h : perform pid cmd r s = some (x, s')) {key : JsString} (hk : key ∈ s.redis) :
    key ∈ s'.redis := by
  cases redis_perform h with
  | same eq =>
    rw [eq]
    exact hk
  | setex key' seconds value cmd_eq out_eq pos eq =>
    rw [eq]
    exact (AList.mem_insert _).mpr (Or.inr hk)
  | expire key' seconds e cmd_eq out_eq found eq =>
    rw [eq]
    exact (AList.mem_insert _).mpr (Or.inr hk)

/-- A container that exists has its phase. -/
theorem phase?_eq_some {n : Nat} {phase : ContainerPhase} (h : s.phase? n = some phase) :
    ∃ k, s.containers[n]? = some k ∧ k.phase = phase ∧ phase ≠ .removed := by
  obtain ⟨hp, hne⟩ := Option.filter_eq_some_iff.mp h
  obtain ⟨k, hk, rfl⟩ := Option.map_eq_some_iff.mp hp
  exact ⟨k, hk, rfl, of_decide_eq_true hne⟩

theorem phase?_of_container {n : Nat} {k : Container} (hk : s.containers[n]? = some k)
    (hne : k.phase ≠ .removed) : s.phase? n = some k.phase := by
  refine Option.filter_eq_some_iff.mpr ⟨?_, decide_eq_true hne⟩
  rw [hk]
  rfl

theorem onward_perform (h : perform pid cmd r s = some (x, s')) :
    Onward s.containers s'.containers := by
  cases containers_perform h with
  | same eq => exact .of_eq eq
  | create name cmd_eq out_eq free eq =>
    rw [eq]
    exact onward_concat _ _
  | start n phase cmd_eq out_eq found idle eq =>
    rw [eq]
    refine onward_modify fun k hk => ⟨rfl, rfl, fun h => h, fun _ h => h, fun _ he => (by cases he), ?_⟩
    obtain ⟨k', hk', rfl, hne⟩ := phase?_eq_some found
    rw [hk] at hk'
    obtain rfl := Option.some.inj hk'
    exact fun hr => absurd hr hne
  | stop n cmd_eq out_eq found eq =>
    rw [eq]
    refine onward_modify fun k hk =>
      ⟨rfl, rfl, fun h => h, fun p hp => ?_, fun _ he => (by cases he), ?_⟩
    · show (k.stopper <|> some pid) = some p
      rw [hp]
      rfl
    · obtain ⟨k', hk', hrun, -⟩ := phase?_eq_some found
      rw [hk] at hk'
      obtain rfl := Option.some.inj hk'
      intro hr
      rw [hrun] at hr
      cases hr
  | remove n phase cmd_eq out_eq found idle eq =>
    rw [eq]
    exact onward_modify fun k _ =>
      ⟨rfl, rfl, fun h => h, fun _ h => h, fun _ he => (by cases he), fun _ => rfl⟩

theorem advances_perform (h : perform pid cmd r s = some (x, s')) : Advances s s' := by
  have hs := still_perform h
  refine ⟨by rw [hs.now], .of_eq (by rw [hs.drawnBy]), .of_eq (by rw [hs.calls]),
    fun _ hk => known_perform h hk, onward_perform h, .of_eq ?_, .of_eq ?_, fun e he => ?_⟩
  · funext client
    rw [World.user?, World.user?, hs.clients]
  · funext n
    rw [World.socket?, World.socket?, hs.sockets]
  · rw [log_perform h]
    exact List.mem_append_left _ he

theorem onward_register (s : World) (pid : Nat) (sessionId : JsString) (n : Nat) :
    Onward s.containers (s.register pid sessionId n).containers :=
  onward_modify fun k _ => ⟨rfl, rfl, fun hr => by
    show (k.registered || _) = true
    rw [hr]
    rfl, fun _ h => h, fun h => h, fun h => h⟩

theorem write_cases (s : World) (pid stream : Nat) (bytes : Bytes) :
    s.write pid stream bytes = s ∨
      s.write pid stream bytes = { s with writes := s.writes ++ [⟨pid, stream, bytes⟩] } := by
  unfold World.write
  split
  · exact Or.inl rfl
  · split
    · exact Or.inr rfl
    · exact Or.inl rfl

/-- A write changes nothing but what has been written. -/
theorem write_keeps {α : Type} (f : World → α) (hf : ∀ writes, f { s with writes := writes } = f s)
    (pid stream : Nat) (bytes : Bytes) : f (s.write pid stream bytes) = f s := by
  rcases write_cases s pid stream bytes with he | he
  · rw [he]
  · rw [he]
    exact hf _

theorem calls_compute (o : Op) : (compute C pid o s).2.calls = s.calls := by
  cases o with
  | write stream bytes => exact write_keeps World.calls (fun _ => rfl) pid stream bytes
  | _ => rfl

/-- Clients come and go from outside, and the listeners keep the registry. -/
theorem gateway_compute (o : Op) : (compute C pid o s).2.clients = s.clients ∧
    (compute C pid o s).2.clientSessions = s.clientSessions ∧
    (compute C pid o s).2.delivered = s.delivered := by
  cases o with
  | write stream bytes =>
    exact ⟨write_keeps World.clients (fun _ => rfl) pid stream bytes,
      write_keeps World.clientSessions (fun _ => rfl) pid stream bytes,
      write_keeps World.delivered (fun _ => rfl) pid stream bytes⟩
  | _ => exact ⟨rfl, rfl, rfl⟩

theorem sockets_compute (o : Op) : (compute C pid o s).2.sockets = s.sockets ∨
    ∃ client sessionId userId workspaceRoot container,
      o = .connect client sessionId userId workspaceRoot container ∧
      (compute C pid o s).2.sockets =
        s.sockets ++ [newSocket client sessionId userId workspaceRoot container] := by
  cases o with
  | write stream bytes => exact Or.inl (write_keeps World.sockets (fun _ => rfl) pid stream bytes)
  | connect client sid u root container => exact Or.inr ⟨client, sid, u, root, container, rfl, rfl⟩
  | _ => exact Or.inl rfl

theorem advances_compute (o : Op) : Advances s (compute C pid o s).2 := by
  cases o with
  | ulid =>
    exact ⟨Nat.le_refl _, extends_concat _ _, .refl, fun _ h => h, .refl, .refl, .refl, fun _ h => h⟩
  | connect client sessionId userId workspaceRoot container =>
    exact ⟨Nat.le_refl _, .refl, .refl, fun _ h => h, .refl, .refl, extends_concat_map _ _ _,
      fun _ h => h⟩
  | write stream bytes =>
    show Advances s (s.write pid stream bytes)
    rcases write_cases s pid stream bytes with he | he
    · rw [he]
      exact .refl
    · rw [he]
      exact ⟨Nat.le_refl _, .refl, .refl, fun _ h => h, .refl, .refl, .refl, fun _ h => h⟩
  | containerMapSet sessionId n =>
    exact ⟨Nat.le_refl _, .refl, .refl, fun _ h => h, onward_register s pid sessionId n, .refl, .refl,
      fun _ h => h⟩
  | _ => exact ⟨Nat.le_refl _, .refl, .refl, fun _ h => h, .refl, .refl, .refl, fun _ h => h⟩

/-! ### Between two calls -/

def World.phases (s : World) (n : Nat) : Option ContainerPhase := (s.containers[n]?).map Container.phase

theorem phases_modify {n : Nat} {f : Container → Container}
    (hs : s'.containers = s.containers.modify n f) (hf : ∀ k, (f k).phase = k.phase) :
    s'.phases = s.phases := by
  funext m
  rw [World.phases, World.phases, hs]
  exact map_getElem?_modify hf m

/-- The container exists, and nobody has stopped it. -/
def World.Stands (s : World) (n : Nat) : Prop := ∃ phase, s.phases n = some phase ∧ phase.Standing

theorem stands_of_container {n : Nat} {k : Container} (hk : s.containers[n]? = some k)
    (hs : k.phase.Standing) : s.Stands n :=
  ⟨k.phase, by rw [World.phases, hk]; rfl, hs⟩

theorem stands_remaining {n : Nat} (hr : Remaining s.containers s'.containers) (h : s.Stands n) :
    s'.Stands n := by
  obtain ⟨phase, hp, hs⟩ := h
  obtain ⟨k, hk, rfl⟩ := Option.map_eq_some_iff.mp hp
  obtain ⟨k', hk', hkk⟩ := hr.onward n k hk
  exact stands_of_container hk' (hkk.standing.mpr hs)

/-- No call has been made, and no time has passed; a container may have exited. -/
structure Calm (s s' : World) : Prop where
  now : s'.now = s.now
  redis : s'.redis = s.redis
  directories : s'.directories = s.directories
  files : s'.files = s.files
  lastGet : s'.lastGet = s.lastGet
  sighted : s'.sighted = s.sighted
  log : s'.log = s.log
  stands : ∀ n, s.Stands n → s'.Stands n

theorem Calm.refl : Calm s s := ⟨rfl, rfl, rfl, rfl, rfl, rfl, rfl, fun _ h => h⟩

theorem Calm.trans (h : Calm s s') (h' : Calm s' s'') : Calm s s'' :=
  ⟨h'.now.trans h.now, h'.redis.trans h.redis, h'.directories.trans h.directories,
    h'.files.trans h.files, h'.lastGet.trans h.lastGet, h'.sighted.trans h.sighted,
    h'.log.trans h.log, fun n hn => h'.stands n (h.stands n hn)⟩

theorem Calm.record? (h : Calm s s') (key : JsString) : s'.record? key = s.record? key := by
  rw [World.record?, World.record?, h.redis, h.now]

theorem calm_compute (o : Op) : Calm s (compute C pid o s).2 := by
  cases o with
  | write stream bytes =>
    show Calm s (s.write pid stream bytes)
    rcases write_cases s pid stream bytes with he | he
    · rw [he]
      exact .refl
    · rw [he]
      exact ⟨rfl, rfl, rfl, rfl, rfl, rfl, rfl, fun _ h => h⟩
  | containerMapSet sessionId n =>
    refine ⟨rfl, rfl, rfl, rfl, rfl, rfl, rfl, fun m hm => ?_⟩
    have hp : (s.register pid sessionId n).phases = s.phases := phases_modify rfl fun _ => rfl
    obtain ⟨phase, hphase, hstands⟩ := hm
    exact ⟨phase, (congrFun hp m).trans hphase, hstands⟩
  | _ => exact ⟨rfl, rfl, rfl, rfl, rfl, rfl, rfl, fun _ h => h⟩

end FullstackSvc.LanguageServer
