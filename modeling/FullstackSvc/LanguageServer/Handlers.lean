import FullstackSvc.LanguageServer.Ownership

/-!
# The handlers keep the sessions apart

`Serves` is the triple of a call of the services in its context: the others may
do anything that leaves a process its own doings, and what a process itself does
is a chain of acts.  What a precondition says must last (`Lasting`): it is kept
by the others and by the calls of this process that do not go to Docker.

* `serves_writeBack`: **a record is written back as it was read**.
* `serves_createSession`, `serves_renewSession`, `serves_uploadFile`,
  `serves_handleLSPConnect`, `serves_handleLSPMessage`: the programs of the API
  server meet their needs.
-/

namespace FullstackSvc.LanguageServer

open Text Async FullstackSvc.Lsp

variable {N : Type} {C : Config N} {may : Nat → Cmd → Reply → World → Prop} {pid : Nat}
  {c : Request} {s s' s'' : World} {cmd : Cmd} {r : Reply} {sessionId userId : JsString}
  {α β : Type}

/-! ### What lasts -/

/-- Nothing has happened to where the process is and to its containers. -/
structure Steady (p : Nat) (s s' : World) : Prop where
  advances : Advances s s'
  inside : s'.inside p = s.inside p
  made : ∀ (n : Nat) k', s'.containers[n]? = some k' → k'.creator = p → ∃ k,
    s.containers[n]? = some k ∧ k.creator = p ∧ k'.registered = k.registered ∧
      (k.registered = false → (k.phase = .created ↔ k'.phase = .created))
  stopped : ∀ (n : Nat) k', s'.containers[n]? = some k' → k'.stopper = some p → ∃ k,
    s.containers[n]? = some k ∧ k.stopper = some p ∧ k'.phase = k.phase

theorem Steady.of_private {p : Nat} (ha : Advances s s') (hp : Private p s s') : Steady p s s' :=
  ⟨ha, hp.inside, hp.made, hp.stopped⟩

theorem Steady.of_containers {p : Nat} (ha : Advances s s') (hi : s'.inside p = s.inside p)
    (hc : s'.containers = s.containers) : Steady p s s' :=
  ⟨ha, hi, fun _ k hk hp => ⟨k, hc ▸ hk, hp, rfl, fun _ => Iff.rfl⟩,
    fun _ k hk hp => ⟨k, hc ▸ hk, hp, rfl⟩⟩

def Lasting (pid : Nat) (I : World → Prop) : Prop := ∀ s s', I s → Steady pid s s' → I s'

theorem Lasting.and {I J : World → Prop} (h : Lasting pid I) (h' : Lasting pid J) :
    Lasting pid fun s => I s ∧ J s := fun s s' hs hr => ⟨h s s' hs.1 hr, h' s s' hs.2 hr⟩

/-- Kept by whatever only adds. -/
def Persists (I : World → Prop) : Prop := ∀ s s', I s → Advances s s' → I s'

theorem Persists.lasting {I : World → Prop} (h : Persists I) : Lasting pid I :=
  fun s s' hs hr => h s s' hs hr.advances

theorem persists_permitted : Persists (Permitted C c) := fun _ _ h ha => h.mono ha

theorem lasting_inside {part : Option Section} : Lasting pid fun s => s.inside pid = part :=
  fun _ _ h hr => hr.inside.trans h

theorem Published.mono {n : Nat} (h : Published pid sessionId n s) (ha : Advances s s') :
    Published pid sessionId n s' := by
  rcases h with ⟨seconds, d, hd, hl⟩ | ⟨e, he, hx⟩
  · exact Or.inl ⟨seconds, d, hd, hl.mono ha⟩
  · exact Or.inr ⟨e, ha.log e he, hx⟩

theorem Cleared.mono {n : Nat} {k k' : Container} (h : Cleared C pid sessionId n k s)
    (ha : Advances s s') (hp : k'.phase = k.phase) : Cleared C pid sessionId n k' s' := by
  rcases h with ⟨hr, out, hl⟩ | hl
  · exact Or.inl ⟨hp.trans hr, out, hl.mono ha⟩
  · exact Or.inr (hl.mono ha)

theorem Settled.mono {n : Nat} {k k' : Container} (h : Settled pid sessionId n k s)
    (ha : Advances s s') (hr : k'.registered = k.registered) : Settled pid sessionId n k' s' := by
  rcases h with ⟨hreg, hp⟩ | ⟨hreg, hl⟩
  · exact Or.inl ⟨hr.trans hreg, hp.mono ha⟩
  · exact Or.inr ⟨hr.trans hreg, hl.mono ha⟩

/-- `StartTidy` but for one container. -/
def StartTidyBut (n : Nat) (pid : Nat) (s : World) : Prop :=
  ∀ (m : Nat) k sessionId, m ≠ n → s.containers[m]? = some k → k.creator = pid →
    k.name = containerNameOf sessionId → Settled pid sessionId m k s

def StopTidyBut (C : Config N) (n : Nat) (pid : Nat) (s : World) : Prop :=
  ∀ (m : Nat) k sessionId, m ≠ n → s.containers[m]? = some k → k.stopper = some pid →
    k.name = containerNameOf sessionId → Cleared C pid sessionId m k s

theorem lasting_startTidyBut (n : Nat) : Lasting pid (StartTidyBut n pid) := by
  intro s s' h hr m k' sid hne hk' hc hname
  obtain ⟨k, hk, hcreator, hreg, -⟩ := hr.made m k' hk' hc
  obtain ⟨k₁, hk₁, hf⟩ := hr.advances.containers m k hk
  rw [hk'] at hk₁
  obtain rfl := Option.some.inj hk₁
  exact (h m k sid hne hk hcreator (hf.name.symm.trans hname)).mono hr.advances hreg

theorem lasting_stopTidyBut (n : Nat) : Lasting pid (StopTidyBut C n pid) := by
  intro s s' h hr m k' sid hne hk' hc hname
  obtain ⟨k, hk, hstopper, hphase⟩ := hr.stopped m k' hk' hc
  obtain ⟨k₁, hk₁, hf⟩ := hr.advances.containers m k hk
  rw [hk'] at hk₁
  obtain rfl := Option.some.inj hk₁
  exact (h m k sid hne hk hstopper (hf.name.symm.trans hname)).mono hr.advances hphase

theorem lasting_startTidy : Lasting pid (StartTidy pid) := fun s s' h hr m k' sid =>
  lasting_startTidyBut (m + 1) s s' (fun m' k sid _ => h m' k sid) hr m k' sid (by omega)

theorem lasting_stopTidy : Lasting pid (StopTidy C pid) := fun s s' h hr m k' sid =>
  lasting_stopTidyBut (m + 1) s s' (fun m' k sid _ => h m' k sid) hr m k' sid (by omega)

/-- The process is in no part of the worker and has left nothing behind. -/
structure Home (C : Config N) (pid : Nat) (s : World) : Prop where
  inside : s.inside pid = none
  started : StartTidy pid s
  stopped : StopTidy C pid s

theorem lasting_home : Lasting pid (Home C pid) := fun s s' h hr =>
  ⟨lasting_inside s s' h.inside hr, lasting_startTidy s s' h.started hr,
    lasting_stopTidy s s' h.stopped hr⟩

/-! ### The triple of a call -/

/-- Process `pid` serves `c`. -/
def context (C : Config N) (may : Nat → Cmd → Reply → World → Prop) (pid : Nat) (c : Request) :
    Ctx sig World Reply where
  inv := Sound C
  rely s s' := Advances s s' ∧ Private pid s s'
  guar := Relation.ReflTransGen (Act C may pid c)
  need cmd s := s.calls[pid]? = some c ∧ Need C pid c cmd s
  ok := may pid

theorem sound_acts (h : Relation.ReflTransGen (Act C may pid c) s s') (hs : Sound C s) :
    Sound C s' := by
  induction h with
  | refl => exact hs
  | tail _ ha ih => exact sound_act ih ha

theorem closed_context : (context C may pid c).Closed where
  refl _ := .refl
  trans _ _ _ h h' := h.trans h'
  inv _ _ hs h := sound_acts h hs

/-- The call is the one that came in. -/
def Called (pid : Nat) (c : Request) (s : World) : Prop := s.calls[pid]? = some c

def Serves (C : Config N) (may : Nat → Cmd → Reply → World → Prop) (pid : Nat) (c : Request)
    (pre : World → Prop) (p : Program α) (ok : α → World → Prop) (err : World → Prop) : Prop :=
  Prog.Triple (host C) pid (context C may pid c) (fun s => Called pid c s ∧ pre s) p
    (fun a s => Called pid c s ∧ ok a s) (fun _ s => Called pid c s ∧ err s)

variable {pre err err' : World → Prop} {ok : α → World → Prop} {p : Program α} {I : World → Prop}

theorem Serves.ret {a : α} (h : ∀ s, pre s → ok a s) : Serves C may pid c pre (.ret a) ok err :=
  Prog.Triple.ret fun s ⟨hc, hs⟩ => ⟨hc, h s hs⟩

theorem Serves.fail {e : JsError} (h : ∀ s, pre s → err s) :
    Serves C may pid c pre (.fail e) ok err :=
  Prog.Triple.fail fun s ⟨hc, hs⟩ => ⟨hc, h s hs⟩

theorem Serves.mono {pre' : World → Prop} {ok' : α → World → Prop}
    (h : Serves C may pid c pre' p ok' err') (hpre : ∀ s, pre s → pre' s)
    (hok : ∀ a s, ok' a s → ok a s) (herr : ∀ s, err' s → err s) :
    Serves C may pid c pre p ok err :=
  Prog.Triple.mono h (fun s ⟨hc, hs⟩ => ⟨hc, hpre s hs⟩) (fun a s ⟨hc, hs⟩ => ⟨hc, hok a s hs⟩)
    fun _ s ⟨hc, hs⟩ => ⟨hc, herr s hs⟩

theorem Serves.weaken {pre' : World → Prop} (h : Serves C may pid c pre' p ok err)
    (hpre : ∀ s, pre s → pre' s) : Serves C may pid c pre p ok err :=
  h.mono hpre (fun _ _ h => h) fun _ h => h

theorem Serves.bind {f : α → Program β} {okf : β → World → Prop} (mid : α → World → Prop)
    (hp : Serves C may pid c pre p mid err) (hf : ∀ a, Serves C may pid c (mid a) (f a) okf err) :
    Serves C may pid c pre (p.bind f) okf err := Prog.Triple.bind _ hp hf

theorem Serves.handle {h : JsError → Program α} (mid : World → Prop)
    (hp : Serves C may pid c pre p ok mid) (hh : ∀ e, Serves C may pid c mid (h e) ok err) :
    Serves C may pid c pre (p.handle h) ok err := Prog.Triple.handle _ hp hh

/-- A part of the precondition that does not speak of the state. -/
theorem Serves.assume {φ : Prop} (h : φ → Serves C may pid c pre p ok err) :
    Serves C may pid c (fun s => φ ∧ pre s) p ok err :=
  fun s₀ s hi hg ⟨hc, hφ, hs⟩ => h hφ s₀ s hi hg ⟨hc, hs⟩

/-- What only needs to be added to is carried along. -/
theorem Serves.frame {J : World → Prop} (hJ : Persists J) (h : Serves C may pid c pre p ok err) :
    Serves C may pid c (fun s => pre s ∧ J s) p (fun a s => ok a s ∧ J s) fun s => err s ∧ J s :=
  Prog.Triple.mono (Prog.Triple.frame (fun s s' hr hs => hJ s s' hs hr.1)
    (fun _ _ _ s s' hx hs => hJ s s' hs (advances_perform hx))
    (fun o s hs => hJ s _ hs (advances_compute o)) h) (fun _ hs => ⟨⟨hs.1, hs.2.1⟩, hs.2.2⟩)
    (fun _ _ hs => ⟨hs.1.1, hs.1.2, hs.2⟩) fun _ _ hs => ⟨hs.1.1, hs.1.2, hs.2⟩

/-- An awaited command. -/
theorem serves_await {ok : sig.Res cmd → World → Prop}
    (hpre : ∀ s s', pre s → Advances s s' → Private pid s s' → pre s')
    (hneed : ∀ s, Sound C s → Called pid c s → pre s → Need C pid c cmd s)
    (hok : ∀ s r a s', Sound C s → pre s → perform pid cmd r s = some (.ok a, s') → ok a s')
    (herr : ∀ s r e s', Sound C s → pre s → perform pid cmd r s = some (.error e, s') → err s') :
    Serves C may pid c pre (await cmd) ok err := by
  refine Prog.Triple.call (fun s s' hs hr _ => ⟨hr.1.calls _ _ hs.1, hpre s s' hs.2 hr.1 hr.2⟩)
    (fun s hi hs => ⟨hs.1, hneed s hi hs.1 hs.2⟩) fun s r x s' hi hs hm hx => ?_
  have hact : Act C may pid c s s' := .perform cmd r x s' hs.1 (hneed s hi hs.1 hs.2) hm hx
  have hcalled : Called pid c s' := (advances_perform hx).calls _ _ hs.1
  refine ⟨.single hact, ?_⟩
  cases x with
  | ok a => exact ⟨hcalled, hok s r a s' hi hs.2 hx⟩
  | error e => exact ⟨hcalled, herr s r e s' hi hs.2 hx⟩

/-- A synchronous operation. -/
theorem serves_op {o : Op} {ok : sig.Val o → World → Prop}
    (hneed : ∀ s, Sound C s → Called pid c s → pre s → NeedOp C may pid c o s)
    (hok : ∀ s, Sound C s → Called pid c s → pre s →
      ok (compute C pid o s).1 (compute C pid o s).2) :
    Serves C may pid c pre (sync o) ok err := by
  refine Prog.Triple.op closed_context fun s hi hs => ?_
  exact ⟨.single (.compute o hs.1 (hneed s hi hs.1 hs.2)), (advances_compute o).calls _ _ hs.1,
    hok s hi hs.1 hs.2⟩

/-! ### Calls that do not go to Docker -/

/-- A call that changes no container. -/
def Cmd.undocked : Cmd → Bool
  | .createContainer _ => false
  | .startContainer _ => false
  | .stopContainer _ => false
  | .removeContainer _ => false
  | _ => true

theorem containers_of_undocked {x : Except JsError (sig.Res cmd)} (hq : cmd.undocked = true)
    (h : perform pid cmd r s = some (x, s')) : s'.containers = s.containers := by
  cases containers_perform h with
  | same eq => exact eq
  | create name cmd_eq out_eq free eq => subst cmd_eq; cases hq
  | start n phase cmd_eq out_eq found idle eq => subst cmd_eq; cases hq
  | stop n cmd_eq out_eq found eq => subst cmd_eq; cases hq
  | remove n phase cmd_eq out_eq found idle eq => subst cmd_eq; cases hq

theorem containers_of_error {e : JsError} (h : perform pid cmd r s = some (.error e, s')) :
    s'.containers = s.containers := by
  have hout : ∀ out, outcome cmd (.error e : Except JsError (sig.Res cmd)) = out → out = .failed := by
    rintro _ rfl
    cases cmd <;> rfl
  cases containers_perform h with
  | same eq => exact eq
  | create name cmd_eq out_eq free eq => cases hout _ out_eq
  | start n phase cmd_eq out_eq found idle eq => cases hout _ out_eq
  | stop n cmd_eq out_eq found eq => cases hout _ out_eq
  | remove n phase cmd_eq out_eq found idle eq => cases hout _ out_eq

theorem steady_perform {x : Except JsError (sig.Res cmd)} (hc : s'.containers = s.containers)
    (h : perform pid cmd r s = some (x, s')) : Steady pid s s' :=
  .of_containers (advances_perform h) (by rw [(still_perform h).inside]) hc

/-- The process has made the call where it is now. -/
def Noted (s : World) (pid : Nat) (cmd : Cmd) (out : Outcome) : Prop :=
  ∃ e ∈ s.log, e.pid = pid ∧ e.cmd = cmd ∧ e.outcome = out ∧ e.part = s.inside pid

theorem Noted.logged {out : Outcome} (h : Noted s pid cmd out) : Logged s pid cmd out := by
  obtain ⟨e, he, hp, hc, ho, -⟩ := h
  exact ⟨e, he, hp, hc, ho⟩

theorem noted_perform {x : Except JsError (sig.Res cmd)} (h : perform pid cmd r s = some (x, s')) :
    Noted s' pid cmd (outcome cmd x) := by
  refine ⟨⟨pid, cmd, outcome cmd x, s.now, s.inside pid⟩, ?_, rfl, rfl, rfl, ?_⟩
  · rw [log_perform h]
    exact List.mem_append_right _ (List.mem_singleton_self _)
  · rw [(still_perform h).inside]

/-- A call whose answer does not matter, with what the process last read. -/
theorem serves_call {v : Option (JsString × SessionData)} (hq : cmd.undocked = true)
    (hget : ∀ key, cmd ≠ .redisGet key) (hI : Lasting pid I)
    (hneed : ∀ s, I s → Need C pid c cmd s) :
    Serves C may pid c (fun s => I s ∧ s.lastGet pid = v) (await cmd)
      (fun _ s => I s ∧ s.lastGet pid = v) I := by
  have hlast : ∀ {x : Except JsError (sig.Res cmd)} {r s s'},
      perform pid cmd r s = some (x, s') → s'.lastGet pid = s.lastGet pid := by
    intro x r s s' hx
    rcases lastGet_perform hx with he | ⟨key, he, -⟩
    · rw [he]
    · exact absurd he (hget key)
  refine serves_await (fun s s' hs ha hp => ⟨hI s s' hs.1 (.of_private ha hp), hp.lastGet.trans hs.2⟩)
    (fun s _ _ hs => hneed s hs.1) (fun s r a s' _ hs hx => ?_) fun s r e s' _ hs hx => ?_
  · exact ⟨hI s s' hs.1 (steady_perform (containers_of_undocked hq hx) hx), (hlast hx).trans hs.2⟩
  · exact hI s s' hs.1 (steady_perform (containers_of_undocked hq hx) hx)

/-- The same where it does not matter what the process last read. -/
theorem serves_quiet (hq : cmd.undocked = true) (hI : Lasting pid I)
    (hneed : ∀ s, I s → Need C pid c cmd s) :
    Serves C may pid c I (await cmd) (fun _ => I) I := by
  refine serves_await (fun s s' hs ha hp => hI s s' hs (.of_private ha hp))
    (fun s _ _ hs => hneed s hs) (fun s r a s' _ hs hx => ?_) fun s r e s' _ hs hx => ?_
  · exact hI s s' hs (steady_perform (containers_of_undocked hq hx) hx)
  · exact hI s s' hs (steady_perform (containers_of_undocked hq hx) hx)

/-- An operation that needs nothing and gives nothing. -/
theorem serves_sync {o : Op} (hI : Lasting pid I) (hneed : ∀ s, I s → NeedOp C may pid c o s)
    (hs : ∀ s, Steady pid s (compute C pid o s).2) :
    Serves C may pid c I (sync o) (fun _ => I) err :=
  serves_op (fun s _ _ h => hneed s h) fun s _ _ h => hI s _ h (hs s)

theorem serves_newDate : Serves C may pid c pre newDate (fun _ => pre) err :=
  serves_op (fun _ _ _ _ => trivial) fun _ _ _ hs => hs

theorem serves_emitError {client code : Nat} {error : JsString} (hI : Lasting pid I) :
    Serves C may pid c I (emitError client error code) (fun _ => I) err :=
  serves_sync hI (fun _ _ => trivial) fun _ =>
    .of_containers (advances_compute (C := C) _) rfl rfl

/-! ### Records -/

/-- What this process last read of a session. -/
structure Read (C : Config N) (pid : Nat) (sessionId : JsString) (d : SessionData) (s : World) :
    Prop where
  good : GoodRecord C s sessionId d
  known : Known s sessionId
  last : s.lastGet pid = some (sessionKey sessionId, d)

/-- The last call of this process saw the record. -/
def Sees (pid : Nat) (sessionId : JsString) (s : World) : Prop :=
  ∃ f, s.sighted pid = some f ∧ f.key = sessionKey sessionId

/-- What `GET` has found. -/
def Got (C : Config N) (pid : Nat) (sessionId : JsString) (found : Option SessionData) (s : World) :
    Prop :=
  match found with
  | none => Noted s pid (.redisGet (sessionKey sessionId)) .missed
  | some d => Read C pid sessionId d s ∧ Sees pid sessionId s

/-- `GET` of a session: what is there, and then nothing or a good record. -/
theorem serves_look (hI : Lasting pid I) :
    Serves C may pid c I (await (.redisGet (sessionKey sessionId)))
      (fun found s => I s ∧ Got C pid sessionId found s ∧
        found = (s.record? (sessionKey sessionId)).map RedisEntry.value)
      fun s => I s ∧ Noted s pid (.redisGet (sessionKey sessionId)) .failed := by
  refine serves_await (fun s s' hs ha hp => hI s s' hs (.of_private ha hp)) (fun _ _ _ _ => trivial)
    (fun s r found s' hi hs hx => ?_) fun s r e s' hi hs hx => ?_
  · refine ⟨hI s s' hs (steady_perform (containers_of_undocked rfl hx) hx), ?_⟩
    obtain rfl : found = (s.record? (sessionKey sessionId)).map RedisEntry.value :=
      answer_perform hx rfl fun n he => by cases he
    have hsame : s'.record? (sessionKey sessionId) = s.record? (sessionKey sessionId) := by
      cases redis_perform hx with
      | same eq => rw [World.record?, World.record?, eq, (still_perform hx).now]
      | setex key seconds value cmd_eq out_eq pos eq => cases cmd_eq
      | expire key seconds e cmd_eq out_eq found eq => cases cmd_eq
    refine ⟨?_, by rw [hsame]⟩
    cases hrec : s.record? (sessionKey sessionId) with
    | none =>
      rw [hrec] at hx
      exact noted_perform hx
    | some e =>
      have ha := advances_perform hx
      refine ⟨⟨(hi.record hrec).mono ha, (known_of_record hrec).mono ha, ?_⟩, ?_⟩
      · rcases lastGet_perform hx with he | ⟨key, he, -, hl⟩
        · cases perform_cases hx with
          | done a free said =>
            show Function.update s.lastGet pid _ pid = _
            rw [Function.update_self, hrec]
            rfl
        · obtain rfl := Cmd.redisGet.inj he
          rw [hl, Function.update_self, hrec]
          rfl
      · rw [Sees, sighted_perform hx]
        refine ⟨⟨sessionKey sessionId, s.now, e.expiresAt⟩, ?_, rfl⟩
        rw [Function.update_self]
        show s.sight (sessionKey sessionId) = _
        rw [World.sight, hrec]
        rfl
  · refine ⟨hI s s' hs (steady_perform (containers_of_error hx) hx), ?_⟩
    have hn := noted_perform hx
    rwa [outcome_error] at hn

theorem serves_get (hI : Lasting pid I) :
    Serves C may pid c I (await (.redisGet (sessionKey sessionId)))
      (fun found s => I s ∧ Got C pid sessionId found s)
      fun s => I s ∧ Noted s pid (.redisGet (sessionKey sessionId)) .failed :=
  (serves_look hI).mono (fun _ h => h) (fun _ _ h => ⟨h.1, h.2.1⟩) fun _ h => h

theorem answer_redisTtl {key : JsString} {ttl : Int}
    (h : perform pid (.redisTtl key) r s = some (.ok ttl, s')) : ttl = s.ttl key :=
  answer_perform h rfl fun n he => by cases he

/-- What becomes of a record that is written back. -/
def WrittenBack (pid : Nat) (sessionId : JsString) (d : SessionData) (s : World) : Prop :=
  (∃ seconds, Noted s pid (.redisSetex (sessionKey sessionId) seconds d) .done) ∨
    Noted s pid (.redisTtl (sessionKey sessionId)) .missed

/-- A call on the record has failed. -/
def RecordFault (pid : Nat) (sessionId : JsString) (s : World) : Prop :=
  ∃ cmd, cmd.OnRecord sessionId ∧ Noted s pid cmd .failed

/-- What may be written of a session after `d₀` has been read. -/
structure Writable (C : Config N) (pid : Nat) (c : Request) (sessionId : JsString)
    (d₀ d : SessionData) (s : World) : Prop where
  permitted : Permitted C c s
  good : GoodRecord C s sessionId d
  known : Known s sessionId
  files : ∀ file ∈ d₀.uploadedFiles.getD [], file ∈ d.uploadedFiles.getD []
  fields : containerFields d = containerFields d₀ ∨ Publishes pid sessionId d s

theorem Publishes.mono {d : SessionData} (h : Publishes pid sessionId d s) (hr : Steady pid s s') :
    Publishes pid sessionId d s' := by
  obtain ⟨hin, hname, n, hn, k, hk, hc⟩ := h
  obtain ⟨k', hk', hf⟩ := hr.advances.containers n k hk
  exact ⟨hr.inside.trans hin, hname, n, hn, k', hk', hf.creator.trans hc⟩

theorem serves_setex (seconds : Nat) {d₀ d : SessionData} (hI : Lasting pid I)
    (hw : ∀ s, I s → Writable C pid c sessionId d₀ d s) :
    Serves C may pid c
      (fun s => I s ∧ s.lastGet pid = some (sessionKey sessionId, d₀) ∧
        ∃ f, s.sighted pid = some f ∧ f.key = sessionKey sessionId ∧
          (seconds = sessionTtl ∨ 0 < seconds ∧ seconds = f.seconds))
      (await (.redisSetex (sessionKey sessionId) seconds d))
      (fun _ s => I s ∧ Noted s pid (.redisSetex (sessionKey sessionId) seconds d) .done)
      fun s => I s ∧ Noted s pid (.redisSetex (sessionKey sessionId) seconds d) .failed := by
  refine serves_await (fun s s' hs ha hp => ?_) (fun s _ _ hs => ?_) (fun s r a s' hi hs hx => ?_)
    fun s r e s' hi hs hx => ?_
  · obtain ⟨hi, hl, f, hf, hx⟩ := hs
    exact ⟨hI s s' hi (.of_private ha hp), hp.lastGet.trans hl, f, hp.sighted.trans hf, hx⟩
  · obtain ⟨hi, hl, f, hf, hk, hsec⟩ := hs
    have h := hw s hi
    exact ⟨sessionId, rfl, h.permitted, h.good,
      Or.inr ⟨⟨f, d₀, hf, hk, hl, hsec, h.files, h.fields⟩, h.known⟩⟩
  · exact ⟨hI s s' hs.1 (steady_perform (containers_of_undocked rfl hx) hx), noted_perform hx⟩
  · exact ⟨hI s s' hs.1 (steady_perform (containers_of_undocked rfl hx) hx), noted_perform hx⟩

/-- **A record is written back as it was read**, unless `TTL` finds nothing left. -/
theorem serves_writeBack {d₀ d : SessionData} (hI : Lasting pid I)
    (hw : ∀ s, I s → Writable C pid c sessionId d₀ d s) :
    Serves C may pid c (fun s => I s ∧ s.lastGet pid = some (sessionKey sessionId, d₀))
      (writeBack sessionId d) (fun _ s => I s ∧ WrittenBack pid sessionId d s)
      fun s => I s ∧ RecordFault pid sessionId s := by
  refine .bind (fun ttl s => I s ∧ s.lastGet pid = some (sessionKey sessionId, d₀) ∧
    (0 < ttl → ∃ f, s.sighted pid = some f ∧ f.key = sessionKey sessionId ∧ ttl.toNat = f.seconds) ∧
    (¬ 0 < ttl → Noted s pid (.redisTtl (sessionKey sessionId)) .missed)) ?_ fun ttl => ?_
  · refine serves_await
      (fun s s' hs ha hp => ⟨hI s s' hs.1 (.of_private ha hp), hp.lastGet.trans hs.2⟩)
      (fun s _ _ hs => ⟨sessionId, rfl, (hw s hs.1).known⟩) (fun s r ttl s' hi hs hx => ?_)
      fun s r e s' hi hs hx => ?_
    · have hlast : s'.lastGet pid = s.lastGet pid := by
        rcases lastGet_perform hx with he | ⟨key, he, -⟩
        · rw [he]
        · cases he
      refine ⟨hI s s' hs.1 (steady_perform (containers_of_undocked rfl hx) hx), hlast.trans hs.2,
        fun hpos => ?_, fun hpos => ?_⟩
      · have hsight : s'.sighted pid = s.sight (sessionKey sessionId) := by
          rw [sighted_perform hx, Function.update_self]
          rfl
        have httl := answer_redisTtl hx
        rw [World.ttl] at httl
        cases hf : s.sight (sessionKey sessionId) with
        | none =>
          rw [hf] at httl
          rw [httl] at hpos
          have hneg : ¬ (0 : Int) < -2 := by decide
          exact absurd hpos hneg
        | some f =>
          rw [hf] at httl
          obtain ⟨e, -, rfl⟩ := Option.map_eq_some_iff.mp hf
          refine ⟨_, hsight.trans hf, rfl, ?_⟩
          rw [httl]
          rfl
      · have hn := noted_perform hx
        rwa [outcome, if_neg hpos] at hn
    · exact ⟨hI s s' hs.1 (steady_perform (containers_of_undocked rfl hx) hx), _,
        Or.inr (Or.inl rfl), noted_perform hx⟩
  · by_cases hpos : ttl > 0
    · rw [if_pos hpos]
      refine Serves.mono (serves_setex ttl.toNat hI hw) (fun s hs => ?_)
        (fun _ s hs => ⟨hs.1, Or.inl ⟨_, hs.2⟩⟩) fun s hs => ⟨hs.1, _, Or.inr (Or.inr ⟨_, _, rfl⟩), hs.2⟩
      obtain ⟨f, hf, hk, hsec⟩ := hs.2.2.1 hpos
      exact ⟨hs.1, hs.2.1, f, hf, hk, Or.inr ⟨Int.lt_toNat.mpr hpos, hsec⟩⟩
    · rw [if_neg hpos]
      exact .ret fun s hs => ⟨hs.1, Or.inr (hs.2.2.2 hpos)⟩

/-! ### `language-server.service.ts` -/

theorem Home.of_steady (h : Home C pid s) (hr : Steady pid s s') : Home C pid s' :=
  lasting_home s s' h hr

/-- A new process. -/
def Fresh (C : Config N) (pid : Nat) (s : World) : Prop :=
  Home C pid s ∧ ∀ e ∈ s.log, e.pid ≠ pid

/-- What a `createSession` that has returned has done. -/
def CreatedSession (C : Config N) (pid : Nat) (sessionId : JsString) (s : World) : Prop :=
  C.ulid.Drew s.drawnBy pid sessionId ∧
    ∃ d, Logged s pid (.redisSetex (sessionKey sessionId) sessionTtl d) .done

theorem serves_createSession :
    Serves C may pid (.createSession userId) (Fresh C pid) (createSession userId)
      (fun sid s => Home C pid s ∧ CreatedSession C pid sid s) (Home C pid) := by
  refine .bind (fun sid s => Fresh C pid s ∧ C.ulid.Drew s.drawnBy pid sid) ?_ fun sid => ?_
  · refine serves_op (fun _ _ _ _ => trivial) fun s _ _ hs => ⟨⟨?_, hs.2⟩, ?_⟩
    · exact hs.1.of_steady (.of_containers (advances_compute (C := C) .ulid) rfl rfl)
    · exact UlidSource.drew_concat C.ulid s.drawnBy pid
  · refine .bind (fun _ s => Fresh C pid s ∧ C.ulid.Drew s.drawnBy pid sid) serves_newDate
      fun createdAt => ?_
    refine .bind (fun _ s => Home C pid s ∧ CreatedSession C pid sid s) ?_ fun _ =>
      .ret fun s hs => hs
    have hhome : ∀ {x : Except JsError Unit} {r s s'} {d : SessionData}, Fresh C pid s →
        perform pid (.redisSetex (sessionKey sid) sessionTtl d) r s = some (x, s') →
        Home C pid s' := fun hs hx =>
      hs.1.of_steady (steady_perform (containers_of_undocked rfl hx) hx)
    refine serves_await (fun s s' hs ha hp => ?_) (fun s hi hc hs => ?_)
      (fun s r a s' hi hs hx => ?_) fun s r e s' hi hs hx => hhome hs.1 hx
    · exact ⟨⟨hs.1.1.of_steady (.of_private ha hp), fun e he hpid => hs.1.2 e (hp.log e he hpid) hpid⟩,
        drew_mono hs.2 ha⟩
    · exact ⟨sid, rfl, trivial, ⟨⟨pid, hs.2, hc⟩, fun n hn => (by cases hn), rfl⟩,
        Or.inl ⟨rfl, hs.2, hs.1.2, rfl⟩⟩
    · exact ⟨hhome hs.1 hx, drew_mono hs.2 (advances_perform hx), _, logged_perform hx⟩

/-- What a `renewSession` that has returned has done. -/
def Renewed (pid : Nat) (sessionId : JsString) (s : World) : Prop :=
  Logged s pid (.redisExpire (sessionKey sessionId) sessionTtl) .done

theorem serves_renewSession :
    Serves C may pid (.renewSession sessionId userId) (Home C pid) (renewSession sessionId userId)
      (fun _ s => Home C pid s ∧ Renewed pid sessionId s) (Home C pid) := by
  refine .bind (fun found s => Home C pid s ∧ Got C pid sessionId found s)
    (Serves.mono (serves_get lasting_home) (fun _ h => h) (fun _ _ h => h) fun _ h => h.1)
    fun found => ?_
  cases found with
  | none => exact .fail fun _ hs => hs.1
  | some d =>
    by_cases hu : d.userId = userId
    · simp only [ne_eq, hu, not_true_eq_false, if_false]
      refine serves_await (fun s s' hs ha hp => ?_) (fun s hi hc hs => ?_)
        (fun s r a s' hi hs hx => ?_) fun s r e s' hi hs hx => ?_
      · obtain ⟨hh, hread, f, hf, hk⟩ := hs
        exact ⟨hh.of_steady (.of_private ha hp), ⟨hread.good.mono ha, hread.known.mono ha,
          hp.lastGet.trans hread.last⟩, f, hp.sighted.trans hf, hk⟩
      · obtain ⟨hh, hread, f, hf, hk⟩ := hs
        exact ⟨hu ▸ hread.good.owner, rfl, f, hf, hk⟩
      · exact ⟨hs.1.of_steady (steady_perform (containers_of_undocked rfl hx) hx), logged_perform hx⟩
      · exact hs.1.of_steady (steady_perform (containers_of_undocked rfl hx) hx)
    · simp only [ne_eq, hu, not_false_eq_true, if_true]
      exact .fail fun _ hs => hs.1

/-- The process may act on the session, of which it has read `d`. -/
structure Holding (C : Config N) (pid : Nat) (c : Request) (sessionId : JsString) (d : SessionData)
    (s : World) : Prop where
  home : Home C pid s
  permitted : Permitted C c s
  good : GoodRecord C s sessionId d
  known : Known s sessionId

theorem lasting_holding (d : SessionData) : Lasting pid (Holding C pid c sessionId d) :=
  fun _ _ h hr => ⟨h.home.of_steady hr, h.permitted.mono hr.advances, h.good.mono hr.advances,
    h.known.mono hr.advances⟩

/-- What has been read may be written with other dates and more files. -/
theorem Holding.writable {d d' : SessionData} (h : Holding C pid c sessionId d s)
    (huser : d'.userId = d.userId) (hfields : containerFields d' = containerFields d)
    (hfiles : ∀ file ∈ d.uploadedFiles.getD [], file ∈ d'.uploadedFiles.getD []) :
    Writable C pid c sessionId d d' s := by
  have hid : d'.containerId = d.containerId := congrArg Prod.fst hfields
  have hroot : d'.workspaceRoot = d.workspaceRoot := congrArg (fun x => x.2.2) hfields
  exact ⟨h.permitted, ⟨huser ▸ h.good.owner, fun n hn => h.good.container n (hid ▸ hn),
    hroot.trans h.good.root⟩, h.known, hfiles, Or.inl hfields⟩

theorem serves_updateLastActivity :
    Serves C may pid c (fun s => Home C pid s ∧ Permitted C c s) (updateLastActivity sessionId)
      (fun _ => Home C pid) (Home C pid) := by
  refine .bind (fun found s => (Home C pid s ∧ Permitted C c s) ∧ Got C pid sessionId found s)
    (Serves.mono (serves_get (lasting_home.and persists_permitted.lasting)) (fun _ h => h)
      (fun _ _ h => h) fun _ h => h.1.1) fun found => ?_
  cases found with
  | none => exact .ret fun _ hs => hs.1.1
  | some d =>
    refine .bind (fun _ s => (Home C pid s ∧ Permitted C c s) ∧ Got C pid sessionId (some d) s)
      serves_newDate fun lastActivity => ?_
    refine Serves.mono (serves_setex sessionTtl (lasting_holding d)
      fun s h => h.writable rfl rfl fun _ hf => hf) (fun s hs => ?_) (fun _ _ h => h.1.home)
      fun _ h => h.1.home
    obtain ⟨⟨hh, hp⟩, hread, f, hf, hk⟩ := hs
    exact ⟨⟨hh, hp, hread.good, hread.known⟩, hread.last, f, hf, hk, Or.inl rfl⟩

theorem mem_trackFile (files : Option (List JsString)) (name : JsString) :
    name ∈ trackFile files name ∧ ∀ f ∈ files.getD [], f ∈ trackFile files name := by
  unfold trackFile
  split
  · rename_i h
    exact ⟨h, fun _ hf => hf⟩
  · exact ⟨List.mem_append_right _ (List.mem_singleton_self _),
      fun _ hf => List.mem_append_left _ hf⟩

/-- What an `uploadFile` that has returned has done: the name of its file is in a
record that it has written, unless `TTL` found nothing left. -/
def Uploaded (pid : Nat) (sessionId : JsString) (file : UploadedFile) (s : World) : Prop :=
  (∃ seconds d, Logged s pid (.redisSetex (sessionKey sessionId) seconds d) .done ∧
    sanitizedName file.originalname ∈ d.uploadedFiles.getD []) ∨
  Logged s pid (.redisTtl (sessionKey sessionId)) .missed

theorem serves_uploadFile {file : UploadedFile} :
    Serves C may pid (.uploadFile sessionId userId file) (Home C pid)
      (uploadFile C sessionId userId file)
      (fun _ s => Home C pid s ∧ Uploaded pid sessionId file s) (Home C pid) := by
  refine .bind (fun found s => Home C pid s ∧ Got C pid sessionId found s)
    (Serves.mono (serves_get lasting_home) (fun _ h => h) (fun _ _ h => h) fun _ h => h.1)
    fun found => ?_
  cases found with
  | none => exact .fail fun _ hs => hs.1
  | some d =>
    by_cases hu : d.userId = userId
    · simp only [ne_eq, hu, not_true_eq_false, if_false]
      have hold : ∀ s, Home C pid s ∧ Got C pid sessionId (some d) s →
          Holding C pid (.uploadFile sessionId userId file) sessionId d s ∧
            s.lastGet pid = some (sessionKey sessionId, d) := by
        rintro s ⟨hh, hread, -⟩
        exact ⟨⟨hh, hu ▸ hread.good.owner, hread.good, hread.known⟩, hread.last⟩
      have hcall : ∀ cmd : Cmd, cmd.undocked = true → (∀ key, cmd ≠ .redisGet key) →
          (∀ s, Holding C pid (.uploadFile sessionId userId file) sessionId d s →
            Need C pid (.uploadFile sessionId userId file) cmd s) →
          Serves C may pid (.uploadFile sessionId userId file)
            (fun s => Holding C pid (.uploadFile sessionId userId file) sessionId d s ∧
              s.lastGet pid = some (sessionKey sessionId, d)) (await cmd)
            (fun _ s => Holding C pid (.uploadFile sessionId userId file) sessionId d s ∧
              s.lastGet pid = some (sessionKey sessionId, d)) (Home C pid) :=
        fun cmd hq hget hneed => (serves_call hq hget (lasting_holding d) hneed).mono (fun _ h => h)
          (fun _ _ h => h) fun _ h => h.home
      refine .bind _ (Serves.weaken (hcall _ rfl (fun key he => by cases he) fun s h =>
        ⟨h.permitted, sessionId, rfl, h.known⟩) hold) fun _ => ?_
      refine .bind _ (.bind _ (hcall _ rfl (fun key he => by cases he) fun s h => h.permitted)
        fun _ => hcall _ rfl (fun key he => by cases he) fun s h => h.permitted) fun _ => ?_
      refine .bind _ (Serves.mono (serves_writeBack (lasting_holding d) fun s h =>
        h.writable hu.symm rfl (mem_trackFile _ _).2) (fun _ h => h) (fun _ _ h => h)
        fun _ h => h.1.home) fun _ => ?_
      refine .ret fun s hs => ⟨hs.1.home, ?_⟩
      rcases hs.2 with ⟨seconds, hn⟩ | hn
      · exact Or.inl ⟨seconds, _, hn.logged, (mem_trackFile _ _).1⟩
      · exact Or.inr hn.logged
    · simp only [ne_eq, hu, not_false_eq_true, if_true]
      exact .fail fun _ hs => hs.1

/-! ### `language-server.gateway.ts` -/

/-- A handler tells its client of an error. -/
theorem serves_refuse {client code : Nat} {error : JsString} (hpre : ∀ s, pre s → Home C pid s) :
    Serves C may pid c pre (emitError client error code) (fun _ => Home C pid) (Home C pid) :=
  Serves.weaken (serves_emitError lasting_home) hpre

theorem persists_user {client : Nat} {u : JsString} : Persists fun s => s.user? client = some u :=
  fun _ _ h ha => ha.users _ _ h

theorem persists_owner : Persists fun s => Owner C s sessionId userId := fun _ _ h ha => h.mono ha

theorem sessionRoot_ne_nil : sessionRoot sessionId ≠ [] := List.cons_ne_nil _ _

theorem serves_validateSessionOwnership (hI : Lasting pid I) :
    Serves C may pid c I (validateSessionOwnership sessionId userId)
      (fun isOwner s => I s ∧ (isOwner = true → Owner C s sessionId userId)) I := by
  refine .bind (fun found s => I s ∧ Got C pid sessionId found s)
    (Serves.mono (serves_get hI) (fun _ h => h) (fun _ _ h => h) fun _ h => h.1) fun found => ?_
  refine .ret fun s hs => ⟨hs.1, fun ho => ?_⟩
  cases found with
  | none => cases of_decide_eq_true ho
  | some d =>
    have hu : d.userId = userId := Option.some.inj (of_decide_eq_true ho)
    exact hu ▸ hs.2.1.good.owner

theorem serves_connectToContainer {client containerId : Nat} :
    Serves C may pid (.handleLSPConnect client sessionId)
      (fun s => Home C pid s ∧ GoodSocket C s
        (newSocket client sessionId userId (sessionRoot sessionId) containerId))
      (connectToContainer client sessionId userId (sessionRoot sessionId) containerId)
      (fun _ => Home C pid) (Home C pid) := by
  have hlasting : Lasting pid fun s => Home C pid s ∧ GoodSocket C s
      (newSocket client sessionId userId (sessionRoot sessionId) containerId) :=
    lasting_home.and fun _ _ h hr => h.mono hr.advances
  refine .bind (fun address s => (Home C pid s ∧ GoodSocket C s
      (newSocket client sessionId userId (sessionRoot sessionId) containerId)) ∧
      ∀ m, address = some m → m = containerId) ?_ fun address => ?_
  · refine serves_await (fun s s' hs ha hp => hlasting s s' hs (.of_private ha hp))
      (fun _ _ _ _ => trivial) (fun s r address s' hi hs hx => ⟨?_, ?_⟩) fun s r e s' hi hs hx => ?_
    · exact hlasting s s' hs (steady_perform (containers_of_undocked rfl hx) hx)
    · rintro m rfl
      exact answer_inspect hx
    · exact hs.1.of_steady (steady_perform (containers_of_undocked rfl hx) hx)
  · cases address with
    | none => exact serves_refuse fun _ hs => hs.1.1
    | some m =>
      have hpermitted : ∀ s, GoodSocket C s
          (newSocket client sessionId userId (sessionRoot sessionId) containerId) →
          Permitted C (.handleLSPConnect client sessionId) s := fun s h => ⟨userId, h.user, h.owner⟩
      refine .bind (fun _ s => Home C pid s ∧ Permitted C (.handleLSPConnect client sessionId) s) ?_
        fun _ => serves_updateLastActivity
      refine serves_op (fun s _ _ hs => ?_) fun s _ _ hs => ?_
      · obtain rfl := hs.2 m rfl
        exact ⟨hpermitted s hs.1.2, hs.1.2⟩
      · have ha : Advances s (compute C pid
            (.connect client sessionId userId (sessionRoot sessionId) m) s).2 := advances_compute _
        exact ⟨hs.1.1.of_steady (.of_containers ha rfl rfl), (hpermitted s hs.1.2).mono ha⟩

/-- The client of the call is one that has been authenticated. -/
theorem serves_handleLSPConnect {client : Nat} :
    Serves C may pid (.handleLSPConnect client sessionId)
      (fun s => Home C pid s ∧ ∃ u, s.user? client = some u) (handleLSPConnect client sessionId)
      (fun _ => Home C pid) (Home C pid) := by
  refine .handle (Home C pid) ?_ fun e => serves_refuse fun _ hs => hs
  refine .bind (fun u s => Home C pid s ∧ s.user? client = some u) ?_ fun u => ?_
  · refine serves_op (fun _ _ _ _ => trivial) fun s _ _ hs => ⟨hs.1, ?_⟩
    obtain ⟨u, hu⟩ := hs.2
    show s.user? client = some ((s.user? client).getD [])
    rw [hu]
    rfl
  have hI : Lasting pid fun s => Home C pid s ∧ s.user? client = some u :=
    lasting_home.and persists_user.lasting
  refine .bind _ ((serves_validateSessionOwnership hI).mono (fun _ h => h) (fun _ _ h => h)
    fun _ h => h.1) fun isOwner => ?_
  cases isOwner with
  | false => exact serves_refuse fun _ hs => hs.1.1
  | true =>
    have hI' : Lasting pid fun s => (Home C pid s ∧ s.user? client = some u) ∧
        Owner C s sessionId u := hI.and persists_owner.lasting
    refine .bind (fun found s => ((Home C pid s ∧ s.user? client = some u) ∧
      Owner C s sessionId u) ∧ Got C pid sessionId found s) ?_ fun found => ?_
    · exact (serves_get hI').mono (fun s hs => ⟨hs.1, hs.2 rfl⟩) (fun _ _ h => h) fun _ h => h.1.1.1
    · cases found with
      | none => exact serves_refuse fun _ hs => hs.1.1.1
      | some d =>
        cases hid : d.containerId with
        | none =>
          simp only [hid]
          exact serves_refuse fun _ hs => hs.1.1.1
        | some n =>
          simp only [hid]
          by_cases hname : orElse d.containerName [] = []
          · rw [if_pos hname]
            exact serves_refuse fun _ hs => hs.1.1.1
          · rw [if_neg hname]
            refine fun s₀ s hi hg hs => ?_
            have hroot : orElse d.workspaceRoot (sessionRoot sessionId) = sessionRoot sessionId := by
              rw [hs.2.2.1.good.root, orElse, if_neg sessionRoot_ne_nil]
            rw [hroot]
            refine serves_connectToContainer s₀ s hi hg ⟨hs.1, hs.2.1.1.1, ?_⟩
            exact ⟨hs.2.1.2, hs.2.1.1.2, hs.2.2.1.good.container n hid, rfl⟩

theorem serves_handleLSPMessage {client : Nat} {message : JsString} :
    Serves C may pid (.handleLSPMessage client message) (Home C pid)
      (handleLSPMessage C client message) (fun _ => Home C pid) (Home C pid) := by
  refine .handle (Home C pid) ?_ fun e => serves_refuse fun _ hs => hs
  refine .bind (fun session s => Home C pid s ∧ ∀ e, session = some e →
    ∃ t, s.socket? e.stream = some t ∧ t.client = client) ?_ fun session => ?_
  · refine serves_op (fun _ _ _ _ => trivial) fun s hi _ hs => ⟨hs, ?_⟩
    intro e he
    obtain ⟨t, ht, hc, -⟩ := hi.gated.entries client e he
    exact ⟨t, ht, hc⟩
  · cases session with
    | none => exact serves_refuse fun _ hs => hs.1
    | some session =>
      refine .bind (fun _ s => Home C pid s ∧ Permitted C (.handleLSPMessage client message) s) ?_
        fun _ => serves_updateLastActivity
      refine serves_op (fun s _ hc hs => ?_) fun s _ _ hs => ⟨?_, trivial⟩
      · obtain ⟨t, ht, rfl⟩ := hs.2 session rfl
        exact ⟨t, message, ht, hc⟩
      · refine hs.1.of_steady (.of_containers (advances_compute (C := C) _) ?_ ?_)
        · show (s.write pid session.stream _).inside pid = _
          rcases write_cases s pid session.stream
            (utf8Encode (transformMessage C.numbers message session.workspaceRoot)) with he | he
          · rw [he]
          · rw [he]
        · show (s.write pid session.stream _).containers = _
          rcases write_cases s pid session.stream
            (utf8Encode (transformMessage C.numbers message session.workspaceRoot)) with he | he
          · rw [he]
          · rw [he]

end FullstackSvc.LanguageServer
