import FullstackSvc.Async.Alone
import FullstackSvc.LanguageServer.Expiry

/-!
# What a pass of the worker makes of the state

The timers of the worker start `scanAndCreateContainers` and `cleanupExpiredSessions`.  Here one
pass is left alone and no call fails for a reason of its own: what it then makes of the state is a
function, up to what is recorded beside it (`World.bare`).

* `Does`: a program makes one state of another; `does_scanKeys`, `does_cleanup`: **the passes
  compute `World.scanned` and `World.swept`**.
-/

namespace FullstackSvc.LanguageServer

open Text Async FullstackSvc.Lsp FullstackSvc.Store

variable {N : Type} {C : Config N} {pid : Nat} {s s' t : World} {sessionId : JsString} {n : Nat}

/-! ### Programs that are left alone -/

/-- The state without what is recorded of the calls. -/
def World.bare (s : World) : World :=
  { s with lastGet := fun _ => none, sighted := fun _ => none, log := [], inside := fun _ => none }

/-- The process may make its calls: it has not died, and the worker has not left Redis. -/
structure Serving (pid : Nat) (s : World) : Prop where
  alive : s.dead pid = false
  redis : s.workerQuit = false

theorem Serving.of_eq (h : Serving pid s) (hcalls : s'.calls = s.calls)
    (hbirth : s'.workerBirth = s.workerBirth) (hquit : s'.workerQuit = s.workerQuit) :
    Serving pid s' := by
  refine ⟨?_, hquit.trans h.redis⟩
  rw [World.dead, World.ofWorker, hcalls, hbirth]
  exact h.alive

theorem Serving.blocked (h : Serving pid s) (c : Cmd) (r : Reply) : s.blocked pid c r = false := by
  unfold World.blocked
  rw [h.alive, h.redis, Bool.and_false, Bool.false_and]
  rfl

theorem perform_done {c : Cmd} {a : sig.Res c} (h : Serving pid s) (hr : s.refuses c = none)
    (ha : s.answer c = some a) :
    perform pid c .done s = some (.ok a, (s.after pid c).note pid c (.ok a)) := by
  simp [perform, h.blocked, performReply, hr, ha]

theorem perform_refused {c : Cmd} {e : JsError} (h : Serving pid s) (hr : s.refuses c = some e) :
    perform pid c .done s = some (.error e, s.note pid c (.error e)) := by
  simp [perform, h.blocked, performReply, hr]

/-- Left alone, the program ends with `x` and makes `t` of `s`. -/
def Does {α : Type} (C : Config N) (pid : Nat) (p : Program α) (s : World) (x : Except JsError α)
    (t : World) : Prop :=
  ∃ s', p.runWith (host C) pid .done s = some (x, s') ∧ s'.bare = t.bare

section Rules

variable {α β : Type} {p : Program α} {x : Except JsError α} {a : α} {e : JsError} {c : Cmd}

theorem bare_after : (s.bare.after pid c).bare = (s.after pid c).bare := by
  cases c with
  | redisExpire key seconds =>
    show (s.bare.expire key seconds).bare = (s.expire key seconds).bare
    rw [World.expire, World.expire]
    cases hr : s.record? key with
    | none =>
      have hb : s.bare.record? key = none := hr
      rw [hb]
      rfl
    | some found =>
      have hb : s.bare.record? key = some found := hr
      rw [hb]
      rfl
  | writeBytes path bytes =>
    show (s.bare.writeBytes path bytes).bare = (s.writeBytes path bytes).bare
    rw [World.writeBytes, World.writeBytes]
    by_cases hf : (s.files path).isSome
    · rw [if_pos hf, if_pos (show (s.bare.files path).isSome from hf)]
      rfl
    · rw [if_neg hf, if_neg (show ¬ (s.bare.files path).isSome from hf)]
      rfl
  | _ => rfl

/-- What is recorded plays no part in a call. -/
theorem perform_of_bare {x : Except JsError (sig.Res c)} (h : perform pid c .done s = some (x, t))
    (hs : s.bare = s'.bare) : ∃ t', perform pid c .done s' = some (x, t') ∧ t'.bare = t.bare := by
  have hblocked : s'.blocked pid c .done = s.blocked pid c .done := by
    show s'.bare.blocked pid c .done = s.bare.blocked pid c .done
    rw [hs]
  have hrefuses : s'.refuses c = s.refuses c := by
    show s'.bare.refuses c = s.bare.refuses c
    rw [hs]
  have hanswer : s'.answer c = s.answer c := by
    show s'.bare.answer c = s.bare.answer c
    rw [hs]
  have hafter : (s'.after pid c).bare = (s.after pid c).bare := by
    rw [← bare_after, ← hs, bare_after]
  rw [perform] at h ⊢
  rw [hblocked]
  split at h
  · cases h
  · rename_i hb
    rw [if_neg hb]
    simp only [performReply] at h ⊢
    rw [hrefuses, hanswer]
    cases hr : s.refuses c with
    | some e =>
      rw [hr] at h
      obtain ⟨rfl, rfl⟩ := Prod.mk.inj (Option.some.inj h)
      exact ⟨_, rfl, hs.symm⟩
    | none =>
      rw [hr] at h
      cases ha : s.answer c with
      | none => simp [ha] at h
      | some a =>
        rw [ha] at h
        obtain ⟨rfl, rfl⟩ := Prod.mk.inj (Option.some.inj h)
        exact ⟨_, rfl, hafter⟩

theorem compute_of_bare (o : Op) (hs : s.bare = s'.bare) :
    (compute C pid o s').1 = (compute C pid o s).1 ∧
      (compute C pid o s').2.bare = (compute C pid o s).2.bare := by
  have hval : ∀ w : World, (compute C pid o w.bare).1 = (compute C pid o w).1 := by
    intro w
    cases o <;> rfl
  have hstate : ∀ w : World, (compute C pid o w.bare).2.bare = (compute C pid o w).2.bare := by
    intro w
    cases o with
    | write stream bytes =>
      show (w.bare.write pid stream bytes).bare = (w.write pid stream bytes).bare
      rw [World.write, World.write]
      cases hsock : w.sockets[stream]? with
      | none =>
        have hb : w.bare.sockets[stream]? = none := hsock
        rw [hb]
        rfl
      | some k =>
        have hb : w.bare.sockets[stream]? = some k := hsock
        rw [hb]
        simp only
        split
        · rfl
        · rfl
    | _ => rfl
  exact ⟨by rw [← hval, ← hs, hval], by rw [← hstate, ← hs, hstate]⟩

theorem Does.congr (h : Does C pid p s x t) (hs : s.bare = s'.bare) {t' : World}
    (ht : t.bare = t'.bare) : Does C pid p s' x t' := by
  obtain ⟨s₁, hrun, hbare⟩ := h
  obtain ⟨s₂, hrun', hR⟩ := Prog.runWith_of_rel (R := fun w w' : World => w.bare = w'.bare)
    (fun hp hw => by
      obtain ⟨t', ht', he⟩ := perform_of_bare hp hw
      exact ⟨t', ht', he.symm⟩)
    (fun hw => ⟨(compute_of_bare _ hw).1, (compute_of_bare _ hw).2.symm⟩) hrun hs
  exact ⟨s₂, hrun', hR.symm.trans (hbare.trans ht)⟩

theorem does_ret : Does C pid (.ret a) s (.ok a) s := ⟨s, rfl, rfl⟩

theorem does_fail : Does C pid (.fail e : Program α) s (.error e) s := ⟨s, rfl, rfl⟩

theorem does_await {v : sig.Res c} (h : Serving pid s) (hr : s.refuses c = none)
    (ha : s.answer c = some v) : Does C pid (await c) s (.ok v) (s.after pid c) := by
  refine ⟨(s.after pid c).note pid c (.ok v), ?_, rfl⟩
  have hp : (host C).perform pid c .done s = _ := perform_done h hr ha
  rw [await, Prog.call, Prog.runWith, hp]
  rfl

theorem does_refused (h : Serving pid s) (hr : s.refuses c = some e) :
    Does C pid (await c) s (.error e) s := by
  refine ⟨s.note pid c (.error e), ?_, rfl⟩
  have hp : (host C).perform pid c .done s = _ := perform_refused h hr
  rw [await, Prog.call, Prog.runWith, hp]
  rfl

theorem does_sync (o : Op) :
    Does C pid (sync o) s (.ok (compute C pid o s).1) (compute C pid o s).2 := ⟨_, rfl, rfl⟩

/-- One thing after the other. -/
theorem Does.bind {f : α → Program β} {y : Except JsError β} {t' : World}
    (h : Does C pid p s (.ok a) t) (hf : Does C pid (f a) t y t') : Does C pid (p.bind f) s y t' := by
  obtain ⟨s₁, hrun, hbare⟩ := h
  obtain ⟨s₂, hrun', hbare'⟩ := hf.congr hbare.symm rfl
  exact ⟨s₂, (Prog.runWith_bind_ok hrun f).trans hrun', hbare'⟩

theorem Does.bind_error {f : α → Program β} (h : Does C pid p s (.error e) t) :
    Does C pid (p.bind f) s (.error e) t := by
  obtain ⟨s₁, hrun, hbare⟩ := h
  exact ⟨s₁, Prog.runWith_bind_error hrun f, hbare⟩

theorem Does.handle {f : JsError → Program α} (h : Does C pid p s (.ok a) t) :
    Does C pid (p.handle f) s (.ok a) t := by
  obtain ⟨s₁, hrun, hbare⟩ := h
  exact ⟨s₁, Prog.runWith_handle_ok hrun f, hbare⟩

theorem Does.handle_error {f : JsError → Program α} {t' : World} (h : Does C pid p s (.error e) t)
    (hf : Does C pid (f e) t x t') : Does C pid (p.handle f) s x t' := by
  obtain ⟨s₁, hrun, hbare⟩ := h
  obtain ⟨s₂, hrun', hbare'⟩ := hf.congr hbare.symm rfl
  exact ⟨s₂, (Prog.runWith_handle_error hrun f).trans hrun', hbare'⟩

end Rules

/-! ### The scan -/

/-- The record of a session with its container. -/
def SessionData.withContainer (d : SessionData) (sessionId : JsString) (n : Nat) : SessionData :=
  { d with
    containerId := some n
    containerName := some (containerNameOf sessionId)
    workspaceRoot := some (sessionRoot sessionId) }

/-- What `startContainer` writes into the record of the session, for the time that is left. -/
def World.published (s : World) (sessionId : JsString) (n : Nat) : World :=
  match s.record? (sessionKey sessionId) with
  | none => s
  | some e =>
    if s.ttl (sessionKey sessionId) > 0 then
      { s with
        redis := s.redis.insert (sessionKey sessionId)
          ⟨e.value.withContainer sessionId n,
            s.now + 1000 * (s.ttl (sessionKey sessionId)).toNat⟩ }
    else s

/-- A new container runs, and is in the map. -/
def World.launched (s : World) (pid : Nat) (sessionId : JsString) : World :=
  { s with
    containers := s.containers ++ [⟨containerNameOf sessionId, .running, pid, none, true⟩]
    containerMap := s.containerMap.set sessionId s.containers.length }

/-- The directory of the session is there. -/
def World.withDirectory (s : World) (C : Config N) (sessionId : JsString) : World :=
  { s with directories := Function.update s.directories (join C.basePath sessionId) true }

/-- What `startContainer` makes of the state: nothing but the directory where the name of the
container is taken. -/
def World.started (s : World) (C : Config N) (pid : Nat) (sessionId : JsString) : World :=
  if s.nameTaken (containerNameOf sessionId) then s.withDirectory C sessionId
  else ((s.withDirectory C sessionId).launched pid sessionId).published sessionId s.containers.length

/-- What the scan makes of the state at one session. -/
def World.scanned (s : World) (C : Config N) (pid : Nat) (sessionId : JsString) : World :=
  if (s.containerMap.get sessionId).isSome then s
  else
    match s.record? (sessionKey sessionId) with
    | none => s
    | some e =>
      match e.value.containerId with
      | none => s.started C pid sessionId
      | some n => s.register pid sessionId n

theorem modify_concat {α : Type} (l : List α) (a : α) (f : α → α) :
    (l ++ [a]).modify l.length f = l ++ [f a] := by
  induction l with
  | nil => rfl
  | cons b l ih => exact congrArg (b :: ·) ih

theorem does_writeBack {d : SessionData} (h : Serving pid s) :
    Does C pid (writeBack sessionId d) s (.ok ())
      (if s.ttl (sessionKey sessionId) > 0 then
        { s with
          redis := s.redis.insert (sessionKey sessionId)
            ⟨d, s.now + 1000 * (s.ttl (sessionKey sessionId)).toNat⟩ }
      else s) := by
  apply Does.bind (does_await (c := .redisTtl (sessionKey sessionId)) h rfl rfl)
  by_cases ht : s.ttl (sessionKey sessionId) > 0
  · rw [if_pos ht, if_pos ht]
    have hne : (s.ttl (sessionKey sessionId)).toNat ≠ 0 := by omega
    exact does_await (c := .redisSetex (sessionKey sessionId) _ d) h (if_neg hne) rfl
  · rw [if_neg ht, if_neg ht]
    exact does_ret

/-- The record of the session, when its container has been put into the map. -/
theorem does_publish (h : Serving pid s) :
    Does C pid (do
      let data ← await (.redisGet (sessionKey sessionId))
      match data with
      | none => pure ()
      | some sessionData =>
        writeBack sessionId { sessionData with
          containerId := some n
          containerName := some (containerNameOf sessionId)
          workspaceRoot := some (sessionRoot sessionId) }) s (.ok ()) (s.published sessionId n) := by
  apply Does.bind (does_await (c := .redisGet (sessionKey sessionId)) h rfl rfl)
  rw [World.published]
  cases hr : s.record? (sessionKey sessionId) with
  | none => exact does_ret.congr rfl rfl
  | some e =>
    apply (does_writeBack h).congr
    · rfl
    · rfl

/-- The container of the session is created, in this phase, and not yet in the map. -/
def World.withNew (s : World) (pid : Nat) (sessionId : JsString) (phase : ContainerPhase) : World :=
  { s with containers := s.containers ++ [⟨containerNameOf sessionId, phase, pid, none, false⟩] }

theorem phase?_withNew {phase : ContainerPhase} (h : phase ≠ .removed) :
    (s.withNew pid sessionId phase).phase? s.containers.length = some phase := by
  have hget : (s.withNew pid sessionId phase).containers[s.containers.length]? =
      some ⟨containerNameOf sessionId, phase, pid, none, false⟩ := List.getElem?_concat_length
  rw [World.phase?, hget]
  simp [h]

theorem does_createAndRegister (h : Serving pid s)
    (hn : s.nameTaken (containerNameOf sessionId) = false) :
    Does C pid (createAndRegister C sessionId) s (.ok ())
      (((s.withDirectory C sessionId).launched pid sessionId).published sessionId s.containers.length) := by
  have hs : Serving pid (s.withDirectory C sessionId) := h.of_eq rfl rfl rfl
  have hcreate : Does C pid (await (.createContainer (containerNameOf sessionId)))
      (s.withDirectory C sessionId) (.ok s.containers.length)
      ((s.withDirectory C sessionId).withNew pid sessionId .created) := by
    apply does_await hs
    · exact if_neg (by rw [show (s.withDirectory C sessionId).nameTaken _ = _ from hn]; simp)
    · rfl
  have hstart : Does C pid (await (.startContainer s.containers.length))
      ((s.withDirectory C sessionId).withNew pid sessionId .created) (.ok ())
      ((s.withDirectory C sessionId).withNew pid sessionId .running) := by
    have hphase : ((s.withDirectory C sessionId).withNew pid sessionId .created).phase?
        s.containers.length = some .created := phase?_withNew (by decide)
    have hcreated : Serving pid ((s.withDirectory C sessionId).withNew pid sessionId .created) :=
      hs.of_eq rfl rfl rfl
    have hrefuses : ((s.withDirectory C sessionId).withNew pid sessionId .created).refuses
        (.startContainer s.containers.length) = none := by
      simp [World.refuses, hphase]
    apply (does_await hcreated hrefuses rfl).congr rfl
    exact congrArg (fun l => World.bare { s.withDirectory C sessionId with containers := l })
      (modify_concat s.containers _ _)
  have hset : Does C pid (sync (.containerMapSet sessionId s.containers.length))
      ((s.withDirectory C sessionId).withNew pid sessionId .running) (.ok ())
      ((s.withDirectory C sessionId).launched pid sessionId) := by
    apply (does_sync _).congr rfl
    refine congrArg (fun l => World.bare ({ s.withDirectory C sessionId with
      containers := l, containerMap := s.containerMap.set sessionId s.containers.length }))
      ((modify_concat s.containers _ _).trans ?_)
    simp [World.withDirectory]
  exact .bind (does_await (c := .mkdir (join C.basePath sessionId)) h rfl rfl)
    (.bind hcreate (.bind hstart (.bind hset (does_publish (hs.of_eq rfl rfl rfl)))))

theorem does_startContainer (h : Serving pid s) :
    ∃ x, Does C pid (startContainer C sessionId) s x (s.started C pid sessionId) := by
  have henter : Does C pid (sync (.enter (.start sessionId))) s (.ok ()) s :=
    (does_sync _).congr rfl rfl
  have hleave : ∀ s : World, Does C pid (sync .leave) s (.ok ()) s :=
    fun s => (does_sync _).congr rfl rfl
  rw [World.started]
  cases hn : s.nameTaken (containerNameOf sessionId) with
  | true =>
    refine ⟨.error nameConflict, henter.bind (Does.bind_error ?_)⟩
    have hrefused : Does C pid (await (.createContainer (containerNameOf sessionId)))
        (s.withDirectory C sessionId) (.error nameConflict) (s.withDirectory C sessionId) :=
      does_refused (h.of_eq rfl rfl rfl) (if_pos hn)
    apply Does.handle_error (e := nameConflict)
    · exact .bind (does_await (c := .mkdir (join C.basePath sessionId)) h rfl rfl) hrefused.bind_error
    · exact (hleave _).bind does_fail
  | false => exact ⟨.ok (), henter.bind ((does_createAndRegister h hn).handle.bind (hleave _))⟩

/-- A look at a record changes nothing. -/
theorem does_get (h : Serving pid s) (key : JsString) :
    Does C pid (await (.redisGet key)) s (.ok ((s.record? key).map RedisEntry.value)) s :=
  (does_await h rfl rfl).congr rfl rfl

theorem does_scanKey (h : Serving pid s) :
    Does C pid (scanKey C (sessionKey sessionId)) s (.ok ()) (s.scanned C pid sessionId) := by
  have hhas : Does C pid (sync (.containerMapHas sessionId)) s
      (.ok (s.containerMap.get sessionId).isSome) s := does_sync _
  unfold scanKey
  rw [replace_sessionKey, World.scanned]
  refine hhas.bind ?_
  by_cases hm : (s.containerMap.get sessionId).isSome
  · rw [if_pos hm, if_pos hm]
    exact does_ret
  · rw [if_neg hm, if_neg hm]
    refine (does_get h (sessionKey sessionId)).bind ?_
    cases hr : s.record? (sessionKey sessionId) with
    | none => exact does_ret
    | some e =>
      simp only [Option.map_some]
      cases hid : e.value.containerId with
      | none =>
        have hstart : ∃ x, Does C pid (startContainer C sessionId) s x (s.started C pid sessionId) :=
          does_startContainer h
        obtain ⟨x, hx⟩ := hstart
        cases x with
        | ok a => exact hx.handle
        | error e => exact hx.handle_error does_ret
      | some n => exact (does_sync (.containerMapSet sessionId n)).handle

theorem Serving.scanned (h : Serving pid s) : Serving pid (s.scanned C pid sessionId) := by
  rw [World.scanned]
  split
  · exact h
  · split
    · exact h
    · split
      · rw [World.started]
        split
        · exact h.of_eq rfl rfl rfl
        · rw [World.published]
          split
          · exact h.of_eq rfl rfl rfl
          · split
            · exact h.of_eq rfl rfl rfl
            · exact h.of_eq rfl rfl rfl
      · exact h.of_eq rfl rfl rfl

/-- **The loop of the scan** goes over the sessions one after the other. -/
theorem does_scanKeys (sessionIds : List JsString) : ∀ {s : World}, Serving pid s →
    Does C pid (scanKeys C (sessionIds.map sessionKey)) s (.ok ())
      (sessionIds.foldl (fun s sessionId => s.scanned C pid sessionId) s) := by
  induction sessionIds with
  | nil =>
    intro s h
    exact does_ret
  | cons sessionId sessionIds ih =>
    intro s h
    exact (does_scanKey h).bind (ih h.scanned)

/-! ### What the scan has made of each session -/

/-- The session is as it was. -/
structure AsBefore (s s' : World) (sessionId : JsString) : Prop where
  record : s'.record? (sessionKey sessionId) = s.record? (sessionKey sessionId)
  entry : s'.containerMap.get sessionId = s.containerMap.get sessionId
  name : s'.nameTaken (containerNameOf sessionId) = s.nameTaken (containerNameOf sessionId)

theorem AsBefore.refl : AsBefore s s sessionId := ⟨rfl, rfl, rfl⟩

theorem AsBefore.trans (h : AsBefore s t sessionId) (h' : AsBefore t s' sessionId) : AsBefore s s' sessionId :=
  ⟨h'.record.trans h.record, h'.entry.trans h.entry, h'.name.trans h.name⟩

/-- The scan takes nothing away: the containers and the entries of the map stay, and a new
container is in the map, for a session that was not. -/
structure Grown (s s' : World) : Prop where
  now : s'.now = s.now
  files : s'.files = s.files
  containers : ∀ (n : Nat) k, s.containers[n]? = some k →
    ∃ k', s'.containers[n]? = some k' ∧ k'.name = k.name ∧ k'.phase = k.phase
  entries : ∀ sessionId n, s.containerMap.get sessionId = some n →
    s'.containerMap.get sessionId = some n
  made : ∀ (n : Nat) k, s'.containers[n]? = some k → n < s.containers.length ∨
    ∃ sessionId, s.containerMap.get sessionId = none ∧ s'.containerMap.get sessionId = some n ∧
      k.name = containerNameOf sessionId

theorem Grown.refl : Grown s s :=
  ⟨rfl, rfl, fun _ k hk => ⟨k, hk, rfl, rfl⟩, fun _ _ h => h,
    fun _ _ hk => Or.inl (List.getElem?_eq_some_iff.mp hk).1⟩

theorem Grown.trans (h : Grown s t) (h' : Grown t s') : Grown s s' := by
  refine ⟨h'.now.trans h.now, h'.files.trans h.files, fun n k hk => ?_,
    fun sid n he => h'.entries sid n (h.entries sid n he), fun n k' hk' => ?_⟩
  · obtain ⟨k₁, hk₁, hname, hphase⟩ := h.containers n k hk
    obtain ⟨k₂, hk₂, hname', hphase'⟩ := h'.containers n k₁ hk₁
    exact ⟨k₂, hk₂, hname'.trans hname, hphase'.trans hphase⟩
  · rcases h'.made n k' hk' with hlt | ⟨sid, hnone, hsome, hname⟩
    · have hk₁ := List.getElem?_eq_getElem hlt
      obtain ⟨k₂, hk₂, hname', -⟩ := h'.containers n _ hk₁
      rw [hk'] at hk₂
      obtain rfl := Option.some.inj hk₂
      rcases h.made n _ hk₁ with hlt' | ⟨sid, hnone, hsome, hname⟩
      · exact Or.inl hlt'
      · exact Or.inr ⟨sid, hnone, h'.entries sid n hsome, hname'.trans hname⟩
    · refine Or.inr ⟨sid, ?_, hsome, hname⟩
      cases he : s.containerMap.get sid with
      | none => rfl
      | some m => cases hnone.symm.trans (h.entries sid m he)

theorem Grown.length_le (h : Grown s s') : s.containers.length ≤ s'.containers.length := by
  by_contra hlt
  have hk := List.getElem?_eq_getElem (Nat.lt_of_not_le hlt)
  obtain ⟨k', hk', -⟩ := h.containers _ _ hk
  have := (List.getElem?_eq_some_iff.mp hk').1
  omega

/-- The session has got a new container, which runs; it is in the map and, when the record has
half a second left, in the record. -/
def Furnished (s s' : World) (sessionId : JsString) (e : RedisEntry) : Prop :=
  ∃ n k, s.containers.length ≤ n ∧ s'.containers[n]? = some k ∧
    k.name = containerNameOf sessionId ∧ k.phase = .running ∧
    s'.containerMap.get sessionId = some n ∧
    s'.record? (sessionKey sessionId) = some
      (if s.ttl (sessionKey sessionId) > 0 then
        ⟨e.value.withContainer sessionId n, s.now + 1000 * (s.ttl (sessionKey sessionId)).toNat⟩
      else e)

/-- What the scan makes of a session.  A live session that is not in the map gets the container of
its record; without one it gets a new container, unless one of this name exists. -/
def Attended (s s' : World) (sessionId : JsString) : Prop :=
  match s.record? (sessionKey sessionId), s.containerMap.get sessionId with
  | some e, none =>
    match e.value.containerId with
    | some n =>
      s'.containerMap.get sessionId = some n ∧ s'.record? (sessionKey sessionId) = some e
    | none =>
      (s.nameTaken (containerNameOf sessionId) = true → AsBefore s s' sessionId) ∧
        (s.nameTaken (containerNameOf sessionId) = false → Furnished s s' sessionId e)
  | _, _ => AsBefore s s' sessionId

/-- Before a pass over this session there was one over others. -/
theorem Attended.of_asBefore (h : Attended t s' sessionId) (ha : AsBefore s t sessionId) (hg : Grown s t) :
    Attended s s' sessionId := by
  have httl : t.ttl (sessionKey sessionId) = s.ttl (sessionKey sessionId) := by
    rw [World.ttl, World.ttl, World.sight, World.sight, ha.record, hg.now]
  unfold Attended at h ⊢
  rw [ha.record, ha.entry, ha.name] at h
  split at h
  · split at h
    · exact h
    · refine ⟨fun hn => ha.trans (h.1 hn), fun hn => ?_⟩
      obtain ⟨n, k, hle, hk, hname, hphase, hentry, hrecord⟩ := h.2 hn
      rw [httl, hg.now] at hrecord
      exact ⟨n, k, hg.length_le.trans hle, hk, hname, hphase, hentry, hrecord⟩
  · exact ha.trans h

/-- After a pass over this session there was one over others. -/
theorem Attended.asBefore (h : Attended s t sessionId) (ha : AsBefore t s' sessionId) (hg : Grown t s') :
    Attended s s' sessionId := by
  unfold Attended at h ⊢
  split at h
  · split at h
    · exact ⟨ha.entry.trans h.1, ha.record.trans h.2⟩
    · refine ⟨fun hn => (h.1 hn).trans ha, fun hn => ?_⟩
      obtain ⟨n, k, hle, hk, hname, hphase, hentry, hrecord⟩ := h.2 hn
      obtain ⟨k', hk', hname', hphase'⟩ := hg.containers n k hk
      exact ⟨n, k', hle, hk', hname'.trans hname, hphase'.trans hphase, ha.entry.trans hentry,
        ha.record.trans hrecord⟩
  · exact h.trans ha

/-! ### One turn of the scan -/

/-- A change that keeps the names and the phases takes and frees no name. -/
theorem nameTaken_of_map (h : (s'.containers.map fun k => (k.name, k.phase)) =
    s.containers.map fun k => (k.name, k.phase)) (name : JsString) :
    s'.nameTaken name = s.nameTaken name := by
  have hany : ∀ w : World, w.nameTaken name =
      (w.containers.map fun k => (k.name, k.phase)).any fun e => decide (e.1 = name ∧ e.2 ≠ .removed) := by
    intro w
    rw [List.any_map]
    rfl
  rw [hany, hany, h]

theorem map_modify {α β : Type} {f : α → α} {g : α → β} (h : ∀ a, g (f a) = g a) (l : List α)
    (n : Nat) : (l.modify n f).map g = l.map g := by
  apply List.ext_getElem?
  intro i
  rw [List.getElem?_map, List.getElem?_map, List.getElem?_modify]
  cases l[i]? with
  | none => rfl
  | some a =>
    by_cases hi : n = i
    · simp [hi, h]
    · simp [hi]

theorem asBefore_register {sessionId' : JsString} (hne : sessionId' ≠ sessionId) :
    AsBefore s (s.register pid sessionId n) sessionId' := by
  refine ⟨rfl, JsMap.get_set.trans (if_neg hne), nameTaken_of_map ?_ _⟩
  show (s.containers.modify n _).map _ = _
  apply map_modify
  intro k
  rfl

/-- An entry is new in the map. -/
theorem entries_set {m : JsMap JsString Nat} (h : m.get sessionId = none) {sid : JsString} {i : Nat}
    (he : m.get sid = some i) : (m.set sessionId n).get sid = some i := by
  rw [JsMap.get_set]
  split
  · rename_i hsid
    rw [hsid, h] at he
    cases he
  · exact he

theorem grown_register (h : s.containerMap.get sessionId = none) :
    Grown s (s.register pid sessionId n) := by
  have hget : ∀ m, (s.register pid sessionId n).containers[m]? =
      (fun k => if n = m then { k with registered := k.registered || decide (k.creator = pid) }
        else k) <$> s.containers[m]? := fun m => List.getElem?_modify _ _ _ _
  refine ⟨rfl, rfl, fun m k hk => ?_, fun sid i he => entries_set h he, fun m k hk => ?_⟩
  · rw [hget, hk]
    by_cases hm : n = m
    · exact ⟨_, rfl, by simp [hm], by simp [hm]⟩
    · exact ⟨_, rfl, by simp [hm], by simp [hm]⟩
  · have hlen : (s.register pid sessionId n).containers.length = s.containers.length :=
      List.length_modify _ _ _
    have hlt := (List.getElem?_eq_some_iff.mp hk).1
    rw [hlen] at hlt
    exact Or.inl hlt

theorem asBefore_launched {sessionId' : JsString} (hne : sessionId' ≠ sessionId) :
    AsBefore s (s.launched pid sessionId) sessionId' := by
  refine ⟨rfl, JsMap.get_set.trans (if_neg hne), ?_⟩
  have hname : containerNameOf sessionId ≠ containerNameOf sessionId' := fun he =>
    hne (containerNameOf_inj he).symm
  simp [World.nameTaken, World.launched, hname]

theorem grown_launched (h : s.containerMap.get sessionId = none) :
    Grown s (s.launched pid sessionId) := by
  refine ⟨rfl, rfl, fun m k hk => ⟨k, ?_, rfl, rfl⟩, fun sid i he => entries_set h he,
    fun m k hk => ?_⟩
  · have hlt := (List.getElem?_eq_some_iff.mp hk).1
    exact (List.getElem?_append_left hlt).trans hk
  · rcases getElem?_concat_cases hk with hold | ⟨rfl, rfl⟩
    · exact Or.inl (List.getElem?_eq_some_iff.mp hold).1
    · exact Or.inr ⟨sessionId, h, JsMap.get_set.trans (if_pos rfl), rfl⟩

/-- To publish changes one record. -/
theorem published_eq (s : World) (sessionId : JsString) (n : Nat) :
    (s.published sessionId n).now = s.now ∧ (s.published sessionId n).files = s.files ∧
    (s.published sessionId n).containers = s.containers ∧
    (s.published sessionId n).containerMap = s.containerMap := by
  rw [World.published]
  split
  · exact ⟨rfl, rfl, rfl, rfl⟩
  · split
    · exact ⟨rfl, rfl, rfl, rfl⟩
    · exact ⟨rfl, rfl, rfl, rfl⟩

theorem grown_published : Grown s (s.published sessionId n) := by
  obtain ⟨hnow, hfiles, hcontainers, hmap⟩ := published_eq s sessionId n
  refine ⟨hnow, hfiles, fun m k hk => ⟨k, ?_, rfl, rfl⟩, fun sid i he => ?_, fun m k hk => ?_⟩
  · rw [hcontainers]
    exact hk
  · rw [hmap]
    exact he
  · rw [hcontainers] at hk
    exact Or.inl (List.getElem?_eq_some_iff.mp hk).1

theorem record_published {e : RedisEntry} (hr : s.record? (sessionKey sessionId) = some e) :
    (s.published sessionId n).record? (sessionKey sessionId) = some
      (if s.ttl (sessionKey sessionId) > 0 then
        ⟨e.value.withContainer sessionId n, s.now + 1000 * (s.ttl (sessionKey sessionId)).toNat⟩
      else e) := by
  rw [World.published, hr]
  simp only
  split
  · exact record_insert rfl (Nat.le_add_right _ _)
  · exact hr

theorem asBefore_published {sessionId' : JsString} (hne : sessionId' ≠ sessionId) :
    AsBefore s (s.published sessionId n) sessionId' := by
  have hkey : sessionKey sessionId' ≠ sessionKey sessionId := fun he => hne (sessionKey_inj he)
  obtain ⟨-, -, hcontainers, hmap⟩ := published_eq s sessionId n
  refine ⟨?_, by rw [hmap], by rw [World.nameTaken, hcontainers]; rfl⟩
  rw [World.published]
  split
  · rfl
  · split
    · exact record_insert_ne rfl rfl hkey
    · rfl

theorem asBefore_withDirectory {sid : JsString} : AsBefore s (s.withDirectory C sessionId) sid :=
  ⟨rfl, rfl, rfl⟩

theorem grown_withDirectory : Grown s (s.withDirectory C sessionId) :=
  ⟨rfl, rfl, fun _ k hk => ⟨k, hk, rfl, rfl⟩, fun _ _ h => h,
    fun _ _ hk => Or.inl (List.getElem?_eq_some_iff.mp hk).1⟩

/-- The session gets a container. -/
theorem turn_of_start (C : Config N) (pid : Nat) {e : RedisEntry} (hr : s.record? (sessionKey sessionId) = some e)
    (hm : s.containerMap.get sessionId = none)
    (hn : s.nameTaken (containerNameOf sessionId) = false) :
    Furnished s (s.started C pid sessionId) sessionId e ∧ Grown s (s.started C pid sessionId) ∧
      ∀ sessionId' ≠ sessionId, AsBefore s (s.started C pid sessionId) sessionId' := by
  rw [World.started, if_neg (by rw [hn]; exact Bool.false_ne_true)]
  have hlaunched : Grown s ((s.withDirectory C sessionId).launched pid sessionId) :=
    grown_withDirectory.trans (grown_launched hm)
  refine ⟨?_, hlaunched.trans grown_published, fun sid hne => ?_⟩
  · refine ⟨s.containers.length, ⟨containerNameOf sessionId, .running, pid, none, true⟩, Nat.le_refl _,
      ?_, rfl, rfl, ?_, record_published hr⟩
    · rw [(published_eq _ _ _).2.2.1]
      exact List.getElem?_concat_length
    · rw [(published_eq _ _ _).2.2.2]
      exact JsMap.get_set.trans (if_pos rfl)
  · exact asBefore_withDirectory.trans ((asBefore_launched hne).trans (asBefore_published hne))

/-- **One turn of the scan**: the session is attended to, and the others stay as they are. -/
theorem turn_of_scan (C : Config N) (pid : Nat) (s : World) (sessionId : JsString) :
    Attended s (s.scanned C pid sessionId) sessionId ∧ Grown s (s.scanned C pid sessionId) ∧
      ∀ sessionId' ≠ sessionId, AsBefore s (s.scanned C pid sessionId) sessionId' := by
  unfold Attended World.scanned
  cases hm : s.containerMap.get sessionId with
  | some n =>
    simp only [Option.isSome_some, if_true]
    refine ⟨?_, .refl, fun _ _ => .refl⟩
    split
    · rename_i he
      cases he
    · exact .refl
  | none =>
    simp only [Option.isSome_none, Bool.false_eq_true, if_false]
    cases hr : s.record? (sessionKey sessionId) with
    | none => exact ⟨.refl, .refl, fun _ _ => .refl⟩
    | some e =>
      simp only
      cases hid : e.value.containerId with
      | some n =>
        simp only
        refine ⟨⟨JsMap.get_set.trans (if_pos rfl), hr⟩, grown_register hm, fun _ hne => ?_⟩
        exact asBefore_register hne
      | none =>
        simp only
        cases hn : s.nameTaken (containerNameOf sessionId) with
        | true =>
          rw [World.started, if_pos hn]
          exact ⟨⟨fun _ => asBefore_withDirectory, fun h => absurd h (by decide)⟩, grown_withDirectory,
            fun _ _ => asBefore_withDirectory⟩
        | false =>
          obtain ⟨hf, hg, ha⟩ := turn_of_start C pid hr hm hn
          exact ⟨⟨fun h => absurd h (by decide), fun _ => hf⟩, hg, ha⟩

/-- **All turns of the scan**: the sessions in the list are attended to, and the others stay as they
are. -/
theorem turns_of_scan (sessionIds : List JsString) : ∀ {s s' : World}, sessionIds.Nodup →
    sessionIds.foldl (fun s sessionId => s.scanned C pid sessionId) s = s' →
    (∀ sessionId ∈ sessionIds, Attended s s' sessionId) ∧ Grown s s' ∧
      ∀ sessionId ∉ sessionIds, AsBefore s s' sessionId := by
  induction sessionIds with
  | nil =>
    rintro s _ - rfl
    exact ⟨fun _ h => absurd h List.not_mem_nil, .refl, fun _ _ => .refl⟩
  | cons sessionId sessionIds ih =>
    intro s s' hnodup he
    obtain ⟨hnot, hnodup⟩ := List.nodup_cons.mp hnodup
    obtain ⟨hattended, hgrown, hsame⟩ := turn_of_scan C pid s sessionId
    obtain ⟨hattended', hgrown', hsame'⟩ := ih hnodup he
    refine ⟨fun sid hsid => ?_, hgrown.trans hgrown', fun sid hsid => ?_⟩
    · rcases List.mem_cons.mp hsid with rfl | hsid
      · exact hattended.asBefore (hsame' _ hnot) hgrown'
      · have hne : sid ≠ sessionId := fun h => hnot (h ▸ hsid)
        exact (hattended' sid hsid).of_asBefore (hsame sid hne) hgrown
    · rw [List.mem_cons, not_or] at hsid
      obtain ⟨hne, hsid⟩ := hsid
      exact (hsame sid hne).trans (hsame' sid hsid)

/-- The keys that `KEYS` finds are those of the live sessions. -/
theorem sessions_of_keys {found : List JsString}
    (h : found.Perm (s.liveKeys (js "lsp:session:"))) :
    ∃ sessionIds : List JsString, found = sessionIds.map sessionKey ∧ sessionIds.Nodup ∧
      ∀ sessionId, sessionId ∈ sessionIds ↔ (s.record? (sessionKey sessionId)).isSome := by
  have hmem : ∀ key, key ∈ found ↔ key ∈ s.redis.keys ∧
      startsWith key (js "lsp:session:") = true ∧ (s.record? key).isSome := by
    intro key
    rw [h.mem_iff, World.liveKeys, List.mem_filter, Bool.and_eq_true]
  have hfound : found = (found.map fun key => replace key (js "lsp:session:") []).map sessionKey := by
    rw [List.map_map]
    symm
    apply (List.map_congr_left fun key hkey => ?_).trans (List.map_id found)
    obtain ⟨sid, rfl⟩ := startsWith_iff.mp ((hmem key).mp hkey).2.1
    exact congrArg sessionKey replace_sessionKey
  have hnodup : found.Nodup := h.nodup_iff.mpr ((AList.keys_nodup _).filter _)
  refine ⟨_, hfound, ?_, fun sid => ?_⟩
  · rw [hfound] at hnodup
    exact hnodup.of_map sessionKey
  · rw [← List.mem_map_of_injective fun _ _ => sessionKey_inj, ← hfound, hmem]
    refine ⟨fun hk => hk.2.2, fun hk => ⟨?_, startsWith_iff.mpr ⟨sid, rfl⟩, hk⟩⟩
    obtain ⟨e, he⟩ := Option.isSome_iff_exists.mp hk
    exact known_of_record he

/-- A process that comes in now may make its calls. -/
theorem serving_new {ok : (services C).Sys → (services C).Event → Prop} {σ : (services C).Sys}
    (h : Service.Reaches ok (start C) σ) (hq : σ.shared.workerQuit = false) (c : Request) :
    Serving σ.procs.length (σ.shared.record c) := by
  have hborn : σ.shared.workerBirth ≤ σ.shared.calls.length :=
    inv_of_start (J := fun σ => σ.shared.workerBirth ≤ σ.shared.calls.length) (Nat.le_refl _)
      (fun hs hb => hs.born hb) h
  have hlen : σ.procs.length = σ.shared.calls.length := by
    rw [(holds_of_reaches h).1, List.length_map]
  refine ⟨?_, hq⟩
  have hlt : ¬ σ.procs.length < σ.shared.workerBirth := by omega
  exact Bool.and_eq_false_iff.mpr (Or.inr (decide_eq_false hlt))

/-- The session is the same where only what is recorded differs. -/
theorem asBefore_of_bare (hb : s'.bare = t.bare) : AsBefore t s' sessionId := by
  refine ⟨?_, ?_, ?_⟩
  · show s'.bare.record? _ = t.bare.record? _
    rw [hb]
  · show s'.bare.containerMap.get _ = t.bare.containerMap.get _
    rw [hb]
  · show s'.bare.nameTaken _ = t.bare.nameTaken _
    rw [hb]

theorem Grown.of_bare (h : Grown s t) (hb : s'.bare = t.bare) : Grown s s' := by
  have h' : Grown s t.bare := ⟨h.now, h.files, h.containers, h.entries, h.made⟩
  rw [← hb] at h'
  exact ⟨h'.now, h'.files, h'.containers, h'.entries, h'.made⟩

/-- **A scan that is left alone** attends to every session: each live one is in the map afterwards,
with the container of its record or a new one that runs, unless a container of its name exists;
every other session is as it was, and nothing is taken away. -/
theorem scan_attends (C : Config N) (σ : (services C).Sys)
    (h : Service.Reaches Service.anyEvent (start C) σ) (hup : σ.shared.workerUp = true)
    (hq : σ.shared.workerQuit = false) (found : List JsString)
    (hfound : found.Perm (σ.shared.liveKeys (js "lsp:session:"))) :
    ∃ k σ', Service.run σ (.call .scanAndCreateContainers ::
        .resume σ.procs.length (.keys found) ::
        List.replicate k (.resume σ.procs.length .done)) = some σ' ∧
      σ'.procs = σ.procs ++ [⟨.scanAndCreateContainers, .ret (), true⟩] ∧
      (∀ sessionId, Attended σ.shared σ'.shared sessionId) ∧ Grown σ.shared σ'.shared := by
  obtain ⟨sids, rfl, hnodup, hlive⟩ := sessions_of_keys hfound
  have hserving := serving_new h hq .scanAndCreateContainers
  have haccept : (services C).accept σ.procs.length .scanAndCreateContainers σ.shared =
      some (σ.shared.record .scanAndCreateContainers) := if_pos hup
  -- The keys come in, and the loop is left alone.
  have hkeys : ∃ s₁, (host C).perform σ.procs.length (.redisKeys (js "lsp:session:"))
      (.keys (sids.map sessionKey)) (σ.shared.record .scanAndCreateContainers) =
        some (.ok (sids.map sessionKey), s₁) ∧
      s₁.bare = (σ.shared.record .scanAndCreateContainers).bare := by
    refine ⟨(σ.shared.record .scanAndCreateContainers).note σ.procs.length
      (.redisKeys (js "lsp:session:")) (.ok (sids.map sessionKey)), ?_, rfl⟩
    have hlive : (sids.map sessionKey).Perm
        ((σ.shared.record .scanAndCreateContainers).liveKeys (js "lsp:session:")) := hfound
    show perform _ _ _ _ = _
    simp [perform, hserving.blocked, performReply, hlive]
  obtain ⟨s₁, hs₁, hbare⟩ := hkeys
  obtain ⟨s', hrun, hs'⟩ := (does_scanKeys (C := C) sids hserving).congr hbare.symm rfl
  obtain ⟨k, hk⟩ := Prog.runAlone_await (f := scanKeys C) hs₁ hrun
  have hpool := Service.run_of_runAlone haccept hk
  rw [List.map_cons, List.map_replicate] at hpool
  obtain ⟨hattended, hgrown, hothers⟩ := turns_of_scan (C := C)
    (s := σ.shared.record .scanAndCreateContainers) sids hnodup rfl
  have hcame : Grown σ.shared (σ.shared.record .scanAndCreateContainers) :=
    ⟨rfl, rfl, Grown.refl.containers, fun _ _ he => he, Grown.refl.made⟩
  have hsame : ∀ sid, AsBefore σ.shared (σ.shared.record .scanAndCreateContainers) sid :=
    fun _ => ⟨rfl, rfl, rfl⟩
  refine ⟨k, _, hpool, rfl, fun sid => ?_, hcame.trans (hgrown.of_bare hs')⟩
  by_cases hsid : sid ∈ sids
  · have h' := (hattended sid hsid).asBefore (asBefore_of_bare hs') (Grown.refl.of_bare hs')
    exact h'.of_asBefore (hsame sid) hcame
  · have hnone : σ.shared.record? (sessionKey sid) = none := by
      rw [← Option.not_isSome_iff_eq_none, ← hlive]
      exact hsid
    unfold Attended
    rw [hnone]
    exact (hsame sid).trans ((hothers sid hsid).trans (asBefore_of_bare hs'))

theorem Attended.furnished {e : RedisEntry} (h : Attended s s' sessionId)
    (hr : s.record? (sessionKey sessionId) = some e) (hm : s.containerMap.get sessionId = none)
    (hid : e.value.containerId = none) (hn : s.nameTaken (containerNameOf sessionId) = false) :
    Furnished s s' sessionId e := by
  unfold Attended at h
  rw [hr, hm] at h
  simp only [hid] at h
  exact h.2 hn

/-- A scan gives the first session its container. -/
theorem scan_attends_created :
    ∃ (σ : (services Config.plain).Sys) (e : RedisEntry) (k : Nat) (σ' : (services Config.plain).Sys),
      Service.run (start Config.plain) [.call (.createSession (js "ann")), .resume 0 .done] = some σ ∧
      Service.run σ (.call .scanAndCreateContainers ::
        .resume σ.procs.length (.keys [sessionKey (js "0")]) ::
        List.replicate k (.resume σ.procs.length .done)) = some σ' ∧
      Furnished σ.shared σ'.shared (js "0") e := by
  have hrun : (Service.run (start Config.plain)
      [.call (.createSession (js "ann")), .resume 0 .done]).map (fun σ =>
        (σ.shared.workerUp && !σ.shared.workerQuit,
          decide (σ.shared.liveKeys (js "lsp:session:") = [sessionKey (js "0")]),
          σ.shared.containerMap.get (js "0"),
          (σ.shared.record? (sessionKey (js "0"))).map fun e => e.value.containerId,
          σ.shared.nameTaken (containerNameOf (js "0")))) =
      some (true, true, none, some none, false) := by decide +kernel
  obtain ⟨σ, hσ, hend⟩ := Option.map_eq_some_iff.mp hrun
  obtain ⟨hworker, hend⟩ := Prod.mk.inj hend
  obtain ⟨hkeys, hend⟩ := Prod.mk.inj hend
  obtain ⟨hmap, hend⟩ := Prod.mk.inj hend
  obtain ⟨hrec, hname⟩ := Prod.mk.inj hend
  obtain ⟨e, he, hid⟩ := Option.map_eq_some_iff.mp hrec
  rw [Bool.and_eq_true, Bool.not_eq_true'] at hworker
  have hr : Service.Reaches Service.anyEvent (start Config.plain) σ :=
    Service.reaches_of_run hσ fun _ _ _ => trivial
  obtain ⟨k, σ', hpass, -, hattended, -⟩ := scan_attends Config.plain σ hr hworker.1 hworker.2
    [sessionKey (js "0")] (of_decide_eq_true hkeys ▸ List.Perm.refl _)
  exact ⟨σ, e, k, σ', hσ, hpass, (hattended (js "0")).furnished he hmap hid hname⟩

end FullstackSvc.LanguageServer
