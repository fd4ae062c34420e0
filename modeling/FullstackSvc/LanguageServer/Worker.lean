import FullstackSvc.LanguageServer.Handlers

/-!
# The worker keeps its containers in order

The programs of `LanguageServerManager` meet their needs, and leave nothing
behind: when `startContainer` is over, its container is in the map and in the
record of the session, unless Docker, Redis or the record failed it
(`StartTidy`); when `stopContainer` is over, the container is gone, unless
Docker failed (`StopTidy`).

* `serves_startContainer`, `serves_stopContainer`: **the two parts of the worker**.
* `serves_scanAndCreateContainers`, `serves_cleanupExpiredSessions`,
  `serves_stopTask`, `serves_onModuleDestroy`: the programs around them.
-/

namespace FullstackSvc.LanguageServer

open Text Async FullstackSvc.Lsp FullstackSvc.Store

variable {N : Type} {C : Config N} {may : Nat → Cmd → Reply → World → Prop} {pid : Nat}
  {c : Request} {s s' : World} {cmd : Cmd} {r : Reply} {sessionId : JsString} {n : Nat}

/-! ### `startContainer` -/

/-- The process is in `startContainer`. -/
structure Starting (C : Config N) (pid : Nat) (sessionId : JsString) (s : World) : Prop where
  inside : s.inside pid = some (.start sessionId)
  known : Known s sessionId
  stopped : StopTidy C pid s

theorem lasting_starting : Lasting pid (Starting C pid sessionId) := fun s s' h hr =>
  ⟨hr.inside.trans h.inside, h.known.mono hr.advances, lasting_stopTidy s s' h.stopped hr⟩

theorem lasting_createdBy : Lasting pid (CreatedBy pid n sessionId) := by
  rintro s s' ⟨k, hk, hname, hcreator, hreg, hphase⟩ hr
  obtain ⟨k', hk', hf⟩ := hr.advances.containers n k hk
  obtain ⟨k₁, hk₁, -, hreg', hphase'⟩ := hr.made n k' hk' (hf.creator.trans hcreator)
  rw [hk] at hk₁
  obtain rfl := Option.some.inj hk₁
  exact ⟨k', hk', hf.name.trans hname, hf.creator.trans hcreator, hreg'.trans hreg,
    (hphase' hreg).mp hphase⟩

/-- The container that the process has created is in the map. -/
def RegisteredBy (pid n : Nat) (sessionId : JsString) (s : World) : Prop :=
  ∃ k, s.containers[n]? = some k ∧ k.name = containerNameOf sessionId ∧ k.creator = pid ∧
    k.registered = true

theorem lasting_registeredBy : Lasting pid (RegisteredBy pid n sessionId) := by
  rintro s s' ⟨k, hk, hname, hcreator, hreg⟩ hr
  obtain ⟨k', hk', hf⟩ := hr.advances.containers n k hk
  exact ⟨k', hk', hf.name.trans hname, hf.creator.trans hcreator, hf.registered hreg⟩

/-- With what has become of the last container, all are settled. -/
theorem StartTidyBut.tidy (h : StartTidyBut n pid s)
    (hn : ∀ k sessionId, s.containers[n]? = some k → k.creator = pid →
      k.name = containerNameOf sessionId → Settled pid sessionId n k s) : StartTidy pid s := by
  intro m k sid hk hc hname
  by_cases hm : m = n
  · subst hm
    exact hn k sid hk hc hname
  · exact h m k sid hm hk hc hname

/-- The process has created the container, and nothing else is open. -/
def Making (C : Config N) (pid : Nat) (sessionId : JsString) (n : Nat) (s : World) : Prop :=
  Starting C pid sessionId s ∧ StartTidyBut n pid s

theorem lasting_making : Lasting pid (Making C pid sessionId n) :=
  lasting_starting.and (lasting_startTidyBut n)

theorem serves_createContainer :
    Serves C may pid .scanAndCreateContainers
      (fun s => Starting C pid sessionId s ∧ StartTidy pid s)
      (await (.createContainer (containerNameOf sessionId)))
      (fun n s => Making C pid sessionId n s ∧ CreatedBy pid n sessionId s)
      fun s => Starting C pid sessionId s ∧ StartTidy pid s := by
  have hI : Lasting pid fun s => Starting C pid sessionId s ∧ StartTidy pid s :=
    lasting_starting.and lasting_startTidy
  refine serves_await (fun s s' hs ha hp => hI s s' hs (.of_private ha hp))
    (fun s _ _ hs => ⟨sessionId, rfl, hs.1.known, hs.1.inside⟩) (fun s r n s' hi hs hx => ?_)
    fun s r e s' hi hs hx => hI s s' hs (steady_perform (containers_of_error hx) hx)
  have ha := advances_perform hx
  have hin := (still_perform hx).inside
  obtain rfl : n = s.containers.length := answer_perform hx rfl fun n he => by cases he
  cases perform_cases hx with
  | done a free said =>
    refine ⟨⟨⟨?_, hs.1.known.mono ha, fun m k sid hk hc hname => ?_⟩,
      fun m k sid hm hk hc hname => ?_⟩, ?_⟩
    · rw [hin]
      exact hs.1.inside
    · rcases getElem?_concat_cases hk with hk | ⟨-, rfl⟩
      · exact (hs.1.stopped m k sid hk hc hname).mono ha rfl
      · cases hc
    · rcases getElem?_concat_cases hk with hk | ⟨rfl, -⟩
      · exact (hs.2 m k sid hk hc hname).mono ha rfl
      · exact absurd rfl hm
    · exact ⟨_, List.getElem?_concat_length, rfl, rfl, rfl, rfl⟩

/-- A change of one container leaves the others. -/
theorem StartTidyBut.of_modify {f : Container → Container} (h : StartTidyBut n pid s)
    (ha : Advances s s') (hc : s'.containers = s.containers.modify n f) : StartTidyBut n pid s' := by
  intro m k' sid hm hk' hcreator hname
  rw [hc] at hk'
  rcases modify_cases hk' with ⟨rfl, -⟩ | ⟨-, hk⟩
  · exact absurd rfl hm
  · exact (h m k' sid hm hk hcreator hname).mono ha rfl

theorem StopTidyBut.of_modify {f : Container → Container} (h : StopTidyBut C n pid s)
    (ha : Advances s s') (hc : s'.containers = s.containers.modify n f) : StopTidyBut C n pid s' := by
  intro m k' sid hm hk' hstopper hname
  rw [hc] at hk'
  rcases modify_cases hk' with ⟨rfl, -⟩ | ⟨-, hk⟩
  · exact absurd rfl hm
  · exact (h m k' sid hm hk hstopper hname).mono ha rfl

theorem StopTidy.but (h : StopTidy C pid s) : StopTidyBut C n pid s := fun m k sid _ => h m k sid

/-- A container that is not this process's to clear. -/
theorem StopTidyBut.tidy_of_ne (h : StopTidyBut C n pid s)
    (hn : ∀ k, s.containers[n]? = some k → k.stopper ≠ some pid) : StopTidy C pid s := by
  intro m k sid hk hc hname
  by_cases hm : m = n
  · subst hm
    exact absurd hc (hn k hk)
  · exact h m k sid hm hk hc hname

theorem serves_startCreated :
    Serves C may pid .scanAndCreateContainers
      (fun s => Making C pid sessionId n s ∧ CreatedBy pid n sessionId s)
      (await (.startContainer n))
      (fun _ s => Making C pid sessionId n s ∧ StartedBy pid n sessionId s)
      fun s => Starting C pid sessionId s ∧ StartTidy pid s := by
  have hI : Lasting pid fun s => Making C pid sessionId n s ∧ CreatedBy pid n sessionId s :=
    lasting_making.and lasting_createdBy
  refine serves_await (fun s s' hs ha hp => hI s s' hs (.of_private ha hp))
    (fun s _ _ hs => ⟨sessionId, hs.2, hs.1.1.inside⟩) (fun s r a s' hi hs hx => ?_)
    fun s r e s' hi hs hx => ?_
  · have ha := advances_perform hx
    have hin := (still_perform hx).inside
    obtain ⟨⟨hst, hbut⟩, k, hk, hname, hcreator, hreg, hphase⟩ := hs
    cases perform_cases hx with
    | done a free said =>
      refine ⟨⟨⟨?_, hst.known.mono ha, ?_⟩, hbut.of_modify ha rfl⟩, ?_⟩
      · rw [hin]
        exact hst.inside
      · refine (hst.stopped.but.of_modify ha rfl).tidy_of_ne fun k' hk' hc => ?_
        rcases modify_cases hk' with ⟨-, k₀, hk₀, rfl⟩ | ⟨hne, -⟩
        · rw [hk] at hk₀
          obtain rfl := Option.some.inj hk₀
          have hnone := (hi.containers n _ hk).stopper.mpr (Or.inl hphase)
          cases hnone.symm.trans hc
        · exact absurd rfl hne
      · refine ⟨{ k with phase := .running }, ?_, hname, hcreator, hreg, fun he => by cases he⟩
        show (s.containers.modify n _)[n]? = _
        rw [List.getElem?_modify, hk]
        exact congrArg some (if_pos rfl)
  · obtain ⟨hmaking, k, hk, hname, hcreator, hreg, -⟩ :=
      hI s s' hs (steady_perform (containers_of_error hx) hx)
    refine ⟨hmaking.1, hmaking.2.tidy fun k' sid hk' _ _ => ?_⟩
    rw [hk] at hk'
    obtain rfl := Option.some.inj hk'
    have hl := logged_perform hx
    rw [outcome_error] at hl
    exact Or.inr ⟨hreg, hl⟩

theorem serves_containerMapSet {err : World → Prop} :
    Serves C may pid .scanAndCreateContainers
      (fun s => Making C pid sessionId n s ∧ StartedBy pid n sessionId s)
      (sync (.containerMapSet sessionId n))
      (fun _ s => Making C pid sessionId n s ∧ RegisteredBy pid n sessionId s) err := by
  refine serves_op (fun s _ _ hs => Or.inl ⟨hs.2, hs.1.1.inside⟩) fun s hi _ hs => ?_
  have ha : Advances s (s.register pid sessionId n) :=
    advances_compute (C := C) (.containerMapSet sessionId n)
  obtain ⟨⟨hst, hbut⟩, k, hk, hname, hcreator, hreg, -⟩ := hs
  refine ⟨⟨⟨hst.inside, hst.known.mono ha, ?_⟩, hbut.of_modify ha rfl⟩, ?_⟩
  · refine (hst.stopped.but.of_modify ha rfl).tidy_of_ne fun k' hk' hc => ?_
    rcases modify_cases hk' with ⟨-, k₀, hk₀, rfl⟩ | ⟨hne, -⟩
    · rw [hk] at hk₀
      obtain rfl := Option.some.inj hk₀
      have hg := hi.containers n _ hk
      cases (hg.stopper.mpr (hg.own hreg)).symm.trans hc
    · exact absurd rfl hne
  · refine ⟨{ k with registered := k.registered || decide (k.creator = pid) }, ?_, hname, hcreator, ?_⟩
    · show (s.containers.modify n _)[n]? = _
      rw [List.getElem?_modify, hk]
      exact congrArg some (if_pos rfl)
    · show (k.registered || decide (k.creator = pid)) = true
      rw [decide_eq_true hcreator, Bool.or_true]

/-- When the container of the process is in the map and what follows is over, all
is settled. -/
theorem tidy_of_published (h : Making C pid sessionId n s) (hr : RegisteredBy pid n sessionId s)
    (hp : Published pid sessionId n s) : Starting C pid sessionId s ∧ StartTidy pid s := by
  obtain ⟨k, hk, hname, hcreator, hreg⟩ := hr
  refine ⟨h.1, h.2.tidy fun k' sid hk' _ hname' => ?_⟩
  rw [hk] at hk'
  obtain rfl := Option.some.inj hk'
  obtain rfl := containerNameOf_inj (hname.symm.trans hname')
  exact Or.inl ⟨hreg, hp⟩

theorem published_of_noted {out : Outcome} (h : Noted s pid cmd out)
    (hin : s.inside pid = some (.start sessionId)) (hc : cmd.OnRecord sessionId)
    (ho : out ≠ .done) : Published pid sessionId n s := by
  obtain ⟨e, he, hp, rfl, rfl, hpart⟩ := h
  exact Or.inr ⟨e, he, hp, hpart.trans hin, hc, ho⟩

/-- The record of the session, when its container has been put into the map. -/
theorem serves_publish :
    Serves C may pid .scanAndCreateContainers
      (fun s => Making C pid sessionId n s ∧ RegisteredBy pid n sessionId s)
      (do
        let data ← await (.redisGet (sessionKey sessionId))
        match data with
        | none => pure ()
        | some sessionData =>
          writeBack sessionId { sessionData with
            containerId := some n
            containerName := some (containerNameOf sessionId)
            workspaceRoot := some (sessionRoot sessionId) })
      (fun _ s => Starting C pid sessionId s ∧ StartTidy pid s)
      fun s => Starting C pid sessionId s ∧ StartTidy pid s := by
  have hI : Lasting pid fun s => Making C pid sessionId n s ∧ RegisteredBy pid n sessionId s :=
    lasting_making.and lasting_registeredBy
  refine .bind (fun found s => (Making C pid sessionId n s ∧ RegisteredBy pid n sessionId s) ∧
    Got C pid sessionId found s) ?_ fun found => ?_
  · refine (serves_get hI).mono (fun _ h => h) (fun _ _ h => h) fun s h => ?_
    exact tidy_of_published h.1.1 h.1.2
      (published_of_noted h.2 h.1.1.1.inside (Or.inl rfl) (by decide))
  · cases found with
    | none =>
      exact .ret fun s h => tidy_of_published h.1.1 h.1.2
        (published_of_noted h.2 h.1.1.1.inside (Or.inl rfl) (by decide))
    | some d =>
      have hgood : Lasting pid fun s => (Making C pid sessionId n s ∧ RegisteredBy pid n sessionId s) ∧
          GoodRecord C s sessionId d := hI.and fun _ _ h hr => h.mono hr.advances
      refine (serves_writeBack hgood fun s h => ?_).mono (fun s h => ⟨⟨h.1, h.2.1.good⟩, h.2.1.last⟩)
        (fun _ s h => ?_) fun s h => ?_
      · obtain ⟨⟨hm, k, hk, hname, hcreator, hreg⟩, hd⟩ := h
        refine ⟨trivial, ⟨hd.owner, fun m he => ?_, rfl⟩, hm.1.known, fun _ hf => hf,
          Or.inr ⟨hm.1.inside, rfl, n, rfl, k, hk, hcreator⟩⟩
        obtain rfl := Option.some.inj he
        exact ⟨k, hk, hname, hreg⟩
      · refine tidy_of_published h.1.1.1 h.1.1.2 ?_
        rcases h.2 with ⟨seconds, hn⟩ | hn
        · exact Or.inl ⟨seconds, _, rfl, hn.logged⟩
        · exact published_of_noted hn h.1.1.1.1.inside (Or.inr (Or.inl rfl)) (by decide)
      · obtain ⟨cmd, hc, hn⟩ := h.2
        exact tidy_of_published h.1.1.1 h.1.1.2
          (published_of_noted hn h.1.1.1.1.inside hc (by decide))

theorem serves_createAndRegister :
    Serves C may pid .scanAndCreateContainers
      (fun s => Starting C pid sessionId s ∧ StartTidy pid s) (createAndRegister C sessionId)
      (fun _ s => Starting C pid sessionId s ∧ StartTidy pid s)
      fun s => Starting C pid sessionId s ∧ StartTidy pid s := by
  refine .bind _ (serves_quiet rfl (lasting_starting.and lasting_startTidy) fun s hs =>
    ⟨trivial, sessionId, rfl, hs.1.known⟩) fun _ => ?_
  refine .bind _ serves_createContainer fun n => .bind _ serves_startCreated fun _ => ?_
  exact .bind _ serves_containerMapSet fun _ => serves_publish

/-- Into a part of the worker. -/
theorem enter_steady {part : Section} (ha : Advances s (compute C pid (.enter part) s).2) :
    (StartTidy pid s → StartTidy pid (compute C pid (.enter part) s).2) ∧
      (StopTidy C pid s → StopTidy C pid (compute C pid (.enter part) s).2) :=
  ⟨fun h m k sid hk hc hname => (h m k sid hk hc hname).mono ha rfl,
    fun h m k sid hk hc hname => (h m k sid hk hc hname).mono ha rfl⟩

/-- Out of it again. -/
theorem serves_leave {pre err : World → Prop}
    (h : ∀ s, pre s → StartTidy pid s ∧ StopTidy C pid s) :
    Serves C may pid c pre (sync .leave) (fun _ => Home C pid) err := by
  refine serves_op (fun s _ _ hs => h s hs) fun s _ _ hs => ?_
  have ha : Advances s (compute C pid .leave s).2 := advances_compute _
  exact ⟨Function.update_self _ _ _,
    fun m k sid hk hc hname => ((h s hs).1 m k sid hk hc hname).mono ha rfl,
    fun m k sid hk hc hname => ((h s hs).2 m k sid hk hc hname).mono ha rfl⟩

/-- **`startContainer`** leaves nothing open. -/
theorem serves_startContainer :
    Serves C may pid .scanAndCreateContainers (fun s => Home C pid s ∧ Known s sessionId)
      (startContainer C sessionId) (fun _ => Home C pid) (Home C pid) := by
  refine .bind (fun _ s => Starting C pid sessionId s ∧ StartTidy pid s) ?_ fun _ => ?_
  · refine serves_op (fun s _ _ hs => ⟨hs.1.inside, fun sid he => ?_⟩) fun s _ _ hs => ?_
    · obtain rfl := Section.start.inj he
      exact hs.2
    have ha : Advances s (compute C pid (.enter (.start sessionId)) s).2 := advances_compute _
    exact ⟨⟨Function.update_self _ _ _, hs.2.mono ha, (enter_steady ha).2 hs.1.stopped⟩,
      (enter_steady ha).1 hs.1.started⟩
  · refine .bind (fun _ s => Starting C pid sessionId s ∧ StartTidy pid s) ?_ fun _ =>
      serves_leave fun s hs => ⟨hs.2, hs.1.stopped⟩
    refine .handle _ serves_createAndRegister fun e => ?_
    exact .bind _ (serves_leave fun s hs => ⟨hs.2, hs.1.stopped⟩) fun _ => .fail fun _ h => h

/-! ### The scan -/

/-- The keys are those of sessions. -/
def SessionKeys (keys : List JsString) (s : World) : Prop :=
  ∀ key ∈ keys, ∃ sessionId, key = sessionKey sessionId ∧ Known s sessionId

theorem persists_sessionKeys {keys : List JsString} : Persists (SessionKeys keys) := by
  intro s s' h ha key hk
  obtain ⟨sid, he, hknown⟩ := h key hk
  exact ⟨sid, he, hknown.mono ha⟩

theorem replace_sessionKey : replace (sessionKey sessionId) (js "lsp:session:") [] = sessionId :=
  replace_append (js "lsp:session:") sessionId []

theorem persists_known : Persists fun s => Known s sessionId := fun _ _ h ha => h.mono ha

/-- To adopt a container that has been in the map changes no container. -/
theorem steady_register (h : Tracked s sessionId n) : Steady pid s (s.register pid sessionId n) := by
  obtain ⟨k₀, hk₀, -, hreg⟩ := h
  have hsame : ∀ (m : Nat) k', (s.register pid sessionId n).containers[m]? = some k' →
      s.containers[m]? = some k' := by
    intro m k' hk'
    rcases modify_cases hk' with ⟨rfl, k, hk, rfl⟩ | ⟨-, hk⟩
    · rw [hk₀] at hk
      obtain rfl := Option.some.inj hk
      rw [hk₀]
      obtain ⟨name, phase, creator, stopper, registered⟩ := k₀
      obtain rfl : registered = true := hreg
      rfl
    · exact hk
  exact ⟨advances_compute (C := Config.plain) (.containerMapSet sessionId n), rfl,
    fun m k' hk' hc => ⟨k', hsame m k' hk', hc, rfl, fun _ => Iff.rfl⟩,
    fun m k' hk' hc => ⟨k', hsame m k' hk', hc, rfl⟩⟩

theorem serves_scanKey :
    Serves C may pid .scanAndCreateContainers (fun s => Home C pid s ∧ Known s sessionId)
      (scanKey C (sessionKey sessionId)) (fun _ => Home C pid) (Home C pid) := by
  have hI : Lasting pid fun s => Home C pid s ∧ Known s sessionId :=
    lasting_home.and persists_known.lasting
  unfold scanKey
  rw [replace_sessionKey]
  refine .bind (fun _ s => Home C pid s ∧ Known s sessionId)
    (serves_op (fun _ _ _ _ => trivial) fun _ _ _ h => h) fun known => ?_
  by_cases hk : known = true
  · rw [if_pos hk]
    exact .ret fun _ hs => hs.1
  rw [if_neg hk]
  refine .bind _ ((serves_look hI).mono (fun _ h => h) (fun _ _ h => h) fun _ h => h.1.1)
    fun found => ?_
  cases found with
  | none => exact .ret fun _ hs => hs.1.1
  | some d =>
    refine .handle (Home C pid) ?_ fun e => .ret fun _ hs => hs
    cases hid : d.containerId with
    | none =>
      simp only
      exact Serves.weaken serves_startContainer fun _ hs => hs.1
    | some n =>
      simp only
      refine serves_op (fun s _ _ hs => ?_) fun s _ _ hs => ?_
      · obtain ⟨⟨hh, hk⟩, ⟨hread, -⟩, hfound⟩ := hs
        obtain ⟨e, he, rfl⟩ := Option.map_eq_some_iff.mp hfound.symm
        exact Or.inr ⟨hread.good.container n hid, e, he, hid⟩
      · exact hs.1.1.of_steady (steady_register (hs.2.1.1.good.container n hid))

theorem serves_scanKeys {keys : List JsString} :
    Serves C may pid .scanAndCreateContainers (fun s => Home C pid s ∧ SessionKeys keys s)
      (scanKeys C keys) (fun _ => Home C pid) (Home C pid) := by
  induction keys with
  | nil => exact .ret fun _ hs => hs.1
  | cons key keys ih =>
    refine .bind (fun _ s => Home C pid s ∧ SessionKeys keys s) ?_ fun _ => ih
    refine fun s₀ s hi hg hs => ?_
    obtain ⟨sid, rfl, hk⟩ := hs.2.2 key List.mem_cons_self
    have hscan : Serves C may pid .scanAndCreateContainers
        (fun s => (Home C pid s ∧ Known s sid) ∧ SessionKeys keys s) (scanKey C (sessionKey sid))
        (fun _ s => Home C pid s ∧ SessionKeys keys s) (Home C pid) :=
      (serves_scanKey.frame persists_sessionKeys).mono (fun _ h => h) (fun _ _ h => h) fun _ h => h.1
    exact hscan s₀ s hi hg ⟨hs.1, ⟨hs.2.1, hk⟩,
      fun key' hk' => hs.2.2 key' (List.mem_cons_of_mem _ hk')⟩

theorem serves_scanAndCreateContainers :
    Serves C may pid .scanAndCreateContainers (Home C pid) (scanAndCreateContainers C)
      (fun _ => Home C pid) (Home C pid) := by
  refine .bind (fun keys s => Home C pid s ∧ SessionKeys keys s) ?_ fun keys => serves_scanKeys
  refine serves_await (fun s s' hs ha hp => hs.of_steady (.of_private ha hp))
    (fun _ _ _ _ => trivial) (fun s r keys s' hi hs hx => ⟨?_, ?_⟩) fun s r e s' hi hs hx => ?_
  · exact hs.of_steady (steady_perform (containers_of_undocked rfl hx) hx)
  · intro key hk
    have hlive := (answer_redisKeys hx).mem_iff.mp hk
    have hmem : key ∈ s.redis := (List.mem_filter.mp hlive).1
    obtain ⟨e, he⟩ := Option.isSome_iff_exists.mp (AList.lookup_isSome.mpr hmem)
    obtain ⟨sid, rfl, -⟩ := hi.records key e he
    exact ⟨sid, rfl, Known.mono hmem (advances_perform hx)⟩
  · exact hs.of_steady (steady_perform (containers_of_undocked rfl hx) hx)

/-! ### `stopContainer` -/

theorem Stopping.of_steady (h : Stopping c pid sessionId n s) (hr : Steady pid s s') :
    Stopping c pid sessionId n s' :=
  ⟨hr.inside.trans h.inside, h.tracked.mono hr.advances, h.doomed.mono hr.advances⟩

theorem lasting_stopping : Lasting pid (Stopping c pid sessionId n) := fun _ _ h hr => h.of_steady hr

theorem lasting_stoppedBy {phase : ContainerPhase} : Lasting pid (StoppedBy pid n phase) := by
  rintro s s' ⟨k, hk, hstopper, hphase⟩ hr
  obtain ⟨k', hk', hf⟩ := hr.advances.containers n k hk
  obtain ⟨k₁, hk₁, -, hphase'⟩ := hr.stopped n k' hk' (hf.stopper pid hstopper)
  rw [hk] at hk₁
  obtain rfl := Option.some.inj hk₁
  exact ⟨k', hk', hf.stopper pid hstopper, hphase'.trans hphase⟩

/-- The process is stopping the container, and nothing else is open. -/
structure Clearing (C : Config N) (c : Request) (pid : Nat) (sessionId : JsString) (n : Nat)
    (s : World) : Prop where
  stopping : Stopping c pid sessionId n s
  started : StartTidy pid s
  stopped : StopTidyBut C n pid s

theorem lasting_clearing : Lasting pid (Clearing C c pid sessionId n) := fun s s' h hr =>
  ⟨h.stopping.of_steady hr, lasting_startTidy s s' h.started hr,
    lasting_stopTidyBut n s s' h.stopped hr⟩

/-- The call of `stopContainer` is over. -/
structure Over (C : Config N) (c : Request) (pid : Nat) (sessionId : JsString) (n : Nat) (s : World) :
    Prop where
  stopping : Stopping c pid sessionId n s
  started : StartTidy pid s
  stopped : StopTidy C pid s
  emptied : Emptied C pid sessionId s

theorem Clearing.over (h : Clearing C c pid sessionId n s)
    (hc : ∀ k, s.containers[n]? = some k → k.stopper = some pid ∧ Cleared C pid sessionId n k s) :
    Over C c pid sessionId n s := by
  obtain ⟨k, hk, hname, hreg⟩ := h.stopping.tracked
  refine ⟨h.stopping, h.started, fun m k' sid hk' hst hname' => ?_,
    n, k, hk, hname, hreg, Or.inl (hc k hk)⟩
  by_cases hm : m = n
  · subst hm
    rw [hk] at hk'
    obtain rfl := Option.some.inj hk'
    obtain rfl := containerNameOf_inj (hname.symm.trans hname')
    exact (hc k hk).2
  · exact h.stopped m k' sid hm hk' hst hname'

theorem serves_stop :
    Serves C may pid c
      (fun s => Stopping c pid sessionId n s ∧ StartTidy pid s ∧ StopTidy C pid s)
      (await (.stopContainer n))
      (fun _ s => Clearing C c pid sessionId n s ∧ StoppedBy pid n .stopped s)
      (Over C c pid sessionId n) := by
  have hI : Lasting pid fun s => Stopping c pid sessionId n s ∧ StartTidy pid s ∧ StopTidy C pid s :=
    lasting_stopping.and (lasting_startTidy.and lasting_stopTidy)
  refine serves_await (fun s s' hs ha hp => hI s s' hs (.of_private ha hp))
    (fun s _ _ hs => ⟨sessionId, hs.1⟩) (fun s r a s' hi hs hx => ?_) fun s r e s' hi hs hx => ?_
  · have ha := advances_perform hx
    have hin := (still_perform hx).inside
    obtain ⟨k, hk, hname, hreg⟩ := hs.1.tracked
    cases perform_cases hx with
    | done a free said =>
      have hrun : k.phase = .running := by
        simp only [World.refuses] at free
        split at free
        · cases free
        · rename_i phase hphase
          split at free
          · rename_i he
            obtain ⟨k₁, hk₁, hp, -⟩ := phase?_eq_some hphase
            rw [hk] at hk₁
            obtain rfl := Option.some.inj hk₁
            exact hp.trans he
          · cases free
      have hnone := (hi.containers n k hk).stopper.mpr (Or.inr (Or.inl hrun))
      refine ⟨⟨⟨?_, hs.1.tracked.mono ha, hs.1.doomed.mono ha⟩, fun m k' sid hk' hc hname' => ?_,
        hs.2.2.but.of_modify ha rfl⟩, ?_⟩
      · rw [hin]
        exact hs.1.inside
      · rcases modify_cases hk' with ⟨rfl, k₀, hk₀, rfl⟩ | ⟨-, hk₀⟩
        · exact (hs.2.1 n k₀ sid hk₀ hc hname').mono ha rfl
        · exact (hs.2.1 m k' sid hk₀ hc hname').mono ha rfl
      · refine ⟨{ k with phase := .stopped, stopper := k.stopper <|> some pid }, ?_, ?_, rfl⟩
        · show (s.containers.modify n _)[n]? = _
          rw [List.getElem?_modify, hk]
          exact congrArg some (if_pos rfl)
        · show (k.stopper <|> some pid) = some pid
          rw [hnone]
          rfl
  · have h := hI s s' hs (steady_perform (containers_of_error hx) hx)
    obtain ⟨k, hk, hname, hreg⟩ := h.1.tracked
    have hl := logged_perform hx
    rw [outcome_error] at hl
    exact ⟨h.1, h.2.1, h.2.2, n, k, hk, hname, hreg, Or.inr hl⟩

theorem serves_remove :
    Serves C may pid c
      (fun s => Clearing C c pid sessionId n s ∧ StoppedBy pid n .stopped s)
      (await (.removeContainer n))
      (fun _ s => Clearing C c pid sessionId n s ∧ StoppedBy pid n .removed s)
      (Over C c pid sessionId n) := by
  have hI : Lasting pid fun s => Clearing C c pid sessionId n s ∧ StoppedBy pid n .stopped s :=
    lasting_clearing.and lasting_stoppedBy
  refine serves_await (fun s s' hs ha hp => hI s s' hs (.of_private ha hp))
    (fun s _ _ hs => ⟨sessionId, hs.1.stopping, hs.2⟩) (fun s r a s' hi hs hx => ?_)
    fun s r e s' hi hs hx => ?_
  · have ha := advances_perform hx
    have hin := (still_perform hx).inside
    obtain ⟨hcl, k, hk, hstopper, -⟩ := hs
    cases perform_cases hx with
    | done a free said =>
      refine ⟨⟨⟨?_, hcl.stopping.tracked.mono ha, hcl.stopping.doomed.mono ha⟩,
        fun m k' sid hk' hc hname' => ?_, hcl.stopped.of_modify ha rfl⟩, ?_⟩
      · rw [hin]
        exact hcl.stopping.inside
      · rcases modify_cases hk' with ⟨rfl, k₀, hk₀, rfl⟩ | ⟨-, hk₀⟩
        · exact (hcl.started n k₀ sid hk₀ hc hname').mono ha rfl
        · exact (hcl.started m k' sid hk₀ hc hname').mono ha rfl
      · refine ⟨{ k with phase := .removed }, ?_, hstopper, rfl⟩
        show (s.containers.modify n _)[n]? = _
        rw [List.getElem?_modify, hk]
        exact congrArg some (if_pos rfl)
  · obtain ⟨hcl, k, hk, hstopper, -⟩ := hI s s' hs (steady_perform (containers_of_error hx) hx)
    have hl := logged_perform hx
    rw [outcome_error] at hl
    refine hcl.over fun k' hk' => ?_
    rw [hk] at hk'
    obtain rfl := Option.some.inj hk'
    exact ⟨hstopper, Or.inr hl⟩

theorem serves_rm :
    Serves C may pid c
      (fun s => Clearing C c pid sessionId n s ∧ StoppedBy pid n .removed s)
      (await (.rm (join C.basePath sessionId))) (fun _ => Over C c pid sessionId n)
      (Over C c pid sessionId n) := by
  have hI : Lasting pid fun s => Clearing C c pid sessionId n s ∧ StoppedBy pid n .removed s :=
    lasting_clearing.and lasting_stoppedBy
  have hover : ∀ {x : Except JsError Unit} {r s s'},
      Clearing C c pid sessionId n s ∧ StoppedBy pid n .removed s →
      perform pid (.rm (join C.basePath sessionId)) r s = some (x, s') →
      Over C c pid sessionId n s' := by
    intro x r s s' hs hx
    obtain ⟨hcl, k, hk, hstopper, hphase⟩ :=
      hI s s' hs (steady_perform (containers_of_undocked rfl hx) hx)
    refine hcl.over fun k' hk' => ?_
    rw [hk] at hk'
    obtain rfl := Option.some.inj hk'
    exact ⟨hstopper, Or.inl ⟨hphase, _, logged_perform hx⟩⟩
  exact serves_await (fun s s' hs ha hp => hI s s' hs (.of_private ha hp))
    (fun s _ _ hs => ⟨sessionId, n, rfl, hs.1.stopping, hs.2⟩) (fun s r a s' hi hs hx => hover hs hx)
    fun s r e s' hi hs hx => hover hs hx

theorem Emptied.mono (h : Emptied C pid sessionId s) (ha : Advances s s') :
    Emptied C pid sessionId s' := by
  obtain ⟨n, k, hk, hname, hreg, hcase⟩ := h
  obtain ⟨k', hk', hf⟩ := ha.containers n k hk
  refine ⟨n, k', hk', hf.name.trans hname, hf.registered hreg, ?_⟩
  rcases hcase with ⟨hstopper, ⟨hphase, out, hl⟩ | hl⟩ | hl
  · exact Or.inl ⟨hf.stopper pid hstopper, Or.inl ⟨hf.removed hphase, out, hl.mono ha⟩⟩
  · exact Or.inl ⟨hf.stopper pid hstopper, Or.inr (hl.mono ha)⟩
  · exact Or.inr (hl.mono ha)

/-- **`stopContainer`** leaves nothing open. -/
theorem serves_stopContainer (err : World → Prop) :
    Serves C may pid c
      (fun s => Home C pid s ∧ Tracked s sessionId n ∧ Doomed c pid sessionId n s)
      (stopContainer C n sessionId) (fun _ s => Home C pid s ∧ Emptied C pid sessionId s) err := by
  refine .bind (fun _ s => Stopping c pid sessionId n s ∧ StartTidy pid s ∧ StopTidy C pid s) ?_
    fun _ => ?_
  · refine serves_op (fun s _ _ hs => ⟨hs.1.inside, fun sid he => by cases he⟩) fun s _ _ hs => ?_
    have ha : Advances s (compute C pid (.enter (.stop sessionId)) s).2 := advances_compute _
    exact ⟨⟨Function.update_self _ _ _, hs.2.1.mono ha, hs.2.2.mono ha⟩,
      (enter_steady ha).1 hs.1.started, (enter_steady ha).2 hs.1.stopped⟩
  · refine .bind (fun _ => Over C c pid sessionId n) ?_ fun _ => ?_
    · refine .handle (Over C c pid sessionId n) ?_ fun e => .ret fun _ h => h
      refine .bind _ serves_stop fun _ => .bind _ serves_remove fun _ => ?_
      exact .handle _ serves_rm fun e => .ret fun _ h => h
    · refine serves_op (fun s _ _ hs => ⟨hs.started, hs.stopped⟩) fun s _ _ hs => ?_
      have ha : Advances s (compute C pid .leave s).2 := advances_compute _
      exact ⟨⟨Function.update_self _ _ _,
        fun m k sid hk hc hname => (hs.started m k sid hk hc hname).mono ha rfl,
        fun m k sid hk hc hname => (hs.stopped m k sid hk hc hname).mono ha rfl⟩,
        hs.emptied.mono ha⟩

/-! ### The cleanup and the shutdown -/

/-- The cleanup has found the session expired and stopped its container. -/
def Cleaned (C : Config N) (pid : Nat) (sessionId : JsString) (s : World) : Prop :=
  Logged s pid (.redisExists (sessionKey sessionId)) .missed ∧ Emptied C pid sessionId s

/-- `sessionsToClean`. -/
def Cleaning (C : Config N) (pid : Nat) (sessions : List JsString) (s : World) : Prop :=
  Home C pid s ∧ ∀ sessionId ∈ sessions, Cleaned C pid sessionId s

variable {turns : Nat} {sessions : List JsString}

theorem persists_cleaned : Persists fun s => ∀ sessionId ∈ sessions, Cleaned C pid sessionId s :=
  fun _ _ h ha sid hs => ⟨(h sid hs).1.mono ha, (h sid hs).2.mono ha⟩

theorem lasting_cleaning : Lasting pid (Cleaning C pid sessions) :=
  lasting_home.and persists_cleaned.lasting

theorem serves_deleteEntries {err : World → Prop} :
    Serves C may pid (.cleanupExpiredSessions turns) (Cleaning C pid sessions)
      (deleteEntries sessions) (fun _ => Home C pid) err := by
  induction sessions with
  | nil => exact .ret fun _ hs => hs.1
  | cons sid sessions ih =>
    refine .bind (fun _ => Cleaning C pid sessions) ?_ fun _ => ih
    refine serves_op (fun s _ _ hs => ?_) fun s _ _ hs => ?_
    · obtain ⟨hl, he⟩ := hs.2 sid List.mem_cons_self
      exact ⟨⟨turns, rfl⟩, hl, he⟩
    · have hr : Steady pid s (compute C pid (.containerMapDelete sid) s).2 :=
        .of_containers (advances_compute _) rfl rfl
      exact lasting_cleaning s _ ⟨hs.1, fun sid' h => hs.2 sid' (List.mem_cons_of_mem _ h)⟩ hr

/-- The call of `stopContainer` in the loop keeps what has been cleaned before. -/
theorem serves_stopExpired {n : Nat} :
    Serves C may pid (.cleanupExpiredSessions turns)
      (fun s => Cleaning C pid sessions s ∧ Tracked s sessionId n ∧
        Logged s pid (.redisExists (sessionKey sessionId)) .missed)
      (stopContainer C n sessionId) (fun _ => Cleaning C pid (sessions ++ [sessionId]))
      (Home C pid) := by
  have hJ : Persists fun s => (∀ sid ∈ sessions, Cleaned C pid sid s) ∧
      Logged s pid (.redisExists (sessionKey sessionId)) .missed :=
    fun s s' h ha => ⟨persists_cleaned s s' h.1 ha, h.2.mono ha⟩
  refine ((serves_stopContainer (Home C pid)).frame hJ).mono (fun s hs => ?_)
    (fun _ s hs => ⟨hs.1.1, fun sid hm => ?_⟩) fun _ h => h.1
  · exact ⟨⟨hs.1.1, hs.2.1, hs.2.2⟩, hs.1.2, hs.2.2⟩
  · rcases List.mem_append.mp hm with hm | hm
    · exact hs.2.1 sid hm
    · obtain rfl := List.mem_singleton.mp hm
      exact ⟨hs.2.2, hs.1.2⟩

theorem serves_cleanupFrom {place left : Nat} :
    Serves C may pid (.cleanupExpiredSessions turns) (Cleaning C pid sessions)
      (cleanupFrom C place sessions left) (fun _ => Home C pid) (Home C pid) := by
  induction left generalizing place sessions with
  | zero =>
    have hnever : Serves C may pid (.cleanupExpiredSessions turns) (Cleaning C pid sessions)
        (await .never) (fun _ => Cleaning C pid sessions) (Cleaning C pid sessions) :=
      serves_quiet rfl lasting_cleaning fun _ _ => trivial
    exact hnever.mono (fun _ h => h) (fun _ _ h => h.1) fun _ h => h.1
  | succ left ih =>
    refine .bind (fun entry s => Cleaning C pid sessions s ∧ ∀ place sid n,
      entry = some (place, sid, n) → Tracked s sid n) ?_ fun entry => ?_
    · refine serves_op (fun _ _ _ _ => trivial) fun s hi _ hs => ⟨hs, fun place' sid n he => ?_⟩
      exact hi.map sid n (JsMap.mem_of_next he)
    · cases entry with
      | none => exact serves_deleteEntries.weaken fun _ hs => hs.1
      | some entry =>
        obtain ⟨place', sid, n⟩ := entry
        have hI : Lasting pid fun s => Cleaning C pid sessions s ∧ Tracked s sid n :=
          lasting_cleaning.and fun _ _ h hr => h.mono hr.advances
        refine .bind (fun found s => (Cleaning C pid sessions s ∧ Tracked s sid n) ∧
          (found = false → Logged s pid (.redisExists (sessionKey sid)) .missed)) ?_ fun found => ?_
        · refine Serves.weaken (serves_await (fun s s' hs ha hp => hI s s' hs (.of_private ha hp))
            (fun s hi _ hs => ⟨sid, rfl, hi.known_of_tracked hs.2⟩)
            (fun s r found s' hi hs hx => ⟨?_, ?_⟩)
            fun s r e s' hi hs hx => ?_) fun s hs => ⟨hs.1, hs.2 place' sid n rfl⟩
          · exact hI s s' hs (steady_perform (containers_of_undocked rfl hx) hx)
          · rintro rfl
            exact logged_perform hx
          · exact (hI s s' hs (steady_perform (containers_of_undocked rfl hx) hx)).1.1
        · cases found with
          | true => exact ih.weaken fun _ hs => hs.1.1
          | false =>
            exact .bind _ (serves_stopExpired.weaken fun _ hs => ⟨hs.1.1, hs.1.2, hs.2 rfl⟩)
              fun _ => ih

theorem serves_cleanupExpiredSessions :
    Serves C may pid (.cleanupExpiredSessions turns) (Home C pid) (cleanupExpiredSessions C turns)
      (fun _ => Home C pid) (Home C pid) :=
  serves_cleanupFrom.weaken fun _ hs => ⟨hs, fun _ h => by cases h⟩

theorem serves_stopTask {n : Nat} :
    Serves C may pid (.stopTask n sessionId) (fun s => Home C pid s ∧ Tracked s sessionId n)
      (stopTask C n sessionId) (fun _ => Home C pid) (Home C pid) := by
  refine .bind (fun _ => Home C pid) ?_ fun _ => ?_
  · exact (serves_stopContainer (Home C pid)).mono (fun _ hs => ⟨hs.1, hs.2, rfl, rfl⟩)
      (fun _ _ h => h.1) fun _ h => h
  · exact serves_sync lasting_home (fun _ _ => trivial) fun _ =>
      .of_containers (advances_compute (C := C) _) rfl rfl

/-- The stop tasks are over. -/
theorem serves_joinStops :
    Serves C may pid c (Home C pid) (await .joinStops)
      (fun _ s => Home C pid s ∧ ∃ s₀ r x, may pid .joinStops r s₀ ∧
        perform pid .joinStops r s₀ = some (x, s)) (Home C pid) := by
  refine Prog.Triple.call (fun s s' hs hr _ => ⟨hr.1.calls _ _ hs.1,
    hs.2.of_steady (.of_private hr.1 hr.2)⟩) (fun s _ hs => ⟨hs.1, trivial⟩)
    fun s r x s' hi hs hm hx => ?_
  have hhome : Home C pid s' :=
    hs.2.of_steady (steady_perform (containers_of_undocked rfl hx) hx)
  have hcalled : Called pid c s' := (advances_perform hx).calls _ _ hs.1
  refine ⟨.single (.perform .joinStops r x s' hs.1 trivial hm hx), ?_⟩
  cases x with
  | ok a => exact ⟨hcalled, hhome, s, r, _, hm, hx⟩
  | error e => exact ⟨hcalled, hhome⟩

theorem serves_onModuleDestroy :
    Serves C may pid .onModuleDestroy (Home C pid) onModuleDestroy (fun _ => Home C pid)
      (Home C pid) := by
  have hsync : ∀ o : Op, (∀ s, NeedOp C may pid .onModuleDestroy o s) →
      (∀ s, (compute C pid o s).2.inside = s.inside ∧
        (compute C pid o s).2.containers = s.containers) →
      Serves C may pid .onModuleDestroy (Home C pid) (sync o) (fun _ => Home C pid) (Home C pid) :=
    fun o hn hs => serves_sync lasting_home (fun s _ => hn s) fun s =>
      .of_containers (advances_compute o) (by rw [(hs s).1]) (hs s).2
  refine .bind _ (hsync .clearCleanupInterval (fun _ => trivial) fun _ => ⟨rfl, rfl⟩) fun _ => ?_
  refine .bind _ ?_ fun _ => serves_quiet rfl lasting_home fun _ _ => trivial
  refine .bind _ (hsync .spawnStops (fun _ => rfl) fun _ => ⟨rfl, rfl⟩) fun _ => ?_
  refine .bind _ serves_joinStops fun _ => ?_
  refine serves_op (fun s _ _ hs => ⟨rfl, hs.2⟩) fun s _ _ hs => ?_
  exact hs.1.of_steady (.of_containers (advances_compute (C := C) .containerMapClear) rfl rfl)

end FullstackSvc.LanguageServer
