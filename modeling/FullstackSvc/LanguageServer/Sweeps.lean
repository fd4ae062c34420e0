import FullstackSvc.LanguageServer.Cleanup
import FullstackSvc.LanguageServer.Passes

/-!
# What a cleanup that is left alone makes of the state

`cleanupExpiredSessions` goes over the map of the worker, stops and removes the containers of the
sessions that have expired, deletes their directories, and then takes their entries out of the map.
As for the scan, one pass computes a function, entry by entry (`World.cleaned`).

* `does_cleanupFrom`: **the loop**, from any place of its iterator on.
* `swept_of_turns`: what it has made of containers, directories and files.
-/

namespace FullstackSvc.LanguageServer

open Text Async FullstackSvc.Lsp FullstackSvc.Store

variable {N : Type} {C : Config N} {pid : Nat} {s s' t : World} {sessionId : JsString} {n : Nat}

/-! ### `stopContainer` -/

/-- The container is stopped and removed, and the directory of the session deleted. -/
def World.discarded (s : World) (C : Config N) (pid : Nat) (e : JsString × Nat) : World :=
  { s with
    containers := s.containers.modify e.2 fun k =>
      { k with phase := .removed, stopper := k.stopper <|> some pid }
    directories := fun p => s.directories p && !within (join C.basePath e.1) p
    files := fun p => if within (join C.basePath e.1) p then none else s.files p }

/-- What `stopContainer` makes of the state: nothing when the container does not run. -/
def World.released (s : World) (C : Config N) (pid : Nat) (e : JsString × Nat) : World :=
  if s.phase? e.2 = some .running then s.discarded C pid e else s

theorem phase?_modify {f : Container → Container} {phase : ContainerPhase} {k : Container}
    (hk : s.containers[n]? = some k) (hf : (f k).phase = phase) (hne : phase ≠ .removed) :
    (s.modifyContainer n f).phase? n = some phase := by
  have hget : (s.modifyContainer n f).containers[n]? = some (f k) := by
    show (s.containers.modify n f)[n]? = _
    rw [List.getElem?_modify, hk]
    exact congrArg some (if_pos rfl)
  rw [phase?_of_container hget (by rw [hf]; exact hne), hf]

theorem does_stopAndRemove (h : Serving pid s) (hrun : s.phase? n = some .running) :
    Does C pid (stopAndRemove C n sessionId) s (.ok ()) (s.discarded C pid (sessionId, n)) := by
  obtain ⟨k, hk, hphase, -⟩ := phase?_eq_some hrun
  have hstop : Does C pid (await (.stopContainer n)) s (.ok ()) (s.after pid (.stopContainer n)) := by
    apply does_await h
    · simp [World.refuses, hrun]
    · rfl
  have hstopped : (s.after pid (.stopContainer n)).phase? n = some .stopped :=
    phase?_modify hk rfl (by decide)
  have hs₁ : Serving pid (s.after pid (.stopContainer n)) := h.of_eq rfl rfl rfl
  have hs₂ : Serving pid ((s.after pid (.stopContainer n)).after pid (.removeContainer n)) :=
    h.of_eq rfl rfl rfl
  have hremove : Does C pid (await (.removeContainer n)) (s.after pid (.stopContainer n)) (.ok ())
      ((s.after pid (.stopContainer n)).after pid (.removeContainer n)) := by
    apply does_await hs₁
    · simp [World.refuses, hstopped]
    · rfl
  have hrm : Does C pid ((await (.rm (join C.basePath sessionId))).handle fun _ => .ret ())
      ((s.after pid (.stopContainer n)).after pid (.removeContainer n)) (.ok ())
      (s.discarded C pid (sessionId, n)) := by
    apply Does.handle
    apply (does_await hs₂ rfl rfl).congr rfl
    have hmodify : (s.containers.modify n fun k =>
        { k with phase := .stopped, stopper := k.stopper <|> some pid }).modify n
          (fun k => { k with phase := .removed }) =
        s.containers.modify n fun k =>
          { k with phase := .removed, stopper := k.stopper <|> some pid } := by
      rw [List.modify_modify_eq]
      rfl
    exact congrArg (fun l => World.bare { s.discarded C pid (sessionId, n) with containers := l }) hmodify
  exact hstop.bind (hremove.bind hrm)

theorem does_stopContainer (h : Serving pid s) :
    Does C pid (stopContainer C n sessionId) s (.ok ()) (s.released C pid (sessionId, n)) := by
  have henter : Does C pid (sync (.enter (.stop sessionId))) s (.ok ()) s :=
    (does_sync _).congr rfl rfl
  have hleave : ∀ s : World, Does C pid (sync .leave) s (.ok ()) s :=
    fun s => (does_sync _).congr rfl rfl
  rw [World.released]
  by_cases hrun : s.phase? n = some .running
  · rw [if_pos hrun]
    exact henter.bind ((does_stopAndRemove h hrun).handle.bind (hleave _))
  · rw [if_neg hrun]
    have hrefuses : ∃ e, s.refuses (.stopContainer n) = some e := by
      cases hp : s.phase? n with
      | none => exact ⟨noContainer, by simp [World.refuses, hp]⟩
      | some phase =>
        have hne : phase ≠ .running := fun he => hrun (by rw [hp, he])
        exact ⟨notModified, by simp [World.refuses, hp, hne]⟩
    obtain ⟨e, he⟩ := hrefuses
    have hfails : Does C pid (stopAndRemove C n sessionId) s (.error e) s :=
      (does_refused h he).bind_error
    exact henter.bind ((hfails.handle_error does_ret).bind (hleave _))

/-! ### The loop -/

/-- What the cleanup makes of the state at one entry of the map. -/
def World.cleaned (s : World) (C : Config N) (pid : Nat) (e : JsString × Nat) : World :=
  if (s.record? (sessionKey e.1)).isSome then s else s.released C pid e

/-- The entries of the sessions are taken out of the map. -/
def World.forgotten (s : World) (sessionIds : List JsString) : World :=
  { s with containerMap := sessionIds.foldl JsMap.delete s.containerMap }

/-- The sessions among the entries that have no record. -/
def World.expired (s : World) (entries : List (JsString × Nat)) : List JsString :=
  (entries.filter fun e => (s.record? (sessionKey e.1)).isNone).map Prod.fst

/-- What the cleanup leaves alone until the end. -/
structure Standing (s s' : World) : Prop where
  now : s'.now = s.now
  redis : s'.redis = s.redis
  map : s'.containerMap = s.containerMap
  calls : s'.calls = s.calls
  birth : s'.workerBirth = s.workerBirth
  quit : s'.workerQuit = s.workerQuit

theorem Standing.refl : Standing s s := ⟨rfl, rfl, rfl, rfl, rfl, rfl⟩

theorem Standing.trans (h : Standing s t) (h' : Standing t s') : Standing s s' :=
  ⟨h'.now.trans h.now, h'.redis.trans h.redis, h'.map.trans h.map, h'.calls.trans h.calls,
    h'.birth.trans h.birth, h'.quit.trans h.quit⟩

theorem Standing.record? (h : Standing s s') (key : JsString) : s'.record? key = s.record? key := by
  rw [World.record?, World.record?, h.redis, h.now]

theorem standing_discarded (e : JsString × Nat) : Standing s (s.discarded C pid e) :=
  ⟨rfl, rfl, rfl, rfl, rfl, rfl⟩

theorem standing_released (e : JsString × Nat) : Standing s (s.released C pid e) := by
  rw [World.released]
  split
  · exact standing_discarded e
  · exact .refl

theorem does_deleteEntries (sessionIds : List JsString) : ∀ {s : World},
    Does C pid (deleteEntries sessionIds) s (.ok ()) (s.forgotten sessionIds) := by
  induction sessionIds with
  | nil =>
    intro s
    exact does_ret
  | cons sessionId sessionIds ih =>
    intro s
    exact (does_sync (.containerMapDelete sessionId)).bind ih

/-- **The loop of the cleanup**, from a place of its iterator on. -/
theorem does_cleanupFrom (turns : Nat) : ∀ {s : World} (place : Nat)
    (sessionsToClean : List JsString) {entries : List (JsString × Nat)}, Serving pid s →
    (s.containerMap.slots.drop place).reduceOption = entries → entries.length < turns →
    Does C pid (cleanupFrom C place sessionsToClean turns) s (.ok ())
      ((entries.foldl (fun s e => s.cleaned C pid e) s).forgotten
        (sessionsToClean ++ s.expired entries)) := by
  induction turns with
  | zero =>
    intro s place sessionsToClean entries h he hlt
    exact absurd hlt (Nat.not_lt_zero _)
  | succ turns ih =>
    intro s place sessionsToClean entries h he hlt
    have hnext : Does C pid (sync (.containerMapNext place)) s (.ok (s.containerMap.next place)) s :=
      does_sync _
    refine hnext.bind ?_
    cases hn : s.containerMap.next place with
    | none =>
      obtain rfl : entries = [] := he.symm.trans (JsMap.entries_of_next_none hn)
      show Does C pid (deleteEntries sessionsToClean) s (.ok ()) (s.forgotten (sessionsToClean ++ []))
      rw [List.append_nil]
      exact does_deleteEntries sessionsToClean
    | some next =>
      obtain ⟨place', sessionId, containerId⟩ := next
      obtain ⟨rest, hrest, rfl⟩ : ∃ rest, (s.containerMap.slots.drop place').reduceOption = rest ∧
          entries = (sessionId, containerId) :: rest :=
        ⟨_, rfl, he.symm.trans (JsMap.entries_of_next hn)⟩
      have hlt' : rest.length < turns := by
        rw [List.length_cons] at hlt
        omega
      have hexists : Does C pid (await (.redisExists (sessionKey sessionId))) s
          (.ok (s.record? (sessionKey sessionId)).isSome) s := (does_await h rfl rfl).congr rfl rfl
      refine hexists.bind ?_
      rw [List.foldl_cons]
      by_cases hlive : (s.record? (sessionKey sessionId)).isSome = true
      · have hcleaned : s.cleaned C pid (sessionId, containerId) = s := if_pos hlive
        have hexpired : s.expired ((sessionId, containerId) :: rest) = s.expired rest := by
          rw [World.expired, World.expired, List.filter_cons_of_neg]
          rw [Option.isNone_iff_eq_none]
          intro hnone
          rw [hnone] at hlive
          cases hlive
        rw [if_pos hlive, hcleaned, hexpired]
        exact ih place' sessionsToClean h hrest hlt'
      · have hnone : s.record? (sessionKey sessionId) = none := by
          rwa [← Option.not_isSome_iff_eq_none]
        have hcleaned : s.cleaned C pid (sessionId, containerId) =
            s.released C pid (sessionId, containerId) := if_neg hlive
        have hst : Standing s (s.released C pid (sessionId, containerId)) := standing_released _
        have hexpired : s.expired ((sessionId, containerId) :: rest) =
            sessionId :: (s.released C pid (sessionId, containerId)).expired rest := by
          rw [World.expired, World.expired, List.filter_cons_of_pos (by rw [hnone]; rfl), List.map_cons]
          simp only [hst.record?]
        rw [if_neg hlive, hcleaned, hexpired]
        refine (does_stopContainer h).bind ?_
        have hloop := ih place' (sessionsToClean ++ [sessionId])
          (h.of_eq hst.calls hst.birth hst.quit) (by rw [hst.map]; exact hrest) hlt'
        rw [List.append_assoc] at hloop
        exact hloop

/-! ### What it has made -/

/-- The session has expired, and its container is in the map and runs. -/
def Lapsed (s : World) (sessionId : JsString) (n : Nat) : Prop :=
  s.containerMap.get sessionId = some n ∧ s.record? (sessionKey sessionId) = none ∧
    s.phase? n = some .running

/-- Among the entries, those of lapsed sessions. -/
def World.lapsing (s : World) (entries : List (JsString × Nat)) : List (JsString × Nat) :=
  entries.filter fun e =>
    (s.record? (sessionKey e.1)).isNone && decide (s.phase? e.2 = some .running)

/-- To discard one container says nothing about the others. -/
theorem phase?_discarded {e : JsString × Nat} (hne : n ≠ e.2) :
    (s.discarded C pid e).phase? n = s.phase? n := by
  have hget : (s.discarded C pid e).containers[n]? = s.containers[n]? := by
    show (s.containers.modify e.2 _)[n]? = _
    exact List.getElem?_modify_ne _ _ (Ne.symm hne)
  rw [World.phase?, World.phase?, hget]

theorem lapsing_discarded {e : JsString × Nat} {entries : List (JsString × Nat)}
    (h : ∀ e' ∈ entries, e'.2 ≠ e.2) :
    (s.discarded C pid e).lapsing entries = s.lapsing entries := by
  apply List.filter_congr
  intro e' he'
  rw [(standing_discarded e).record?, phase?_discarded (h e' he')]

/-- Where every container is in the map once, the pass discards those that lapsed before it. -/
theorem foldl_cleaned (entries : List (JsString × Nat)) : ∀ {s : World},
    (entries.map Prod.snd).Nodup → entries.foldl (fun s e => s.cleaned C pid e) s =
      (s.lapsing entries).foldl (fun s e => s.discarded C pid e) s := by
  induction entries with
  | nil =>
    intro s _
    rfl
  | cons e entries ih =>
    intro s hnodup
    rw [List.map_cons, List.nodup_cons] at hnodup
    obtain ⟨hnot, hnodup⟩ := hnodup
    rw [List.foldl_cons, World.cleaned, World.released, World.lapsing]
    cases hr : s.record? (sessionKey e.1) with
    | some found =>
      rw [List.filter_cons_of_neg (by simp [hr])]
      exact ih hnodup
    | none =>
      rw [Option.isSome_none, if_neg Bool.false_ne_true]
      by_cases hrun : s.phase? e.2 = some .running
      · rw [if_pos hrun, List.filter_cons_of_pos (by simp [hr, hrun]), List.foldl_cons, ih hnodup,
          lapsing_discarded]
        · rfl
        · intro e' he' heq
          exact hnot (heq ▸ List.mem_map_of_mem he')
      · rw [if_neg hrun, List.filter_cons_of_neg (by simp [hrun])]
        exact ih hnodup

/-- The container when it has been removed. -/
def Container.discarded (k : Container) (pid : Nat) : Container :=
  { k with phase := .removed, stopper := k.stopper <|> some pid }

theorem discarded_discarded (k : Container) : (k.discarded pid).discarded pid = k.discarded pid := by
  cases hs : k.stopper with
  | none => simp [Container.discarded, hs]
  | some p => simp [Container.discarded, hs]

theorem foldl_discarded (C : Config N) (pid : Nat) (entries : List (JsString × Nat)) : ∀ {s s' : World},
    entries.foldl (fun s e => s.discarded C pid e) s = s' →
    Standing s s' ∧
      (∀ n, s'.containers[n]? = (s.containers[n]?).map fun k =>
        if n ∈ entries.map Prod.snd then k.discarded pid else k) ∧
      ∀ p, (s'.directories p = (s.directories p &&
          !entries.any fun e => within (join C.basePath e.1) p)) ∧
        s'.files p = if entries.any fun e => within (join C.basePath e.1) p then none else s.files p := by
  induction entries with
  | nil =>
    rintro s _ rfl
    refine ⟨.refl, fun n => ?_, fun p => ?_⟩
    · simp
    · simp
  | cons e entries ih =>
    intro s s' he
    obtain ⟨hst, hcontainers, hpaths⟩ := ih he
    refine ⟨(standing_discarded e).trans hst, fun n => ?_, fun p => ?_⟩
    · rw [hcontainers]
      show ((s.containers.modify e.2 fun k => k.discarded pid)[n]?).map _ = _
      rw [List.getElem?_modify, List.map_cons]
      simp only [List.mem_cons]
      cases s.containers[n]? with
      | none => rfl
      | some k =>
        by_cases hn : e.2 = n
        · by_cases hmem : n ∈ entries.map Prod.snd
          · simp only [hn, hmem, or_true, if_true, Option.map_eq_map, Option.map_some]
            rw [discarded_discarded]
          · simp only [hn, hmem, true_or, if_true, if_false, Option.map_eq_map, Option.map_some]
        · have hne : n ≠ e.2 := Ne.symm hn
          simp only [hn, hne, false_or, if_false, Option.map_eq_map, Option.map_some]
    · rw [(hpaths p).1, (hpaths p).2]
      show ((s.directories p && !within (join C.basePath e.1) p) && _) = _ ∧
        (if _ then none else if within (join C.basePath e.1) p then none else s.files p) = _
      rw [List.any_cons]
      cases within (join C.basePath e.1) p with
      | true => simp
      | false =>
        rw [Bool.false_or, Bool.not_false, Bool.and_true]
        exact ⟨rfl, rfl⟩

theorem get_foldl_delete (sessionIds : List JsString) : ∀ {m : JsMap JsString Nat},
    (sessionIds.foldl JsMap.delete m).get sessionId =
      if sessionId ∈ sessionIds then none else m.get sessionId := by
  induction sessionIds with
  | nil =>
    intro m
    rw [if_neg List.not_mem_nil]
    rfl
  | cons sid sessionIds ih =>
    intro m
    rw [List.foldl_cons, ih, JsMap.get_delete]
    simp only [List.mem_cons]
    by_cases hmem : sessionId ∈ sessionIds
    · rw [if_pos hmem, if_pos (Or.inr hmem)]
    · by_cases hsid : sessionId = sid
      · rw [if_neg hmem, if_pos hsid, if_pos (Or.inl hsid)]
      · rw [if_neg hmem, if_neg hsid, if_neg (not_or.mpr ⟨hsid, hmem⟩)]

/-- What a cleanup makes of the state.  The entries of the sessions that have expired are gone from
the map; a container of theirs that ran is removed, and their directory is deleted with what was in
it; every other entry, container and path is as it was. -/
structure Swept (C : Config N) (s s' : World) : Prop where
  now : s'.now = s.now
  redis : s'.redis = s.redis
  entries : ∀ sessionId, s'.containerMap.get sessionId =
    if (s.record? (sessionKey sessionId)).isSome then s.containerMap.get sessionId else none
  removed : ∀ sessionId n, Lapsed s sessionId n → ∃ k k', s.containers[n]? = some k ∧
    s'.containers[n]? = some k' ∧ k'.name = k.name ∧ k'.phase = .removed
  stay : ∀ n, (∀ sessionId, ¬ Lapsed s sessionId n) → s'.containers[n]? = s.containers[n]?
  emptied : ∀ sessionId n path, Lapsed s sessionId n → within (join C.basePath sessionId) path = true →
    s'.directories path = false ∧ s'.files path = none
  spared : ∀ path, (∀ sessionId n, Lapsed s sessionId n →
      within (join C.basePath sessionId) path = false) →
    s'.directories path = s.directories path ∧ s'.files path = s.files path

theorem lapsed_iff : Lapsed s sessionId n ↔
    (sessionId, n) ∈ s.lapsing s.containerMap.slots.reduceOption := by
  rw [Lapsed, World.lapsing, List.mem_filter, ← JsMap.has_iff_mem, JsMap.get_eq_some_iff]
  simp

/-- Every container is in the map once. -/
theorem Sound.nodup_entries (h : Sound C s) :
    (s.containerMap.slots.reduceOption.map Prod.snd).Nodup := by
  apply List.Nodup.map_on ?_ (s.containerMap.nodup.of_map Prod.fst)
  rintro ⟨sid, n⟩ he ⟨sid', n'⟩ he' (rfl : n = n')
  obtain ⟨k, hk, hname, -⟩ := h.map sid n (JsMap.has_iff_mem.mpr he)
  obtain ⟨k', hk', hname', -⟩ := h.map sid' n (JsMap.has_iff_mem.mpr he')
  rw [hk] at hk'
  obtain rfl := Option.some.inj hk'
  rw [containerNameOf_inj (hname.symm.trans hname')]

/-- **All turns of the cleanup.** -/
theorem swept_of_turns (pid : Nat) (h : Sound C s) :
    Swept C s ((s.containerMap.slots.reduceOption.foldl (fun s e => s.cleaned C pid e) s).forgotten
      (s.expired s.containerMap.slots.reduceOption)) := by
  rw [foldl_cleaned _ h.nodup_entries]
  obtain ⟨hst, hcontainers, hpaths⟩ := foldl_discarded C pid
    (s.lapsing s.containerMap.slots.reduceOption) (s := s) rfl
  have hpath : ∀ path, (∃ sid n, Lapsed s sid n ∧ within (join C.basePath sid) path = true) ↔
      ((s.lapsing s.containerMap.slots.reduceOption).any
        fun e => within (join C.basePath e.1) path) = true := by
    intro path
    rw [List.any_eq_true]
    constructor
    · rintro ⟨sid, n, hl, hw⟩
      exact ⟨(sid, n), lapsed_iff.mp hl, hw⟩
    · rintro ⟨⟨sid, n⟩, hl, hw⟩
      exact ⟨sid, n, lapsed_iff.mpr hl, hw⟩
  refine ⟨hst.now, hst.redis, fun sid => ?_, fun sid n hl => ?_, fun n hn => ?_,
    fun sid n path hl hw => ?_, fun path hw => ?_⟩
  · show JsMap.get (List.foldl JsMap.delete (World.containerMap _) _) sid = _
    rw [get_foldl_delete, hst.map]
    cases hr : s.record? (sessionKey sid) with
    | some found =>
      rw [Option.isSome_some, if_pos rfl, if_neg]
      intro hmem
      obtain ⟨e, he, rfl⟩ := List.mem_map.mp hmem
      have hnone := (List.mem_filter.mp he).2
      rw [hr] at hnone
      cases hnone
    | none =>
      rw [Option.isSome_none, if_neg Bool.false_ne_true]
      split
      · rfl
      · rename_i hmem
        rw [JsMap.get_eq_none_iff]
        intro n hn
        apply hmem
        exact List.mem_map.mpr ⟨(sid, n), List.mem_filter.mpr ⟨JsMap.has_iff_mem.mp hn, by rw [hr]; rfl⟩,
          rfl⟩
  · obtain ⟨k, hk, -, -⟩ := phase?_eq_some hl.2.2
    have hmem := List.mem_map_of_mem (f := Prod.snd) (lapsed_iff.mp hl)
    refine ⟨k, k.discarded pid, hk, ?_, rfl, rfl⟩
    exact (hcontainers n).trans (by rw [hk, Option.map_some, if_pos hmem])
  · have hmem : n ∉ (s.lapsing s.containerMap.slots.reduceOption).map Prod.snd := by
      intro hmem
      obtain ⟨⟨sid, n⟩, he, rfl⟩ := List.mem_map.mp hmem
      exact hn sid (lapsed_iff.mpr he)
    refine (hcontainers n).trans ?_
    simp only [if_neg hmem]
    exact Option.map_id'
  · obtain ⟨hdirectory, hfile⟩ := hpaths path
    have hany := (hpath path).mp ⟨sid, n, hl, hw⟩
    exact ⟨hdirectory.trans (by rw [hany, Bool.not_true, Bool.and_false]),
      hfile.trans (if_pos hany)⟩
  · obtain ⟨hdirectory, hfile⟩ := hpaths path
    have hany : ((s.lapsing s.containerMap.slots.reduceOption).any
        fun e => within (join C.basePath e.1) path) = false := by
      rw [← Bool.not_eq_true, ← hpath path]
      rintro ⟨sid, n, hl, h'⟩
      exact Bool.false_ne_true ((hw sid n hl).symm.trans h')
    exact ⟨hdirectory.trans (by rw [hany, Bool.not_false, Bool.and_true]),
      hfile.trans (by rw [hany, if_neg Bool.false_ne_true])⟩

theorem Swept.of_bare (h : Swept C s t) (hb : s'.bare = t.bare) : Swept C s s' := by
  have h' : Swept C s t.bare :=
    ⟨h.now, h.redis, h.entries, h.removed, h.stay, h.emptied, h.spared⟩
  rw [← hb] at h'
  exact ⟨h'.now, h'.redis, h'.entries, h'.removed, h'.stay, h'.emptied, h'.spared⟩

/-- **A cleanup that is left alone**, and goes around its loop often enough, sweeps: afterwards the
map has the entries of live sessions only, the containers that ran for the others are removed and
their directories are gone, and nothing else has changed. -/
theorem cleanup_sweeps (C : Config N) (σ : (services C).Sys)
    (h : Service.Reaches Service.anyEvent (start C) σ) (hset : σ.shared.cleanupInterval = true)
    (hq : σ.shared.workerQuit = false) (turns : Nat)
    (hturns : σ.shared.containerMap.slots.reduceOption.length < turns) :
    ∃ k σ', Service.run σ (.call (.cleanupExpiredSessions turns) ::
        List.replicate k (.resume σ.procs.length .done)) = some σ' ∧
      σ'.procs = σ.procs ++ [⟨.cleanupExpiredSessions turns, .ret (), true⟩] ∧
      Swept C σ.shared σ'.shared := by
  have hserving := serving_new h hq (.cleanupExpiredSessions turns)
  have haccept : (services C).accept σ.procs.length (.cleanupExpiredSessions turns) σ.shared =
      some (σ.shared.record (.cleanupExpiredSessions turns)) := if_pos hset
  obtain ⟨s', hrun, hs'⟩ := does_cleanupFrom (C := C) turns 0 []
    hserving rfl hturns
  obtain ⟨k, hk⟩ := Prog.runAlone_of_runWith hrun
  have hpool := Service.run_of_runAlone haccept hk
  rw [List.map_replicate] at hpool
  have hsound : Sound C (σ.shared.record (.cleanupExpiredSessions turns)) :=
    sound_accept (holds_of_reaches h).2.1
      (show World.accept σ.procs.length (.cleanupExpiredSessions turns) σ.shared = _ from haccept)
  have hswept := (swept_of_turns σ.procs.length hsound).of_bare hs'
  exact ⟨k, _, hpool, rfl, hswept.now, hswept.redis, hswept.entries, hswept.removed, hswept.stay,
    hswept.emptied, hswept.spared⟩

/-- The container of a session runs, and the session expires. -/
def sessionLapsed : List (services Config.plain).Event :=
  containerStarted ++ [.env (.tick 700000)]

/-- A cleanup takes away what is left of the first session. -/
theorem cleanup_sweeps_lapsed :
    ∃ (σ : (services Config.plain).Sys) (k : Nat) (σ' : (services Config.plain).Sys),
      Service.run (start Config.plain) sessionLapsed = some σ ∧
      Service.run σ (.call (.cleanupExpiredSessions 2) ::
        List.replicate k (.resume σ.procs.length .done)) = some σ' ∧
      Lapsed σ.shared (js "0") 0 ∧ σ'.shared.containerMap.get (js "0") = none ∧
      ∃ c, σ'.shared.containers[0]? = some c ∧ c.phase = .removed := by
  have hrun : (Service.run (start Config.plain) sessionLapsed).map (fun σ =>
        (σ.shared.cleanupInterval && !σ.shared.workerQuit,
          decide (σ.shared.containerMap.slots.reduceOption.length < 2),
          σ.shared.containerMap.get (js "0"),
          (σ.shared.record? (sessionKey (js "0"))).isNone,
          σ.shared.phase? 0)) =
      some (true, true, some 0, true, some .running) := by decide +kernel
  obtain ⟨σ, hσ, hend⟩ := Option.map_eq_some_iff.mp hrun
  obtain ⟨hworker, hend⟩ := Prod.mk.inj hend
  obtain ⟨hlt, hend⟩ := Prod.mk.inj hend
  obtain ⟨hmap, hend⟩ := Prod.mk.inj hend
  obtain ⟨hrec, hphase⟩ := Prod.mk.inj hend
  rw [Bool.and_eq_true, Bool.not_eq_true'] at hworker
  have hr : Service.Reaches Service.anyEvent (start Config.plain) σ :=
    Service.reaches_of_run hσ fun _ _ _ => trivial
  obtain ⟨k, σ', hpass, -, hswept⟩ := cleanup_sweeps Config.plain σ hr hworker.1 hworker.2 2
    (of_decide_eq_true hlt)
  have hnone := Option.isNone_iff_eq_none.mp hrec
  have hl : Lapsed σ.shared (js "0") 0 := ⟨hmap, hnone, hphase⟩
  obtain ⟨c, c', -, hc, -, hremoved⟩ := hswept.removed _ _ hl
  refine ⟨σ, k, σ', hσ, hpass, hl, ?_, c', hc, hremoved⟩
  rw [hswept.entries, hnone]
  rfl

end FullstackSvc.LanguageServer
