import FullstackSvc.Async.Triple
import FullstackSvc.Async.Turns
import FullstackSvc.LanguageServer.Paths
import FullstackSvc.LanguageServer.Updates
import FullstackSvc.Store.Folder

/-!
# The uploads of a session, one after the other

For its owner a session is a folder of the files that were uploaded, each under its own name.
The service keeps such a folder (`Shows`: its names in the record, its contents in the
volume), but under the names that `sanitizedName` makes.

* `uploading_uploadFile`: an upload is a `put` into this folder.
* `sanitizedName_eq_iff`: the names of which one is made.
* `uploads_separate_iff`: **the uploads of a session do not overwrite each other exactly when
  no two of their names are alike**, if they come one at a time and the others leave them
  alone.
-/

namespace FullstackSvc.LanguageServer

open Text Async FullstackSvc.Store

variable {N : Type} {C : Config N} {s s' : World} {pid : Nat} {cmd : Cmd} {r : Reply}
  {sessionId userId name : JsString} {file : UploadedFile} {F : Folder JsString Bytes}

/-! ### The folder of a session -/

/-- The record lists the names of the folder, and the volume has its contents. -/
structure Shows (C : Config N) (sessionId : JsString) (F : Folder JsString Bytes) (s : World) :
    Prop where
  listed : ∃ e, s.record? (sessionKey sessionId) = some e ∧ e.value.files = F.names
  stored : ∀ name bytes, PlainName name → F.content name = some bytes →
    s.files (join (join C.basePath sessionId) name) = some bytes

/-- The record stays live with the files that it lists, and the files stay. -/
structure LeavesUploads (C : Config N) (sessionId : JsString) (s s' : World) : Prop where
  listed : ∀ e, s.record? (sessionKey sessionId) = some e →
    ∃ e', s'.record? (sessionKey sessionId) = some e' ∧ e'.value.files = e.value.files
  stored : ∀ name bytes, PlainName name →
    s.files (join (join C.basePath sessionId) name) = some bytes →
    s'.files (join (join C.basePath sessionId) name) = some bytes

theorem LeavesUploads.refl (s : World) : LeavesUploads C sessionId s s :=
  ⟨fun e he => ⟨e, he, rfl⟩, fun _ _ _ h => h⟩

theorem LeavesUploads.trans (s s' s'' : World) (h : LeavesUploads C sessionId s s')
    (h' : LeavesUploads C sessionId s' s'') : LeavesUploads C sessionId s s'' := by
  refine ⟨fun e he => ?_, fun name bytes hn hb => h'.stored name bytes hn (h.stored name bytes hn hb)⟩
  obtain ⟨e', he', hfiles⟩ := h.listed e he
  obtain ⟨e'', he'', hfiles'⟩ := h'.listed e' he'
  exact ⟨e'', he'', hfiles'.trans hfiles⟩

theorem Shows.leaves (h : Shows C sessionId F s) (hl : LeavesUploads C sessionId s s') :
    Shows C sessionId F s' := by
  refine ⟨?_, fun name bytes hn hb => hl.stored name bytes hn (h.stored name bytes hn hb)⟩
  obtain ⟨e, he, hfiles⟩ := h.listed
  obtain ⟨e', he', hfiles'⟩ := hl.listed e he
  exact ⟨e', he', hfiles'.trans hfiles⟩

/-- Nothing that the folder speaks of has changed. -/
theorem Shows.of_eq (h : Shows C sessionId F s) (hr : s'.redis = s.redis) (hn : s'.now = s.now)
    (hf : s'.files = s.files) : Shows C sessionId F s' := by
  refine ⟨?_, fun name bytes hname hb => ?_⟩
  · obtain ⟨e, he, hfiles⟩ := h.listed
    exact ⟨e, by rw [World.record?, hr, hn]; exact he, hfiles⟩
  · rw [hf]
    exact h.stored name bytes hname hb

/-- A file is written in the directory of the session. -/
theorem Shows.write (h : Shows C sessionId F s) (hsession : PlainName sessionId)
    (hname : PlainName name) {bytes : Bytes} (hr : s'.redis = s.redis) (hn : s'.now = s.now)
    (hf : s'.files = Function.update s.files (join (join C.basePath sessionId) name) (some bytes)) :
    Shows C sessionId { F with content := Function.update F.content name (some bytes) } s' := by
  refine ⟨?_, fun name' bytes' hname' hb => ?_⟩
  · obtain ⟨e, he, hfiles⟩ := h.listed
    exact ⟨e, by rw [World.record?, hr, hn]; exact he, hfiles⟩
  · have hb : Function.update F.content name (some bytes) name' = some bytes' := hb
    rw [hf]
    by_cases he : name' = name
    · subst he
      rw [Function.update_self] at hb ⊢
      exact hb
    · have hpath : join (join C.basePath sessionId) name' ≠ join (join C.basePath sessionId) name := by
        intro hp
        exact he (join_name_inj (join_ne_nil C.basePath_ne_nil hsession) hname' hname hp)
      rw [Function.update_of_ne he] at hb
      rw [Function.update_of_ne hpath]
      exact h.stored name' bytes' hname' hb

/-- The record is written. -/
theorem Shows.track (h : Shows C sessionId F s) {d : SessionData} (seconds : Nat)
    (hr : s'.redis = s.redis.insert (sessionKey sessionId) ⟨d, s.now + 1000 * seconds⟩)
    (hn : s'.now = s.now) (hf : s'.files = s.files) :
    Shows C sessionId { F with names := d.files } s' := by
  refine ⟨⟨⟨d, s.now + 1000 * seconds⟩, ?_, rfl⟩, fun name bytes hname hb => ?_⟩
  · refine record_insert hr ?_
    rw [hn]
    exact Nat.le_add_right _ _
  · rw [hf]
    exact h.stored name bytes hname hb

/-! ### An upload -/

/-- An upload among others that leave the session alone, and `TTL` is asked in time. -/
def uploadContext (C : Config N) (sessionId : JsString) : Ctx sig World Reply where
  inv _ := True
  rely := LeavesUploads C sessionId
  guar _ _ := True
  need _ _ := True
  ok cmd r s := cmd = .redisTtl (sessionKey sessionId) → r.faulty = false →
    ∀ found ∈ s.record? (sessionKey sessionId), s.now + 500 ≤ found.expiresAt

abbrev Uploading (C : Config N) (pid : Nat) (sessionId : JsString) {α : Type} (pre : World → Prop)
    (p : Program α) (ok : α → World → Prop) : Prop :=
  Prog.Triple (host C) pid (uploadContext C sessionId) pre p ok fun _ _ => True

/-- A call that succeeds. -/
theorem uploading_call {good : sig.Res cmd → World → Prop}
    (h : ∀ s r a s', Shows C sessionId F s → (uploadContext C sessionId).ok cmd r s →
      perform pid cmd r s = some (.ok a, s') → good a s') :
    Uploading C pid sessionId (Shows C sessionId F) (await cmd) good := by
  refine Prog.Triple.call (fun s s' hs hl _ => hs.leaves hl) (fun _ _ _ => trivial)
    fun s r x s' _ hs hr hx => ⟨trivial, ?_⟩
  cases x with
  | ok a => exact h s r a s' hs hr hx
  | error e => trivial

theorem uploading_getSession :
    Uploading C pid sessionId (Shows C sessionId F) (getSession sessionId)
      fun found s => (∀ d ∈ found, SessionData.files d = F.names) ∧ Shows C sessionId F s := by
  refine uploading_call fun s r a s' hs _ hx => ?_
  obtain ⟨-, -, rfl⟩ := ok_perform hx
  refine ⟨fun d hd => ?_, hs.of_eq rfl rfl rfl⟩
  obtain ⟨e, he, hfiles⟩ := hs.listed
  obtain rfl := answer_perform hx rfl nofun
  rw [he] at hd
  obtain rfl : e.value = d := Option.some.inj hd
  exact hfiles

theorem uploading_mkdir {path : JsString} :
    Uploading C pid sessionId (Shows C sessionId F) (await (.mkdir path))
      fun _ => Shows C sessionId F := by
  refine uploading_call fun s r a s' hs _ hx => ?_
  obtain ⟨-, -, rfl⟩ := ok_perform hx
  exact hs.of_eq rfl rfl rfl

theorem uploading_writeFile (hsession : PlainName sessionId) (hname : PlainName name)
    (bytes : Bytes) :
    Uploading C pid sessionId (Shows C sessionId F)
      (writeFile (join (join C.basePath sessionId) name) bytes) fun _ =>
        Shows C sessionId { F with content := Function.update F.content name (some bytes) } := by
  refine Prog.Triple.bind
    (fun _ => Shows C sessionId { F with content := Function.update F.content name (some []) }) ?_ ?_
  · refine uploading_call fun s r a s' hs _ hx => ?_
    obtain ⟨-, -, rfl⟩ := ok_perform hx
    exact hs.write hsession hname rfl rfl rfl
  · intro _
    refine uploading_call fun s r a s' hs _ hx => ?_
    obtain ⟨-, -, rfl⟩ := ok_perform hx
    -- the file is there, for it has been opened
    have hopen : s.files (join (join C.basePath sessionId) name) = some [] :=
      hs.stored name [] hname (Function.update_self ..)
    have hwritten : (s.writeBytes (join (join C.basePath sessionId) name) bytes).files =
        Function.update s.files (join (join C.basePath sessionId) name) (some bytes) := by
      rw [World.writeBytes, if_pos (by rw [hopen]; rfl)]
    have hstill := still_writeBytes (s := s) (join (join C.basePath sessionId) name) bytes
    have hredis : (s.writeBytes (join (join C.basePath sessionId) name) bytes).redis = s.redis := by
      rw [World.writeBytes, if_pos (by rw [hopen]; rfl)]
    have hw := hs.write hsession hname hredis hstill.now hwritten
    rw [Function.update_idem] at hw
    exact hw.of_eq rfl rfl rfl

/-- `TTL` that is asked in time says that something is left. -/
theorem uploading_redisTtl :
    Uploading C pid sessionId (Shows C sessionId F) (await (.redisTtl (sessionKey sessionId)))
      fun ttl s => 0 < ttl ∧ Shows C sessionId F s := by
  refine uploading_call fun s r ttl s' hs hok hx => ?_
  obtain ⟨-, hgood, rfl⟩ := ok_perform hx
  obtain ⟨e, he, -⟩ := hs.listed
  refine ⟨?_, hs.of_eq rfl rfl rfl⟩
  have hdone := ttl_done hx hgood he (hok rfl hgood e he)
  by_contra hle
  rw [outcome, if_neg hle] at hdone
  cases hdone

theorem uploading_redisSetex {seconds : Nat} {d : SessionData} :
    Uploading C pid sessionId (Shows C sessionId F)
      (await (.redisSetex (sessionKey sessionId) seconds d)) fun _ =>
        Shows C sessionId { F with names := d.files } := by
  refine uploading_call fun s r a s' hs _ hx => ?_
  obtain ⟨-, -, rfl⟩ := ok_perform hx
  exact hs.track seconds rfl rfl rfl

theorem uploading_writeBack {d : SessionData} :
    Uploading C pid sessionId (Shows C sessionId F) (writeBack sessionId d) fun _ =>
      Shows C sessionId { F with names := d.files } := by
  refine Prog.Triple.bind _ uploading_redisTtl fun ttl => ?_
  refine Prog.Triple.assume fun hpos => ?_
  rw [if_pos hpos]
  exact uploading_redisSetex

/-- The files of a record with one more are the names of the folder after a `put`. -/
theorem trackFile_eq_names_put {d : SessionData} (hd : d.files = F.names) (bytes : Bytes) :
    trackFile d.uploadedFiles name = (F.put name bytes).names := by
  rw [Folder.names_put, ← hd, trackFile, ← SessionData.files]
  by_cases hm : name ∈ d.files
  · rw [if_pos hm, if_pos hm]
  · rw [if_neg hm, if_neg hm]

/-- **An upload is a `put` into the folder of the session**, under the name that is made
of the name of the file. -/
theorem uploading_uploadFile (C : Config N) (pid : Nat) (userId : JsString)
    (F : Folder JsString Bytes) (hsession : PlainName sessionId)
    (hname : PlainName (sanitizedName file.originalname)) :
    Uploading C pid sessionId (Shows C sessionId F) (uploadFile C sessionId userId file)
      fun result s => result.filePath = js "/workspace/" ++ sanitizedName file.originalname ∧
        Shows C sessionId (F.put (sanitizedName file.originalname) file.buffer) s := by
  refine Prog.Triple.bind _ uploading_getSession fun found => ?_
  cases found with
  | none => exact Prog.Triple.fail fun _ _ => trivial
  | some d =>
    refine Prog.Triple.assume fun hd => ?_
    have hd := hd d rfl
    by_cases hu : d.userId = userId
    · simp only [ne_eq, hu, not_true_eq_false, if_false]
      refine Prog.Triple.bind _ uploading_mkdir fun _ => ?_
      refine Prog.Triple.bind _ (uploading_writeFile hsession hname file.buffer) fun _ => ?_
      refine Prog.Triple.bind _ uploading_writeBack fun _ => ?_
      refine Prog.Triple.ret fun s hs => ⟨rfl, ?_⟩
      have hs : Shows C sessionId ⟨trackFile d.uploadedFiles (sanitizedName file.originalname),
        Function.update F.content (sanitizedName file.originalname) (some file.buffer)⟩ s := hs
      rw [trackFile_eq_names_put hd file.buffer] at hs
      exact hs
    · simp only [ne_eq, hu, not_false_eq_true, if_true]
      exact Prog.Triple.fail fun _ _ => trivial

/-! ### The uploads of a run -/

/-- The call uploads to the session. -/
def uploadsTo (sessionId : JsString) : Request → Bool
  | .uploadFile sid _ _ => decide (sid = sessionId)
  | _ => false

/-- The file of an upload that has returned, and what it has returned. -/
def uploaded? : Served (services C) → Option (UploadedFile × UploadResult)
  | ⟨.uploadFile _ _ file, .ok result⟩ => some (file, result)
  | _ => none

/-- An upload that has returned is one. -/
theorem isSome_uploaded {p : (services C).Proc} {t : Served (services C)}
    (hk : uploadsTo sessionId p.call = true) (hret : p.prog.Returned)
    (ht : p.served? (uploadsTo sessionId) = some t) : (uploaded? t).isSome := by
  obtain ⟨c, prog, alive⟩ := p
  cases c with
  | uploadFile sid userId file =>
    cases prog with
    | ret result =>
      rw [Service.Proc.served?, if_pos hk] at ht
      obtain rfl := Option.some.inj ht
      rfl
    | fail e => exact absurd hret id
    | await cmd k => exact absurd hret id
    | sync o k => exact absurd hret id
  | _ => cases hk

/-- The uploads to the session that have returned, in the order in which they came. -/
def uploads (sessionId : JsString) (procs : List (services C).Proc) :
    List (UploadedFile × UploadResult) :=
  (served (P := services C) (uploadsTo sessionId) procs).filterMap uploaded?

/-- What was put under which name. -/
def putsOf (us : List (UploadedFile × UploadResult)) : List (JsString × Bytes) :=
  us.map fun u => (u.1.originalname, u.1.buffer)

/-- One upload to the session at a time, the others leave its files alone, and `TTL` is not
asked in the last half second of its record. -/
structure InTurn (C : Config N) (sessionId : JsString) (σ : (services C).Sys)
    (e : (services C).Event) : Prop where
  oneAtATime : OneAtATime (uploadsTo sessionId) σ e
  undisturbed : (∀ c ∈ σ.caller e, uploadsTo sessionId c = false) →
    ∀ σ' ∈ Service.step σ e, LeavesUploads C sessionId σ.shared σ'.shared
  inTime : InTime sessionId σ e

/-- The name is made of the name of the file, and the path of this name. -/
def WellNamed (u : UploadedFile × UploadResult) : Prop :=
  PlainName (sanitizedName u.1.originalname) ∧
    u.2.filePath = js "/workspace/" ++ sanitizedName u.1.originalname

/-- While all of them succeed, the session shows what was put into it. -/
def Displayed (C : Config N) (sessionId : JsString) (ts : List (Served (services C))) (s : World) :
    Prop :=
  (∀ t ∈ ts, (uploaded? t).isSome) →
    (∀ u ∈ ts.filterMap uploaded?, WellNamed u) ∧
    Shows C sessionId (Folder.ofPuts (renamed sanitizedName (putsOf (ts.filterMap uploaded?)))) s

theorem displayed_concat {ts : List (Served (services C))} {result : UploadResult}
    (h : (∀ t ∈ ts, (uploaded? t).isSome) → ∀ u ∈ ts.filterMap uploaded?, WellNamed u)
    (hnamed : WellNamed (file, result))
    (hs : Shows C sessionId ((Folder.ofPuts (renamed sanitizedName
      (putsOf (ts.filterMap uploaded?)))).put (sanitizedName file.originalname) file.buffer) s) :
    Displayed C sessionId (ts ++ [⟨.uploadFile sessionId userId file, .ok result⟩]) s := by
  intro hall
  have hlast : List.filterMap (uploaded? (C := C))
      [⟨.uploadFile sessionId userId file, .ok result⟩] = [(file, result)] := rfl
  rw [List.filterMap_append, hlast]
  refine ⟨fun u hu => ?_, ?_⟩
  · rcases List.mem_append.mp hu with hu | hu
    · exact h (fun t ht => hall t (List.mem_append_left _ ht)) u hu
    · obtain rfl := List.mem_singleton.mp hu
      exact hnamed
  · rw [putsOf, List.map_append, renamed_append]
    have hput := Folder.ofPuts_concat (renamed sanitizedName (putsOf (ts.filterMap uploaded?)))
      (sanitizedName file.originalname, file.buffer)
    rw [← hput] at hs
    exact hs

/-- **An upload of the sequence.** -/
theorem rounds_uploads (C : Config N) (hsession : PlainName sessionId) :
    Rounds (P := services C) (uploadsTo sessionId) (uploadContext C sessionId)
      (Displayed C sessionId) (InTurn C sessionId) where
  refl := LeavesUploads.refl
  trans := LeavesUploads.trans
  stable ts s s' h hl hall := ⟨(h hall).1, (h hall).2.leaves hl⟩
  oneAtATime hok := hok.oneAtATime
  others hok hs he := hok.undisturbed he _ hs
  own hok _ _ hd := by
    refine ⟨trivial, ?_⟩
    rintro rfl hgood found hfound
    exact hok.inTime _ (answered_resume hgood) hd found hfound
  serves {pid c ts s s'} hk hknown ha := by
    cases c with
    | uploadFile sid userId file =>
      obtain rfl : sid = sessionId := of_decide_eq_true hk
      have hadmit : Execution.fileFilter file.originalname = true ∧
          s' = s.record (.uploadFile sid userId file) := by
        have ha : World.accept pid (.uploadFile sid userId file) s = some s' := ha
        rw [World.accept] at ha
        split at ha
        · rename_i h
          exact ⟨h, (Option.some.inj ha).symm⟩
        · cases ha
      obtain ⟨hfilter, rfl⟩ := hadmit
      by_cases hall : ∀ t ∈ ts, (uploaded? t).isSome
      · have hs : Shows C sid _ (s.record (.uploadFile sid userId file)) :=
          (hknown hall).2.of_eq rfl rfl rfl
        have hname := (uriName_sanitizedName hfilter).1
        have hwp := uploading_uploadFile C pid userId _ hsession hname
          (s.record (.uploadFile sid userId file)) _ trivial trivial hs
        refine Prog.wp_mono ?_ _ _ _ hwp
        rintro (e | result) s₀ s₁ ⟨-, -, hx⟩
        · intro hall'
          cases hall' _ (List.mem_append_right _ (List.mem_singleton_self _))
        · exact displayed_concat (fun hall => (hknown hall).1) ⟨hname, hx.1⟩ hx.2
      · refine Prog.wp_const (fun _ _ => trivial) (fun _ _ => trivial) (fun x s₀ s₁ hall' => ?_) _ _ _
        exact absurd (fun t ht => hall' t (List.mem_append_left _ ht)) hall
    | _ => cases hk

/-! ### Names of which one is made -/

/-- The unit is written as `_`. -/
def Blank (u : UInt16) : Prop := isNameUnit u = false ∨ u = 95

/-- The names have the same units, but where both have one that is written as `_`. -/
def Alike (a b : JsString) : Prop := List.Forall₂ (fun u v => u = v ∨ Blank u ∧ Blank v) a b

theorem blank_iff (u : UInt16) : Blank u ↔ (if isNameUnit u then u else 95) = 95 := by
  rw [Blank]
  by_cases h : isNameUnit u = true
  · simp [h]
  · simp [h]

theorem unit_eq_iff (u v : UInt16) :
    (if isNameUnit u then u else 95) = (if isNameUnit v then v else 95) ↔
      u = v ∨ Blank u ∧ Blank v := by
  rw [blank_iff, blank_iff]
  constructor
  · intro h
    by_cases hu : (if isNameUnit u then u else 95) = 95
    · exact Or.inr ⟨hu, h.symm.trans hu⟩
    · have hku : isNameUnit u = true := by
        by_contra hk
        exact hu (if_neg hk)
      have hkv : isNameUnit v = true := by
        by_contra hk
        exact hu (h.trans (if_neg hk))
      rw [if_pos hku, if_pos hkv] at h
      exact Or.inl h
  · rintro (rfl | ⟨hu, hv⟩)
    · rfl
    · exact hu.trans hv.symm

/-- **Two names are made one exactly when they are alike.** -/
theorem sanitizedName_eq_iff (a b : JsString) : sanitizedName a = sanitizedName b ↔ Alike a b := by
  rw [sanitizedName, sanitizedName, ← List.forall₂_eq_eq_eq, List.forall₂_map_left_iff,
    List.forall₂_map_right_iff, Alike]
  simp only [unit_eq_iff]

/-! ### What the uploads have come to -/

/-- The file of the volume behind a path that an upload has answered with. -/
def volumePath (C : Config N) (sessionId filePath : JsString) : JsString :=
  join (join C.basePath sessionId) (filePath.drop (js "/workspace/").length)

/-- The uploads of a session do not overwrite each other: different names have different
paths, the path of each name has the bytes that were last uploaded under it, and the record
lists one file for each name. -/
structure Separate (C : Config N) (sessionId : JsString) (us : List (UploadedFile × UploadResult))
    (s : World) : Prop where
  paths : ∀ u ∈ us, ∀ v ∈ us, u.1.originalname ≠ v.1.originalname → u.2.filePath ≠ v.2.filePath
  bytes : ∀ earlier u later, us = earlier ++ u :: later →
    (∀ v ∈ later, v.1.originalname ≠ u.1.originalname) →
    s.files (volumePath C sessionId u.2.filePath) = some u.1.buffer
  files : ∃ e, s.record? (sessionKey sessionId) = some e ∧
    e.value.files.Perm ((us.map fun u => u.1.originalname).dedup.map sanitizedName)

/-- No two names of the uploads are alike. -/
def Distinguishable (us : List (UploadedFile × UploadResult)) : Prop :=
  ∀ u ∈ us, ∀ v ∈ us, Alike u.1.originalname v.1.originalname →
    u.1.originalname = v.1.originalname

theorem volumePath_workspace (C : Config N) (sessionId name : JsString) :
    volumePath C sessionId (js "/workspace/" ++ name) = join (join C.basePath sessionId) name := by
  rw [volumePath, List.drop_left]

theorem map_fst_putsOf (us : List (UploadedFile × UploadResult)) :
    (putsOf us).map Prod.fst = us.map fun u => u.1.originalname := by
  rw [putsOf, List.map_map]
  rfl

theorem injOn_of_distinguishable {us : List (UploadedFile × UploadResult)}
    (h : Distinguishable us) :
    Set.InjOn sanitizedName {name | name ∈ (putsOf us).map Prod.fst} := by
  intro a ha b hb he
  have hnames := map_fst_putsOf us
  obtain ⟨u, hu, rfl⟩ := List.mem_map.mp (hnames ▸ ha : a ∈ us.map fun u => u.1.originalname)
  obtain ⟨v, hv, rfl⟩ := List.mem_map.mp (hnames ▸ hb : b ∈ us.map fun u => u.1.originalname)
  exact h u hu v hv ((sanitizedName_eq_iff _ _).mp he)

/-- **A session that shows its uploads keeps them apart exactly when no two are alike.** -/
theorem separate_iff {us : List (UploadedFile × UploadResult)}
    (hnamed : ∀ u ∈ us, WellNamed u)
    (hs : Shows C sessionId (Folder.ofPuts (renamed sanitizedName (putsOf us))) s) :
    Separate C sessionId us s ↔ Distinguishable us := by
  constructor
  · intro h u hu v hv halike
    by_contra hne
    refine h.paths u hu v hv hne ?_
    rw [(hnamed u hu).2, (hnamed v hv).2, (sanitizedName_eq_iff _ _).mpr halike]
  · intro h
    have hinj := injOn_of_distinguishable h
    refine ⟨fun u hu v hv hne he => hne ?_, fun earlier u later hsplit hlast => ?_, ?_⟩
    · rw [(hnamed u hu).2, (hnamed v hv).2] at he
      exact h u hu v hv ((sanitizedName_eq_iff _ _).mp (List.append_cancel_left he))
    · have hu : u ∈ us := by
        rw [hsplit]
        exact List.mem_append_right _ List.mem_cons_self
      have hsplit' : putsOf us =
          putsOf earlier ++ (u.1.originalname, u.1.buffer) :: putsOf later := by
        rw [hsplit, putsOf, List.map_append, List.map_cons]
        rfl
      have hlast' : ∀ q ∈ putsOf later, q.1 ≠ u.1.originalname := by
        intro q hq
        obtain ⟨v, hv, rfl⟩ := List.mem_map.mp hq
        exact hlast v hv
      rw [(hnamed u hu).2, volumePath_workspace]
      exact hs.stored _ _ (hnamed u hu).1 (Folder.content_renamed hinj hsplit' hlast')
    · obtain ⟨e, he, hfiles⟩ := hs.listed
      refine ⟨e, he, ?_⟩
      rw [hfiles, ← map_fst_putsOf]
      exact Folder.names_renamed_perm_iff.mpr hinj

/-- **The uploads of a session do not overwrite each other exactly when no two of their names
are alike.**  In any state that the services reach, a session is new: its record lists no file,
and nothing was uploaded to it.  From there its uploads come one at a time, the others leave its
files alone, and `TTL` is not asked in the last half second of its record.  When all its uploads
have returned, different names have different paths, the path of each name has what was last
uploaded under it, and the record lists one file for each name, if and only if no two different
names among them are alike, that is differ only where both have a unit that is `_` or none of
`[a-zA-Z0-9._-]`. -/
theorem uploads_separate_iff (C : Config N) (sessionId : JsString) (σ₀ σ : (services C).Sys)
    (h₀ : Service.Reaches Service.anyEvent (start C) σ₀)
    (hnew : ∃ e, σ₀.shared.record? (sessionKey sessionId) = some e ∧ e.value.files = [])
    (hnone : ∀ p ∈ σ₀.procs, uploadsTo sessionId p.call = false)
    (hrun : Service.Reaches (InTurn C sessionId) σ₀ σ)
    (hover : ∀ p ∈ σ.procs, uploadsTo sessionId p.call = true → p.prog.Returned) :
    Separate C sessionId (uploads sessionId σ.procs) σ.shared ↔
      Distinguishable (uploads sessionId σ.procs) := by
  have hsession : PlainName sessionId := by
    obtain ⟨e, he, -⟩ := hnew
    exact (holds_of_reaches h₀).2.1.plainName (known_of_record he)
  have hstart : NoneRuns (uploadsTo sessionId) σ₀.procs := by
    intro p hp hk
    cases (hnone p hp).symm.trans hk
  have hserved : served (uploadsTo sessionId) σ₀.procs = [] := served_eq_nil hnone
  have hknown : Displayed C sessionId (served (uploadsTo sessionId) σ₀.procs) σ₀.shared := by
    rw [hserved]
    intro _
    refine ⟨List.forall_mem_nil _, hnew, fun name bytes _ hb => ?_⟩
    cases hb
  have hend : NoneRuns (uploadsTo sessionId) σ.procs := by
    intro p hp hk
    exact Prog.not_running_of_returned (hover p hp hk)
  have hall : ∀ t ∈ served (uploadsTo sessionId) σ.procs, (uploaded? t).isSome := by
    intro t ht
    obtain ⟨p, hp, hk, hserved⟩ := exists_of_mem_served ht
    exact isSome_uploaded hk (hover p hp hk) hserved
  obtain ⟨hnamed, hshows⟩ :=
    known_of_reaches (rounds_uploads C hsession) hstart hknown hrun hend hall
  exact separate_iff hnamed hshows

/-- The process that moves is an upload to the session. -/
def OnlyUploads (sessionId : JsString) (σ : (services C).Sys) (e : (services C).Event) : Prop :=
  OneAtATime (uploadsTo sessionId) σ e ∧ (σ.caller e).any (uploadsTo sessionId) = true ∧
    InTime sessionId σ e

instance {sessionId : JsString} (σ : (services C).Sys) (e : (services C).Event) :
    Decidable (OnlyUploads sessionId σ e) := inferInstanceAs (Decidable (_ ∧ _ ∧ _))

theorem inTurn_of_onlyUploads {σ : (services C).Sys} {e : (services C).Event}
    (h : OnlyUploads sessionId σ e) : InTurn C sessionId σ e := by
  refine ⟨h.1, fun hother => ?_, h.2.2⟩
  cases hc : σ.caller e with
  | none =>
    have hk := h.2.1
    rw [hc] at hk
    cases hk
  | some c =>
    have hk := h.2.1
    rw [hc] at hk
    cases (hother c hc).symm.trans hk

/-- Ann has a new session. -/
def newSession : List (services Config.plain).Event :=
  [.call (.createSession (js "ann")), .resume 0 .done]

/-- Two files are uploaded to it. -/
def uploadedBoth (first second : UploadedFile) : List (services Config.plain).Event :=
  .call (.uploadFile (js "0") (js "ann") first) :: List.replicate 6 (.resume 1 .done) ++
    .call (.uploadFile (js "0") (js "ann") second) :: List.replicate 6 (.resume 2 .done)

/-- A run whose uploads to the new session have returned. -/
theorem exists_uploads (es : List (services Config.plain).Event)
    (us : List (UploadedFile × UploadResult))
    (h : (Service.run (start Config.plain) newSession).bind (fun σ₀ =>
      (Service.runIf (OnlyUploads (js "0")) σ₀ es).map fun σ =>
        (decide ((σ₀.shared.record? (sessionKey (js "0"))).map (fun e => e.value.files) = some [] ∧
            ∀ p ∈ σ₀.procs, uploadsTo (js "0") p.call = false),
          decide (∀ p ∈ σ.procs, uploadsTo (js "0") p.call = true → p.prog.Returned),
          uploads (js "0") σ.procs)) = some (true, true, us)) :
    ∃ σ₀ σ : (services Config.plain).Sys,
      Service.Reaches Service.anyEvent (start Config.plain) σ₀ ∧
      (∃ e, σ₀.shared.record? (sessionKey (js "0")) = some e ∧ e.value.files = []) ∧
      (∀ p ∈ σ₀.procs, uploadsTo (js "0") p.call = false) ∧
      Service.Reaches (InTurn Config.plain (js "0")) σ₀ σ ∧
      (∀ p ∈ σ.procs, uploadsTo (js "0") p.call = true → p.prog.Returned) ∧
      uploads (js "0") σ.procs = us := by
  obtain ⟨σ₀, h₀, h⟩ := Option.bind_eq_some_iff.mp h
  obtain ⟨σ, hσ, h⟩ := Option.map_eq_some_iff.mp h
  obtain ⟨hfirst, h⟩ := Prod.mk.inj h
  obtain ⟨hover, hus⟩ := Prod.mk.inj h
  obtain ⟨hnew, hnone⟩ := of_decide_eq_true hfirst
  exact ⟨σ₀, σ, Service.reaches_of_run h₀ fun _ _ _ => trivial, Option.map_eq_some_iff.mp hnew, hnone,
    (Service.reaches_of_runIf hσ).mono fun _ _ => inTurn_of_onlyUploads,
    of_decide_eq_true hover, hus⟩

/-- Two files whose names are not alike. -/
theorem uploads_separate_two_files :
    ∃ (σ : (services Config.plain).Sys) (us : List (UploadedFile × UploadResult)),
      us.map (fun u => u.1.originalname) = [js "main.dart", js "util.dart"] ∧
      Separate Config.plain (js "0") us σ.shared := by
  obtain ⟨σ₀, σ, h₀, hnew, hnone, hrun, hover, hus⟩ := exists_uploads
    (uploadedBoth ⟨js "main.dart", [1]⟩ ⟨js "util.dart", [2]⟩)
    [(⟨js "main.dart", [1]⟩, ⟨js "/workspace/main.dart", js "main.dart"⟩),
      (⟨js "util.dart", [2]⟩, ⟨js "/workspace/util.dart", js "util.dart"⟩)] (by decide +kernel)
  have hiff := uploads_separate_iff Config.plain (js "0") σ₀ σ h₀ hnew hnone hrun hover
  refine ⟨σ, uploads (js "0") σ.procs, by rw [hus]; rfl, hiff.mpr fun u hu v hv halike => ?_⟩
  have hsame := (sanitizedName_eq_iff _ _).mpr halike
  rw [hus] at hu hv
  simp only [List.mem_cons, List.not_mem_nil, or_false] at hu hv
  rcases hu with rfl | rfl
  · rcases hv with rfl | rfl
    · rfl
    · exact absurd hsame (by decide)
  · rcases hv with rfl | rfl
    · exact absurd hsame (by decide)
    · rfl

/-- `a b.dart` and then `a_b.dart`: both have the path `/workspace/a_b.dart`. -/
theorem uploads_not_separate :
    ∃ σ₀ σ : (services Config.plain).Sys,
      Service.Reaches Service.anyEvent (start Config.plain) σ₀ ∧
      (∃ e, σ₀.shared.record? (sessionKey (js "0")) = some e ∧ e.value.files = []) ∧
      (∀ p ∈ σ₀.procs, uploadsTo (js "0") p.call = false) ∧
      Service.Reaches (InTurn Config.plain (js "0")) σ₀ σ ∧
      (∀ p ∈ σ.procs, uploadsTo (js "0") p.call = true → p.prog.Returned) ∧
      uploads (js "0") σ.procs =
        [(⟨js "a b.dart", [1]⟩, ⟨js "/workspace/a_b.dart", js "a b.dart"⟩),
          (⟨js "a_b.dart", [2]⟩, ⟨js "/workspace/a_b.dart", js "a_b.dart"⟩)] ∧
      ¬ Separate Config.plain (js "0") (uploads (js "0") σ.procs) σ.shared := by
  obtain ⟨σ₀, σ, h₀, hnew, hnone, hrun, hover, hus⟩ := exists_uploads
    (uploadedBoth ⟨js "a b.dart", [1]⟩ ⟨js "a_b.dart", [2]⟩)
    [(⟨js "a b.dart", [1]⟩, ⟨js "/workspace/a_b.dart", js "a b.dart"⟩),
      (⟨js "a_b.dart", [2]⟩, ⟨js "/workspace/a_b.dart", js "a_b.dart"⟩)] (by decide +kernel)
  refine ⟨σ₀, σ, h₀, hnew, hnone, hrun, hover, hus, fun h => ?_⟩
  rw [hus] at h
  exact h.paths _ List.mem_cons_self _ (List.mem_cons_of_mem _ List.mem_cons_self) (by decide) rfl

end FullstackSvc.LanguageServer
