import FullstackSvc.Async.Trace
import FullstackSvc.LanguageServer.Confinement

/-!
# The file that is uploaded and the file that is named

`uploadFile` writes below `LSP_FILES_PATH` and answers with a path below
`/workspace`.  The client makes a URI of it, the gateway rewrites the URI, and the
container, which mounts the same volume at `/lsp-files`, opens what it denotes.

* `finishes_uploadFile`: what an upload has written when it answers.
* `upload_and_uri_agree`: **it is the same file of the volume**, whoever put the
  workspace root into the record of the session.
-/

namespace FullstackSvc.LanguageServer

open Text Async FullstackSvc.Lsp

variable {N : Type} {C : Config N} {s s' : World} {pid : Nat} {sessionId userId : JsString}
  {file : UploadedFile} {result : UploadResult} {reader : UriReader}

/-! ### Names -/

theorem isNameUnit_sanitizedName {name : JsString} {u : UInt16} (hu : u ∈ sanitizedName name) :
    isNameUnit u = true := by
  obtain ⟨v, -, rfl⟩ := List.mem_map.mp hu
  split
  · assumption
  · decide

/-- An accepted name is long enough to be no `.` and no `..`. -/
theorem length_of_fileFilter {name : JsString} (h : Execution.fileFilter name = true) :
    4 ≤ name.length := by
  have hext : Execution.fileExtension name = js ".dart" := of_decide_eq_true h
  rw [Execution.fileExtension] at hext
  split at hext
  · have hlen := congrArg List.length hext
    rw [List.length_cons, List.length_reverse] at hlen
    have hle : (name.reverse.takeWhile (· ≠ 46)).length ≤ name.reverse.length :=
      (List.takeWhile_sublist _).length_le
    rw [List.length_reverse] at hle
    have hdart : (js ".dart").length = 5 := by decide
    omega
  · rw [hext]
    decide

theorem isUnreserved_of_isNameUnit {u : UInt16} (h : isNameUnit u = true) :
    isUnreserved u = true := by
  simp only [isNameUnit, Bool.or_eq_true] at h
  simp only [isUnreserved, Bool.or_eq_true]
  tauto

/-- The name that an upload gives to the file stands for itself everywhere. -/
theorem uriName_sanitizedName {name : JsString} (h : Execution.fileFilter name = true) :
    UriName (sanitizedName name) := by
  have hlen : 4 ≤ (sanitizedName name).length := by
    rw [sanitizedName, List.length_map]
    exact length_of_fileFilter h
  have hshort : ∀ t : JsString, t.length < 4 → sanitizedName name ≠ t := by
    rintro t ht rfl
    omega
  have hnot : ∀ u : UInt16, isNameUnit u = false → u ∉ sanitizedName name := by
    intro u hu hm
    rw [isNameUnit_sanitizedName hm] at hu
    cases hu
  refine ⟨⟨hshort [] (by decide), hnot 47 (by decide), hshort _ (by decide), hshort _ (by decide)⟩,
    fun u hu => isUnreserved_of_isNameUnit (isNameUnit_sanitizedName hu)⟩

/-! ### What an upload has done -/

/-- What has happened in a process is in the log. -/
def Recorded (pid : Nat) (h : Happening sig JsError) (s : World) : Prop :=
  match h with
  | .call cmd x => Logged s pid cmd (outcome cmd x)
  | .op _ _ => True

theorem recorded_mono {h : Happening sig JsError} (hr : Recorded pid h s) (ha : Advances s s') :
    Recorded pid h s' := by
  cases h with
  | call cmd x => exact Logged.mono hr ha
  | op o v => trivial

theorem witnessed_recorded : Witnessed (host C) Recorded where
  call h := logged_perform h
  op := trivial
  compute h := recorded_mono h (advances_compute _)

/-- Every process has a trace that the log has. -/
theorem traced_of_reaches {σ : (services C).Sys} {ok : (services C).Sys → (services C).Event → Prop}
    (h : Service.Reaches ok (start C) σ) : Traced Recorded σ := by
  refine inv_of_start (J := Traced Recorded) (fun pid p hp => by cases hp) ?_ h
  intro σ e σ' hs ht
  exact traced_step witnessed_recorded ht hs.step fun pid h hr => recorded_mono hr hs.advances

/-- **What an upload has done when it returns.** -/
theorem finishes_uploadFile {tr : List (Happening sig JsError)}
    (h : (uploadFile C sessionId userId file).Finishes tr (.ok result)) :
    result.filePath = js "/workspace/" ++ sanitizedName file.originalname ∧
      Happening.call (A := sig) (E := JsError) (Cmd.writeBytes
        (mounted C.basePath [sessionId, sanitizedName file.originalname]) file.buffer)
        (.ok ()) ∈ tr := by
  rcases Prog.finishes_bind h with ⟨tr₁, tr₂, found, rfl, -, h₂⟩ | ⟨e, he, -⟩
  · cases found with
    | none =>
      obtain ⟨-, he⟩ := Prog.finishes_fail h₂
      cases he
    | some d =>
      by_cases hu : d.userId = userId
      · simp only [ne_eq, hu, not_true_eq_false, if_false] at h₂
        rcases Prog.finishes_bind h₂ with ⟨tr₃, tr₄, _, rfl, -, h₄⟩ | ⟨e, he, -⟩
        · rcases Prog.finishes_bind h₄ with ⟨tr₅, tr₆, _, rfl, h₅, h₆⟩ | ⟨e, he, -⟩
          · have hwritten : Happening.call (A := sig) (E := JsError) (Cmd.writeBytes
                (mounted C.basePath [sessionId, sanitizedName file.originalname]) file.buffer)
                (.ok ()) ∈ tr₅ := by
              rcases Prog.finishes_bind h₅ with ⟨tr₇, tr₈, _, rfl, -, h₈⟩ | ⟨e, he, -⟩
              · obtain rfl := Prog.finishes_call h₈
                exact List.mem_append_right _ (List.mem_singleton_self _)
              · cases he
            have hresult : result = ⟨js "/workspace/" ++ sanitizedName file.originalname,
                file.originalname⟩ := by
              rcases Prog.finishes_bind h₆ with ⟨tr₇, tr₈, _, rfl, -, h₈⟩ | ⟨e, he, -⟩
              · obtain ⟨-, he⟩ := Prog.finishes_ret h₈
                exact Except.ok.inj he
              · cases he
            exact ⟨by rw [hresult], List.mem_append_right _ (List.mem_append_right _
              (List.mem_append_left _ hwritten))⟩
          · cases he
        · cases he
      · simp only [ne_eq, hu, not_false_eq_true, if_true] at h₂
        obtain ⟨-, he⟩ := Prog.finishes_fail h₂
        cases he
  · cases he

/-! ### What the gateway forwards of a message of the client -/

/-- **A message of the client arrives** as the value that it carries, rewritten. -/
theorem decodeFrame_format (T : NumText N) (workspaceRoot : JsString) (m : ClientMessage) :
    decodeFrame T
        (utf8Encode (transformMessage T (LspMessage.format T (m.jsonRpc T)) workspaceRoot)) =
      some (mapStr (transformUri workspaceRoot) (.obj (m.jsonRpc T))) := by
  have hplain := m.plain_jsonRpc T
  have hdecode := decodeFrame_frameOf (T := T) (canonical_rewritten (T := T) workspaceRoot m)
  rw [transformMessage_format workspaceRoot hplain, utf8Encode_message, ← frameOf, hdecode,
    transformUris, transformStrings_eq_mapStr _ _ (canonical_of_plain appends_assign _ hplain)]

/-! ### One file for both -/

theorem plainName_lspFiles : PlainName (js "lsp-files") := by
  refine ⟨by decide, by decide, by decide, by decide⟩

/-- What a container sees of the volume. -/
theorem mounted_lspFiles {names : List JsString} (h : ∀ n ∈ names, PlainName n) :
    mounted (js "/lsp-files") names = pathTo (js "lsp-files" :: names) := by
  have hroot : ∀ n ∈ [js "lsp-files"], PlainName n := by
    intro n hn
    rw [List.mem_singleton.mp hn]
    exact plainName_lspFiles
  exact mounted_pathTo hroot (List.cons_ne_nil _ _) h

/-- The URI of a file of the volume, as a container mounts it, denotes this file and no
other. -/
theorem denotes_mounted_iff {names names' : List JsString}
    (h : ∀ n ∈ js "lsp-files" :: names, UriName n) (h' : ∀ n ∈ names', PlainName n) :
    Denotes reader (js "file://" ++ pathTo (js "lsp-files" :: names))
      (mounted (js "/lsp-files") names') ↔ names' = names := by
  have hdenotes : Denotes reader _ _ := denotes_pathTo h (List.cons_ne_nil _ _)
  rw [mounted_lspFiles h']
  constructor
  · intro hother
    have hplain : ∀ n ∈ js "lsp-files" :: names', PlainName n :=
      List.forall_mem_cons.mpr ⟨plainName_lspFiles, h'⟩
    have hsame : pathTo (js "lsp-files" :: names') = pathTo (js "lsp-files" :: names) :=
      hother.symm.trans hdenotes
    exact (List.cons.inj (pathTo_inj hplain (fun n hn => (h n hn).1) hsame)).2
  · rintro rfl
    exact hdenotes

/-- The URI that is made of the answer of an upload, rewritten. -/
theorem transformUri_uploaded (h : UlidText sessionId) (name : JsString) :
    transformUri (sessionRoot sessionId) (js "file://" ++ (js "/workspace/" ++ name)) =
      js "file://" ++ pathTo [js "lsp-files", sessionId, name] := by
  have hsplit : js "file://" ++ (js "/workspace/" ++ name) = js "file:///workspace/" ++ name := rfl
  have hconcat := pathTo_concat (sessionDirectory sessionId) name
  rw [hsplit, transformUri_workspace h, ← pathTo_sessionDirectory, ← hconcat]
  rfl

/-- **The file that is uploaded and the file that is named are one.**  An upload of a session
has returned, and the client has a connection to the session.  The bytes were written to a
file of the volume, as the API server mounts it; the URI that the client makes of the answer is
rewritten to one that denotes the same file, as the container mounts the volume, and no other;
and this rewriting is what a message undergoes on its way to the container of the session. -/
theorem upload_and_uri_agree (C : Config N) (reader : UriReader) (σ : (services C).Sys)
    (client : Nat) (entry : ClientSession) (pid : Nat) (userId : JsString) (file : UploadedFile)
    (result : UploadResult) (alive : Bool)
    (h : Service.Reaches Service.anyEvent (start C) σ)
    (hname : Execution.fileFilter file.originalname = true)
    (hup : σ.procs[pid]? =
      some ⟨.uploadFile entry.sessionId userId file, (.ret result : Program UploadResult), alive⟩)
    (hentry : σ.shared.clientSessions client = some entry) :
    ∃ names uri, (∀ n ∈ names, PlainName n) ∧
      Logged σ.shared pid (.writeBytes (mounted C.basePath names) file.buffer) .done ∧
      transformUri entry.workspaceRoot (js "file://" ++ result.filePath) = uri ∧
      Denotes reader uri (mounted (js "/lsp-files") names) ∧
      (∀ names', (∀ n ∈ names', PlainName n) →
        Denotes reader uri (mounted (js "/lsp-files") names') → names' = names) ∧
      ∀ (m : ClientMessage) (σ' : (services C).Sys) (w : StreamWrite),
        Service.step σ (.call (.handleLSPMessage client
          (LspMessage.format C.numbers (m.jsonRpc C.numbers)))) = some σ' →
        σ'.shared.writes = σ.shared.writes ++ [w] →
          w.stream = entry.stream ∧ decodeFrame C.numbers w.bytes =
            some (mapStr (transformUri entry.workspaceRoot) (.obj (m.jsonRpc C.numbers))) := by
  obtain ⟨hroot, hulid, hne⟩ := root_of_entry h hentry
  -- the names that lead to the file in the volume
  have hnames : ∀ m ∈ [js "lsp-files", entry.sessionId, sanitizedName file.originalname],
      UriName m := by
    intro m hm
    rw [List.mem_cons, List.mem_cons, List.mem_singleton] at hm
    rcases hm with rfl | rfl | rfl
    · exact uriName_sessionDirectory hulid hne _ List.mem_cons_self
    · exact uriName_of_ulidText hulid hne
    · exact uriName_sanitizedName hname
  have hplain : ∀ m ∈ [entry.sessionId, sanitizedName file.originalname], PlainName m :=
    fun m hm => (hnames m (List.mem_cons_of_mem _ hm)).1
  -- what the upload has answered and done
  obtain ⟨tr, hf, hlog⟩ := traced_of_reaches h pid _ hup
  obtain ⟨hpath, hwritten⟩ := finishes_uploadFile hf
  have huri : transformUri entry.workspaceRoot (js "file://" ++ result.filePath) =
      js "file://" ++ pathTo [js "lsp-files", entry.sessionId, sanitizedName file.originalname] := by
    rw [hpath, hroot]
    exact transformUri_uploaded hulid _
  refine ⟨[entry.sessionId, sanitizedName file.originalname], _, hplain, hlog _ hwritten, huri,
    (denotes_mounted_iff hnames hplain).mpr rfl, ?_, ?_⟩
  · intro names' hplain' hdenotes
    exact (denotes_mounted_iff hnames hplain').mp hdenotes
  · intro m σ' w hstep hw
    obtain ⟨entry', hentry', rfl⟩ := forwards_message h hstep hw
    obtain rfl := Option.some.inj (hentry.symm.trans hentry')
    exact ⟨rfl, decodeFrame_format C.numbers entry.workspaceRoot m⟩

/-- A file with one letter. -/
def smallFile : UploadedFile := ⟨js "a b.dart", [118]⟩

/-- Ann uploads a file to the session that she is connected to. -/
def fileUploaded : List (services Config.plain).Event :=
  twoSessions ++ .call (.uploadFile (js "0") (js "ann") smallFile) ::
    List.replicate 6 (.resume 4 .done)

theorem upload_and_uri_agree_uploaded :
    ∃ σ entry result alive, Service.run (start Config.plain) fileUploaded = some σ ∧
      σ.shared.clientSessions 0 = some entry ∧ entry.sessionId = js "0" ∧
      σ.procs[4]? = some ⟨.uploadFile entry.sessionId (js "ann") smallFile,
        (.ret result : Program UploadResult), alive⟩ ∧
      ∃ names, Denotes .percent
        (transformUri entry.workspaceRoot (js "file://" ++ result.filePath))
        (mounted (js "/lsp-files") names) := by
  have hrun : (Service.run (start Config.plain) fileUploaded).map (fun σ =>
      ((σ.shared.clientSessions 0).map ClientSession.sessionId,
        (σ.procs[4]?).map fun p => (p.call, decide p.prog.Returned))) =
      some (some (js "0"), some (.uploadFile (js "0") (js "ann") smallFile, true)) := by
    decide +kernel
  obtain ⟨σ, hσ, hend⟩ := Option.map_eq_some_iff.mp hrun
  obtain ⟨hentry, hproc⟩ := Prod.mk.inj hend
  obtain ⟨entry, he, hsid⟩ := Option.map_eq_some_iff.mp hentry
  obtain ⟨⟨call, prog, alive⟩, hp, hpair⟩ := Option.map_eq_some_iff.mp hproc
  obtain ⟨hcall, hret⟩ := Prod.mk.inj hpair
  obtain rfl : call = _ := hcall
  have hreturned := of_decide_eq_true hret
  cases prog with
  | ret result =>
    rw [← hsid] at hp
    obtain ⟨names, _, -, -, rfl, hdenotes, -⟩ := upload_and_uri_agree Config.plain .percent σ 0
      entry 4 (js "ann") smallFile result alive (Service.reaches_of_run hσ fun _ _ _ => trivial)
      (by decide) hp he
    exact ⟨σ, entry, result, alive, hσ, he, hsid, hp, names, hdenotes⟩
  | fail e => cases hreturned
  | await c k => cases hreturned
  | sync o k => cases hreturned

end FullstackSvc.LanguageServer
