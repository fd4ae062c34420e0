import FullstackSvc.Execution.Paths
import FullstackSvc.LanguageServer.Uploads

/-!
# Where uploads are written

The name of an upload is the client's.  `uploadFile` keeps its letters, digits
and the three units `.`, `_` and `-`, and puts the rest behind the directory of the session;
`createExecutionJob` takes the extension only, and a fresh id for the rest.

* `exists_stem`: what the filter lets through ends in `.dart`.
* `makes_uploadFile`: an upload opens one path.
* `uploads_confined`: **no upload leaves its directory**, nor does what the
  worker makes of it.
-/

namespace FullstackSvc.LanguageServer

open Text Async FullstackSvc.Lsp

variable {N : Type} {C : Config N} {sessionId userId : JsString} {file : UploadedFile}

/-! ### The name -/

/-- What the filter lets through ends in `.dart`. -/
theorem exists_stem {name : JsString} (h : Execution.fileFilter name = true) :
    ∃ stem, name = stem ++ js ".dart" := by
  have hext : Execution.fileExtension name = js ".dart" := of_decide_eq_true h
  rw [Execution.fileExtension] at hext
  split at hext
  · rename_i hdot
    have hne : name.reverse.dropWhile (· ≠ 46) ≠ [] := by
      intro hnil
      have hall := List.dropWhile_eq_nil_iff.mp hnil 46 (List.mem_reverse.mpr hdot)
      simp at hall
    obtain ⟨u, rest, hdrop⟩ := List.exists_cons_of_ne_nil hne
    have hu : u = 46 := by
      have hhead := List.head_dropWhile_not (fun v : UInt16 => decide (v ≠ 46)) hne
      simp only [hdrop, List.head_cons] at hhead
      simpa using hhead
    subst hu
    have hsplit : name.reverse = name.reverse.takeWhile (· ≠ 46) ++ 46 :: rest := by
      rw [← hdrop, List.takeWhile_append_dropWhile]
    refine ⟨rest.reverse, ?_⟩
    have hname := congrArg List.reverse hsplit
    rw [List.reverse_reverse, List.reverse_append, List.reverse_cons, List.append_assoc,
      List.singleton_append, hext] at hname
    exact hname
  · exact ⟨[], hext⟩

theorem sanitizedName_append (a b : JsString) :
    sanitizedName (a ++ b) = sanitizedName a ++ sanitizedName b := List.map_append

/-! ### The path -/

/-- The call opens or writes no file but this one. -/
def WritesOnly (target : JsString) : Cmd → Prop
  | .openFile path => path = target
  | .writeBytes path _ => path = target
  | _ => True

theorem makes_getSession (sessionId target : JsString) :
    (getSession sessionId).Makes (A := sig) (WritesOnly target) := Prog.makes_call trivial

theorem makes_writeBack (sessionId target : JsString) (d : SessionData) :
    (writeBack sessionId d).Makes (A := sig) (WritesOnly target) := by
  refine Prog.makes_bind (Prog.makes_call trivial) fun ttl => ?_
  by_cases hpos : ttl > 0
  · rw [if_pos hpos]
    exact Prog.makes_call trivial
  · rw [if_neg hpos]
    trivial

/-- **An upload opens one path.** -/
theorem makes_uploadFile : (uploadFile C sessionId userId file).Makes (A := sig)
    (WritesOnly (join (join C.basePath sessionId) (sanitizedName file.originalname))) := by
  refine Prog.makes_bind (makes_getSession _ _) fun found => ?_
  cases found with
  | none => trivial
  | some d =>
    by_cases hu : d.userId = userId
    · simp only [ne_eq, hu, not_true_eq_false, if_false]
      refine Prog.makes_bind (Prog.makes_call trivial) fun _ => ?_
      refine Prog.makes_bind (Prog.makes_bind (Prog.makes_call rfl) fun _ => Prog.makes_call rfl)
        fun _ => ?_
      exact Prog.makes_bind (makes_writeBack _ _ _) fun _ => trivial
    · simp only [ne_eq, hu, not_false_eq_true, if_true]
      trivial

theorem join_ne_nil {a n : JsString} (ha : a ≠ []) (hn : PlainName n) : join a n ≠ [] := by
  rw [join_name ha hn]
  exact List.append_ne_nil_of_right_ne_nil _ hn.1

/-- The call opens the file at the path, or writes to it. -/
def Opens (cmd : Option Cmd) (path : JsString) : Prop :=
  cmd = some (.openFile path) ∨ ∃ bytes, cmd = some (.writeBytes path bytes)

/-- **An upload stays in the directory of its session.** -/
theorem directChild_of_opens {σ : (services C).Sys}
    (h : Service.Reaches Service.anyEvent (start C) σ) {pid : Nat} {path : JsString}
    (hcall : (σ.procs[pid]?).map Service.Proc.call = some (.uploadFile sessionId userId file))
    (hname : Execution.fileFilter file.originalname = true) (hp : Opens (σ.pending pid) path) :
    DirectChild (join C.basePath sessionId) path (sanitizedName file.originalname) := by
  obtain ⟨hl, hh⟩ := holds_of_reaches h
  have hc : σ.shared.calls[pid]? = some (.uploadFile sessionId userId file) := by
    rw [hl, List.getElem?_map]
    exact hcall
  -- the id of the session was drawn, for it has been found
  have howner : ∀ cmd, σ.pending pid = some cmd → (Need C pid (.uploadFile sessionId userId file) cmd
      σ.shared → Owner C σ.shared sessionId userId) → Owner C σ.shared sessionId userId := by
    intro cmd hcmd hneed
    obtain ⟨c, hc', hn⟩ := need_of_pending hh hcmd
    obtain rfl := Option.some.inj (hc.symm.trans hc')
    exact hneed hn
  have hbody : ((services C).body (.uploadFile sessionId userId file)).Asks
      (fun h => Recorded pid h σ.shared)
      (WritesOnly (join (join C.basePath sessionId) (sanitizedName file.originalname))) :=
    Prog.asks_of_makes makes_uploadFile
  have htraced := traced_of_reaches h
  have hboth : Owner C σ.shared sessionId userId ∧
      path = join (join C.basePath sessionId) (sanitizedName file.originalname) := by
    rcases hp with hp | ⟨bytes, hp⟩
    · exact ⟨howner _ hp fun hn => hn, Traced.pending htraced hcall hbody hp⟩
    · exact ⟨howner _ hp fun hn => hn, Traced.pending htraced hcall hbody hp⟩
  obtain ⟨⟨p, ⟨n, -, rfl⟩, -⟩, rfl⟩ := hboth
  have hsession := (uriName_of_ulidText (C.ulid.ulidText n) (C.ulid.ne_nil n)).1
  exact directChild_join (join_ne_nil C.basePath_ne_nil hsession) (uriName_sanitizedName hname).1

/-- A code file is in the directory of code files, for a container too. -/
theorem directChild_codeFile (D : Execution.Config) (n : Nat) :
    DirectChild D.basePath (join D.basePath (Execution.codeFile (D.ulid.text n)))
        (D.ulid.text n ++ js ".dart") ∧
      DirectChild (js "/code-files") (js "/code-files/" ++ Execution.codeFile (D.ulid.text n))
        (D.ulid.text n ++ js ".dart") := by
  have hplain := Execution.plainName_codeFile (D.ulid.ulidText n)
  have hmounted : join (js "/code-files") (Execution.codeFile (D.ulid.text n)) =
      js "/code-files/" ++ Execution.codeFile (D.ulid.text n) := by
    have hdir : directory (js "/code-files") = js "/code-files/" := by decide
    rw [join_name (by decide) hplain, hdir]
  exact ⟨directChild_join D.basePath_ne_nil hplain, hmounted ▸ directChild_join (by decide) hplain⟩

/-- **Uploads cannot escape their directory.**  In every state that the services reach, whatever
the names of the files are that have passed the filter: a file that an upload to a session is about
to open is an entry of the directory of the session, whose name consists of the units
`[a-zA-Z0-9._-]`, ends in `.dart` and is a plain name; the path in the row of a job is a drawn id
and `.dart`; and a file that the creation of a job or the worker is about to open, or a container
is to run, is an entry of the directory of code files with such a name. -/
theorem uploads_confined {C : Config N} {D : Execution.Config} {σ : (services C).Sys}
    {τ : (Execution.services D).Sys} (hσ : Service.Reaches Service.anyEvent (start C) σ)
    (hτ : Service.Reaches Service.anyEvent (Execution.start D) τ) :
    (∀ (pid : Nat) (sessionId userId path : JsString) (file : UploadedFile),
      (σ.procs[pid]?).map Service.Proc.call = some (.uploadFile sessionId userId file) →
      Execution.fileFilter file.originalname = true → Opens (σ.pending pid) path →
      ∃ name, DirectChild (join C.basePath sessionId) path name ∧
        (∀ u ∈ name, isNameUnit u = true) ∧ ∃ stem, name = stem ++ js ".dart") ∧
    (∀ row ∈ τ.shared.jobs, ∃ n, row.filePath = D.ulid.text n ++ js ".dart") ∧
    (∀ (pid : Nat) (path : JsString), (τ.pending pid = some (.openFile path) ∨
      (∃ bytes, τ.pending pid = some (.writeBytes path bytes)) ∨
      τ.pending pid = some (.access path)) →
      ∃ n, DirectChild D.basePath path (D.ulid.text n ++ js ".dart")) ∧
    ∀ (pid : Nat) (path : JsString), τ.pending pid = some (.createContainer path) →
      ∃ n, DirectChild (js "/code-files") path (D.ulid.text n ++ js ".dart") := by
  refine ⟨fun pid sessionId userId path file hcall hname hp => ?_, fun row hrow => ?_,
    fun pid path hp => ?_, fun pid path hp => ?_⟩
  · refine ⟨_, directChild_of_opens hσ hcall hname hp, fun u => isNameUnit_sanitizedName, ?_⟩
    obtain ⟨stem, hstem⟩ := exists_stem hname
    have hdart : sanitizedName (js ".dart") = js ".dart" := by decide
    exact ⟨sanitizedName stem, by rw [hstem, sanitizedName_append, hdart]⟩
  · have hsound := (Execution.holds_of_reaches (Execution.reaches_lax hτ)).2.1
    exact Execution.filePath_of_key hsound (List.mem_map.mpr ⟨row, hrow, rfl⟩)
  · have hnamed : Execution.IsCodeFile D path := by
      rcases hp with hp | ⟨bytes, hp⟩ | hp
      · exact Execution.names_code_file hτ hp
      · exact Execution.names_code_file hτ hp
      · exact Execution.names_code_file hτ hp
    obtain ⟨n, rfl⟩ := hnamed
    exact ⟨n, (directChild_codeFile D n).1⟩
  · obtain ⟨n, rfl⟩ : Execution.IsMountedCodeFile D path := Execution.names_code_file hτ hp
    exact ⟨n, (directChild_codeFile D n).2⟩

/-- Ann uploads a file whose name leads out of every directory. -/
def escapingUpload : List (services Config.plain).Event :=
  [.call (.createSession (js "ann")), .resume 0 .done,
    .call (.uploadFile (js "0") (js "ann") ⟨js "../../etc/a b.dart", [118]⟩), .resume 1 .done,
    .resume 1 .done]

theorem uploads_confined_escaping :
    ∃ σ path, Service.run (start Config.plain) escapingUpload = some σ ∧
      Opens (σ.pending 1) path ∧
      ∃ name, DirectChild (join Config.plain.basePath (js "0")) path name := by
  have hrun : (Service.run (start Config.plain) escapingUpload).map (fun σ =>
      (σ.pending 1, (σ.procs[1]?).map Service.Proc.call)) =
      some (some (.openFile (js "/lsp-files/0/.._.._etc_a_b.dart")),
        some (Request.uploadFile (js "0") (js "ann") ⟨js "../../etc/a b.dart", [118]⟩)) := by
    decide +kernel
  obtain ⟨σ, hσ, hend⟩ := Option.map_eq_some_iff.mp hrun
  obtain ⟨hpending, hcall⟩ := Prod.mk.inj hend
  have hopens : Opens (σ.pending 1) (js "/lsp-files/0/.._.._etc_a_b.dart") := Or.inl hpending
  have hreach : Service.Reaches Service.anyEvent (start Config.plain) σ :=
    Service.reaches_of_run hσ fun _ _ _ => trivial
  obtain ⟨name, hchild, -⟩ := (uploads_confined (D := Execution.Config.plain) hreach .refl).1 1
    (js "0") (js "ann") _ ⟨js "../../etc/a b.dart", [118]⟩ hcall (by decide) hopens
  exact ⟨σ, _, hσ, hopens, name, hchild⟩

end FullstackSvc.LanguageServer
