import Mathlib.Data.List.Basic
import FullstackSvc.Lsp.Message
import FullstackSvc.Lsp.ResponseBuffer

/-!
# From the container to the client

A server writes frames: a block of header lines, one of them the length of the
body in bytes, and a body that is a JSON object in UTF-8 (`ContainerFrame`).
TCP hands them over in chunks.  The gateway cuts them again, rewrites what it
has cut and emits it as `lsp-message`, and the client parses what it gets.

* `emitted_eq_frames`: however the bytes are cut into chunks, every frame is
  emitted, as it was written.
* `parse_emitted`: the client reads the body of every frame, unchanged.
* `container_channel_faithful_iff`: so the URIs come out rewritten exactly when
  there are none to rewrite.
-/

namespace FullstackSvc.Lsp

open Text FullstackSvc.Stream

variable {N : Type}

/-- A well-formed frame of a server. -/
structure ContainerFrame (T : NumText N) where
  lines : List JsString
  body : JsString
  message : List (JsString × Json N)
  lines_plain : ∀ l ∈ lines, l ≠ [] ∧ Ascii l ∧ (13 : UInt16) ∉ l
  length_line : ∃ l ∈ lines, (execContentLength l).isSome = true
  length_eq : ∀ l ∈ lines, ∀ digits, execContentLength l = some digits →
    parseDecimal digits = (utf8Encode body).length
  body_text : WellFormed body
  body_json : readText T.read dartDefine body = some (.obj message)

namespace ContainerFrame

variable {T : NumText N}

/-- The frame as text. -/
def text (f : ContainerFrame T) : JsString := joinLines [13, 10] f.lines ++ (headerEnd ++ f.body)

/-- The bytes on the socket. -/
def bytes (f : ContainerFrame T) : Bytes := utf8Encode f.text

/-- The frame that a server writes for a message: the length is its only header
line. -/
def ofMessage (T : NumText N) (message : List (JsString × Json N)) (h : Plain (.obj message)) :
    ContainerFrame T where
  lines := [headerLine (utf8Encode (stringify T.dart (.obj message))).length]
  body := stringify T.dart (.obj message)
  message := message
  lines_plain := by
    rw [List.forall_mem_singleton]
    refine ⟨?_, headerLine_ascii _, cr_not_mem_headerLine _⟩
    rw [headerLine]
    exact List.append_ne_nil_of_right_ne_nil _ (decimal_ne_nil _)
  length_line := ⟨_, List.mem_singleton_self _, by rw [headerLine, execContentLength_decimal]; rfl⟩
  length_eq := by
    rw [List.forall_mem_singleton]
    intro digits hd
    rw [headerLine, execContentLength_decimal] at hd
    obtain rfl := Option.some.inj hd
    exact parseDecimal_decimal _
  body_text := wellFormed_stringify T.dart_num _
  body_json := readText_stringify T.read_dart T.dart_ne_nil T.dart_num
    (canonical_of_plain appends_dartDefine _ h)

/-! ### Cutting a frame -/

theorem lines_ne_nil (f : ContainerFrame T) : f.lines ≠ [] := by
  obtain ⟨l, hl, -⟩ := f.length_line
  exact List.ne_nil_of_mem hl

theorem block_ascii (f : ContainerFrame T) : Ascii (joinLines [13, 10] f.lines) := by
  intro u hu
  rcases mem_joinLines hu with hu | ⟨l, hl, hu⟩
  · have hsep : Ascii [13, 10] := by decide
    exact hsep u hu
  · exact (f.lines_plain l hl).2.1 u hu

theorem wellFormed_text (f : ContainerFrame T) : WellFormed f.text :=
  wellFormed_append (wellFormed_of_ascii f.block_ascii)
    (wellFormed_append (wellFormed_of_ascii (by decide)) f.body_text)

theorem bytes_eq (f : ContainerFrame T) :
    f.bytes = utf8Encode (joinLines [13, 10] f.lines) ++ (crlfCrlf ++ utf8Encode f.body) := by
  rw [bytes, text, utf8Encode_append (wellFormed_of_ascii f.block_ascii),
    utf8Encode_append (wellFormed_of_ascii (by decide))]
  rfl

theorem utf8Decode_bytes (f : ContainerFrame T) : utf8Decode f.bytes = f.text :=
  utf8Decode_utf8Encode f.wellFormed_text

/-- The end of the header block in the text. -/
theorem indexOf_text (f : ContainerFrame T) :
    indexOf headerEnd f.text = some (joinLines [13, 10] f.lines).length :=
  indexOf_joinLines (by decide) f.lines_ne_nil
    (fun l hl => ⟨(f.lines_plain l hl).1, no_pair_of_not_mem (f.lines_plain l hl).2.2⟩) f.body

/-- The end of the header block in the bytes. -/
theorem indexOf_bytes (f : ContainerFrame T) (t : Bytes) :
    indexOf crlfCrlf (utf8Encode (joinLines [13, 10] f.lines) ++ (crlfCrlf ++ t)) =
      some (utf8Encode (joinLines [13, 10] f.lines)).length := by
  rw [utf8Encode_ascii f.block_ascii, joinLines_map]
  refine indexOf_joinLines (by decide) ?_ ?_ t
  · rw [ne_eq, List.map_eq_nil_iff]
    exact f.lines_ne_nil
  · intro m hm
    obtain ⟨l, hl, rfl⟩ := List.mem_map.mp hm
    obtain ⟨hne, hascii, hcr⟩ := f.lines_plain l hl
    refine ⟨by rwa [ne_eq, List.map_eq_nil_iff], no_pair_of_not_mem fun h => ?_⟩
    obtain ⟨u, hu, he⟩ := List.mem_map.mp h
    have hlt := hascii u hu
    have h13 : u.toNat = 13 := by
      have := congrArg UInt8.toNat he
      rw [UInt8.toNat_ofNat', Nat.mod_eq_of_lt (by omega)] at this
      exact this
    have hu13 : u = 13 := UInt16.toNat_inj.mp h13
    exact hcr (hu13 ▸ hu)

/-- The length that the block announces. -/
theorem contentLength_block (f : ContainerFrame T) :
    contentLength (utf8Encode (joinLines [13, 10] f.lines)) = some (utf8Encode f.body).length := by
  rw [contentLength, utf8Decode_utf8Encode (wellFormed_of_ascii f.block_ascii),
    splitCrlf_joinLines f.lines_ne_nil fun l hl => no_pair_of_not_mem (f.lines_plain l hl).2.2]
  obtain ⟨l, hl, hd⟩ := f.length_line
  obtain ⟨digits, hdig⟩ := Option.isSome_iff_exists.mp hd
  cases hfind : f.lines.findSome? fun line => (execContentLength line).map parseDecimal with
  | none =>
    have := List.findSome?_eq_none_iff.mp hfind l hl
    rw [hdig] at this
    cases this
  | some n =>
    obtain ⟨m, hm, hn⟩ := List.exists_of_findSome?_eq_some hfind
    obtain ⟨d, hd, rfl⟩ := Option.map_eq_some_iff.mp hn
    rw [f.length_eq m hm d hd]

/-- **A frame is cut as it stands.** -/
theorem cut_bytes (f : ContainerFrame T) : responseCutter.cut f.bytes = .frame f.bytes [] := by
  rw [bytes_eq]
  exact cutFrame_whole (f.indexOf_bytes _) f.contentLength_block

end ContainerFrame

/-! ### The gateway and the client -/

section Channel

variable (T : NumText N)

/-- The listener of `'message'`: what is emitted as `lsp-message` for a cut
frame, by the workspace root of the session that is registered. -/
def lspMessage (currentSession : Option JsString) (rawMessage : Bytes) : JsString :=
  let transformedMessage :=
    match currentSession with
    | some workspaceRoot => transformResponseMessage T (.buffer rawMessage) workspaceRoot
    | none => .buffer rawMessage
  transformedMessage.toString

/-- What a registered client is sent for the chunks that come from the socket. -/
def emittedTexts (workspaceRoot : JsString) (chunks : List Bytes) : List JsString :=
  (responseCutter.feedAll [] chunks).emitted.map (lspMessage T (some workspaceRoot))

/-- **What is emitted is the frame as it was cut**: the transformer hands a
Buffer back. -/
theorem lspMessage_eq (currentSession : Option JsString) (rawMessage : Bytes) :
    lspMessage T currentSession rawMessage = utf8Decode rawMessage := by
  cases currentSession with
  | none => rfl
  | some workspaceRoot =>
    rw [lspMessage]
    simp only [transformResponseMessage_buffer]
    rfl

variable {T}

/-- **Chunking does not matter**: every frame is emitted as its text. -/
theorem emitted_eq_frames (R : JsString) {frames : List (ContainerFrame T)} {chunks : List Bytes}
    (h : chunks.flatten = (frames.map ContainerFrame.bytes).flatten) :
    emittedTexts T R chunks = frames.map ContainerFrame.text := by
  have hcut : ∀ b ∈ frames.map ContainerFrame.bytes, responseCutter.cut b = .frame b [] := by
    intro b hb
    obtain ⟨f, _, rfl⟩ := List.mem_map.mp hb
    exact f.cut_bytes
  rw [emittedTexts, Cutter.feedAll_frames rfl hcut h, List.map_map]
  refine List.map_congr_left fun f _ => ?_
  rw [Function.comp_apply, lspMessage_eq, f.utf8Decode_bytes]

/-- **The client reads the body** of a frame. -/
theorem parse_text (f : ContainerFrame T) : LspMessage.parse T f.text = some f.message := by
  have hdrop : f.text.drop ((joinLines [13, 10] f.lines).length + 4) = f.body := by
    rw [ContainerFrame.text, ← List.append_assoc]
    exact List.drop_left' (by rw [List.length_append]; rfl)
  have hne : f.body ≠ [] := by
    intro he
    have := f.body_json
    rw [he] at this
    cases this
  rw [LspMessage.parse, f.indexOf_text]
  simp only [hdrop, if_neg hne, f.body_json]

theorem parse_emitted (R : JsString) {frames : List (ContainerFrame T)} {chunks : List Bytes}
    (h : chunks.flatten = (frames.map ContainerFrame.bytes).flatten) :
    (emittedTexts T R chunks).map (LspMessage.parse T) = frames.map fun f => some f.message := by
  rw [emitted_eq_frames R h, List.map_map]
  exact List.map_congr_left fun f _ => parse_text f

/-! ### What should have been rewritten -/

/-- The string names the workspace root or something below it. -/
def NamesRoot (workspaceRoot s : JsString) : Prop :=
  startsWith s (js "file://" ++ workspaceRoot ++ js "/") = true ∨ s = js "file://" ++ workspaceRoot

instance (workspaceRoot s : JsString) : Decidable (NamesRoot workspaceRoot s) :=
  inferInstanceAs (Decidable (_ ∨ _))

/-- The message with its URIs as the client knows them. -/
def clientView (workspaceRoot : JsString) (message : List (JsString × Json N)) :
    List (JsString × Json N) := mapStrFields (transformResponseUri workspaceRoot) message

theorem clientView_eq_self_iff (R : JsString) (message : List (JsString × Json N)) :
    clientView R message = message ↔
      R = js "/workspace" ∨ ∀ s ∈ strValues (.obj message), ¬ NamesRoot R s := by
  have hne : ∀ s, transformResponseUri R s = s ↔ R = js "/workspace" ∨ ¬ NamesRoot R s := by
    intro s
    have := transformResponseUri_ne_iff R s
    rw [← not_iff_not, ← ne_eq, this, not_or, not_not, NamesRoot]
  rw [clientView, mapStrFields_eq_self_iff, strValues]
  constructor
  · intro h
    by_cases hR : R = js "/workspace"
    · exact Or.inl hR
    · exact Or.inr fun s hs => ((hne s).mp (h s hs)).resolve_left hR
  · rintro (hR | h) s hs
    · exact (hne s).mpr (Or.inl hR)
    · exact (hne s).mpr (Or.inr (h s hs))

/-- The core of the result below, for one list of frames. -/
theorem parse_emitted_eq_iff (R : JsString) {frames : List (ContainerFrame T)}
    {chunks : List Bytes} (h : chunks.flatten = (frames.map ContainerFrame.bytes).flatten) :
    (emittedTexts T R chunks).map (LspMessage.parse T) =
        frames.map (fun f => some (clientView R f.message)) ↔
      R = js "/workspace" ∨ ∀ f ∈ frames, ∀ s ∈ strValues (.obj f.message), ¬ NamesRoot R s := by
  rw [parse_emitted R h, List.map_inj_left]
  have heq : ∀ f : ContainerFrame T, some f.message = some (clientView R f.message) ↔
      R = js "/workspace" ∨ ∀ s ∈ strValues (.obj f.message), ¬ NamesRoot R s := by
    intro f
    rw [Option.some.injEq, eq_comm]
    exact clientView_eq_self_iff R f.message
  constructor
  · intro hall
    by_cases hR : R = js "/workspace"
    · exact Or.inl hR
    · exact Or.inr fun f hf => ((heq f).mp (hall f hf)).resolve_left hR
  · rintro (hR | hall) f hf
    · exact (heq f).mpr (Or.inl hR)
    · exact (heq f).mpr (Or.inr (hall f hf))

/-- **The channel from the container is faithful exactly when there is nothing
to rewrite.**  For any frames and any chunks of their bytes, the texts emitted
to a client with the workspace root `R` parse to the bodies with their URIs
rewritten if and only if no string in a body names the root, or the root is the
client's own. -/
theorem container_channel_faithful_iff (T : NumText N) (R : JsString)
    (frames : List (ContainerFrame T)) (chunks : List Bytes)
    (h : chunks.flatten = (frames.map ContainerFrame.bytes).flatten) :
    (emittedTexts T R chunks).map (LspMessage.parse T) =
        frames.map (fun f => some (clientView R f.message)) ↔
      R = js "/workspace" ∨ ∀ f ∈ frames, ∀ s ∈ strValues (.obj f.message), ¬ NamesRoot R s :=
  parse_emitted_eq_iff R h

end Channel

/-- The answer to a definition request of the client, in a session with the id
`01ARZ3NDEKTSV4RRFFQ69G5FAV`. -/
def definitionAnswer : ContainerFrame intText :=
  .ofMessage intText
    [(js "jsonrpc", .str (js "2.0")), (js "id", .num 2),
      (js "result", .obj [
        (js "uri", .str (js "file:///lsp-files/01ARZ3NDEKTSV4RRFFQ69G5FAV/main.dart"))])]
    (by
      simp only [Plain, PlainFields, List.map_cons, List.map_nil, true_and, and_true]
      decide)

theorem container_channel_faithful_of_other_root :
    (emittedTexts intText (js "/lsp-files/01BX5ZZKBKACTAV9WEVGEMMVRZ")
        [definitionAnswer.bytes.take 7, definitionAnswer.bytes.drop 7]).map
          (LspMessage.parse intText) =
      [some (clientView (js "/lsp-files/01BX5ZZKBKACTAV9WEVGEMMVRZ") definitionAnswer.message)] :=
  (container_channel_faithful_iff intText _ [definitionAnswer] _ (by simp)).mpr
    (Or.inr (by decide))

/-- The answer reaches the client with the URI of the container. -/
theorem container_channel_loses_definition_uri :
    (emittedTexts intText (js "/lsp-files/01ARZ3NDEKTSV4RRFFQ69G5FAV")
        [definitionAnswer.bytes]).map (LspMessage.parse intText) ≠
      [some (clientView (js "/lsp-files/01ARZ3NDEKTSV4RRFFQ69G5FAV") definitionAnswer.message)] := by
  intro h
  have hbytes : [definitionAnswer.bytes].flatten =
      ([definitionAnswer].map ContainerFrame.bytes).flatten := rfl
  exact absurd ((parse_emitted_eq_iff _ hbytes).mp h) (by decide)

end FullstackSvc.Lsp
