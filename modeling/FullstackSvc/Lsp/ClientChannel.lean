import Mathlib.Data.List.Basic
import FullstackSvc.Lsp.Message
import FullstackSvc.Lsp.ResponseBuffer
import FullstackSvc.Text.Ulid

/-!
# From the client to the container

What the client sends as `lsp-message` is rewritten by `handleLSPMessage` and
written to the socket as UTF-8.  The header counts UTF-16 units, the reader on
the other side counts bytes.

* `cutFrame_frameOf`: an ASCII message is one frame.
* `cutFrame_frameOf_of_not_ascii`: any other message is cut short, and what is
  left over begins the next frame.
* `drain_leftover`: after that the reader throws, or waits forever.
* `decodeStream_frames_iff`: **the stream is read back exactly when all of it is
  ASCII**.
-/

namespace FullstackSvc.Lsp

open Text FullstackSvc.Stream

variable {N : Type}

/-- `/lsp-files/${sessionId}`, the workspace root that `createSession` and
`startContainer` put into the record of a session. -/
def sessionRoot (sessionId : JsString) : JsString := js "/lsp-files/" ++ sessionId

section Channel

variable (T : NumText N)

/-- What `_sendLspMessage` and `handleLSPMessage` put on the socket for a
message. -/
def writtenBytes (workspaceRoot : JsString) (m : ClientMessage) : Bytes :=
  utf8Encode (transformMessage T (LspMessage.format T (m.jsonRpc T)) workspaceRoot)

def clientStream (workspaceRoot : JsString) (ms : List ClientMessage) : Bytes :=
  (ms.map (writtenBytes T workspaceRoot)).flatten

/-- The body of a frame, as a server reads it. -/
def decodeFrame (raw : Bytes) : Option (Json N) :=
  match indexOf crlfCrlf raw with
  | none => none
  | some headerEnd => readText T.read dartDefine (utf8Decode (raw.drop (headerEnd + 4)))

/-- All of a stream, with nothing left over. -/
def decodeStream (bytes : Bytes) : Option (List (Json N)) :=
  let fed := responseCutter.drain bytes
  if fed.bad = true ∨ fed.buffer ≠ [] then none else fed.emitted.mapM (decodeFrame T)

/-- A value with the header that `transformMessage` computes, as bytes. -/
def frameOf (v : Json N) : Bytes :=
  utf8Encode (headerLine (stringify T.js v).length) ++
    (crlfCrlf ++ utf8Encode (stringify T.js v))

end Channel

variable {T : NumText N}

/-! ### The bytes of one message -/

theorem indexOf_headerEnd {h : JsString} (hcr : (13 : UInt16) ∉ h) (t : JsString) :
    indexOf headerEnd (h ++ (headerEnd ++ t)) = some h.length := by
  rw [← List.append_assoc]
  exact indexOf_cons_of_not_mem hcr t

theorem drop_header (h t : JsString) : (h ++ (headerEnd ++ t)).drop (h.length + 4) = t := by
  rw [← List.append_assoc]
  exact List.drop_left' (by rw [List.length_append]; rfl)

theorem format_eq (fields : List (JsString × Json N)) : LspMessage.format T fields =
    headerLine (stringify T.dart (.obj fields)).length ++
      (headerEnd ++ stringify T.dart (.obj fields)) := by
  rw [LspMessage.format, ← List.append_assoc]
  rfl

/-- The gateway parses the body that the client wrote. -/
theorem readText_dart {fields : List (JsString × Json N)} (hplain : Plain (.obj fields)) :
    readText T.read jsDefine (stringify T.dart (.obj fields)) = some (.obj fields) :=
  readText_stringify T.read_dart T.dart_ne_nil T.dart_num
    (canonical_of_plain appends_jsDefine _ hplain)

/-- **`LspMessage.parse` undoes `LspMessage.format`.** -/
theorem parse_format {fields : List (JsString × Json N)} (hplain : Plain (.obj fields)) :
    LspMessage.parse T (LspMessage.format T fields) = some fields := by
  have hne : stringify T.dart (.obj fields) ≠ [] := by
    rw [stringify]
    exact List.cons_ne_nil _ _
  have hread : readText T.read dartDefine (stringify T.dart (.obj fields)) = some (.obj fields) :=
    readText_stringify T.read_dart T.dart_ne_nil T.dart_num
      (canonical_of_plain appends_dartDefine _ hplain)
  rw [format_eq, LspMessage.parse, indexOf_headerEnd (cr_not_mem_headerLine _)]
  simp only [drop_header, if_neg hne, hread]

/-- A message the client formats is read and rewritten. -/
theorem transformMessage_format (R : JsString) {fields : List (JsString × Json N)}
    (hplain : Plain (.obj fields)) :
    transformMessage T (LspMessage.format T fields) R =
      headerLine (stringify T.js (transformUris R (.obj fields))).length ++
        (headerEnd ++ stringify T.js (transformUris R (.obj fields))) := by
  have hne : stringify T.dart (.obj fields) ≠ [] := by
    rw [stringify]
    exact List.cons_ne_nil _ _
  rw [format_eq, transformMessage, indexOf_headerEnd (cr_not_mem_headerLine _)]
  simp only [drop_header, if_neg hne, readText_dart hplain]
  rw [List.append_assoc]
  rfl

theorem utf8Encode_message (n : Nat) (s : JsString) :
    utf8Encode (headerLine n ++ (headerEnd ++ s)) =
      utf8Encode (headerLine n) ++ (crlfCrlf ++ utf8Encode s) := by
  rw [utf8Encode_append (wellFormed_of_ascii (headerLine_ascii n)),
    utf8Encode_append (wellFormed_of_ascii (by decide))]
  rfl

theorem writtenBytes_eq (R : JsString) (m : ClientMessage) :
    writtenBytes T R m = frameOf T (transformUris R (.obj (m.jsonRpc T))) := by
  rw [writtenBytes, transformMessage_format R (m.plain_jsonRpc T), utf8Encode_message, frameOf]

/-! ### Reading a frame -/

theorem cr_not_mem_header_bytes (n : Nat) : (13 : UInt8) ∉ utf8Encode (headerLine n) := by
  rw [utf8Encode_ascii (headerLine_ascii n)]
  intro h
  obtain ⟨u, hu, he⟩ := List.mem_map.mp h
  have hlt := headerLine_ascii n u hu
  have h13 : u.toNat = 13 := by
    have := congrArg UInt8.toNat he
    rw [UInt8.toNat_ofNat', Nat.mod_eq_of_lt (by omega)] at this
    exact this
  have hu13 : u = 13 := UInt16.toNat_inj.mp h13
  exact cr_not_mem_headerLine n (hu13 ▸ hu)

theorem cr_not_mem_body_bytes (v : Json N) : (13 : UInt8) ∉ utf8Encode (stringify T.js v) := by
  intro h13
  have hunit := mem_utf8Decode_of_ascii (by decide) h13
  rw [utf8Decode_utf8Encode (wellFormed_stringify T.js_num _)] at hunit
  exact cr_not_mem_stringify T.js_num _ hunit

/-- **An ASCII message is one frame.** -/
theorem cutFrame_frameOf {v : Json N} (h : Ascii (stringify T.js v)) :
    cutFrame (frameOf T v) = .frame (frameOf T v) [] := by
  have hlen := (length_eq_utf8Encode_iff _).mpr h
  have hcut := cutFrame_frame (cr_not_mem_header_bytes (stringify T.js v).length)
    (contentLength_header _) (Nat.le_of_eq hlen.symm)
  rw [← hlen, List.take_length, List.drop_length] at hcut
  rw [frameOf, ← hlen, hcut]

theorem decodeFrame_frameOf {v : Json N} (hv : Canonical dartDefine v) :
    decodeFrame T (frameOf T v) = some v := by
  have hdrop : (frameOf T v).drop ((utf8Encode (headerLine (stringify T.js v).length)).length + 4)
      = utf8Encode (stringify T.js v) := by
    rw [frameOf, ← List.append_assoc]
    exact List.drop_left' (by rw [List.length_append]; rfl)
  rw [decodeFrame, frameOf, indexOf_crlfCrlf (cr_not_mem_header_bytes _), ← frameOf]
  simp only [hdrop]
  rw [utf8Decode_utf8Encode (wellFormed_stringify T.js_num v)]
  exact readText_stringify T.read_js T.js_ne_nil T.js_num hv

/-- The last byte of a string that ends in an ASCII unit. -/
theorem utf8Encode_concat {u : UInt16} (hu : u.toNat < 0x80) (s : JsString) :
    ∃ b, utf8Encode (s ++ [u]) = b ++ [UInt8.ofNat u.toNat] := by
  have hl : isLow u = false := decide_eq_false (by omega)
  have hone : utf8Encode [u] = [UInt8.ofNat u.toNat] :=
    utf8Encode_ascii (ascii_cons.mpr ⟨hu, fun v hv => by simp at hv⟩)
  fun_induction utf8Encode s with
  | case1 => exact ⟨[], hone⟩
  | case2 v =>
    rw [List.singleton_append, utf8Encode, hl, Bool.and_false, if_neg (by decide), hone]
    exact ⟨_, rfl⟩
  | case3 v w t hp ih =>
    obtain ⟨b, hb⟩ := ih
    rw [List.cons_append, List.cons_append, utf8Encode, if_pos hp, hb, ← List.append_assoc]
    exact ⟨_, rfl⟩
  | case4 v w t hp ih =>
    obtain ⟨b, hb⟩ := ih
    rw [List.cons_append] at hb
    rw [List.cons_append, List.cons_append, utf8Encode, if_neg hp, hb, ← List.append_assoc]
    exact ⟨_, rfl⟩

theorem stringifyMoreFields_concat (print : N → JsString) (fs : List (JsString × Json N)) :
    ∃ s, stringifyMoreFields print fs = s ++ [125] := by
  induction fs with
  | nil => exact ⟨[], by rw [stringifyMoreFields]; rfl⟩
  | cons f fs ih =>
    obtain ⟨s, hs⟩ := ih
    rw [stringifyMoreFields, hs]
    exact ⟨44 :: (quote f.1 ++ 58 :: (stringify print f.2 ++ s)), by simp⟩

theorem stringify_obj_concat (print : N → JsString) (fields : List (JsString × Json N)) :
    ∃ s, stringify print (.obj fields) = s ++ [125] := by
  cases fields with
  | nil => exact ⟨[123], by rw [stringify, stringifyFields]; rfl⟩
  | cons f fs =>
    obtain ⟨s, hs⟩ := stringifyMoreFields_concat print fs
    rw [stringify, stringifyFields, hs]
    exact ⟨123 :: (quote f.1 ++ 58 :: (stringify print f.2 ++ s)), by simp⟩

/-- **Any other message is cut short**: the header promises fewer bytes than
there are, and the end of the body is left over. -/
theorem cutFrame_frameOf_of_not_ascii {fields : List (JsString × Json N)}
    (h : ¬ Ascii (stringify T.js (.obj fields))) :
    ∃ raw tail, (13 : UInt8) ∉ tail ∧ (125 : UInt8) ∈ tail ∧
      ∀ t, cutFrame (frameOf T (.obj fields) ++ t) = .frame raw (tail ++ t) := by
  have hlt := (length_utf8Encode (stringify T.js (.obj fields))).2 h
  have hcr := cr_not_mem_body_bytes (T := T) (.obj fields)
  obtain ⟨s, hs⟩ := stringify_obj_concat T.js fields
  obtain ⟨b, hb⟩ := utf8Encode_concat (u := 125) (by decide) s
  rw [← hs] at hb
  have hbrace : (125 : UInt8) ∈ (utf8Encode (stringify T.js (.obj fields))).drop
      (stringify T.js (.obj fields)).length := by
    have hle : (stringify T.js (.obj fields)).length ≤ b.length := by
      rw [hb, List.length_append, List.length_singleton] at hlt
      omega
    rw [hb, List.drop_append_of_le_length hle]
    exact List.mem_append_right _ (List.mem_singleton.mpr rfl)
  refine ⟨utf8Encode (headerLine (stringify T.js (.obj fields)).length) ++ (crlfCrlf ++
    (utf8Encode (stringify T.js (.obj fields))).take (stringify T.js (.obj fields)).length),
    _, fun h13 => hcr (List.mem_of_mem_drop h13), hbrace, fun t => ?_⟩
  have hlong : (stringify T.js (.obj fields)).length ≤
      (utf8Encode (stringify T.js (.obj fields)) ++ t).length := by
    rw [List.length_append]
    omega
  have := cutFrame_frame (cr_not_mem_header_bytes (stringify T.js (.obj fields)).length)
    (contentLength_header _) hlong
  rw [frameOf, List.append_assoc, List.append_assoc, this,
    List.take_append_of_le_length (by omega), List.drop_append_of_le_length (by omega)]

/-- **What is left over is never read**: alone it has no header block, and
before a further message its block does not match. -/
theorem drain_leftover {tail : Bytes} (hcr : (13 : UInt8) ∉ tail) (hbrace : (125 : UInt8) ∈ tail)
    (vs : List (Json N)) :
    (responseCutter.drain (tail ++ (vs.map (frameOf T)).flatten)).bad = true ∨
      (responseCutter.drain (tail ++ (vs.map (frameOf T)).flatten)).buffer ≠ [] := by
  have hne : tail ≠ [] := List.ne_nil_of_mem hbrace
  cases vs with
  | nil =>
    have hwait : cutFrame tail = .wait := by rw [cutFrame, crlfCrlf, indexOf_none_of_not_mem hcr]
    rw [List.map_nil, List.flatten_nil, List.append_nil,
      Cutter.drain_of_wait (C := responseCutter) hwait]
    exact Or.inr hne
  | cons v vs =>
    have hblock : (13 : UInt8) ∉ tail ++ utf8Encode (headerLine (stringify T.js v).length) := by
      intro h
      rcases List.mem_append.mp h with h | h
      · exact hcr h
      · exact cr_not_mem_header_bytes _ h
    have hnone : contentLength (tail ++ utf8Encode (headerLine (stringify T.js v).length)) = none :=
      contentLength_none hblock (List.mem_append_left _ hbrace) (by decide) (by decide) (by decide)
        (by decide)
    have hbad : cutFrame (tail ++ ((v :: vs).map (frameOf T)).flatten) = .bad := by
      rw [List.map_cons, List.flatten_cons, frameOf, List.append_assoc, List.append_assoc,
        ← List.append_assoc tail]
      exact cutFrame_of_no_length (indexOf_crlfCrlf hblock _) hnone
    rw [Cutter.drain_of_bad (C := responseCutter) hbad]
    exact Or.inl rfl

/-! ### Reading the stream -/

theorem mapM_eq_some_map {α β : Type} {f : α → Option β} {g : β → α} {l : List β}
    (h : ∀ b ∈ l, f (g b) = some b) : (l.map g).mapM f = some l := by
  induction l with
  | nil => rfl
  | cons b l ih =>
    rw [List.map_cons, List.mapM_cons, h b List.mem_cons_self,
      ih fun c hc => h c (List.mem_cons_of_mem _ hc)]
    rfl

/-- One message that is not ASCII spoils the stream. -/
theorem decodeStream_of_not_ascii {pre post : List (Json N)} {fields : List (JsString × Json N)}
    (hpre : ∀ v ∈ pre, Ascii (stringify T.js v)) (h : ¬ Ascii (stringify T.js (.obj fields))) :
    decodeStream T ((pre ++ .obj fields :: post).map (frameOf T)).flatten = none := by
  obtain ⟨raw, tail, hcr, hbrace, hcut⟩ := cutFrame_frameOf_of_not_ascii h
  have hframes : ∀ f ∈ pre.map (frameOf T), responseCutter.cut f = .frame f [] := by
    intro f hf
    obtain ⟨v, hv, rfl⟩ := List.mem_map.mp hf
    exact cutFrame_frameOf (hpre v hv)
  have hstep := Cutter.drain_of_frame (C := responseCutter) (hcut (post.map (frameOf T)).flatten)
  rw [decodeStream, List.map_append, List.map_cons, List.flatten_append, List.flatten_cons,
    Cutter.drain_frames hframes, hstep]
  exact if_pos (drain_leftover hcr hbrace post)

/-- **The stream is read back exactly when all of it is ASCII.** -/
theorem decodeStream_frames_iff {vs : List (Json N)} (hobj : ∀ v ∈ vs, ∃ fs, v = .obj fs)
    (hcanon : ∀ v ∈ vs, Canonical dartDefine v) :
    decodeStream T (vs.map (frameOf T)).flatten = some vs ↔
      ∀ v ∈ vs, Ascii (stringify T.js v) := by
  constructor
  · intro h
    by_contra hn
    have hex : ∃ pre v post, vs = pre ++ v :: post ∧ (∀ w ∈ pre, Ascii (stringify T.js w)) ∧
        ¬ Ascii (stringify T.js v) := by
      have hfind : ∃ v ∈ vs, (decide (¬ Ascii (stringify T.js v))) = true := by
        by_contra hall
        exact hn fun v hv => by
          by_contra hva
          exact hall ⟨v, hv, decide_eq_true hva⟩
      obtain ⟨v, hv⟩ := List.find?_isSome.mpr hfind |> Option.isSome_iff_exists.mp
      obtain ⟨hbad, pre, post, rfl, hpre⟩ := List.find?_eq_some_iff_append.mp hv
      refine ⟨pre, v, post, rfl, fun w hw => ?_, of_decide_eq_true hbad⟩
      have := hpre w hw
      simpa using this
    obtain ⟨pre, v, post, rfl, hpre, hv⟩ := hex
    obtain ⟨fs, rfl⟩ := hobj v (by simp)
    rw [decodeStream_of_not_ascii hpre hv] at h
    cases h
  · intro h
    have hframes : ∀ f ∈ vs.map (frameOf T), responseCutter.cut f = .frame f [] := by
      intro f hf
      obtain ⟨v, hv, rfl⟩ := List.mem_map.mp hf
      exact cutFrame_frameOf (h v hv)
    have hd := Cutter.drain_frames hframes []
    have hnil : responseCutter.drain [] = ⟨[], [], false⟩ := rfl
    rw [List.append_nil, hnil] at hd
    rw [decodeStream, hd, List.append_nil]
    exact mapM_eq_some_map fun v hv => decodeFrame_frameOf (hcanon v hv)

/-! ### What rewriting does to the strings -/

/-- Rewriting a client URI neither makes nor removes a unit that is not ASCII. -/
theorem ascii_escape_transformUri {R : JsString} (hR : Ascii R) (hdollar : (36 : UInt16) ∉ R)
    (s : JsString) : Ascii (escape (transformUri R s)) ↔ Ascii (escape s) := by
  have hfile : Ascii (js "file://" ++ R) := ascii_append.mpr ⟨by decide, hR⟩
  rcases transformUri_cases R s with ⟨t, rfl, he⟩ | ⟨rfl, he⟩ | he
  · have hr : Ascii (js "file://" ++ R ++ js "/") := ascii_append.mpr ⟨hfile, by decide⟩
    have hd : (36 : UInt16) ∉ js "file://" ++ R ++ js "/" := by
      simp only [List.mem_append, not_or]
      exact ⟨⟨by decide, hdollar⟩, by decide⟩
    have hw : Ascii (js "file:///workspace/") := by decide
    rw [he, expandReplacement_of_not_mem hd, escape_append_of_ascii hr, escape_append_of_ascii hw,
      ascii_append, ascii_append]
    exact and_congr_left fun _ => iff_of_true (ascii_escape hr) (ascii_escape hw)
  · rw [he]
    exact iff_of_true (ascii_escape hfile) (by decide)
  · rw [he]

theorem sessionRoot_ascii {sessionId : JsString} (h : UlidText sessionId) :
    Ascii (sessionRoot sessionId) :=
  ascii_append.mpr ⟨by decide, h.ascii⟩

theorem dollar_not_mem_sessionRoot {sessionId : JsString} (h : UlidText sessionId) :
    (36 : UInt16) ∉ sessionRoot sessionId := by
  intro hm
  rcases List.mem_append.mp hm with hm | hm
  · exact absurd hm (by decide)
  · exact h.not_mem (by decide) hm

/-- The rewritten message is written in ASCII exactly when its texts are. -/
theorem ascii_stringify_rewritten_iff {R : JsString} (hR : Ascii R) (hdollar : (36 : UInt16) ∉ R)
    (m : ClientMessage) : Ascii (stringify T.js (transformUris R (.obj (m.jsonRpc T)))) ↔
      ∀ s ∈ m.texts, AsciiText s := by
  have hplain := m.plain_jsonRpc T
  rw [transformUris, transformStrings_eq_mapStr _ _ (canonical_of_plain appends_assign _ hplain),
    ascii_stringify_iff T.js_num, all_mapStr_iff (ascii_escape_transformUri hR hdollar),
    ClientMessage.all_jsonRpc_iff T fun s hs => ascii_escape hs]
  refine forall₂_congr fun s _ => ?_
  rw [← ascii_js_iff]
  exact ⟨ascii_of_ascii_escape (wellFormed_js s), ascii_escape⟩

theorem canonical_rewritten (R : JsString) (m : ClientMessage) :
    Canonical dartDefine (transformUris R (.obj (m.jsonRpc T))) := by
  have hplain := m.plain_jsonRpc T
  rw [transformUris, transformStrings_eq_mapStr _ _ (canonical_of_plain appends_assign _ hplain)]
  exact canonical_mapStr natural_dartDefine _ _ (canonical_of_plain appends_dartDefine _ hplain)

theorem rewritten_obj (R : JsString) (m : ClientMessage) :
    ∃ fs, transformUris R (.obj (m.jsonRpc T)) = .obj fs := ⟨_, by
  rw [transformUris, transformStrings]⟩

/-- The stream of a session, with any root that an id can give. -/
theorem decodeStream_clientStream_iff {R : JsString} (hR : Ascii R) (hdollar : (36 : UInt16) ∉ R)
    (ms : List ClientMessage) :
    decodeStream T (clientStream T R ms) =
        some (ms.map fun m => transformUris R (.obj (m.jsonRpc T))) ↔
      ∀ m ∈ ms, ∀ s ∈ m.texts, AsciiText s := by
  have hstream : clientStream T R ms =
      ((ms.map fun m => transformUris R (.obj (m.jsonRpc T))).map (frameOf T)).flatten := by
    rw [clientStream, List.map_map]
    exact congrArg List.flatten (List.map_congr_left fun m _ => writtenBytes_eq R m)
  rw [hstream, decodeStream_frames_iff]
  · rw [List.forall_mem_map]
    exact forall₂_congr fun m _ => ascii_stringify_rewritten_iff hR hdollar m
  · rw [List.forall_mem_map]
    exact fun m _ => rewritten_obj R m
  · rw [List.forall_mem_map]
    exact fun m _ => canonical_rewritten R m

/-- **The channel from the client is faithful exactly for ASCII.**  On the
session `sessionId`, the bytes of the messages are read back as the rewritten
messages, with nothing left over, if and only if every text in them is ASCII. -/
theorem client_channel_faithful_iff_ascii (T : NumText N) {sessionId : JsString}
    (hid : UlidText sessionId) (ms : List ClientMessage) :
    decodeStream T (clientStream T (sessionRoot sessionId) ms) =
        some (ms.map fun m => transformUris (sessionRoot sessionId) (.obj (m.jsonRpc T))) ↔
      ∀ m ∈ ms, ∀ s ∈ m.texts, AsciiText s :=
  decodeStream_clientStream_iff (sessionRoot_ascii hid) (dollar_not_mem_sessionRoot hid) ms

theorem client_channel_faithful_of_plain_document :
    decodeStream intText (clientStream intText (sessionRoot (js "01ARZ3NDEKTSV4RRFFQ69G5FAV"))
        [.didOpenNotification "file:///workspace/main.dart" "dart" 1 "void main() {}"]) =
      some [transformUris (sessionRoot (js "01ARZ3NDEKTSV4RRFFQ69G5FAV"))
        (.obj (LspMessage.createDidOpenNotification intText "file:///workspace/main.dart" "dart" 1
          "void main() {}"))] :=
  (client_channel_faithful_iff_ascii intText (by decide) _).mpr (by decide)

/-- A document with one accented letter, and a request after it. -/
theorem client_channel_loses_accented_document :
    decodeStream intText (clientStream intText (sessionRoot (js "01ARZ3NDEKTSV4RRFFQ69G5FAV"))
        [.didOpenNotification "file:///workspace/main.dart" "dart" 1 "// é",
          .definitionRequest 2 "file:///workspace/main.dart" 0 0]) ≠
      some ([.didOpenNotification "file:///workspace/main.dart" "dart" 1 "// é",
          .definitionRequest 2 "file:///workspace/main.dart" 0 0].map fun m =>
        transformUris (sessionRoot (js "01ARZ3NDEKTSV4RRFFQ69G5FAV"))
          (.obj (ClientMessage.jsonRpc intText m))) := by
  intro h
  have hid : UlidText (js "01ARZ3NDEKTSV4RRFFQ69G5FAV") := by decide
  have := (decodeStream_clientStream_iff (sessionRoot_ascii hid)
    (dollar_not_mem_sessionRoot hid) _).mp h
  exact absurd this (by decide)

end FullstackSvc.Lsp
