import Mathlib.Data.List.Basic
import FullstackSvc.Lsp.ResponseBuffer

/-!
# Frames come out as they were encoded

An encoder is free in how it writes a header block: the letters of
`Content-Length` in any case, blanks around the number wherever the pattern has
`\\s*`, zeros before it, and other lines before and after (`EncodedFrame`).  The
body is any bytes.

* `EncodedFrame.contentLength_header`: the length is read from the block, past
  the lines before it.
* `EncodedFrame.cut_bytes`: `onData` cuts such a frame as it stands.
* `onData_undoes_encoding`: **however their bytes are cut into chunks, the
  frames are emitted byte for byte and in order**, the buffer ends empty, and
  `onData` never throws.

A blank may be a carriage return, as the pattern has it, as long as the line
stays one line.  The number is read as the decimal that it is: `parseInt` is
exact below `2 ^ 53`, beyond any length of a `Buffer`.
-/

namespace FullstackSvc.Lsp

open Text FullstackSvc.Stream

/-- A line `/^Content-Length:\s*(\d+)\s*$/i` that announces `n` bytes. -/
structure LengthLine (n : Nat) where
  name : JsString
  left : JsString
  digits : JsString
  right : JsString
  name_eq : name.map lower = js "content-length:"
  left_blank : ∀ u ∈ left, isSpace u = true
  digits_ne : digits ≠ []
  digits_digit : ∀ u ∈ digits, isDigit u = true
  right_blank : ∀ u ∈ right, isSpace u = true
  one_line : ¬ [13, 10] <:+: name ++ (left ++ (digits ++ right))
  value : parseDecimal digits = n

/-- Any other line of a header block. -/
structure OtherLine where
  text : JsString
  ne_nil : text ≠ []
  printable : ∀ u ∈ text, 32 ≤ u.toNat ∧ u.toNat ≤ 126
  no_match : execContentLength text = none

structure EncodedFrame where
  before : List OtherLine
  body : Bytes
  lengthLine : LengthLine body.length
  after : List OtherLine

/-! ### The units of the lines -/

theorem lower_lt {u : UInt16} (h : (lower u).toNat < 0x80) : u.toNat < 0x80 := by
  unfold lower at h
  split at h
  · omega
  · exact h

theorem scalar_of_isSpace {u : UInt16} (h : isSpace u = true) : Scalar u.toNat := by
  simp only [isSpace, Bool.or_eq_true, Bool.and_eq_true, decide_eq_true_eq, beq_iff_eq] at h
  unfold Scalar
  rcases h with (((((((((h | rfl) | rfl) | rfl) | h) | rfl) | rfl) | rfl) | rfl) | rfl) | rfl
  all_goals first | omega | decide

namespace LengthLine

variable {n : Nat}

def text (l : LengthLine n) : JsString := l.name ++ (l.left ++ (l.digits ++ l.right))

theorem execContentLength_text (l : LengthLine n) : execContentLength l.text = some l.digits :=
  execContentLength_line l.name_eq l.left_blank l.digits_ne l.digits_digit l.right_blank

theorem text_ne_nil (l : LengthLine n) : l.text ≠ [] := by
  intro h
  have hname := l.name_eq
  rw [(List.append_eq_nil_iff.mp h).1] at hname
  cases hname

theorem basic_text (l : LengthLine n) : Basic l.text := by
  have hname : Ascii (l.name.map lower) := by
    rw [l.name_eq]
    decide
  intro u hu
  rcases List.mem_append.mp hu with hu | hu
  · exact basic_of_ascii (fun v hv => lower_lt (hname _ (List.mem_map_of_mem hv))) u hu
  · rcases List.mem_append.mp hu with hu | hu
    · exact scalar_of_isSpace (l.left_blank u hu)
    · rcases List.mem_append.mp hu with hu | hu
      · have := of_decide_eq_true (l.digits_digit u hu)
        exact Or.inl (by omega)
      · exact scalar_of_isSpace (l.right_blank u hu)

end LengthLine

/-! ### A frame -/

namespace EncodedFrame

def lines (f : EncodedFrame) : List JsString :=
  f.before.map OtherLine.text ++ f.lengthLine.text :: f.after.map OtherLine.text

def header (f : EncodedFrame) : Bytes := utf8Encode (joinLines [13, 10] f.lines)

/-- The bytes on the socket: the header block, a blank line, the body. -/
def bytes (f : EncodedFrame) : Bytes := f.header ++ (crlfCrlf ++ f.body)

theorem lines_ne_nil (f : EncodedFrame) : f.lines ≠ [] :=
  List.append_ne_nil_of_right_ne_nil _ (List.cons_ne_nil _ _)

/-- Every line is one line, of code points. -/
theorem lines_plain (f : EncodedFrame) :
    ∀ l ∈ f.lines, l ≠ [] ∧ ¬ [13, 10] <:+: l ∧ Basic l := by
  have hother : ∀ o : OtherLine, o.text ≠ [] ∧ ¬ [13, 10] <:+: o.text ∧ Basic o.text := by
    intro o
    refine ⟨o.ne_nil, no_pair_of_not_mem fun h => ?_, fun u hu => ?_⟩
    · exact absurd (o.printable 13 h).1 (by decide)
    · have := (o.printable u hu).2
      exact Or.inl (by omega)
  intro l hl
  rcases List.mem_append.mp hl with hl | hl
  · obtain ⟨o, -, rfl⟩ := List.mem_map.mp hl
    exact hother o
  · rcases List.mem_cons.mp hl with rfl | hl
    · exact ⟨f.lengthLine.text_ne_nil, f.lengthLine.one_line, f.lengthLine.basic_text⟩
    · obtain ⟨o, -, rfl⟩ := List.mem_map.mp hl
      exact hother o

theorem basic_block (f : EncodedFrame) : Basic (joinLines [13, 10] f.lines) := by
  intro u hu
  rcases mem_joinLines hu with hu | ⟨l, hl, hu⟩
  · have hsep : Ascii [13, 10] := by decide
    exact basic_of_ascii hsep u hu
  · exact (f.lines_plain l hl).2.2 u hu

/-- **The length read from the block** is that of the body: the lines before it
do not match. -/
theorem contentLength_header (f : EncodedFrame) :
    contentLength f.header = some f.body.length := by
  have hbefore : (f.before.map OtherLine.text).findSome?
      (fun line => (execContentLength line).map parseDecimal) = none := by
    rw [List.findSome?_eq_none_iff]
    intro l hl
    obtain ⟨o, -, rfl⟩ := List.mem_map.mp hl
    rw [o.no_match]
    rfl
  rw [contentLength, header, utf8Decode_utf8Encode (wellFormed_of_basic f.basic_block),
    splitCrlf_joinLines f.lines_ne_nil fun l hl => (f.lines_plain l hl).2.1, lines,
    List.findSome?_append, hbefore, Option.none_or, List.findSome?_cons,
    f.lengthLine.execContentLength_text]
  exact congrArg some f.lengthLine.value

/-- The header block ends where the encoder ended it. -/
theorem indexOf_bytes (f : EncodedFrame) : indexOf crlfCrlf f.bytes = some f.header.length := by
  have hmap := utf8Encode_joinLines (wellFormed_of_ascii (s := [13, 10]) (by decide))
    fun l hl => wellFormed_of_basic (f.lines_plain l hl).2.2
  rw [bytes, header, hmap]
  refine indexOf_joinLines (by decide) ?_ ?_ f.body
  · rw [ne_eq, List.map_eq_nil_iff]
    exact f.lines_ne_nil
  · intro m hm
    obtain ⟨l, hl, rfl⟩ := List.mem_map.mp hm
    obtain ⟨hne, hpair, hbasic⟩ := f.lines_plain l hl
    refine ⟨fun hnil => ?_, fun h => hpair (pair_of_utf8Encode (by decide) (by decide) hbasic h)⟩
    have := length_le_utf8Encode l
    rw [hnil] at this
    exact hne (List.length_eq_zero_iff.mp (Nat.le_zero.mp this))

/-- **A frame is cut as it stands.** -/
theorem cut_bytes (f : EncodedFrame) : responseCutter.cut f.bytes = .frame f.bytes [] :=
  cutFrame_whole f.indexOf_bytes f.contentLength_header

end EncodedFrame

/-! ### A stream of frames -/

/-- **Decoding undoes encoding**: the chunks of any frames, cut anywhere, make
`onData` emit these frames and leave an empty buffer. -/
theorem onData_undoes_encoding (frames : List EncodedFrame) (chunks : List Bytes)
    (h : chunks.flatten = (frames.map EncodedFrame.bytes).flatten) :
    responseCutter.feedAll [] chunks = ⟨frames.map EncodedFrame.bytes, [], false⟩ := by
  refine Cutter.feedAll_frames rfl ?_ h
  intro b hb
  obtain ⟨f, -, rfl⟩ := List.mem_map.mp hb
  exact f.cut_bytes

/-- A frame whose body is a blank line, with its length in odd letters and
blanks between two other lines. -/
def blankLineFrame : EncodedFrame where
  before := [⟨js "X-Trace: 7", by decide, forall_units (by decide +kernel), by decide +kernel⟩]
  body := crlfCrlf
  lengthLine := ⟨js "content-LENGTH:", [9, 0xA0], js "04", [32, 13], by decide +kernel,
    forall_units (by decide), by decide, forall_units (by decide), forall_units (by decide),
    by decide +kernel, by decide⟩
  after := [⟨js "Content-Length: none", by decide, forall_units (by decide +kernel), by decide +kernel⟩]

/-- Its chunks may end inside the separator, inside the number and inside a
blank of two bytes. -/
theorem onData_undoes_encoding_of_cut_frames :
    responseCutter.feedAll [] [blankLineFrame.bytes.take 29, (blankLineFrame.bytes.drop 29).take 28,
        blankLineFrame.bytes.drop 57 ++ blankLineFrame.bytes] =
      ⟨[blankLineFrame.bytes, blankLineFrame.bytes], [], false⟩ :=
  onData_undoes_encoding [blankLineFrame, blankLineFrame] _ (by decide +kernel)

end FullstackSvc.Lsp
