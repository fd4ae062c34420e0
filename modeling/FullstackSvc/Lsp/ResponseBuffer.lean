import Mathlib.Data.List.Basic
import Mathlib.Data.List.TakeWhile
import FullstackSvc.Stream.Cutter
import FullstackSvc.Text.Decimal
import FullstackSvc.Text.Search

/-!
# Framing of the container's bytes (`lsp-response-buffer.ts`)

`LspResponseBuffer.onData` appends a chunk to its buffer and cuts complete
messages off the front: a header block up to `\r\n\r\n`, in it the first line
that matches `/^Content-Length:\s*(\d+)\s*$/i`, and that many bytes of body.  A
header block without such a line makes `onData` throw, with the buffer as it is.

`responseCutter` is this loop as a `Cutter`, so chunking does not matter.  It
counts the bytes of the body, so it is also the decoder that any LSP server
uses for what the client sends.

* `execContentLength_line`: what the pattern matches, and the digits it reads.
* `contentLength_header`: the header that both languages write is read back.
* `contentLength_none`: a header block without line breaks that contains a unit
  foreign to the pattern makes `onData` throw.
* `cutFrame_frame`: a header with the right length and a body are one frame.
-/

namespace FullstackSvc.Lsp

open Text FullstackSvc.Stream

def crlfCrlf : Bytes := [13, 10, 13, 10]

/-! ### The header line -/

/-- The lower case of the `i` flag: without the `u` flag no other character
folds to an ASCII one. -/
def lower (u : UInt16) : UInt16 :=
  if 65 ≤ u.toNat ∧ u.toNat ≤ 90 then UInt16.ofNat (u.toNat + 32) else u

/-- `\s`. -/
def isSpace (u : UInt16) : Bool :=
  (9 ≤ u.toNat && u.toNat ≤ 13) || u == 32 || u == 0xA0 || u == 0x1680 ||
    (0x2000 ≤ u.toNat && u.toNat ≤ 0x200A) || u == 0x2028 || u == 0x2029 || u == 0x202F ||
    u == 0x205F || u == 0x3000 || u == 0xFEFF

/-- `/^Content-Length:\s*(\d+)\s*$/i.exec(line)`: the digits.  Digits are no
blanks, so there is one way to match. -/
def execContentLength (line : JsString) : Option JsString :=
  let t := (line.drop 15).dropWhile isSpace
  if (line.take 15).map lower = js "content-length:" ∧ t.takeWhile isDigit ≠ [] ∧
      (t.dropWhile isDigit).all isSpace = true then
    some (t.takeWhile isDigit)
  else none

/-- The length of the first line that has one. -/
def contentLength (headerPart : Bytes) : Option Nat :=
  (splitCrlf (utf8Decode headerPart)).findSome? fun line =>
    (execContentLength line).map parseDecimal

/-- A matching line is made of the letters of the name, blanks and digits. -/
theorem unit_of_execContentLength {line digits : JsString}
    (h : execContentLength line = some digits) {u : UInt16} (hu : u ∈ line) :
    lower u ∈ js "content-length:" ∨ isSpace u = true ∨ isDigit u = true := by
  simp only [execContentLength] at h
  split at h
  · rename_i hc
    obtain ⟨hname, -, hrest⟩ := hc
    rw [← List.take_append_drop 15 line, List.mem_append] at hu
    rcases hu with hu | hu
    · exact Or.inl (hname ▸ List.mem_map_of_mem hu)
    · rw [← List.takeWhile_append_dropWhile (p := isSpace) (l := line.drop 15),
        List.mem_append] at hu
      rcases hu with hu | hu
      · exact Or.inr (Or.inl (List.mem_takeWhile_imp hu))
      · rw [← List.takeWhile_append_dropWhile (p := isDigit)
          (l := (line.drop 15).dropWhile isSpace), List.mem_append] at hu
        rcases hu with hu | hu
        · exact Or.inr (Or.inr (List.mem_takeWhile_imp hu))
        · exact Or.inr (Or.inl (List.all_eq_true.mp hrest u hu))
  · cases h

theorem isSpace_of_isDigit {u : UInt16} (h : isDigit u = true) : isSpace u = false := by
  have hu := of_decide_eq_true h
  have hne : ∀ v : UInt16, ¬ (48 ≤ v.toNat ∧ v.toNat ≤ 57) → (u == v) = false := by
    intro v hv
    rw [beq_eq_false_iff_ne]
    rintro rfl
    exact hv hu
  have h1 : (decide (9 ≤ u.toNat) && decide (u.toNat ≤ 13)) = false := by
    rw [Bool.and_eq_false_iff]
    exact Or.inr (decide_eq_false (by omega))
  have h2 : (decide (0x2000 ≤ u.toNat) && decide (u.toNat ≤ 0x200A)) = false := by
    rw [Bool.and_eq_false_iff]
    exact Or.inl (decide_eq_false (by omega))
  rw [isSpace, h1, h2, hne _ (by decide), hne _ (by decide), hne _ (by decide), hne _ (by decide),
    hne _ (by decide), hne _ (by decide), hne _ (by decide), hne _ (by decide), hne _ (by decide)]
  rfl

/-- **A line with the name, blanks, digits and blanks matches**, and its digits
are read. -/
theorem execContentLength_line {name left digits right : JsString}
    (hname : name.map lower = js "content-length:") (hleft : ∀ u ∈ left, isSpace u = true)
    (hne : digits ≠ []) (hdigits : ∀ u ∈ digits, isDigit u = true)
    (hright : ∀ u ∈ right, isSpace u = true) :
    execContentLength (name ++ (left ++ (digits ++ right))) = some digits := by
  have hlen : name.length = 15 := by
    have := congrArg List.length hname
    rwa [List.length_map] at this
  have hblank : (left ++ (digits ++ right)).dropWhile isSpace = digits ++ right := by
    rw [List.dropWhile_append_of_pos hleft]
    obtain ⟨d, ds, rfl⟩ := List.exists_cons_of_ne_nil hne
    have hd := isSpace_of_isDigit (hdigits d List.mem_cons_self)
    exact List.dropWhile_cons_of_neg (by rw [hd]; decide)
  have hstop : right.takeWhile isDigit = [] ∧ right.dropWhile isDigit = right := by
    cases right with
    | nil => exact ⟨rfl, rfl⟩
    | cons u right =>
      have hu : ¬ isDigit u = true := by
        intro hd
        have := hright u List.mem_cons_self
        rw [isSpace_of_isDigit hd] at this
        cases this
      exact ⟨List.takeWhile_cons_of_neg hu, List.dropWhile_cons_of_neg hu⟩
  have htake : (name ++ (left ++ (digits ++ right))).take 15 = name := List.take_left' hlen
  have hdrop : (name ++ (left ++ (digits ++ right))).drop 15 = left ++ (digits ++ right) :=
    List.drop_left' hlen
  simp only [execContentLength]
  rw [htake, hdrop, hblank, List.takeWhile_append_of_pos hdigits,
    List.dropWhile_append_of_pos hdigits, hstop.1, hstop.2, List.append_nil,
    if_pos ⟨hname, hne, List.all_eq_true.mpr hright⟩]

/-- The line both languages write. -/
theorem execContentLength_decimal (n : Nat) :
    execContentLength (js "Content-Length: " ++ decimal n) = some (decimal n) := by
  have h := @execContentLength_line (js "Content-Length:") [32] (decimal n) [] (by decide)
    (forall_units (by decide)) (decimal_ne_nil n) (fun u hu => isDigit_decimal hu) (by simp)
  rwa [List.append_nil] at h

/-- The bytes of the header line. -/
def headerLine (n : Nat) : JsString := js "Content-Length: " ++ decimal n

theorem headerLine_ascii (n : Nat) : Ascii (headerLine n) :=
  ascii_append.mpr ⟨by decide, decimal_ascii n⟩

theorem cr_not_mem_headerLine (n : Nat) : (13 : UInt16) ∉ headerLine n := by
  intro h
  rcases List.mem_append.mp h with h | h
  · exact absurd h (by decide)
  · exact absurd (isDigit_decimal h) (by decide)

/-- **The header written is read back.** -/
theorem contentLength_header (n : Nat) : contentLength (utf8Encode (headerLine n)) = some n := by
  rw [contentLength, utf8Decode_utf8Encode (wellFormed_of_ascii (headerLine_ascii n)),
    splitCrlf_of_not_mem (cr_not_mem_headerLine n), List.findSome?_cons, headerLine,
    execContentLength_decimal]
  simp only [Option.map_some, parseDecimal_decimal]

/-- **A block without a line break is one line**, and a unit foreign to the
pattern keeps it from matching. -/
theorem contentLength_none {b : Bytes} (hcr : (13 : UInt8) ∉ b) {u : UInt8} (hu : u ∈ b)
    (hascii : u.toNat < 0x80) (hname : lower (UInt16.ofNat u.toNat) ∉ js "content-length:")
    (hspace : isSpace (UInt16.ofNat u.toNat) = false)
    (hdigit : isDigit (UInt16.ofNat u.toNat) = false) : contentLength b = none := by
  have hcr' : (13 : UInt16) ∉ utf8Decode b := by
    intro h
    obtain ⟨v, hv, he⟩ := mem_of_mem_utf8Decode (by decide) h
    have h13 : v = 13 := UInt8.toNat_inj.mp he.symm
    exact hcr (h13 ▸ hv)
  have hm : UInt16.ofNat u.toNat ∈ utf8Decode b := mem_utf8Decode_of_ascii hascii hu
  have hnone : execContentLength (utf8Decode b) = none := by
    cases h : execContentLength (utf8Decode b) with
    | none => rfl
    | some d =>
      rcases unit_of_execContentLength h hm with h | h | h
      · exact absurd h hname
      · rw [hspace] at h
        cases h
      · rw [hdigit] at h
        cases h
  rw [contentLength, splitCrlf_of_not_mem hcr', List.findSome?_cons, hnone]
  rfl

/-! ### The loop -/

/-- One turn of the loop of `onData`. -/
def cutFrame (buffer : Bytes) : Cut UInt8 :=
  match indexOf crlfCrlf buffer with
  | none => .wait
  | some headerEnd =>
    match contentLength (buffer.take headerEnd) with
    | none => .bad
    | some contentLength =>
      let frameLength := headerEnd + 4 + contentLength
      if buffer.length < frameLength then .wait
      else .frame (buffer.take frameLength) (buffer.drop frameLength)

theorem cutFrame_append {b raw rest : Bytes} (h : cutFrame b = .frame raw rest) :
    b = raw ++ rest ∧ raw ≠ [] := by
  unfold cutFrame at h
  split at h
  · cases h
  · split at h
    · cases h
    · simp only at h
      split at h
      · cases h
      · rename_i hlt
        obtain ⟨rfl, rfl⟩ := Cut.frame.inj h
        refine ⟨(List.take_append_drop _ _).symm, fun hnil => ?_⟩
        have := congrArg List.length hnil
        rw [List.length_take, List.length_nil] at this
        omega

theorem cutFrame_mono {b : Bytes} (c : Bytes) {n : Nat} (hn : indexOf crlfCrlf b = some n) :
    indexOf crlfCrlf (b ++ c) = some n ∧ (b ++ c).take n = b.take n := by
  have hle := (indexOf_eq_some hn).2
  exact ⟨indexOf_append hn c, List.take_append_of_le_length hle⟩

theorem cutFrame_frame_mono {b raw rest : Bytes} (c : Bytes) (h : cutFrame b = .frame raw rest) :
    cutFrame (b ++ c) = .frame raw (rest ++ c) := by
  unfold cutFrame at h ⊢
  split at h
  · cases h
  · rename_i n hn
    have hm := cutFrame_mono c hn
    split at h
    · cases h
    · rename_i m hlen
      simp only at h
      split at h
      · cases h
      · rename_i hlt
        obtain ⟨rfl, rfl⟩ := Cut.frame.inj h
        simp only [hm.1, hm.2, hlen]
        rw [if_neg (by rw [List.length_append]; omega),
          List.take_append_of_le_length (by omega), List.drop_append_of_le_length (by omega)]

theorem cutFrame_bad_mono {b : Bytes} (c : Bytes) (h : cutFrame b = .bad) :
    cutFrame (b ++ c) = .bad := by
  unfold cutFrame at h ⊢
  split at h
  · cases h
  · rename_i n hn
    have hm := cutFrame_mono c hn
    split at h
    · rename_i hlen
      simp only [hm.1, hm.2, hlen]
    · simp only at h
      split at h
      · cases h
      · cases h

/-- `LspResponseBuffer.onData`, as what cuts its buffer. -/
def responseCutter : Cutter UInt8 where
  cut := cutFrame
  cut_append h := (cutFrame_append h).1
  cut_ne_nil h := (cutFrame_append h).2
  frame_mono := cutFrame_frame_mono
  bad_mono := cutFrame_bad_mono

/-- The first `\r\n\r\n` after a block that does not reach into it. -/
theorem indexOf_crlfCrlf {b : Bytes} (h : (13 : UInt8) ∉ b) (t : Bytes) :
    indexOf crlfCrlf (b ++ (crlfCrlf ++ t)) = some b.length := by
  rw [← List.append_assoc]
  exact indexOf_cons_of_not_mem h t

/-- A header block without a length. -/
theorem cutFrame_of_no_length {header body : Bytes}
    (hi : indexOf crlfCrlf (header ++ (crlfCrlf ++ body)) = some header.length)
    (hn : contentLength header = none) : cutFrame (header ++ (crlfCrlf ++ body)) = .bad := by
  rw [cutFrame, hi]
  simp only [List.take_left, hn]

/-- A body that has not all come. -/
theorem cutFrame_of_short {header body : Bytes} {n : Nat}
    (hi : indexOf crlfCrlf (header ++ (crlfCrlf ++ body)) = some header.length)
    (hn : contentLength header = some n) (hb : body.length < n) :
    cutFrame (header ++ (crlfCrlf ++ body)) = .wait := by
  have hlen : (header ++ (crlfCrlf ++ body)).length = header.length + 4 + body.length := by
    rw [List.length_append, List.length_append, crlfCrlf]
    simp only [List.length_cons, List.length_nil]
    omega
  rw [cutFrame, hi]
  simp only [List.take_left, hn]
  rw [if_pos (by omega)]

/-- **One frame**, when the first separator ends the header and at least the
bytes that the header promises are there. -/
theorem cutFrame_of_indexOf {header body : Bytes} {n : Nat}
    (hi : indexOf crlfCrlf (header ++ (crlfCrlf ++ body)) = some header.length)
    (hn : contentLength header = some n) (hb : n ≤ body.length) :
    cutFrame (header ++ (crlfCrlf ++ body)) =
      .frame (header ++ (crlfCrlf ++ body.take n)) (body.drop n) := by
  have hlen : (header ++ (crlfCrlf ++ body)).length = header.length + 4 + body.length := by
    rw [List.length_append, List.length_append, crlfCrlf]
    simp only [List.length_cons, List.length_nil]
    omega
  have hfull : header ++ (crlfCrlf ++ body) =
      (header ++ (crlfCrlf ++ body.take n)) ++ body.drop n := by
    rw [List.append_assoc, List.append_assoc, List.take_append_drop]
  have hpre : (header ++ (crlfCrlf ++ body.take n)).length = header.length + 4 + n := by
    rw [List.length_append, List.length_append, List.length_take, crlfCrlf]
    simp only [List.length_cons, List.length_nil]
    omega
  rw [cutFrame, hi]
  simp only [List.take_left, hn]
  rw [if_neg (by omega), hfull, ← hpre, List.take_left, List.drop_left]

theorem cutFrame_frame {header : Bytes} {n : Nat} (hh : (13 : UInt8) ∉ header)
    (hn : contentLength header = some n) {body : Bytes} (hb : n ≤ body.length) :
    cutFrame (header ++ (crlfCrlf ++ body)) =
      .frame (header ++ (crlfCrlf ++ body.take n)) (body.drop n) :=
  cutFrame_of_indexOf (indexOf_crlfCrlf hh body) hn hb

/-- A frame and nothing else. -/
theorem cutFrame_whole {header body : Bytes}
    (hi : indexOf crlfCrlf (header ++ (crlfCrlf ++ body)) = some header.length)
    (hn : contentLength header = some body.length) :
    cutFrame (header ++ (crlfCrlf ++ body)) = .frame (header ++ (crlfCrlf ++ body)) [] := by
  rw [cutFrame_of_indexOf hi hn (Nat.le_refl _), List.take_length, List.drop_length]

end FullstackSvc.Lsp
