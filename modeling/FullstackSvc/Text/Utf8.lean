import Mathlib.Algebra.Group.Nat.Defs
import Mathlib.Data.List.Basic

/-!
# Strings as UTF-16, and their UTF-8 bytes

A JavaScript or Dart string is a list of UTF-16 code units; its `length` counts
units.  A byte buffer is a list of bytes.  `utf8Encode` is what a socket writes
for a string: a surrogate pair is one code point, a lone surrogate is written
as U+FFFD.  `utf8Decode` is `Buffer.toString('utf8')`: the decoder of the
encoding standard, one byte at a time, where every maximal bad part becomes one
U+FFFD.

* `utf8Decode_utf8Encode`: a well-formed string survives the two.
* `length_le_utf8Encode`, `length_eq_utf8Encode_iff`: the units of a string are
  no more than its bytes, and as many exactly when every unit is ASCII.
* `mem_utf8Decode_of_ascii`, `mem_of_mem_utf8Decode`: decoding neither loses an
  ASCII byte nor makes one up.
-/

namespace FullstackSvc.Text

/-- A string, by its UTF-16 code units. -/
abbrev JsString := List UInt16

instance (s : JsString) (l : List JsString) : Decidable (s ∈ l) := List.instDecidableMemOfLawfulBEq s l

abbrev Bytes := List UInt8

/-! ### Code points -/

/-- A code point that is not a surrogate. -/
def Scalar (cp : Nat) : Prop := cp < 0xD800 ∨ (0xE000 ≤ cp ∧ cp < 0x110000)

/-- The UTF-16 units of a code point. -/
def unitsOf (cp : Nat) : JsString :=
  if cp < 0x10000 then [UInt16.ofNat cp]
  else [UInt16.ofNat (0xD800 + (cp - 0x10000) / 0x400),
    UInt16.ofNat (0xDC00 + (cp - 0x10000) % 0x400)]

/-- A literal. -/
def js (s : String) : JsString := s.toList.flatMap fun c => unitsOf c.toNat

def isHigh (u : UInt16) : Bool := decide (0xD800 ≤ u.toNat ∧ u.toNat < 0xDC00)
def isLow (u : UInt16) : Bool := decide (0xDC00 ≤ u.toNat ∧ u.toNat < 0xE000)

/-- The string has no lone surrogate. -/
def WellFormed (s : JsString) : Prop := ∃ cps : List Nat, (∀ cp ∈ cps, Scalar cp) ∧
  s = cps.flatMap unitsOf

/-- Every unit is an ASCII character. -/
def Ascii (s : JsString) : Prop := ∀ u ∈ s, u.toNat < 0x80

instance (s : JsString) : Decidable (Ascii s) := List.decidableBAll _ s

/-- What holds of every unit, by evaluation. -/
theorem forall_units {s : JsString} {p : UInt16 → Prop} [DecidablePred p]
    (h : (s.all fun u => decide (p u)) = true) : ∀ u ∈ s, p u := fun u hu =>
  of_decide_eq_true (List.all_eq_true.mp h u hu)

theorem ascii_append {s t : JsString} : Ascii (s ++ t) ↔ Ascii s ∧ Ascii t := by
  simp only [Ascii, List.mem_append]
  constructor
  · exact fun h => ⟨fun u hu => h u (Or.inl hu), fun u hu => h u (Or.inr hu)⟩
  · rintro ⟨hs, ht⟩ u (hu | hu)
    · exact hs u hu
    · exact ht u hu

theorem ascii_cons {u : UInt16} {s : JsString} : Ascii (u :: s) ↔ u.toNat < 0x80 ∧ Ascii s := by
  simp [Ascii]

theorem wellFormed_append {s t : JsString} (hs : WellFormed s) (ht : WellFormed t) :
    WellFormed (s ++ t) := by
  obtain ⟨a, ha, rfl⟩ := hs
  obtain ⟨b, hb, rfl⟩ := ht
  refine ⟨a ++ b, fun cp h => ?_, by simp⟩
  rcases List.mem_append.mp h with h | h
  · exact ha cp h
  · exact hb cp h

/-- No unit is a surrogate: every unit is a code point. -/
def Basic (s : JsString) : Prop := ∀ u ∈ s, Scalar u.toNat

theorem basic_of_ascii {s : JsString} (h : Ascii s) : Basic s := by
  intro u hu
  have := h u hu
  exact Or.inl (by omega)

theorem wellFormed_of_basic {s : JsString} (h : Basic s) : WellFormed s := by
  refine ⟨s.map (·.toNat), ?_, ?_⟩
  · intro cp hcp
    obtain ⟨u, hu, rfl⟩ := List.mem_map.mp hcp
    exact h u hu
  · clear h
    induction s with
    | nil => rfl
    | cons u t ih =>
      rw [List.map_cons, List.flatMap_cons, ← ih, unitsOf, if_pos u.toNat_lt]
      simp

theorem wellFormed_of_ascii {s : JsString} (h : Ascii s) : WellFormed s :=
  wellFormed_of_basic (basic_of_ascii h)

theorem wellFormed_js (s : String) : WellFormed (js s) := by
  refine ⟨s.toList.map (·.toNat), ?_, by simp [js, List.flatMap_map]⟩
  intro cp hcp
  obtain ⟨c, _, rfl⟩ := List.mem_map.mp hcp
  have := c.valid
  simp only [UInt32.isValidChar, Nat.isValidChar] at this
  simp only [Scalar, Char.toNat]
  omega

/-! ### Encoding -/

/-- The UTF-8 bytes of a code point. -/
def utf8Point (cp : Nat) : Bytes :=
  if cp < 0x80 then [UInt8.ofNat cp]
  else if cp < 0x800 then [UInt8.ofNat (0xC0 + cp / 0x40), UInt8.ofNat (0x80 + cp % 0x40)]
  else if cp < 0x10000 then
    [UInt8.ofNat (0xE0 + cp / 0x1000), UInt8.ofNat (0x80 + cp / 0x40 % 0x40),
      UInt8.ofNat (0x80 + cp % 0x40)]
  else
    [UInt8.ofNat (0xF0 + cp / 0x40000), UInt8.ofNat (0x80 + cp / 0x1000 % 0x40),
      UInt8.ofNat (0x80 + cp / 0x40 % 0x40), UInt8.ofNat (0x80 + cp % 0x40)]

/-- The code point of a unit that is not part of a pair. -/
def lonePoint (u : UInt16) : Nat := if isHigh u || isLow u then 0xFFFD else u.toNat

/-- The code point of a surrogate pair. -/
def pairPoint (u v : UInt16) : Nat := 0x10000 + (u.toNat - 0xD800) * 0x400 + (v.toNat - 0xDC00)

/-- `Buffer.from(s, 'utf8')`. -/
def utf8Encode : JsString → Bytes
  | [] => []
  | [u] => utf8Point (lonePoint u)
  | u :: v :: t =>
    if isHigh u && isLow v then utf8Point (pairPoint u v) ++ utf8Encode t
    else utf8Point (lonePoint u) ++ utf8Encode (v :: t)

theorem utf8Encode_cons_of_not_high {u : UInt16} (h : isHigh u = false) (t : JsString) :
    utf8Encode (u :: t) = utf8Point (lonePoint u) ++ utf8Encode t := by
  cases t with
  | nil => simp [utf8Encode]
  | cons v t => rw [utf8Encode, h]; simp

theorem utf8Encode_pair {u v : UInt16} (hu : isHigh u = true) (hv : isLow v = true) (t : JsString) :
    utf8Encode (u :: v :: t) = utf8Point (pairPoint u v) ++ utf8Encode t := by
  rw [utf8Encode, hu, hv]
  exact if_pos rfl

/-- The two units of a code point beyond the first plane make up that code point. -/
theorem pairPoint_eq {u v : UInt16} {d : Nat} (hu : u.toNat = 0xD800 + d / 0x400)
    (hv : v.toNat = 0xDC00 + d % 0x400) : pairPoint u v = 0x10000 + d := by
  unfold pairPoint
  omega

theorem utf8Encode_unitsOf {cp : Nat} (h : Scalar cp) (t : JsString) :
    utf8Encode (unitsOf cp ++ t) = utf8Point cp ++ utf8Encode t := by
  by_cases hb : cp < 0x10000
  · have hn : (UInt16.ofNat cp).toNat = cp := by
      rw [UInt16.toNat_ofNat']
      exact Nat.mod_eq_of_lt (by omega)
    have hh : isHigh (UInt16.ofNat cp) = false := by
      rw [isHigh, hn]
      rcases h with h | h <;> exact decide_eq_false (by omega)
    have hl : isLow (UInt16.ofNat cp) = false := by
      rw [isLow, hn]
      rcases h with h | h <;> exact decide_eq_false (by omega)
    rw [unitsOf, if_pos hb, List.singleton_append, utf8Encode_cons_of_not_high hh, lonePoint, hh, hl,
      hn]
    rfl
  · have hc : cp < 0x110000 := by rcases h with h | h <;> omega
    have hu : (UInt16.ofNat (0xD800 + (cp - 0x10000) / 0x400)).toNat
        = 0xD800 + (cp - 0x10000) / 0x400 := by
      rw [UInt16.toNat_ofNat']
      exact Nat.mod_eq_of_lt (by omega)
    have hv : (UInt16.ofNat (0xDC00 + (cp - 0x10000) % 0x400)).toNat
        = 0xDC00 + (cp - 0x10000) % 0x400 := by
      rw [UInt16.toNat_ofNat']
      exact Nat.mod_eq_of_lt (by omega)
    have hhigh : isHigh (UInt16.ofNat (0xD800 + (cp - 0x10000) / 0x400)) = true := by
      rw [isHigh, hu]
      exact decide_eq_true (by omega)
    have hlow : isLow (UInt16.ofNat (0xDC00 + (cp - 0x10000) % 0x400)) = true := by
      rw [isLow, hv]
      exact decide_eq_true (by omega)
    have hp : pairPoint (UInt16.ofNat (0xD800 + (cp - 0x10000) / 0x400))
        (UInt16.ofNat (0xDC00 + (cp - 0x10000) % 0x400)) = cp :=
      (pairPoint_eq hu hv).trans (Nat.add_sub_cancel' (by omega))
    rw [unitsOf, if_neg hb, List.cons_append, List.singleton_append, utf8Encode_pair hhigh hlow, hp]

theorem utf8Encode_flatMap {cps : List Nat} (h : ∀ cp ∈ cps, Scalar cp) (t : JsString) :
    utf8Encode (cps.flatMap unitsOf ++ t) = cps.flatMap utf8Point ++ utf8Encode t := by
  induction cps with
  | nil => rfl
  | cons cp cps ih =>
    rw [List.flatMap_cons, List.flatMap_cons, List.append_assoc, List.append_assoc,
      utf8Encode_unitsOf (h cp (by simp)), ih fun c hc => h c (by simp [hc])]

/-- Encoding cuts at the end of a well-formed string. -/
theorem utf8Encode_append {s : JsString} (hs : WellFormed s) (t : JsString) :
    utf8Encode (s ++ t) = utf8Encode s ++ utf8Encode t := by
  obtain ⟨cps, hcps, rfl⟩ := hs
  have h := utf8Encode_flatMap hcps []
  rw [List.append_nil] at h
  rw [utf8Encode_flatMap hcps, h, utf8Encode, List.append_nil]

theorem utf8Encode_ascii {s : JsString} (h : Ascii s) :
    utf8Encode s = s.map fun u => UInt8.ofNat u.toNat := by
  induction s with
  | nil => rfl
  | cons u t ih =>
    rw [ascii_cons] at h
    have hh : isHigh u = false := decide_eq_false (by omega)
    have hl : isLow u = false := decide_eq_false (by omega)
    rw [utf8Encode_cons_of_not_high hh, ih h.2, lonePoint, hh, hl]
    simp [utf8Point, h.1]

theorem utf8Point_length (cp : Nat) : 1 ≤ (utf8Point cp).length ∧
    (0x80 ≤ cp → 2 ≤ (utf8Point cp).length) ∧ (0x10000 ≤ cp → (utf8Point cp).length = 4) := by
  unfold utf8Point
  split
  · exact ⟨Nat.le_refl _, fun h => by omega, fun h => by omega⟩
  · split
    · exact ⟨by simp, fun _ => by simp, fun h => by omega⟩
    · split
      · exact ⟨by simp, fun _ => by simp, fun h => by omega⟩
      · exact ⟨by simp, fun _ => by simp, fun _ => by simp⟩

theorem utf8Encode_cons {u : UInt16} (h : Scalar u.toNat) (t : JsString) :
    utf8Encode (u :: t) = utf8Point u.toNat ++ utf8Encode t := by
  have hh : isHigh u = false := by rcases h with h | h <;> exact decide_eq_false (by omega)
  have hl : isLow u = false := by rcases h with h | h <;> exact decide_eq_false (by omega)
  rw [utf8Encode_cons_of_not_high hh, lonePoint, hh, hl]
  rfl

/-- An ASCII byte is the encoding of its own character. -/
theorem eq_of_mem_utf8Point {cp : Nat} (h : cp < 0x10000) {b : UInt8} (hb : b ∈ utf8Point cp)
    (hlt : b.toNat < 0x80) : cp = b.toNat := by
  have hbyte : ∀ n, n < 0x100 → (UInt8.ofNat n).toNat = n := by
    intro n hn
    rw [UInt8.toNat_ofNat']
    exact Nat.mod_eq_of_lt hn
  unfold utf8Point at hb
  split at hb
  · obtain rfl := List.mem_singleton.mp hb
    rw [hbyte _ (by omega)]
  · split at hb
    · simp only [List.mem_cons, List.not_mem_nil, or_false] at hb
      rcases hb with rfl | rfl
      all_goals rw [hbyte _ (by omega)] at hlt; omega
    · simp only [List.mem_cons, List.not_mem_nil, or_false] at hb
      rcases hb with rfl | rfl | rfl
      all_goals rw [hbyte _ (by omega)] at hlt; omega

theorem pair_of_pair_append {α : Type} {c d : α} {l r : List α} (hc : c ∉ l)
    (h : [c, d] <:+: l ++ r) : [c, d] <:+: r := by
  induction l with
  | nil => exact h
  | cons a l ih =>
    rw [List.mem_cons, not_or] at hc
    rcases List.infix_cons_iff.mp h with h | h
    · exact absurd (List.cons_prefix_cons.mp h).1 hc.1
    · exact ih hc.2 h

/-- Two ASCII characters that follow each other in the bytes do so in the text. -/
theorem pair_of_utf8Encode {c d : UInt16} (hc : c.toNat < 0x80) (hd : d.toNat < 0x80)
    {s : JsString} (hs : Basic s)
    (h : [UInt8.ofNat c.toNat, UInt8.ofNat d.toNat] <:+: utf8Encode s) : [c, d] <:+: s := by
  have hbyte : ∀ v : UInt16, v.toNat < 0x80 → (UInt8.ofNat v.toNat).toNat = v.toNat := by
    intro v hv
    rw [UInt8.toNat_ofNat']
    exact Nat.mod_eq_of_lt (by omega)
  have hunit : ∀ v u : UInt16, v.toNat < 0x80 → UInt8.ofNat v.toNat ∈ utf8Point u.toNat →
      u = v := by
    intro v u hv hm
    have := eq_of_mem_utf8Point u.toNat_lt hm (by rw [hbyte v hv]; exact hv)
    rw [hbyte v hv] at this
    exact UInt16.toNat_inj.mp this
  induction s with
  | nil =>
    have := h.length_le
    simp [utf8Encode] at this
  | cons u t ih =>
    have ht : Basic t := fun v hv => hs v (List.mem_cons_of_mem _ hv)
    rw [utf8Encode_cons (hs u List.mem_cons_self)] at h
    by_cases hu : u = c
    · subst hu
      have hone : utf8Point u.toNat = [UInt8.ofNat u.toNat] := if_pos hc
      rw [hone, List.singleton_append] at h
      rcases List.infix_cons_iff.mp h with h | h
      · have hd' := (List.cons_prefix_cons.mp h).2
        cases t with
        | nil => exact absurd hd'.length_le (by simp [utf8Encode])
        | cons v t =>
          rw [utf8Encode_cons (ht v List.mem_cons_self)] at hd'
          have hv : UInt8.ofNat d.toNat ∈ utf8Point v.toNat := by
            obtain ⟨b, bs, hb⟩ := List.exists_cons_of_ne_nil
              (List.length_pos_iff.mp (utf8Point_length v.toNat).1)
            rw [hb] at hd' ⊢
            rw [(List.cons_prefix_cons.mp hd').1]
            exact List.mem_cons_self
          obtain rfl := hunit d v hd hv
          exact (List.prefix_append [u, v] t).isInfix
      · exact List.infix_cons_iff.mpr (Or.inr (ih ht h))
    · exact List.infix_cons_iff.mpr
        (Or.inr (ih ht (pair_of_pair_append (fun hm => hu (hunit c u hc hm)) h)))


/-! ### How long the bytes are -/

theorem le_lonePoint {u : UInt16} (h : 0x80 ≤ u.toNat) : 0x80 ≤ lonePoint u := by
  unfold lonePoint
  split
  · omega
  · exact h

/-- **A string has no more units than bytes, and fewer when a unit is not ASCII.** -/
theorem length_utf8Encode (s : JsString) :
    s.length ≤ (utf8Encode s).length ∧ (¬ Ascii s → s.length < (utf8Encode s).length) := by
  fun_induction utf8Encode s with
  | case1 => exact ⟨Nat.le_refl _, fun h => absurd (fun u hu => by simp at hu) h⟩
  | case2 u =>
    have hlen := utf8Point_length (lonePoint u)
    refine ⟨hlen.1, fun h => ?_⟩
    have hu : 0x80 ≤ u.toNat := by
      by_contra hlt
      exact h (ascii_cons.mpr ⟨by omega, fun v hv => by simp at hv⟩)
    exact hlen.2.1 (le_lonePoint hu)
  | case3 u v t hp ih =>
    have hlen := (utf8Point_length (pairPoint u v)).2.2 (by unfold pairPoint; omega)
    simp only [List.length_cons, List.length_append, hlen]
    exact ⟨by omega, fun _ => by omega⟩
  | case4 u v t hp ih =>
    have hlen := utf8Point_length (lonePoint u)
    rw [List.length_cons (a := u), List.length_append]
    refine ⟨by omega, fun h => ?_⟩
    by_cases hu : u.toNat < 0x80
    · have := ih.2 fun ha => h (ascii_cons.mpr ⟨hu, ha⟩)
      omega
    · have := hlen.2.1 (le_lonePoint (by omega))
      omega

theorem length_le_utf8Encode (s : JsString) : s.length ≤ (utf8Encode s).length :=
  (length_utf8Encode s).1

theorem length_eq_utf8Encode_iff (s : JsString) :
    (utf8Encode s).length = s.length ↔ Ascii s := by
  constructor
  · intro h
    by_contra hn
    have := (length_utf8Encode s).2 hn
    omega
  · intro h
    rw [utf8Encode_ascii h, List.length_map]

/-! ### Decoding -/

/-- Where the decoder stands: between characters, or with `need` more bytes to
come, the next one in `lo .. hi`. -/
inductive Pending
  | idle
  | more (cp need lo hi : Nat)

/-- The first byte of a character. -/
def decodeFirst (b : UInt8) : JsString × Pending :=
  if b.toNat < 0x80 then ([UInt16.ofNat b.toNat], .idle)
  else if b.toNat < 0xC2 then ([0xFFFD], .idle)
  else if b.toNat < 0xE0 then ([], .more (b.toNat - 0xC0) 1 0x80 0xBF)
  else if b.toNat < 0xF0 then
    ([], .more (b.toNat - 0xE0) 2 (if b.toNat = 0xE0 then 0xA0 else 0x80)
      (if b.toNat = 0xED then 0x9F else 0xBF))
  else if b.toNat < 0xF5 then
    ([], .more (b.toNat - 0xF0) 3 (if b.toNat = 0xF0 then 0x90 else 0x80)
      (if b.toNat = 0xF4 then 0x8F else 0xBF))
  else ([0xFFFD], .idle)

/-- One byte.  A byte that does not continue the character ends it as U+FFFD
and is read again as a first byte. -/
def decodeByte : Pending → UInt8 → JsString × Pending
  | .idle, b => decodeFirst b
  | .more cp need lo hi, b =>
    if lo ≤ b.toNat ∧ b.toNat ≤ hi then
      if need = 1 then (unitsOf (cp * 0x40 + (b.toNat - 0x80)), .idle)
      else ([], .more (cp * 0x40 + (b.toNat - 0x80)) (need - 1) 0x80 0xBF)
    else (0xFFFD :: (decodeFirst b).1, (decodeFirst b).2)

def decodeFrom : Pending → Bytes → JsString
  | .idle, [] => []
  | .more _ _ _ _, [] => [0xFFFD]
  | p, b :: t => (decodeByte p b).1 ++ decodeFrom (decodeByte p b).2 t

/-- `buffer.toString('utf8')`. -/
def utf8Decode (bs : Bytes) : JsString := decodeFrom .idle bs

theorem decodeFrom_cons (p : Pending) (b : UInt8) (t : Bytes) :
    decodeFrom p (b :: t) = (decodeByte p b).1 ++ decodeFrom (decodeByte p b).2 t := by
  cases p <;> rfl

theorem toNat_ofNat_of_lt {n : Nat} (h : n < 0x100) : (UInt8.ofNat n).toNat = n := by
  rw [UInt8.toNat_ofNat']
  exact Nat.mod_eq_of_lt h

/-- A byte that continues the character, and is not its last. -/
theorem decodeFrom_more {cp need lo hi n : Nat} (hn : n < 0x40) (hlo : lo ≤ 0x80 + n)
    (hhi : 0x80 + n ≤ hi) (hneed : need ≠ 1) (t : Bytes) :
    decodeFrom (.more cp need lo hi) (UInt8.ofNat (0x80 + n) :: t) =
      decodeFrom (.more (cp * 0x40 + n) (need - 1) 0x80 0xBF) t := by
  rw [decodeFrom_cons, decodeByte, toNat_ofNat_of_lt (by omega), if_pos ⟨hlo, hhi⟩, if_neg hneed,
    Nat.add_sub_cancel_left]
  rfl

/-- The last byte of a character. -/
theorem decodeFrom_last {cp lo hi n : Nat} (hn : n < 0x40) (hlo : lo ≤ 0x80 + n)
    (hhi : 0x80 + n ≤ hi) (t : Bytes) :
    decodeFrom (.more cp 1 lo hi) (UInt8.ofNat (0x80 + n) :: t) =
      unitsOf (cp * 0x40 + n) ++ decodeFrom .idle t := by
  rw [decodeFrom_cons, decodeByte, toNat_ofNat_of_lt (by omega), if_pos ⟨hlo, hhi⟩, if_pos rfl,
    Nat.add_sub_cancel_left]

/-- **The bytes of a code point decode to its units.** -/
theorem decodeFrom_utf8Point {cp : Nat} (h : Scalar cp) (t : Bytes) :
    decodeFrom .idle (utf8Point cp ++ t) = unitsOf cp ++ decodeFrom .idle t := by
  have hc : cp < 0x110000 := by rcases h with h | h <;> omega
  by_cases h1 : cp < 0x80
  · rw [utf8Point, if_pos h1, List.singleton_append, decodeFrom_cons, decodeByte, decodeFirst,
      toNat_ofNat_of_lt (by omega), if_pos h1, unitsOf, if_pos (by omega)]
  by_cases h2 : cp < 0x800
  · rw [utf8Point, if_neg h1, if_pos h2, List.cons_append, decodeFrom_cons, decodeByte, decodeFirst,
      toNat_ofNat_of_lt (by omega), if_neg (by omega), if_neg (by omega), if_pos (by omega),
      List.nil_append, List.singleton_append,
      decodeFrom_last (by omega) (by omega) (by omega)]
    congr 2
    omega
  by_cases h3 : cp < 0x10000
  · have hne : cp < 0xD800 ∨ 0xE000 ≤ cp := h.imp id And.left
    rw [utf8Point, if_neg h1, if_neg h2, if_pos h3, List.cons_append, decodeFrom_cons, decodeByte,
      decodeFirst, toNat_ofNat_of_lt (by omega), if_neg (by omega), if_neg (by omega),
      if_neg (by omega), if_pos (by omega), List.nil_append, List.cons_append,
      List.singleton_append, decodeFrom_more (by omega) (by split <;> omega)
        (by split <;> omega) (by omega), decodeFrom_last (by omega) (by omega) (by omega)]
    congr 2
    omega
  · rw [utf8Point, if_neg h1, if_neg h2, if_neg h3, List.cons_append, decodeFrom_cons, decodeByte,
      decodeFirst, toNat_ofNat_of_lt (by omega), if_neg (by omega), if_neg (by omega),
      if_neg (by omega), if_neg (by omega), if_pos (by omega), List.nil_append, List.cons_append,
      List.cons_append, List.singleton_append, decodeFrom_more (by omega) (by split <;> omega)
        (by split <;> omega) (by omega), decodeFrom_more (by omega) (by omega) (by omega)
        (by omega), decodeFrom_last (by omega) (by omega) (by omega)]
    congr 2
    omega

/-- **Decoding undoes the encoding of a well-formed string**, whatever follows. -/
theorem decodeFrom_utf8Encode {s : JsString} (hs : WellFormed s) (t : Bytes) :
    decodeFrom .idle (utf8Encode s ++ t) = s ++ decodeFrom .idle t := by
  obtain ⟨cps, hcps, rfl⟩ := hs
  have h := utf8Encode_flatMap hcps []
  rw [List.append_nil, utf8Encode, List.append_nil] at h
  rw [h]
  clear h
  induction cps with
  | nil => rfl
  | cons cp cps ih =>
    rw [List.flatMap_cons, List.flatMap_cons, List.append_assoc, List.append_assoc,
      decodeFrom_utf8Point (hcps cp (by simp)), ih fun c hc => hcps c (by simp [hc])]

theorem utf8Decode_utf8Encode {s : JsString} (hs : WellFormed s) :
    utf8Decode (utf8Encode s) = s := by
  have h := decodeFrom_utf8Encode hs []
  rw [List.append_nil, decodeFrom, List.append_nil] at h
  exact h

/-! ### ASCII bytes -/

/-- The decoder waits for continuation bytes, and the character they end in is
a code point that is not ASCII. -/
def Pending.Sound : Pending → Prop
  | .idle => True
  | .more cp need lo hi =>
    0x80 ≤ lo ∧ 1 ≤ need ∧ 0x80 ≤ (cp * 0x40 + (lo - 0x80)) * 0x40 ^ (need - 1) ∧
      (cp * 0x40 + (hi - 0x80) + 1) * 0x40 ^ (need - 1) ≤ 0x110000

theorem decodeFirst_sound (b : UInt8) : (decodeFirst b).2.Sound := by
  unfold decodeFirst
  split
  · trivial
  · split
    · trivial
    · split
      · exact ⟨by omega, by omega, by omega, by omega⟩
      · split
        · refine ⟨by split <;> omega, by omega, ?_, ?_⟩
          · split <;> omega
          · split <;> omega
        · split
          · refine ⟨by split <;> omega, by omega, ?_, ?_⟩
            · split <;> omega
            · split <;> omega
          · trivial

theorem decodeByte_sound {p : Pending} (h : p.Sound) (b : UInt8) : (decodeByte p b).2.Sound := by
  cases p with
  | idle => exact decodeFirst_sound b
  | more cp need lo hi =>
    obtain ⟨hlo, hneed, hmin, hmax⟩ := h
    rw [decodeByte]
    split
    · rename_i hb
      split
      · trivial
      · obtain ⟨k, rfl⟩ : ∃ k, need = k + 2 := ⟨need - 2, by omega⟩
        rw [show k + 2 - 1 = k + 1 from rfl, Nat.pow_succ, Nat.mul_comm (0x40 ^ k),
          ← Nat.mul_assoc] at hmin hmax
        refine ⟨Nat.le_refl _, by omega, Nat.le_trans hmin ?_, Nat.le_trans ?_ hmax⟩
        · exact Nat.mul_le_mul_right _ (by omega)
        · exact Nat.mul_le_mul_right _ (by omega)
    · exact decodeFirst_sound b

theorem unitsOf_ascii {cp : Nat} {u : UInt16} (hu : u ∈ unitsOf cp) (h : u.toNat < 0x80)
    (hcp : cp < 0x110000) : cp = u.toNat := by
  unfold unitsOf at hu
  split at hu
  · obtain rfl := List.mem_singleton.mp hu
    rw [UInt16.toNat_ofNat'] at h ⊢
    omega
  · rcases List.mem_cons.mp hu with rfl | hu
    · rw [UInt16.toNat_ofNat'] at h
      omega
    · obtain rfl := List.mem_singleton.mp hu
      rw [UInt16.toNat_ofNat'] at h
      omega

/-- An ASCII byte comes through as it is. -/
theorem mem_decodeByte_of_ascii {p : Pending} (hp : p.Sound) {b : UInt8} (h : b.toNat < 0x80) :
    UInt16.ofNat b.toNat ∈ (decodeByte p b).1 := by
  have hf : UInt16.ofNat b.toNat ∈ (decodeFirst b).1 := by simp [decodeFirst, h]
  cases p with
  | idle => exact hf
  | more cp need lo hi =>
    have hlo := hp.1
    rw [decodeByte, if_neg (by omega)]
    exact List.mem_cons_of_mem _ hf

/-- **No ASCII byte is lost.** -/
theorem mem_decodeFrom_of_ascii {b : UInt8} (h : b.toNat < 0x80) :
    ∀ {p : Pending} {bs : Bytes}, p.Sound → b ∈ bs → UInt16.ofNat b.toNat ∈ decodeFrom p bs := by
  intro p bs
  induction bs generalizing p with
  | nil => intro _ hb; simp at hb
  | cons c t ih =>
    intro hp hb
    rw [decodeFrom_cons, List.mem_append]
    rcases List.mem_cons.mp hb with rfl | hb
    · exact Or.inl (mem_decodeByte_of_ascii hp h)
    · exact Or.inr (ih (decodeByte_sound hp c) hb)

theorem mem_utf8Decode_of_ascii {b : UInt8} {bs : Bytes} (h : b.toNat < 0x80) (hb : b ∈ bs) :
    UInt16.ofNat b.toNat ∈ utf8Decode bs := mem_decodeFrom_of_ascii h (p := .idle) trivial hb

theorem eq_of_mem_decodeFirst {b : UInt8} {u : UInt16} (hu : u ∈ (decodeFirst b).1)
    (h : u.toNat < 0x80) : u.toNat = b.toNat := by
  have hbig : ¬ (0xFFFD : UInt16).toNat < 0x80 := by decide
  unfold decodeFirst at hu
  split at hu
  · obtain rfl := List.mem_singleton.mp hu
    rw [UInt16.toNat_ofNat']
    omega
  · repeat' split at hu
    all_goals first
      | (obtain rfl := List.mem_singleton.mp hu; exact absurd h hbig)
      | simp at hu

theorem eq_of_mem_decodeByte {p : Pending} (hp : p.Sound) {b : UInt8} {u : UInt16}
    (hu : u ∈ (decodeByte p b).1) (h : u.toNat < 0x80) : u.toNat = b.toNat := by
  cases p with
  | idle => exact eq_of_mem_decodeFirst hu h
  | more cp need lo hi =>
    obtain ⟨hlo, hneed, hmin, hmax⟩ := hp
    rw [decodeByte] at hu
    split at hu
    · rename_i hb
      split at hu
      · rename_i h1
        subst h1
        simp only [Nat.sub_self, Nat.pow_zero, Nat.mul_one] at hmin hmax hu
        have := unitsOf_ascii hu h (by omega)
        omega
      · simp at hu
    · rcases List.mem_cons.mp hu with rfl | hu
      · exact absurd h (by decide)
      · exact eq_of_mem_decodeFirst hu h

/-- **No ASCII character is made up.** -/
theorem mem_of_mem_decodeFrom {u : UInt16} (h : u.toNat < 0x80) :
    ∀ {p : Pending} {bs : Bytes}, p.Sound → u ∈ decodeFrom p bs → ∃ b ∈ bs, u.toNat = b.toNat := by
  intro p bs
  induction bs generalizing p with
  | nil =>
    intro _ hu
    cases p with
    | idle => simp [decodeFrom] at hu
    | more cp need lo hi =>
      have he : u = 0xFFFD := List.mem_singleton.mp hu
      rw [he] at h
      exact absurd h (by decide)
  | cons c t ih =>
    intro hp hu
    rw [decodeFrom_cons, List.mem_append] at hu
    rcases hu with hu | hu
    · exact ⟨c, by simp, eq_of_mem_decodeByte hp hu h⟩
    · obtain ⟨b, hb, he⟩ := ih (decodeByte_sound hp c) hu
      exact ⟨b, by simp [hb], he⟩

theorem mem_of_mem_utf8Decode {u : UInt16} {bs : Bytes} (h : u.toNat < 0x80)
    (hu : u ∈ utf8Decode bs) : ∃ b ∈ bs, u.toNat = b.toNat :=
  mem_of_mem_decodeFrom h (p := .idle) trivial hu

/-! ### Counting ASCII bytes -/

theorem unit_toNat_of_ascii {b : UInt8} (h : b.toNat < 0x80) :
    (UInt16.ofNat b.toNat).toNat = b.toNat := by
  rw [UInt16.toNat_ofNat']
  omega

theorem replacement_ne_of_ascii {b : UInt8} (h : b.toNat < 0x80) :
    (0xFFFD : UInt16) ≠ UInt16.ofNat b.toNat := by
  intro he
  have hbig : ¬ (0xFFFD : UInt16).toNat < 0x80 := by decide
  rw [he, unit_toNat_of_ascii h] at hbig
  exact hbig h

theorem count_decodeByte {p : Pending} (hp : p.Sound) {b : UInt8} (h : b.toNat < 0x80) (c : UInt8) :
    (decodeByte p c).1.count (UInt16.ofNat b.toNat) = [c].count b := by
  by_cases hc : c = b
  · subst hc
    have hfirst : (decodeFirst c).1 = [UInt16.ofNat c.toNat] := by rw [decodeFirst, if_pos h]
    cases p with
    | idle => rw [decodeByte, hfirst, List.count_singleton_self, List.count_singleton_self]
    | more cp need lo hi =>
      have hlo := hp.1
      rw [decodeByte, if_neg (by omega), hfirst, List.count_cons_of_ne (replacement_ne_of_ascii h),
        List.count_singleton_self, List.count_singleton_self]
  · rw [List.count_eq_zero_of_not_mem fun hm => hc (List.mem_singleton.mp hm).symm,
      List.count_eq_zero]
    intro hm
    have hu := unit_toNat_of_ascii h
    have he := eq_of_mem_decodeByte hp hm (by omega)
    exact hc (UInt8.toNat_inj.mp (he.symm.trans hu))

theorem count_decodeFrom {b : UInt8} (h : b.toNat < 0x80) :
    ∀ {p : Pending} {bs : Bytes}, p.Sound →
      (decodeFrom p bs).count (UInt16.ofNat b.toNat) = bs.count b := by
  intro p bs
  induction bs generalizing p with
  | nil =>
    intro _
    cases p with
    | idle => rfl
    | more cp need lo hi =>
      exact List.count_eq_zero.mpr fun hm =>
        replacement_ne_of_ascii h (List.mem_singleton.mp hm).symm
  | cons c t ih =>
    intro hp
    rw [decodeFrom_cons, List.count_append, count_decodeByte hp h, ih (decodeByte_sound hp c),
      ← List.count_append]
    rfl

/-- **An ASCII character is decoded as often as its byte is there.** -/
theorem count_utf8Decode {b : UInt8} (h : b.toNat < 0x80) (bs : Bytes) :
    (utf8Decode bs).count (UInt16.ofNat b.toNat) = bs.count b :=
  count_decodeFrom h (p := .idle) trivial

end FullstackSvc.Text
