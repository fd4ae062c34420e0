import Mathlib.Data.List.Basic
import FullstackSvc.Text.Utf8

/-!
# Cutting the bytes of a string

A reader that counts bytes may cut through a character.  The decoder then gives the
characters before the cut and one replacement character for what is left of it.

* `decodeFrom_ascii_cons`: an ASCII byte ends whatever is before it, so **decoding
  starts anew there**.
* `utf8Decode_take`: **a part of the bytes** decodes to a front of the string, with
  replacement characters behind it.
-/

namespace FullstackSvc.Text

/-- **An ASCII byte ends whatever is before it.** -/
theorem decodeFrom_ascii_cons {p : Pending} (hp : p.Sound) {b : UInt8} (h : b.toNat < 0x80)
    (front rest : Bytes) :
    decodeFrom p (front ++ b :: rest) = decodeFrom p front ++ utf8Decode (b :: rest) := by
  induction front generalizing p with
  | nil =>
    cases p with
    | idle => rfl
    | more cp need lo hi =>
      have hlo := hp.1
      rw [List.nil_append, decodeFrom_cons, decodeByte, if_neg (by omega), utf8Decode,
        decodeFrom_cons .idle]
      rfl
  | cons c front ih =>
    rw [List.cons_append, decodeFrom_cons, decodeFrom_cons, ih (decodeByte_sound hp c),
      List.append_assoc]

theorem utf8Decode_ascii_cons {b : UInt8} (h : b.toNat < 0x80) (front rest : Bytes) :
    utf8Decode (front ++ b :: rest) = utf8Decode front ++ utf8Decode (b :: rest) :=
  decodeFrom_ascii_cons (p := .idle) trivial h front rest

/-- The first byte of a character that is not ASCII leaves the decoder waiting. -/
theorem decodeFrom_point_take {cp : Nat} (h : Scalar cp) {k : Nat} (hpos : 0 < k)
    (hk : k < (utf8Point cp).length) : utf8Decode ((utf8Point cp).take k) = [0xFFFD] := by
  have hc : cp < 0x110000 := by rcases h with h | h <;> omega
  obtain ⟨k, rfl⟩ : ∃ j, k = j + 1 := ⟨k - 1, by omega⟩
  by_cases h1 : cp < 0x80
  · rw [utf8Point, if_pos h1, List.length_singleton] at hk
    omega
  by_cases h2 : cp < 0x800
  · rw [utf8Point, if_neg h1, if_pos h2] at hk ⊢
    obtain rfl : k = 0 := by simp only [List.length_cons, List.length_nil] at hk; omega
    rw [List.take_succ_cons, List.take_zero, utf8Decode, decodeFrom_cons, decodeByte, decodeFirst,
      toNat_ofNat_of_lt (by omega), if_neg (by omega), if_neg (by omega), if_pos (by omega)]
    rfl
  by_cases h3 : cp < 0x10000
  · have hne : cp < 0xD800 ∨ 0xE000 ≤ cp := h.imp id And.left
    rw [utf8Point, if_neg h1, if_neg h2, if_pos h3] at hk ⊢
    simp only [List.length_cons, List.length_nil] at hk
    rw [List.take_succ_cons, utf8Decode, decodeFrom_cons, decodeByte, decodeFirst,
      toNat_ofNat_of_lt (by omega), if_neg (by omega), if_neg (by omega), if_neg (by omega),
      if_pos (by omega), List.nil_append]
    cases k with
    | zero => rfl
    | succ k =>
      obtain rfl : k = 0 := by omega
      rw [List.take_succ_cons, List.take_zero, decodeFrom_more (by omega) (by split <;> omega)
        (by split <;> omega) (by omega)]
      rfl
  · rw [utf8Point, if_neg h1, if_neg h2, if_neg h3] at hk ⊢
    simp only [List.length_cons, List.length_nil] at hk
    rw [List.take_succ_cons, utf8Decode, decodeFrom_cons, decodeByte, decodeFirst,
      toNat_ofNat_of_lt (by omega), if_neg (by omega), if_neg (by omega), if_neg (by omega),
      if_neg (by omega), if_pos (by omega), List.nil_append]
    cases k with
    | zero => rfl
    | succ k =>
      rw [List.take_succ_cons, decodeFrom_more (by omega) (by split <;> omega)
        (by split <;> omega) (by omega)]
      cases k with
      | zero => rfl
      | succ k =>
        obtain rfl : k = 0 := by omega
        rw [List.take_succ_cons, List.take_zero, decodeFrom_more (by omega) (by omega) (by omega)
          (by omega)]
        rfl

theorem unitsOf_ne_nil (cp : Nat) : unitsOf cp ≠ [] := by
  unfold unitsOf
  split
  · exact List.cons_ne_nil _ _
  · exact List.cons_ne_nil _ _

/-- **A part of the bytes of a string** decodes to a proper front of it, and replacement
characters. -/
theorem utf8Decode_take {s : JsString} (hs : WellFormed s) {k : Nat}
    (hk : k < (utf8Encode s).length) :
    ∃ u z, utf8Decode ((utf8Encode s).take k) = u ++ z ∧ u <+: s ∧ u ≠ s ∧
      ∀ x ∈ z, x = 0xFFFD := by
  obtain ⟨cps, hcps, rfl⟩ := hs
  induction cps generalizing k with
  | nil => exact absurd hk (Nat.not_lt_zero k)
  | cons cp cps ih =>
    have hcp : Scalar cp := hcps cp List.mem_cons_self
    rw [List.flatMap_cons, utf8Encode_unitsOf hcp] at hk ⊢
    rcases Nat.lt_or_ge k (utf8Point cp).length with hlt | hge
    · have hne : ([] : JsString) ≠ unitsOf cp ++ cps.flatMap unitsOf := by
        intro hnil
        exact unitsOf_ne_nil cp (List.append_eq_nil_iff.mp hnil.symm).1
      rw [List.take_append_of_le_length (Nat.le_of_lt hlt)]
      by_cases hpos : 0 < k
      · refine ⟨[], [0xFFFD], decodeFrom_point_take hcp hpos hlt, List.nil_prefix, hne, ?_⟩
        intro x hx
        exact List.mem_singleton.mp hx
      · obtain rfl : k = 0 := by omega
        refine ⟨[], [], rfl, List.nil_prefix, hne, ?_⟩
        intro x hx
        cases hx
    · obtain ⟨j, rfl⟩ : ∃ j, k = (utf8Point cp).length + j := ⟨k - (utf8Point cp).length, by omega⟩
      rw [List.length_append] at hk
      obtain ⟨u, z, hdecode, hfront, hne, hz⟩ :=
        ih (fun c hc => hcps c (List.mem_cons_of_mem _ hc)) (k := j) (by omega)
      refine ⟨unitsOf cp ++ u, z, ?_, (List.prefix_append_right_inj _).mpr hfront, ?_, hz⟩
      · rw [List.take_length_add_append, utf8Decode, decodeFrom_utf8Point hcp, ← utf8Decode,
          hdecode, List.append_assoc]
      · intro he
        exact hne (List.append_cancel_left he)

end FullstackSvc.Text
