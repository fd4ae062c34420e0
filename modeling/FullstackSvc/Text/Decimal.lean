import Mathlib.Data.List.Basic
import FullstackSvc.Text.Utf8

/-!
# Decimal numerals

`String(n)` for a natural number and `parseInt(digits, 10)` for a string of
digits.  `parseInt` gives a double; below `2^53` it is exact, and a length that
large is beyond every buffer, so a natural number stands for it.
-/

namespace FullstackSvc.Text

def isDigit (u : UInt16) : Bool := decide (48 ≤ u.toNat ∧ u.toNat ≤ 57)

/-- The digits of `n` in front of `acc`; `fuel` bounds their number. -/
def decimalAux : Nat → Nat → JsString → JsString
  | 0, _, acc => acc
  | fuel + 1, n, acc =>
    if n / 10 = 0 then UInt16.ofNat (48 + n % 10) :: acc
    else decimalAux fuel (n / 10) (UInt16.ofNat (48 + n % 10) :: acc)

def decimal (n : Nat) : JsString := decimalAux (n + 1) n []

def parseDecimalFrom (n : Nat) (s : JsString) : Nat :=
  s.foldl (fun a u => a * 10 + (u.toNat - 48)) n

def parseDecimal (s : JsString) : Nat := parseDecimalFrom 0 s

theorem toNat_digit (n : Nat) : (UInt16.ofNat (48 + n % 10)).toNat = 48 + n % 10 := by
  rw [UInt16.toNat_ofNat']
  exact Nat.mod_eq_of_lt (by omega)

theorem parseDecimal_decimalAux : ∀ (fuel n : Nat) (acc : JsString), n < fuel →
    parseDecimal (decimalAux fuel n acc) = parseDecimalFrom n acc := by
  intro fuel
  induction fuel with
  | zero => intro n acc h; omega
  | succ fuel ih =>
    intro n acc h
    rw [decimalAux]
    split
    · rename_i h0
      simp only [parseDecimal, parseDecimalFrom, List.foldl_cons, toNat_digit]
      congr 1
      omega
    · rename_i h0
      rw [ih _ _ (by omega)]
      simp only [parseDecimalFrom, List.foldl_cons, toNat_digit]
      congr 1
      omega

/-- **Reading a numeral gives the number written.** -/
theorem parseDecimal_decimal (n : Nat) : parseDecimal (decimal n) = n :=
  parseDecimal_decimalAux (n + 1) n [] (Nat.lt_succ_self n)

theorem isDigit_decimalAux : ∀ (fuel n : Nat) (acc : JsString), (∀ u ∈ acc, isDigit u = true) →
    ∀ u ∈ decimalAux fuel n acc, isDigit u = true := by
  intro fuel
  induction fuel with
  | zero => intro n acc h; exact h
  | succ fuel ih =>
    intro n acc h
    have hd : ∀ u ∈ UInt16.ofNat (48 + n % 10) :: acc, isDigit u = true := by
      intro u hu
      rcases List.mem_cons.mp hu with rfl | hu
      · rw [isDigit, toNat_digit]
        exact decide_eq_true (by omega)
      · exact h u hu
    rw [decimalAux]
    split
    · exact hd
    · exact ih _ _ hd

theorem isDigit_decimal {n : Nat} {u : UInt16} (h : u ∈ decimal n) : isDigit u = true :=
  isDigit_decimalAux _ _ [] (fun v hv => by simp at hv) u h

theorem decimalAux_ne_nil (fuel n : Nat) (acc : JsString) (h : acc ≠ [] ∨ 0 < fuel) :
    decimalAux fuel n acc ≠ [] := by
  induction fuel generalizing n acc with
  | zero => exact h.resolve_right (Nat.lt_irrefl 0)
  | succ fuel ih =>
    rw [decimalAux]
    split
    · exact List.cons_ne_nil _ _
    · exact ih _ _ (Or.inl (List.cons_ne_nil _ _))

theorem decimal_ne_nil (n : Nat) : decimal n ≠ [] :=
  decimalAux_ne_nil _ _ _ (Or.inr (Nat.succ_pos n))

theorem decimal_ascii (n : Nat) : Ascii (decimal n) := by
  intro u hu
  have := of_decide_eq_true (isDigit_decimal hu)
  omega

/-- An integer, with its sign. -/
def decimalInt : Int → JsString
  | .ofNat n => decimal n
  | .negSucc n => 45 :: decimal (n + 1)

def parseDecimalInt (s : JsString) : Option Int :=
  match s with
  | [] => none
  | u :: t =>
    if u = 45 then if t ≠ [] ∧ t.all isDigit then some (-(parseDecimal t : Int)) else none
    else if (u :: t).all isDigit then some (parseDecimal (u :: t)) else none

theorem parseDecimalInt_decimalInt (n : Int) : parseDecimalInt (decimalInt n) = some n := by
  cases n with
  | ofNat n =>
    have hall : (decimal n).all isDigit = true := List.all_eq_true.mpr fun u hu => isDigit_decimal hu
    have hp := parseDecimal_decimal n
    show parseDecimalInt (decimal n) = _
    cases hd : decimal n with
    | nil => exact absurd hd (decimal_ne_nil n)
    | cons u t =>
      have hu : u ≠ 45 := by
        intro he
        have := isDigit_decimal (n := n) (u := u) (by rw [hd]; exact List.mem_cons_self)
        rw [he] at this
        exact absurd this (by decide)
      rw [hd] at hall hp
      rw [parseDecimalInt, if_neg hu, if_pos hall, hp]
      rfl
  | negSucc n =>
    have hall : (decimal (n + 1)).all isDigit = true :=
      List.all_eq_true.mpr fun u hu => isDigit_decimal hu
    rw [decimalInt, parseDecimalInt, if_pos rfl, if_pos ⟨decimal_ne_nil _, hall⟩,
      parseDecimal_decimal]
    rfl

end FullstackSvc.Text
