import Mathlib.Logic.Function.Basic
import FullstackSvc.Text.Decimal

/-!
# Fresh ids

`ulid()` gives texts in Crockford's base 32 that it never gives twice.  A
`UlidSource` numbers the draws; that the texts differ is its field.
-/

namespace FullstackSvc.Text

/-- The text of an id from `ulid()`. -/
def UlidText (s : JsString) : Prop := ∀ u ∈ s, u ∈ js "0123456789ABCDEFGHJKMNPQRSTVWXYZ"

instance (s : JsString) : Decidable (UlidText s) := List.decidableBAll _ _

theorem UlidText.ascii {s : JsString} (h : UlidText s) : Ascii s := by
  have halpha : Ascii (js "0123456789ABCDEFGHJKMNPQRSTVWXYZ") := by decide
  exact fun u hu => halpha u (h u hu)

theorem UlidText.not_mem {s : JsString} (h : UlidText s) {u : UInt16}
    (hu : u ∉ js "0123456789ABCDEFGHJKMNPQRSTVWXYZ") : u ∉ s := fun hm => hu (h u hm)

/-- The `n`-th id drawn. -/
structure UlidSource where
  text : Nat → JsString
  injective : Function.Injective text
  ulidText : ∀ n, UlidText (text n)
  ne_nil : ∀ n, text n ≠ []

namespace UlidSource

variable {U : UlidSource} {drawnBy l : List Nat} {pid pid' : Nat} {id : JsString}

/-- The process drew the id, by the record of who drew which. -/
def Drew (U : UlidSource) (drawnBy : List Nat) (pid : Nat) (id : JsString) : Prop :=
  ∃ n : Nat, drawnBy[n]? = some pid ∧ U.text n = id

/-- **An id has one owner.** -/
theorem Drew.unique (h : U.Drew drawnBy pid id) (h' : U.Drew drawnBy pid' id) : pid = pid' := by
  obtain ⟨n, hn, rfl⟩ := h
  obtain ⟨m, hm, he⟩ := h'
  obtain rfl := U.injective he
  exact Option.some.inj (hn.symm.trans hm)

theorem Drew.mono (h : U.Drew drawnBy pid id) (l : List Nat) : U.Drew (drawnBy ++ l) pid id := by
  obtain ⟨n, hn, rfl⟩ := h
  refine ⟨n, ?_, rfl⟩
  rw [List.getElem?_append_left (List.getElem?_eq_some_iff.mp hn).1]
  exact hn

/-- The draws of others give a process nothing. -/
theorem Drew.of_append (h : U.Drew (drawnBy ++ l) pid id) (hl : pid ∉ l) :
    U.Drew drawnBy pid id := by
  obtain ⟨n, hn, rfl⟩ := h
  refine ⟨n, ?_, rfl⟩
  by_cases hlt : n < drawnBy.length
  · rwa [List.getElem?_append_left hlt] at hn
  · rw [List.getElem?_append_right (by omega)] at hn
    exact absurd (List.mem_of_getElem? hn) hl

theorem drew_concat (U : UlidSource) (drawnBy : List Nat) (pid : Nat) :
    U.Drew (drawnBy ++ [pid]) pid (U.text drawnBy.length) :=
  ⟨_, List.getElem?_concat_length, rfl⟩

theorem Drew.mem (h : U.Drew drawnBy pid id) : pid ∈ drawnBy := by
  obtain ⟨n, hn, -⟩ := h
  exact List.mem_of_getElem? hn

end UlidSource

/-- Numerals, for runs on concrete inputs. -/
def decimalUlids : UlidSource where
  text := decimal
  injective := Function.LeftInverse.injective parseDecimal_decimal
  ulidText := by
    intro n u hu
    have hd := of_decide_eq_true (isDigit_decimal hu)
    have key : ∀ m : Fin 10, UInt16.ofNat (48 + m) ∈ js "0123456789ABCDEFGHJKMNPQRSTVWXYZ" := by
      decide
    have hm := key ⟨u.toNat - 48, by omega⟩
    have he : 48 + (u.toNat - 48) = u.toNat := by omega
    simp only [he, UInt16.ofNat_toNat] at hm
    exact hm
  ne_nil := decimal_ne_nil

end FullstackSvc.Text
