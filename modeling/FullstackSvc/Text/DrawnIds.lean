import Mathlib.Data.List.Basic
import FullstackSvc.Text.Ulid

/-!
# Rows with drawn ids

A table whose rows carry ids from `ulid()`, each drawn by the process that adds the row.
`rowsOf` are the rows of one process, and `Booked` says that every row has one and that no
two rows have the same id.

* `rowsOf_of_draws`: who draws further ids changes nothing about the rows that are there.
* `Booked.concat`: a row with an id that is drawn and new may be added.
-/

namespace FullstackSvc.Text.UlidSource

variable {α : Type} {U : UlidSource} {drawnBy l : List Nat} {pid pid' : Nat} {id : α → JsString}
  {rows rows' : List α} {row : α}

instance (U : UlidSource) (drawnBy : List Nat) (pid : Nat) (id : JsString) :
    Decidable (U.Drew drawnBy pid id) :=
  decidable_of_iff (∃ n ∈ List.range drawnBy.length, drawnBy[n]? = some pid ∧ U.text n = id)
    ⟨fun ⟨n, _, h⟩ => ⟨n, h⟩, fun ⟨n, h⟩ =>
      ⟨n, List.mem_range.mpr (List.getElem?_eq_some_iff.mp h.1).1, h⟩⟩

/-- The rows of one process, in their order. -/
def rowsOf (U : UlidSource) (drawnBy : List Nat) (id : α → JsString) (pid : Nat)
    (rows : List α) : List α :=
  rows.filter fun row => U.Drew drawnBy pid (id row)

theorem mem_rowsOf : row ∈ U.rowsOf drawnBy id pid rows ↔
    row ∈ rows ∧ U.Drew drawnBy pid (id row) := by
  rw [rowsOf, List.mem_filter, decide_eq_true_eq]

theorem rowsOf_append : U.rowsOf drawnBy id pid (rows ++ rows') =
    U.rowsOf drawnBy id pid rows ++ U.rowsOf drawnBy id pid rows' := List.filter_append ..

theorem rowsOf_own (h : ∀ row ∈ rows, U.Drew drawnBy pid (id row)) :
    U.rowsOf drawnBy id pid rows = rows :=
  List.filter_eq_self.mpr fun row hrow => decide_eq_true (h row hrow)

theorem rowsOf_concat_own (h : U.Drew drawnBy pid (id row)) :
    U.rowsOf drawnBy id pid (rows ++ [row]) = U.rowsOf drawnBy id pid rows ++ [row] := by
  have hone : U.rowsOf drawnBy id pid [row] = [row] := rowsOf_own fun row' hrow' => by
    rw [List.mem_singleton.mp hrow']
    exact h
  rw [rowsOf_append, hone]

theorem rowsOf_others (h : ∀ row ∈ rows, ¬ U.Drew drawnBy pid (id row)) :
    U.rowsOf drawnBy id pid rows = [] :=
  List.filter_eq_nil_iff.mpr fun row hrow hd => h row hrow (of_decide_eq_true hd)

/-- Every row is of a process, and no two of them have the same id. -/
structure Booked (U : UlidSource) (drawnBy : List Nat) (id : α → JsString) (rows : List α) :
    Prop where
  owned : ∀ row ∈ rows, ∃ pid, U.Drew drawnBy pid (id row)
  nodup : (rows.map id).Nodup

theorem booked_nil : U.Booked drawnBy id [] := ⟨List.forall_mem_nil _, List.nodup_nil⟩

/-- Who draws further ids changes nothing about the rows that are there. -/
theorem rowsOf_of_draws (h : U.Booked drawnBy id rows) (l : List Nat) :
    U.rowsOf (drawnBy ++ l) id pid rows = U.rowsOf drawnBy id pid rows := by
  refine List.filter_congr fun row hrow => ?_
  rw [decide_eq_decide]
  refine ⟨fun hd => ?_, fun hd => hd.mono l⟩
  obtain ⟨p, hp⟩ := h.owned row hrow
  obtain rfl := hd.unique (hp.mono l)
  exact hp

/-- Nor does who draws none of them. -/
theorem rowsOf_of_not_mem (h : pid ∉ l) :
    U.rowsOf (drawnBy ++ l) id pid rows = U.rowsOf drawnBy id pid rows := by
  refine List.filter_congr fun row _ => ?_
  rw [decide_eq_decide]
  exact ⟨fun hd => hd.of_append h, fun hd => hd.mono l⟩

namespace Booked

theorem draws (h : U.Booked drawnBy id rows) (l : List Nat) : U.Booked (drawnBy ++ l) id rows :=
  ⟨fun row hrow => (h.owned row hrow).imp fun _ hp => hp.mono l, h.nodup⟩

/-- A row with an id that is drawn and new. -/
theorem concat (h : U.Booked drawnBy id rows) (hd : U.Drew drawnBy pid (id row))
    (hnew : ∀ row' ∈ rows, id row' ≠ id row) : U.Booked drawnBy id (rows ++ [row]) where
  owned row' hrow' := by
    rcases List.mem_append.mp hrow' with hrow' | hrow'
    · exact h.owned row' hrow'
    · rw [List.mem_singleton.mp hrow']
      exact ⟨pid, hd⟩
  nodup := by
    rw [List.map_append, List.nodup_append]
    refine ⟨h.nodup, List.nodup_cons.mpr ⟨List.not_mem_nil, List.nodup_nil⟩, fun a ha b hb he => ?_⟩
    obtain ⟨row', hrow', rfl⟩ := List.mem_map.mp ha
    rw [List.mem_singleton.mp hb] at he
    exact hnew row' hrow' he

/-- Every row is among those of its process. -/
theorem mem_rowsOf (h : U.Booked drawnBy id rows) (hrow : row ∈ rows) :
    ∃ pid, U.Drew drawnBy pid (id row) ∧ row ∈ U.rowsOf drawnBy id pid rows := by
  obtain ⟨pid, hp⟩ := h.owned row hrow
  exact ⟨pid, hp, UlidSource.mem_rowsOf.mpr ⟨hrow, hp⟩⟩

/-- The next id is on no row. -/
theorem ne_next (h : U.Booked drawnBy id rows) :
    ∀ row ∈ rows, id row ≠ U.text drawnBy.length := by
  intro row hrow he
  obtain ⟨p, n, hn, hid⟩ := h.owned row hrow
  have hlt := (List.getElem?_eq_some_iff.mp hn).1
  rw [U.injective (hid.trans he)] at hlt
  exact Nat.lt_irrefl _ hlt

end Booked

/-- Neither is an id that was drawn before. -/
theorem Drew.ne_next {text : JsString} (h : U.Drew drawnBy pid text) :
    text ≠ U.text drawnBy.length := by
  obtain ⟨n, hn, rfl⟩ := h
  intro he
  have hlt := (List.getElem?_eq_some_iff.mp hn).1
  rw [U.injective he] at hlt
  exact Nat.lt_irrefl _ hlt

end FullstackSvc.Text.UlidSource
