import Mathlib.Data.List.Nodup
import Mathlib.Data.List.ReduceOption

/-!
# `Map` of JavaScript

A `Map` keeps its entries in the order in which their keys came; an entry that
is deleted leaves an empty slot, and an iterator is a place in the list of
slots, so it sees what is added behind it and not what is deleted before it
gets there.  `next` is one turn of such an iterator.

* `get_eq_some_iff`: a key has the value that stands in its slot.
* `has_set_iff`, `has_delete_iff`: what the operations do.
* `mem_of_next`, `entries_of_next`: **an iterator gives the entries that are there**, in order.
-/

namespace FullstackSvc.Store

/-- The slots of a `Map`. -/
structure JsMap (κ ν : Type) where
  slots : List (Option (κ × ν))
  nodup : (slots.reduceOption.map Prod.fst).Nodup

namespace JsMap

variable {κ ν : Type}

/-- `new Map()`. -/
def empty : JsMap κ ν := ⟨[], List.nodup_nil⟩

/-- The entry is there. -/
def Has (m : JsMap κ ν) (k : κ) (v : ν) : Prop := some (k, v) ∈ m.slots

/-- The next entry from place `i` on, with the place behind it. -/
def next (m : JsMap κ ν) (i : Nat) : Option (Nat × κ × ν) :=
  ((m.slots.drop i).findIdx? Option.isSome).bind fun d =>
    (m.slots[i + d]?).join.map fun e => (i + d + 1, e)

/-- `map.clear()`: every slot is emptied. -/
def clear (m : JsMap κ ν) : JsMap κ ν :=
  ⟨m.slots.map fun _ => none, by
    have h : ∀ l : List (Option (κ × ν)), (l.map fun _ => (none : Option (κ × ν))).reduceOption = [] := by
      intro l
      induction l with
      | nil => rfl
      | cons a l ih => exact ih
    rw [h]
    exact List.nodup_nil⟩

variable {m : JsMap κ ν} {k k' : κ} {v v' : ν}

theorem has_iff_mem : m.Has k v ↔ (k, v) ∈ m.slots.reduceOption :=
  List.reduceOption_mem_iff.symm

/-- A key has one value. -/
theorem Has.unique (h : m.Has k v) (h' : m.Has k v') : v = v' := by
  have he := List.inj_on_of_nodup_map m.nodup (has_iff_mem.mp h) (has_iff_mem.mp h') rfl
  exact congrArg Prod.snd he

theorem not_has_clear : ¬ m.clear.Has k v := by
  intro h
  obtain ⟨_, _, he⟩ := List.mem_map.mp h
  cases he

theorem not_has_empty : ¬ (empty : JsMap κ ν).Has k v := fun h => by cases h

/-- **An iterator gives entries that are there.** -/
theorem mem_of_next {i j : Nat} (h : m.next i = some (j, k, v)) : m.Has k v := by
  obtain ⟨d, -, hd⟩ := Option.bind_eq_some_iff.mp h
  obtain ⟨e, he, hj⟩ := Option.map_eq_some_iff.mp hd
  obtain rfl := (Prod.mk.inj hj).2
  exact List.mem_of_getElem? (Option.join_eq_some_iff.mp he)

theorem reduceOption_of_findIdx?_none {l : List (Option (κ × ν))}
    (h : l.findIdx? Option.isSome = none) : l.reduceOption = [] := by
  rw [List.findIdx?_eq_none_iff] at h
  rw [List.eq_nil_iff_forall_not_mem]
  intro e he
  have hsome := h (some e) (List.reduceOption_mem_iff.mp he)
  cases hsome

theorem reduceOption_of_findIdx?_some {l : List (Option (κ × ν))} {d : Nat} {e : κ × ν}
    (h : l.findIdx? Option.isSome = some d) (he : l[d]? = some (some e)) :
    l.reduceOption = e :: (l.drop (d + 1)).reduceOption := by
  induction l generalizing d with
  | nil => cases he
  | cons slot l ih =>
    cases slot with
    | none =>
      rw [List.findIdx?_cons] at h
      obtain ⟨d', hd', rfl⟩ := Option.map_eq_some_iff.mp h
      exact ih hd' he
    | some e' =>
      obtain rfl : 0 = d := Option.some.inj h
      obtain rfl := Option.some.inj (Option.some.inj he)
      rfl

/-- No entries are left. -/
theorem entries_of_next_none {i : Nat} (h : m.next i = none) :
    (m.slots.drop i).reduceOption = [] := by
  cases hd : (m.slots.drop i).findIdx? Option.isSome with
  | none => exact reduceOption_of_findIdx?_none hd
  | some d =>
    obtain ⟨hlt, hp, -⟩ := List.findIdx?_eq_some_iff_getElem.mp hd
    obtain ⟨e, he⟩ := Option.isSome_iff_exists.mp hp
    have hslot : m.slots[i + d]? = some (some e) := by
      rw [← List.getElem?_drop, List.getElem?_eq_getElem hlt, he]
    rw [next, hd, Option.bind_some, hslot] at h
    cases h

/-- The next entry, and those behind it. -/
theorem entries_of_next {i j : Nat} (h : m.next i = some (j, k, v)) :
    (m.slots.drop i).reduceOption = (k, v) :: (m.slots.drop j).reduceOption := by
  obtain ⟨d, hd, hx⟩ := Option.bind_eq_some_iff.mp h
  obtain ⟨e, he, hj⟩ := Option.map_eq_some_iff.mp hx
  obtain ⟨rfl, rfl⟩ := Prod.mk.inj hj
  have hslot : (m.slots.drop i)[d]? = some (some (k, v)) := by
    rw [List.getElem?_drop]
    exact Option.join_eq_some_iff.mp he
  rw [reduceOption_of_findIdx?_some hd hslot, List.drop_drop]
  rfl

variable [DecidableEq κ]

/-- `map.get(k)`. -/
def get (m : JsMap κ ν) (k : κ) : Option ν :=
  (m.slots.reduceOption.find? fun e => e.1 = k).map Prod.snd

/-- A slot with the value of one key replaced. -/
def replaceIn (k : κ) (v : ν) (slot : Option (κ × ν)) : Option (κ × ν) :=
  slot.map fun e => if e.1 = k then (k, v) else e

theorem map_fst_replaceIn (k : κ) (v : ν) (slots : List (Option (κ × ν))) :
    ((slots.map (replaceIn k v)).reduceOption.map Prod.fst) = slots.reduceOption.map Prod.fst := by
  induction slots with
  | nil => rfl
  | cons slot slots ih =>
    cases slot with
    | none =>
      show ((slots.map (replaceIn k v)).reduceOption.map Prod.fst) = _
      exact ih
    | some e =>
      show (if e.1 = k then (k, v) else e).1 :: ((slots.map (replaceIn k v)).reduceOption.map Prod.fst) =
        e.1 :: slots.reduceOption.map Prod.fst
      rw [ih]
      split
      · rename_i h
        rw [h]
      · rfl

/-- A slot without one key. -/
def withoutKey (k : κ) (slot : Option (κ × ν)) : Option (κ × ν) :=
  slot.filter fun e => e.1 ≠ k

theorem sublist_withoutKey (k : κ) (slots : List (Option (κ × ν))) :
    (slots.map (withoutKey k)).reduceOption.Sublist slots.reduceOption := by
  induction slots with
  | nil => exact .slnil
  | cons slot slots ih =>
    cases slot with
    | none => exact ih
    | some e =>
      by_cases h : e.1 = k
      · have hw : withoutKey k (some e) = none := by simp [withoutKey, h]
        rw [List.map_cons, hw, List.reduceOption_cons_of_none, List.reduceOption_cons_of_some]
        exact ih.cons _
      · have hw : withoutKey k (some e) = some e := by simp [withoutKey, h]
        rw [List.map_cons, hw, List.reduceOption_cons_of_some, List.reduceOption_cons_of_some]
        exact ih.cons_cons _

/-- `map.set(k, v)`: a key that is there keeps its place. -/
def set (m : JsMap κ ν) (k : κ) (v : ν) : JsMap κ ν :=
  if h : k ∈ m.slots.reduceOption.map Prod.fst then
    ⟨m.slots.map (replaceIn k v), by rw [map_fst_replaceIn]; exact m.nodup⟩
  else
    ⟨m.slots ++ [some (k, v)], by
      rw [List.reduceOption_append, List.map_append, List.nodup_append]
      refine ⟨m.nodup, List.nodup_singleton k, fun a ha b hb => ?_⟩
      rw [List.mem_singleton.mp hb]
      rintro rfl
      exact h ha⟩

/-- `map.delete(k)`. -/
def delete (m : JsMap κ ν) (k : κ) : JsMap κ ν :=
  ⟨m.slots.map (withoutKey k), ((sublist_withoutKey k m.slots).map Prod.fst).nodup m.nodup⟩

/-! ### What is there -/

theorem get_eq_some_iff : m.get k = some v ↔ m.Has k v := by
  rw [get, Option.map_eq_some_iff]
  constructor
  · rintro ⟨⟨k', v'⟩, hf, rfl⟩
    obtain rfl : k' = k := by simpa using List.find?_some hf
    exact has_iff_mem.mpr (List.mem_of_find?_eq_some hf)
  · intro h
    cases hf : m.slots.reduceOption.find? fun e => e.1 = k with
    | none =>
      have := List.find?_eq_none.mp hf _ (has_iff_mem.mp h)
      simp at this
    | some e =>
      obtain ⟨k', v'⟩ := e
      obtain rfl : k' = k := by simpa using List.find?_some hf
      exact ⟨_, rfl, (h.unique (has_iff_mem.mpr (List.mem_of_find?_eq_some hf))).symm⟩

theorem has_set_iff : (m.set k v).Has k' v' ↔ (k' = k ∧ v' = v) ∨ (k' ≠ k ∧ m.Has k' v') := by
  unfold set
  split
  · rename_i hk
    show some (k', v') ∈ m.slots.map (replaceIn k v) ↔ _
    rw [List.mem_map]
    constructor
    · rintro ⟨slot, hs, he⟩
      cases slot with
      | none => cases he
      | some e =>
        by_cases hek : e.1 = k
        · simp only [replaceIn, Option.map_some, if_pos hek, Option.some.injEq, Prod.mk.injEq] at he
          exact Or.inl ⟨he.1.symm, he.2.symm⟩
        · simp only [replaceIn, Option.map_some, if_neg hek, Option.some.injEq] at he
          subst he
          exact Or.inr ⟨hek, hs⟩
    · rintro (⟨rfl, rfl⟩ | ⟨hne, h⟩)
      · obtain ⟨e, he, rfl⟩ := List.mem_map.mp hk
        refine ⟨some e, List.reduceOption_mem_iff.mp he, ?_⟩
        rw [replaceIn, Option.map_some, if_pos rfl]
      · exact ⟨_, h, by rw [replaceIn, Option.map_some, if_neg hne]⟩
  · rename_i hk
    show some (k', v') ∈ m.slots ++ [some (k, v)] ↔ _
    rw [List.mem_append, List.mem_singleton, Option.some.injEq, Prod.mk.injEq]
    constructor
    · rintro (h | h)
      · refine Or.inr ⟨?_, h⟩
        rintro rfl
        exact hk (List.mem_map_of_mem (has_iff_mem.mp h))
      · exact Or.inl h
    · rintro (h | ⟨-, h⟩)
      · exact Or.inr h
      · exact Or.inl h

theorem has_delete_iff : (m.delete k).Has k' v ↔ k' ≠ k ∧ m.Has k' v := by
  show some (k', v) ∈ m.slots.map (withoutKey k) ↔ _
  rw [List.mem_map]
  constructor
  · rintro ⟨slot, hs, he⟩
    obtain ⟨rfl, hne⟩ := Option.filter_eq_some_iff.mp he
    exact ⟨of_decide_eq_true hne, hs⟩
  · rintro ⟨hne, h⟩
    exact ⟨_, h, Option.filter_eq_some_iff.mpr ⟨rfl, decide_eq_true hne⟩⟩

theorem get_set : (m.set k v).get k' = if k' = k then some v else m.get k' := by
  apply Option.ext
  intro v'
  rw [get_eq_some_iff, has_set_iff]
  split
  · rename_i h
    simp [h, eq_comm]
  · rename_i h
    simp [h, get_eq_some_iff]

theorem get_delete : (m.delete k).get k' = if k' = k then none else m.get k' := by
  apply Option.ext
  intro v'
  rw [get_eq_some_iff, has_delete_iff]
  split
  · rename_i h
    simp [h]
  · rename_i h
    simp [h, get_eq_some_iff]

theorem get_eq_none_iff : m.get k = none ↔ ∀ v, ¬ m.Has k v := by
  rw [Option.eq_none_iff_forall_ne_some]
  exact forall_congr' fun v => not_congr get_eq_some_iff

end JsMap

end FullstackSvc.Store
