import Mathlib.Data.List.Basic

/-!
# Records that only grow

A log, a table of ids or a list of objects that is only added to keeps every
entry where it is.  `Extends f g` says so of the lookups before and after.
-/

namespace FullstackSvc.Async

variable {ι α β : Type}

/-- Every entry stays where it is. -/
def Extends (f g : ι → Option α) : Prop := ∀ i x, f i = some x → g i = some x

theorem Extends.refl {f : ι → Option α} : Extends f f := fun _ _ h => h

theorem Extends.trans {f g h : ι → Option α} (hfg : Extends f g) (hgh : Extends g h) :
    Extends f h := fun i x hx => hgh i x (hfg i x hx)

theorem Extends.of_eq {f g : ι → Option α} (h : g = f) : Extends f g := by
  subst h
  exact .refl

theorem extends_concat (l : List α) (a : α) :
    Extends (fun i : Nat => l[i]?) (fun i => (l ++ [a])[i]?) := by
  intro i x hx
  have hlt := (List.getElem?_eq_some_iff.mp hx).1
  show (l ++ [a])[i]? = some x
  rw [List.getElem?_append_left hlt]
  exact hx

theorem extends_concat_map (l : List α) (a : α) (g : α → β) :
    Extends (fun i : Nat => (l[i]?).map g) (fun i => ((l ++ [a])[i]?).map g) := by
  intro i x hx
  obtain ⟨y, hy, rfl⟩ := Option.map_eq_some_iff.mp hx
  exact Option.map_eq_some_iff.mpr ⟨y, extends_concat l a i y hy, rfl⟩

/-- The last entry, or one from before. -/
theorem getElem?_concat_cases {l : List α} {a x : α} {i : Nat} (h : (l ++ [a])[i]? = some x) :
    l[i]? = some x ∨ (i = l.length ∧ x = a) := by
  rcases Nat.lt_trichotomy i l.length with hlt | rfl | hgt
  · rw [List.getElem?_append_left hlt] at h
    exact Or.inl h
  · rw [List.getElem?_concat_length] at h
    exact Or.inr ⟨rfl, (Option.some.inj h).symm⟩
  · rw [List.getElem?_eq_none (by rw [List.length_append, List.length_singleton]; omega)] at h
    cases h

/-- An entry of a list in which one place has been changed. -/
theorem getElem?_modify_cases {l : List α} {n i : Nat} {f : α → α} {x : α}
    (h : (l.modify n f)[i]? = some x) : ∃ y, l[i]? = some y ∧ x = if n = i then f y else y := by
  rw [List.getElem?_modify] at h
  obtain ⟨y, hy, rfl⟩ := Option.map_eq_some_iff.mp h
  refine ⟨y, hy, ?_⟩
  split <;> rfl

/-- It is the changed entry, or an entry of another place. -/
theorem modify_cases {l : List α} {n i : Nat} {f : α → α} {x : α}
    (h : (l.modify n f)[i]? = some x) :
    (n = i ∧ ∃ y, l[i]? = some y ∧ x = f y) ∨ (n ≠ i ∧ l[i]? = some x) := by
  obtain ⟨y, hy, he⟩ := getElem?_modify_cases h
  by_cases hn : n = i
  · rw [if_pos hn] at he
    exact Or.inl ⟨hn, y, hy, he⟩
  · rw [if_neg hn] at he
    exact Or.inr ⟨hn, he ▸ hy⟩

/-- What `f` leaves alone is the same everywhere. -/
theorem map_getElem?_modify {l : List α} {n : Nat} {f : α → α} {g : α → β}
    (h : ∀ x, g (f x) = g x) (i : Nat) : ((l.modify n f)[i]?).map g = (l[i]?).map g := by
  rw [List.getElem?_modify]
  cases hl : l[i]? with
  | none => rfl
  | some x =>
    show some (g (if n = i then f x else x)) = some (g x)
    split
    · rw [h]
    · rfl

end FullstackSvc.Async
