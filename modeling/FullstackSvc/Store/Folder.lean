import Mathlib.Data.List.Dedup
import Mathlib.Data.List.Induction
import Mathlib.Data.List.Nodup
import Mathlib.Data.Set.Function
import Mathlib.Logic.Function.Basic

/-!
# Folders

A folder lists its names, each once, and has a content under each.  `put` replaces what is
under a name; `ofPuts` is the folder after a sequence of puts.

Often the names are made of something else, by a map `g` that may merge two of them:
`ofPuts (renamed g puts)` is then the folder after puts under the keys themselves.

* `names_renamed_perm_iff`: **every key has an entry of its own exactly when `g` merges no two
  keys that are put**.
* `content_renamed`: then what was last put under a key is there.
-/

namespace FullstackSvc.Store

variable {Key Name Content : Type}

structure Folder (Name Content : Type) where
  names : List Name
  content : Name → Option Content

/-- The puts under the names that are made of the keys. -/
def renamed (g : Key → Name) (puts : List (Key × Content)) : List (Name × Content) :=
  puts.map (Prod.map g id)

theorem renamed_append (g : Key → Name) (puts later : List (Key × Content)) :
    renamed g (puts ++ later) = renamed g puts ++ renamed g later := List.map_append

theorem map_fst_renamed (g : Key → Name) (puts : List (Key × Content)) :
    (renamed g puts).map Prod.fst = (puts.map Prod.fst).map g := by
  rw [renamed, List.map_map, List.map_map]
  rfl

namespace Folder

variable [DecidableEq Name]

def empty : Folder Name Content := ⟨[], fun _ => none⟩

def put (F : Folder Name Content) (name : Name) (content : Content) : Folder Name Content :=
  ⟨if name ∈ F.names then F.names else F.names ++ [name],
    Function.update F.content name (some content)⟩

@[simp] theorem names_put (F : Folder Name Content) (name : Name) (content : Content) :
    (F.put name content).names = if name ∈ F.names then F.names else F.names ++ [name] := rfl

@[simp] theorem content_put (F : Folder Name Content) (name : Name) (content : Content) :
    (F.put name content).content = Function.update F.content name (some content) := rfl

/-- The folder after a sequence of puts. -/
def ofPuts (puts : List (Name × Content)) : Folder Name Content :=
  puts.foldl (fun F p => F.put p.1 p.2) empty

theorem ofPuts_concat (puts : List (Name × Content)) (p : Name × Content) :
    ofPuts (puts ++ [p]) = (ofPuts puts).put p.1 p.2 := by
  rw [ofPuts, List.foldl_append]
  rfl

/-! ### Names -/

theorem mem_names_put (F : Folder Name Content) (name n : Name) (content : Content) :
    n ∈ (F.put name content).names ↔ n ∈ F.names ∨ n = name := by
  rw [names_put]
  by_cases h : name ∈ F.names
  · rw [if_pos h]
    constructor
    · exact Or.inl
    · rintro (hn | rfl)
      · exact hn
      · exact h
  · rw [if_neg h, List.mem_append, List.mem_singleton]

theorem nodup_names_put {F : Folder Name Content} (h : F.names.Nodup) (name : Name)
    (content : Content) : (F.put name content).names.Nodup := by
  rw [names_put]
  by_cases hm : name ∈ F.names
  · rw [if_pos hm]
    exact h
  · rw [if_neg hm, ← List.concat_eq_append]
    exact h.concat hm

theorem mem_names_ofPuts (puts : List (Name × Content)) (n : Name) :
    n ∈ (ofPuts puts).names ↔ n ∈ puts.map Prod.fst := by
  induction puts using List.reverseRecOn with
  | nil => exact Iff.rfl
  | append_singleton puts p ih =>
    rw [ofPuts_concat, mem_names_put, ih, List.map_append, List.mem_append, List.map_singleton,
      List.mem_singleton]

theorem nodup_names_ofPuts (puts : List (Name × Content)) : (ofPuts puts).names.Nodup := by
  induction puts using List.reverseRecOn with
  | nil => exact List.nodup_nil
  | append_singleton puts p ih =>
    rw [ofPuts_concat]
    exact nodup_names_put ih p.1 p.2

/-! ### Contents -/

/-- Puts under other names leave a content where it is. -/
theorem content_ofPuts_append (puts : List (Name × Content)) {later : List (Name × Content)}
    {n : Name} (h : n ∉ later.map Prod.fst) :
    (ofPuts (puts ++ later)).content n = (ofPuts puts).content n := by
  induction later using List.reverseRecOn with
  | nil => rw [List.append_nil]
  | append_singleton later p ih =>
    rw [List.map_append, List.mem_append, not_or] at h
    have hne : n ≠ p.1 := fun he => h.2 (he ▸ List.mem_singleton_self _)
    rw [← List.append_assoc, ofPuts_concat, content_put, Function.update_of_ne hne]
    exact ih h.1

/-- What was last put under a name is there. -/
theorem content_ofPuts (puts : List (Name × Content)) (p : Name × Content)
    {later : List (Name × Content)} (h : p.1 ∉ later.map Prod.fst) :
    (ofPuts (puts ++ p :: later)).content p.1 = some p.2 := by
  have hsplit : puts ++ p :: later = puts ++ [p] ++ later := by
    rw [List.append_assoc, List.singleton_append]
  rw [hsplit, content_ofPuts_append _ h, ofPuts_concat, content_put, Function.update_self]

/-! ### Names that are made of keys -/

variable {g : Key → Name} {puts : List (Key × Content)}

/-- **Every key has an entry of its own exactly when no two keys have one name.** -/
theorem names_renamed_perm_iff [DecidableEq Key] :
    (ofPuts (renamed g puts)).names.Perm ((puts.map Prod.fst).dedup.map g) ↔
      Set.InjOn g {key | key ∈ puts.map Prod.fst} := by
  constructor
  · intro h key hkey key' hkey' he
    have hnodup := h.nodup_iff.mp (nodup_names_ofPuts _)
    exact List.inj_on_of_nodup_map hnodup (List.mem_dedup.mpr hkey) (List.mem_dedup.mpr hkey') he
  · intro h
    have hnodup : ((puts.map Prod.fst).dedup.map g).Nodup :=
      (List.nodup_dedup _).map_on fun key hkey key' hkey' he =>
        h (List.mem_dedup.mp hkey) (List.mem_dedup.mp hkey') he
    refine (List.perm_ext_iff_of_nodup (nodup_names_ofPuts _) hnodup).mpr fun n => ?_
    rw [mem_names_ofPuts, map_fst_renamed, List.mem_map, List.mem_map]
    simp only [List.mem_dedup]

/-- What was last put under a key is under its name, when no two keys have one. -/
theorem content_renamed (hg : Set.InjOn g {key | key ∈ puts.map Prod.fst})
    {earlier later : List (Key × Content)} {p : Key × Content}
    (hsplit : puts = earlier ++ p :: later) (hlast : ∀ q ∈ later, q.1 ≠ p.1) :
    (ofPuts (renamed g puts)).content (g p.1) = some p.2 := by
  have hkeys : ∀ q ∈ p :: later, q.1 ∈ puts.map Prod.fst := by
    intro q hq
    rw [hsplit]
    exact List.mem_map_of_mem (List.mem_append_right _ hq)
  have hnew : (Prod.map g id p).1 ∉ (renamed g later).map Prod.fst := by
    intro hm
    rw [map_fst_renamed, List.map_map] at hm
    obtain ⟨q, hq, he⟩ := List.mem_map.mp hm
    exact hlast q hq (hg (hkeys q (List.mem_cons_of_mem _ hq)) (hkeys p List.mem_cons_self) he)
  rw [hsplit, renamed_append]
  exact content_ofPuts (renamed g earlier) (Prod.map g id p) hnew

end Folder

end FullstackSvc.Store
