import Mathlib.Data.List.Nodup
import Mathlib.Data.List.Perm.Basic
import FullstackSvc.Text.JsonMap

/-!
# Distinct keys

A parser puts the members of an object together one by one, and a key that
comes again is overwritten.  So what it returns has no key twice (`Distinct`),
in whichever order the language keeps the members (`Proper`).

* `Built.of_readText`: what a parser returns has every property that is kept when
  a value is put together (`Built`).
* `distinct_of_readText`: **what is parsed has distinct keys**.
* `canonical_of_distinct`: Dart builds an object with distinct keys as it
  stands.
-/

namespace FullstackSvc.Text

variable {N : Type}

mutual

/-- No object has a key twice. -/
def Distinct : Json N → Prop
  | .null => True
  | .bool _ => True
  | .num _ => True
  | .str _ => True
  | .arr items => DistinctItems items
  | .obj fields => DistinctFields fields ∧ (fields.map Prod.fst).Nodup

def DistinctItems : List (Json N) → Prop
  | [] => True
  | v :: vs => Distinct v ∧ DistinctItems vs

def DistinctFields : List (JsString × Json N) → Prop
  | [] => True
  | (_, v) :: fs => Distinct v ∧ DistinctFields fs

end

theorem distinctItems_iff {vs : List (Json N)} :
    DistinctItems vs ↔ ∀ v ∈ vs, Distinct v := by
  induction vs with
  | nil => simp [DistinctItems]
  | cons v vs ih => simp [DistinctItems, ih]

theorem distinctFields_iff {fs : List (JsString × Json N)} :
    DistinctFields fs ↔ ∀ p ∈ fs, Distinct p.2 := by
  induction fs with
  | nil => simp [DistinctFields]
  | cons p fs ih =>
    obtain ⟨k, v⟩ := p
    simp [DistinctFields, ih]

/-! ### Building objects -/

/-- A way to add a member that keeps keys apart and brings in nothing else. -/
def Proper (define : List (JsString × Json N) → JsString → Json N → List (JsString × Json N)) :
    Prop := ∀ (fs : List (JsString × Json N)) (k : JsString) (v : Json N),
  (fs.map Prod.fst).Nodup →
    ((define fs k v).map Prod.fst).Nodup ∧ ∀ p ∈ define fs k v, p ∈ fs ∨ p = (k, v)

theorem keys_overwrite (k : JsString) (v : Json N) (fs : List (JsString × Json N)) :
    (overwrite k v fs).map Prod.fst = fs.map Prod.fst := by
  rw [overwrite, List.map_map]
  refine List.map_congr_left fun p _ => ?_
  show (if p.1 = k then (k, v) else p).1 = p.1
  split
  · rename_i h
    exact h.symm
  · rfl

theorem mem_overwrite {k : JsString} {v : Json N} {fs : List (JsString × Json N)}
    {p : JsString × Json N} (h : p ∈ overwrite k v fs) : p ∈ fs ∨ p = (k, v) := by
  obtain ⟨q, hq, rfl⟩ := List.mem_map.mp h
  split
  · exact Or.inr rfl
  · exact Or.inl hq

theorem insertIndex_perm (i : Nat) (k : JsString) (v : Json N) (fs : List (JsString × Json N)) :
    (insertIndex i k v fs).Perm ((k, v) :: fs) := by
  induction fs with
  | nil => exact .refl _
  | cons p fs ih =>
    rw [insertIndex]
    split
    · exact .refl _
    · split
      · exact .refl _
      · exact (ih.cons p).trans (.swap _ _ _)

/-- A new key, in whatever place. -/
theorem nodup_of_perm {k : JsString} {v : Json N} {fs gs : List (JsString × Json N)}
    (hfs : (fs.map Prod.fst).Nodup) (hk : k ∉ fs.map Prod.fst) (h : gs.Perm ((k, v) :: fs)) :
    (gs.map Prod.fst).Nodup ∧ ∀ p ∈ gs, p ∈ fs ∨ p = (k, v) := by
  constructor
  · rw [(h.map Prod.fst).nodup_iff, List.map_cons, List.nodup_cons]
    exact ⟨hk, hfs⟩
  · intro p hp
    rcases List.mem_cons.mp (h.mem_iff.mp hp) with hp | hp
    · exact Or.inr hp
    · exact Or.inl hp

theorem jsDefine_perm {fs : List (JsString × Json N)} {k : JsString} (hk : k ∉ fs.map Prod.fst)
    (v : Json N) : (jsDefine fs k v).Perm ((k, v) :: fs) := by
  rw [jsDefine, if_neg hk]
  split
  · exact insertIndex_perm _ k v fs
  · exact List.perm_append_singleton _ _

theorem proper_jsDefine : Proper (jsDefine (N := N)) := by
  intro fs k v hfs
  by_cases hk : k ∈ fs.map Prod.fst
  · rw [jsDefine, if_pos hk]
    exact ⟨by rwa [keys_overwrite], fun p hp => mem_overwrite hp⟩
  · exact nodup_of_perm hfs hk (jsDefine_perm hk v)

variable {define : List (JsString × Json N) → JsString → Json N → List (JsString × Json N)}

/-- **What is built** has distinct keys, and its members are among those given. -/
theorem proper_buildObject (hd : Proper define) (fs : List (JsString × Json N)) :
    ((buildObject define fs).map Prod.fst).Nodup ∧ ∀ p ∈ buildObject define fs, p ∈ fs := by
  have key : ∀ acc : List (JsString × Json N), (acc.map Prod.fst).Nodup →
      ((fs.foldl (fun fs f => define fs f.1 f.2) acc).map Prod.fst).Nodup ∧
        ∀ p ∈ fs.foldl (fun fs f => define fs f.1 f.2) acc, p ∈ acc ∨ p ∈ fs := by
    induction fs with
    | nil => exact fun acc hacc => ⟨hacc, fun p hp => Or.inl hp⟩
    | cons f fs ih =>
      intro acc hacc
      obtain ⟨hn, hmem⟩ := hd acc f.1 f.2 hacc
      obtain ⟨hn', hmem'⟩ := ih _ hn
      refine ⟨hn', fun p hp => ?_⟩
      rcases hmem' p hp with hp | hp
      · rcases hmem p hp with hp | rfl
        · exact Or.inl hp
        · exact Or.inr List.mem_cons_self
      · exact Or.inr (List.mem_cons_of_mem _ hp)
  obtain ⟨hn, hmem⟩ := key [] List.nodup_nil
  refine ⟨hn, fun p hp => ?_⟩
  rcases hmem p hp with hp | hp
  · cases hp
  · exact hp

theorem distinct_buildObject (hd : Proper define) {fs : List (JsString × Json N)}
    (h : DistinctFields fs) : Distinct (.obj (buildObject define fs)) := by
  obtain ⟨hn, hmem⟩ := proper_buildObject hd fs
  rw [Distinct]
  exact ⟨distinctFields_iff.mpr fun p hp => distinctFields_iff.mp h p (hmem p hp), hn⟩

theorem buildObject_dartDefine {fs : List (JsString × Json N)} (h : (fs.map Prod.fst).Nodup) :
    buildObject dartDefine fs = fs := by
  have key : ∀ (fs acc : List (JsString × Json N)), ((acc ++ fs).map Prod.fst).Nodup →
      fs.foldl (fun fs f => dartDefine fs f.1 f.2) acc = acc ++ fs := by
    intro fs
    induction fs with
    | nil =>
      intro acc _
      rw [List.append_nil]
      rfl
    | cons p fs ih =>
      intro acc hn
      have hp : p.1 ∉ acc.map Prod.fst := by
        rw [List.map_append, List.map_cons, List.nodup_append] at hn
        exact fun hm => hn.2.2 p.1 hm p.1 List.mem_cons_self rfl
      rw [List.foldl_cons, dartDefine, if_neg hp, ih (acc ++ [p])]
      · rw [List.append_assoc, List.singleton_append]
      · rwa [List.append_assoc, List.singleton_append]
  exact key fs [] h

mutual

/-- **Dart builds an object with distinct keys as it stands.** -/
theorem canonical_of_distinct : ∀ v : Json N, Distinct v → Canonical dartDefine v
  | .null, _ => trivial
  | .bool _, _ => trivial
  | .num _, _ => trivial
  | .str _, _ => trivial
  | .arr items, h => by
    rw [Distinct] at h
    rw [Canonical]
    exact canonicalItems_of_distinct items h
  | .obj fields, h => by
    rw [Distinct] at h
    rw [Canonical]
    exact ⟨canonicalFields_of_distinct fields h.1, buildObject_dartDefine h.2⟩

theorem canonicalItems_of_distinct :
    ∀ vs : List (Json N), DistinctItems vs → CanonicalItems dartDefine vs
  | [], _ => trivial
  | v :: vs, h => by
    rw [DistinctItems] at h
    rw [CanonicalItems]
    exact ⟨canonical_of_distinct v h.1, canonicalItems_of_distinct vs h.2⟩

theorem canonicalFields_of_distinct :
    ∀ fs : List (JsString × Json N), DistinctFields fs → CanonicalFields dartDefine fs
  | [], _ => trivial
  | (k, v) :: fs, h => by
    rw [DistinctFields] at h
    rw [CanonicalFields]
    exact ⟨canonical_of_distinct v h.1, canonicalFields_of_distinct fs h.2⟩

end

/-! ### Parsing -/

variable {readNum : JsString → Option N} {P : Json N → Prop}

/-- What is true of every value that a parser can put together: it is true of the smallest
ones, and of an array and an object when it is true of their parts. -/
structure Built (define : List (JsString × Json N) → JsString → Json N → List (JsString × Json N))
    (P : Json N → Prop) : Prop where
  null : P .null
  bool : ∀ b, P (.bool b)
  num : ∀ n, P (.num n)
  str : ∀ s, P (.str s)
  arr : ∀ items, (∀ v ∈ items, P v) → P (.arr items)
  obj : ∀ fields, (∀ p ∈ fields, P p.2) → P (.obj (buildObject define fields))

theorem Built.readWord (hP : Built define P) {s t : JsString} {v : Json N}
    (h : readWord readNum s = some (v, t)) : P v := by
  unfold Text.readWord at h
  split at h
  · obtain ⟨rfl, -⟩ := Prod.mk.inj (Option.some.inj h)
    exact hP.null
  · split at h
    · obtain ⟨rfl, -⟩ := Prod.mk.inj (Option.some.inj h)
      exact hP.bool true
    · split at h
      · obtain ⟨rfl, -⟩ := Prod.mk.inj (Option.some.inj h)
        exact hP.bool false
      · obtain ⟨n, -, hp⟩ := Option.map_eq_some_iff.mp h
        obtain ⟨rfl, -⟩ := Prod.mk.inj hp
        exact hP.num n

/-- What the four readers return with some fuel. -/
structure Reads (readNum : JsString → Option N)
    (define : List (JsString × Json N) → JsString → Json N → List (JsString × Json N))
    (P : Json N → Prop) (n : Nat) : Prop where
  value : ∀ s v t, readValue readNum define n s = some (v, t) → P v
  items : ∀ s vs t, readItems readNum define n s = some (vs, t) → ∀ v ∈ vs, P v
  field : ∀ s f t, readField readNum define n s = some (f, t) → P f.2
  fields : ∀ s fs t, readFields readNum define n s = some (fs, t) → ∀ p ∈ fs, P p.2

theorem Reads.zero : Reads readNum define P 0 := by
  refine ⟨fun s v t h => ?_, fun s vs t h => ?_, fun s f t h => ?_, fun s fs t h => ?_⟩
  · simp [readValue] at h
  · simp [readItems] at h
  · simp [readField] at h
  · simp [readFields] at h

section Step

variable {n : Nat} (hP : Built define P) (ih : Reads readNum define P n)

include hP ih

theorem Reads.value_succ {s t : JsString} {v : Json N}
    (h : readValue readNum define (n + 1) s = some (v, t)) : P v := by
  rw [readValue] at h
  split at h
  · cases h
  · split at h
    · obtain ⟨p, -, hp⟩ := Option.map_eq_some_iff.mp h
      obtain ⟨rfl, -⟩ := Prod.mk.inj hp
      exact hP.str _
    · split at h
      · split at h
        · obtain ⟨rfl, -⟩ := Prod.mk.inj (Option.some.inj h)
          exact hP.arr [] fun v hv => by cases hv
        · split at h
          · cases h
          · rename_i w r hw
            obtain ⟨p, hr, hp⟩ := Option.map_eq_some_iff.mp h
            obtain ⟨rfl, -⟩ := Prod.mk.inj hp
            exact hP.arr _ (List.forall_mem_cons.mpr ⟨ih.value _ _ _ hw, ih.items _ _ _ hr⟩)
      · split at h
        · split at h
          · obtain ⟨rfl, -⟩ := Prod.mk.inj (Option.some.inj h)
            exact hP.obj [] fun p hp => by cases hp
          · split at h
            · cases h
            · rename_i f r hf
              obtain ⟨p, hr, hp⟩ := Option.map_eq_some_iff.mp h
              obtain ⟨rfl, -⟩ := Prod.mk.inj hp
              exact hP.obj _ (List.forall_mem_cons.mpr ⟨ih.field _ _ _ hf, ih.fields _ _ _ hr⟩)
        · exact hP.readWord h

omit hP in
theorem Reads.items_succ {s t : JsString} {vs : List (Json N)}
    (h : readItems readNum define (n + 1) s = some (vs, t)) : ∀ v ∈ vs, P v := by
  rw [readItems] at h
  split at h
  · cases h
  · split at h
    · obtain ⟨rfl, -⟩ := Prod.mk.inj (Option.some.inj h)
      exact fun v hv => by cases hv
    · split at h
      · split at h
        · cases h
        · rename_i w r hw
          obtain ⟨p, hr, hp⟩ := Option.map_eq_some_iff.mp h
          obtain ⟨rfl, -⟩ := Prod.mk.inj hp
          exact List.forall_mem_cons.mpr ⟨ih.value _ _ _ hw, ih.items _ _ _ hr⟩
      · cases h

omit hP in
theorem Reads.field_succ {s t : JsString} {f : JsString × Json N}
    (h : readField readNum define (n + 1) s = some (f, t)) : P f.2 := by
  rw [readField] at h
  split at h
  · cases h
  · split at h
    · split at h
      · cases h
      · split at h
        · cases h
        · split at h
          · obtain ⟨p, hr, hp⟩ := Option.map_eq_some_iff.mp h
            obtain ⟨rfl, -⟩ := Prod.mk.inj hp
            exact ih.value _ _ _ hr
          · cases h
    · cases h

omit hP in
theorem Reads.fields_succ {s t : JsString} {fs : List (JsString × Json N)}
    (h : readFields readNum define (n + 1) s = some (fs, t)) : ∀ p ∈ fs, P p.2 := by
  rw [readFields] at h
  split at h
  · cases h
  · split at h
    · obtain ⟨rfl, -⟩ := Prod.mk.inj (Option.some.inj h)
      exact fun p hp => by cases hp
    · split at h
      · split at h
        · cases h
        · rename_i f r hf
          obtain ⟨p, hr, hp⟩ := Option.map_eq_some_iff.mp h
          obtain ⟨rfl, -⟩ := Prod.mk.inj hp
          exact List.forall_mem_cons.mpr ⟨ih.field _ _ _ hf, ih.fields _ _ _ hr⟩
      · cases h

end Step

theorem Built.reads (hP : Built define P) (n : Nat) : Reads readNum define P n := by
  induction n with
  | zero => exact Reads.zero
  | succ n ih =>
    exact ⟨fun _ _ _ h => Reads.value_succ hP ih h, fun _ _ _ h => Reads.items_succ ih h,
      fun _ _ _ h => Reads.field_succ ih h, fun _ _ _ h => Reads.fields_succ ih h⟩

/-- **What is parsed** is a value that the parser can put together. -/
theorem Built.of_readText (hP : Built define P) {s : JsString} {v : Json N}
    (h : readText readNum define s = some v) : P v := by
  unfold readText at h
  split at h
  · cases h
  · rename_i w r hw
    split at h
    · obtain rfl := Option.some.inj h
      exact (hP.reads _).value _ _ _ hw
    · cases h

theorem built_distinct (hd : Proper define) : Built define (Distinct (N := N)) where
  null := trivial
  bool _ := trivial
  num _ := trivial
  str _ := trivial
  arr items h := by
    rw [Distinct]
    exact distinctItems_iff.mpr h
  obj fields h := distinct_buildObject hd (distinctFields_iff.mpr h)

/-- **What is parsed has distinct keys.** -/
theorem distinct_of_readText (hd : Proper define) {s : JsString} {v : Json N}
    (h : readText readNum define s = some v) : Distinct v := (built_distinct hd).of_readText h

end FullstackSvc.Text
