import Mathlib.Data.List.Pairwise
import FullstackSvc.Text.JsonKeys

/-!
# The order of the keys of a JavaScript object

An object of JavaScript lists its array indices first, in increasing order, and
then its other keys in the order in which they were defined.  So an object that
is there (`Ordered`) is built again as it stands when its members are defined in
their order, and so is what is left of it when some members are taken out.

* `buildObject_of_ordered`, `ordered_buildObject`: **what JavaScript builds is
  what it builds as it stands**.
* `canonical_of_readText`: what `JSON.parse` returns is canonical.
* `canonical_without`: and it stays so without the members of one name.
-/

namespace FullstackSvc.Text

variable {N : Type}

/-- The key `k` may be listed before the key `l`. -/
def Before (k l : JsString) : Prop :=
  match arrayIndex k, arrayIndex l with
  | some i, some j => i < j
  | some _, none => True
  | none, some _ => False
  | none, none => k ≠ l

/-- The members are as an object lists them. -/
def Ordered (fs : List (JsString × Json N)) : Prop := (fs.map Prod.fst).Pairwise Before

variable {k l : JsString} {i j : Nat}

theorem Before.of_index (hk : arrayIndex k = some i) (hl : arrayIndex l = some j) :
    Before k l ↔ i < j := by
  rw [Before, hk, hl]

theorem Before.of_name (hl : arrayIndex l = none) : Before k l ↔ k ≠ l := by
  rw [Before, hl]
  cases hk : arrayIndex k with
  | none => rfl
  | some i =>
    refine iff_of_true trivial ?_
    rintro rfl
    rw [hk] at hl
    cases hl

theorem Before.not_of_name_index (hk : arrayIndex k = none) (hl : arrayIndex l = some j) :
    ¬ Before k l := by
  rw [Before, hk, hl]
  exact fun h => h

theorem Before.ne (h : Before k l) : k ≠ l := by
  rintro rfl
  cases hk : arrayIndex k with
  | none => exact (Before.of_name hk).mp h rfl
  | some i => exact Nat.lt_irrefl i ((Before.of_index hk hk).mp h)

theorem arrayIndex_eq (hk : arrayIndex k = some i) : k = decimal i := by
  unfold arrayIndex at hk
  split at hk
  · rename_i h
    obtain rfl := Option.some.inj hk
    exact h.2.2.1
  · cases hk

/-! ### Defining a member -/

/-- What comes after all others is put at the end. -/
theorem insertIndex_last {fs : List (JsString × Json N)} (hk : arrayIndex k = some i)
    (h : ∀ l ∈ fs.map Prod.fst, Before l k) (v : Json N) :
    insertIndex i k v fs = fs ++ [(k, v)] := by
  induction fs with
  | nil => rfl
  | cons f fs ih =>
    rw [List.map_cons, List.forall_mem_cons] at h
    rw [insertIndex]
    cases hf : arrayIndex f.1 with
    | none => exact absurd h.1 (Before.not_of_name_index hf hk)
    | some j =>
      have hji : j < i := (Before.of_index hf hk).mp h.1
      simp only [if_neg (Nat.not_lt_of_lt hji), ih h.2, List.cons_append]

theorem jsDefine_last {fs : List (JsString × Json N)} (h : ∀ l ∈ fs.map Prod.fst, Before l k)
    (v : Json N) : jsDefine fs k v = fs ++ [(k, v)] := by
  have hk : k ∉ fs.map Prod.fst := fun hm => (h k hm).ne rfl
  rw [jsDefine, if_neg hk]
  cases hi : arrayIndex k with
  | none => rfl
  | some i => exact insertIndex_last hi h v

theorem keys_insertIndex_head (fs : List (JsString × Json N)) (v : Json N) :
    ∀ l ∈ (insertIndex i k v fs).map Prod.fst, l = k ∨ l ∈ fs.map Prod.fst := by
  intro l hl
  have hperm := (insertIndex_perm i k v fs).map Prod.fst
  rw [List.map_cons] at hperm
  exact List.mem_cons.mp (hperm.mem_iff.mp hl)

/-- A new index is put at its place. -/
theorem ordered_insertIndex {fs : List (JsString × Json N)} (hfs : Ordered fs)
    (hk : arrayIndex k = some i) (hnew : k ∉ fs.map Prod.fst) (v : Json N) :
    Ordered (insertIndex i k v fs) := by
  induction fs with
  | nil => exact List.pairwise_singleton _ _
  | cons f fs ih =>
    rw [Ordered, List.map_cons, List.pairwise_cons] at hfs
    rw [List.map_cons, List.mem_cons, not_or] at hnew
    rw [insertIndex]
    cases hf : arrayIndex f.1 with
    | none =>
      -- a name is listed only before names, so the index comes before all of them
      have hnames : ∀ l ∈ (f :: fs).map Prod.fst, Before k l := by
        intro l hl
        have hl' : arrayIndex l = none := by
          rcases List.mem_cons.mp hl with rfl | hl
          · exact hf
          · by_contra hne
            obtain ⟨j, hj⟩ := Option.ne_none_iff_exists'.mp hne
            exact Before.not_of_name_index hf hj (hfs.1 l hl)
        refine (Before.of_name hl').mpr ?_
        rintro rfl
        rw [hk] at hl'
        cases hl'
      exact List.pairwise_cons.mpr ⟨hnames, List.pairwise_cons.mpr hfs⟩
    | some j =>
      by_cases hij : i < j
      · simp only [if_pos hij]
        refine List.pairwise_cons.mpr ⟨?_, List.pairwise_cons.mpr hfs⟩
        intro l hl
        have hkf : Before k f.1 := (Before.of_index hk hf).mpr hij
        rcases List.mem_cons.mp hl with rfl | hl
        · exact hkf
        · have hfl := hfs.1 l hl
          cases hl' : arrayIndex l with
          | none =>
            refine (Before.of_name hl').mpr ?_
            rintro rfl
            rw [hk] at hl'
            cases hl'
          | some m =>
            have hjm := (Before.of_index hf hl').mp hfl
            exact (Before.of_index hk hl').mpr (by omega)
      · simp only [if_neg hij]
        refine List.pairwise_cons.mpr ⟨?_, ih hfs.2 hnew.2⟩
        intro l hl
        rcases keys_insertIndex_head fs v l hl with rfl | hl
        · refine (Before.of_index hf hk).mpr (Nat.lt_of_le_of_ne (Nat.le_of_not_lt hij) ?_)
          rintro rfl
          exact hnew.1 ((arrayIndex_eq hk).trans (arrayIndex_eq hf).symm)
        · exact hfs.1 l hl

theorem ordered_jsDefine {fs : List (JsString × Json N)} (hfs : Ordered fs) (k : JsString)
    (v : Json N) : Ordered (jsDefine fs k v) := by
  rw [jsDefine]
  by_cases hk : k ∈ fs.map Prod.fst
  · rw [if_pos hk, Ordered, keys_overwrite]
    exact hfs
  · rw [if_neg hk]
    cases hi : arrayIndex k with
    | some i => exact ordered_insertIndex hfs hi hk v
    | none =>
      show Ordered (fs ++ [(k, v)])
      rw [Ordered, List.map_append, List.pairwise_append]
      refine ⟨hfs, List.pairwise_singleton _ _, fun l hl m hm => ?_⟩
      obtain rfl := List.mem_singleton.mp hm
      exact (Before.of_name hi).mpr fun he => hk (he ▸ hl)

/-! ### Building an object -/

/-- **What JavaScript builds is ordered.** -/
theorem ordered_buildObject (fs : List (JsString × Json N)) : Ordered (buildObject jsDefine fs) := by
  have key : ∀ acc : List (JsString × Json N), Ordered acc →
      Ordered (fs.foldl (fun fs f => jsDefine fs f.1 f.2) acc) := by
    induction fs with
    | nil => exact fun acc h => h
    | cons f fs ih => exact fun acc h => ih _ (ordered_jsDefine h f.1 f.2)
  exact key [] List.Pairwise.nil

/-- **What is ordered is built as it stands.** -/
theorem buildObject_of_ordered {fs : List (JsString × Json N)} (h : Ordered fs) :
    buildObject jsDefine fs = fs := by
  have key : ∀ (fs acc : List (JsString × Json N)), Ordered (acc ++ fs) →
      fs.foldl (fun fs f => jsDefine fs f.1 f.2) acc = acc ++ fs := by
    intro fs
    induction fs with
    | nil =>
      intro acc _
      rw [List.append_nil]
      rfl
    | cons f fs ih =>
      intro acc hacc
      have hbefore : ∀ l ∈ acc.map Prod.fst, Before l f.1 := by
        intro l hl
        rw [Ordered, List.map_append, List.pairwise_append] at hacc
        exact hacc.2.2 l hl f.1 List.mem_cons_self
      rw [List.foldl_cons, jsDefine_last hbefore, ih (acc ++ [f])]
      · rw [List.append_assoc, List.singleton_append]
      · rwa [List.append_assoc, List.singleton_append]
  exact key fs [] h

theorem ordered_iff {fs : List (JsString × Json N)} :
    Ordered fs ↔ buildObject jsDefine fs = fs :=
  ⟨buildObject_of_ordered, fun h => h ▸ ordered_buildObject fs⟩

theorem Ordered.sublist {fs gs : List (JsString × Json N)} (h : Ordered fs) (hs : gs.Sublist fs) :
    Ordered gs := List.Pairwise.sublist (hs.map Prod.fst) h

theorem Ordered.nodup {fs : List (JsString × Json N)} (h : Ordered fs) :
    (fs.map Prod.fst).Nodup := List.Pairwise.imp Before.ne h

/-! ### Values -/

theorem canonicalItems_iff
    {define : List (JsString × Json N) → JsString → Json N → List (JsString × Json N)}
    {vs : List (Json N)} : CanonicalItems define vs ↔ ∀ v ∈ vs, Canonical define v := by
  induction vs with
  | nil => simp [CanonicalItems]
  | cons v vs ih => simp [CanonicalItems, ih]

theorem canonicalFields_iff
    {define : List (JsString × Json N) → JsString → Json N → List (JsString × Json N)}
    {fs : List (JsString × Json N)} :
    CanonicalFields define fs ↔ ∀ p ∈ fs, Canonical define p.2 := by
  induction fs with
  | nil => simp [CanonicalFields]
  | cons p fs ih =>
    obtain ⟨k, v⟩ := p
    simp [CanonicalFields, ih]

theorem built_canonical : Built jsDefine (Canonical (N := N) jsDefine) where
  null := trivial
  bool _ := trivial
  num _ := trivial
  str _ := trivial
  arr items h := by
    rw [Canonical]
    exact canonicalItems_iff.mpr h
  obj fields h := by
    rw [Canonical]
    refine ⟨canonicalFields_iff.mpr fun p hp => ?_, buildObject_of_ordered (ordered_buildObject _)⟩
    exact h p ((proper_buildObject proper_jsDefine fields).2 p hp)

/-- **What `JSON.parse` returns is canonical.** -/
theorem canonical_of_readText {readNum : JsString → Option N} {s : JsString} {v : Json N}
    (h : readText readNum jsDefine s = some v) : Canonical jsDefine v :=
  built_canonical.of_readText h

mutual

/-- The value without the members of one name, at every depth. -/
def without (key : JsString) : Json N → Json N
  | .null => .null
  | .bool b => .bool b
  | .num n => .num n
  | .str s => .str s
  | .arr items => .arr (withoutItems key items)
  | .obj fields => .obj (withoutFields key fields)

def withoutItems (key : JsString) : List (Json N) → List (Json N)
  | [] => []
  | v :: vs => without key v :: withoutItems key vs

def withoutFields (key : JsString) : List (JsString × Json N) → List (JsString × Json N)
  | [] => []
  | (k, v) :: fs =>
    if k = key then withoutFields key fs else (k, without key v) :: withoutFields key fs

end
mutual

/-- The keys of all objects, at every depth. -/
def keysOf : Json N → List JsString
  | .null => []
  | .bool _ => []
  | .num _ => []
  | .str _ => []
  | .arr items => keysOfItems items
  | .obj fields => keysOfFields fields

def keysOfItems : List (Json N) → List JsString
  | [] => []
  | v :: vs => keysOf v ++ keysOfItems vs

def keysOfFields : List (JsString × Json N) → List JsString
  | [] => []
  | (k, v) :: fs => k :: (keysOf v ++ keysOfFields fs)

end

mutual

theorem not_mem_keysOf_without (key : JsString) : ∀ v : Json N, key ∉ keysOf (without key v)
  | .null => List.not_mem_nil
  | .bool _ => List.not_mem_nil
  | .num _ => List.not_mem_nil
  | .str _ => List.not_mem_nil
  | .arr items => by
    rw [without, keysOf]
    exact not_mem_keysOfItems_without key items
  | .obj fields => by
    rw [without, keysOf]
    exact not_mem_keysOfFields_without key fields

theorem not_mem_keysOfItems_without (key : JsString) :
    ∀ vs : List (Json N), key ∉ keysOfItems (withoutItems key vs)
  | [] => List.not_mem_nil
  | v :: vs => by
    rw [withoutItems, keysOfItems, List.mem_append, not_or]
    exact ⟨not_mem_keysOf_without key v, not_mem_keysOfItems_without key vs⟩

theorem not_mem_keysOfFields_without (key : JsString) :
    ∀ fs : List (JsString × Json N), key ∉ keysOfFields (withoutFields key fs)
  | [] => List.not_mem_nil
  | (k, v) :: fs => by
    rw [withoutFields]
    by_cases hk : k = key
    · rw [if_pos hk]
      exact not_mem_keysOfFields_without key fs
    · rw [if_neg hk, keysOfFields, List.mem_cons, List.mem_append, not_or, not_or]
      exact ⟨Ne.symm hk, not_mem_keysOf_without key v, not_mem_keysOfFields_without key fs⟩

end

mutual

theorem without_of_not_mem {key : JsString} :
    ∀ v : Json N, key ∉ keysOf v → without key v = v
  | .null, _ => by rw [without]
  | .bool _, _ => by rw [without]
  | .num _, _ => by rw [without]
  | .str _, _ => by rw [without]
  | .arr items, h => by
    rw [keysOf] at h
    rw [without, withoutItems_of_not_mem items h]
  | .obj fields, h => by
    rw [keysOf] at h
    rw [without, withoutFields_of_not_mem fields h]

theorem withoutItems_of_not_mem {key : JsString} :
    ∀ vs : List (Json N), key ∉ keysOfItems vs → withoutItems key vs = vs
  | [], _ => by rw [withoutItems]
  | v :: vs, h => by
    rw [keysOfItems, List.mem_append, not_or] at h
    rw [withoutItems, without_of_not_mem v h.1, withoutItems_of_not_mem vs h.2]

theorem withoutFields_of_not_mem {key : JsString} :
    ∀ fs : List (JsString × Json N), key ∉ keysOfFields fs → withoutFields key fs = fs
  | [], _ => by rw [withoutFields]
  | (k, v) :: fs, h => by
    rw [keysOfFields, List.mem_cons, List.mem_append, not_or, not_or] at h
    rw [withoutFields, if_neg (Ne.symm h.1), without_of_not_mem v h.2.1,
      withoutFields_of_not_mem fs h.2.2]

end

theorem withoutFields_eq (key : JsString) (fs : List (JsString × Json N)) :
    withoutFields key fs =
      (fs.filter fun p => decide (p.1 ≠ key)).map fun p => (p.1, without key p.2) := by
  induction fs with
  | nil => rw [withoutFields]; rfl
  | cons p fs ih =>
    obtain ⟨k, v⟩ := p
    rw [withoutFields]
    by_cases hk : k = key
    · rw [if_pos hk, ih, List.filter_cons_of_neg (by simpa using hk)]
    · rw [if_neg hk, ih, List.filter_cons_of_pos (by simpa using hk), List.map_cons]

theorem Ordered.without {fs : List (JsString × Json N)} (h : Ordered fs) (key : JsString) :
    Ordered (withoutFields key fs) := by
  rw [withoutFields_eq, Ordered, List.map_map]
  exact h.sublist List.filter_sublist

mutual

/-- **What is left is as JavaScript builds it.** -/
theorem canonical_without (key : JsString) :
    ∀ v : Json N, Canonical jsDefine v → Canonical jsDefine (without key v)
  | .null, _ => trivial
  | .bool _, _ => trivial
  | .num _, _ => trivial
  | .str _, _ => trivial
  | .arr items, h => by
    rw [Canonical] at h
    rw [without, Canonical]
    exact canonicalItems_without key items h
  | .obj fields, h => by
    rw [Canonical] at h
    rw [without, Canonical]
    exact ⟨canonicalFields_without key fields h.1,
      buildObject_of_ordered ((ordered_iff.mpr h.2).without key)⟩

theorem canonicalItems_without (key : JsString) :
    ∀ vs : List (Json N), CanonicalItems jsDefine vs →
      CanonicalItems jsDefine (withoutItems key vs)
  | [], _ => trivial
  | v :: vs, h => by
    rw [CanonicalItems] at h
    rw [withoutItems, CanonicalItems]
    exact ⟨canonical_without key v h.1, canonicalItems_without key vs h.2⟩

theorem canonicalFields_without (key : JsString) :
    ∀ fs : List (JsString × Json N), CanonicalFields jsDefine fs →
      CanonicalFields jsDefine (withoutFields key fs)
  | [], _ => trivial
  | (k, v) :: fs, h => by
    rw [CanonicalFields] at h
    rw [withoutFields]
    by_cases hk : k = key
    · rw [if_pos hk]
      exact canonicalFields_without key fs h.2
    · rw [if_neg hk, CanonicalFields]
      exact ⟨canonical_without key v h.1, canonicalFields_without key fs h.2⟩

end

/-! ### Changing strings -/

mutual

theorem keysOf_mapStr (f : JsString → JsString) : ∀ v : Json N, keysOf (mapStr f v) = keysOf v
  | .null => rfl
  | .bool _ => rfl
  | .num _ => rfl
  | .str _ => by rw [mapStr, keysOf, keysOf]
  | .arr items => by rw [mapStr, keysOf, keysOf, keysOfItems_mapStr f items]
  | .obj fields => by rw [mapStr, keysOf, keysOf, keysOfFields_mapStr f fields]

theorem keysOfItems_mapStr (f : JsString → JsString) :
    ∀ vs : List (Json N), keysOfItems (mapStrItems f vs) = keysOfItems vs
  | [] => rfl
  | v :: vs => by
    rw [mapStrItems, keysOfItems, keysOfItems, keysOf_mapStr f v, keysOfItems_mapStr f vs]

theorem keysOfFields_mapStr (f : JsString → JsString) :
    ∀ fs : List (JsString × Json N), keysOfFields (mapStrFields f fs) = keysOfFields fs
  | [] => rfl
  | (k, v) :: fs => by
    rw [mapStrFields, keysOfFields, keysOfFields, keysOf_mapStr f v, keysOfFields_mapStr f fs]

end

mutual

theorem mapStr_mapStr (f g : JsString → JsString) :
    ∀ v : Json N, mapStr g (mapStr f v) = mapStr (fun s => g (f s)) v
  | .null => rfl
  | .bool _ => rfl
  | .num _ => rfl
  | .str _ => by rw [mapStr, mapStr, mapStr]
  | .arr items => by rw [mapStr, mapStr, mapStr, mapStrItems_mapStr f g items]
  | .obj fields => by rw [mapStr, mapStr, mapStr, mapStrFields_mapStr f g fields]

theorem mapStrItems_mapStr (f g : JsString → JsString) : ∀ vs : List (Json N),
    mapStrItems g (mapStrItems f vs) = mapStrItems (fun s => g (f s)) vs
  | [] => rfl
  | v :: vs => by
    rw [mapStrItems, mapStrItems, mapStrItems, mapStr_mapStr f g v, mapStrItems_mapStr f g vs]

theorem mapStrFields_mapStr (f g : JsString → JsString) : ∀ fs : List (JsString × Json N),
    mapStrFields g (mapStrFields f fs) = mapStrFields (fun s => g (f s)) fs
  | [] => rfl
  | (k, v) :: fs => by
    rw [mapStrFields, mapStrFields, mapStrFields, mapStr_mapStr f g v, mapStrFields_mapStr f g fs]

end

end FullstackSvc.Text
