import Mathlib.Data.List.Basic
import FullstackSvc.Text.JsonText

/-!
# Changing the strings of a JSON value

`mapStr f` changes every string value and leaves the keys.  A way to build
objects is *natural* when it looks at the keys only (`Natural`), as `jsDefine`
and `dartDefine` do; then changing values keeps an object as it is built.

* `canonical_mapStr`: the values an object holds do not matter for `Canonical`.
* `canonical_of_plain`: an object whose keys are different ordinary names is
  built as it stands, in either language.
* `mapStr_eq_self_iff`: nothing is changed exactly when every string is a fixed
  point.
-/

namespace FullstackSvc.Text

variable {N : Type}

mutual

def mapStr (f : JsString → JsString) : Json N → Json N
  | .null => .null
  | .bool b => .bool b
  | .num n => .num n
  | .str s => .str (f s)
  | .arr items => .arr (mapStrItems f items)
  | .obj fields => .obj (mapStrFields f fields)

def mapStrItems (f : JsString → JsString) : List (Json N) → List (Json N)
  | [] => []
  | v :: vs => mapStr f v :: mapStrItems f vs

def mapStrFields (f : JsString → JsString) : List (JsString × Json N) → List (JsString × Json N)
  | [] => []
  | (k, v) :: fs => (k, mapStr f v) :: mapStrFields f fs

end

theorem mapStrFields_eq_map (f : JsString → JsString) (fs : List (JsString × Json N)) :
    mapStrFields f fs = fs.map fun p => (p.1, mapStr f p.2) := by
  induction fs with
  | nil => rw [mapStrFields]; rfl
  | cons p fs ih => rw [mapStrFields, ih]; rfl

/-! ### Building objects whose values are changed -/

/-- A way to add a field that looks at the keys only. -/
def Natural (define : List (JsString × Json N) → JsString → Json N → List (JsString × Json N)) :
    Prop := ∀ (g : Json N → Json N) (fs : List (JsString × Json N)) (k : JsString) (v : Json N),
  define (fs.map fun p => (p.1, g p.2)) k (g v) = (define fs k v).map fun p => (p.1, g p.2)

theorem map_fst (g : Json N → Json N) (fs : List (JsString × Json N)) :
    (fs.map fun p => (p.1, g p.2)).map Prod.fst = fs.map Prod.fst := by
  rw [List.map_map]
  rfl

theorem overwrite_map (g : Json N → Json N) (fs : List (JsString × Json N)) (k : JsString)
    (v : Json N) : overwrite k (g v) (fs.map fun p => (p.1, g p.2)) =
      (overwrite k v fs).map fun p => (p.1, g p.2) := by
  rw [overwrite, overwrite, List.map_map, List.map_map]
  refine List.map_congr_left fun p _ => ?_
  simp only [Function.comp_apply]
  split <;> rfl

theorem insertIndex_map (g : Json N → Json N) (i : Nat) (k : JsString) (v : Json N)
    (fs : List (JsString × Json N)) : insertIndex i k (g v) (fs.map fun p => (p.1, g p.2)) =
      (insertIndex i k v fs).map fun p => (p.1, g p.2) := by
  induction fs with
  | nil => rfl
  | cons p fs ih =>
    rw [List.map_cons, insertIndex, insertIndex]
    cases arrayIndex p.1 with
    | none => rfl
    | some j =>
      by_cases hij : i < j
      · simp only [if_pos hij]
        rfl
      · simp only [if_neg hij, ih]
        rfl

theorem natural_jsDefine : Natural (jsDefine (N := N)) := by
  intro g fs k v
  rw [jsDefine, jsDefine, map_fst]
  split
  · exact overwrite_map g fs k v
  · split
    · exact insertIndex_map g _ k v fs
    · rw [List.map_append]
      rfl

theorem natural_dartDefine : Natural (dartDefine (N := N)) := by
  intro g fs k v
  rw [dartDefine, dartDefine, map_fst]
  split
  · exact overwrite_map g fs k v
  · rw [List.map_append]
    rfl

variable {define : List (JsString × Json N) → JsString → Json N → List (JsString × Json N)}

theorem buildObject_map (hd : Natural define) (g : Json N → Json N)
    (fs : List (JsString × Json N)) : buildObject define (fs.map fun p => (p.1, g p.2)) =
      (buildObject define fs).map fun p => (p.1, g p.2) := by
  have key : ∀ acc : List (JsString × Json N),
      (fs.map fun p => (p.1, g p.2)).foldl (fun fs f => define fs f.1 f.2)
        (acc.map fun p => (p.1, g p.2)) =
      (fs.foldl (fun fs f => define fs f.1 f.2) acc).map fun p => (p.1, g p.2) := by
    induction fs with
    | nil => intro acc; rfl
    | cons p fs ih =>
      intro acc
      rw [List.map_cons, List.foldl_cons, List.foldl_cons, hd, ih]
  exact key []

mutual

/-- **The strings do not matter** for how an object is built. -/
theorem canonical_mapStr (hd : Natural define) (f : JsString → JsString) :
    ∀ v : Json N, Canonical define v → Canonical define (mapStr f v)
  | .null, _ => trivial
  | .bool _, _ => trivial
  | .num _, _ => trivial
  | .str _, _ => trivial
  | .arr items, h => by
    rw [Canonical] at h
    rw [mapStr, Canonical]
    exact canonicalItems_mapStr hd f items h
  | .obj fields, h => by
    rw [Canonical] at h
    rw [mapStr, Canonical]
    refine ⟨canonicalFields_mapStr hd f fields h.1, ?_⟩
    rw [mapStrFields_eq_map, buildObject_map hd, h.2]

theorem canonicalItems_mapStr (hd : Natural define) (f : JsString → JsString) :
    ∀ vs : List (Json N), CanonicalItems define vs → CanonicalItems define (mapStrItems f vs)
  | [], _ => trivial
  | v :: vs, h => by
    rw [CanonicalItems] at h
    rw [mapStrItems, CanonicalItems]
    exact ⟨canonical_mapStr hd f v h.1, canonicalItems_mapStr hd f vs h.2⟩

theorem canonicalFields_mapStr (hd : Natural define) (f : JsString → JsString) :
    ∀ fs : List (JsString × Json N), CanonicalFields define fs →
      CanonicalFields define (mapStrFields f fs)
  | [], _ => trivial
  | (k, v) :: fs, h => by
    rw [CanonicalFields] at h
    rw [mapStrFields, CanonicalFields]
    exact ⟨canonical_mapStr hd f v h.1, canonicalFields_mapStr hd f fs h.2⟩

end

/-! ### Objects that every language builds as they stand -/

/-- A key that is an ordinary name: no array index, and not the one name that an
assignment in JavaScript treats otherwise. -/
def PlainKey (k : JsString) : Prop := arrayIndex k = none ∧ k ≠ js "__proto__"

instance (k : JsString) : Decidable (PlainKey k) := inferInstanceAs (Decidable (_ ∧ _))

/-- A way to build objects that appends a new ordinary name. -/
def Appends (define : List (JsString × Json N) → JsString → Json N → List (JsString × Json N)) :
    Prop := ∀ (fs : List (JsString × Json N)) (k : JsString) (v : Json N),
  k ∉ fs.map Prod.fst → PlainKey k → define fs k v = fs ++ [(k, v)]

theorem appends_jsDefine : Appends (jsDefine (N := N)) := by
  intro fs k v hk hp
  rw [jsDefine, if_neg hk, hp.1]

theorem appends_dartDefine : Appends (dartDefine (N := N)) := by
  intro fs k v hk _
  rw [dartDefine, if_neg hk]

theorem buildObject_of_appends (hd : Appends define) {fs : List (JsString × Json N)}
    (hnodup : (fs.map Prod.fst).Nodup) (hplain : ∀ k ∈ fs.map Prod.fst, PlainKey k) :
    buildObject define fs = fs := by
  have key : ∀ (fs acc : List (JsString × Json N)), ((acc ++ fs).map Prod.fst).Nodup →
      (∀ k ∈ fs.map Prod.fst, PlainKey k) →
      fs.foldl (fun fs f => define fs f.1 f.2) acc = acc ++ fs := by
    intro fs
    induction fs with
    | nil => intro acc _ _; rw [List.append_nil]; rfl
    | cons p fs ih =>
      intro acc hn hi
      have hp : p.1 ∉ acc.map Prod.fst := by
        rw [List.map_append, List.map_cons, List.nodup_append] at hn
        exact fun hm => hn.2.2 p.1 hm p.1 List.mem_cons_self rfl
      rw [List.foldl_cons, hd acc p.1 p.2 hp (hi p.1 (by simp)), ih (acc ++ [p])]
      · rw [List.append_assoc, List.singleton_append]
      · rwa [List.append_assoc, List.singleton_append]
      · exact fun k hk => hi k (by rw [List.map_cons]; exact List.mem_cons_of_mem _ hk)
  exact key fs [] hnodup hplain

mutual

/-- Every object has different, ordinary keys. -/
def Plain : Json N → Prop
  | .null => True
  | .bool _ => True
  | .num _ => True
  | .str _ => True
  | .arr items => PlainItems items
  | .obj fields => PlainFields fields ∧ (fields.map Prod.fst).Nodup ∧
      ∀ k ∈ fields.map Prod.fst, PlainKey k

def PlainItems : List (Json N) → Prop
  | [] => True
  | v :: vs => Plain v ∧ PlainItems vs

def PlainFields : List (JsString × Json N) → Prop
  | [] => True
  | (_, v) :: fs => Plain v ∧ PlainFields fs

end

mutual

/-- **A plain value is canonical in every language.** -/
theorem canonical_of_plain (hd : Appends define) : ∀ v : Json N, Plain v → Canonical define v
  | .null, _ => trivial
  | .bool _, _ => trivial
  | .num _, _ => trivial
  | .str _, _ => trivial
  | .arr items, h => by
    rw [Plain] at h
    rw [Canonical]
    exact canonicalItems_of_plain hd items h
  | .obj fields, h => by
    rw [Plain] at h
    rw [Canonical]
    exact ⟨canonicalFields_of_plain hd fields h.1, buildObject_of_appends hd h.2.1 h.2.2⟩

theorem canonicalItems_of_plain (hd : Appends define) :
    ∀ vs : List (Json N), PlainItems vs → CanonicalItems define vs
  | [], _ => trivial
  | v :: vs, h => by
    rw [PlainItems] at h
    rw [CanonicalItems]
    exact ⟨canonical_of_plain hd v h.1, canonicalItems_of_plain hd vs h.2⟩

theorem canonicalFields_of_plain (hd : Appends define) :
    ∀ fs : List (JsString × Json N), PlainFields fs → CanonicalFields define fs
  | [], _ => trivial
  | (k, v) :: fs, h => by
    rw [PlainFields] at h
    rw [CanonicalFields]
    exact ⟨canonical_of_plain hd v h.1, canonicalFields_of_plain hd fs h.2⟩

end

/-! ### The strings after the change -/

mutual

theorem all_mapStr_iff {P : JsString → Prop} {f : JsString → JsString}
    (hf : ∀ s, P (f s) ↔ P s) : ∀ v : Json N, (mapStr f v).All P ↔ v.All P
  | .null => Iff.rfl
  | .bool _ => Iff.rfl
  | .num _ => Iff.rfl
  | .str s => by rw [mapStr, Json.All, Json.All, hf]
  | .arr items => by rw [mapStr, Json.All, Json.All, allItems_mapStr_iff hf items]
  | .obj fields => by rw [mapStr, Json.All, Json.All, allFields_mapStr_iff hf fields]

theorem allItems_mapStr_iff {P : JsString → Prop} {f : JsString → JsString}
    (hf : ∀ s, P (f s) ↔ P s) : ∀ vs : List (Json N), AllItems P (mapStrItems f vs) ↔ AllItems P vs
  | [] => Iff.rfl
  | v :: vs => by
    rw [mapStrItems, AllItems, AllItems, all_mapStr_iff hf v, allItems_mapStr_iff hf vs]

theorem allFields_mapStr_iff {P : JsString → Prop} {f : JsString → JsString}
    (hf : ∀ s, P (f s) ↔ P s) :
    ∀ fs : List (JsString × Json N), AllFields P (mapStrFields f fs) ↔ AllFields P fs
  | [] => Iff.rfl
  | (k, v) :: fs => by
    rw [mapStrFields, AllFields, AllFields, all_mapStr_iff hf v, allFields_mapStr_iff hf fs]

end

mutual

/-- The strings among the values; keys are not values. -/
def strValues : Json N → List JsString
  | .null => []
  | .bool _ => []
  | .num _ => []
  | .str s => [s]
  | .arr items => strValuesItems items
  | .obj fields => strValuesFields fields

def strValuesItems : List (Json N) → List JsString
  | [] => []
  | v :: vs => strValues v ++ strValuesItems vs

def strValuesFields : List (JsString × Json N) → List JsString
  | [] => []
  | (_, v) :: fs => strValues v ++ strValuesFields fs

end

mutual

/-- **Nothing changes exactly when no string value is changed.** -/
theorem mapStr_eq_self_iff {f : JsString → JsString} :
    ∀ v : Json N, mapStr f v = v ↔ ∀ s ∈ strValues v, f s = s
  | .null => by rw [mapStr, strValues]; exact iff_of_true rfl fun s hs => by simp at hs
  | .bool _ => by rw [mapStr, strValues]; exact iff_of_true rfl fun s hs => by simp at hs
  | .num _ => by rw [mapStr, strValues]; exact iff_of_true rfl fun s hs => by simp at hs
  | .str s => by rw [mapStr, strValues, Json.str.injEq, List.forall_mem_singleton]
  | .arr items => by rw [mapStr, strValues, Json.arr.injEq, mapStrItems_eq_self_iff items]
  | .obj fields => by rw [mapStr, strValues, Json.obj.injEq, mapStrFields_eq_self_iff fields]

theorem mapStrItems_eq_self_iff {f : JsString → JsString} :
    ∀ vs : List (Json N), mapStrItems f vs = vs ↔ ∀ s ∈ strValuesItems vs, f s = s
  | [] => by rw [mapStrItems, strValuesItems]; exact iff_of_true rfl fun s hs => by simp at hs
  | v :: vs => by
    rw [mapStrItems, strValuesItems, List.cons.injEq, List.forall_mem_append,
      mapStr_eq_self_iff v, mapStrItems_eq_self_iff vs]

theorem mapStrFields_eq_self_iff {f : JsString → JsString} :
    ∀ fs : List (JsString × Json N), mapStrFields f fs = fs ↔
      ∀ s ∈ strValuesFields fs, f s = s
  | [] => by rw [mapStrFields, strValuesFields]; exact iff_of_true rfl fun s hs => by simp at hs
  | (k, v) :: fs => by
    rw [mapStrFields, strValuesFields, List.cons.injEq, Prod.mk.injEq, List.forall_mem_append,
      mapStr_eq_self_iff v, mapStrFields_eq_self_iff fs]
    exact and_congr_left fun _ => and_iff_right rfl

end

end FullstackSvc.Text
