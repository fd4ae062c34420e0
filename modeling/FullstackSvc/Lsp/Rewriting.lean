import Mathlib.Data.List.Basic
import FullstackSvc.Lsp.ClientChannel
import FullstackSvc.Text.JsonOrder

/-!
# What the two rewritings do to a value

`transformUris` and `transformResponseUris` exchange the directory that the URIs
of a value name: `/workspace` for the client, the workspace root for the
container.  One function on strings does both (`replaceRoot`), and one recursion
carries it through a value, which drops the members `__proto__` and leaves all
other keys as they are.

* `transformStrings_eq`: **the recursion, as a whole**.
* `replaceRoot_replaceRoot`: going to the other directory and back.
* `uri_rewritings_inverse`: each rewriting undoes the other.
* `uri_rewritings_complete_iff`: no URI is left, except in the keys.
-/

namespace FullstackSvc.Lsp

open Text

variable {N : Type} {T : NumText N} {sessionId : JsString}

/-! ### The recursion -/

/-- An object that is built by assignments, without the one key that they do not define. -/
theorem buildObject_assign (fs : List (JsString × Json N)) :
    buildObject assign fs =
      buildObject jsDefine (fs.filter fun p => decide (p.1 ≠ js "__proto__")) := by
  have key : ∀ acc : List (JsString × Json N),
      fs.foldl (fun fs f => assign fs f.1 f.2) acc =
        (fs.filter fun p => decide (p.1 ≠ js "__proto__")).foldl
          (fun fs f => jsDefine fs f.1 f.2) acc := by
    induction fs with
    | nil => exact fun acc => rfl
    | cons f fs ih =>
      intro acc
      rw [List.foldl_cons, ih]
      by_cases hf : f.1 = js "__proto__"
      · rw [List.filter_cons_of_neg (by simpa using hf), assign, if_pos hf]
      · rw [List.filter_cons_of_pos (by simpa using hf), assign, if_neg hf, List.foldl_cons]
  exact key []

mutual

/-- **The recursion**: the members `__proto__` go, the strings are changed, and
everything else stays as it is. -/
theorem transformStrings_eq (f : JsString → JsString) :
    ∀ v : Json N, Canonical jsDefine v →
      transformStrings f v = mapStr f (without (js "__proto__") v)
  | .null, _ => by rw [transformStrings, without, mapStr]
  | .bool _, _ => by rw [transformStrings, without, mapStr]
  | .num _, _ => by rw [transformStrings, without, mapStr]
  | .str _, _ => by rw [transformStrings, without, mapStr]
  | .arr items, h => by
    rw [Canonical] at h
    rw [transformStrings, without, mapStr, transformItems_eq f items h]
  | .obj fields, h => by
    rw [Canonical] at h
    have hordered : Ordered (mapStrFields f (withoutFields (js "__proto__") fields)) := by
      rw [mapStrFields_eq_map, Ordered, map_fst]
      exact (ordered_iff.mpr h.2).without _
    rw [transformStrings, without, mapStr, buildObject_assign, transformFields_eq f fields h.1,
      buildObject_of_ordered hordered]

theorem transformItems_eq (f : JsString → JsString) :
    ∀ vs : List (Json N), CanonicalItems jsDefine vs →
      transformItems f vs = mapStrItems f (withoutItems (js "__proto__") vs)
  | [], _ => by rw [transformItems, withoutItems, mapStrItems]
  | v :: vs, h => by
    rw [CanonicalItems] at h
    rw [transformItems, withoutItems, mapStrItems, transformStrings_eq f v h.1,
      transformItems_eq f vs h.2]

theorem transformFields_eq (f : JsString → JsString) :
    ∀ fs : List (JsString × Json N), CanonicalFields jsDefine fs →
      (transformFields f fs).filter (fun p => decide (p.1 ≠ js "__proto__")) =
        mapStrFields f (withoutFields (js "__proto__") fs)
  | [], _ => by rw [transformFields, withoutFields, mapStrFields]; rfl
  | (k, v) :: fs, h => by
    rw [CanonicalFields] at h
    rw [transformFields, withoutFields]
    by_cases hk : k = js "__proto__"
    · rw [if_pos hk, List.filter_cons_of_neg (by simpa using hk), transformFields_eq f fs h.2]
    · rw [if_neg hk, List.filter_cons_of_pos (by simpa using hk), mapStrFields,
        transformStrings_eq f v h.1, transformFields_eq f fs h.2]

end

/-! ### One string -/

/-- The string is the URI of the directory, or of something below it. -/
def UnderRoot (root s : JsString) : Prop :=
  s = js "file://" ++ root ∨ startsWith s (js "file://" ++ root ++ js "/") = true

instance (root s : JsString) : Decidable (UnderRoot root s) := inferInstanceAs (Decidable (_ ∨ _))

/-- A URI of the one directory is made a URI of the other. -/
def replaceRoot (old new s : JsString) : JsString :=
  if startsWith s (js "file://" ++ old ++ js "/") then
    replace s (js "file://" ++ old ++ js "/") (js "file://" ++ new ++ js "/")
  else if s = js "file://" ++ old then js "file://" ++ new
  else s

theorem transformUri_eq_replaceRoot (R : JsString) :
    transformUri R = replaceRoot (js "/workspace") R := rfl

theorem transformResponseUri_eq_replaceRoot (R : JsString) :
    transformResponseUri R = replaceRoot R (js "/workspace") := rfl

section Root

variable {old new : JsString}

theorem replaceRoot_of_not_under {s : JsString} (h : ¬ UnderRoot old s) :
    replaceRoot old new s = s := by
  rw [UnderRoot, not_or] at h
  rw [replaceRoot, if_neg h.2, if_neg h.1]

theorem dollar_not_mem_uri (h : (36 : UInt16) ∉ new) :
    (36 : UInt16) ∉ js "file://" ++ new ++ js "/" := by
  simp only [List.mem_append, not_or]
  exact ⟨⟨by decide, h⟩, by decide⟩

/-- A root that the replacement takes as it stands. -/
theorem replaceRoot_below (h : (36 : UInt16) ∉ new) (t : JsString) :
    replaceRoot old new (js "file://" ++ old ++ js "/" ++ t) =
      js "file://" ++ new ++ js "/" ++ t := by
  rw [replaceRoot, if_pos (startsWith_iff.mpr ⟨t, rfl⟩), replace_append,
    expandReplacement_of_not_mem (dollar_not_mem_uri h)]

theorem not_startsWith_self (root : JsString) :
    ¬ startsWith (js "file://" ++ root) (js "file://" ++ root ++ js "/") = true := by
  intro h
  obtain ⟨t, ht⟩ := startsWith_iff.mp h
  have hlen := congrArg List.length ht
  have hslash : (js "/").length = 1 := by decide
  simp only [List.length_append] at hlen
  omega

theorem replaceRoot_self : replaceRoot old new (js "file://" ++ old) = js "file://" ++ new := by
  rw [replaceRoot, if_neg (not_startsWith_self old), if_pos rfl]

/-- What becomes of a URI of the directory. -/
theorem underRoot_cases {s : JsString} (h : UnderRoot old s) :
    s = js "file://" ++ old ∨ ∃ t, s = js "file://" ++ old ++ js "/" ++ t := by
  rcases h with h | h
  · exact Or.inl h
  · exact Or.inr (startsWith_iff.mp h)

/-- **There and back.**  A string that does not name the other directory comes
back as it was. -/
theorem replaceRoot_replaceRoot (hold : (36 : UInt16) ∉ old) (hnew : (36 : UInt16) ∉ new)
    {s : JsString} (hs : ¬ UnderRoot new s) : replaceRoot new old (replaceRoot old new s) = s := by
  by_cases h : UnderRoot old s
  · rcases underRoot_cases h with rfl | ⟨t, rfl⟩
    · rw [replaceRoot_self, replaceRoot_self]
    · rw [replaceRoot_below hnew, replaceRoot_below hold]
  · rw [replaceRoot_of_not_under h, replaceRoot_of_not_under hs]

/-- **No URI of the old directory is left.** -/
theorem not_underRoot_replaceRoot (hnew : (36 : UInt16) ∉ new)
    (hapart : ∀ t u : JsString, old ++ t ≠ new ++ u) (s : JsString) :
    ¬ UnderRoot old (replaceRoot old new s) := by
  -- a URI of the new directory is none of the old one
  have hother : ∀ u : JsString, ¬ UnderRoot old (js "file://" ++ (new ++ u)) := by
    intro u hu
    rcases underRoot_cases hu with he | ⟨t, he⟩
    · have hroots := List.append_cancel_left he
      rw [← List.append_nil old] at hroots
      exact hapart [] u hroots.symm
    · rw [List.append_assoc, List.append_assoc] at he
      exact hapart _ u (List.append_cancel_left he).symm
  by_cases h : UnderRoot old s
  · rcases underRoot_cases h with rfl | ⟨t, rfl⟩
    · rw [replaceRoot_self]
      have := hother []
      rwa [List.append_nil] at this
    · rw [replaceRoot_below hnew, List.append_assoc, List.append_assoc]
      exact hother _
  · rwa [replaceRoot_of_not_under h]

end Root

/-- The root of a session and the directory of the client differ in their second unit. -/
theorem workspace_apart_root (sessionId t u : JsString) :
    js "/workspace" ++ t ≠ sessionRoot sessionId ++ u := by
  intro h
  have htwo : (js "/workspace" ++ t)[1]? = (sessionRoot sessionId ++ u)[1]? := by rw [h]
  rw [sessionRoot] at htwo
  cases htwo

theorem dollar_not_mem_workspace : (36 : UInt16) ∉ js "/workspace" := by decide

/-! ### There and back -/

/-- A rewriting of a value without the key `__proto__`. -/
theorem transformStrings_of_not_mem (f : JsString → JsString) {v : Json N}
    (hv : Canonical jsDefine v) (hproto : js "__proto__" ∉ keysOf v) :
    transformStrings f v = mapStr f v := by
  rw [transformStrings_eq f v hv, without_of_not_mem v hproto]

/-- Two rewritings that cancel on every string of a value cancel on the value. -/
theorem transformStrings_transformStrings {f g : JsString → JsString} {v : Json N}
    (hv : Canonical jsDefine v) (hproto : js "__proto__" ∉ keysOf v)
    (h : ∀ s ∈ strValues v, g (f s) = s) : transformStrings g (transformStrings f v) = v := by
  have hproto' : js "__proto__" ∉ keysOf (mapStr f v) := by rwa [keysOf_mapStr]
  rw [transformStrings_of_not_mem f hv hproto,
    transformStrings_of_not_mem g (canonical_mapStr natural_jsDefine f v hv) hproto',
    mapStr_mapStr, mapStr_eq_self_iff]
  exact h

/-- **The two rewritings are inverse to each other**, on the values of JavaScript that have no
key `__proto__`: what the client has sent comes back, unless it named the root of the session
itself, and what the container has sent comes back, unless it named the client's directory. -/
theorem uri_rewritings_inverse {sessionId : JsString} (hid : UlidText sessionId) {v : Json N}
    (hv : Canonical jsDefine v) (hproto : js "__proto__" ∉ keysOf v) :
    ((∀ s ∈ strValues v, ¬ UnderRoot (sessionRoot sessionId) s) →
        transformResponseUris (sessionRoot sessionId)
          (transformUris (sessionRoot sessionId) v) = v) ∧
      ((∀ s ∈ strValues v, ¬ UnderRoot (js "/workspace") s) →
        transformUris (sessionRoot sessionId)
          (transformResponseUris (sessionRoot sessionId) v) = v) := by
  have hR := dollar_not_mem_sessionRoot hid
  have hw := dollar_not_mem_workspace
  constructor
  · intro h
    refine transformStrings_transformStrings hv hproto fun s hs => ?_
    rw [transformUri_eq_replaceRoot, transformResponseUri_eq_replaceRoot]
    exact replaceRoot_replaceRoot hw hR (h s hs)
  · intro h
    refine transformStrings_transformStrings hv hproto fun s hs => ?_
    rw [transformUri_eq_replaceRoot, transformResponseUri_eq_replaceRoot]
    exact replaceRoot_replaceRoot hR hw (h s hs)
theorem uri_rewritings_inverse_location :
    let R := sessionRoot (js "01ARZ3NDEKTSV4RRFFQ69G5FAV")
    let v : Json Int := .obj [(js "uri", .str (js "file:///workspace/file:///workspace/a.dart")),
      (js "items", .arr [.str (js "file:///workspace"), .num 3])]
    transformResponseUris R (transformUris R v) = v := by
  refine (uri_rewritings_inverse (by decide) (canonical_of_plain appends_jsDefine _ ?_) ?_).1 ?_
  · simp only [Plain, PlainFields, PlainItems, List.map_cons, List.map_nil, true_and, and_true]
    decide
  · simp only [keysOf, keysOfFields, keysOfItems]
    decide
  · simp only [strValues, strValuesFields, strValuesItems]
    decide

/-! ### Nothing left -/

mutual

theorem strValues_mapStr (f : JsString → JsString) :
    ∀ v : Json N, strValues (mapStr f v) = (strValues v).map f
  | .null => rfl
  | .bool _ => rfl
  | .num _ => rfl
  | .str _ => by rw [mapStr, strValues, strValues]; rfl
  | .arr items => by rw [mapStr, strValues, strValues, strValuesItems_mapStr f items]
  | .obj fields => by rw [mapStr, strValues, strValues, strValuesFields_mapStr f fields]

theorem strValuesItems_mapStr (f : JsString → JsString) :
    ∀ vs : List (Json N), strValuesItems (mapStrItems f vs) = (strValuesItems vs).map f
  | [] => rfl
  | v :: vs => by
    rw [mapStrItems, strValuesItems, strValuesItems, strValues_mapStr f v,
      strValuesItems_mapStr f vs, List.map_append]

theorem strValuesFields_mapStr (f : JsString → JsString) : ∀ fs : List (JsString × Json N),
    strValuesFields (mapStrFields f fs) = (strValuesFields fs).map f
  | [] => rfl
  | (k, v) :: fs => by
    rw [mapStrFields, strValuesFields, strValuesFields, strValues_mapStr f v,
      strValuesFields_mapStr f fs, List.map_append]

end

/-- Every string of a value, as a value or as a key. -/
def stringsOf (v : Json N) : List JsString := strValues v ++ keysOf v

/-- A rewriting that leaves no value of a kind leaves exactly the keys of that kind. -/
theorem stringsOf_transformStrings_iff {f : JsString → JsString} {P : JsString → Prop}
    (hf : ∀ s, ¬ P (f s)) {v : Json N} (hv : Canonical jsDefine v) :
    (∀ s ∈ stringsOf (transformStrings f v), ¬ P s) ↔
      ∀ k ∈ keysOf (without (js "__proto__") v), ¬ P k := by
  rw [stringsOf, transformStrings_eq f v hv, keysOf_mapStr, strValues_mapStr,
    List.forall_mem_append]
  refine and_iff_right fun s hs => ?_
  obtain ⟨u, -, rfl⟩ := List.mem_map.mp hs
  exact hf u

/-- **The rewritings are complete exactly for values without such keys.**  A value comes from
`JSON.parse`.  After the rewriting of a response no string in it, value or key, names the root of
the session or something below it, if and only if none of its keys does, those that are lost with a
member `__proto__` apart; and the same holds of a message of the client and its directory. -/
theorem uri_rewritings_complete_iff (T : NumText N) {sessionId : JsString}
    (hid : UlidText sessionId) {text : JsString} {v : Json N}
    (hv : readText T.read jsDefine text = some v) :
    ((∀ s ∈ stringsOf (transformResponseUris (sessionRoot sessionId) v),
        ¬ UnderRoot (sessionRoot sessionId) s) ↔
      ∀ k ∈ keysOf (without (js "__proto__") v), ¬ UnderRoot (sessionRoot sessionId) k) ∧
    ((∀ s ∈ stringsOf (transformUris (sessionRoot sessionId) v),
        ¬ UnderRoot (js "/workspace") s) ↔
      ∀ k ∈ keysOf (without (js "__proto__") v), ¬ UnderRoot (js "/workspace") k) := by
  have hcanon := canonical_of_readText hv
  have hapart := workspace_apart_root sessionId
  refine ⟨stringsOf_transformStrings_iff (fun s => ?_) hcanon,
    stringsOf_transformStrings_iff (fun s => ?_) hcanon⟩
  · rw [transformResponseUri_eq_replaceRoot]
    exact not_underRoot_replaceRoot dollar_not_mem_workspace (fun t u h => hapart u t h.symm) s
  · rw [transformUri_eq_replaceRoot]
    exact not_underRoot_replaceRoot (dollar_not_mem_sessionRoot hid) hapart s

theorem uri_rewritings_complete_symbols :
    let R := sessionRoot (js "01ARZ3NDEKTSV4RRFFQ69G5FAV")
    let v : Json Int := .obj [(js "uri", .str (js "file:///lsp-files/01ARZ3NDEKTSV4RRFFQ69G5FAV/a"))]
    ∀ s ∈ stringsOf (transformResponseUris R v), ¬ UnderRoot R s := by
  intro R v
  have hparsed : readText intText.read jsDefine (stringify intText.js v) = some v :=
    readText_stringify intText.read_js intText.js_ne_nil intText.js_num
      (canonical_of_plain appends_jsDefine _ (by
        simp only [v, Plain, PlainFields, List.map_cons, List.map_nil, true_and]
        decide))
  refine (uri_rewritings_complete_iff intText (by decide) hparsed).1.mpr ?_
  simp only [v, without, withoutFields, keysOf]
  decide

/-- The answer to a rename, which names the changed file in a key. -/
theorem rename_keeps_root_in_key :
    let R := sessionRoot (js "01ARZ3NDEKTSV4RRFFQ69G5FAV")
    let uri := js "file:///lsp-files/01ARZ3NDEKTSV4RRFFQ69G5FAV/main.dart"
    let v : Json Int := .obj [(js "changes", .obj [(uri, .arr [])])]
    readText intText.read jsDefine (stringify intText.js v) = some v ∧
      uri ∈ stringsOf (transformResponseUris R v) ∧ UnderRoot R uri := by
  intro R uri v
  have hcanon : Canonical jsDefine v := canonical_of_plain appends_jsDefine v (by
    simp only [v, Plain, PlainFields, PlainItems, List.map_cons, List.map_nil, true_and, and_true]
    decide)
  refine ⟨readText_stringify intText.read_js intText.js_ne_nil intText.js_num hcanon, ?_, by decide⟩
  rw [transformResponseUris, stringsOf, transformStrings_eq _ v hcanon, keysOf_mapStr]
  refine List.mem_append_right _ ?_
  simp only [v, without, withoutFields, withoutItems, keysOf]
  decide

end FullstackSvc.Lsp
