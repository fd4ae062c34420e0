import Mathlib.Data.List.Basic
import FullstackSvc.Text.Json

/-!
# The text of a JSON value

What `stringify` writes, and that it reads back.

* `readText_stringify`: **reading undoes writing**, on values whose objects are
  built as the reading language builds them (`Canonical`).
* `wellFormed_stringify`, `cr_not_mem_stringify`: the text has no lone surrogate
  and no carriage return, whatever the strings in the value are.
* `ascii_stringify_iff`: the text is ASCII exactly when every string is written
  in ASCII.
-/

namespace FullstackSvc.Text

/-! ### One string -/

theorem hexValue_hexDigit {n : Nat} (h : n < 16) : hexValue (hexDigit n) = some n := by
  have key : ∀ m : Fin 16, hexValue (hexDigit m) = some m.val := by decide
  exact key ⟨n, h⟩

theorem hexUnit_hexDigit (u : UInt16) :
    hexUnit (hexDigit (u.toNat / 4096)) (hexDigit (u.toNat / 256 % 16))
      (hexDigit (u.toNat / 16 % 16)) (hexDigit (u.toNat % 16)) = some u := by
  have hu := u.toNat_lt
  rw [hexUnit, hexValue_hexDigit (by omega), hexValue_hexDigit (by omega),
    hexValue_hexDigit (by omega), hexValue_hexDigit (by omega)]
  have he : u.toNat / 4096 * 4096 + u.toNat / 256 % 16 * 256 + u.toNat / 16 % 16 * 16 +
      u.toNat % 16 = u.toNat := by omega
  simp only [he, UInt16.ofNat_toNat]

theorem readString_unicodeEscape (u : UInt16) (t : JsString) :
    readString (unicodeEscape u ++ t) = (readString t).map (consUnit u) := by
  rw [unicodeEscape]
  simp only [List.cons_append, List.nil_append]
  rw [readString, if_neg (by decide), if_pos rfl]
  simp only [if_true, hexUnit_hexDigit]

theorem readString_plain {u : UInt16} (hq : u ≠ 34) (hb : u ≠ 92) (hc : ¬ u.toNat < 32)
    (t : JsString) : readString (u :: t) = (readString t).map (consUnit u) := by
  rw [readString.eq_def]
  simp only [if_neg hq, if_neg hb, if_neg hc]

theorem readString_oneLetter {e u : UInt16} (he : e ≠ 117) (hu : unescape e = some u)
    (t : JsString) : readString ([92, e] ++ t) = (readString t).map (consUnit u) := by
  have h92 : (92 : UInt16) ≠ 34 := by decide
  rw [List.cons_append, List.singleton_append, readString.eq_def]
  simp only [if_neg h92, if_true, if_neg he, hu]

/-- A unit as it is escaped reads back as itself. -/
theorem readString_escapeUnit (u : UInt16) (t : JsString) :
    readString (escapeUnit u ++ t) = (readString t).map (consUnit u) := by
  unfold escapeUnit
  split
  · rename_i h; rw [h]; exact readString_oneLetter (by decide) rfl t
  split
  · rename_i h; rw [h]; exact readString_oneLetter (by decide) rfl t
  split
  · rename_i h; rw [h]; exact readString_oneLetter (by decide) rfl t
  split
  · rename_i h; rw [h]; exact readString_oneLetter (by decide) rfl t
  split
  · rename_i h; rw [h]; exact readString_oneLetter (by decide) rfl t
  split
  · rename_i h; rw [h]; exact readString_oneLetter (by decide) rfl t
  split
  · rename_i h; rw [h]; exact readString_oneLetter (by decide) rfl t
  split
  · exact readString_unicodeEscape u t
  · rename_i hq hb hc
    exact readString_plain hq hb hc t

theorem readString_escapeLone (u : UInt16) (t : JsString) :
    readString (escapeLone u ++ t) = (readString t).map (consUnit u) := by
  unfold escapeLone
  split
  · exact readString_unicodeEscape u t
  · exact readString_escapeUnit u t

/-- A surrogate is read as it stands. -/
theorem readString_surrogate {u : UInt16} (h : 0xD800 ≤ u.toNat) (t : JsString) :
    readString (u :: t) = (readString t).map (consUnit u) := by
  refine readString_plain ?_ ?_ (by omega) t
  · rintro rfl; exact absurd h (by decide)
  · rintro rfl; exact absurd h (by decide)

/-- **A string literal reads back.** -/
theorem readString_escape (s t : JsString) : readString (escape s ++ 34 :: t) = some (s, t) := by
  have hend : readString (34 :: t) = some ([], t) := by
    rw [readString.eq_def]
    exact if_pos rfl
  fun_induction escape s with
  | case1 => exact hend
  | case2 u => rw [readString_escapeLone, hend]; rfl
  | case3 u v s hp ih =>
    rw [Bool.and_eq_true] at hp
    have hu := of_decide_eq_true hp.1
    have hv := of_decide_eq_true hp.2
    rw [List.cons_append, List.cons_append, readString_surrogate hu.1,
      readString_surrogate (by omega), ih]
    rfl
  | case4 u v s hp ih => rw [List.append_assoc, readString_escapeLone, ih]; rfl

/-! ### Whole values -/

section RoundTrip

variable {N : Type} {print : N → JsString} {readNum : JsString → Option N}
  {define : List (JsString × Json N) → JsString → Json N → List (JsString × Json N)}

mutual

/-- Every object is as `define` builds it: no key twice, and in the order of
the language. -/
def Canonical (define : List (JsString × Json N) → JsString → Json N → List (JsString × Json N)) :
    Json N → Prop
  | .null => True
  | .bool _ => True
  | .num _ => True
  | .str _ => True
  | .arr items => CanonicalItems define items
  | .obj fields => CanonicalFields define fields ∧ buildObject define fields = fields

def CanonicalItems
    (define : List (JsString × Json N) → JsString → Json N → List (JsString × Json N)) :
    List (Json N) → Prop
  | [] => True
  | v :: vs => Canonical define v ∧ CanonicalItems define vs

def CanonicalFields
    (define : List (JsString × Json N) → JsString → Json N → List (JsString × Json N)) :
    List (JsString × Json N) → Prop
  | [] => True
  | (_, v) :: fs => Canonical define v ∧ CanonicalFields define fs

end

/-- What follows a number must not go on with it. -/
def NumEnd (t : JsString) : Prop := ∀ u ∈ t.head?, isNumUnit u = false

theorem numEnd_nil : NumEnd [] := fun u hu => by cases hu

theorem numEnd_cons {u : UInt16} (h : isNumUnit u = false) (t : JsString) : NumEnd (u :: t) := by
  intro v hv
  obtain rfl := Option.some.inj hv
  exact h

theorem numEnd_moreItems (vs : List (Json N)) (t : JsString) :
    NumEnd (stringifyMoreItems print vs ++ t) := by
  cases vs with
  | nil => exact numEnd_cons (by decide) _
  | cons v vs => exact numEnd_cons (by decide) _

theorem numEnd_moreFields (fs : List (JsString × Json N)) (t : JsString) :
    NumEnd (stringifyMoreFields print fs ++ t) := by
  cases fs with
  | nil => exact numEnd_cons (by decide) _
  | cons f fs => exact numEnd_cons (by decide) _

theorem skipBlank_cons {u : UInt16} (h : isBlank u = false) (t : JsString) :
    skipBlank (u :: t) = u :: t := by
  rw [skipBlank, List.dropWhile_cons_of_neg (by rw [h]; decide)]

/-- The text of a number is all its token. -/
theorem takeWhile_num {s t : JsString} (hs : ∀ u ∈ s, isNumUnit u = true) (ht : NumEnd t) :
    (s ++ t).takeWhile isNumUnit = s ∧ (s ++ t).dropWhile isNumUnit = t := by
  induction s with
  | nil =>
    cases t with
    | nil => exact ⟨rfl, rfl⟩
    | cons u t =>
      have hu : ¬ isNumUnit u = true := by rw [ht u rfl]; decide
      exact ⟨List.takeWhile_cons_of_neg hu, List.dropWhile_cons_of_neg hu⟩
  | cons u s ih =>
    have hu : isNumUnit u = true := hs u List.mem_cons_self
    have h := ih fun v hv => hs v (List.mem_cons_of_mem _ hv)
    rw [List.cons_append, List.takeWhile_cons_of_pos hu, List.dropWhile_cons_of_pos hu, h.1]
    exact ⟨rfl, h.2⟩

/-- A number token is no blank, no quote, no bracket and no letter of a word. -/
theorem ne_of_isNumUnit {u v : UInt16} (h : isNumUnit u = true) (hv : isNumUnit v = false) :
    u ≠ v := by
  rintro rfl
  rw [h] at hv
  cases hv

theorem isBlank_of_isNumUnit {u : UInt16} (h : isNumUnit u = true) : isBlank u = false := by
  have h1 := ne_of_isNumUnit h (v := 32) (by decide)
  have h2 := ne_of_isNumUnit h (v := 9) (by decide)
  have h3 := ne_of_isNumUnit h (v := 10) (by decide)
  have h4 := ne_of_isNumUnit h (v := 13) (by decide)
  simp only [isBlank, Bool.or_eq_false_iff, beq_eq_false_iff_ne]
  exact ⟨⟨⟨h1, h2⟩, h3⟩, h4⟩

theorem startsWith_cons_ne {u v : UInt16} (h : u ≠ v) (s pat : JsString) :
    startsWith (u :: s) (v :: pat) = false := by
  refine decide_eq_false fun hp => h ?_
  exact (List.cons_prefix_cons.mp hp).1.symm

/-- Reading a number whose text starts the rest. -/
theorem readWord_num (hread : ∀ n, readNum (print n) = some n) (hne : ∀ n, print n ≠ [])
    (hnum : ∀ n, ∀ u ∈ print n, isNumUnit u = true) (n : N) {t : JsString} (ht : NumEnd t) :
    readWord readNum (print n ++ t) = some (.num n, t) := by
  obtain ⟨u, s, hp⟩ := List.exists_cons_of_ne_nil (hne n)
  have hu : isNumUnit u = true := hnum n u (by rw [hp]; exact List.mem_cons_self)
  have hw := takeWhile_num (hnum n) ht
  have h1 : startsWith (print n ++ t) (js "null") = false := by
    rw [hp]; exact startsWith_cons_ne (ne_of_isNumUnit hu (by decide)) _ _
  have h2 : startsWith (print n ++ t) (js "true") = false := by
    rw [hp]; exact startsWith_cons_ne (ne_of_isNumUnit hu (by decide)) _ _
  have h3 : startsWith (print n ++ t) (js "false") = false := by
    rw [hp]; exact startsWith_cons_ne (ne_of_isNumUnit hu (by decide)) _ _
  rw [readWord, h1, h2, h3, hw.1, hw.2, hread]
  rfl

/-- The first unit of a value: no blank, and neither closing bracket. -/
theorem stringify_head (hne : ∀ n, print n ≠ []) (hnum : ∀ n, ∀ u ∈ print n, isNumUnit u = true)
    (v : Json N) : ∃ u t, stringify print v = u :: t ∧ isBlank u = false ∧ u ≠ 93 := by
  cases v with
  | null => exact ⟨110, _, rfl, by decide, by decide⟩
  | bool b =>
    cases b with
    | true => exact ⟨116, _, rfl, by decide, by decide⟩
    | false => exact ⟨102, _, rfl, by decide, by decide⟩
  | num n =>
    obtain ⟨u, s, hp⟩ := List.exists_cons_of_ne_nil (hne n)
    have hu : isNumUnit u = true := hnum n u (by rw [hp]; exact List.mem_cons_self)
    exact ⟨u, s, by rw [stringify, hp], isBlank_of_isNumUnit hu,
      ne_of_isNumUnit hu (by decide)⟩
  | str s => exact ⟨34, _, by rw [stringify, quote], by decide, by decide⟩
  | arr items => exact ⟨91, _, by rw [stringify], by decide, by decide⟩
  | obj fields => exact ⟨123, _, by rw [stringify], by decide, by decide⟩

theorem readValue_str (n : Nat) (s t : JsString) :
    readValue readNum define (n + 1) (quote s ++ t) = some (.str s, t) := by
  have hs : quote s ++ t = 34 :: (escape s ++ 34 :: t) := by simp [quote]
  rw [hs, readValue, skipBlank_cons (by decide)]
  simp only [if_true, readString_escape]
  rfl

theorem readValue_num (hread : ∀ n, readNum (print n) = some n) (hne : ∀ n, print n ≠ [])
    (hnum : ∀ n, ∀ u ∈ print n, isNumUnit u = true) (m : N) (n : Nat) {t : JsString}
    (ht : NumEnd t) : readValue readNum define (n + 1) (print m ++ t) = some (.num m, t) := by
  obtain ⟨u, s, hp⟩ := List.exists_cons_of_ne_nil (hne m)
  have hu : isNumUnit u = true := hnum m u (by rw [hp]; exact List.mem_cons_self)
  have hw := readWord_num hread hne hnum m ht
  rw [hp, List.cons_append, readValue, skipBlank_cons (isBlank_of_isNumUnit hu)]
  simp only [if_neg (ne_of_isNumUnit hu (show isNumUnit 34 = false by decide)),
    if_neg (ne_of_isNumUnit hu (show isNumUnit 91 = false by decide)),
    if_neg (ne_of_isNumUnit hu (show isNumUnit 123 = false by decide))]
  rw [← List.cons_append, ← hp, hw]

/-- A field reads back when its value does. -/
theorem readField_stringify {n : Nat} {v : Json N} {t : JsString} (k : JsString)
    (hv : readValue readNum define n (stringify print v ++ t) = some (v, t)) :
    readField readNum define (n + 1) (quote k ++ 58 :: (stringify print v ++ t)) =
      some ((k, v), t) := by
  have hs : quote k ++ 58 :: (stringify print v ++ t) =
      34 :: (escape k ++ 34 :: (58 :: (stringify print v ++ t))) := by simp [quote]
  rw [hs, readField, skipBlank_cons (by decide)]
  simp only [if_true, readString_escape, skipBlank_cons (show isBlank 58 = false by decide), hv]
  rfl

mutual

theorem readValue_stringify (hread : ∀ n, readNum (print n) = some n) (hne : ∀ n, print n ≠ [])
    (hnum : ∀ n, ∀ u ∈ print n, isNumUnit u = true) :
    ∀ (v : Json N) (n : Nat) (t : JsString), Canonical define v →
      (stringify print v).length ≤ n → NumEnd t →
      readValue readNum define n (stringify print v ++ t) = some (v, t)
  | .null, 0, _, _, hn, _ => absurd hn (by rw [stringify]; decide)
  | .null, n + 1, t, _, _, _ => by
    rw [stringify]
    show readValue readNum define (n + 1) (110 :: _) = _
    rw [readValue, skipBlank_cons (by decide)]
    rfl
  | .bool true, 0, _, _, hn, _ => absurd hn (by rw [stringify]; decide)
  | .bool true, n + 1, t, _, _, _ => by
    rw [stringify]
    show readValue readNum define (n + 1) (116 :: _) = _
    rw [readValue, skipBlank_cons (by decide)]
    rfl
  | .bool false, 0, _, _, hn, _ => absurd hn (by rw [stringify]; decide)
  | .bool false, n + 1, t, _, _, _ => by
    rw [stringify]
    show readValue readNum define (n + 1) (102 :: _) = _
    rw [readValue, skipBlank_cons (by decide)]
    rfl
  | .num m, n, t, _, hn, ht => by
    have hpos : 0 < (print m).length := List.length_pos_of_ne_nil (hne m)
    rw [stringify] at hn
    obtain ⟨k, rfl⟩ : ∃ k, n = k + 1 := ⟨n - 1, by omega⟩
    rw [stringify, readValue_num hread hne hnum m k ht]
  | .str s, n, t, _, hn, _ => by
    rw [stringify, quote, List.length_cons] at hn
    obtain ⟨k, rfl⟩ : ∃ k, n = k + 1 := ⟨n - 1, by omega⟩
    rw [stringify, readValue_str]
  | .arr [], n, t, _, hn, _ => by
    rw [stringify, List.length_cons] at hn
    obtain ⟨k, rfl⟩ : ∃ k, n = k + 1 := ⟨n - 1, by omega⟩
    rw [stringify, stringifyItems, List.cons_append, List.singleton_append, readValue,
      skipBlank_cons (by decide)]
    rfl
  | .arr (v :: vs), n, t, hc, hn, _ => by
    rw [Canonical, CanonicalItems] at hc
    rw [stringify, stringifyItems, List.length_cons, List.length_append] at hn
    obtain ⟨k, rfl⟩ : ∃ k, n = k + 1 := ⟨n - 1, by omega⟩
    have hv := readValue_stringify hread hne hnum v k (stringifyMoreItems print vs ++ t) hc.1
      (by omega) (numEnd_moreItems vs t)
    have hvs := readItems_stringify hread hne hnum vs k t hc.2 (by omega)
    obtain ⟨u, s, hs, hb, hu⟩ := stringify_head hne hnum v
    have hskip : skipBlank (stringify print v ++ (stringifyMoreItems print vs ++ t)) =
        u :: (s ++ (stringifyMoreItems print vs ++ t)) := by
      rw [hs, List.cons_append, skipBlank_cons hb]
    rw [stringify, stringifyItems, List.cons_append, List.append_assoc, readValue,
      skipBlank_cons (by decide)]
    simp only [hskip, List.head?_cons, Option.some.injEq, if_neg hu, hv, hvs]
    rfl
  | .obj [], n, t, _, hn, _ => by
    rw [stringify, List.length_cons] at hn
    obtain ⟨k, rfl⟩ : ∃ k, n = k + 1 := ⟨n - 1, by omega⟩
    rw [stringify, stringifyFields, List.cons_append, List.singleton_append, readValue,
      skipBlank_cons (by decide)]
    rfl
  | .obj ((key, v) :: fs), n, t, hc, hn, _ => by
    rw [Canonical, CanonicalFields] at hc
    rw [stringify, stringifyFields, List.length_cons, List.length_append, List.length_cons,
      List.length_append, quote, List.length_cons] at hn
    obtain ⟨k, rfl⟩ : ∃ k, n = k + 2 := ⟨n - 2, by omega⟩
    have hv := readValue_stringify hread hne hnum v k (stringifyMoreFields print fs ++ t) hc.1.1
      (by omega) (numEnd_moreFields fs t)
    have hf := readField_stringify key hv
    have hfs := readFields_stringify hread hne hnum fs (k + 1) t hc.1.2 (by omega)
    have hskip : skipBlank (quote key ++ 58 :: (stringify print v ++
        (stringifyMoreFields print fs ++ t))) = 34 :: (escape key ++ [34] ++
        58 :: (stringify print v ++ (stringifyMoreFields print fs ++ t))) :=
      skipBlank_cons (by decide) _
    have hne' : (34 : UInt16) ≠ 125 := by decide
    rw [stringify, stringifyFields, List.cons_append, List.append_assoc, List.cons_append,
      List.append_assoc, readValue, skipBlank_cons (by decide)]
    simp only [hskip, List.head?_cons, Option.some.injEq, if_neg hne', hf, hfs]
    show some (Json.obj (buildObject define ((key, v) :: fs)), t) = _
    rw [hc.2]

theorem readItems_stringify (hread : ∀ n, readNum (print n) = some n) (hne : ∀ n, print n ≠ [])
    (hnum : ∀ n, ∀ u ∈ print n, isNumUnit u = true) :
    ∀ (vs : List (Json N)) (n : Nat) (t : JsString), CanonicalItems define vs →
      (stringifyMoreItems print vs).length ≤ n →
      readItems readNum define n (stringifyMoreItems print vs ++ t) = some (vs, t)
  | [], n, t, _, hn => by
    rw [stringifyMoreItems, List.length_singleton] at hn
    obtain ⟨k, rfl⟩ : ∃ k, n = k + 1 := ⟨n - 1, by omega⟩
    rw [stringifyMoreItems, List.singleton_append, readItems, skipBlank_cons (by decide)]
    rfl
  | v :: vs, n, t, hc, hn => by
    rw [CanonicalItems] at hc
    rw [stringifyMoreItems, List.length_cons, List.length_append] at hn
    obtain ⟨k, rfl⟩ : ∃ k, n = k + 1 := ⟨n - 1, by omega⟩
    have hv := readValue_stringify hread hne hnum v k (stringifyMoreItems print vs ++ t) hc.1
      (by omega) (numEnd_moreItems vs t)
    have hvs := readItems_stringify hread hne hnum vs k t hc.2 (by omega)
    have h93 : (44 : UInt16) ≠ 93 := by decide
    rw [stringifyMoreItems, List.cons_append, List.append_assoc, readItems,
      skipBlank_cons (by decide)]
    simp only [if_neg h93, if_true, hv, hvs]
    rfl

theorem readFields_stringify (hread : ∀ n, readNum (print n) = some n) (hne : ∀ n, print n ≠ [])
    (hnum : ∀ n, ∀ u ∈ print n, isNumUnit u = true) :
    ∀ (fs : List (JsString × Json N)) (n : Nat) (t : JsString), CanonicalFields define fs →
      (stringifyMoreFields print fs).length ≤ n →
      readFields readNum define n (stringifyMoreFields print fs ++ t) = some (fs, t)
  | [], n, t, _, hn => by
    rw [stringifyMoreFields, List.length_singleton] at hn
    obtain ⟨k, rfl⟩ : ∃ k, n = k + 1 := ⟨n - 1, by omega⟩
    rw [stringifyMoreFields, List.singleton_append, readFields, skipBlank_cons (by decide)]
    rfl
  | (key, v) :: fs, n, t, hc, hn => by
    rw [CanonicalFields] at hc
    rw [stringifyMoreFields, List.length_cons, List.length_append, List.length_cons,
      List.length_append, quote, List.length_cons] at hn
    obtain ⟨k, rfl⟩ : ∃ k, n = k + 2 := ⟨n - 2, by omega⟩
    have hv := readValue_stringify hread hne hnum v k (stringifyMoreFields print fs ++ t) hc.1
      (by omega) (numEnd_moreFields fs t)
    have hf := readField_stringify key hv
    have hfs := readFields_stringify hread hne hnum fs (k + 1) t hc.2 (by omega)
    have h125 : (44 : UInt16) ≠ 125 := by decide
    rw [stringifyMoreFields, List.cons_append, List.append_assoc, List.cons_append,
      List.append_assoc, readFields, skipBlank_cons (by decide)]
    simp only [if_neg h125, if_true, hf, hfs]
    rfl

end

/-- **Reading undoes writing.** -/
theorem readText_stringify (hread : ∀ n, readNum (print n) = some n) (hne : ∀ n, print n ≠ [])
    (hnum : ∀ n, ∀ u ∈ print n, isNumUnit u = true) {v : Json N} (hv : Canonical define v) :
    readText readNum define (stringify print v) = some v := by
  have h := readValue_stringify hread hne hnum v ((stringify print v).length + 1) [] hv
    (Nat.le_succ _) numEnd_nil
  rw [List.append_nil] at h
  rw [readText, h]
  rfl

end RoundTrip

/-! ### The units of the text -/

theorem hexDigit_ascii {n : Nat} (h : n < 16) : (hexDigit n).toNat < 0x80 ∧ hexDigit n ≠ 13 := by
  have key : ∀ m : Fin 16, (hexDigit m).toNat < 0x80 ∧ hexDigit m ≠ 13 := by decide
  exact key ⟨n, h⟩

theorem mem_unicodeEscape {u v : UInt16} (h : v ∈ unicodeEscape u) : v.toNat < 0x80 ∧ v ≠ 13 := by
  have hu := u.toNat_lt
  simp only [unicodeEscape, List.mem_cons, List.not_mem_nil, or_false] at h
  rcases h with rfl | rfl | rfl | rfl | rfl | rfl
  · decide
  · decide
  · exact hexDigit_ascii (by omega)
  · exact hexDigit_ascii (by omega)
  · exact hexDigit_ascii (by omega)
  · exact hexDigit_ascii (by omega)

theorem mem_shortEscape {u : UInt16} (hu : u.toNat < 0x80 ∧ u ≠ 13) :
    ∀ v ∈ [(92 : UInt16), u], v.toNat < 0x80 ∧ v ≠ 13 := by
  intro v hv
  rcases List.mem_cons.mp hv with rfl | hv
  · decide
  · rw [List.mem_singleton.mp hv]
    exact hu

/-- What an escaped unit is: the unit, or ASCII that is no carriage return. -/
theorem escapeUnit_cases (u : UInt16) :
    (u ≠ 13 ∧ escapeUnit u = [u]) ∨
      (u.toNat < 0x80 ∧ ∀ v ∈ escapeUnit u, v.toNat < 0x80 ∧ v ≠ 13) := by
  unfold escapeUnit
  split
  · rename_i h; subst h; exact Or.inr ⟨by decide, mem_shortEscape (by decide)⟩
  split
  · rename_i h; subst h; exact Or.inr ⟨by decide, mem_shortEscape (by decide)⟩
  split
  · rename_i h; subst h; exact Or.inr ⟨by decide, mem_shortEscape (by decide)⟩
  split
  · rename_i h; subst h; exact Or.inr ⟨by decide, mem_shortEscape (by decide)⟩
  split
  · rename_i h; subst h; exact Or.inr ⟨by decide, mem_shortEscape (by decide)⟩
  split
  · rename_i h; subst h; exact Or.inr ⟨by decide, mem_shortEscape (by decide)⟩
  split
  · rename_i h; subst h; exact Or.inr ⟨by decide, mem_shortEscape (by decide)⟩
  split
  · rename_i h
    exact Or.inr ⟨by omega, fun v hv => mem_unicodeEscape hv⟩
  · rename_i h13 _ _ _
    exact Or.inl ⟨h13, rfl⟩

theorem wellFormed_singleton {u : UInt16} (hh : isHigh u = false) (hl : isLow u = false) :
    WellFormed [u] := by
  have h1 := of_decide_eq_false hh
  have h2 := of_decide_eq_false hl
  have hu := u.toNat_lt
  refine ⟨[u.toNat], fun cp hcp => ?_, ?_⟩
  · obtain rfl := List.mem_singleton.mp hcp
    simp only [Scalar]
    omega
  · rw [List.flatMap_cons, List.flatMap_nil, unitsOf, if_pos (by omega)]
    simp

theorem pairPoint_range {u v : UInt16} (hu : isHigh u = true) (hv : isLow v = true) :
    0x10000 ≤ pairPoint u v ∧ pairPoint u v < 0x110000 ∧
      u.toNat = 0xD800 + (pairPoint u v - 0x10000) / 0x400 ∧
      v.toNat = 0xDC00 + (pairPoint u v - 0x10000) % 0x400 := by
  have h1 := of_decide_eq_true hu
  have h2 := of_decide_eq_true hv
  have hp : pairPoint u v = 0x10000 + (u.toNat - 0xD800) * 0x400 + (v.toNat - 0xDC00) := rfl
  refine ⟨by omega, by omega, by omega, by omega⟩

theorem wellFormed_pair {u v : UInt16} (hu : isHigh u = true) (hv : isLow v = true) :
    WellFormed [u, v] := by
  obtain ⟨hge, hlt, hq, hr⟩ := pairPoint_range hu hv
  refine ⟨[pairPoint u v], fun cp hcp => ?_, ?_⟩
  · rw [List.mem_singleton.mp hcp]
    exact Or.inr ⟨by omega, hlt⟩
  · rw [List.flatMap_cons, List.flatMap_nil, unitsOf, if_neg (by omega), ← hq, ← hr]
    simp

theorem wellFormed_nil : WellFormed [] := ⟨[], fun cp hcp => by simp at hcp, rfl⟩

theorem wellFormed_escapeLone (u : UInt16) : WellFormed (escapeLone u) := by
  unfold escapeLone
  split
  · exact wellFormed_of_ascii fun v hv => (mem_unicodeEscape hv).1
  · rename_i h
    rw [Bool.or_eq_true, not_or, Bool.not_eq_true, Bool.not_eq_true] at h
    rcases escapeUnit_cases u with ⟨_, he⟩ | ⟨_, ha⟩
    · rw [he]
      exact wellFormed_singleton h.1 h.2
    · exact wellFormed_of_ascii fun v hv => (ha v hv).1

/-- **A literal has no lone surrogate**, whatever the string is. -/
theorem wellFormed_escape (s : JsString) : WellFormed (escape s) := by
  fun_induction escape s with
  | case1 => exact wellFormed_nil
  | case2 u => exact wellFormed_escapeLone u
  | case3 u v s hp ih =>
    rw [Bool.and_eq_true] at hp
    exact wellFormed_append (s := [u, v]) (wellFormed_pair hp.1 hp.2) ih
  | case4 u v s hp ih => exact wellFormed_append (wellFormed_escapeLone u) ih

theorem cr_not_mem_escapeLone (u : UInt16) : (13 : UInt16) ∉ escapeLone u := by
  unfold escapeLone
  split
  · exact fun h => (mem_unicodeEscape h).2 rfl
  · rcases escapeUnit_cases u with ⟨hu, he⟩ | ⟨_, ha⟩
    · rw [he]
      exact fun h => hu (List.mem_singleton.mp h).symm
    · exact fun h => (ha 13 h).2 rfl

theorem cr_not_mem_escape (s : JsString) : (13 : UInt16) ∉ escape s := by
  fun_induction escape s with
  | case1 => decide
  | case2 u => exact cr_not_mem_escapeLone u
  | case3 u v s hp ih =>
    rw [Bool.and_eq_true] at hp
    have hu := of_decide_eq_true hp.1
    have hv := of_decide_eq_true hp.2
    intro h
    rcases List.mem_cons.mp h with rfl | h
    · exact absurd hu (by decide)
    · rcases List.mem_cons.mp h with rfl | h
      · exact absurd hv (by decide)
      · exact ih h
  | case4 u v s hp ih =>
    intro h
    rcases List.mem_append.mp h with h | h
    · exact cr_not_mem_escapeLone u h
    · exact ih h

/-- The literal is ASCII when the string is. -/
theorem ascii_escape {s : JsString} (hs : Ascii s) : Ascii (escape s) := by
  have hlone : ∀ u : UInt16, u.toNat < 0x80 → Ascii (escapeLone u) := by
    intro u hu
    unfold escapeLone
    split
    · exact fun v hv => (mem_unicodeEscape hv).1
    · rcases escapeUnit_cases u with ⟨_, he⟩ | ⟨_, ha⟩
      · rw [he]
        exact ascii_cons.mpr ⟨hu, fun v hv => by simp at hv⟩
      · exact fun v hv => (ha v hv).1
  fun_induction escape s with
  | case1 => exact hs
  | case2 u => exact hlone u (ascii_cons.mp hs).1
  | case3 u v s hp ih =>
    rw [ascii_cons, ascii_cons] at hs
    exact ascii_cons.mpr ⟨hs.1, ascii_cons.mpr ⟨hs.2.1, ih hs.2.2⟩⟩
  | case4 u v s hp ih =>
    rw [ascii_cons] at hs
    exact ascii_append.mpr ⟨hlone u hs.1, ih hs.2⟩

theorem escape_cons_of_ascii {u : UInt16} (hu : u.toNat < 0x80) (t : JsString) :
    escape (u :: t) = escapeLone u ++ escape t := by
  cases t with
  | nil => rw [escape, escape, List.append_nil]
  | cons v t =>
    have hh : isHigh u = false := decide_eq_false (by omega)
    rw [escape, hh, Bool.false_and, if_neg (by decide)]

theorem escape_append_of_ascii {r : JsString} (hr : Ascii r) (t : JsString) :
    escape (r ++ t) = escape r ++ escape t := by
  induction r with
  | nil => rfl
  | cons u r ih =>
    rw [ascii_cons] at hr
    rw [List.cons_append, escape_cons_of_ascii hr.1, escape_cons_of_ascii hr.1, ih hr.2,
      List.append_assoc]

/-- The first code point of an ASCII literal is ASCII. -/
theorem ascii_of_ascii_escape_unitsOf {cp : Nat} (h : Scalar cp) (t : JsString)
    (ha : Ascii (escape (unitsOf cp ++ t))) : Ascii (unitsOf cp) ∧ Ascii (escape t) := by
  by_cases hb : cp < 0x10000
  · have hn : (UInt16.ofNat cp).toNat = cp := by
      rw [UInt16.toNat_ofNat']
      exact Nat.mod_eq_of_lt (by omega)
    have hh : isHigh (UInt16.ofNat cp) = false := by
      rw [isHigh, hn]
      rcases h with h | h <;> exact decide_eq_false (by omega)
    have hl : isLow (UInt16.ofNat cp) = false := by
      rw [isLow, hn]
      rcases h with h | h <;> exact decide_eq_false (by omega)
    have he : escape (UInt16.ofNat cp :: t) = escapeUnit (UInt16.ofNat cp) ++ escape t := by
      cases t with
      | nil => simp [escape, escapeLone, hh, hl]
      | cons v t => simp [escape, escapeLone, hh, hl]
    rw [unitsOf, if_pos hb] at ha ⊢
    rw [List.singleton_append, he, ascii_append] at ha
    refine ⟨ascii_cons.mpr ⟨?_, fun v hv => by simp at hv⟩, ha.2⟩
    rcases escapeUnit_cases (UInt16.ofNat cp) with ⟨_, hu⟩ | ⟨hu, _⟩
    · rw [hu, ascii_cons] at ha
      exact ha.1.1
    · exact hu
  · have hc : cp < 0x110000 := by rcases h with h | h <;> omega
    have hu : (UInt16.ofNat (0xD800 + (cp - 0x10000) / 0x400)).toNat
        = 0xD800 + (cp - 0x10000) / 0x400 := by
      rw [UInt16.toNat_ofNat']
      exact Nat.mod_eq_of_lt (by omega)
    have hv : (UInt16.ofNat (0xDC00 + (cp - 0x10000) % 0x400)).toNat
        = 0xDC00 + (cp - 0x10000) % 0x400 := by
      rw [UInt16.toNat_ofNat']
      exact Nat.mod_eq_of_lt (by omega)
    have hp : (isHigh (UInt16.ofNat (0xD800 + (cp - 0x10000) / 0x400)) &&
        isLow (UInt16.ofNat (0xDC00 + (cp - 0x10000) % 0x400))) = true := by
      rw [Bool.and_eq_true, isHigh, isLow, hu, hv]
      exact ⟨decide_eq_true (by omega), decide_eq_true (by omega)⟩
    rw [unitsOf, if_neg hb, List.cons_append, List.singleton_append, escape, if_pos hp,
      ascii_cons, hu] at ha
    omega

/-- **A string without lone surrogates is written in ASCII only if it is ASCII.** -/
theorem ascii_of_ascii_escape {s : JsString} (hs : WellFormed s) (h : Ascii (escape s)) :
    Ascii s := by
  obtain ⟨cps, hcps, rfl⟩ := hs
  induction cps with
  | nil => exact h
  | cons cp cps ih =>
    rw [List.flatMap_cons] at h ⊢
    have hcp := ascii_of_ascii_escape_unitsOf (hcps cp List.mem_cons_self) _ h
    exact ascii_append.mpr ⟨hcp.1, ih (fun c hc => hcps c (List.mem_cons_of_mem _ hc)) hcp.2⟩

/-! ### The units of a whole text -/

mutual

/-- Every string of the value, keys and values, satisfies `P`. -/
def Json.All {N : Type} (P : JsString → Prop) : Json N → Prop
  | .null => True
  | .bool _ => True
  | .num _ => True
  | .str s => P s
  | .arr items => AllItems P items
  | .obj fields => AllFields P fields

def AllItems {N : Type} (P : JsString → Prop) : List (Json N) → Prop
  | [] => True
  | v :: vs => v.All P ∧ AllItems P vs

def AllFields {N : Type} (P : JsString → Prop) : List (JsString × Json N) → Prop
  | [] => True
  | (k, v) :: fs => P k ∧ v.All P ∧ AllFields P fs

end

section Pieces

variable {N : Type} {print : N → JsString} {Q : JsString → Prop}

theorem cons_of (happ : ∀ {s t}, Q s → Q t → Q (s ++ t)) {u : UInt16} {t : JsString}
    (hu : Q [u]) (ht : Q t) : Q (u :: t) := happ hu ht

theorem quote_of (happ : ∀ {s t}, Q s → Q t → Q (s ++ t)) (hq : Q [34]) {s : JsString}
    (hs : Q (escape s)) : Q (quote s) := cons_of happ hq (happ hs hq)

mutual

/-- A property that pieces of text share with their concatenation. -/
theorem stringify_of_all (happ : ∀ {s t}, Q s → Q t → Q (s ++ t))
    (hplain : ∀ {s}, Ascii s → (13 : UInt16) ∉ s → Q s) (hnum : ∀ n, Q (print n)) :
    ∀ v : Json N, v.All (fun s => Q (escape s)) → Q (stringify print v)
  | .null, _ => by rw [stringify]; exact hplain (by decide) (by decide)
  | .bool true, _ => by rw [stringify]; exact hplain (by decide) (by decide)
  | .bool false, _ => by rw [stringify]; exact hplain (by decide) (by decide)
  | .num n, _ => by rw [stringify]; exact hnum n
  | .str s, h => by
    rw [Json.All] at h
    rw [stringify]
    exact quote_of happ (hplain (by decide) (by decide)) h
  | .arr [], _ => by rw [stringify, stringifyItems]; exact hplain (by decide) (by decide)
  | .arr (v :: vs), h => by
    rw [Json.All, AllItems] at h
    rw [stringify, stringifyItems]
    exact cons_of happ (hplain (by decide) (by decide))
      (happ (stringify_of_all happ hplain hnum v h.1) (stringifyItems_of_all happ hplain hnum vs h.2))
  | .obj [], _ => by rw [stringify, stringifyFields]; exact hplain (by decide) (by decide)
  | .obj ((k, v) :: fs), h => by
    rw [Json.All, AllFields] at h
    rw [stringify, stringifyFields]
    have hv := happ (stringify_of_all happ hplain hnum v h.2.1)
      (stringifyFields_of_all happ hplain hnum fs h.2.2)
    exact cons_of happ (hplain (by decide) (by decide))
      (happ (quote_of happ (hplain (by decide) (by decide)) h.1)
        (cons_of happ (hplain (by decide) (by decide)) hv))

theorem stringifyItems_of_all (happ : ∀ {s t}, Q s → Q t → Q (s ++ t))
    (hplain : ∀ {s}, Ascii s → (13 : UInt16) ∉ s → Q s) (hnum : ∀ n, Q (print n)) :
    ∀ vs : List (Json N), AllItems (fun s => Q (escape s)) vs → Q (stringifyMoreItems print vs)
  | [], _ => by rw [stringifyMoreItems]; exact hplain (by decide) (by decide)
  | v :: vs, h => by
    rw [AllItems] at h
    rw [stringifyMoreItems]
    exact cons_of happ (hplain (by decide) (by decide))
      (happ (stringify_of_all happ hplain hnum v h.1) (stringifyItems_of_all happ hplain hnum vs h.2))

theorem stringifyFields_of_all (happ : ∀ {s t}, Q s → Q t → Q (s ++ t))
    (hplain : ∀ {s}, Ascii s → (13 : UInt16) ∉ s → Q s) (hnum : ∀ n, Q (print n)) :
    ∀ fs : List (JsString × Json N), AllFields (fun s => Q (escape s)) fs →
      Q (stringifyMoreFields print fs)
  | [], _ => by rw [stringifyMoreFields]; exact hplain (by decide) (by decide)
  | (k, v) :: fs, h => by
    rw [AllFields] at h
    rw [stringifyMoreFields]
    have hv := happ (stringify_of_all happ hplain hnum v h.2.1)
      (stringifyFields_of_all happ hplain hnum fs h.2.2)
    exact cons_of happ (hplain (by decide) (by decide))
      (happ (quote_of happ (hplain (by decide) (by decide)) h.1)
        (cons_of happ (hplain (by decide) (by decide)) hv))

end

mutual

theorem Json.all_of_forall {P : JsString → Prop} (h : ∀ s, P s) : ∀ v : Json N, v.All P
  | .null => trivial
  | .bool _ => trivial
  | .num _ => trivial
  | .str s => by rw [Json.All]; exact h s
  | .arr items => by rw [Json.All]; exact allItems_of_forall h items
  | .obj fields => by rw [Json.All]; exact allFields_of_forall h fields

theorem allItems_of_forall {P : JsString → Prop} (h : ∀ s, P s) :
    ∀ vs : List (Json N), AllItems P vs
  | [] => trivial
  | v :: vs => by rw [AllItems]; exact ⟨v.all_of_forall h, allItems_of_forall h vs⟩

theorem allFields_of_forall {P : JsString → Prop} (h : ∀ s, P s) :
    ∀ fs : List (JsString × Json N), AllFields P fs
  | [] => trivial
  | (k, v) :: fs => by rw [AllFields]; exact ⟨h k, v.all_of_forall h, allFields_of_forall h fs⟩

end

mutual

theorem all_of_ascii_stringify : ∀ v : Json N, Ascii (stringify print v) →
    v.All fun s => Ascii (escape s)
  | .null, _ => trivial
  | .bool _, _ => trivial
  | .num _, _ => trivial
  | .str s, h => by
    rw [stringify, quote, ascii_cons, ascii_append] at h
    rw [Json.All]
    exact h.2.1
  | .arr [], _ => trivial
  | .arr (v :: vs), h => by
    rw [stringify, stringifyItems, ascii_cons, ascii_append] at h
    rw [Json.All, AllItems]
    exact ⟨all_of_ascii_stringify v h.2.1, allItems_of_ascii_stringify vs h.2.2⟩
  | .obj [], _ => trivial
  | .obj ((k, v) :: fs), h => by
    rw [stringify, stringifyFields, quote, ascii_cons, ascii_append, ascii_cons, ascii_append,
      ascii_cons, ascii_cons, ascii_append] at h
    rw [Json.All, AllFields]
    exact ⟨h.2.1.2.1, all_of_ascii_stringify v h.2.2.2.1, allFields_of_ascii_stringify fs h.2.2.2.2⟩

theorem allItems_of_ascii_stringify : ∀ vs : List (Json N), Ascii (stringifyMoreItems print vs) →
    AllItems (fun s => Ascii (escape s)) vs
  | [], _ => trivial
  | v :: vs, h => by
    rw [stringifyMoreItems, ascii_cons, ascii_append] at h
    rw [AllItems]
    exact ⟨all_of_ascii_stringify v h.2.1, allItems_of_ascii_stringify vs h.2.2⟩

theorem allFields_of_ascii_stringify : ∀ fs : List (JsString × Json N),
    Ascii (stringifyMoreFields print fs) → AllFields (fun s => Ascii (escape s)) fs
  | [], _ => trivial
  | (k, v) :: fs, h => by
    rw [stringifyMoreFields, quote, ascii_cons, ascii_append, ascii_cons, ascii_append,
      ascii_cons, ascii_cons, ascii_append] at h
    rw [AllFields]
    exact ⟨h.2.1.2.1, all_of_ascii_stringify v h.2.2.2.1, allFields_of_ascii_stringify fs h.2.2.2.2⟩

end

theorem isNumUnit_ascii {u : UInt16} (h : isNumUnit u = true) : u.toNat < 0x80 ∧ u ≠ 13 := by
  refine ⟨?_, ne_of_isNumUnit h (by decide)⟩
  simp only [isNumUnit, isDigit, Bool.or_eq_true, decide_eq_true_eq, beq_iff_eq] at h
  rcases h with ((((h | rfl) | rfl) | rfl) | rfl) | rfl
  · omega
  all_goals decide

/-- **The text has no lone surrogate**, so it survives UTF-8. -/
theorem wellFormed_stringify (hnum : ∀ n, ∀ u ∈ print n, isNumUnit u = true) (v : Json N) :
    WellFormed (stringify print v) :=
  stringify_of_all wellFormed_append (fun h _ => wellFormed_of_ascii h)
    (fun n => wellFormed_of_ascii fun u hu => (isNumUnit_ascii (hnum n u hu)).1) v
    (v.all_of_forall wellFormed_escape)

/-- **The text has no carriage return**, so no header ends in it. -/
theorem cr_not_mem_stringify (hnum : ∀ n, ∀ u ∈ print n, isNumUnit u = true) (v : Json N) :
    (13 : UInt16) ∉ stringify print v := by
  refine stringify_of_all (Q := fun s => (13 : UInt16) ∉ s) ?_ (fun _ h => h)
    (fun n h => (isNumUnit_ascii (hnum n 13 h)).2 rfl) v (v.all_of_forall cr_not_mem_escape)
  intro s t hs ht h
  rcases List.mem_append.mp h with h | h
  · exact hs h
  · exact ht h

/-- **The text is ASCII exactly when every string is written in ASCII.** -/
theorem ascii_stringify_iff (hnum : ∀ n, ∀ u ∈ print n, isNumUnit u = true) (v : Json N) :
    Ascii (stringify print v) ↔ v.All fun s => Ascii (escape s) := by
  constructor
  · exact all_of_ascii_stringify v
  · exact stringify_of_all (fun hs ht => ascii_append.mpr ⟨hs, ht⟩) (fun h _ => h)
      (fun n u hu => (isNumUnit_ascii (hnum n u hu)).1) v

mutual

theorem Json.All.mono {P R : JsString → Prop} (h : ∀ s, P s → R s) :
    ∀ {v : Json N}, v.All P → v.All R
  | .null, _ => trivial
  | .bool _, _ => trivial
  | .num _, _ => trivial
  | .str s, hv => by rw [Json.All] at hv ⊢; exact h s hv
  | .arr items, hv => by rw [Json.All] at hv ⊢; exact AllItems.mono h hv
  | .obj fields, hv => by rw [Json.All] at hv ⊢; exact AllFields.mono h hv

theorem AllItems.mono {P R : JsString → Prop} (h : ∀ s, P s → R s) :
    ∀ {vs : List (Json N)}, AllItems P vs → AllItems R vs
  | [], _ => trivial
  | v :: vs, hv => by rw [AllItems] at hv ⊢; exact ⟨hv.1.mono h, AllItems.mono h hv.2⟩

theorem AllFields.mono {P R : JsString → Prop} (h : ∀ s, P s → R s) :
    ∀ {fs : List (JsString × Json N)}, AllFields P fs → AllFields R fs
  | [], _ => trivial
  | (k, v) :: fs, hv => by
    rw [AllFields] at hv ⊢
    exact ⟨h k hv.1, hv.2.1.mono h, AllFields.mono h hv.2.2⟩

end

end Pieces

/-! ### Integers -/

theorem isNumUnit_decimalInt (n : Int) : ∀ u ∈ decimalInt n, isNumUnit u = true := by
  intro u hu
  have hdigit : ∀ m : Nat, u ∈ decimal m → isNumUnit u = true := by
    intro m hm
    rw [isNumUnit, isDigit_decimal hm]
    rfl
  cases n with
  | ofNat n => exact hdigit n hu
  | negSucc n =>
    rcases List.mem_cons.mp hu with rfl | hu
    · decide
    · exact hdigit _ hu

theorem decimalInt_ne_nil (n : Int) : decimalInt n ≠ [] := by
  cases n with
  | ofNat n => exact decimal_ne_nil n
  | negSucc n => exact List.cons_ne_nil _ _

/-- The integers, as both languages write them. -/
def intText : NumText Int where
  read := parseDecimalInt
  js := decimalInt
  dart := decimalInt
  ofInt := id
  read_js := parseDecimalInt_decimalInt
  read_dart := parseDecimalInt_decimalInt
  js_ne_nil := decimalInt_ne_nil
  dart_ne_nil := decimalInt_ne_nil
  js_num := isNumUnit_decimalInt
  dart_num := isNumUnit_decimalInt

end FullstackSvc.Text
