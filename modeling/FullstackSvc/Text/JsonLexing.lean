import Mathlib.Data.List.TakeWhile
import FullstackSvc.Text.JsonMap

/-!
# Brackets and quotes of a JSON text

`lexUnit` follows a text unit by unit: how deep it is in brackets, and whether it
is in a string.  It refuses what no JSON text has, a control character in a
string or a foreign unit outside of one, and reads everything else.

* `lex_of_readText`: **what a parser accepts ends outside, at depth zero**.
* `lex_stringify_front`: a string, an array or an object as it is written **does
  not end there before its last unit**.
* `strValues_of_cut`: so **a part of a text that is written has no string**, also when
  a cut through its bytes has left replacement characters.
-/

namespace FullstackSvc.Text

variable {N : Type}

/-! ### The lexer -/

/-- Where a text stands, with the number of open brackets. -/
inductive LexState
  | outside (depth : Nat)
  | inString (depth : Nat)
  | escaped (depth : Nat)
  | refused
  deriving DecidableEq

/-- A unit that stands between strings and brackets: blanks, `,`, `:`, numbers and the
letters of `null`, `true` and `false`. -/
def isBetween (u : UInt16) : Bool :=
  isBlank u || u == 44 || u == 58 || isNumUnit u || u ∈ js "nultrefas"

def lexUnit : LexState → UInt16 → LexState
  | .outside d, u =>
    if u = 34 then .inString d
    else if u = 91 ∨ u = 123 then .outside (d + 1)
    else if u = 93 ∨ u = 125 then if d = 0 then .refused else .outside (d - 1)
    else if isBetween u then .outside d
    else .refused
  | .inString d, u =>
    if u = 34 then .outside d
    else if u = 92 then .escaped d
    else if u.toNat < 32 then .refused
    else .inString d
  | .escaped d, u => if u.toNat < 32 then .refused else .inString d
  | .refused, _ => .refused

def lex (st : LexState) (s : JsString) : LexState := s.foldl lexUnit st

@[simp] theorem lex_nil (st : LexState) : lex st [] = st := rfl

@[simp] theorem lex_cons (st : LexState) (u : UInt16) (t : JsString) :
    lex st (u :: t) = lex (lexUnit st u) t := rfl

@[simp] theorem lex_append (st : LexState) (s t : JsString) : lex st (s ++ t) = lex (lex st s) t :=
  List.foldl_append

theorem lex_refused (s : JsString) : lex .refused s = .refused := by
  induction s with
  | nil => rfl
  | cons u t ih => exact ih

theorem lexUnit_between {u : UInt16} (h : isBetween u = true) (d : Nat) :
    lexUnit (.outside d) u = .outside d := by
  have hne : ∀ v : UInt16, isBetween v = false → u ≠ v := by
    rintro v hv rfl
    rw [h] at hv
    cases hv
  have h34 := hne 34 (by decide)
  have hopen : ¬ (u = 91 ∨ u = 123) := not_or.mpr ⟨hne _ (by decide), hne _ (by decide)⟩
  have hclose : ¬ (u = 93 ∨ u = 125) := not_or.mpr ⟨hne _ (by decide), hne _ (by decide)⟩
  rw [lexUnit, if_neg h34, if_neg hopen, if_neg hclose, if_pos h]

theorem lex_between {s : JsString} (h : ∀ u ∈ s, isBetween u = true) (d : Nat) :
    lex (.outside d) s = .outside d := by
  induction s with
  | nil => rfl
  | cons u t ih =>
    rw [lex_cons, lexUnit_between (h u List.mem_cons_self), ih fun v hv => h v (List.mem_cons_of_mem _ hv)]

theorem isBetween_of_isBlank {u : UInt16} (h : isBlank u = true) : isBetween u = true := by
  rw [isBetween, h]
  rfl

theorem isBetween_of_isNumUnit {u : UInt16} (h : isNumUnit u = true) : isBetween u = true := by
  simp [isBetween, h]

/-- A unit of a string that is neither a quote nor a backslash nor a control character. -/
theorem lexUnit_plain {u : UInt16} (hq : u ≠ 34) (hb : u ≠ 92) (hc : ¬ u.toNat < 32) (d : Nat) :
    lexUnit (.inString d) u = .inString d := by
  rw [lexUnit, if_neg hq, if_neg hb, if_neg hc]

theorem lexUnit_escaped {u : UInt16} (hc : ¬ u.toNat < 32) (d : Nat) :
    lexUnit (.escaped d) u = .inString d := by
  rw [lexUnit, if_neg hc]

/-- After a replacement character nothing is closed. -/
theorem lexUnit_replacement (st : LexState) : lexUnit st 0xFFFD ≠ .outside 0 := by
  have hbetween : isBetween 0xFFFD = false := by decide
  cases st with
  | outside d =>
    have hout : lexUnit (.outside d) 0xFFFD = .refused := by
      rw [lexUnit, if_neg (by decide), if_neg (by decide), if_neg (by decide), hbetween]
      rfl
    rw [hout]
    intro h
    cases h
  | inString d =>
    rw [lexUnit_plain (by decide) (by decide) (by decide)]
    intro h
    cases h
  | escaped d =>
    rw [lexUnit_escaped (by decide)]
    intro h
    cases h
  | refused =>
    intro h
    cases h

/-! ### What a parser accepts -/

theorem skipBlank_split (s : JsString) : ∃ blanks, s = blanks ++ skipBlank s ∧
    ∀ d, lex (.outside d) blanks = .outside d := by
  refine ⟨s.takeWhile isBlank, List.takeWhile_append_dropWhile.symm, fun d => ?_⟩
  exact lex_between (fun u hu => isBetween_of_isBlank (List.mem_takeWhile_imp hu)) d

/-- The units of a hexadecimal number are units of a string. -/
theorem plain_of_hexValue {u : UInt16} {n : Nat} (h : hexValue u = some n) :
    u ≠ 34 ∧ u ≠ 92 ∧ ¬ u.toNat < 32 := by
  have hrange : 48 ≤ u.toNat ∧ u.toNat ≠ 92 := by
    unfold hexValue at h
    split at h
    · omega
    · split at h
      · omega
      · split at h
        · omega
        · cases h
  refine ⟨?_, ?_, by omega⟩
  · rintro rfl
    exact absurd hrange.1 (by decide)
  · rintro rfl
    exact hrange.2 rfl

theorem lex_hexUnit {a b c d : UInt16} {v : UInt16} (h : hexUnit a b c d = some v) (n : Nat) :
    lex (.inString n) [a, b, c, d] = .inString n := by
  unfold hexUnit at h
  split at h
  · rename_i ha hb hc hd
    obtain ⟨ha, ha', ha''⟩ := plain_of_hexValue ha
    obtain ⟨hb, hb', hb''⟩ := plain_of_hexValue hb
    obtain ⟨hc, hc', hc''⟩ := plain_of_hexValue hc
    obtain ⟨hd, hd', hd''⟩ := plain_of_hexValue hd
    rw [lex_cons, lexUnit_plain ha ha' ha'', lex_cons, lexUnit_plain hb hb' hb'', lex_cons,
      lexUnit_plain hc hc' hc'', lex_cons, lexUnit_plain hd hd' hd'']
    rfl
  · cases h

theorem not_control_of_unescape {u v : UInt16} (h : unescape u = some v) : ¬ u.toNat < 32 := by
  unfold unescape at h
  intro hlt
  have hne : ∀ w : UInt16, ¬ w.toNat < 32 → u ≠ w := by
    rintro w hw rfl
    exact hw hlt
  rw [if_neg (by
    rintro (he | he | he)
    · exact hne _ (by decide) he
    · exact hne _ (by decide) he
    · exact hne _ (by decide) he), if_neg (hne _ (by decide)), if_neg (hne _ (by decide)),
    if_neg (hne _ (by decide)), if_neg (hne _ (by decide)), if_neg (hne _ (by decide))] at h
  cases h

theorem lex_readString {s t r : JsString} (h : readString s = some (t, r)) :
    ∃ p, s = p ++ r ∧ ∀ d, lex (.inString d) p = .outside d := by
  fun_induction readString s generalizing t with
  | case1 => cases h
  | case2 u =>
    obtain ⟨-, rfl⟩ := Prod.mk.inj (Option.some.inj h)
    exact ⟨[34], rfl, fun d => rfl⟩
  | case3 => cases h
  | case4 a b c d s v hv hu ih =>
    obtain ⟨q, hq, hqr⟩ := Option.map_eq_some_iff.mp h
    obtain ⟨-, rfl⟩ := Prod.mk.inj hqr
    obtain ⟨p, rfl, hp⟩ := ih hq
    refine ⟨92 :: 117 :: ([a, b, c, d] ++ p), rfl, fun n => ?_⟩
    have hescape : lex (.inString n) [92, 117] = .inString n := rfl
    show lex (lex (.inString n) [92, 117]) ([a, b, c, d] ++ p) = _
    rw [hescape, lex_append, lex_hexUnit hv, hp]
  | case5 => cases h
  | case6 => cases h
  | case7 e s he v hv hu ih =>
    obtain ⟨q, hq, hqr⟩ := Option.map_eq_some_iff.mp h
    obtain ⟨-, rfl⟩ := Prod.mk.inj hqr
    obtain ⟨p, rfl, hp⟩ := ih hq
    refine ⟨92 :: e :: p, rfl, fun n => ?_⟩
    show lex (lexUnit (.escaped n) e) p = _
    rw [lexUnit_escaped (not_control_of_unescape hv), hp]
  | case8 => cases h
  | case9 => cases h
  | case10 u s hq hb hc ih =>
    obtain ⟨q, hread, hqr⟩ := Option.map_eq_some_iff.mp h
    obtain ⟨-, rfl⟩ := Prod.mk.inj hqr
    obtain ⟨p, rfl, hp⟩ := ih hread
    refine ⟨u :: p, rfl, fun n => ?_⟩
    rw [lex_cons, lexUnit_plain hq hb hc, hp]

/-- What the four readers take off a text, with some fuel. -/
structure Lexes (readNum : JsString → Option N)
    (define : List (JsString × Json N) → JsString → Json N → List (JsString × Json N))
    (n : Nat) : Prop where
  value : ∀ s v r, readValue readNum define n s = some (v, r) →
    ∃ p, s = p ++ r ∧ ∀ d, lex (.outside d) p = .outside d
  items : ∀ s vs r, readItems readNum define n s = some (vs, r) →
    ∃ p, s = p ++ r ∧ ∀ d, lex (.outside (d + 1)) p = .outside d
  field : ∀ s f r, readField readNum define n s = some (f, r) →
    ∃ p, s = p ++ r ∧ ∀ d, lex (.outside d) p = .outside d
  fields : ∀ s fs r, readFields readNum define n s = some (fs, r) →
    ∃ p, s = p ++ r ∧ ∀ d, lex (.outside (d + 1)) p = .outside d

variable {readNum : JsString → Option N}
  {define : List (JsString × Json N) → JsString → Json N → List (JsString × Json N)}

theorem lex_readWord {s r : JsString} {v : Json N} (h : readWord readNum s = some (v, r)) :
    ∃ p, s = p ++ r ∧ ∀ d, lex (.outside d) p = .outside d := by
  have hword : ∀ word : JsString, (∀ u ∈ word, isBetween u = true) → startsWith s word = true →
      ∃ p, s = p ++ s.drop word.length ∧ ∀ d, lex (.outside d) p = .outside d := by
    intro word hw hs
    obtain ⟨t, rfl⟩ := startsWith_iff.mp hs
    exact ⟨word, by rw [List.drop_left], fun d => lex_between hw d⟩
  unfold readWord at h
  split at h
  · rename_i hs
    obtain ⟨-, rfl⟩ := Prod.mk.inj (Option.some.inj h)
    exact hword (js "null") (forall_units (by decide)) hs
  · split at h
    · rename_i hs
      obtain ⟨-, rfl⟩ := Prod.mk.inj (Option.some.inj h)
      exact hword (js "true") (forall_units (by decide)) hs
    · split at h
      · rename_i hs
        obtain ⟨-, rfl⟩ := Prod.mk.inj (Option.some.inj h)
        exact hword (js "false") (forall_units (by decide)) hs
      · obtain ⟨n, -, hp⟩ := Option.map_eq_some_iff.mp h
        obtain ⟨-, rfl⟩ := Prod.mk.inj hp
        exact ⟨s.takeWhile isNumUnit, List.takeWhile_append_dropWhile.symm, fun d =>
          lex_between (fun u hu => isBetween_of_isNumUnit (List.mem_takeWhile_imp hu)) d⟩

theorem Lexes.zero : Lexes readNum define 0 := by
  refine ⟨fun s v t h => ?_, fun s vs t h => ?_, fun s f t h => ?_, fun s fs t h => ?_⟩
  · simp [readValue] at h
  · simp [readItems] at h
  · simp [readField] at h
  · simp [readFields] at h

/-- Blanks and one unit come before the rest. -/
theorem lex_unit {s t p r : JsString} {u : UInt16} (hs : skipBlank s = u :: t) (ht : t = p ++ r) :
    ∃ q, s = q ++ r ∧ ∀ d, lex (.outside d) q = lex (lexUnit (.outside d) u) p := by
  obtain ⟨blanks, hsplit, hblanks⟩ := skipBlank_split s
  refine ⟨blanks ++ u :: p, ?_, fun d => ?_⟩
  · rw [List.append_assoc, List.cons_append, ← ht, ← hs]
    exact hsplit
  · rw [lex_append, hblanks, lex_cons]

/-- Blanks, one unit and two parts come before the rest. -/
theorem lex_unit_parts {s t p m p' r : JsString} {u : UInt16} (hs : skipBlank s = u :: t)
    (ht : t = p ++ m) (hm : m = p' ++ r) :
    ∃ q, s = q ++ r ∧ ∀ d, lex (.outside d) q = lex (lex (lexUnit (.outside d) u) p) p' := by
  rw [hm, ← List.append_assoc] at ht
  obtain ⟨q, hq, hlex⟩ := lex_unit hs ht
  exact ⟨q, hq, fun d => (hlex d).trans (lex_append _ p p')⟩

theorem lexUnit_open {u : UInt16} (h : u = 91 ∨ u = 123) (d : Nat) :
    lexUnit (.outside d) u = .outside (d + 1) := by
  rcases h with rfl | rfl
  · rfl
  · rfl

theorem lexUnit_close {u : UInt16} (h : u = 93 ∨ u = 125) (d : Nat) :
    lexUnit (.outside (d + 1)) u = .outside d := by
  rcases h with rfl | rfl
  · rfl
  · rfl

/-- Brackets with nothing in them. -/
theorem lex_empty {s t : JsString} {u v : UInt16} (hs : skipBlank s = u :: t)
    (ht : (skipBlank t).head? = some v) (hu : u = 91 ∨ u = 123) (hv : v = 93 ∨ v = 125) :
    ∃ p, s = p ++ (skipBlank t).tail ∧ ∀ d, lex (.outside d) p = .outside d := by
  obtain ⟨w, hw⟩ := List.head?_eq_some_iff.mp ht
  obtain ⟨p, hp, hlex⟩ := lex_unit (p := []) (r := w) hw rfl
  obtain ⟨q, hq, hlex'⟩ := lex_unit hs hp
  refine ⟨q, by rw [hw]; exact hq, fun d => ?_⟩
  rw [hlex', lexUnit_open hu, hlex, lexUnit_close hv]
  rfl

section Step

variable {n : Nat} (ih : Lexes readNum define n)

include ih

theorem Lexes.value_succ {s r : JsString} {v : Json N}
    (h : readValue readNum define (n + 1) s = some (v, r)) :
    ∃ p, s = p ++ r ∧ ∀ d, lex (.outside d) p = .outside d := by
  rw [readValue] at h
  split at h
  · cases h
  · rename_i u t hs
    split at h
    · rename_i hu
      obtain ⟨q, hq, hqr⟩ := Option.map_eq_some_iff.mp h
      obtain ⟨-, rfl⟩ := Prod.mk.inj hqr
      obtain ⟨p, hp, hlex⟩ := lex_readString hq
      obtain ⟨p', hp', hlex'⟩ := lex_unit hs hp
      refine ⟨p', hp', fun d => ?_⟩
      rw [hlex', hu]
      exact hlex d
    · split at h
      · rename_i hu
        split at h
        · rename_i hhead
          obtain ⟨-, rfl⟩ := Prod.mk.inj (Option.some.inj h)
          exact lex_empty hs hhead (Or.inl hu) (Or.inl rfl)
        · split at h
          · cases h
          · rename_i w r' hw
            obtain ⟨q, hq, hqr⟩ := Option.map_eq_some_iff.mp h
            obtain ⟨-, rfl⟩ := Prod.mk.inj hqr
            obtain ⟨p, hp, hlex⟩ := ih.value _ _ _ hw
            obtain ⟨p', hp', hlex'⟩ := ih.items _ _ _ hq
            obtain ⟨front, hfront, hlexf⟩ := lex_unit_parts hs hp hp'
            refine ⟨front, hfront, fun d => ?_⟩
            rw [hlexf, lexUnit_open (Or.inl hu), hlex, hlex']
      · split at h
        · rename_i hu
          split at h
          · rename_i hhead
            obtain ⟨-, rfl⟩ := Prod.mk.inj (Option.some.inj h)
            exact lex_empty hs hhead (Or.inr hu) (Or.inr rfl)
          · split at h
            · cases h
            · rename_i f r' hf
              obtain ⟨q, hq, hqr⟩ := Option.map_eq_some_iff.mp h
              obtain ⟨-, rfl⟩ := Prod.mk.inj hqr
              obtain ⟨p, hp, hlex⟩ := ih.field _ _ _ hf
              obtain ⟨p', hp', hlex'⟩ := ih.fields _ _ _ hq
              obtain ⟨front, hfront, hlexf⟩ := lex_unit_parts hs hp hp'
              refine ⟨front, hfront, fun d => ?_⟩
              rw [hlexf, lexUnit_open (Or.inr hu), hlex, hlex']
        · obtain ⟨p, hp, hlex⟩ := lex_readWord h
          obtain ⟨blanks, hsplit, hblanks⟩ := skipBlank_split s
          refine ⟨blanks ++ p, ?_, fun d => ?_⟩
          · rw [List.append_assoc, ← hp, ← hs]
            exact hsplit
          · rw [lex_append, hblanks, hlex]

theorem Lexes.items_succ {s r : JsString} {vs : List (Json N)}
    (h : readItems readNum define (n + 1) s = some (vs, r)) :
    ∃ p, s = p ++ r ∧ ∀ d, lex (.outside (d + 1)) p = .outside d := by
  rw [readItems] at h
  split at h
  · cases h
  · rename_i u t hs
    split at h
    · rename_i hu
      obtain ⟨-, rfl⟩ := Prod.mk.inj (Option.some.inj h)
      obtain ⟨p, hp, hlex⟩ := lex_unit (p := []) hs rfl
      refine ⟨p, hp, fun d => ?_⟩
      rw [hlex, lexUnit_close (Or.inl hu)]
      rfl
    · split at h
      · rename_i hu
        split at h
        · cases h
        · rename_i w r' hw
          obtain ⟨q, hq, hqr⟩ := Option.map_eq_some_iff.mp h
          obtain ⟨-, rfl⟩ := Prod.mk.inj hqr
          obtain ⟨p, hp, hlex⟩ := ih.value _ _ _ hw
          obtain ⟨p', hp', hlex'⟩ := ih.items _ _ _ hq
          obtain ⟨front, hfront, hlexf⟩ := lex_unit_parts hs hp hp'
          refine ⟨front, hfront, fun d => ?_⟩
          rw [hlexf, hu, lexUnit_between (by decide), hlex, hlex']
      · cases h

theorem Lexes.field_succ {s r : JsString} {f : JsString × Json N}
    (h : readField readNum define (n + 1) s = some (f, r)) :
    ∃ p, s = p ++ r ∧ ∀ d, lex (.outside d) p = .outside d := by
  rw [readField] at h
  split at h
  · cases h
  · rename_i u t hs
    split at h
    · rename_i hu
      split at h
      · cases h
      · rename_i k r₁ hk
        split at h
        · cases h
        · rename_i w r₂ hr₂
          split at h
          · rename_i hw
            obtain ⟨q, hq, hqr⟩ := Option.map_eq_some_iff.mp h
            obtain ⟨-, rfl⟩ := Prod.mk.inj hqr
            obtain ⟨p, hp, hlex⟩ := lex_readString hk
            obtain ⟨p', hp', hlex'⟩ := ih.value _ _ _ hq
            obtain ⟨p₁, hp₁, hlex₁⟩ := lex_unit hr₂ hp'
            obtain ⟨p₂, hp₂, hlex₂⟩ := lex_unit_parts hs hp hp₁
            refine ⟨p₂, hp₂, fun d => ?_⟩
            have hquote : lexUnit (.outside d) u = .inString d := by rw [hu]; rfl
            rw [hlex₂, hquote, hlex, hlex₁, hw, lexUnit_between (by decide), hlex']
          · cases h
    · cases h

theorem Lexes.fields_succ {s r : JsString} {fs : List (JsString × Json N)}
    (h : readFields readNum define (n + 1) s = some (fs, r)) :
    ∃ p, s = p ++ r ∧ ∀ d, lex (.outside (d + 1)) p = .outside d := by
  rw [readFields] at h
  split at h
  · cases h
  · rename_i u t hs
    split at h
    · rename_i hu
      obtain ⟨-, rfl⟩ := Prod.mk.inj (Option.some.inj h)
      obtain ⟨p, hp, hlex⟩ := lex_unit (p := []) hs rfl
      refine ⟨p, hp, fun d => ?_⟩
      rw [hlex, lexUnit_close (Or.inr hu)]
      rfl
    · split at h
      · rename_i hu
        split at h
        · cases h
        · rename_i f r' hf
          obtain ⟨q, hq, hqr⟩ := Option.map_eq_some_iff.mp h
          obtain ⟨-, rfl⟩ := Prod.mk.inj hqr
          obtain ⟨p, hp, hlex⟩ := ih.field _ _ _ hf
          obtain ⟨p', hp', hlex'⟩ := ih.fields _ _ _ hq
          obtain ⟨front, hfront, hlexf⟩ := lex_unit_parts hs hp hp'
          refine ⟨front, hfront, fun d => ?_⟩
          rw [hlexf, hu, lexUnit_between (by decide), hlex, hlex']
      · cases h

end Step

theorem lexes (n : Nat) : Lexes readNum define n := by
  induction n with
  | zero => exact .zero
  | succ n ih =>
    exact ⟨fun _ _ _ h => ih.value_succ h, fun _ _ _ h => ih.items_succ h,
      fun _ _ _ h => ih.field_succ h, fun _ _ _ h => ih.fields_succ h⟩

/-- **What a parser accepts ends outside, at depth zero.** -/
theorem lex_of_readText {s : JsString} {v : Json N} (h : readText readNum define s = some v) :
    lex (.outside 0) s = .outside 0 := by
  unfold readText at h
  split at h
  · cases h
  · rename_i w r hw
    split at h
    · rename_i hr
      obtain ⟨p, hp, hlex⟩ := (lexes _).value _ _ _ hw
      obtain ⟨blanks, hsplit, hblanks⟩ := skipBlank_split r
      rw [hr, List.append_nil] at hsplit
      rw [hp, lex_append, hlex, hsplit, hblanks]
    · cases h

/-! ### Every state on the way -/

/-- The states on the way through a text, the first and the last one with them. -/
def Along (P : LexState → Prop) (st : LexState) : JsString → Prop
  | [] => P st
  | u :: t => P st ∧ Along P (lexUnit st u) t

variable {P : LexState → Prop}

theorem along_append {st : LexState} {s t : JsString} (hs : Along P st s)
    (ht : Along P (lex st s) t) : Along P st (s ++ t) := by
  induction s generalizing st with
  | nil => exact ht
  | cons u s ih => exact ⟨hs.1, ih hs.2 ht⟩

theorem Along.mono {Q : LexState → Prop} (hPQ : ∀ st, P st → Q st) {st : LexState} {s : JsString}
    (h : Along P st s) : Along Q st s := by
  induction s generalizing st with
  | nil => exact hPQ st h
  | cons u s ih => exact ⟨hPQ st h.1, ih h.2⟩

/-- A front of the text ends in one of them. -/
theorem Along.front {st : LexState} {s u : JsString} (h : Along P st s) (hu : u <+: s) :
    P (lex st u) := by
  induction u generalizing st s with
  | nil =>
    cases s with
    | nil => exact h
    | cons a s => exact h.1
  | cons a u ih =>
    cases s with
    | nil => exact absurd (List.prefix_nil.mp hu) (List.cons_ne_nil a u)
    | cons b s =>
      obtain ⟨he, ht⟩ := List.cons_prefix_cons.mp hu
      subst he
      exact ih h.2 ht

/-- The text leads back to where it begins. -/
structure Returns (P : LexState → Prop) (st : LexState) (s : JsString) : Prop where
  ends : lex st s = st
  along : Along P st s

theorem returns_nil {st : LexState} (h : P st) : Returns P st [] := ⟨rfl, h⟩

theorem Returns.append {st : LexState} {s t : JsString} (hs : Returns P st s)
    (ht : Returns P st t) : Returns P st (s ++ t) := by
  refine ⟨by rw [lex_append, hs.ends, ht.ends], along_append hs.along ?_⟩
  rw [hs.ends]
  exact ht.along

/-- A unit that changes nothing. -/
theorem returns_unit {st : LexState} {u : UInt16} (h : P st) (hu : lexUnit st u = st) :
    Returns P st [u] := by
  refine ⟨hu, h, ?_⟩
  rw [hu]
  exact h

theorem returns_units {st : LexState} {s : JsString} (h : P st) (hs : ∀ u ∈ s, lexUnit st u = st) :
    Returns P st s := by
  induction s with
  | nil => exact returns_nil h
  | cons u t ih =>
    exact (returns_unit h (hs u List.mem_cons_self)).append
      (ih fun v hv => hs v (List.mem_cons_of_mem _ hv))

/-- A text between an opening and a closing unit. -/
theorem Returns.between {Q : LexState → Prop} {st inner : LexState} {a b : UInt16} {s : JsString}
    (h : Returns P inner s) (ha : lexUnit st a = inner) (hb : lexUnit inner b = st) (hst : Q st)
    (hPQ : ∀ st, P st → Q st) : Returns Q st (a :: (s ++ [b])) := by
  refine ⟨?_, hst, ?_⟩
  · rw [lex_cons, ha, lex_append, h.ends]
    exact hb
  · rw [ha]
    refine along_append (h.along.mono hPQ) ?_
    rw [h.ends]
    have hinner : P inner := by
      have hback := h.along.front (List.prefix_refl s)
      rwa [h.ends] at hback
    refine ⟨hPQ inner hinner, ?_⟩
    rw [hb]
    exact hst

/-! ### What is written -/

/-- The text is in a string of this depth. -/
def InString (d : Nat) (st : LexState) : Prop := st = .inString d ∨ st = .escaped d

/-- The text is at this depth, or deeper. -/
def AtLeast (d : Nat) : LexState → Prop
  | .outside e => d ≤ e
  | .inString e => d ≤ e
  | .escaped e => d ≤ e
  | .refused => False

theorem AtLeast.of_inString {d : Nat} (st : LexState) (h : InString d st) : AtLeast d st := by
  rcases h with rfl | rfl
  · exact Nat.le_refl d
  · exact Nat.le_refl d

theorem AtLeast.of_succ {d : Nat} (st : LexState) (h : AtLeast (d + 1) st) : AtLeast d st := by
  cases st with
  | outside e => exact Nat.le_of_succ_le h
  | inString e => exact Nat.le_of_succ_le h
  | escaped e => exact Nat.le_of_succ_le h
  | refused => exact h

/-- A backslash and what it escapes. -/
theorem returns_escape {u : UInt16} (hu : ¬ u.toNat < 32) (d : Nat) :
    Returns (InString d) (.inString d) [92, u] := by
  have hslash : lexUnit (.inString d) 92 = .escaped d := rfl
  refine ⟨?_, Or.inl rfl, ?_⟩
  · rw [lex_cons, hslash]
    exact lexUnit_escaped hu d
  · rw [hslash]
    refine ⟨Or.inr rfl, ?_⟩
    rw [lexUnit_escaped hu]
    exact Or.inl rfl

theorem returns_unicodeEscape (u : UInt16) (d : Nat) :
    Returns (InString d) (.inString d) (unicodeEscape u) := by
  have hescape : Returns (InString d) (.inString d) [92, 117] := returns_escape (by decide) d
  refine hescape.append (returns_units (Or.inl rfl) ?_)
  have hhex : ∀ n, n < 16 → lexUnit (.inString d) (hexDigit n) = .inString d := by
    intro n hn
    obtain ⟨hq, hb, hc⟩ := plain_of_hexValue (hexValue_hexDigit hn)
    exact lexUnit_plain hq hb hc d
  have hlt : u.toNat < 65536 := u.toNat_lt
  intro v hv
  simp only [List.mem_cons, List.not_mem_nil, or_false] at hv
  rcases hv with rfl | rfl | rfl | rfl
  · exact hhex _ (by omega)
  · exact hhex _ (by omega)
  · exact hhex _ (by omega)
  · exact hhex _ (by omega)

theorem returns_escapeUnit (u : UInt16) (d : Nat) :
    Returns (InString d) (.inString d) (escapeUnit u) := by
  unfold escapeUnit
  repeat' split
  any_goals exact returns_escape (by decide) d
  · exact returns_unicodeEscape u d
  · rename_i hq hb hc
    exact returns_unit (Or.inl rfl) (lexUnit_plain hq hb hc d)

theorem returns_escapeLone (u : UInt16) (d : Nat) :
    Returns (InString d) (.inString d) (escapeLone u) := by
  unfold escapeLone
  split
  · exact returns_unicodeEscape u d
  · exact returns_escapeUnit u d

/-- A unit of a surrogate pair. -/
theorem lexUnit_surrogate {u : UInt16} (h : 0xD800 ≤ u.toNat) (d : Nat) :
    lexUnit (.inString d) u = .inString d := by
  refine lexUnit_plain ?_ ?_ (by omega) d
  · rintro rfl
    exact absurd h (by decide)
  · rintro rfl
    exact absurd h (by decide)

theorem returns_escapeAll (s : JsString) (d : Nat) :
    Returns (InString d) (.inString d) (escape s) := by
  fun_induction escape s with
  | case1 => exact returns_nil (Or.inl rfl)
  | case2 u => exact returns_escapeLone u d
  | case3 u v t hp ih =>
    obtain ⟨hu, hv⟩ := Bool.and_eq_true_iff.mp hp
    have hu := of_decide_eq_true hu
    have hv := of_decide_eq_true hv
    have hpair : Returns (InString d) (.inString d) [u, v] := by
      refine returns_units (Or.inl rfl) ?_
      intro w hw
      rcases List.mem_pair.mp hw with rfl | rfl
      · exact lexUnit_surrogate (by omega) d
      · exact lexUnit_surrogate (by omega) d
    exact hpair.append ih
  | case4 u v t hp ih => exact (returns_escapeLone u d).append ih

theorem returns_quote (s : JsString) (d : Nat) : Returns (AtLeast d) (.outside d) (quote s) :=
  (returns_escapeAll s d).between rfl rfl (Nat.le_refl d) AtLeast.of_inString

theorem returns_between {s : JsString} (h : ∀ u ∈ s, isBetween u = true) (d : Nat) :
    Returns (AtLeast d) (.outside d) s :=
  returns_units (Nat.le_refl d) fun u hu => lexUnit_between (h u hu) d

theorem returns_comma (d : Nat) : Returns (AtLeast d) (.outside d) [44] :=
  returns_between (forall_units (by decide)) d

theorem returns_colon (d : Nat) : Returns (AtLeast d) (.outside d) [58] :=
  returns_between (forall_units (by decide)) d

/-- What stands in brackets, with the closing one. -/
def Enclosed (close : UInt16) (s : JsString) : Prop :=
  ∃ w, s = w ++ [close] ∧ ∀ d, Returns (AtLeast d) (.outside d) w

theorem enclosed_nil (close : UInt16) : Enclosed close [close] :=
  ⟨[], rfl, fun d => returns_nil (Nat.le_refl d)⟩

theorem Enclosed.append {close : UInt16} {s t : JsString}
    (hs : ∀ d, Returns (AtLeast d) (.outside d) s) (ht : Enclosed close t) :
    Enclosed close (s ++ t) := by
  obtain ⟨w, rfl, hw⟩ := ht
  exact ⟨s ++ w, (List.append_assoc _ _ _).symm, fun d => (hs d).append (hw d)⟩

theorem Enclosed.returns {a b : UInt16} {s : JsString} (h : Enclosed b s) (ha : a = 91 ∨ a = 123)
    (hb : b = 93 ∨ b = 125) (d : Nat) : Returns (AtLeast d) (.outside d) (a :: s) := by
  obtain ⟨w, rfl, hw⟩ := h
  exact (hw (d + 1)).between (lexUnit_open ha d) (lexUnit_close hb d) (Nat.le_refl d)
    AtLeast.of_succ

section Written

variable {print : N → JsString}

mutual

/-- **A value is balanced**, in strings and in brackets. -/
theorem returns_stringify (hprint : ∀ n, ∀ u ∈ print n, isNumUnit u = true) :
    ∀ (v : Json N) (d : Nat), Returns (AtLeast d) (.outside d) (stringify print v)
  | .null, d => by
    rw [stringify]
    exact returns_between (forall_units (by decide)) d
  | .bool true, d => by
    rw [stringify]
    exact returns_between (forall_units (by decide)) d
  | .bool false, d => by
    rw [stringify]
    exact returns_between (forall_units (by decide)) d
  | .num n, d => by
    rw [stringify]
    exact returns_between (fun u hu => isBetween_of_isNumUnit (hprint n u hu)) d
  | .str s, d => by
    rw [stringify]
    exact returns_quote s d
  | .arr items, d => by
    rw [stringify]
    exact (enclosed_items hprint items).returns (Or.inl rfl) (Or.inl rfl) d
  | .obj fields, d => by
    rw [stringify]
    exact (enclosed_fields hprint fields).returns (Or.inr rfl) (Or.inr rfl) d

theorem enclosed_items (hprint : ∀ n, ∀ u ∈ print n, isNumUnit u = true) :
    ∀ vs : List (Json N), Enclosed 93 (stringifyItems print vs)
  | [] => by
    rw [stringifyItems]
    exact enclosed_nil 93
  | v :: vs => by
    rw [stringifyItems]
    exact .append (returns_stringify hprint v) (enclosed_moreItems hprint vs)

theorem enclosed_moreItems (hprint : ∀ n, ∀ u ∈ print n, isNumUnit u = true) :
    ∀ vs : List (Json N), Enclosed 93 (stringifyMoreItems print vs)
  | [] => by
    rw [stringifyMoreItems]
    exact enclosed_nil 93
  | v :: vs => by
    rw [stringifyMoreItems]
    exact .append returns_comma
      (.append (returns_stringify hprint v) (enclosed_moreItems hprint vs))

theorem enclosed_fields (hprint : ∀ n, ∀ u ∈ print n, isNumUnit u = true) :
    ∀ fs : List (JsString × Json N), Enclosed 125 (stringifyFields print fs)
  | [] => by
    rw [stringifyFields]
    exact enclosed_nil 125
  | (k, v) :: fs => by
    rw [stringifyFields]
    exact .append (returns_quote k) (.append returns_colon
      (.append (returns_stringify hprint v) (enclosed_moreFields hprint fs)))

theorem enclosed_moreFields (hprint : ∀ n, ∀ u ∈ print n, isNumUnit u = true) :
    ∀ fs : List (JsString × Json N), Enclosed 125 (stringifyMoreFields print fs)
  | [] => by
    rw [stringifyMoreFields]
    exact enclosed_nil 125
  | (k, v) :: fs => by
    rw [stringifyMoreFields]
    exact .append returns_comma (.append (returns_quote k) (.append returns_colon
      (.append (returns_stringify hprint v) (enclosed_moreFields hprint fs))))

end

/-- A proper front of a text between quotes or brackets has not left them. -/
theorem Returns.front {inner : LexState} {a b : UInt16} {w u : JsString} (h : Returns P inner w)
    (ha : lexUnit (.outside 0) a = inner) (hP : ¬ P (.outside 0)) (hu : u <+: a :: (w ++ [b]))
    (hne : u ≠ []) (hproper : u ≠ a :: (w ++ [b])) : lex (.outside 0) u ≠ .outside 0 := by
  obtain ⟨c, t, rfl⟩ := List.exists_cons_of_ne_nil hne
  obtain ⟨rfl, ht⟩ := List.cons_prefix_cons.mp hu
  have hfront : t <+: w := by
    rcases List.prefix_concat_iff.mp ht with rfl | ht
    · exact absurd rfl hproper
    · exact ht
  intro hlex
  rw [lex_cons, ha] at hlex
  have hback := h.along.front hfront
  rw [hlex] at hback
  exact hP hback

theorem Enclosed.front {a b : UInt16} {s u : JsString} (h : Enclosed b s) (ha : a = 91 ∨ a = 123)
    (hu : u <+: a :: s) (hne : u ≠ []) (hproper : u ≠ a :: s) :
    lex (.outside 0) u ≠ .outside 0 := by
  obtain ⟨w, rfl, hw⟩ := h
  exact (hw 1).front (lexUnit_open ha 0) (Nat.not_succ_le_zero 0) hu hne hproper

/-- The value is no bare word: its text stands between quotes or brackets. -/
def Json.Delimited : Json N → Prop
  | .str _ | .arr _ | .obj _ => True
  | _ => False

/-- **The text of a string, an array or an object** does not end before its last unit. -/
theorem lex_stringify_front (hprint : ∀ n, ∀ u ∈ print n, isNumUnit u = true) {v : Json N}
    (hv : v.Delimited) {u : JsString} (hu : u <+: stringify print v) (hne : u ≠ [])
    (hproper : u ≠ stringify print v) : lex (.outside 0) u ≠ .outside 0 := by
  cases v with
  | null => cases hv
  | bool b => cases hv
  | num n => cases hv
  | str s =>
    rw [stringify] at hu hproper
    have hout : ¬ InString 0 (.outside 0) := by
      rintro (h | h)
      · cases h
      · cases h
    exact (returns_escapeAll s 0).front rfl hout hu hne hproper
  | arr items =>
    rw [stringify] at hu hproper
    exact (enclosed_items hprint items).front (Or.inl rfl) hu hne hproper
  | obj fields =>
    rw [stringify] at hu hproper
    exact (enclosed_fields hprint fields).front (Or.inr rfl) hu hne hproper

/-! ### A text that is cut -/

/-- A text that ends in replacement characters is no JSON text. -/
theorem readText_replacement {s z : JsString} (hne : z ≠ []) (hz : ∀ u ∈ z, u = 0xFFFD) :
    readText readNum define (s ++ z) = none := by
  obtain ⟨front, u, rfl⟩ := (List.eq_nil_or_concat' z).resolve_left hne
  have hu : u = 0xFFFD := hz u (by simp)
  cases h : readText readNum define (s ++ (front ++ [u])) with
  | none => rfl
  | some v =>
    have hlex := lex_of_readText h
    rw [← List.append_assoc, lex_append, hu] at hlex
    exact absurd hlex (lexUnit_replacement _)

theorem readText_nil : readText readNum define [] = none := rfl

/-- **A part of the text of a string, an array or an object** is no JSON text. -/
theorem readText_front_none (hprint : ∀ n, ∀ u ∈ print n, isNumUnit u = true) {v : Json N}
    (hv : v.Delimited) {u : JsString} (hu : u <+: stringify print v)
    (hproper : u ≠ stringify print v) : readText readNum define u = none := by
  by_cases hne : u = []
  · rw [hne, readText_nil]
  · cases h : readText readNum define u with
    | none => rfl
    | some w => exact absurd (lex_of_readText h) (lex_stringify_front hprint hv hu hne hproper)

theorem strValues_readWord {s r : JsString} {v : Json N} (h : readWord readNum s = some (v, r)) :
    strValues v = [] := by
  unfold readWord at h
  split at h
  · obtain ⟨rfl, -⟩ := Prod.mk.inj (Option.some.inj h)
    rw [strValues]
  · split at h
    · obtain ⟨rfl, -⟩ := Prod.mk.inj (Option.some.inj h)
      rw [strValues]
    · split at h
      · obtain ⟨rfl, -⟩ := Prod.mk.inj (Option.some.inj h)
        rw [strValues]
      · obtain ⟨n, -, hp⟩ := Option.map_eq_some_iff.mp h
        obtain ⟨rfl, -⟩ := Prod.mk.inj hp
        rw [strValues]

/-- The unit begins a word. -/
def isWordUnit (u : UInt16) : Bool := isNumUnit u || u == 110 || u == 116 || u == 102

/-- **A text that begins like a word** has no string. -/
theorem strValues_of_isWordUnit {u : UInt16} {t : JsString} {v : Json N}
    (hu : isWordUnit u = true) (h : readText readNum define (u :: t) = some v) :
    strValues v = [] := by
  have hne : ∀ w : UInt16, isWordUnit w = false → u ≠ w := by
    rintro w hw rfl
    rw [hu] at hw
    cases hw
  have hblank : isBlank u = false := by
    have h32 := hne 32 (by decide)
    have h9 := hne 9 (by decide)
    have h10 := hne 10 (by decide)
    have h13 := hne 13 (by decide)
    simp [isBlank, h32, h9, h10, h13]
  have hskip : skipBlank (u :: t) = u :: t := List.dropWhile_cons_of_neg (by rw [hblank]; decide)
  unfold readText at h
  split at h
  · cases h
  · rename_i w r hw
    split at h
    · obtain rfl := Option.some.inj h
      rw [List.length_cons, readValue, hskip] at hw
      simp only [if_neg (hne 34 (by decide)), if_neg (hne 91 (by decide)),
        if_neg (hne 123 (by decide))] at hw
      exact strValues_readWord hw
    · cases h

/-- The text of a word begins like one. -/
theorem isWordUnit_stringify (hprint : ∀ n, ∀ u ∈ print n, isNumUnit u = true) {v : Json N}
    (hv : ¬ v.Delimited) {u : UInt16} {t r : JsString} (h : stringify print v = u :: t ++ r) :
    isWordUnit u = true := by
  have hfirst : ∀ {w : JsString}, w = u :: t ++ r → w.head? = some u := by
    rintro w rfl
    rfl
  have hhead := hfirst h
  cases v with
  | null =>
    obtain rfl := Option.some.inj hhead
    decide
  | bool b =>
    cases b with
    | true =>
      obtain rfl := Option.some.inj hhead
      decide
    | false =>
      obtain rfl := Option.some.inj hhead
      decide
  | num n =>
    rw [stringify] at h
    have hnum := hprint n u (by rw [h]; exact List.mem_cons_self)
    rw [isWordUnit, hnum]
    rfl
  | str s => exact absurd trivial hv
  | arr items => exact absurd trivial hv
  | obj fields => exact absurd trivial hv

/-- **A front of what is written**, with the replacement characters of a cut, has no string. -/
theorem strValues_of_cut (hprint : ∀ n, ∀ u ∈ print n, isNumUnit u = true) {v w : Json N}
    {u z : JsString} (hu : u <+: stringify print v) (hproper : u ≠ stringify print v)
    (hz : ∀ x ∈ z, x = 0xFFFD) (h : readText readNum define (u ++ z) = some w) :
    strValues w = [] := by
  cases z with
  | cons x z =>
    rw [readText_replacement (List.cons_ne_nil x z) hz] at h
    cases h
  | nil =>
    rw [List.append_nil] at h
    by_cases hv : v.Delimited
    · rw [readText_front_none hprint hv hu hproper] at h
      cases h
    · cases u with
      | nil =>
        rw [readText_nil] at h
        cases h
      | cons a t =>
        obtain ⟨r, hr⟩ := hu
        exact strValues_of_isWordUnit (isWordUnit_stringify hprint hv hr.symm) h

end Written

end FullstackSvc.Text
