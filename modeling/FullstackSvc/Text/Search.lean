import Mathlib.Data.List.Basic
import FullstackSvc.Text.Utf8

/-!
# Searching and cutting strings and buffers

`indexOf`, `split`, `startsWith` and `replace` of JavaScript and Dart, on lists
of code units or of bytes.  `indexOf` answers `none` where the languages answer
`-1`.
-/

namespace FullstackSvc.Text

variable {α : Type} [DecidableEq α]

/-- The first place where `pat` occurs. -/
def indexOf (pat : List α) : List α → Option Nat
  | [] => if pat = [] then some 0 else none
  | a :: t => if pat <+: a :: t then some 0 else (indexOf pat t).map (· + 1)

theorem indexOf_of_isPrefix {pat l : List α} (h : pat <+: l) : indexOf pat l = some 0 := by
  cases l with
  | nil => rw [indexOf, if_pos (List.prefix_nil.mp h)]
  | cons a t => rw [indexOf, if_pos h]

/-- What stands before, at and after the place found. -/
theorem indexOf_eq_some {pat l : List α} {n : Nat} (h : indexOf pat l = some n) :
    pat <+: l.drop n ∧ n ≤ l.length := by
  induction l generalizing n with
  | nil =>
    rw [indexOf] at h
    split at h
    · rename_i hp
      obtain rfl := Option.some.inj h
      exact ⟨by rw [hp]; exact List.nil_prefix, Nat.le_refl _⟩
    · cases h
  | cons a t ih =>
    rw [indexOf] at h
    split at h
    · rename_i hp
      obtain rfl := Option.some.inj h
      exact ⟨hp, Nat.zero_le _⟩
    · obtain ⟨m, hm, rfl⟩ := Option.map_eq_some_iff.mp h
      have := ih hm
      exact ⟨this.1, by simpa using this.2⟩

theorem indexOf_add_length_le {pat l : List α} {n : Nat} (h : indexOf pat l = some n) :
    n + pat.length ≤ l.length := by
  obtain ⟨hp, hn⟩ := indexOf_eq_some h
  have := hp.length_le
  rw [List.length_drop] at this
  omega

/-- Bytes that come later do not move the first occurrence. -/
theorem indexOf_append {pat l : List α} {n : Nat} (h : indexOf pat l = some n) (m : List α) :
    indexOf pat (l ++ m) = some n := by
  induction l generalizing n with
  | nil =>
    rw [indexOf] at h
    split at h
    · rename_i hp
      subst hp
      rw [← h]
      exact indexOf_of_isPrefix List.nil_prefix
    · cases h
  | cons a t ih =>
    have hlen := indexOf_add_length_le h
    rw [indexOf] at h
    split at h
    · rename_i hp
      rw [← h]
      exact indexOf_of_isPrefix (hp.trans (List.prefix_append _ _))
    · rename_i hp
      have hnp : ¬ pat <+: a :: (t ++ m) := by
        intro hpm
        refine hp (List.prefix_of_prefix_length_le hpm (List.prefix_append (a :: t) m) ?_)
        omega
      obtain ⟨k, hk, rfl⟩ := Option.map_eq_some_iff.mp h
      rw [List.cons_append, indexOf, if_neg hnp, ih hk]
      rfl

theorem indexOf_eq_none_iff {pat l : List α} : indexOf pat l = none ↔ ¬ pat <:+: l := by
  induction l with
  | nil =>
    rw [indexOf, List.infix_nil]
    split
    · rename_i h
      simp [h]
    · rename_i h
      simp [h]
  | cons a t ih =>
    rw [indexOf, List.infix_cons_iff, not_or]
    split
    · rename_i h
      simp [h]
    · rename_i h
      rw [Option.map_eq_none_iff, ih]
      simp [h]

/-- The pattern is found where it ends the text. -/
theorem indexOf_take {pat l : List α} {n : Nat} (h : indexOf pat l = some n) :
    l = l.take n ++ (pat ++ l.drop (n + pat.length)) ∧
      indexOf pat (l.take n ++ pat) = some (l.take n).length := by
  obtain ⟨⟨t, ht⟩, hn⟩ := indexOf_eq_some h
  have hl : l = l.take n ++ (pat ++ l.drop (n + pat.length)) := by
    rw [← List.drop_drop, ← ht, List.drop_left, ht, List.take_append_drop]
  refine ⟨hl, ?_⟩
  cases hi : indexOf pat (l.take n ++ pat) with
  | none =>
    exact absurd ⟨l.take n, [], List.append_nil _⟩ (indexOf_eq_none_iff.mp hi)
  | some m =>
    have hm := indexOf_append hi (l.drop (n + pat.length))
    rw [List.append_assoc, ← hl, h] at hm
    rw [List.length_take, Nat.min_eq_left hn]
    exact hm.symm

/-- The place of a pattern that begins with `c` and comes after units other
than `c`. -/
theorem indexOf_cons_of_not_mem {c : α} {pat l : List α} (h : c ∉ l) (t : List α) :
    indexOf (c :: pat) (l ++ (c :: pat) ++ t) = some l.length := by
  induction l with
  | nil => exact indexOf_of_isPrefix (List.prefix_append _ _)
  | cons a l ih =>
    have hne : ¬ c :: pat <+: a :: (l ++ (c :: pat) ++ t) := by
      intro hp
      exact h (by rw [(List.cons_prefix_cons.mp hp).1]; exact List.mem_cons_self)
    rw [List.cons_append, List.cons_append, indexOf, if_neg hne,
      ih fun hc => h (List.mem_cons_of_mem _ hc)]
    rfl

theorem indexOf_none_of_not_mem {c : α} {pat l : List α} (h : c ∉ l) :
    indexOf (c :: pat) l = none := by
  induction l with
  | nil => rfl
  | cons a l ih =>
    have hne : ¬ c :: pat <+: a :: l := by
      intro hp
      exact h (by rw [(List.cons_prefix_cons.mp hp).1]; exact List.mem_cons_self)
    rw [indexOf, if_neg hne, ih fun hc => h (List.mem_cons_of_mem _ hc)]
    rfl

omit [DecidableEq α] in
theorem no_pair_of_not_mem {c d : α} {l : List α} (h : c ∉ l) : ¬ [c, d] <:+: l :=
  fun hl => h (hl.subset List.mem_cons_self)

omit [DecidableEq α] in
theorem no_pair_cons {c d a : α} {l : List α} (h : ¬ [c, d] <:+: a :: l) :
    ¬ [c, d] <+: a :: l ∧ ¬ [c, d] <:+: l :=
  ⟨fun hp => h hp.isInfix, fun hi => h (List.infix_cons_iff.mpr (Or.inr hi))⟩

/-- Text without the first two units of the pattern is passed over, when what
follows does not complete them. -/
theorem indexOf_skip {c d : α} {pat l t : List α} (h : ¬ [c, d] <:+: l) (ht : ¬ [d] <+: t) :
    indexOf (c :: d :: pat) (l ++ t) = (indexOf (c :: d :: pat) t).map (· + l.length) := by
  induction l with
  | nil => simp
  | cons a l ih =>
    obtain ⟨hp, hi⟩ := no_pair_cons h
    have hne : ¬ c :: d :: pat <+: a :: (l ++ t) := by
      intro hc
      obtain ⟨hca, hd⟩ := List.cons_prefix_cons.mp hc
      cases l with
      | nil => exact ht ((List.prefix_append [d] pat).trans hd)
      | cons b l =>
        have hdb := (List.cons_prefix_cons.mp hd).1
        exact hp (by rw [hca, hdb]; exact List.prefix_append [a, b] l)
    rw [List.cons_append, indexOf, if_neg hne, ih hi, Option.map_map]
    rfl

/-- A unit that is not in the pattern ends what comes before it. -/
theorem indexOf_past {c : α} {pat l : List α} (h : indexOf pat l = none) (hc : c ∉ pat)
    (t : List α) : indexOf pat (l ++ c :: t) = (indexOf pat (c :: t)).map (· + l.length) := by
  induction l with
  | nil => simp
  | cons a l ih =>
    rw [indexOf] at h
    split at h
    · cases h
    · rename_i hp
      have hne : ¬ pat <+: a :: (l ++ c :: t) := by
        intro hpt
        rcases Nat.le_total pat.length (a :: l).length with hle | hge
        · exact hp (List.prefix_of_prefix_length_le hpt (List.prefix_append (a :: l) (c :: t)) hle)
        · have hl : a :: l <+: pat :=
            List.prefix_of_prefix_length_le (List.prefix_append (a :: l) (c :: t)) hpt hge
          obtain ⟨r, rfl⟩ := hl
          cases r with
          | nil => exact hp ⟨[], by rw [List.append_nil, List.append_nil]⟩
          | cons b r =>
            have hb := (List.prefix_append_right_inj (a :: l)).mp hpt
            refine hc ?_
            rw [← (List.cons_prefix_cons.mp hb).1]
            simp
      rw [List.cons_append, indexOf, if_neg hne, ih (Option.map_eq_none_iff.mp h), Option.map_map]
      rfl

/-- Lines with a separator between them. -/
def joinLines (sep : List α) : List (List α) → List α
  | [] => []
  | [l] => l
  | l :: m :: ls => l ++ (sep ++ joinLines sep (m :: ls))

omit [DecidableEq α] in
theorem joinLines_map {β : Type} (f : α → β) (sep : List α) (lines : List (List α)) :
    (joinLines sep lines).map f = joinLines (sep.map f) (lines.map (List.map f)) := by
  fun_induction joinLines sep lines with
  | case1 => rfl
  | case2 l => rfl
  | case3 l m ls ih =>
    rw [List.map_append, List.map_append, ih]
    rfl

theorem utf8Encode_joinLines {sep : JsString} (hsep : WellFormed sep) {lines : List JsString}
    (h : ∀ l ∈ lines, WellFormed l) :
    utf8Encode (joinLines sep lines) = joinLines (utf8Encode sep) (lines.map utf8Encode) := by
  fun_induction joinLines sep lines with
  | case1 => rfl
  | case2 l => rfl
  | case3 l m ls ih =>
    rw [utf8Encode_append (h l List.mem_cons_self), utf8Encode_append hsep,
      ih fun n hn => h n (List.mem_cons_of_mem _ hn)]
    rfl

omit [DecidableEq α] in
theorem mem_joinLines {a : α} {sep : List α} {lines : List (List α)}
    (h : a ∈ joinLines sep lines) : a ∈ sep ∨ ∃ l ∈ lines, a ∈ l := by
  fun_induction joinLines sep lines with
  | case1 => simp at h
  | case2 l => exact Or.inr ⟨l, List.mem_cons_self, h⟩
  | case3 l m ls ih =>
    rcases List.mem_append.mp h with h | h
    · exact Or.inr ⟨l, List.mem_cons_self, h⟩
    · rcases List.mem_append.mp h with h | h
      · exact Or.inl h
      · rcases ih h with h | ⟨n, hn, ha⟩
        · exact Or.inl h
        · exact Or.inr ⟨n, List.mem_cons_of_mem _ hn, ha⟩

/-- **The end of a header block**: lines that are not empty and do not contain
a separator have no two separators in a row before the end. -/
theorem indexOf_joinLines {c d : α} (hcd : c ≠ d) {lines : List (List α)} (hlines : lines ≠ [])
    (h : ∀ l ∈ lines, l ≠ [] ∧ ¬ [c, d] <:+: l) (t : List α) :
    indexOf [c, d, c, d] (joinLines [c, d] lines ++ ([c, d, c, d] ++ t)) =
      some (joinLines [c, d] lines).length := by
  have hsep : ∀ s : List α, ¬ [d] <+: c :: s :=
    fun s hp => hcd (List.cons_prefix_cons.mp hp).1.symm
  match lines with
  | [] => exact absurd rfl hlines
  | [l] =>
    rw [joinLines, indexOf_skip (t := [c, d, c, d] ++ t) (h l List.mem_cons_self).2 (hsep _),
      indexOf_of_isPrefix (List.prefix_append _ _), Option.map_some, Nat.zero_add]
  | l :: m :: ls =>
    have hm : ∀ n ∈ m :: ls, n ≠ [] ∧ ¬ [c, d] <:+: n :=
      fun n hn => h n (List.mem_cons_of_mem _ hn)
    have ih := indexOf_joinLines hcd (List.cons_ne_nil m ls) hm t
    -- the next line is not empty, so what begins it is not a separator
    have hhead : ¬ [c, d] <+: joinLines [c, d] (m :: ls) ++ ([c, d, c, d] ++ t) := by
      obtain ⟨hne, hc⟩ := hm m List.mem_cons_self
      obtain ⟨s, hs⟩ : ∃ s, joinLines [c, d] (m :: ls) ++ ([c, d, c, d] ++ t) =
          m ++ c :: s := by
        cases ls with
        | nil => exact ⟨_, rfl⟩
        | cons n ls => exact ⟨_, by rw [joinLines, List.append_assoc]; rfl⟩
      rw [hs]
      match m with
      | [] => exact absurd rfl hne
      | [u] => exact fun hp => hsep s (List.cons_prefix_cons.mp hp).2
      | u :: v :: m =>
        intro hp
        obtain ⟨hcu, hp⟩ := List.cons_prefix_cons.mp hp
        have hdv := (List.cons_prefix_cons.mp hp).1
        exact (no_pair_cons hc).1 (by rw [hcu, hdv]; exact List.prefix_append [u, v] m)
    have h1 : ¬ [c, d, c, d] <+:
        c :: d :: (joinLines [c, d] (m :: ls) ++ ([c, d, c, d] ++ t)) :=
      fun hp => hhead (List.cons_prefix_cons.mp (List.cons_prefix_cons.mp hp).2).2
    have h2 : ¬ [c, d, c, d] <+: d :: (joinLines [c, d] (m :: ls) ++ ([c, d, c, d] ++ t)) :=
      fun hp => hcd (List.cons_prefix_cons.mp hp).1
    have hrest : joinLines [c, d] (l :: m :: ls) ++ ([c, d, c, d] ++ t) =
        l ++ (c :: d :: (joinLines [c, d] (m :: ls) ++ ([c, d, c, d] ++ t))) := by
      rw [joinLines, List.append_assoc, List.append_assoc]
      rfl
    rw [hrest, indexOf_skip (h l List.mem_cons_self).2 (hsep _), indexOf, if_neg h1, indexOf,
      if_neg h2, ih]
    simp only [Option.map_some, joinLines, List.length_append, List.length_cons, List.length_nil]
    congr 1
    omega

def startsWith (s pat : List α) : Bool := decide (pat <+: s)

theorem startsWith_iff {s pat : List α} : startsWith s pat = true ↔ ∃ t, s = pat ++ t := by
  rw [startsWith, decide_eq_true_eq]
  exact ⟨fun ⟨t, h⟩ => ⟨t, h.symm⟩, fun ⟨t, h⟩ => ⟨t, h.symm⟩⟩

/-- `"\r\n"` in either unit. -/
def splitCrlf : JsString → List JsString
  | [] => [[]]
  | [u] => [[u]]
  | u :: v :: t =>
    if u = 13 ∧ v = 10 then [] :: splitCrlf t
    else
      match splitCrlf (v :: t) with
      | [] => [[u]]
      | l :: ls => (u :: l) :: ls

/-- The first line, when a separator follows it. -/
theorem splitCrlf_append {s : JsString} (h : ¬ [13, 10] <:+: s) (t : JsString) :
    splitCrlf (s ++ 13 :: 10 :: t) = s :: splitCrlf t := by
  induction s with
  | nil => rw [List.nil_append, splitCrlf, if_pos ⟨rfl, rfl⟩]
  | cons u s ih =>
    obtain ⟨hp, hi⟩ := no_pair_cons h
    have hs := ih hi
    cases s with
    | nil =>
      have hne : ¬ (u = 13 ∧ (13 : UInt16) = 10) := fun hc => absurd hc.2 (by decide)
      rw [List.nil_append] at hs
      rw [List.singleton_append, splitCrlf, if_neg hne, hs]
    | cons v s =>
      have hne : ¬ (u = 13 ∧ v = 10) := by
        rintro ⟨rfl, rfl⟩
        exact hp (List.prefix_append [13, 10] s)
      rw [List.cons_append] at hs
      rw [List.cons_append, List.cons_append, splitCrlf, if_neg hne, hs]

/-- A line alone. -/
theorem splitCrlf_line {s : JsString} (h : ¬ [13, 10] <:+: s) : splitCrlf s = [s] := by
  fun_induction splitCrlf s with
  | case1 => rfl
  | case2 u => rfl
  | case3 u v t hc ih =>
    obtain ⟨rfl, rfl⟩ := hc
    exact absurd (List.prefix_append [13, 10] t) (no_pair_cons h).1
  | case4 u v t hc hs ih =>
    rw [ih (no_pair_cons h).2] at hs
    cases hs
  | case5 u v t hc l ls hs ih =>
    rw [ih (no_pair_cons h).2] at hs
    obtain ⟨rfl, rfl⟩ := List.cons.inj hs
    rfl

theorem splitCrlf_of_not_mem {s : JsString} (h : (13 : UInt16) ∉ s) : splitCrlf s = [s] :=
  splitCrlf_line (no_pair_of_not_mem h)

theorem splitCrlf_joinLines {lines : List JsString} (hlines : lines ≠ [])
    (h : ∀ l ∈ lines, ¬ [13, 10] <:+: l) : splitCrlf (joinLines [13, 10] lines) = lines := by
  fun_induction joinLines [(13 : UInt16), 10] lines with
  | case1 => exact absurd rfl hlines
  | case2 l => exact splitCrlf_line (h l List.mem_cons_self)
  | case3 l m ls ih =>
    rw [List.cons_append, List.singleton_append, splitCrlf_append (h l List.mem_cons_self),
      ih (List.cons_ne_nil m ls) fun n hn => h n (List.mem_cons_of_mem _ hn)]

/-- The special patterns of the replacement of `String.replace`: `$$`, `$&`,
and the two that name what stands before and after. -/
def expandReplacement (before pat after : JsString) : JsString → JsString
  | [] => []
  | [u] => [u]
  | u :: v :: t =>
    if u = 36 ∧ v = 36 then 36 :: expandReplacement before pat after t
    else if u = 36 ∧ v = 38 then pat ++ expandReplacement before pat after t
    else if u = 36 ∧ v = 96 then before ++ expandReplacement before pat after t
    else if u = 36 ∧ v = 39 then after ++ expandReplacement before pat after t
    else u :: expandReplacement before pat after (v :: t)

/-- `s.replace(pat, replacement)` with a string pattern: the first occurrence. -/
def replace (s pat replacement : JsString) : JsString :=
  match indexOf pat s with
  | none => s
  | some n =>
    s.take n ++ expandReplacement (s.take n) pat (s.drop (n + pat.length)) replacement ++
      s.drop (n + pat.length)

theorem expandReplacement_of_not_mem {before pat after r : JsString} (h : (36 : UInt16) ∉ r) :
    expandReplacement before pat after r = r := by
  fun_induction expandReplacement before pat after r with
  | case1 => rfl
  | case2 u => rfl
  | case3 u v t hc ih => exact absurd (by rw [hc.1]; simp) h
  | case4 u v t _ hc ih => exact absurd (by rw [hc.1]; simp) h
  | case5 u v t _ _ hc ih => exact absurd (by rw [hc.1]; simp) h
  | case6 u v t _ _ _ hc ih => exact absurd (by rw [hc.1]; simp) h
  | case7 u v t _ _ _ _ ih => rw [ih fun hm => h (List.mem_cons_of_mem _ hm)]

/-- Replacing what the string begins with. -/
theorem replace_append (pat t replacement : JsString) :
    replace (pat ++ t) pat replacement = expandReplacement [] pat t replacement ++ t := by
  rw [replace, indexOf_of_isPrefix (List.prefix_append pat t)]
  simp only [List.take_zero, Nat.zero_add, List.drop_left, List.nil_append]

end FullstackSvc.Text
