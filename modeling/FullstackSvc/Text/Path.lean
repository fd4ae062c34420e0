import Mathlib.Data.List.Basic
import FullstackSvc.Text.Search

/-!
# `join` of Node's `path`

`join` puts its parts together with slashes and normalises the result: empty
and `.` segments go, `..` takes the segment before it away.

* `join_name`: a plain name is put behind the directory.
* `join_name_inj`: **different names give different paths**.
* `join_name_ne`: the path is not the directory itself.
* `directChild_join`: **its segments are those of the directory and the name**.
-/

namespace FullstackSvc.Text

def splitSlash : JsString → List JsString
  | [] => [[]]
  | u :: t =>
    if u = 47 then [] :: splitSlash t
    else
      match splitSlash t with
      | [] => [[u]]
      | l :: ls => (u :: l) :: ls

/-- One segment; the segments so far are in reverse. -/
def resolveSegment (allowAboveRoot : Bool) (acc : List JsString) (seg : JsString) :
    List JsString :=
  if seg = [] ∨ seg = js "." then acc
  else if seg = js ".." then
    match acc with
    | [] => if allowAboveRoot then [js ".."] else []
    | top :: rest =>
      if top ≠ js ".." then rest else if allowAboveRoot then js ".." :: acc else acc
  else seg :: acc

/-- `normalizeString` of Node, on segments. -/
def resolveSegments (allowAboveRoot : Bool) (segs : List JsString) : List JsString :=
  (segs.foldl (resolveSegment allowAboveRoot) []).reverse

/-- `posix.normalize`. -/
def normalize (path : JsString) : JsString :=
  if path = [] then js "."
  else
    let isAbsolute := path.head? = some 47
    let trailingSeparator := path.getLast? = some 47
    let body := joinLines [47] (resolveSegments (!decide isAbsolute) (splitSlash path))
    if body = [] then
      if isAbsolute then js "/" else if trailingSeparator then js "./" else js "."
    else
      (if isAbsolute then js "/" else []) ++ body ++ (if trailingSeparator then js "/" else [])

/-- `posix.join` of two parts. -/
def join (a b : JsString) : JsString :=
  let parts := [a, b].filter (· ≠ [])
  if parts = [] then js "." else normalize (joinLines [47] parts)

/-! ### Plain names -/

/-- A name that stands for itself as a segment. -/
def PlainName (n : JsString) : Prop := n ≠ [] ∧ (47 : UInt16) ∉ n ∧ n ≠ js "." ∧ n ≠ js ".."

theorem splitSlash_of_not_mem {n : JsString} (h : (47 : UInt16) ∉ n) : splitSlash n = [n] := by
  induction n with
  | nil => rfl
  | cons u n ih =>
    have hu : u ≠ 47 := fun he => h (by rw [he]; exact List.mem_cons_self)
    rw [splitSlash, if_neg hu, ih fun hm => h (List.mem_cons_of_mem _ hm)]

theorem splitSlash_ne_nil (s : JsString) : splitSlash s ≠ [] := by
  cases s with
  | nil => exact List.cons_ne_nil _ _
  | cons u t =>
    rw [splitSlash]
    split
    · exact List.cons_ne_nil _ _
    · split <;> exact List.cons_ne_nil _ _

/-- The segments of two paths with a slash between them. -/
theorem splitSlash_append_slash (a b : JsString) :
    splitSlash (a ++ 47 :: b) = splitSlash a ++ splitSlash b := by
  induction a with
  | nil =>
    show splitSlash (47 :: b) = [[]] ++ splitSlash b
    rw [splitSlash, if_pos rfl]
    rfl
  | cons u a ih =>
    rw [List.cons_append, splitSlash, splitSlash, ih]
    split
    · rfl
    · cases hs : splitSlash a with
      | nil => exact absurd hs (splitSlash_ne_nil a)
      | cons l ls => rfl

/-- A plain name stays as a segment. -/
theorem resolveSegment_name {n : JsString} (h : PlainName n) (allow : Bool) (acc : List JsString) :
    resolveSegment allow acc n = n :: acc := by
  have hn : ¬ (n = [] ∨ n = js ".") := not_or.mpr ⟨h.1, h.2.2.1⟩
  rw [resolveSegment.eq_def, if_neg hn, if_neg h.2.2.2]

theorem resolveSegments_append (allow : Bool) (segs : List JsString) {n : JsString}
    (h : PlainName n) :
    resolveSegments allow (segs ++ [n]) = resolveSegments allow segs ++ [n] := by
  rw [resolveSegments, List.foldl_append, List.foldl_cons, List.foldl_nil, resolveSegment_name h,
    List.reverse_cons]
  rfl

/-- What stands before the last line. -/
def joinBefore (sep : JsString) : List JsString → JsString
  | [] => []
  | l :: ls => l ++ (sep ++ joinBefore sep ls)

theorem joinLines_append (sep : JsString) (ls : List JsString) (n : JsString) :
    joinLines sep (ls ++ [n]) = joinBefore sep ls ++ n := by
  induction ls with
  | nil => rfl
  | cons l ls ih =>
    cases ls with
    | nil =>
      rw [List.singleton_append, joinLines, joinLines, joinBefore, joinBefore, List.append_nil,
        List.append_assoc]
    | cons m ls =>
      rw [List.cons_append, List.cons_append, joinLines, ← List.cons_append, ih]
      simp only [joinBefore, List.append_assoc]

/-- The directory in front of a plain name. -/
def directory (a : JsString) : JsString :=
  (if a.head? = some 47 then js "/" else []) ++
    joinBefore [47] (resolveSegments (!decide (a.head? = some 47)) (splitSlash a))

/-- **A plain name is put behind the directory.** -/
theorem join_name {a n : JsString} (ha : a ≠ []) (hn : PlainName n) :
    join a n = directory a ++ n := by
  have hparts : [a, n].filter (· ≠ []) = [a, n] := by
    rw [List.filter_cons_of_pos (by simpa using ha), List.filter_cons_of_pos (by simpa using hn.1),
      List.filter_nil]
  have hjoined : joinLines [47] [a, n] = a ++ 47 :: n := rfl
  have hhead : (a ++ 47 :: n).head? = a.head? := by
    rw [List.head?_append_of_ne_nil a ha]
  have hlast : (a ++ 47 :: n).getLast? ≠ some 47 := by
    intro he
    have hmem := List.mem_of_getLast? he
    rw [List.getLast?_append_of_ne_nil _ (List.cons_ne_nil _ _), List.getLast?_cons_of_ne_nil hn.1]
      at he
    exact hn.2.1 (List.mem_of_getLast? he)
  have hbody : joinLines [47] (resolveSegments (!decide (a.head? = some 47))
      (splitSlash (a ++ 47 :: n))) =
        joinBefore [47] (resolveSegments (!decide (a.head? = some 47)) (splitSlash a)) ++ n := by
    rw [splitSlash_append_slash, splitSlash_of_not_mem hn.2.1, resolveSegments_append _ _ hn,
      joinLines_append]
  have hne : joinBefore [47] (resolveSegments (!decide (a.head? = some 47)) (splitSlash a)) ++ n
      ≠ [] := List.append_ne_nil_of_right_ne_nil _ hn.1
  rw [join]
  simp only [hparts]
  rw [if_neg (List.cons_ne_nil _ _), hjoined, normalize,
    if_neg (List.append_ne_nil_of_left_ne_nil ha _)]
  simp only [hhead, hbody, if_neg hne, if_neg hlast, directory, List.append_nil, List.append_assoc]

theorem joinBefore_of_ne_nil (sep : JsString) {ls : List JsString} (h : ls ≠ []) :
    joinBefore sep ls = joinLines sep ls ++ sep := by
  induction ls with
  | nil => exact absurd rfl h
  | cons l ls ih =>
    cases ls with
    | nil => rw [joinBefore, joinBefore, joinLines, List.append_nil]
    | cons m ls =>
      rw [joinBefore, ih (List.cons_ne_nil _ _), joinLines]
      simp only [List.append_assoc]

/-- The path is not the directory itself. -/
theorem join_name_ne {a n : JsString} (ha : a ≠ []) (hn : PlainName n) : join a n ≠ normalize a := by
  rw [join_name ha hn, directory, normalize, if_neg ha]
  simp only
  generalize hsegs : resolveSegments (!decide (a.head? = some 47)) (splitSlash a) = segs
  have hdot : n ≠ js "./" := by
    rintro rfl
    exact hn.2.1 (by decide)
  by_cases hnil : segs = []
  · subst hnil
    show _ ++ [] ++ n ≠ if ([] : JsString) = [] then _ else _
    rw [if_pos rfl, List.append_nil]
    by_cases habs : a.head? = some 47
    · rw [if_pos habs, if_pos habs]
      intro he
      exact hn.1 (List.append_cancel_left (he.trans (List.append_nil _).symm))
    · rw [if_neg habs, if_neg habs]
      split
      · exact hdot
      · exact hn.2.2.1
  · rw [joinBefore_of_ne_nil _ hnil]
    by_cases hbody : joinLines [47] segs = []
    · rw [if_pos hbody, hbody]
      by_cases habs : a.head? = some 47
      · rw [if_pos habs, if_pos habs]
        intro he
        cases (List.cons.inj he).2
      · rw [if_neg habs, if_neg habs]
        split
        · intro he
          exact absurd (List.cons.inj he).1 (by decide)
        · intro he
          exact absurd (List.cons.inj he).1 (by decide)
    · rw [if_neg hbody, List.append_assoc, List.append_assoc, List.append_assoc]
      intro he
      have htail := List.append_cancel_left (List.append_cancel_left he)
      split at htail
      · exact hn.1 (List.cons.inj htail).2
      · cases htail

/-- **Different names give different paths.** -/
theorem join_name_inj {a n m : JsString} (ha : a ≠ []) (hn : PlainName n) (hm : PlainName m)
    (h : join a n = join a m) : n = m := by
  rw [join_name ha hn, join_name ha hm] at h
  exact List.append_cancel_left h

/-! ### Segments -/

/-- The segments that are left of a path when it is normalised. -/
def pathSegments (path : JsString) : List JsString :=
  resolveSegments (!decide (path.head? = some 47)) (splitSlash path)

/-- The path is that of an entry of the directory: absolute or relative like it, with one
segment more, which is a plain name. -/
structure DirectChild (dir path name : JsString) : Prop where
  plain : PlainName name
  absolute : path.head? = some 47 ↔ dir.head? = some 47
  segments : pathSegments path = pathSegments dir ++ [name]

/-- The segments so far, in reverse: names, and above them the steps out of the start. -/
def Resolved (allowAboveRoot : Bool) (acc : List JsString) : Prop :=
  ∃ names k, acc = names ++ List.replicate k (js "..") ∧ (∀ n ∈ names, PlainName n) ∧
    (allowAboveRoot = false → k = 0)

theorem resolved_nil (allow : Bool) : Resolved allow [] :=
  ⟨[], 0, rfl, List.forall_mem_nil _, fun _ => rfl⟩

theorem not_mem_splitSlash (s : JsString) : ∀ seg ∈ splitSlash s, (47 : UInt16) ∉ seg := by
  induction s with
  | nil =>
    intro seg hseg
    rw [splitSlash, List.mem_singleton] at hseg
    rw [hseg]
    exact List.not_mem_nil
  | cons u s ih =>
    intro seg hseg
    rw [splitSlash] at hseg
    split at hseg
    · rcases List.mem_cons.mp hseg with rfl | hseg
      · exact List.not_mem_nil
      · exact ih seg hseg
    · rename_i hu
      have hcons : ∀ l : JsString, (47 : UInt16) ∉ l → (47 : UInt16) ∉ u :: l := by
        intro l hl hm
        rcases List.mem_cons.mp hm with he | hm
        · exact hu he.symm
        · exact hl hm
      cases hs : splitSlash s with
      | nil => exact absurd hs (splitSlash_ne_nil s)
      | cons l ls =>
        rw [hs] at hseg ih
        rcases List.mem_cons.mp hseg with rfl | hseg
        · exact hcons l (ih l List.mem_cons_self)
        · exact ih seg (List.mem_cons_of_mem _ hseg)

theorem resolved_resolveSegment {allow : Bool} {acc : List JsString} (h : Resolved allow acc)
    {seg : JsString} (hseg : (47 : UInt16) ∉ seg) : Resolved allow (resolveSegment allow acc seg) := by
  obtain ⟨names, k, rfl, hnames, hk⟩ := h
  rw [resolveSegment.eq_def]
  by_cases hdot : seg = [] ∨ seg = js "."
  · rw [if_pos hdot]
    exact ⟨names, k, rfl, hnames, hk⟩
  · rw [if_neg hdot]
    by_cases hup : seg = js ".."
    · rw [if_pos hup]
      cases names with
      | cons top rest =>
        have htop : top ≠ js ".." := (hnames top List.mem_cons_self).2.2.2
        simp only [List.cons_append, ne_eq, htop, not_false_eq_true, if_true]
        exact ⟨rest, k, rfl, fun n hn => hnames n (List.mem_cons_of_mem _ hn), hk⟩
      | nil =>
        cases allow with
        | false =>
          obtain rfl := hk rfl
          exact ⟨[], 0, rfl, hnames, fun _ => rfl⟩
        | true =>
          refine ⟨[], k + 1, ?_, hnames, fun he => by cases he⟩
          cases k with
          | zero => rfl
          | succ k => simp [List.replicate_succ]
    · rw [if_neg hup]
      rw [not_or] at hdot
      refine ⟨seg :: names, k, rfl, fun n hn => ?_, hk⟩
      rcases List.mem_cons.mp hn with rfl | hn
      · exact ⟨hdot.1, hseg, hdot.2, hup⟩
      · exact hnames n hn

theorem resolved_foldl {allow : Bool} {segs : List JsString}
    (hsegs : ∀ seg ∈ segs, (47 : UInt16) ∉ seg) {acc : List JsString} (h : Resolved allow acc) :
    Resolved allow (segs.foldl (resolveSegment allow) acc) := by
  induction segs generalizing acc with
  | nil => exact h
  | cons seg segs ih =>
    rw [List.forall_mem_cons] at hsegs
    exact ih hsegs.2 (resolved_resolveSegment h hsegs.1)

theorem foldl_ups (k : Nat) : (List.replicate k (js "..")).foldl (resolveSegment true) [] =
    List.replicate k (js "..") := by
  induction k with
  | zero => rfl
  | succ k ih =>
    rw [List.replicate_succ', List.foldl_append, ih]
    cases k with
    | zero => rfl
    | succ k =>
      show resolveSegment true (js ".." :: List.replicate k (js "..")) (js "..") = _
      rw [← List.replicate_succ', List.replicate_succ, List.replicate_succ]
      rfl

theorem foldl_names {allow : Bool} {names : List JsString} (h : ∀ n ∈ names, PlainName n)
    (acc : List JsString) :
    names.foldl (resolveSegment allow) acc = names.reverse ++ acc := by
  induction names generalizing acc with
  | nil => rfl
  | cons n names ih =>
    rw [List.forall_mem_cons] at h
    rw [List.foldl_cons, resolveSegment_name h.1, ih h.2, List.reverse_cons, List.append_assoc,
      List.singleton_append]

/-- **Normalising twice is normalising once.** -/
theorem resolveSegments_idem (allow : Bool) {segs : List JsString}
    (hsegs : ∀ seg ∈ segs, (47 : UInt16) ∉ seg) :
    resolveSegments allow (resolveSegments allow segs) = resolveSegments allow segs := by
  obtain ⟨names, k, he, hnames, hk⟩ :=
    resolved_foldl hsegs (resolved_nil allow)
  have hrev : ∀ n ∈ names.reverse, PlainName n := fun n hn => hnames n (List.mem_reverse.mp hn)
  have hups : (List.replicate k (js "..")).foldl (resolveSegment allow) [] =
      List.replicate k (js "..") := by
    cases allow with
    | false => rw [hk rfl]; rfl
    | true => exact foldl_ups k
  have hsegments : resolveSegments allow segs = List.replicate k (js "..") ++ names.reverse := by
    rw [resolveSegments, he, List.reverse_append, List.reverse_replicate]
  rw [hsegments, resolveSegments, List.foldl_append, hups, foldl_names hrev, List.reverse_reverse,
    List.reverse_append, List.reverse_replicate]

/-- What a normalised path is made of. -/
theorem segment_of_pathSegments {path seg : JsString} (h : seg ∈ pathSegments path) :
    seg ≠ [] ∧ (47 : UInt16) ∉ seg := by
  obtain ⟨names, k, he, hnames, -⟩ := resolved_foldl (not_mem_splitSlash path)
    (resolved_nil (!decide (path.head? = some 47)))
  rw [pathSegments, resolveSegments, List.mem_reverse, he, List.mem_append] at h
  rcases h with h | h
  · exact ⟨(hnames seg h).1, (hnames seg h).2.1⟩
  · rw [List.eq_of_mem_replicate h]
    decide

theorem splitSlash_joinBefore {segs : List JsString} (h : ∀ seg ∈ segs, (47 : UInt16) ∉ seg)
    {n : JsString} (hn : (47 : UInt16) ∉ n) : splitSlash (joinBefore [47] segs ++ n) = segs ++ [n] := by
  induction segs with
  | nil => exact splitSlash_of_not_mem hn
  | cons seg segs ih =>
    rw [List.forall_mem_cons] at h
    have hassoc : joinBefore [47] (seg :: segs) ++ n = seg ++ 47 :: (joinBefore [47] segs ++ n) := by
      rw [joinBefore]
      simp only [List.append_assoc, List.cons_append, List.nil_append]
    rw [hassoc, splitSlash_append_slash, splitSlash_of_not_mem h.1, ih h.2, List.singleton_append,
      List.cons_append]

theorem pathSegments_absolute {path : JsString} (h : path.head? = some 47) :
    pathSegments path = resolveSegments false (splitSlash path) := by
  rw [pathSegments, decide_eq_true h]
  rfl

theorem pathSegments_relative {path : JsString} (h : path.head? ≠ some 47) :
    pathSegments path = resolveSegments true (splitSlash path) := by
  rw [pathSegments, decide_eq_false h]
  rfl

/-- **A plain name is put into the directory**: the path has its segments and the name. -/
theorem directChild_join {a n : JsString} (ha : a ≠ []) (hn : PlainName n) :
    DirectChild a (join a n) n := by
  have hsegs : ∀ seg ∈ pathSegments a, (47 : UInt16) ∉ seg :=
    fun seg h => (segment_of_pathSegments h).2
  have hbody : splitSlash (joinBefore [47] (pathSegments a) ++ n) = pathSegments a ++ [n] :=
    splitSlash_joinBefore hsegs hn.2.1
  have hidem : ∀ allow, pathSegments a = resolveSegments allow (splitSlash a) →
      resolveSegments allow (pathSegments a ++ [n]) = pathSegments a ++ [n] := by
    intro allow he
    rw [resolveSegments_append _ _ hn, he, resolveSegments_idem allow (not_mem_splitSlash a)]
  by_cases habs : a.head? = some 47
  · have hpath : join a n = 47 :: (joinBefore [47] (pathSegments a) ++ n) := by
      rw [join_name ha hn, directory, if_pos habs]
      rfl
    have hhead : (join a n).head? = some 47 := by
      rw [hpath]
      rfl
    refine ⟨hn, iff_of_true hhead habs, ?_⟩
    -- the empty segment before the first slash goes
    rw [pathSegments_absolute hhead, hpath, splitSlash, if_pos rfl, hbody]
    exact hidem false (pathSegments_absolute habs)
  · have hpath : join a n = joinBefore [47] (pathSegments a) ++ n := by
      rw [join_name ha hn, directory, if_neg habs, List.nil_append]
      rfl
    have hhead : (join a n).head? ≠ some 47 := by
      rw [hpath]
      intro he
      cases hs : pathSegments a with
      | nil =>
        rw [hs, joinBefore, List.nil_append] at he
        exact hn.2.1 (List.mem_of_head? he)
      | cons seg segs =>
        have hseg : seg ∈ pathSegments a := by
          rw [hs]
          exact List.mem_cons_self
        obtain ⟨hne, hslash⟩ := segment_of_pathSegments hseg
        rw [hs, joinBefore, List.append_assoc, List.head?_append_of_ne_nil _ hne] at he
        exact hslash (List.mem_of_head? he)
    refine ⟨hn, iff_of_false hhead habs, ?_⟩
    rw [pathSegments_relative hhead, hpath, hbody]
    exact hidem true (pathSegments_relative habs)

end FullstackSvc.Text
