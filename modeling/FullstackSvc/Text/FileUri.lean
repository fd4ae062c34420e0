import Mathlib.Data.List.Induction
import Mathlib.Data.List.TakeWhile
import FullstackSvc.Text.Json
import FullstackSvc.Text.Path

/-!
# The paths that `file://` URIs name

The path of a URI stands between its authority and its query or fragment.  Its
segments are walked from the root: empty and `.` segments stay, `..` goes up.
Readers of a URI differ in whether they resolve escapes like `%2e` in a segment, in
whether a backslash ends one as a slash does, and in whether they take other texts, as
`FILE:` ones, for URIs of files; a `UriReader` is one of them.

* `Below`: the URI leads to a directory or below it.
* `below_append_iff`: **a path put behind the directory of a URI** leads below
  the directory exactly when it does so as a walk that starts there.
-/

namespace FullstackSvc.Text

/-! ### Walks -/

/-- Where segments lead, from a directory given by its own. -/
def walk (directory segs : List JsString) : List JsString :=
  (segs.foldl (resolveSegment false) directory.reverse).reverse

theorem walk_append (directory a b : List JsString) :
    walk directory (a ++ b) = walk (walk directory a) b := by
  rw [walk, walk, walk, List.foldl_append, List.reverse_reverse]

theorem walk_nil (directory : List JsString) : walk directory [] = directory :=
  List.reverse_reverse _

/-- An empty segment stays. -/
theorem walk_cons_nil (directory segs : List JsString) :
    walk directory ([] :: segs) = walk directory segs := by
  rw [walk, List.foldl_cons, resolveSegment.eq_def, if_pos (Or.inl rfl)]
  rfl

/-- A plain name goes down. -/
theorem walk_plain {name : JsString} (h : PlainName name) (directory segs : List JsString) :
    walk directory (name :: segs) = walk (directory ++ [name]) segs := by
  have hne : ¬ (name = [] ∨ name = js ".") := by
    rintro (he | he)
    · exact h.1 he
    · exact h.2.2.1 he
  rw [walk, walk, List.foldl_cons, resolveSegment.eq_def, if_neg hne, if_neg h.2.2.2,
    List.reverse_append]
  rfl

theorem walk_plains {names : List JsString} (h : ∀ n ∈ names, PlainName n)
    (directory : List JsString) : walk directory names = directory ++ names := by
  induction names generalizing directory with
  | nil => rw [walk_nil, List.append_nil]
  | cons n names ih =>
    rw [walk_plain (h n List.mem_cons_self), ih fun m hm => h m (List.mem_cons_of_mem _ hm),
      List.append_assoc]
    rfl

/-- An absolute path of plain names. -/
def pathTo : List JsString → JsString
  | [] => []
  | n :: ns => 47 :: (n ++ pathTo ns)

theorem pathTo_concat (names : List JsString) (n : JsString) :
    pathTo (names ++ [n]) = pathTo names ++ 47 :: n := by
  induction names with
  | nil =>
    show 47 :: (n ++ []) = [] ++ 47 :: n
    rw [List.append_nil]
    rfl
  | cons m names ih =>
    rw [List.cons_append, pathTo, ih, pathTo, List.cons_append, List.append_assoc]

theorem splitSlash_pathTo {names : List JsString} (h : ∀ n ∈ names, (47 : UInt16) ∉ n) :
    splitSlash (pathTo names) = [] :: names := by
  induction names using List.reverseRecOn with
  | nil => rfl
  | append_singleton names n ih =>
    rw [pathTo_concat, splitSlash_append_slash, ih fun m hm => h m (List.mem_append_left _ hm),
      splitSlash_of_not_mem (h n (List.mem_append_right _ (List.mem_singleton_self n)))]
    rfl

/-- A path of plain names leads to one place. -/
theorem pathTo_inj {names names' : List JsString} (h : ∀ n ∈ names, PlainName n)
    (h' : ∀ n ∈ names', PlainName n) (he : pathTo names = pathTo names') : names = names' := by
  have hsplit := congrArg splitSlash he
  rw [splitSlash_pathTo fun n hn => (h n hn).2.1, splitSlash_pathTo fun n hn => (h' n hn).2.1]
    at hsplit
  exact (List.cons.inj hsplit).2

theorem joinBefore_slash (names : List JsString) :
    47 :: joinBefore [47] names = pathTo names ++ [47] := by
  induction names with
  | nil => rfl
  | cons n names ih =>
    show 47 :: (n ++ 47 :: joinBefore [47] names) = 47 :: (n ++ pathTo names) ++ [47]
    rw [ih, List.cons_append, List.append_assoc]

/-- `join` goes down by one name. -/
theorem join_pathTo {names : List JsString} (h : ∀ n ∈ names, PlainName n) (hne : names ≠ [])
    {name : JsString} (hn : PlainName name) : join (pathTo names) name = pathTo (names ++ [name]) := by
  obtain ⟨first, rest, rfl⟩ := List.exists_cons_of_ne_nil hne
  have hpath : pathTo (first :: rest) ≠ [] := List.cons_ne_nil _ _
  have habs : (pathTo (first :: rest)).head? = some 47 := rfl
  have hsegs : resolveSegments false (splitSlash (pathTo (first :: rest))) = first :: rest := by
    rw [splitSlash_pathTo fun n hn => (h n hn).2.1]
    exact (walk_cons_nil [] _).trans (walk_plains h [])
  have hslash : ∀ t : JsString, js "/" ++ t = 47 :: t := fun _ => rfl
  rw [join_name hpath hn, directory, habs, if_pos rfl, decide_eq_true rfl, Bool.not_true, hsegs,
    hslash, joinBefore_slash, pathTo_concat, List.append_assoc]
  rfl

/-- Where a mount shows a file of its volume, by the names that lead to it. -/
def mounted (mount : JsString) (names : List JsString) : JsString := names.foldl join mount

theorem mounted_pathTo {root names : List JsString} (hroot : ∀ n ∈ root, PlainName n)
    (hne : root ≠ []) (h : ∀ n ∈ names, PlainName n) :
    mounted (pathTo root) names = pathTo (root ++ names) := by
  induction names generalizing root with
  | nil => rw [List.append_nil]; rfl
  | cons n names ih =>
    have hn := h n List.mem_cons_self
    have hroot' : ∀ m ∈ root ++ [n], PlainName m := by
      intro m hm
      rcases List.mem_append.mp hm with hm | hm
      · exact hroot m hm
      · rw [List.mem_singleton.mp hm]
        exact hn
    have hrest := ih hroot' (by simp) fun m hm => h m (List.mem_cons_of_mem _ hm)
    show mounted (join (pathTo root) n) names = _
    rw [join_pathTo hroot hne hn, hrest, List.append_assoc]
    rfl

/-! ### URIs -/

/-- The units that a URI may have anywhere, and that stand for themselves. -/
def isUnreserved (u : UInt16) : Bool :=
  (97 ≤ u && u ≤ 122) || (65 ≤ u && u ≤ 90) || (48 ≤ u && u ≤ 57) || u == 45 || u == 46 ||
    u == 95 || u == 126

/-- How URIs are read: the texts that are URIs of files, the units that end a segment, and what
a segment stands for.  A text that begins with `file://` is one, and has its path behind the
authority; whether there are others, such as `FILE:` ones, and where they lead, is left open.
A slash ends a segment, and unreserved units stand for themselves. -/
structure UriReader where
  isFile : JsString → Bool
  otherPath : JsString → JsString
  separator : UInt16 → Bool
  decode : JsString → JsString
  file : ∀ s, isFile (js "file://" ++ s) = true
  slash : separator 47 = true
  separates : ∀ u, isUnreserved u = true → separator u = false
  plain : ∀ s, (∀ u ∈ s, isUnreserved u = true) → decode s = s

theorem ne_of_isUnreserved {u v : UInt16} (hu : isUnreserved u = true)
    (hv : isUnreserved v = false) : u ≠ v := by
  rintro rfl
  rw [hu] at hv
  cases hv

/-- Only `file://` begins a URI of a file, only a slash ends a segment, and no escape is
resolved. -/
def UriReader.literal : UriReader where
  isFile s := startsWith s (js "file://")
  otherPath _ := []
  separator u := u == 47
  decode := id
  file s := startsWith_iff.mpr ⟨s, rfl⟩
  slash := rfl
  separates _ hu := beq_eq_false_iff_ne.mpr (ne_of_isUnreserved hu (by decide))
  plain _ _ := rfl

/-- A backslash ends a segment too. -/
def UriReader.backslash (reader : UriReader) : UriReader where
  isFile := reader.isFile
  otherPath := reader.otherPath
  separator u := u == 47 || u == 92
  decode := reader.decode
  file := reader.file
  slash := rfl
  separates u hu := by
    have hslash := ne_of_isUnreserved (v := 47) hu (by decide)
    have hback := ne_of_isUnreserved (v := 92) hu (by decide)
    simp [hslash, hback]
  plain := reader.plain

/-- The ASCII unit that three units are an escape of. -/
def escapedUnit (u a b : UInt16) : Option UInt16 :=
  if u = 37 then
    match hexValue a, hexValue b with
    | some x, some y => if x < 8 then some (UInt16.ofNat (16 * x + y)) else none
    | _, _ => none
  else none

/-- ASCII escapes are resolved. -/
def resolveEscapes : JsString → JsString
  | [] => []
  | [u] => [u]
  | [u, a] => [u, a]
  | u :: a :: b :: t =>
    match escapedUnit u a b with
    | some c => c :: resolveEscapes t
    | none => u :: resolveEscapes (a :: b :: t)

theorem resolveEscapes_plain {s : JsString} (hs : (37 : UInt16) ∉ s) : resolveEscapes s = s := by
  fun_induction resolveEscapes s with
  | case1 => rfl
  | case2 u => rfl
  | case3 u a => rfl
  | case4 u a b t c hc ih =>
    have hu : u ≠ 37 := fun he => hs (by rw [he]; exact List.mem_cons_self)
    rw [escapedUnit, if_neg hu] at hc
    cases hc
  | case5 u a b t hc ih => rw [ih fun hm => hs (List.mem_cons_of_mem _ hm)]

/-- ASCII escapes are resolved, as in `%2e%2e`. -/
def UriReader.percent : UriReader where
  isFile := UriReader.literal.isFile
  otherPath := UriReader.literal.otherPath
  separator := UriReader.literal.separator
  decode := resolveEscapes
  file := UriReader.literal.file
  slash := UriReader.literal.slash
  separates := UriReader.literal.separates
  plain _ hs := resolveEscapes_plain fun hm => ne_of_isUnreserved (hs 37 hm) (by decide) rfl

/-- The unit begins no query and no fragment. -/
def isPathUnit (u : UInt16) : Bool := u != 63 && u != 35

/-- Every separator as a slash. -/
def slashes (reader : UriReader) (s : JsString) : JsString :=
  s.map fun u => if reader.separator u then 47 else u

/-- The path of a URI. -/
def uriPath (reader : UriReader) (uri : JsString) : JsString :=
  if startsWith uri (js "file://") then
    (slashes reader ((uri.drop 7).takeWhile isPathUnit)).dropWhile (· != 47)
  else reader.otherPath uri

def segments (reader : UriReader) (path : JsString) : List JsString :=
  (splitSlash path).map reader.decode

/-- The URI leads to the directory or below it. -/
def Below (reader : UriReader) (directory : List JsString) (uri : JsString) : Prop :=
  directory <+: walk [] (segments reader (uriPath reader uri))

instance (reader : UriReader) (directory : List JsString) (uri : JsString) :
    Decidable (Below reader directory uri) := inferInstanceAs (Decidable (_ <+: _))

/-- The URI denotes the file at an absolute path. -/
def Denotes (reader : UriReader) (uri path : JsString) : Prop :=
  pathTo (walk [] (segments reader (uriPath reader uri))) = path

/-- A name that stands for itself in a URI too. -/
def UriName (n : JsString) : Prop := PlainName n ∧ ∀ u ∈ n, isUnreserved u = true

variable {reader : UriReader} {names : List JsString}

/-- A unit of a path of names. -/
theorem unit_of_mem_pathTo (h : ∀ n ∈ names, UriName n) {u : UInt16} (hu : u ∈ pathTo names) :
    u = 47 ∨ isUnreserved u = true := by
  induction names with
  | nil => cases hu
  | cons n names ih =>
    rw [pathTo, List.mem_cons, List.mem_append] at hu
    rcases hu with hu | hu | hu
    · exact Or.inl hu
    · exact Or.inr ((h n List.mem_cons_self).2 u hu)
    · exact ih (fun m hm => h m (List.mem_cons_of_mem _ hm)) hu

theorem isPathUnit_of_mem_pathTo (h : ∀ n ∈ names, UriName n) {u : UInt16}
    (hu : u ∈ pathTo names) : isPathUnit u = true := by
  rcases unit_of_mem_pathTo h hu with rfl | hu
  · decide
  · have hquery := ne_of_isUnreserved (v := 63) hu (by decide)
    have hfragment := ne_of_isUnreserved (v := 35) hu (by decide)
    simp [isPathUnit, hquery, hfragment]

theorem slashes_append (s t : JsString) :
    slashes reader (s ++ t) = slashes reader s ++ slashes reader t := List.map_append

theorem slashes_slash (t : JsString) : slashes reader (47 :: t) = 47 :: slashes reader t := by
  rw [slashes, List.map_cons, if_pos reader.slash, ← slashes]

theorem slashes_pathTo (h : ∀ n ∈ names, UriName n) :
    slashes reader (pathTo names) = pathTo names := by
  refine (List.map_congr_left fun u hu => ?_).trans (List.map_id _)
  rcases unit_of_mem_pathTo h hu with rfl | hu
  · exact if_pos reader.slash
  · rw [reader.separates u hu]
    rfl

/-- The path of a URI that names a directory and goes on from there. -/
theorem uriPath_append (h : ∀ n ∈ names, UriName n) (hne : names ≠ []) (t : JsString) :
    uriPath reader (js "file://" ++ (pathTo names ++ t)) =
      pathTo names ++ slashes reader (t.takeWhile isPathUnit) := by
  have hdrop : (js "file://" ++ (pathTo names ++ t)).drop 7 = pathTo names ++ t :=
    List.drop_left' (by decide)
  rw [uriPath, if_pos (startsWith_iff.mpr ⟨_, rfl⟩), hdrop,
    List.takeWhile_append_of_pos fun u hu => isPathUnit_of_mem_pathTo h hu, slashes_append,
    slashes_pathTo h]
  cases names with
  | nil => exact absurd rfl hne
  | cons n names => exact List.dropWhile_cons_of_neg (by decide)

/-- The path of a URI of names. -/
theorem uriPath_pathTo (h : ∀ n ∈ names, UriName n) (hne : names ≠ []) :
    uriPath reader (js "file://" ++ pathTo names) = pathTo names := by
  have hpath := @uriPath_append reader names h hne []
  rwa [List.takeWhile_nil, List.append_nil, slashes, List.map_nil, List.append_nil] at hpath

theorem segments_pathTo (h : ∀ n ∈ names, UriName n) :
    segments reader (pathTo names) = [] :: names := by
  have hnil : ∀ u ∈ ([] : JsString), isUnreserved u = true := fun _ hu => by cases hu
  rw [segments, splitSlash_pathTo fun n hn => (h n hn).1.2.1, List.map_cons, reader.plain [] hnil]
  refine congrArg _ ((List.map_congr_left fun n hn => ?_).trans (List.map_id names))
  exact reader.plain n (h n hn).2

theorem walk_pathTo (h : ∀ n ∈ names, UriName n) (segs : List JsString) :
    walk [] ([] :: names ++ segs) = walk names segs := by
  rw [walk_append, walk_cons_nil, walk_plains fun n hn => (h n hn).1]
  rfl

/-- Where a URI of names leads. -/
theorem walk_uriPath (h : ∀ n ∈ names, UriName n) (hne : names ≠ []) :
    walk [] (segments reader (uriPath reader (js "file://" ++ pathTo names))) = names := by
  have hwalk := walk_pathTo h []
  rw [List.append_nil, walk_nil] at hwalk
  rw [uriPath_pathTo h hne, segments_pathTo h, hwalk]

/-- A URI of plain names denotes their path. -/
theorem denotes_pathTo (h : ∀ n ∈ names, UriName n) (hne : names ≠ []) :
    Denotes reader (js "file://" ++ pathTo names) (pathTo names) := by
  rw [Denotes, walk_uriPath h hne]

/-- The URI of the directory itself. -/
theorem below_self (h : ∀ n ∈ names, UriName n) (hne : names ≠ []) :
    Below reader names (js "file://" ++ pathTo names) :=
  ⟨[], by rw [List.append_nil, walk_uriPath h hne]⟩

/-- **What is put behind the directory** leads below it exactly when its own
walk, from the directory, does. -/
theorem below_append_iff (h : ∀ n ∈ names, UriName n) (hne : names ≠ []) (t : JsString) :
    Below reader names (js "file://" ++ (pathTo names ++ 47 :: t)) ↔
      names <+: walk names (segments reader (slashes reader (t.takeWhile isPathUnit))) := by
  have hslash : (47 :: t).takeWhile isPathUnit = 47 :: t.takeWhile isPathUnit :=
    List.takeWhile_cons_of_pos (by decide)
  have hsegs : segments reader (pathTo names ++ 47 :: slashes reader (t.takeWhile isPathUnit)) =
      [] :: names ++ segments reader (slashes reader (t.takeWhile isPathUnit)) := by
    rw [segments, splitSlash_append_slash, List.map_append, ← segments, segments_pathTo h,
      ← segments]
  rw [Below, uriPath_append h hne, hslash, slashes_slash, hsegs, walk_pathTo h]

/-- Readers differ. -/
example :
    Below .literal [js "lsp-files", js "0"] (js "file:///lsp-files/0/..\\1\\main.dart") ∧
    ¬ Below (.backslash .literal) [js "lsp-files", js "0"]
      (js "file:///lsp-files/0/..\\1\\main.dart") := by
  decide +kernel

end FullstackSvc.Text
