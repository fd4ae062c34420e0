import Mathlib.Data.List.Basic
import FullstackSvc.Text.JsonMap

/-!
# Rewriting URIs in LSP messages (`lsp-uri-transformer.ts`)

The client names files below `file:///workspace`, the container below
`file://` and the workspace root of the session.  `transformMessage` rewrites a
message of the client, `transformResponseMessage` one of the container.  Both
take the message apart at the first `\r\n\r\n`, rewrite every string value of
the JSON after it and put a new header in front, whose length counts UTF-16
units; both hand back what they were given when anything goes wrong.

The second is declared for a `string` but is called with the `Buffer` that the
response buffer emits (`JsValue`).

* `transformStrings_eq_mapStr`: on a value as a parser builds it, only the
  string values change.
* `transformResponseMessage_buffer`: **a Buffer comes back as it is.**
-/

namespace FullstackSvc.Lsp

open Text

/-- A value of JavaScript with the methods the transformer calls. -/
inductive JsValue
  | string (s : JsString)
  | buffer (b : Bytes)
  deriving DecidableEq

/-- `value.indexOf(s)` for an ASCII `s`; a Buffer searches its bytes. -/
def JsValue.indexOf (s : JsString) : JsValue → Option Nat
  | .string t => Text.indexOf s t
  | .buffer b => Text.indexOf (utf8Encode s) b

/-- `value.substring(start, end)`.  A Buffer has no such method: the call throws
a TypeError. -/
def JsValue.substring (start : Nat) (stop : Option Nat) : JsValue → Option JsString
  | .string t => some ((t.take (stop.getD t.length)).drop start)
  | .buffer _ => none

/-- `value.toString()`. -/
def JsValue.toString : JsValue → JsString
  | .string t => t
  | .buffer b => utf8Decode b

def headerEnd : JsString := js "\r\n\r\n"

/-! ### URIs -/

/-- A string of a client message. -/
def transformUri (workspaceRoot obj : JsString) : JsString :=
  if startsWith obj (js "file:///workspace/") then
    replace obj (js "file:///workspace/") (js "file://" ++ workspaceRoot ++ js "/")
  else if obj = js "file:///workspace" then js "file://" ++ workspaceRoot
  else obj

/-- A string of a container message. -/
def transformResponseUri (workspaceRoot obj : JsString) : JsString :=
  if startsWith obj (js "file://" ++ workspaceRoot ++ js "/") then
    replace obj (js "file://" ++ workspaceRoot ++ js "/") (js "file:///workspace/")
  else if obj = js "file://" ++ workspaceRoot then js "file:///workspace"
  else obj

variable {N : Type}

/-- `transformed[key] = value` on a plain object.  The key `__proto__` names the
setter of the prototype and makes no property. -/
def assign (fields : List (JsString × Json N)) (key : JsString) (value : Json N) :
    List (JsString × Json N) :=
  if key = js "__proto__" then fields else jsDefine fields key value

mutual

/-- The recursion of `transformUris` and `transformResponseUris`, which differ
in what they do with a string. -/
def transformStrings (f : JsString → JsString) : Json N → Json N
  | .null => .null
  | .bool b => .bool b
  | .num n => .num n
  | .str s => .str (f s)
  | .arr items => .arr (transformItems f items)
  | .obj fields => .obj (buildObject assign (transformFields f fields))

def transformItems (f : JsString → JsString) : List (Json N) → List (Json N)
  | [] => []
  | v :: vs => transformStrings f v :: transformItems f vs

def transformFields (f : JsString → JsString) :
    List (JsString × Json N) → List (JsString × Json N)
  | [] => []
  | (k, v) :: fs => (k, transformStrings f v) :: transformFields f fs

end

def transformUris (workspaceRoot : JsString) : Json N → Json N :=
  transformStrings (transformUri workspaceRoot)

def transformResponseUris (workspaceRoot : JsString) : Json N → Json N :=
  transformStrings (transformResponseUri workspaceRoot)

/-! ### Messages -/

section Messages

variable (T : NumText N)

def transformMessage (messageStr workspaceRoot : JsString) : JsString :=
  match indexOf headerEnd messageStr with
  | none => messageStr
  | some separatorIndex =>
    let contentPart := messageStr.drop (separatorIndex + 4)
    if contentPart = [] then messageStr
    else
      match readText T.read jsDefine contentPart with
      | none => messageStr
      | some json =>
        let newContent := stringify T.js (transformUris workspaceRoot json)
        js "Content-Length: " ++ decimal newContent.length ++ headerEnd ++ newContent

/-- The two calls of `substring` throw for a Buffer, inside the `try`. -/
def transformResponseMessage (messageStr : JsValue) (workspaceRoot : JsString) : JsValue :=
  match messageStr.indexOf headerEnd with
  | none => messageStr
  | some separatorIndex =>
    match messageStr.substring 0 (some (separatorIndex + 4)),
        messageStr.substring (separatorIndex + 4) none with
    | some _, some contentPart =>
      if contentPart = [] then messageStr
      else
        match readText T.read jsDefine contentPart with
        | none => messageStr
        | some json =>
          let newContent := stringify T.js (transformResponseUris workspaceRoot json)
          .string (js "Content-Length: " ++ decimal newContent.length ++ headerEnd ++ newContent)
    | _, _ => messageStr

/-- **A Buffer comes back as it is**: the exception of `substring` is caught. -/
theorem transformResponseMessage_buffer (b : Bytes) (workspaceRoot : JsString) :
    transformResponseMessage T (.buffer b) workspaceRoot = .buffer b := by
  rw [transformResponseMessage]
  cases JsValue.indexOf headerEnd (.buffer b) with
  | none => rfl
  | some n => rfl

end Messages

/-! ### What is rewritten -/

theorem natural_assign : Natural (assign (N := N)) := by
  intro g fs k v
  rw [assign, assign]
  split
  · rfl
  · exact natural_jsDefine g fs k v

theorem appends_assign : Appends (assign (N := N)) := by
  intro fs k v hk hp
  rw [assign, if_neg hp.2]
  exact appends_jsDefine fs k v hk hp

mutual

/-- **Only the string values change**, on an object that assignments build as it
is. -/
theorem transformStrings_eq_mapStr (f : JsString → JsString) :
    ∀ v : Json N, Canonical assign v → transformStrings f v = mapStr f v
  | .null, _ => by rw [transformStrings, mapStr]
  | .bool _, _ => by rw [transformStrings, mapStr]
  | .num _, _ => by rw [transformStrings, mapStr]
  | .str _, _ => by rw [transformStrings, mapStr]
  | .arr items, h => by
    rw [Canonical] at h
    rw [transformStrings, mapStr, transformItems_eq_mapStr f items h]
  | .obj fields, h => by
    rw [Canonical] at h
    rw [transformStrings, mapStr, transformFields_eq_mapStr f fields h.1, mapStrFields_eq_map,
      buildObject_map natural_assign, h.2]

theorem transformItems_eq_mapStr (f : JsString → JsString) :
    ∀ vs : List (Json N), CanonicalItems assign vs → transformItems f vs = mapStrItems f vs
  | [], _ => by rw [transformItems, mapStrItems]
  | v :: vs, h => by
    rw [CanonicalItems] at h
    rw [transformItems, mapStrItems, transformStrings_eq_mapStr f v h.1,
      transformItems_eq_mapStr f vs h.2]

theorem transformFields_eq_mapStr (f : JsString → JsString) :
    ∀ fs : List (JsString × Json N), CanonicalFields assign fs →
      transformFields f fs = mapStrFields f fs
  | [], _ => by rw [transformFields, mapStrFields]
  | (k, v) :: fs, h => by
    rw [CanonicalFields] at h
    rw [transformFields, mapStrFields, transformStrings_eq_mapStr f v h.1,
      transformFields_eq_mapStr f fs h.2]

end

/-- The three ways a client string is treated. -/
theorem transformUri_cases (R s : JsString) :
    (∃ t, s = js "file:///workspace/" ++ t ∧
        transformUri R s =
          expandReplacement [] (js "file:///workspace/") t (js "file://" ++ R ++ js "/") ++ t) ∨
      (s = js "file:///workspace" ∧ transformUri R s = js "file://" ++ R) ∨
      transformUri R s = s := by
  rw [transformUri]
  split
  · rename_i h
    obtain ⟨t, rfl⟩ := startsWith_iff.mp h
    exact Or.inl ⟨t, rfl, replace_append _ _ _⟩
  · split
    · rename_i h
      exact Or.inr (Or.inl ⟨h, rfl⟩)
    · exact Or.inr (Or.inr rfl)

/-- A response string is changed exactly when it names the root or something
below it, unless the root is the client's own. -/
theorem transformResponseUri_ne_iff (R s : JsString) :
    transformResponseUri R s ≠ s ↔ R ≠ js "/workspace" ∧
      (startsWith s (js "file://" ++ R ++ js "/") = true ∨ s = js "file://" ++ R) := by
  have hw : js "file:///workspace" = js "file://" ++ js "/workspace" := by decide
  have hw' : js "file:///workspace/" = js "file://" ++ js "/workspace" ++ js "/" := by decide
  rw [transformResponseUri]
  split
  · rename_i h
    obtain ⟨t, rfl⟩ := startsWith_iff.mp h
    rw [replace_append, expandReplacement_of_not_mem (by decide), hw']
    constructor
    · intro hne
      refine ⟨fun hR => hne ?_, Or.inl h⟩
      rw [hR]
    · rintro ⟨hR, -⟩ he
      have := List.append_cancel_right (List.append_cancel_right he)
      exact hR (List.append_cancel_left this).symm
  · rename_i h
    split
    · rename_i hs
      rw [hs, hw]
      constructor
      · intro hne
        exact ⟨fun hR => hne (by rw [hR]), Or.inr rfl⟩
      · rintro ⟨hR, -⟩ he
        exact hR (List.append_cancel_left he).symm
    · rename_i hs
      constructor
      · exact fun hne => absurd rfl hne
      · rintro ⟨-, hc | hc⟩
        · exact absurd hc h
        · exact absurd hc hs

end FullstackSvc.Lsp
