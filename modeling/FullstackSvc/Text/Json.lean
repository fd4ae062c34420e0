import Mathlib.Data.List.Basic
import FullstackSvc.Text.Decimal
import FullstackSvc.Text.Search

/-!
# JSON values and their text

`Json N` are the values of JSON over a type `N` of numbers; what a number looks
like as text is the `NumText N` of the two languages, since the printing of
doubles is not spelled out here.

`stringify` is `JSON.stringify` of JavaScript and `jsonEncode` of Dart: they
escape the same units (quote, backslash, controls and lone surrogates) and
leave every other one as it is.  `readText` is `JSON.parse` and `jsonDecode`:
they differ only in how a field is added to an object (`jsDefine`,
`dartDefine`).

Reading undoes writing on the values whose objects are as the reading language
builds them; that is `readText_stringify` of `JsonText`.
-/

namespace FullstackSvc.Text

inductive Json (N : Type) : Type
  | null
  | bool (b : Bool)
  | num (n : N)
  | str (s : JsString)
  | arr (items : List (Json N))
  | obj (fields : List (JsString × Json N))

/-- The units of a number token. -/
def isNumUnit (u : UInt16) : Bool :=
  isDigit u || u == 43 || u == 45 || u == 46 || u == 69 || u == 101

/-- How JavaScript and Dart write numbers, and how a token is read. -/
structure NumText (N : Type) where
  read : JsString → Option N
  js : N → JsString
  dart : N → JsString
  ofInt : Int → N
  read_js : ∀ n, read (js n) = some n
  read_dart : ∀ n, read (dart n) = some n
  js_ne_nil : ∀ n, js n ≠ []
  dart_ne_nil : ∀ n, dart n ≠ []
  js_num : ∀ n, ∀ u ∈ js n, isNumUnit u = true
  dart_num : ∀ n, ∀ u ∈ dart n, isNumUnit u = true

/-! ### Objects -/

/-- The number of an array index key, `"0"` to `"4294967294"` without leading
zeros. -/
def arrayIndex (key : JsString) : Option Nat :=
  if key ≠ [] ∧ key.all isDigit ∧ key = decimal (parseDecimal key) ∧
      parseDecimal key < 4294967295 then some (parseDecimal key)
  else none

/-- The place of a new index key: in order, before every other key. -/
def insertIndex {N : Type} (i : Nat) (key : JsString) (value : Json N) :
    List (JsString × Json N) → List (JsString × Json N)
  | [] => [(key, value)]
  | f :: fs =>
    match arrayIndex f.1 with
    | none => (key, value) :: f :: fs
    | some j => if i < j then (key, value) :: f :: fs else f :: insertIndex i key value fs

/-- A field that is there keeps its place. -/
def overwrite {N : Type} (key : JsString) (value : Json N) (fields : List (JsString × Json N)) :
    List (JsString × Json N) :=
  fields.map fun f => if f.1 = key then (key, value) else f

/-- An own property of a JavaScript object: index keys come first, in order. -/
def jsDefine {N : Type} (fields : List (JsString × Json N)) (key : JsString) (value : Json N) :
    List (JsString × Json N) :=
  if key ∈ fields.map Prod.fst then overwrite key value fields
  else
    match arrayIndex key with
    | some i => insertIndex i key value fields
    | none => fields ++ [(key, value)]

/-- An entry of a Dart map: in the order of insertion. -/
def dartDefine {N : Type} (fields : List (JsString × Json N)) (key : JsString) (value : Json N) :
    List (JsString × Json N) :=
  if key ∈ fields.map Prod.fst then overwrite key value fields else fields ++ [(key, value)]

/-! ### Writing -/

def hexDigit (n : Nat) : UInt16 := if n < 10 then UInt16.ofNat (48 + n) else UInt16.ofNat (87 + n)

/-- `\uXXXX`. -/
def unicodeEscape (u : UInt16) : JsString :=
  [92, 117, hexDigit (u.toNat / 4096), hexDigit (u.toNat / 256 % 16), hexDigit (u.toNat / 16 % 16),
    hexDigit (u.toNat % 16)]

/-- A unit that is no surrogate. -/
def escapeUnit (u : UInt16) : JsString :=
  if u = 8 then [92, 98]
  else if u = 9 then [92, 116]
  else if u = 10 then [92, 110]
  else if u = 12 then [92, 102]
  else if u = 13 then [92, 114]
  else if u = 34 then [92, 34]
  else if u = 92 then [92, 92]
  else if u.toNat < 32 then unicodeEscape u
  else [u]

/-- A unit that is not part of a surrogate pair. -/
def escapeLone (u : UInt16) : JsString :=
  if isHigh u || isLow u then unicodeEscape u else escapeUnit u

def escape : JsString → JsString
  | [] => []
  | [u] => escapeLone u
  | u :: v :: t =>
    if isHigh u && isLow v then u :: v :: escape t
    else escapeLone u ++ escape (v :: t)

def quote (s : JsString) : JsString := 34 :: (escape s ++ [34])

section Stringify

variable {N : Type} (print : N → JsString)

mutual

/-- The text of a value, without blanks. -/
def stringify : Json N → JsString
  | .null => js "null"
  | .bool true => js "true"
  | .bool false => js "false"
  | .num n => print n
  | .str s => quote s
  | .arr items => 91 :: stringifyItems items
  | .obj fields => 123 :: stringifyFields fields

def stringifyItems : List (Json N) → JsString
  | [] => [93]
  | v :: vs => stringify v ++ stringifyMoreItems vs

/-- What follows an item. -/
def stringifyMoreItems : List (Json N) → JsString
  | [] => [93]
  | v :: vs => 44 :: (stringify v ++ stringifyMoreItems vs)

def stringifyFields : List (JsString × Json N) → JsString
  | [] => [125]
  | (k, v) :: fs => quote k ++ 58 :: (stringify v ++ stringifyMoreFields fs)

def stringifyMoreFields : List (JsString × Json N) → JsString
  | [] => [125]
  | (k, v) :: fs => 44 :: (quote k ++ 58 :: (stringify v ++ stringifyMoreFields fs))

end

end Stringify

/-! ### Reading -/

def isBlank (u : UInt16) : Bool := u == 32 || u == 9 || u == 10 || u == 13

def skipBlank (s : JsString) : JsString := s.dropWhile isBlank

def hexValue (u : UInt16) : Option Nat :=
  if 48 ≤ u.toNat ∧ u.toNat ≤ 57 then some (u.toNat - 48)
  else if 97 ≤ u.toNat ∧ u.toNat ≤ 102 then some (u.toNat - 87)
  else if 65 ≤ u.toNat ∧ u.toNat ≤ 70 then some (u.toNat - 55)
  else none

def hexUnit (a b c d : UInt16) : Option UInt16 :=
  match hexValue a, hexValue b, hexValue c, hexValue d with
  | some a, some b, some c, some d => some (UInt16.ofNat (a * 4096 + b * 256 + c * 16 + d))
  | _, _, _, _ => none

/-- The unit a one-letter escape stands for. -/
def unescape (u : UInt16) : Option UInt16 :=
  if u = 34 ∨ u = 92 ∨ u = 47 then some u
  else if u = 98 then some 8
  else if u = 116 then some 9
  else if u = 110 then some 10
  else if u = 102 then some 12
  else if u = 114 then some 13
  else none

def consUnit (u : UInt16) (p : JsString × JsString) : JsString × JsString := (u :: p.1, p.2)

/-- The rest of a string literal, after its opening quote. -/
def readString : JsString → Option (JsString × JsString)
  | [] => none
  | u :: t =>
    if u = 34 then some ([], t)
    else if u = 92 then
      match t with
      | [] => none
      | e :: t =>
        if e = 117 then
          match t with
          | a :: b :: c :: d :: t =>
            match hexUnit a b c d with
            | some v => (readString t).map (consUnit v)
            | none => none
          | _ => none
        else
          match unescape e with
          | some v => (readString t).map (consUnit v)
          | none => none
    else if u.toNat < 32 then none
    else (readString t).map (consUnit u)

section Read

variable {N : Type} (readNum : JsString → Option N)
  (define : List (JsString × Json N) → JsString → Json N → List (JsString × Json N))

/-- `null`, `true`, `false` or a number. -/
def readWord (s : JsString) : Option (Json N × JsString) :=
  if startsWith s (js "null") then some (.null, s.drop 4)
  else if startsWith s (js "true") then some (.bool true, s.drop 4)
  else if startsWith s (js "false") then some (.bool false, s.drop 5)
  else (readNum (s.takeWhile isNumUnit)).map fun n => (.num n, s.dropWhile isNumUnit)

def buildObject (fields : List (JsString × Json N)) : List (JsString × Json N) :=
  fields.foldl (fun fs f => define fs f.1 f.2) []

mutual

def readValue : Nat → JsString → Option (Json N × JsString)
  | 0, _ => none
  | n + 1, s =>
    match skipBlank s with
    | [] => none
    | u :: t =>
      if u = 34 then (readString t).map fun p => (.str p.1, p.2)
      else if u = 91 then
        if (skipBlank t).head? = some 93 then some (.arr [], (skipBlank t).tail)
        else
          match readValue n t with
          | none => none
          | some (v, r) => (readItems n r).map fun p => (.arr (v :: p.1), p.2)
      else if u = 123 then
        if (skipBlank t).head? = some 125 then some (.obj [], (skipBlank t).tail)
        else
          match readField n t with
          | none => none
          | some (f, r) =>
            (readFields n r).map fun p => (.obj (buildObject define (f :: p.1)), p.2)
      else readWord readNum (u :: t)

/-- What follows an item. -/
def readItems : Nat → JsString → Option (List (Json N) × JsString)
  | 0, _ => none
  | n + 1, s =>
    match skipBlank s with
    | [] => none
    | u :: t =>
      if u = 93 then some ([], t)
      else if u = 44 then
        match readValue n t with
        | none => none
        | some (v, r) => (readItems n r).map fun p => (v :: p.1, p.2)
      else none

def readField : Nat → JsString → Option ((JsString × Json N) × JsString)
  | 0, _ => none
  | n + 1, s =>
    match skipBlank s with
    | [] => none
    | u :: t =>
      if u = 34 then
        match readString t with
        | none => none
        | some (k, r) =>
          match skipBlank r with
          | [] => none
          | w :: r' => if w = 58 then (readValue n r').map fun p => ((k, p.1), p.2) else none
      else none

/-- What follows a field. -/
def readFields : Nat → JsString → Option (List (JsString × Json N) × JsString)
  | 0, _ => none
  | n + 1, s =>
    match skipBlank s with
    | [] => none
    | u :: t =>
      if u = 125 then some ([], t)
      else if u = 44 then
        match readField n t with
        | none => none
        | some (f, r) => (readFields n r).map fun p => (f :: p.1, p.2)
      else none

end

/-- A text that is one value and nothing else. -/
def readText (s : JsString) : Option (Json N) :=
  match readValue readNum define (s.length + 1) s with
  | none => none
  | some (v, r) => if skipBlank r = [] then some v else none

end Read

end FullstackSvc.Text
