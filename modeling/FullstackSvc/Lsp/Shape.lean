import Mathlib.Data.List.Basic
import FullstackSvc.Lsp.Rewriting

/-!
# What the rewritings leave alone

A rewriting is meant for the URIs in a value.  `SameShape` says that everything
else is as it was: the keys of every object in their order, the lengths of the
arrays, the numbers, and the strings that are no URIs of the workspace.

A string is judged by how it begins, in whichever member it stands.  So the text
of a document that begins like a URI is rewritten too, on its way to the
container.

* `sameShape_transformStrings_iff`: **the shape is kept unless there is a key
  `__proto__`**.
* `didOpen_text_arrives_iff`: the text of a document arrives.
* `rewriting_keeps_shape_iff`: both, for what is parsed and what is sent.
-/

namespace FullstackSvc.Lsp

open Text FullstackSvc.Stream

variable {N : Type} {T : NumText N} {isUri : JsString → Prop}

/-! ### Shape -/

mutual

/-- The two values differ in URIs only. -/
def SameShape (isUri : JsString → Prop) : Json N → Json N → Prop
  | .null, .null => True
  | .bool b, .bool b' => b = b'
  | .num n, .num n' => n = n'
  | .str s, .str s' => ¬ isUri s → s' = s
  | .arr items, .arr items' => SameItems isUri items items'
  | .obj fields, .obj fields' => SameFields isUri fields fields'
  | _, _ => False

def SameItems (isUri : JsString → Prop) : List (Json N) → List (Json N) → Prop
  | [], [] => True
  | v :: vs, w :: ws => SameShape isUri v w ∧ SameItems isUri vs ws
  | _, _ => False

def SameFields (isUri : JsString → Prop) :
    List (JsString × Json N) → List (JsString × Json N) → Prop
  | [], [] => True
  | (k, v) :: fs, (l, w) :: gs => k = l ∧ SameShape isUri v w ∧ SameFields isUri fs gs
  | _, _ => False

end

mutual

/-- **The keys are the same.** -/
theorem SameShape.keysOf_eq :
    ∀ v w : Json N, SameShape isUri v w → keysOf w = keysOf v
  | .null, .null, _ => rfl
  | .bool _, .bool _, _ => rfl
  | .num _, .num _, _ => rfl
  | .str _, .str _, _ => rfl
  | .arr items, .arr items', h => by
    rw [SameShape] at h
    rw [keysOf, keysOf, SameItems.keysOf_eq items items' h]
  | .obj fields, .obj fields', h => by
    rw [SameShape] at h
    rw [keysOf, keysOf, SameFields.keysOf_eq fields fields' h]

theorem SameItems.keysOf_eq :
    ∀ vs ws : List (Json N), SameItems isUri vs ws → keysOfItems ws = keysOfItems vs
  | [], [], _ => rfl
  | v :: vs, w :: ws, h => by
    rw [SameItems] at h
    rw [keysOfItems, keysOfItems, SameShape.keysOf_eq v w h.1, SameItems.keysOf_eq vs ws h.2]

theorem SameFields.keysOf_eq :
    ∀ fs gs : List (JsString × Json N), SameFields isUri fs gs → keysOfFields gs = keysOfFields fs
  | [], [], _ => rfl
  | (k, v) :: fs, (l, w) :: gs, h => by
    rw [SameFields] at h
    rw [keysOfFields, keysOfFields, h.1, SameShape.keysOf_eq v w h.2.1,
      SameFields.keysOf_eq fs gs h.2.2]

end

mutual

/-- Changing the URIs only. -/
theorem sameShape_mapStr {f : JsString → JsString} (hf : ∀ s, ¬ isUri s → f s = s) :
    ∀ v : Json N, SameShape isUri v (mapStr f v)
  | .null => by rw [mapStr, SameShape]; trivial
  | .bool _ => by rw [mapStr, SameShape]
  | .num _ => by rw [mapStr, SameShape]
  | .str s => by rw [mapStr, SameShape]; exact hf s
  | .arr items => by rw [mapStr, SameShape]; exact sameItems_mapStr hf items
  | .obj fields => by rw [mapStr, SameShape]; exact sameFields_mapStr hf fields

theorem sameItems_mapStr {f : JsString → JsString} (hf : ∀ s, ¬ isUri s → f s = s) :
    ∀ vs : List (Json N), SameItems isUri vs (mapStrItems f vs)
  | [] => by rw [mapStrItems, SameItems]; trivial
  | v :: vs => by
    rw [mapStrItems, SameItems]
    exact ⟨sameShape_mapStr hf v, sameItems_mapStr hf vs⟩

theorem sameFields_mapStr {f : JsString → JsString} (hf : ∀ s, ¬ isUri s → f s = s) :
    ∀ fs : List (JsString × Json N), SameFields isUri fs (mapStrFields f fs)
  | [] => by rw [mapStrFields, SameFields]; trivial
  | (k, v) :: fs => by
    rw [mapStrFields, SameFields]
    exact ⟨rfl, sameShape_mapStr hf v, sameFields_mapStr hf fs⟩

end

/-- **The shape is kept** exactly when no object has the key `__proto__`. -/
theorem sameShape_transformStrings_iff {f : JsString → JsString} (hf : ∀ s, ¬ isUri s → f s = s)
    {v : Json N} (hv : Canonical jsDefine v) :
    SameShape isUri v (transformStrings f v) ↔ js "__proto__" ∉ keysOf v := by
  constructor
  · intro h
    have hkeys := SameShape.keysOf_eq _ _ h
    rw [transformStrings_eq f v hv, keysOf_mapStr] at hkeys
    rw [← hkeys]
    exact not_mem_keysOf_without _ v
  · intro h
    rw [transformStrings_of_not_mem f hv h]
    exact sameShape_mapStr hf v

/-! ### The text of a document -/

/-- `value[key]` of a parsed object. -/
def member (key : JsString) : Json N → Option (Json N)
  | .obj fields => (fields.find? fun p => decide (p.1 = key)).map Prod.snd
  | _ => none

/-- `params.textDocument.text`. -/
def documentText (message : Json N) : Option JsString :=
  match ((member (js "params") message).bind (member (js "textDocument"))).bind
      (member (js "text")) with
  | some (.str s) => some s
  | _ => none

/-- What the reader of the stream makes of the bytes of one message. -/
def arrives (T : NumText N) (bytes : Bytes) : Option (Json N) :=
  match decodeStream T bytes with
  | some [v] => some v
  | _ => none

/-- The text of the rewritten message. -/
theorem documentText_didOpen (R : JsString) (uri languageId : String) (version : Int)
    (text : String) :
    documentText (transformUris R (.obj (LspMessage.createDidOpenNotification T uri languageId
      version text))) = some (transformUri R (js text)) := by
  have hplain := (ClientMessage.didOpenNotification uri languageId version text).plain_jsonRpc T
  rw [ClientMessage.jsonRpc] at hplain
  rw [transformUris, transformStrings_eq_mapStr _ _ (canonical_of_plain appends_assign _ hplain)]
  rfl

/-- A string is left as it is exactly when it does not name the client's directory. -/
theorem transformUri_eq_self_iff {sessionId : JsString} (hid : UlidText sessionId) (s : JsString) :
    transformUri (sessionRoot sessionId) s = s ↔ ¬ UnderRoot (js "/workspace") s := by
  rw [transformUri_eq_replaceRoot]
  constructor
  · intro h
    rw [← h]
    exact not_underRoot_replaceRoot (dollar_not_mem_sessionRoot hid)
      (workspace_apart_root sessionId) s
  · exact replaceRoot_of_not_under

/-- **The text of a document arrives** exactly when it does not begin like a URI of the
workspace and the message is written in ASCII. -/
theorem didOpen_text_arrives_iff {sessionId : JsString} (hid : UlidText sessionId)
    (uri languageId : String) (version : Int) (text : String) :
    (arrives T (writtenBytes T (sessionRoot sessionId)
        (.didOpenNotification uri languageId version text))).bind documentText = some (js text) ↔
      ¬ UnderRoot (js "/workspace") (js text) ∧
        AsciiText uri ∧ AsciiText languageId ∧ AsciiText text := by
  have hR := sessionRoot_ascii hid
  have hdollar := dollar_not_mem_sessionRoot hid
  have htexts : (AsciiText uri ∧ AsciiText languageId ∧ AsciiText text) ↔
      ∀ s ∈ (ClientMessage.didOpenNotification uri languageId version text).texts,
        AsciiText s := by
    simp [ClientMessage.texts]
  rw [htexts]
  by_cases hascii : ∀ s ∈ (ClientMessage.didOpenNotification uri languageId version text).texts,
      AsciiText s
  · have hread := (decodeStream_clientStream_iff (T := T) hR hdollar
      [.didOpenNotification uri languageId version text]).mpr fun m hm => by
        rw [List.mem_singleton.mp hm]
        exact hascii
    rw [clientStream, List.map_singleton, List.map_singleton, List.flatten_singleton] at hread
    rw [arrives, hread, and_iff_left hascii, ← transformUri_eq_self_iff hid]
    simp only [Option.bind_some, ClientMessage.jsonRpc, documentText_didOpen, Option.some.injEq]
  · refine iff_of_false ?_ fun h => hascii h.2
    obtain ⟨fs, hfs⟩ := rewritten_obj (T := T) (sessionRoot sessionId)
      (.didOpenNotification uri languageId version text)
    have hnot := mt (ascii_stringify_rewritten_iff (T := T) hR hdollar _).mp hascii
    rw [hfs] at hnot
    have hnone : decodeStream T (([] ++ Json.obj fs :: []).map (frameOf T)).flatten = none :=
      decodeStream_of_not_ascii (by simp) hnot
    rw [List.nil_append, List.map_singleton, List.flatten_singleton, ← hfs, ← writtenBytes_eq]
      at hnone
    rw [arrives, hnone]
    simp

/-! ### Both -/

/-- **Nothing but URIs is changed, exactly when no key and no text gets in the way.**  For any
workspace root, the two rewritings keep the shape of a value that `JSON.parse` has returned if and
only if no object in it, at any depth, has the key `__proto__`; and the text of a document that
the client opens arrives at the container if and only if it is not `file:///workspace`, does not
begin with `file:///workspace/`, and the strings of the message are ASCII. -/
theorem rewriting_keeps_shape_iff (T : NumText N) {source : JsString} {v : Json N}
    (hv : readText T.read jsDefine source = some v) :
    (∀ R : JsString, SameShape (UnderRoot (js "/workspace")) v (transformUris R v) ∧
        SameShape (UnderRoot R) v (transformResponseUris R v) ↔ js "__proto__" ∉ keysOf v) ∧
      ∀ (sessionId : JsString) (uri languageId : String) (version : Int) (text : String),
        UlidText sessionId →
        ((arrives T (writtenBytes T (sessionRoot sessionId)
            (.didOpenNotification uri languageId version text))).bind documentText =
              some (js text) ↔
          ¬ UnderRoot (js "/workspace") (js text) ∧
            AsciiText uri ∧ AsciiText languageId ∧ AsciiText text) := by
  have hcanon := canonical_of_readText hv
  refine ⟨fun R => ?_, fun sessionId uri languageId version text hid =>
    didOpen_text_arrives_iff hid uri languageId version text⟩
  have hclient : ∀ s, ¬ UnderRoot (js "/workspace") s → transformUri R s = s := by
    rw [transformUri_eq_replaceRoot]
    exact fun s hs => replaceRoot_of_not_under hs
  have hresponse : ∀ s, ¬ UnderRoot R s → transformResponseUri R s = s := by
    rw [transformResponseUri_eq_replaceRoot]
    exact fun s hs => replaceRoot_of_not_under hs
  rw [transformUris, transformResponseUris, sameShape_transformStrings_iff hclient hcanon,
    sameShape_transformStrings_iff hresponse hcanon, and_self_iff]
/-- A document that is opened with an ordinary text, and an answer without special keys. -/
theorem rewriting_keeps_shape_of_symbols :
    let v : Json Int := .obj [(js "uri", .str (js "file:///lsp-files/01ARZ3NDEKTSV4RRFFQ69G5FAV/a"))]
    ∀ R : JsString, SameShape (UnderRoot (js "/workspace")) v (transformUris R v) ∧
      SameShape (UnderRoot R) v (transformResponseUris R v) := by
  intro v R
  have hparsed : readText intText.read jsDefine (stringify intText.js v) = some v :=
    readText_stringify intText.read_js intText.js_ne_nil intText.js_num
      (canonical_of_plain appends_jsDefine _ (by
        simp only [v, Plain, PlainFields, List.map_cons, List.map_nil, true_and]
        decide))
  refine ((rewriting_keeps_shape_iff intText hparsed).1 R).mpr ?_
  simp only [v, keysOf, keysOfFields]
  decide

/-- An object with a key `__proto__`, and a document that begins like a URI. -/
theorem rewriting_loses_member_and_text :
    (∃ v : Json Int, readText intText.read jsDefine (stringify intText.js v) = some v ∧
      v = .obj [(js "__proto__", .null)] ∧
      ∀ R, ¬ SameShape (UnderRoot (js "/workspace")) v (transformUris R v)) ∧
    (arrives intText (writtenBytes intText (sessionRoot (js "01ARZ3NDEKTSV4RRFFQ69G5FAV"))
      (.didOpenNotification "file:///workspace/main.dart" "dart" 1
        "file:///workspace/ is where the client is"))).bind documentText ≠
      some (js "file:///workspace/ is where the client is") := by
  have hplain : Canonical (N := Int) jsDefine (.obj [(js "__proto__", .null)]) := by
    rw [Canonical, CanonicalFields, CanonicalFields, Canonical]
    exact ⟨⟨trivial, trivial⟩, buildObject_of_ordered (List.pairwise_singleton _ _)⟩
  refine ⟨⟨_, ?_, rfl, fun R h => ?_⟩, fun h => ?_⟩
  · exact readText_stringify intText.read_js intText.js_ne_nil intText.js_num hplain
  · have hkeep : ∀ s, ¬ UnderRoot (js "/workspace") s → transformUri R s = s := by
      intro s hs
      rw [transformUri_eq_replaceRoot]
      exact replaceRoot_of_not_under hs
    have hkey := (sameShape_transformStrings_iff hkeep hplain).mp h
    exact hkey (by simp [keysOf, keysOfFields])
  · have hid : UlidText (js "01ARZ3NDEKTSV4RRFFQ69G5FAV") := by decide
    have hnot := (didOpen_text_arrives_iff hid "file:///workspace/main.dart" "dart" 1
      "file:///workspace/ is where the client is").mp h
    exact hnot.1 (by decide)

end FullstackSvc.Lsp
