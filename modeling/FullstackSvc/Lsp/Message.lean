import Mathlib.Data.List.Basic
import FullstackSvc.Lsp.UriTransformer

/-!
# The messages of the command line client (`lsp_message.dart`)

`LspMessage.format` and `LspMessage.parse`, and the four messages the client
builds.  A Dart `String` of these is a Lean `String`; the maps are given by
their entries, in order.

* `plain_jsonRpc`: every message is built as it stands in both languages.
* `all_jsonRpc_iff`: what holds of ASCII holds of every string of a message when
  it holds of its texts.
-/

namespace FullstackSvc.Lsp

open Text

variable {N : Type}

namespace LspMessage

def format (T : NumText N) (jsonRpc : List (JsString × Json N)) : JsString :=
  let content := stringify T.dart (.obj jsonRpc)
  js "Content-Length: " ++ decimal content.length ++ headerEnd ++ content

/-- `null` for anything but one JSON object after the first `\r\n\r\n`; the
exceptions of `jsonDecode` are caught. -/
def parse (T : NumText N) (raw : JsString) : Option (List (JsString × Json N)) :=
  match indexOf headerEnd raw with
  | none => none
  | some separatorIndex =>
    let contentPart := raw.drop (separatorIndex + 4)
    if contentPart = [] then none
    else
      match readText T.read dartDefine contentPart with
      | some (.obj fields) => some fields
      | _ => none

def createInitializeRequest (T : NumText N) (id : Int) (rootUri : String) :
    List (JsString × Json N) :=
  [(js "jsonrpc", .str (js "2.0")),
    (js "id", .num (T.ofInt id)),
    (js "method", .str (js "initialize")),
    (js "params", .obj [
      (js "processId", .null),
      (js "rootUri", .str (js rootUri)),
      (js "capabilities", .obj [
        (js "textDocument", .obj [
          (js "definition", .obj [
            (js "linkSupport", .bool true)])])])])]

def createInitializedNotification : List (JsString × Json N) :=
  [(js "jsonrpc", .str (js "2.0")),
    (js "method", .str (js "initialized")),
    (js "params", .obj [])]

def createDidOpenNotification (T : NumText N) (uri languageId : String) (version : Int)
    (text : String) : List (JsString × Json N) :=
  [(js "jsonrpc", .str (js "2.0")),
    (js "method", .str (js "textDocument/didOpen")),
    (js "params", .obj [
      (js "textDocument", .obj [
        (js "uri", .str (js uri)),
        (js "languageId", .str (js languageId)),
        (js "version", .num (T.ofInt version)),
        (js "text", .str (js text))])])]

def createDefinitionRequest (T : NumText N) (id : Int) (uri : String) (line character : Int) :
    List (JsString × Json N) :=
  [(js "jsonrpc", .str (js "2.0")),
    (js "id", .num (T.ofInt id)),
    (js "method", .str (js "textDocument/definition")),
    (js "params", .obj [
      (js "textDocument", .obj [
        (js "uri", .str (js uri))]),
      (js "position", .obj [
        (js "line", .num (T.ofInt line)),
        (js "character", .num (T.ofInt character))])])]

end LspMessage

/-- What the client sends on a session. -/
inductive ClientMessage
  | initializeRequest (id : Int) (rootUri : String)
  | initializedNotification
  | didOpenNotification (uri languageId : String) (version : Int) (text : String)
  | definitionRequest (id : Int) (uri : String) (line character : Int)

namespace ClientMessage

def jsonRpc (T : NumText N) : ClientMessage → List (JsString × Json N)
  | .initializeRequest id rootUri => LspMessage.createInitializeRequest T id rootUri
  | .initializedNotification => LspMessage.createInitializedNotification
  | .didOpenNotification uri languageId version text =>
    LspMessage.createDidOpenNotification T uri languageId version text
  | .definitionRequest id uri line character =>
    LspMessage.createDefinitionRequest T id uri line character

/-- The strings that the caller chooses. -/
def texts : ClientMessage → List String
  | .initializeRequest _ rootUri => [rootUri]
  | .initializedNotification => []
  | .didOpenNotification uri languageId _ text => [uri, languageId, text]
  | .definitionRequest _ uri _ _ => [uri]

/-- **Every message is built as it stands.** -/
theorem plain_jsonRpc (T : NumText N) (m : ClientMessage) : Plain (.obj (m.jsonRpc T)) := by
  cases m with
  | initializeRequest id rootUri =>
    simp only [jsonRpc, LspMessage.createInitializeRequest, Plain, PlainFields, List.map_cons,
      List.map_nil, true_and, and_true]
    decide
  | initializedNotification =>
    simp only [jsonRpc, LspMessage.createInitializedNotification, Plain, PlainFields,
      List.map_cons, List.map_nil, true_and, and_true]
    decide
  | didOpenNotification uri languageId version text =>
    simp only [jsonRpc, LspMessage.createDidOpenNotification, Plain, PlainFields,
      List.map_cons, List.map_nil, true_and, and_true]
    decide
  | definitionRequest id uri line character =>
    simp only [jsonRpc, LspMessage.createDefinitionRequest, Plain, PlainFields,
      List.map_cons, List.map_nil, true_and, and_true]
    decide

/-- **The texts decide**: the rest of a message is ASCII. -/
theorem all_jsonRpc_iff (T : NumText N) {P : JsString → Prop} (hP : ∀ s, Ascii s → P s)
    (m : ClientMessage) :
    (Json.obj (m.jsonRpc T)).All P ↔ ∀ s ∈ m.texts, P (js s) := by
  have hlit : ∀ s : String, Ascii (js s) → P (js s) := fun s hs => hP _ hs
  cases m with
  | initializeRequest id rootUri =>
    simp (disch := decide) only [jsonRpc, LspMessage.createInitializeRequest, Json.All, AllFields,
      texts, hlit, List.forall_mem_cons, List.not_mem_nil,
      false_implies, implies_true, true_and, and_true]
  | initializedNotification =>
    simp (disch := decide) only [jsonRpc, LspMessage.createInitializedNotification, Json.All,
      AllFields, texts, hlit, List.not_mem_nil, false_implies, implies_true, and_true]
  | didOpenNotification uri languageId version text =>
    simp (disch := decide) only [jsonRpc, LspMessage.createDidOpenNotification, Json.All,
      AllFields, texts, hlit, List.forall_mem_cons, List.not_mem_nil,
      false_implies, implies_true, true_and, and_true]
  | definitionRequest id uri line character =>
    simp (disch := decide) only [jsonRpc, LspMessage.createDefinitionRequest, Json.All,
      AllFields, texts, hlit, List.forall_mem_cons, List.not_mem_nil,
      false_implies, implies_true, true_and, and_true]

end ClientMessage

/-! ### Characters -/

/-- Every character of the string is ASCII. -/
def AsciiText (s : String) : Prop := ∀ c ∈ s.toList, c.toNat < 0x80

instance (s : String) : Decidable (AsciiText s) := List.decidableBAll _ _

theorem ascii_unitsOf_iff (cp : Nat) (h : Scalar cp) : Ascii (unitsOf cp) ↔ cp < 0x80 := by
  rw [unitsOf]
  split
  · rename_i hb
    have hn : (UInt16.ofNat cp).toNat = cp := by
      rw [UInt16.toNat_ofNat']
      exact Nat.mod_eq_of_lt (by omega)
    rw [ascii_cons, hn]
    exact and_iff_left fun u hu => by simp at hu
  · rename_i hb
    have hc : cp < 0x110000 := by rcases h with h | h <;> omega
    have hu : (UInt16.ofNat (0xD800 + (cp - 0x10000) / 0x400)).toNat
        = 0xD800 + (cp - 0x10000) / 0x400 := by
      rw [UInt16.toNat_ofNat']
      exact Nat.mod_eq_of_lt (by omega)
    rw [ascii_cons, hu]
    constructor
    · rintro ⟨h, -⟩
      omega
    · intro h
      omega

theorem scalar_char (c : Char) : Scalar c.toNat := by
  have := c.valid
  simp only [UInt32.isValidChar, Nat.isValidChar] at this
  simp only [Scalar, Char.toNat]
  omega

theorem ascii_js_iff (s : String) : Ascii (js s) ↔ AsciiText s := by
  rw [js, AsciiText]
  induction s.toList with
  | nil => exact iff_of_true (fun u hu => by simp at hu) (fun c hc => by simp at hc)
  | cons c cs ih =>
    rw [List.flatMap_cons, ascii_append, ih, ascii_unitsOf_iff _ (scalar_char c),
      List.forall_mem_cons]

end FullstackSvc.Lsp
