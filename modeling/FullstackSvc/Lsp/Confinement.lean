import Mathlib.Data.List.Basic
import FullstackSvc.Lsp.Requests
import FullstackSvc.Text.FileUri
import FullstackSvc.Text.JsonKeys

/-!
# The files that a forwarded message names

Every container mounts the directories of all sessions.  What keeps a client in
its own one is `transformMessage`, which puts the workspace root of the session
in place of `file:///workspace`.  It compares text: other `file://` URIs pass,
`..` segments pass, and a text that has no JSON body passes as a whole.  Texts that
pass so may have no URI each and make up a request together, since the container reads
one stream.

`messageUris` are the URIs of files among the values of one message that is forwarded,
`streamUris` those of the requests in a stream; `Confined` says that such a URI leads to the
session's directory or below it.  How URIs are read is a parameter.

* `transformUri_confined_iff`: **one URI**.
* `forwarded_confined_iff`: **one message**, and the requests that it completes, are confined
  exactly when the client has named no file outside (`NamesOwnFiles`).
-/

namespace FullstackSvc.Lsp

open Text FullstackSvc.Stream

variable {N : Type} {T : NumText N} {reader : UriReader} {sessionId : JsString}

/-! ### One URI -/

/-- The directory of a session in the volume that containers mount. -/
def sessionDirectory (sessionId : JsString) : List JsString := [js "lsp-files", sessionId]

/-- The URI leads to the session's directory or below it. -/
abbrev Confined (reader : UriReader) (sessionId uri : JsString) : Prop :=
  Below reader (sessionDirectory sessionId) uri

/-- What a client may name: the workspace, a path behind it that does not lead out of the
session's directory when it is walked from there, or a URI of that directory. -/
def Stays (reader : UriReader) (sessionId uri : JsString) : Prop :=
  if uri = js "file:///workspace" then True
  else if startsWith uri (js "file:///workspace/") then
    sessionDirectory sessionId <+:
      walk (sessionDirectory sessionId)
        (segments reader (slashes reader ((uri.drop 18).takeWhile isPathUnit)))
  else Confined reader sessionId uri

/-- **A URI leads to one session's directory at most.** -/
theorem Confined.unique {other uri : JsString} (h : Confined reader sessionId uri)
    (h' : Confined reader other uri) : other = sessionId := by
  have hsame : sessionDirectory other = sessionDirectory sessionId :=
    (List.prefix_of_prefix_length_le h' h (Nat.le_refl 2)).eq_of_length rfl
  exact (List.cons.inj (List.cons.inj hsame).2).1

instance (uri : JsString) : Decidable (Stays reader sessionId uri) := by
  unfold Stays
  infer_instance

theorem pathTo_sessionDirectory (sessionId : JsString) :
    pathTo (sessionDirectory sessionId) = sessionRoot sessionId := by
  rw [sessionDirectory, pathTo, pathTo, pathTo, List.append_nil, sessionRoot]
  rfl

theorem uriName_of_ulidText (h : UlidText sessionId) (hne : sessionId ≠ []) : UriName sessionId := by
  refine ⟨⟨hne, h.not_mem (by decide), ?_, ?_⟩, fun u hu => ?_⟩
  · rintro rfl
    exact absurd h (by decide)
  · rintro rfl
    exact absurd h (by decide)
  · have halpha : ∀ v ∈ js "0123456789ABCDEFGHJKMNPQRSTVWXYZ", isUnreserved v = true :=
      forall_units (by decide)
    exact halpha u (h u hu)

theorem uriName_sessionDirectory (h : UlidText sessionId) (hne : sessionId ≠ []) :
    ∀ n ∈ sessionDirectory sessionId, UriName n := by
  intro n hn
  rw [sessionDirectory, List.mem_cons, List.mem_singleton] at hn
  rcases hn with rfl | rfl
  · exact ⟨⟨by decide, by decide, by decide, by decide⟩, forall_units (by decide)⟩
  · exact uriName_of_ulidText h hne

/-- No id has a `$`, so the root is put in as it stands. -/
theorem transformUri_workspace (h : UlidText sessionId) (t : JsString) :
    transformUri (sessionRoot sessionId) (js "file:///workspace/" ++ t) =
      js "file://" ++ (sessionRoot sessionId ++ 47 :: t) := by
  have hdollar : (36 : UInt16) ∉ js "file://" ++ sessionRoot sessionId ++ js "/" := by
    rw [sessionRoot]
    simp only [List.mem_append, not_or]
    exact ⟨⟨by decide, by decide, h.not_mem (by decide)⟩, by decide⟩
  rw [transformUri, if_pos (startsWith_iff.mpr ⟨t, rfl⟩), replace_append,
    expandReplacement_of_not_mem hdollar, List.append_assoc, List.append_assoc]
  rfl

/-- **One URI.**  What the transformer makes of the URI of a file is one, and it
leads below the session's directory exactly when the client's stays there. -/
theorem transformUri_confined_iff (h : UlidText sessionId) (hne : sessionId ≠ []) (uri : JsString) :
    reader.isFile (transformUri (sessionRoot sessionId) uri) = reader.isFile uri ∧
      (Confined reader sessionId (transformUri (sessionRoot sessionId) uri) ↔
        Stays reader sessionId uri) := by
  have hnames := uriName_sessionDirectory h hne
  have hdir : sessionDirectory sessionId ≠ [] := List.cons_ne_nil _ _
  rw [Stays]
  by_cases hw : uri = js "file:///workspace"
  · subst hw
    have htr : transformUri (sessionRoot sessionId) (js "file:///workspace") =
        js "file://" ++ pathTo (sessionDirectory sessionId) := by
      rw [pathTo_sessionDirectory, transformUri, if_neg (by decide), if_pos rfl]
    rw [htr, if_pos rfl]
    exact ⟨(reader.file _).trans (reader.file (js "/workspace")).symm,
      iff_of_true (below_self hnames hdir) trivial⟩
  · rw [if_neg hw]
    by_cases hs : startsWith uri (js "file:///workspace/") = true
    · obtain ⟨t, rfl⟩ := startsWith_iff.mp hs
      have hdrop : (js "file:///workspace/" ++ t).drop 18 = t := List.drop_left' (by decide)
      rw [transformUri_workspace h, if_pos hs, hdrop, ← pathTo_sessionDirectory]
      refine ⟨(reader.file _).trans ?_, below_append_iff hnames hdir t⟩
      exact (reader.file (js "/workspace/" ++ t)).symm
    · rw [transformUri, if_neg hs, if_neg hw, if_neg hs]
      exact ⟨rfl, Iff.rfl⟩

/-! ### The values of a rebuilt message -/

mutual

/-- The strings that the transformer keeps: the member `__proto__` of an object is lost when
the object is rebuilt. -/
def keptStrings : Json N → List JsString
  | .null => []
  | .bool _ => []
  | .num _ => []
  | .str s => [s]
  | .arr items => keptItems items
  | .obj fields => keptFields fields

def keptItems : List (Json N) → List JsString
  | [] => []
  | v :: vs => keptStrings v ++ keptItems vs

def keptFields : List (JsString × Json N) → List JsString
  | [] => []
  | (k, v) :: fs => (if k = js "__proto__" then [] else keptStrings v) ++ keptFields fs

end

theorem proper_assign : Proper (assign (N := N)) := by
  intro fs k v hfs
  rw [assign]
  split
  · exact ⟨hfs, fun p hp => Or.inl hp⟩
  · exact proper_jsDefine fs k v hfs

/-- An object with distinct keys loses the one member. -/
theorem mem_buildObject_assign {fs : List (JsString × Json N)} (h : (fs.map Prod.fst).Nodup)
    (p : JsString × Json N) :
    p ∈ buildObject assign fs ↔ p ∈ fs ∧ p.1 ≠ js "__proto__" := by
  have key : ∀ (fs acc : List (JsString × Json N)), (fs.map Prod.fst).Nodup →
      (∀ k ∈ fs.map Prod.fst, k ∉ acc.map Prod.fst) →
      (p ∈ fs.foldl (fun fs f => assign fs f.1 f.2) acc ↔
        p ∈ acc ∨ p ∈ fs ∧ p.1 ≠ js "__proto__") := by
    intro fs
    induction fs with
    | nil => intro acc _ _; simp
    | cons f fs ih =>
      intro acc hn hdisj
      rw [List.map_cons, List.nodup_cons] at hn
      have hf : f.1 ∉ acc.map Prod.fst := hdisj f.1 (by simp)
      rw [List.foldl_cons]
      by_cases hproto : f.1 = js "__proto__"
      · rw [assign, if_pos hproto, ih acc hn.2 fun k hk => hdisj k (by simp [hk])]
        refine or_congr_right ⟨fun h => ⟨List.mem_cons_of_mem _ h.1, h.2⟩, ?_⟩
        rintro ⟨hp, hne⟩
        rcases List.mem_cons.mp hp with rfl | hp
        · exact absurd hproto hne
        · exact ⟨hp, hne⟩
      · have hperm := jsDefine_perm hf f.2
        have hmem : p ∈ jsDefine acc f.1 f.2 ↔ p = f ∨ p ∈ acc :=
          hperm.mem_iff.trans List.mem_cons
        rw [assign, if_neg hproto, ih _ hn.2 fun k hk hm => ?_, hmem]
        · constructor
          · rintro ((rfl | hp) | ⟨hp, hne⟩)
            · exact Or.inr ⟨List.mem_cons_self, hproto⟩
            · exact Or.inl hp
            · exact Or.inr ⟨List.mem_cons_of_mem _ hp, hne⟩
          · rintro (hp | ⟨hp, hne⟩)
            · exact Or.inl (Or.inr hp)
            · rcases List.mem_cons.mp hp with rfl | hp
              · exact Or.inl (Or.inl rfl)
              · exact Or.inr ⟨hp, hne⟩
        · rcases List.mem_cons.mp ((hperm.map Prod.fst).mem_iff.mp hm) with he | hm
          · exact hn.1 (he ▸ hk)
          · exact hdisj k (by simp [hk]) hm
  have hkey := key fs [] h fun _ _ => List.not_mem_nil
  rw [buildObject, hkey]
  simp

theorem mem_strValuesFields {fs : List (JsString × Json N)} {s : JsString} :
    s ∈ strValuesFields fs ↔ ∃ p ∈ fs, s ∈ strValues p.2 := by
  induction fs with
  | nil => simp [strValuesFields]
  | cons p fs ih =>
    obtain ⟨k, v⟩ := p
    simp [strValuesFields, ih]

theorem keys_transformFields (f : JsString → JsString) (fs : List (JsString × Json N)) :
    (transformFields f fs).map Prod.fst = fs.map Prod.fst := by
  induction fs with
  | nil => rw [transformFields]
  | cons p fs ih =>
    obtain ⟨k, v⟩ := p
    rw [transformFields, List.map_cons, List.map_cons, ih]

mutual

/-- **The strings of a rebuilt value** are the ones that are kept, transformed. -/
theorem mem_strValues_transformStrings (f : JsString → JsString) (s : JsString) :
    ∀ v : Json N, Distinct v →
      (s ∈ strValues (transformStrings f v) ↔ ∃ u ∈ keptStrings v, f u = s)
  | .null, _ => by simp [transformStrings, strValues, keptStrings]
  | .bool _, _ => by simp [transformStrings, strValues, keptStrings]
  | .num _, _ => by simp [transformStrings, strValues, keptStrings]
  | .str u, _ => by simp [transformStrings, strValues, keptStrings, eq_comm]
  | .arr items, h => by
    rw [Distinct] at h
    rw [transformStrings, strValues, keptStrings]
    exact mem_strValues_transformItems f s items h
  | .obj fields, h => by
    rw [Distinct] at h
    have hkeys : ((transformFields f fields).map Prod.fst).Nodup := by
      rw [keys_transformFields]
      exact h.2
    rw [transformStrings, strValues, keptStrings, mem_strValuesFields,
      ← mem_strValues_transformFields f s fields h.1]
    constructor
    · rintro ⟨p, hp, hs⟩
      obtain ⟨hp, hne⟩ := (mem_buildObject_assign hkeys p).mp hp
      exact ⟨p, hp, hne, hs⟩
    · rintro ⟨p, hp, hne, hs⟩
      exact ⟨p, (mem_buildObject_assign hkeys p).mpr ⟨hp, hne⟩, hs⟩

theorem mem_strValues_transformItems (f : JsString → JsString) (s : JsString) :
    ∀ vs : List (Json N), DistinctItems vs →
      (s ∈ strValuesItems (transformItems f vs) ↔ ∃ u ∈ keptItems vs, f u = s)
  | [], _ => by simp [transformItems, strValuesItems, keptItems]
  | v :: vs, h => by
    rw [DistinctItems] at h
    rw [transformItems, strValuesItems, keptItems, List.mem_append,
      mem_strValues_transformStrings f s v h.1, mem_strValues_transformItems f s vs h.2]
    simp only [List.mem_append, or_and_right, exists_or]

theorem mem_strValues_transformFields (f : JsString → JsString) (s : JsString) :
    ∀ fs : List (JsString × Json N), DistinctFields fs →
      ((∃ p ∈ transformFields f fs, p.1 ≠ js "__proto__" ∧ s ∈ strValues p.2) ↔
        ∃ u ∈ keptFields fs, f u = s)
  | [], _ => by simp [transformFields, keptFields]
  | (k, v) :: fs, h => by
    rw [DistinctFields] at h
    have ih := mem_strValues_transformFields f s fs h.2
    have ihv := mem_strValues_transformStrings f s v h.1
    rw [transformFields, keptFields]
    simp only [List.mem_cons, List.mem_append, or_and_right, exists_or, exists_eq_left, ih]
    refine or_congr_left ?_
    by_cases hk : k = js "__proto__"
    · simp [hk]
    · simp [hk, ihv]

end

mutual

/-- A rebuilt value has distinct keys. -/
theorem distinct_transformStrings (f : JsString → JsString) :
    ∀ v : Json N, Distinct (transformStrings f v)
  | .null => by rw [transformStrings]; trivial
  | .bool _ => by rw [transformStrings]; trivial
  | .num _ => by rw [transformStrings]; trivial
  | .str _ => by rw [transformStrings]; trivial
  | .arr items => by
    rw [transformStrings, Distinct]
    exact distinct_transformItems f items
  | .obj fields => by
    rw [transformStrings]
    exact distinct_buildObject proper_assign (distinct_transformFields f fields)

theorem distinct_transformItems (f : JsString → JsString) :
    ∀ vs : List (Json N), DistinctItems (transformItems f vs)
  | [] => by rw [transformItems]; trivial
  | v :: vs => by
    rw [transformItems, DistinctItems]
    exact ⟨distinct_transformStrings f v, distinct_transformItems f vs⟩

theorem distinct_transformFields (f : JsString → JsString) :
    ∀ fs : List (JsString × Json N), DistinctFields (transformFields f fs)
  | [] => by rw [transformFields]; trivial
  | (k, v) :: fs => by
    rw [transformFields, DistinctFields]
    exact ⟨distinct_transformStrings f v, distinct_transformFields f fs⟩

end

/-! ### One message -/

/-- The URIs of files among the values of messages, as they are read. -/
def uriValues (reader : UriReader) (vs : List (Json N)) : List JsString :=
  (vs.flatMap strValues).filter reader.isFile

/-- Those of the message that is forwarded, as it stands. -/
def messageUris (T : NumText N) (reader : UriReader) (bytes : Bytes) : List JsString :=
  uriValues reader (decodeFrame T bytes).toList

/-- Those of the requests that a server reads from a stream. -/
def streamUris (T : NumText N) (reader : UriReader) (bytes : Bytes) : List JsString :=
  uriValues reader (requests T bytes)

theorem mem_uriValues {vs : List (Json N)} {uri : JsString} :
    uri ∈ uriValues reader vs ↔ (∃ v ∈ vs, uri ∈ strValues v) ∧ reader.isFile uri = true := by
  rw [uriValues, List.mem_filter, List.mem_flatMap]

/-- The URIs of a stream, part by part. -/
theorem streamUris_append (T : NumText N) (reader : UriReader) (front rest : Bytes) :
    streamUris T reader (front ++ rest) =
      streamUris T reader front ++
        streamUris T reader ((responseCutter.drain front).buffer ++ rest) := by
  rw [streamUris, requests_append, uriValues, List.flatMap_append, List.filter_append]
  rfl

/-- What `transformMessage` parses of a text. -/
def clientBody (T : NumText N) (messageStr : JsString) : Option (Json N) :=
  (indexOf headerEnd messageStr).bind fun separatorIndex =>
    readText T.read jsDefine (messageStr.drop (separatorIndex + 4))

/-- The client names no file outside the session's directory: in the body of its text, or,
when the text has none and is passed on as it stands, in this text and in the requests that it
makes with what its container has not read yet. -/
structure NamesOwnFiles (T : NumText N) (reader : UriReader) (sessionId : JsString)
    (pending : Bytes) (messageStr : JsString) : Prop where
  body : ∀ v, clientBody T messageStr = some v →
    ∀ uri ∈ keptStrings v, reader.isFile uri = true → Stays reader sessionId uri
  alone : clientBody T messageStr = none →
    ∀ uri ∈ messageUris T reader (utf8Encode messageStr), Confined reader sessionId uri
  joined : clientBody T messageStr = none →
    ∀ uri ∈ streamUris T reader (pending ++ utf8Encode messageStr), Confined reader sessionId uri

variable {pending : Bytes}

theorem namesOwnFiles_iff_of_body {messageStr : JsString} {v : Json N}
    (hbody : clientBody T messageStr = some v) :
    NamesOwnFiles T reader sessionId pending messageStr ↔
      ∀ uri ∈ keptStrings v, reader.isFile uri = true → Stays reader sessionId uri := by
  have hsome : clientBody T messageStr ≠ none := by
    rw [hbody]
    exact Option.some_ne_none v
  refine ⟨fun h => h.body v hbody, fun h => ⟨fun w hw => ?_, ?_, ?_⟩⟩
  · obtain rfl := Option.some.inj (hbody.symm.trans hw)
    exact h
  · exact fun hnone => absurd hnone hsome
  · exact fun hnone => absurd hnone hsome

theorem namesOwnFiles_iff_of_none {messageStr : JsString} (hnone : clientBody T messageStr = none) :
    NamesOwnFiles T reader sessionId pending messageStr ↔
      (∀ uri ∈ messageUris T reader (utf8Encode messageStr), Confined reader sessionId uri) ∧
        ∀ uri ∈ streamUris T reader (pending ++ utf8Encode messageStr), Confined reader sessionId uri := by
  refine ⟨fun h => ⟨h.alone hnone, h.joined hnone⟩, fun h => ⟨fun v hv => ?_, ?_, ?_⟩⟩
  · rw [hnone] at hv
    cases hv
  · exact fun _ => h.1
  · exact fun _ => h.2

theorem clientBody_format {fields : List (JsString × Json N)} (hplain : Plain (.obj fields)) :
    clientBody T (LspMessage.format T fields) = some (.obj fields) := by
  rw [format_eq, clientBody, indexOf_headerEnd (cr_not_mem_headerLine _), Option.bind_some,
    drop_header]
  exact readText_dart hplain

/-- What `transformMessage` makes of a text, by its body. -/
theorem transformMessage_eq (messageStr workspaceRoot : JsString) :
    transformMessage T messageStr workspaceRoot =
      match clientBody T messageStr with
      | some v => headerLine (stringify T.js (transformUris workspaceRoot v)).length ++
          (headerEnd ++ stringify T.js (transformUris workspaceRoot v))
      | none => messageStr := by
  have hnil : readText T.read jsDefine [] = none := rfl
  rw [transformMessage, clientBody]
  cases hi : indexOf headerEnd messageStr with
  | none => rfl
  | some n =>
    simp only [Option.bind_some]
    by_cases hc : messageStr.drop (n + 4) = []
    · rw [if_pos hc, hc, hnil]
    · rw [if_neg hc]
      cases readText T.read jsDefine (messageStr.drop (n + 4)) with
      | none => rfl
      | some v => simp only [headerLine, List.append_assoc]

/-- A message with a body is written as the frame of the rebuilt body. -/
theorem utf8Encode_transformMessage {messageStr : JsString} {v : Json N}
    (hbody : clientBody T messageStr = some v) (workspaceRoot : JsString) :
    utf8Encode (transformMessage T messageStr workspaceRoot) =
      frameOf T (transformUris workspaceRoot v) := by
  rw [transformMessage_eq, hbody]
  simp only [utf8Encode_message]
  rfl

/-- A rebuilt body is read as it stands. -/
theorem canonical_transformUris (workspaceRoot : JsString) (v : Json N) :
    Canonical dartDefine (transformUris workspaceRoot v) :=
  canonical_of_distinct _ (distinct_transformStrings _ v)

/-- The URIs of a message with a body are those of the rebuilt body. -/
theorem messageUris_transformMessage {messageStr : JsString} {v : Json N}
    (hbody : clientBody T messageStr = some v) (workspaceRoot : JsString) :
    messageUris T reader (utf8Encode (transformMessage T messageStr workspaceRoot)) =
      (strValues (transformUris workspaceRoot v)).filter reader.isFile := by
  rw [utf8Encode_transformMessage hbody, messageUris,
    decodeFrame_frameOf (canonical_transformUris workspaceRoot v), uriValues, Option.toList_some,
    List.flatMap_singleton]

/-- Behind whatever has been left unread, a message with a body brings no other URIs. -/
theorem streamUris_transformMessage {bad : Bool} {messageStr : JsString} {v : Json N}
    (hp : responseCutter.drain pending = ⟨[], pending, bad⟩)
    (hbody : clientBody T messageStr = some v) (workspaceRoot : JsString) :
    ∀ uri ∈ streamUris T reader (pending ++ utf8Encode (transformMessage T messageStr workspaceRoot)),
      uri ∈ messageUris T reader (utf8Encode (transformMessage T messageStr workspaceRoot)) := by
  intro uri huri
  rw [utf8Encode_transformMessage hbody, streamUris, mem_uriValues] at huri
  obtain ⟨⟨w, hw, hs⟩, hfile⟩ := huri
  rw [messageUris_transformMessage hbody, List.mem_filter]
  exact ⟨strings_of_requests hp (canonical_transformUris workspaceRoot v) w hw uri hs, hfile⟩

/-- The strings of a message with a body, and those that the client has sent. -/
theorem messageUris_confined_iff (h : UlidText sessionId) (hne : sessionId ≠ [])
    {messageStr : JsString} {v : Json N} (hbody : clientBody T messageStr = some v) :
    (∀ uri ∈ messageUris T reader (utf8Encode (transformMessage T messageStr (sessionRoot sessionId))),
        Confined reader sessionId uri) ↔
      ∀ uri ∈ keptStrings v, reader.isFile uri = true → Stays reader sessionId uri := by
  have hdistinct : Distinct v := by
    obtain ⟨n, -, hread⟩ := Option.bind_eq_some_iff.mp hbody
    exact distinct_of_readText proper_jsDefine hread
  rw [messageUris_transformMessage hbody]
  simp only [List.mem_filter]
  have hmem := fun s => mem_strValues_transformStrings (transformUri (sessionRoot sessionId)) s v
    hdistinct
  have huri := @transformUri_confined_iff reader sessionId h hne
  constructor
  · intro hall uri hkept hfile
    refine ((huri uri).2).mp (hall _ ⟨(hmem _).mpr ⟨uri, hkept, rfl⟩, ?_⟩)
    rw [(huri uri).1, hfile]
  · rintro hall _ ⟨hs, hfile⟩
    obtain ⟨uri, hkept, rfl⟩ := (hmem _).mp hs
    rw [(huri uri).1] at hfile
    exact ((huri uri).2).mpr (hall uri hkept hfile)

/-- **One message.**  Every URI of a file forwarded, and every one in the requests that the
message makes with what has been left unread, leads to the session's directory or below it if and
only if the client has named no file outside. -/
theorem forwarded_confined_iff (h : UlidText sessionId) (hne : sessionId ≠ []) {bad : Bool}
    (hp : responseCutter.drain pending = ⟨[], pending, bad⟩) (messageStr : JsString) :
    ((∀ uri ∈ messageUris T reader (utf8Encode (transformMessage T messageStr (sessionRoot sessionId))),
        Confined reader sessionId uri) ∧
      ∀ uri ∈ streamUris T reader
          (pending ++ utf8Encode (transformMessage T messageStr (sessionRoot sessionId))),
        Confined reader sessionId uri) ↔
      NamesOwnFiles T reader sessionId pending messageStr := by
  cases hbody : clientBody T messageStr with
  | none =>
    rw [transformMessage_eq, hbody]
    exact (namesOwnFiles_iff_of_none hbody).symm
  | some v =>
    rw [namesOwnFiles_iff_of_body hbody, ← messageUris_confined_iff h hne hbody]
    refine ⟨And.left, fun hall => ⟨hall, fun uri huri => ?_⟩⟩
    exact hall uri (streamUris_transformMessage hp hbody _ uri huri)

/-- Two texts that are passed on as they stand, without a URI each, and the request that
they make up. -/
example :
    messageUris intText .literal (utf8Encode (js "Content-Length: 39\r\n")) = [] ∧
    messageUris intText .literal (utf8Encode (js "\r\n\x7b\"uri\":\"file:///lsp-files/1/main.dart\"\x7d")) =
      [] ∧
    streamUris intText .literal (utf8Encode (js "Content-Length: 39\r\n") ++
        utf8Encode (js "\r\n\x7b\"uri\":\"file:///lsp-files/1/main.dart\"\x7d")) =
      [js "file:///lsp-files/1/main.dart"] := by
  decide +kernel

end FullstackSvc.Lsp
