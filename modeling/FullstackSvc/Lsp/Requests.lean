import Mathlib.Data.List.Basic
import FullstackSvc.Lsp.ClientChannel
import FullstackSvc.Text.JsonLexing
import FullstackSvc.Text.Utf8Cut

/-!
# The requests in a stream

A container reads the bytes of a client as one stream.  What a text that is passed on as it
stands has left unread is read together with what is written next, so a frame may end up
as a part of another one, or behind a header that is not its own.

* `requests_of_decodeStream`: a stream that is read to its end has its messages as requests.
* `requests_append`: **the requests of a stream**, part by part.
* `requests_behind_header`, `requests_behind_block`: what a frame becomes behind bytes that
  have not been read.
* `strings_of_requests`: **no string comes up that the frame itself does not have**.
-/

namespace FullstackSvc.Lsp

open Text FullstackSvc.Stream

variable {N : Type} {T : NumText N}

/-- The messages that a server cuts from the bytes; a body that is no JSON text is passed
over. -/
def requests (T : NumText N) (bytes : Bytes) : List (Json N) :=
  (responseCutter.drain bytes).emitted.filterMap (decodeFrame T)

/-- **The requests of a stream** are those of its front, and those that the rest makes of
what the front has left. -/
theorem requests_append (T : NumText N) (front rest : Bytes) : requests T (front ++ rest) =
    requests T front ++ requests T ((responseCutter.drain front).buffer ++ rest) := by
  rw [requests, Cutter.drain_append, List.filterMap_append]
  rfl

/-- A stream that is read to its end has these requests and no others. -/
theorem requests_of_decodeStream {bytes : Bytes} {vs : List (Json N)}
    (h : decodeStream T bytes = some vs) : requests T bytes = vs := by
  have key : ∀ (frames : List Bytes) (vs : List (Json N)),
      frames.mapM (decodeFrame T) = some vs → frames.filterMap (decodeFrame T) = vs := by
    intro frames
    induction frames with
    | nil =>
      intro vs h
      exact Option.some.inj h
    | cons f frames ih =>
      intro vs h
      rw [List.mapM_cons] at h
      obtain ⟨v, hv, h⟩ := Option.bind_eq_some_iff.mp h
      obtain ⟨ws, hws, h⟩ := Option.bind_eq_some_iff.mp h
      rw [List.filterMap_cons_some hv, ih ws hws]
      exact Option.some.inj h
  simp only [decodeStream] at h
  split at h
  · cases h
  · exact key _ vs h

/-- Bytes that begin with no frame. -/
theorem requests_of_no_frame {b : Bytes} (h : ∀ raw rest, cutFrame b ≠ .frame raw rest) :
    requests T b = [] := by
  cases hcut : cutFrame b with
  | wait =>
    rw [requests, Cutter.drain_of_wait (C := responseCutter) hcut]
    rfl
  | bad =>
    rw [requests, Cutter.drain_of_bad (C := responseCutter) hcut]
    rfl
  | frame raw rest => exact absurd hcut (h raw rest)

theorem requests_of_frame {b raw rest : Bytes} (h : cutFrame b = .frame raw rest) :
    requests T b = (decodeFrame T raw).toList ++ requests T rest := by
  rw [requests, Cutter.drain_of_frame (C := responseCutter) h, requests]
  cases hd : decodeFrame T raw with
  | none => exact List.filterMap_cons_none hd
  | some v => exact List.filterMap_cons_some hd

/-- A front that has been drained begins with no frame. -/
theorem no_frame_of_drained {p : Bytes} {bad : Bool} (h : responseCutter.drain p = ⟨[], p, bad⟩)
    (raw rest : Bytes) : cutFrame p ≠ .frame raw rest := by
  intro hcut
  rw [Cutter.drain_of_frame (C := responseCutter) hcut] at h
  cases h

/-! ### What is left of a frame -/

/-- Bytes with one carriage return at most have no header block. -/
theorem cutFrame_of_count {b : Bytes} (h : b.count 13 ≤ 1) : cutFrame b = .wait := by
  have hnone : indexOf crlfCrlf b = none := by
    rw [indexOf_eq_none_iff]
    intro hinfix
    have hcount : crlfCrlf.count 13 ≤ b.count 13 := hinfix.sublist.count_le 13
    have htwo : crlfCrlf.count 13 = 2 := by decide
    omega
  rw [cutFrame, hnone]

theorem cutFrame_of_not_mem {b : Bytes} (h : (13 : UInt8) ∉ b) : cutFrame b = .wait := by
  refine cutFrame_of_count ?_
  rw [List.count_eq_zero_of_not_mem h]
  exact Nat.zero_le 1

/-- A line without a `c` is no length line. -/
theorem contentLength_of_no_name {b : Bytes} (hcr : (13 : UInt16) ∉ utf8Decode b)
    (h : ∀ u ∈ utf8Decode b, lower u ≠ 99) : contentLength b = none := by
  have hnone : execContentLength (utf8Decode b) = none := by
    rw [execContentLength]
    refine if_neg ?_
    rintro ⟨hname, -⟩
    have hmem : (99 : UInt16) ∈ ((utf8Decode b).take 15).map lower := by
      rw [hname]
      decide
    obtain ⟨u, hu, hlower⟩ := List.mem_map.mp hmem
    exact h u (List.mem_of_mem_take hu) hlower
  rw [contentLength, splitCrlf_of_not_mem hcr, List.findSome?_cons, hnone]
  rfl

theorem lower_of_isDigit {u : UInt16} (h : isDigit u = true) : lower u ≠ 99 := by
  have hu := of_decide_eq_true h
  rw [lower, if_neg (by omega)]
  rintro rfl
  exact absurd hu (by decide)

/-- Behind its first unit a header line has no `c`. -/
theorem lower_of_mem_drop_headerLine {n j : Nat} (hj : 0 < j) {u : UInt16}
    (hu : u ∈ (headerLine n).drop j) : lower u ≠ 99 := by
  obtain ⟨j, rfl⟩ : ∃ i, j = i + 1 := ⟨j - 1, by omega⟩
  have hline : headerLine n = 67 :: (js "ontent-Length: " ++ decimal n) := rfl
  rw [hline, List.drop_succ_cons] at hu
  rcases List.mem_append.mp (List.mem_of_mem_drop hu) with hname | hdigit
  · exact forall_units (p := fun u => lower u ≠ 99) (by decide) u hname
  · exact lower_of_isDigit (isDigit_decimal hdigit)

theorem ascii_drop_headerLine (n j : Nat) : Ascii ((headerLine n).drop j) :=
  fun u hu => headerLine_ascii n u (List.mem_of_mem_drop hu)

theorem ascii_take_headerLine (n j : Nat) : Ascii ((headerLine n).take j) :=
  fun u hu => headerLine_ascii n u (List.mem_of_mem_take hu)

/-- The bytes of a part of a header line are those of its units. -/
theorem drop_headerLine (n j : Nat) :
    (utf8Encode (headerLine n)).drop j = utf8Encode ((headerLine n).drop j) := by
  rw [utf8Encode_ascii (headerLine_ascii n), utf8Encode_ascii (ascii_drop_headerLine n j),
    List.map_drop]

theorem take_headerLine (n j : Nat) :
    (utf8Encode (headerLine n)).take j = utf8Encode ((headerLine n).take j) := by
  rw [utf8Encode_ascii (headerLine_ascii n), utf8Encode_ascii (ascii_take_headerLine n j),
    List.map_take]

/-- **What is left of a frame is no frame**: without its first unit the header line does not
match, and without a part of its separator there is none. -/
theorem cutFrame_drop {n j : Nat} (hj : 0 < j) {body : Bytes} (hcr : (13 : UInt8) ∉ body)
    (raw rest : Bytes) :
    cutFrame ((utf8Encode (headerLine n) ++ (crlfCrlf ++ body)).drop j) ≠ .frame raw rest := by
  rcases Nat.lt_or_ge (utf8Encode (headerLine n)).length j with hlt | hle
  · obtain ⟨i, rfl⟩ : ∃ i, j = (utf8Encode (headerLine n)).length + (i + 1) :=
      ⟨j - (utf8Encode (headerLine n)).length - 1, by omega⟩
    have hrest : (crlfCrlf ++ body).drop (i + 1) = ([10, 13, 10] ++ body).drop i := rfl
    have hone : ([10, 13, 10] ++ body).count 13 = 1 := by
      rw [List.count_append, List.count_eq_zero_of_not_mem hcr]
      rfl
    have hcount : (([10, 13, 10] ++ body).drop i).count 13 ≤ 1 := by
      rw [← hone]
      exact (List.drop_sublist i _).count_le 13
    rw [List.drop_length_add_append, hrest, cutFrame_of_count hcount]
    intro h
    cases h
  · have hline : (13 : UInt16) ∉ (headerLine n).drop j := fun h =>
      cr_not_mem_headerLine n (List.mem_of_mem_drop h)
    have hbytes : (13 : UInt8) ∉ (utf8Encode (headerLine n)).drop j := fun h =>
      cr_not_mem_header_bytes n (List.mem_of_mem_drop h)
    have hdecode : utf8Decode ((utf8Encode (headerLine n)).drop j) = (headerLine n).drop j := by
      rw [drop_headerLine, utf8Decode_utf8Encode (wellFormed_of_ascii (ascii_drop_headerLine n j))]
    have hnone : contentLength ((utf8Encode (headerLine n)).drop j) = none := by
      apply contentLength_of_no_name
      · rw [hdecode]
        exact hline
      · rw [hdecode]
        intro u hu
        exact lower_of_mem_drop_headerLine hj hu
    rw [List.drop_append_of_le_length hle,
      cutFrame_of_no_length (indexOf_crlfCrlf hbytes body) hnone]
    intro h
    cases h

/-! ### Behind a header -/

/-- Where a text has got to that a part of a header line has been put behind. -/
theorem lex_headerLine_take (st : LexState) {w : JsString}
    (hw : ∀ u ∈ w, u ≠ 34 ∧ u ≠ 92 ∧ ¬ u.toNat < 32) :
    lex st (67 :: w) = .refused ∨ ∃ d, lex st (67 :: w) = .inString d := by
  have hstring : ∀ d, lex (.inString d) w = .inString d := by
    intro d
    induction w with
    | nil => rfl
    | cons u w ih =>
      obtain ⟨hq, hb, hc⟩ := hw u List.mem_cons_self
      rw [lex_cons, lexUnit_plain hq hb hc, ih fun v hv => hw v (List.mem_cons_of_mem _ hv)]
  cases st with
  | outside d =>
    left
    have hunit : lexUnit (.outside d) 67 = .refused := by
      rw [lexUnit, if_neg (by decide), if_neg (by decide), if_neg (by decide), if_neg (by decide)]
    rw [lex_cons, hunit, lex_refused]
  | inString d => exact Or.inr ⟨d, hstring d⟩
  | escaped d => exact Or.inr ⟨d, hstring d⟩
  | refused => exact Or.inl (lex_refused _)

theorem plain_of_mem_headerLine {n : Nat} {u : UInt16} (hu : u ∈ headerLine n) :
    u ≠ 34 ∧ u ≠ 92 ∧ ¬ u.toNat < 32 := by
  rcases List.mem_append.mp hu with hname | hdigit
  · exact forall_units (p := fun u => u ≠ 34 ∧ u ≠ 92 ∧ ¬ u.toNat < 32) (by decide) u hname
  · have hrange := of_decide_eq_true (isDigit_decimal hdigit)
    refine ⟨?_, ?_, by omega⟩
    · rintro rfl
      exact absurd hrange (by decide)
    · rintro rfl
      exact absurd hrange (by decide)

theorem utf8Encode_headerLine (n : Nat) :
    ∃ r, utf8Encode (headerLine n) = 67 :: r := by
  rw [utf8Encode_ascii (headerLine_ascii n)]
  exact ⟨_, rfl⟩

theorem utf8Decode_headerLine_take (n j : Nat) :
    utf8Decode ((utf8Encode (headerLine n)).take j) = (headerLine n).take j := by
  rw [take_headerLine, utf8Decode_utf8Encode (wellFormed_of_ascii (ascii_take_headerLine n j))]

/-- A part of a frame ends no JSON text that is open before it: the header line refuses
what is outside of a string, and its end refuses what is inside. -/
theorem lex_frame_take (st : LexState) {n j : Nat} (hj : 0 < j) (body : Bytes) :
    lex st (utf8Decode ((utf8Encode (headerLine n) ++ (crlfCrlf ++ body)).take j)) ≠
      .outside 0 := by
  obtain ⟨w, hw⟩ : ∃ w, headerLine n = 67 :: w := ⟨_, rfl⟩
  have hplain : ∀ u ∈ w, u ≠ 34 ∧ u ≠ 92 ∧ ¬ u.toNat < 32 := fun u hu =>
    plain_of_mem_headerLine (n := n) (by rw [hw]; exact List.mem_cons_of_mem _ hu)
  rcases Nat.lt_or_ge (utf8Encode (headerLine n)).length j with hlt | hle
  · obtain ⟨i, rfl⟩ : ∃ i, j = (utf8Encode (headerLine n)).length + (i + 1) :=
      ⟨j - (utf8Encode (headerLine n)).length - 1, by omega⟩
    have hrest : (crlfCrlf ++ body).take (i + 1) = 13 :: ([10, 13, 10] ++ body).take i := rfl
    have hcr : ∀ t : Bytes, utf8Decode (13 :: t) = 13 :: utf8Decode t := fun _ => rfl
    rw [List.take_length_add_append, hrest, utf8Decode_ascii_cons (by decide), hcr,
      utf8Decode_utf8Encode (wellFormed_of_ascii (headerLine_ascii n)), lex_append, lex_cons, hw]
    rcases lex_headerLine_take st hplain with hlex | ⟨d, hlex⟩
    · rw [hlex, lexUnit, lex_refused]
      intro h
      cases h
    · have hunit : lexUnit (.inString d) 13 = .refused := rfl
      rw [hlex, hunit, lex_refused]
      intro h
      cases h
  · obtain ⟨i, rfl⟩ : ∃ i, j = i + 1 := ⟨j - 1, by omega⟩
    rw [List.take_append_of_le_length hle, utf8Decode_headerLine_take, hw, List.take_succ_cons]
    rcases lex_headerLine_take st fun u hu => hplain u (List.mem_of_mem_take hu) with hlex | ⟨d, hlex⟩
    · rw [hlex]
      intro h
      cases h
    · rw [hlex]
      intro h
      cases h

/-- **A body that ends in a part of a frame** is no JSON text. -/
theorem readText_frame_take (front : Bytes) {n j : Nat} (hj : 0 < j) (body : Bytes) :
    readText T.read dartDefine
      (utf8Decode (front ++ (utf8Encode (headerLine n) ++ (crlfCrlf ++ body)).take j)) = none := by
  obtain ⟨i, rfl⟩ : ∃ i, j = i + 1 := ⟨j - 1, by omega⟩
  obtain ⟨r, hr⟩ := utf8Encode_headerLine n
  have hdecode : utf8Decode
      (front ++ (utf8Encode (headerLine n) ++ (crlfCrlf ++ body)).take (i + 1)) =
      utf8Decode front ++
        utf8Decode ((utf8Encode (headerLine n) ++ (crlfCrlf ++ body)).take (i + 1)) := by
    rw [hr, List.cons_append, List.take_succ_cons, utf8Decode_ascii_cons (by decide)]
  rw [hdecode]
  cases h : readText T.read dartDefine (utf8Decode front ++
      utf8Decode ((utf8Encode (headerLine n) ++ (crlfCrlf ++ body)).take (i + 1))) with
  | none => rfl
  | some w =>
    have hlex := lex_of_readText h
    rw [lex_append] at hlex
    exact absurd hlex (lex_frame_take _ hj body)

/-- **A frame behind a header** whose body has not all come: what it completes is no JSON
text, and what is left of it is no frame. -/
theorem requests_behind_header {p : Bytes} {m n : Nat} (hi : indexOf crlfCrlf p = some m)
    (hn : contentLength (p.take m) = some n) (hlt : p.length < m + 4 + n) (v : Json N) :
    requests T (p ++ frameOf T v) = [] := by
  have hm : m + 4 ≤ p.length := indexOf_add_length_le hi
  have hi' := indexOf_append hi (frameOf T v)
  have htake : (p ++ frameOf T v).take m = p.take m :=
    List.take_append_of_le_length (by omega)
  have hraw : (p ++ frameOf T v).take (m + 4 + n) = p ++ (frameOf T v).take (m + 4 + n - p.length) := by
    rw [List.take_append, List.take_of_length_le (by omega)]
  have hrest : (p ++ frameOf T v).drop (m + 4 + n) = (frameOf T v).drop (m + 4 + n - p.length) := by
    rw [List.drop_append, List.drop_eq_nil_of_le (by omega), List.nil_append]
  have hcut : cutFrame (p ++ frameOf T v) =
      if (p ++ frameOf T v).length < m + 4 + n then .wait
      else .frame (p ++ (frameOf T v).take (m + 4 + n - p.length))
        ((frameOf T v).drop (m + 4 + n - p.length)) := by
    rw [cutFrame, hi']
    simp only [htake, hn, hraw, hrest]
  split at hcut
  · refine requests_of_no_frame fun raw rest h => ?_
    rw [hcut] at h
    cases h
  · have hdecode : decodeFrame T (p ++ (frameOf T v).take (m + 4 + n - p.length)) = none := by
      rw [decodeFrame, indexOf_append hi]
      simp only [List.drop_append_of_le_length hm]
      exact readText_frame_take _ (by omega) _
    rw [requests_of_frame hcut, hdecode]
    exact requests_of_no_frame (cutFrame_drop (by omega) (cr_not_mem_body_bytes v))

/-! ### Behind a part of a header block -/

/-- **A front of a body** has no string that the body has not. -/
theorem strValues_of_body_take {v w : Json N} (hv : Canonical dartDefine v) {n : Nat}
    (h : readText T.read dartDefine (utf8Decode ((utf8Encode (stringify T.js v)).take n)) = some w) :
    ∀ s ∈ strValues w, s ∈ strValues v := by
  rcases Nat.lt_or_ge n (utf8Encode (stringify T.js v)).length with hlt | hge
  · obtain ⟨u, z, hdecode, hu, hproper, hz⟩ :=
      utf8Decode_take (wellFormed_stringify T.js_num v) hlt
    rw [hdecode] at h
    rw [strValues_of_cut T.js_num hu hproper hz h]
    intro s hs
    cases hs
  · rw [List.take_of_length_le hge, utf8Decode_utf8Encode (wellFormed_stringify T.js_num v),
      readText_stringify T.read_js T.js_ne_nil T.js_num hv] at h
    obtain rfl := Option.some.inj h
    exact fun s hs => hs

/-- The first separator behind a part of a header block. -/
theorem indexOf_behind_block {p : Bytes} (hi : indexOf crlfCrlf p = none) (n : Nat) (t : Bytes) :
    indexOf crlfCrlf (p ++ utf8Encode (headerLine n) ++ (crlfCrlf ++ t)) =
      some (p ++ utf8Encode (headerLine n)).length := by
  have hline := indexOf_crlfCrlf (cr_not_mem_header_bytes n) t
  obtain ⟨r, hr⟩ := utf8Encode_headerLine n
  rw [hr, List.cons_append] at hline
  rw [List.append_assoc, hr, List.cons_append, indexOf_past hi (by decide), hline, Option.map_some,
    List.length_append, Nat.add_comm]

/-- **A frame behind a part of a header block** becomes one message at most, with its own body
or the front of it. -/
theorem requests_behind_block {p : Bytes} (hi : indexOf crlfCrlf p = none) {v : Json N}
    (hv : Canonical dartDefine v) :
    ∀ w ∈ requests T (p ++ frameOf T v), ∀ s ∈ strValues w, s ∈ strValues v := by
  have hindex := indexOf_behind_block hi (stringify T.js v).length
  have hframe : p ++ frameOf T v = p ++ utf8Encode (headerLine (stringify T.js v).length) ++
      (crlfCrlf ++ utf8Encode (stringify T.js v)) := by
    rw [frameOf, List.append_assoc]
  have hnothing : (∀ raw rest, cutFrame (p ++ frameOf T v) ≠ .frame raw rest) →
      ∀ w ∈ requests T (p ++ frameOf T v), ∀ s ∈ strValues w, s ∈ strValues v := by
    intro hcut w hw
    rw [requests_of_no_frame hcut] at hw
    cases hw
  have hi' := hindex (utf8Encode (stringify T.js v))
  cases hlen : contentLength (p ++ utf8Encode (headerLine (stringify T.js v).length)) with
  | none =>
    refine hnothing fun raw rest hcut => ?_
    rw [hframe, cutFrame_of_no_length hi' hlen] at hcut
    cases hcut
  | some n =>
    rcases Nat.lt_or_ge (utf8Encode (stringify T.js v)).length n with hlt | hge
    · refine hnothing fun raw rest hcut => ?_
      rw [hframe, cutFrame_of_short hi' hlen hlt] at hcut
      cases hcut
    · have hcut := cutFrame_of_indexOf hi' hlen hge
      rw [← hframe] at hcut
      have hrest : requests T ((utf8Encode (stringify T.js v)).drop n) = [] := by
        refine requests_of_no_frame fun raw rest h => ?_
        rw [cutFrame_of_not_mem fun h13 => cr_not_mem_body_bytes v (List.mem_of_mem_drop h13)] at h
        cases h
      intro w hw
      rw [requests_of_frame hcut, hrest, List.append_nil, Option.mem_toList] at hw
      rw [decodeFrame, hindex] at hw
      have hdrop : (p ++ utf8Encode (headerLine (stringify T.js v).length) ++
          (crlfCrlf ++ (utf8Encode (stringify T.js v)).take n)).drop
          ((p ++ utf8Encode (headerLine (stringify T.js v).length)).length + 4) =
          (utf8Encode (stringify T.js v)).take n := by
        rw [← List.append_assoc]
        exact List.drop_left' (by rw [List.length_append]; rfl)
      simp only [hdrop] at hw
      exact strValues_of_body_take hv hw

/-! ### Behind whatever has been left -/

/-- Bytes that wait have no separator, or a body that has not all come. -/
theorem waits_for {p : Bytes} (h : cutFrame p = .wait) : indexOf crlfCrlf p = none ∨
    ∃ m n, indexOf crlfCrlf p = some m ∧ contentLength (p.take m) = some n ∧
      p.length < m + 4 + n := by
  cases hi : indexOf crlfCrlf p with
  | none => exact Or.inl rfl
  | some m =>
    rw [cutFrame, hi] at h
    cases hn : contentLength (p.take m) with
    | none =>
      simp only [hn] at h
      cases h
    | some n =>
      simp only [hn] at h
      split at h
      · rename_i hlt
        exact Or.inr ⟨m, n, rfl, hn, hlt⟩
      · cases h

/-- **No string comes up that the frame does not have**, whatever has been left unread
before it. -/
theorem strings_of_requests {p : Bytes} {bad : Bool} (hp : responseCutter.drain p = ⟨[], p, bad⟩)
    {v : Json N} (hv : Canonical dartDefine v) :
    ∀ w ∈ requests T (p ++ frameOf T v), ∀ s ∈ strValues w, s ∈ strValues v := by
  cases hcut : cutFrame p with
  | bad =>
    intro w hw
    rw [requests_of_no_frame (b := p ++ frameOf T v) fun raw rest h => ?_] at hw
    · cases hw
    · rw [cutFrame_bad_mono _ hcut] at h
      cases h
  | frame raw rest => exact absurd hcut (no_frame_of_drained hp raw rest)
  | wait =>
    rcases waits_for hcut with hnone | ⟨m, n, hi, hn, hlt⟩
    · exact requests_behind_block hnone hv
    · intro w hw
      rw [requests_behind_header hi hn hlt v] at hw
      cases hw

end FullstackSvc.Lsp
