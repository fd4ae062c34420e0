import Mathlib.Data.List.Basic
import FullstackSvc.Lsp.ContainerChannel

/-!
# Whatever bytes a container sends

A container is not bound to send frames: its connection may deliver any bytes,
in any chunks.  `OnData` is a call of `onData` with a buffer in the field, and
`Received` what the calls for the chunks of a connection have come to: the
frames emitted, the bytes that wait, and whether a call has thrown.

* `onData_conserves`: **nothing is lost and the chunks do not matter**, on any
  bytes, also after a call that threw.
* `listener_returns_iff`: the listener of `'data'` never throws **exactly when**
  every header block that the stream puts in front announces a length
  (`WellFramed`).

Lengths are natural numbers, and a buffer or a string of any length can be made.
-/

namespace FullstackSvc.Lsp

open Text FullstackSvc.Stream

variable {N : Type}

/-- `onData(chunk)` with `buffer` in the field. -/
def OnData (buffer chunk : Bytes) (r : Fed UInt8) : Prop :=
  responseCutter.Loop (buffer ++ chunk) r

/-- The calls of `onData` for the chunks of a connection.  The buffer is a field, so what a call
that throws has cut before is gone from it. -/
inductive Received : List Bytes → Fed UInt8 → Prop
  | start : Received [] ⟨[], [], false⟩
  | data {chunks : List Bytes} {chunk : Bytes} {before r : Fed UInt8} (h : Received chunks before)
      (call : OnData before.buffer chunk r) :
      Received (chunks ++ [chunk]) ⟨before.emitted ++ r.emitted, r.buffer, before.bad || r.bad⟩

theorem received_iff_feeds {chunks : List Bytes} {r : Fed UInt8} :
    Received chunks r ↔ responseCutter.Feeds chunks r := by
  constructor
  · intro h
    induction h with
    | start => exact .start
    | data _ call ih => exact .chunk ih call
  · intro h
    induction h with
    | start => exact .start
    | chunk _ loop ih => exact .data ih loop

/-- **The response buffer loses nothing and does not depend on chunking.**  For
any chunks every call ends; the frames and the buffer together are the bytes
received; and any other split of the same bytes gives the same frames and the
same buffer. -/
theorem onData_conserves (chunks : List Bytes) :
    ∃ r, Received chunks r ∧ r.emitted.flatten ++ r.buffer = chunks.flatten ∧
      ∀ split r', split.flatten = chunks.flatten → Received split r' →
        r'.emitted = r.emitted ∧ r'.buffer = r.buffer := by
  have hr : responseCutter.Feeds chunks (responseCutter.feedAll [] chunks) :=
    Cutter.feeds_feedAll chunks
  refine ⟨_, received_iff_feeds.mpr hr, Cutter.feeds_conserves hr, fun split r' heq h' => ?_⟩
  rw [Cutter.feeds_congr rfl hr (received_iff_feeds.mp h') heq]
  exact ⟨rfl, rfl⟩

/-! ### Streams that keep the listener from throwing -/

/-- A header block: the first separator is the one that ends it. -/
def IsBlock (header : Bytes) : Prop := indexOf crlfCrlf (header ++ crlfCrlf) = some header.length

/-- A rest that waits for more: a block that has not ended, or one that has
announced more bytes than have come. -/
inductive Unfinished : Bytes → Prop
  | block {b : Bytes} (h : ¬ crlfCrlf <:+: b) : Unfinished b
  | body {header body : Bytes} {n : Nat} (hh : IsBlock header) (hn : contentLength header = some n)
      (hb : body.length < n) : Unfinished (header ++ (crlfCrlf ++ body))

/-- Frames, each of them a block that announces the length of its body, and an
unfinished rest. -/
inductive WellFramed : Bytes → Prop
  | rest {b : Bytes} (h : Unfinished b) : WellFramed b
  | frame {header body rest : Bytes} (hh : IsBlock header)
      (hn : contentLength header = some body.length) (h : WellFramed rest) :
      WellFramed (header ++ (crlfCrlf ++ (body ++ rest)))

theorem IsBlock.indexOf {header : Bytes} (h : IsBlock header) (t : Bytes) :
    Text.indexOf crlfCrlf (header ++ (crlfCrlf ++ t)) = some header.length := by
  rw [← List.append_assoc]
  exact indexOf_append h t

/-- Bytes with a separator begin with a block. -/
theorem block_of_indexOf {b : Bytes} {n : Nat} (h : indexOf crlfCrlf b = some n) :
    ∃ header t, IsBlock header ∧ header.length = n ∧ b = header ++ (crlfCrlf ++ t) := by
  obtain ⟨hb, hblock⟩ := indexOf_take h
  refine ⟨b.take n, b.drop (n + 4), hblock, ?_, hb⟩
  rw [List.length_take, Nat.min_eq_left (indexOf_eq_some h).2]

/-- What a turn of the loop does with a block in front. -/
theorem cutFrame_block {header : Bytes} (hh : IsBlock header) (t : Bytes) :
    cutFrame (header ++ (crlfCrlf ++ t)) =
      match contentLength header with
      | none => .bad
      | some n =>
        if t.length < n then .wait
        else .frame (header ++ (crlfCrlf ++ t.take n)) (t.drop n) := by
  cases hn : contentLength header with
  | none =>
    rw [cutFrame, hh.indexOf]
    simp only [List.take_left, hn]
  | some n =>
    by_cases ht : t.length < n
    · have hlen : (header ++ (crlfCrlf ++ t)).length = header.length + 4 + t.length := by
        simp only [List.length_append, crlfCrlf, List.length_cons, List.length_nil]
        omega
      rw [cutFrame, hh.indexOf]
      simp only [List.take_left, hn]
      rw [if_pos (by omega), if_pos ht]
    · simp only [if_neg ht]
      exact cutFrame_of_indexOf (hh.indexOf t) hn (by omega)

/-- The loop waits at an unfinished rest. -/
theorem cutFrame_unfinished {b : Bytes} (h : Unfinished b) : cutFrame b = .wait := by
  cases h with
  | block h => rw [cutFrame, indexOf_eq_none_iff.mpr h]
  | body hh hn hb =>
    rw [cutFrame_block hh]
    simp only [hn, if_pos hb]

/-- **Well-framed bytes do not make the loop throw.** -/
theorem drain_of_wellFramed {b : Bytes} (h : WellFramed b) :
    (responseCutter.drain b).bad = false := by
  induction h with
  | rest h => rw [Cutter.drain_of_wait (C := responseCutter) (cutFrame_unfinished h)]
  | @frame header body rest hh hn h ih =>
    have hcut : responseCutter.cut (header ++ (crlfCrlf ++ (body ++ rest))) =
        .frame (header ++ (crlfCrlf ++ body)) rest := by
      show cutFrame _ = _
      rw [cutFrame_block hh]
      simp only [hn, List.length_append, List.take_left, List.drop_left]
      exact if_neg (by omega)
    rw [Cutter.drain_of_frame hcut]
    exact ih

/-- Bytes that do not make the loop throw are well-framed. -/
theorem wellFramed_of_loop {b : Bytes} {r : Fed UInt8} (h : responseCutter.Loop b r)
    (hbad : r.bad = false) : WellFramed b := by
  induction h with
  | @wait b h =>
    refine .rest ?_
    cases hi : indexOf crlfCrlf b with
    | none => exact .block (indexOf_eq_none_iff.mp hi)
    | some n =>
      obtain ⟨header, t, hh, -, rfl⟩ := block_of_indexOf hi
      have hcut := (cutFrame_block hh t).symm.trans h
      cases hn : contentLength header with
      | none => simp [hn] at hcut
      | some n =>
        by_cases ht : t.length < n
        · exact .body hh hn ht
        · simp [hn, ht] at hcut
  | bad h => cases hbad
  | @turn b raw rest r h next ih =>
    cases hi : indexOf crlfCrlf b with
    | none =>
      have hw := cutFrame_unfinished (.block (indexOf_eq_none_iff.mp hi))
      exact absurd (h.symm.trans hw) (by simp)
    | some n =>
      obtain ⟨header, t, hh, -, rfl⟩ := block_of_indexOf hi
      have hcut := (cutFrame_block hh t).symm.trans h
      cases hn : contentLength header with
      | none => simp [hn] at hcut
      | some n =>
        by_cases ht : t.length < n
        · simp [hn, ht] at hcut
        · simp only [hn, if_neg ht, Cut.frame.injEq] at hcut
          obtain ⟨-, rfl⟩ := hcut
          have hlen : (t.take n).length = n := by
            rw [List.length_take]
            omega
          have hbody : contentLength header = some (t.take n).length := by rw [hlen, hn]
          have hw := WellFramed.frame hh hbody (ih hbad)
          rwa [List.take_append_drop] at hw

/-! ### The listeners of the gateway -/

/-- The calls of the listener of `'data'`: each calls `onData`, and for every frame cut the
listener of `'message'` emits a text to the client, by the session that is registered during the
call.  The last component has these texts. -/
inductive Listened (T : NumText N) : List Bytes → Fed UInt8 → List JsString → Prop
  | start : Listened T [] ⟨[], [], false⟩ []
  | data {chunks : List Bytes} {chunk : Bytes} {before r : Fed UInt8} {texts : List JsString}
      (h : Listened T chunks before texts) (call : OnData before.buffer chunk r)
      (currentSession : Option JsString) :
      Listened T (chunks ++ [chunk]) ⟨before.emitted ++ r.emitted, r.buffer, before.bad || r.bad⟩
        (texts ++ r.emitted.map (lspMessage T currentSession))

theorem Listened.received {T : NumText N} {chunks : List Bytes} {r : Fed UInt8}
    {texts : List JsString} (h : Listened T chunks r texts) : Received chunks r := by
  induction h with
  | start => exact .start
  | data _ call _ ih => exact .data ih call

theorem listened_of_received (T : NumText N) {chunks : List Bytes} {r : Fed UInt8}
    (h : Received chunks r) : ∃ texts, Listened T chunks r texts := by
  induction h with
  | start => exact ⟨[], .start⟩
  | data _ call ih =>
    obtain ⟨texts, ht⟩ := ih
    exact ⟨_, .data ht call none⟩

/-- Calls that have not thrown have met well-framed bytes, and the other way
round. -/
theorem received_bad_iff {chunks : List Bytes} {r : Fed UInt8} (h : Received chunks r) :
    r.bad = false ↔ WellFramed chunks.flatten := by
  have hnil : responseCutter.drain [] = ⟨[], [], false⟩ := Cutter.drain_of_wait rfl
  obtain ⟨-, -, hbad⟩ := Cutter.feedAll_eq_drain hnil chunks
  rw [Bool.false_or, List.nil_append, ← Cutter.feeds_iff.mp (received_iff_feeds.mp h)] at hbad
  rw [hbad]
  exact ⟨fun hd => wellFramed_of_loop (Cutter.loop_drain _) hd, drain_of_wellFramed⟩

/-- **When the listener does not throw.**  For any chunks the calls of the
listener of `'data'` end, and none of them throws if and only if the bytes
received are well-framed.  The listener of `'message'` never throws: what
`transformResponseMessage` throws it catches. -/
theorem listener_returns_iff (T : NumText N) (chunks : List Bytes) :
    (∃ r texts, Listened T chunks r texts) ∧
      ∀ r texts, Listened T chunks r texts → (r.bad = false ↔ WellFramed chunks.flatten) := by
  refine ⟨?_, fun r texts h => received_bad_iff h.received⟩
  have hr := received_iff_feeds.mpr (Cutter.feeds_feedAll (C := responseCutter) chunks)
  exact ⟨_, listened_of_received T hr⟩

/-- A header block without a length is enough. -/
theorem listener_throws_without_length :
    ∃ r texts, Listened intText [utf8Encode (js "X\r\n\r\n")] r texts ∧ r.bad = true := by
  have hbad : responseCutter.cut ([] ++ utf8Encode (js "X\r\n\r\n")) = .bad := by decide +kernel
  exact ⟨_, _, .data .start (.bad hbad) none, rfl⟩

end FullstackSvc.Lsp
