import Mathlib.Data.List.Basic
import Mathlib.Data.List.Induction

/-!
# Cutting a stream into frames, chunk by chunk

A `Cutter` looks at the bytes received so far and cuts a frame off their front,
waits for more, or finds them bad.  Its three laws are what makes a decoder
incremental: a frame is a nonempty front of the bytes, and later bytes change
neither a frame that is complete nor a front that is bad.

`drain` cuts until it has to wait or the bytes are bad; `feed` drains what a
chunk completes, and `feedAll` does so for one chunk after another, going on
after a bad front.

`Loop` is the loop as a derivation, turn by turn, and `Feeds` the calls for one
chunk after another; `loop_iff` and `feeds_iff` say that every loop ends, and
with what.

* `drain_append`: draining more bytes is draining the first ones and then what
  they left with the rest.
* `feedAll_eq_drain`: **the chunks do not matter**, only the bytes.
* `feeds_conserves`: **nothing is lost**, whatever the bytes are.
* `drain_frames`: a stream of frames that are each cut as they stand is cut
  into exactly these frames.
-/

namespace FullstackSvc.Stream

/-- What the bytes received so far are. -/
inductive Cut (β : Type) where
  | wait
  | bad
  | frame (raw rest : List β)
  deriving DecidableEq

structure Cutter (β : Type) where
  cut : List β → Cut β
  cut_append : ∀ {b raw rest}, cut b = .frame raw rest → b = raw ++ rest
  cut_ne_nil : ∀ {b raw rest}, cut b = .frame raw rest → raw ≠ []
  frame_mono : ∀ {b raw rest} c, cut b = .frame raw rest → cut (b ++ c) = .frame raw (rest ++ c)
  bad_mono : ∀ {b} c, cut b = .bad → cut (b ++ c) = .bad

/-- What came of some bytes: the frames cut, what is left, and whether that is
bad. -/
structure Fed (β : Type) where
  emitted : List (List β)
  buffer : List β
  bad : Bool
  deriving DecidableEq

namespace Cutter

variable {β : Type} (C : Cutter β)

def drainN : Nat → List β → Fed β
  | 0, b => ⟨[], b, false⟩
  | n + 1, b =>
    match C.cut b with
    | .wait => ⟨[], b, false⟩
    | .bad => ⟨[], b, true⟩
    | .frame raw rest =>
      ⟨raw :: (drainN n rest).emitted, (drainN n rest).buffer, (drainN n rest).bad⟩

/-- Cut until there is nothing to cut.  Every frame takes a byte, so the length
of the buffer bounds the turns of the loop. -/
def drain (b : List β) : Fed β := C.drainN (b.length + 1) b

/-- A chunk arrives at a buffer. -/
def feed (buffer chunk : List β) : Fed β := C.drain (buffer ++ chunk)

/-- Chunks arrive one after the other. -/
def feedAll : List β → List (List β) → Fed β
  | buffer, [] => ⟨[], buffer, false⟩
  | buffer, chunk :: chunks =>
    let r := C.feed buffer chunk
    let t := feedAll r.buffer chunks
    ⟨r.emitted ++ t.emitted, t.buffer, r.bad || t.bad⟩

variable {C}

theorem length_lt_of_frame {b raw rest : List β} (h : C.cut b = .frame raw rest) :
    rest.length < b.length := by
  have he := congrArg List.length (C.cut_append h)
  rw [List.length_append] at he
  have := List.length_pos_iff.mpr (C.cut_ne_nil h)
  omega

theorem drainN_eq_drain : ∀ {n : Nat} {b : List β}, b.length < n → C.drainN n b = C.drain b := by
  have key : ∀ (n m : Nat) (b : List β), b.length < n → b.length < m →
      C.drainN n b = C.drainN m b := by
    intro n
    induction n with
    | zero => intro m b hn _; omega
    | succ n ih =>
      intro m b hn hm
      obtain ⟨m, rfl⟩ : ∃ k, m = k + 1 := ⟨m - 1, by omega⟩
      simp only [drainN]
      cases h : C.cut b with
      | wait => rfl
      | bad => rfl
      | frame raw rest =>
        have hlt := length_lt_of_frame h
        simp only [ih m rest (by omega) (by omega)]
  exact fun {n b} hn => key n _ b hn (Nat.lt_succ_self _)

theorem drain_of_wait {b : List β} (h : C.cut b = .wait) : C.drain b = ⟨[], b, false⟩ := by
  rw [drain, drainN, h]

theorem drain_of_bad {b : List β} (h : C.cut b = .bad) : C.drain b = ⟨[], b, true⟩ := by
  rw [drain, drainN, h]

theorem drain_of_frame {b raw rest : List β} (h : C.cut b = .frame raw rest) :
    C.drain b = ⟨raw :: (C.drain rest).emitted, (C.drain rest).buffer, (C.drain rest).bad⟩ := by
  rw [drain, drainN, h]
  simp only [drainN_eq_drain (length_lt_of_frame h)]

/-- **Draining more bytes** is draining the first ones, and then what they left
together with the rest. -/
theorem drain_append (b c : List β) :
    C.drain (b ++ c) = ⟨(C.drain b).emitted ++ (C.drain ((C.drain b).buffer ++ c)).emitted,
      (C.drain ((C.drain b).buffer ++ c)).buffer, (C.drain ((C.drain b).buffer ++ c)).bad⟩ := by
  induction hn : b.length using Nat.strongRecOn generalizing b with
  | ind n ih =>
    cases h : C.cut b with
    | wait => rw [drain_of_wait h]; rfl
    | bad => rw [drain_of_bad h]; rfl
    | frame raw rest =>
      have hlt := length_lt_of_frame h
      rw [drain_of_frame (C.frame_mono c h), drain_of_frame h, ih _ (hn ▸ hlt) rest rfl]
      rfl

/-- What is left has no complete frame in front. -/
theorem drain_buffer (b : List β) :
    C.drain (C.drain b).buffer = ⟨[], (C.drain b).buffer, (C.drain b).bad⟩ := by
  induction hn : b.length using Nat.strongRecOn generalizing b with
  | ind n ih =>
    cases h : C.cut b with
    | wait => rw [drain_of_wait h]; exact drain_of_wait h
    | bad => rw [drain_of_bad h]; exact drain_of_bad h
    | frame raw rest =>
      rw [drain_of_frame h]
      exact ih _ (hn ▸ length_lt_of_frame h) rest rfl

/-- A bad front stays one. -/
theorem drain_bad_append {b : List β} (h : C.drain b = ⟨[], b, true⟩) (c : List β) :
    (C.drain (b ++ c)).bad = true := by
  cases hc : C.cut b with
  | wait =>
    rw [drain_of_wait hc] at h
    cases h
  | bad => rw [drain_of_bad (C.bad_mono c hc)]
  | frame raw rest =>
    rw [drain_of_frame hc] at h
    cases h

/-- **The chunks do not matter.**  From a buffer without a complete frame, any
chunks give the frames and the rest that their bytes give at once, and some
chunk finds the front bad when the bytes do. -/
theorem feedAll_eq_drain {buffer : List β} {bad : Bool} (hb : C.drain buffer = ⟨[], buffer, bad⟩)
    (chunks : List (List β)) :
    (C.feedAll buffer chunks).emitted = (C.drain (buffer ++ chunks.flatten)).emitted ∧
      (C.feedAll buffer chunks).buffer = (C.drain (buffer ++ chunks.flatten)).buffer ∧
      (bad || (C.feedAll buffer chunks).bad) = (C.drain (buffer ++ chunks.flatten)).bad := by
  induction chunks generalizing buffer bad with
  | nil =>
    rw [List.flatten_nil, List.append_nil, hb]
    exact ⟨rfl, rfl, Bool.or_false bad⟩
  | cons chunk chunks ih =>
    obtain ⟨hemit, hbuffer, hbad⟩ := ih (drain_buffer (buffer ++ chunk))
    have hmono : bad = true → (C.drain (buffer ++ chunk)).bad = true := by
      rintro rfl
      exact drain_bad_append hb chunk
    rw [List.flatten_cons, ← List.append_assoc, drain_append (buffer ++ chunk)]
    refine ⟨congrArg ((C.drain (buffer ++ chunk)).emitted ++ ·) hemit, hbuffer, ?_⟩
    rw [← hbad]
    show (bad || ((C.drain (buffer ++ chunk)).bad || _)) = _
    cases bad with
    | false => rfl
    | true => rw [hmono rfl]; rfl

/-- Frames that are cut as they stand, whatever follows, are what their stream
is cut into. -/
theorem drain_frames {frames : List (List β)}
    (h : ∀ f ∈ frames, C.cut f = .frame f []) (t : List β) :
    C.drain (frames.flatten ++ t) =
      ⟨frames ++ (C.drain t).emitted, (C.drain t).buffer, (C.drain t).bad⟩ := by
  induction frames with
  | nil => rfl
  | cons f fs ih =>
    have hf := C.frame_mono (fs.flatten ++ t) (h f (by simp))
    rw [List.nil_append] at hf
    rw [List.flatten_cons, List.append_assoc, drain_of_frame hf,
      ih fun g hg => h g (by simp [hg])]
    rfl

/-- **A stream of frames, chunk by chunk**, comes out as these frames and
leaves nothing. -/
theorem feedAll_frames (hnil : C.cut [] = .wait) {frames chunks : List (List β)}
    (hcut : ∀ f ∈ frames, C.cut f = .frame f []) (h : chunks.flatten = frames.flatten) :
    C.feedAll [] chunks = ⟨frames, [], false⟩ := by
  have hd := drain_frames hcut []
  rw [drain_of_wait hnil, List.append_nil, List.append_nil, ← h] at hd
  obtain ⟨hemit, hbuffer, hbad⟩ := feedAll_eq_drain (drain_of_wait hnil) chunks
  rw [List.nil_append, hd] at hemit hbuffer hbad
  rw [Bool.false_or] at hbad
  show Fed.mk _ _ _ = _
  rw [hemit, hbuffer, hbad]

/-! ### The loop as it runs -/

variable (C) in
/-- The turns of the loop on a buffer: it stops when there is nothing to cut, it
stops at a bad front, and it goes on with what a frame leaves. -/
inductive Loop : List β → Fed β → Prop
  | wait {b : List β} (h : C.cut b = .wait) : Loop b ⟨[], b, false⟩
  | bad {b : List β} (h : C.cut b = .bad) : Loop b ⟨[], b, true⟩
  | turn {b raw rest : List β} {r : Fed β} (h : C.cut b = .frame raw rest) (next : Loop rest r) :
      Loop b ⟨raw :: r.emitted, r.buffer, r.bad⟩

/-- The loop ends: every turn shortens the buffer. -/
theorem loop_drain (b : List β) : C.Loop b (C.drain b) := by
  induction hn : b.length using Nat.strongRecOn generalizing b with
  | ind n ih =>
    cases h : C.cut b with
    | wait =>
      rw [drain_of_wait h]
      exact .wait h
    | bad =>
      rw [drain_of_bad h]
      exact .bad h
    | frame raw rest =>
      rw [drain_of_frame h]
      exact .turn h (ih _ (hn ▸ length_lt_of_frame h) rest rfl)

/-- **Every loop ends**, and with what `drain` computes. -/
theorem loop_iff {b : List β} {r : Fed β} : C.Loop b r ↔ r = C.drain b := by
  constructor
  · intro h
    induction h with
    | wait h => exact (drain_of_wait h).symm
    | bad h => exact (drain_of_bad h).symm
    | turn h _ ih => rw [drain_of_frame h, ih]
  · rintro rfl
    exact loop_drain b

variable (C) in
/-- One chunk after another is put behind the buffer and the loop runs. -/
inductive Feeds : List (List β) → Fed β → Prop
  | start : Feeds [] ⟨[], [], false⟩
  | chunk {chunks : List (List β)} {chunk : List β} {before r : Fed β} (h : Feeds chunks before)
      (loop : C.Loop (before.buffer ++ chunk) r) :
      Feeds (chunks ++ [chunk]) ⟨before.emitted ++ r.emitted, r.buffer, before.bad || r.bad⟩

theorem feedAll_concat (buffer : List β) (chunks : List (List β)) (chunk : List β) :
    C.feedAll buffer (chunks ++ [chunk]) =
      ⟨(C.feedAll buffer chunks).emitted ++ (C.feed (C.feedAll buffer chunks).buffer chunk).emitted,
        (C.feed (C.feedAll buffer chunks).buffer chunk).buffer,
        (C.feedAll buffer chunks).bad || (C.feed (C.feedAll buffer chunks).buffer chunk).bad⟩ := by
  induction chunks generalizing buffer with
  | nil => simp only [List.nil_append, feedAll, List.append_nil, Bool.or_false, Bool.false_or]
  | cons c chunks ih => simp only [List.cons_append, feedAll, ih, List.append_assoc, Bool.or_assoc]

theorem feeds_feedAll (chunks : List (List β)) : C.Feeds chunks (C.feedAll [] chunks) := by
  induction chunks using List.reverseRecOn with
  | nil => exact .start
  | append_singleton chunks chunk ih =>
    rw [feedAll_concat]
    exact .chunk ih (loop_drain _)

theorem feeds_iff {chunks : List (List β)} {r : Fed β} :
    C.Feeds chunks r ↔ r = C.feedAll [] chunks := by
  constructor
  · intro h
    induction h with
    | start => rfl
    | chunk _ loop ih => rw [feedAll_concat, loop_iff.mp loop, ih, feed]
  · rintro rfl
    exact feeds_feedAll chunks

/-- A loop loses nothing. -/
theorem loop_conserves {b : List β} {r : Fed β} (h : C.Loop b r) :
    r.emitted.flatten ++ r.buffer = b := by
  induction h with
  | wait => rfl
  | bad => rfl
  | turn h _ ih =>
    rw [List.flatten_cons, List.append_assoc, ih]
    exact (C.cut_append h).symm

/-- **Nothing is lost**: the frames and the rest are the bytes, also after a bad
front. -/
theorem feeds_conserves {chunks : List (List β)} {r : Fed β} (h : C.Feeds chunks r) :
    r.emitted.flatten ++ r.buffer = chunks.flatten := by
  induction h with
  | start => rfl
  | chunk _ loop ih =>
    rw [List.flatten_append, List.append_assoc, loop_conserves loop, ← List.append_assoc, ih,
      List.flatten_append, List.flatten_singleton]

/-- **Only the bytes matter**, when no byte is nothing to cut. -/
theorem feeds_congr (hnil : C.cut [] = .wait) {chunks split : List (List β)} {r r' : Fed β}
    (h : C.Feeds chunks r) (h' : C.Feeds split r') (heq : split.flatten = chunks.flatten) :
    r' = r := by
  obtain ⟨hemit, hbuffer, hbad⟩ := feedAll_eq_drain (drain_of_wait hnil) chunks
  obtain ⟨hemit', hbuffer', hbad'⟩ := feedAll_eq_drain (drain_of_wait hnil) split
  rw [Bool.false_or] at hbad hbad'
  rw [feeds_iff.mp h, feeds_iff.mp h']
  show Fed.mk _ _ _ = Fed.mk _ _ _
  rw [hemit, hemit', hbuffer, hbuffer', hbad, hbad', heq]

end Cutter

end FullstackSvc.Stream
