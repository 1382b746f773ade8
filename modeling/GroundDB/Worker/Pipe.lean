import GroundDB.Worker.Messages
import GroundDB.Lib.Memory
import GroundDB.Lib.Pipe

/-!
# The loops at the two ends of a worker's pipes

The storage server writes a request in a loop that adds the raw result of `write` to its position.
As long as no call fails it sends the buffer once and in order, however the calls cut it up; a call
that fails moves the position back by one, and every such step makes the stream one byte longer
(`sendLoop_made`).  So the stream is right exactly when no call fails (`sendLoop_exact_iff`).

The worker reads through a buffer of its own (`bufferedRead`).  What it has not consumed is the rest
of that buffer and what is in the pipe, and a read takes the next bytes of the two together
(`bufferedRead_spec`).  The server reads a reply without a buffer and never asks for more than is
missing (`receive_spec`).
-/

namespace GroundDB

open Pipe Wire Memory

/-! ## The send loops of the storage server -/

/-- The memory that `&requestBuffer[sendLen]` points into: the buffer, and `outside` it. -/
def memory (outside : ℤ → UInt8) (requestBuffer : List UInt8) (i : ℤ) : UInt8 :=
  if 0 ≤ i then requestBuffer.getD i.toNat (outside i) else outside i

/-- A send loop: what it puts into the pipe and the calls it does not make, if it ends within the
calls.  The result of a call that fails is `-1` and is added to `sendLen` like any other. -/
def sendLoop (mem : ℤ → UInt8) (targetMsgLen sendLen : ℤ) :
    List WriteCall → Option (List UInt8 × List WriteCall)
  | [] => if targetMsgLen ≤ sendLen then some ([], []) else none
  | call :: calls =>
      if targetMsgLen ≤ sendLen then some ([], call :: calls)
      else match call with
        | .failed => sendLoop mem targetMsgLen (sendLen - 1) calls
        | .upTo k =>
            let writeLen := min (k + 1) (targetMsgLen - sendLen).toNat
            (sendLoop mem targetMsgLen (sendLen + writeLen) calls).map fun r =>
              (slice mem sendLen writeLen ++ r.1, r.2)

lemma slice_memory (outside : ℤ → UInt8) (requestBuffer : List UInt8) :
    slice (memory outside requestBuffer) 0 requestBuffer.length = requestBuffer := by
  apply List.ext_getElem
  · simp
  · intro i h₁ h₂
    simp [slice, memory, h₂]

variable {mem : ℤ → UInt8} {targetMsgLen : ℤ}

lemma slice_sent {sendLen : ℤ} (h : targetMsgLen ≤ sendLen) :
    slice mem sendLen (targetMsgLen - sendLen).toNat = [] := by
  have hzero : (targetMsgLen - sendLen).toNat = 0 := by omega
  simp [hzero, slice]

/-- Where no call fails, the loop sends what is left of the buffer. -/
lemma sendLoop_accepted (mem : ℤ → UInt8) {calls : List WriteCall} {sendLen : ℤ} {n : ℕ}
    (h : Accepts calls ((targetMsgLen - sendLen).toNat + n)) :
    ∃ rest, sendLoop mem targetMsgLen sendLen calls
        = some (slice mem sendLen (targetMsgLen - sendLen).toNat, rest) ∧ Accepts rest n := by
  induction calls generalizing sendLen with
  | nil =>
      have hle : targetMsgLen ≤ sendLen := by
        have := h.2
        simp only [List.length_nil] at this
        omega
      exact ⟨[], by simp [sendLoop, hle, slice_sent], h.mono (by omega)⟩
  | cons call calls ih =>
      by_cases hle : targetMsgLen ≤ sendLen
      · exact ⟨call :: calls, by simp [sendLoop, hle, slice_sent], h.mono (by omega)⟩
      · cases call with
        | failed => exact absurd List.mem_cons_self h.1
        | upTo k =>
            -- the call takes at least one byte, so the remaining calls are enough for the rest
            obtain ⟨w, hw⟩ : ∃ w, w = min (k + 1) (targetMsgLen - sendLen).toNat := ⟨_, rfl⟩
            have hsplit : (targetMsgLen - sendLen).toNat
                = w + (targetMsgLen - (sendLen + w)).toNat := by omega
            have htail : Accepts calls ((targetMsgLen - (sendLen + w)).toNat + n) := by
              have hfirst :
                  Accepts (.upTo k :: calls) ((targetMsgLen - sendLen).toNat + n - 1 + 1) :=
                h.mono (by omega)
              exact hfirst.tail.mono (by omega)
            obtain ⟨rest, hrun, hrest⟩ := ih htail
            refine ⟨rest, ?_, hrest⟩
            rw [hsplit, slice_add, sendLoop, if_neg hle]
            simp only [← hw, hrun, Option.map_some]

/-- Every call that fails makes the stream one byte longer; if none does, the loop sends what is
left of the buffer. -/
lemma sendLoop_made {calls rest : List WriteCall} {bytes : List UInt8} {sendLen : ℤ}
    (hle : sendLen ≤ targetMsgLen)
    (h : sendLoop mem targetMsgLen sendLen calls = some (bytes, rest)) :
    ∃ made, calls = made ++ rest ∧
      (bytes.length : ℤ) = targetMsgLen - sendLen + made.count .failed ∧
      (WriteCall.failed ∉ made → bytes = slice mem sendLen (targetMsgLen - sendLen).toNat) := by
  induction calls generalizing sendLen bytes with
  | nil =>
      rw [sendLoop] at h
      split at h
      case isTrue hdone =>
        obtain ⟨rfl, rfl⟩ : [] = bytes ∧ [] = rest := by simpa using h
        exact ⟨[], rfl, by simp; omega, fun _ => (slice_sent hdone).symm⟩
      case isFalse => cases h
  | cons call calls ih =>
      unfold sendLoop at h
      split at h
      case isTrue hdone =>
        obtain ⟨rfl, rfl⟩ : [] = bytes ∧ call :: calls = rest := by simpa using h
        exact ⟨[], rfl, by simp; omega, fun _ => (slice_sent hdone).symm⟩
      case isFalse hmore =>
        cases call with
        | failed =>
            obtain ⟨made, rfl, hlen, -⟩ := ih (by omega) h
            refine ⟨.failed :: made, rfl, ?_, fun hok => absurd List.mem_cons_self hok⟩
            rw [hlen, List.count_cons_self]
            push_cast
            omega
        | upTo k =>
            obtain ⟨⟨later, rest'⟩, hrun, heq⟩ := Option.map_eq_some_iff.mp h
            obtain ⟨rfl, rfl⟩ := Prod.mk.injEq .. ▸ heq
            obtain ⟨w, hw⟩ : ∃ w, w = min (k + 1) (targetMsgLen - sendLen).toNat := ⟨_, rfl⟩
            simp only [← hw] at hrun ⊢
            have hsplit : (targetMsgLen - sendLen).toNat
                = w + (targetMsgLen - (sendLen + w)).toNat := by omega
            obtain ⟨made, rfl, hlen, hslice⟩ := ih (by omega) hrun
            refine ⟨.upTo k :: made, rfl, ?_, fun hok => ?_⟩
            · rw [List.length_append, length_slice, List.count_cons_of_ne (by simp)]
              push_cast
              omega
            · rw [hsplit, slice_add, ← hslice fun hmem => hok (List.mem_cons_of_mem _ hmem)]

/-- **The bytes of a request reach the pipe once and in order exactly when no write fails**: a loop
whose calls all take something ends with the request in the pipe, and a loop that has ended after
some calls put the request there if and only if none of them failed. -/
theorem sendLoop_exact_iff (outside : ℤ → UInt8) (requestBuffer : List UInt8) :
    (∀ calls, WriteCall.failed ∉ calls → requestBuffer.length ≤ calls.length →
      ∃ rest, sendLoop (memory outside requestBuffer) requestBuffer.length 0 calls
        = some (requestBuffer, rest)) ∧
    (∀ calls bytes,
      sendLoop (memory outside requestBuffer) requestBuffer.length 0 calls = some (bytes, []) →
      (bytes = requestBuffer ↔ WriteCall.failed ∉ calls)) := by
  have hsent {calls : List WriteCall} (hok : WriteCall.failed ∉ calls)
      (hmany : requestBuffer.length ≤ calls.length) :
      ∃ rest, sendLoop (memory outside requestBuffer) requestBuffer.length 0 calls
        = some (requestBuffer, rest) := by
    have haccepts : Accepts calls (((requestBuffer.length : ℤ) - 0).toNat + 0) :=
      ⟨hok, by simpa using hmany⟩
    obtain ⟨rest, hrun, -⟩ := sendLoop_accepted (memory outside requestBuffer) haccepts
    exact ⟨rest, by simpa [slice_memory] using hrun⟩
  refine ⟨fun calls => hsent, fun calls bytes hrun => ?_⟩
  obtain ⟨made, hmade, hlen, hslice⟩ := sendLoop_made (by simp) hrun
  rw [List.append_nil] at hmade
  subst hmade
  constructor
  · rintro rfl
    have hzero : calls.count WriteCall.failed = 0 := by omega
    exact List.count_eq_zero.mp hzero
  · intro hok
    simpa [slice_memory] using hslice hok

/-- The request for the size of a relation, written in two parts with a failed call between them.
The tenth byte is sent twice, and the reader loses the boundaries of the messages. -/
theorem failed_write_repeats_byte :
    let requestBuffer := requestHeader 'M' (4 + 1 + 4 + 4 + 4) ++ relFields sampleFork
    sendLoop (memory (fun _ => 0) requestBuffer) requestBuffer.length 0 [.upTo 9, .failed, .upTo 17]
      = some (requestBuffer.take 10 ++ requestBuffer.drop 9, []) ∧
    requestBuffer.take 10 ++ requestBuffer.drop 9 ≠ requestBuffer := by
  decide

/-! ## Reading replies -/

/-- The loop in which the server reads a reply: what it read and what stays in the pipe, if it ends
within the calls.  A closed pipe is read again and again; another error ends the server. -/
def receive (remaining : ℕ) (pipe : List UInt8) : List ReadCall → Option (List UInt8 × List UInt8)
  | [] => if remaining = 0 then some ([], pipe) else none
  | call :: calls =>
      if remaining = 0 then some ([], pipe)
      else match read pipe remaining call with
        | (.again, pipe') => receive remaining pipe' calls
        | (.eof, pipe') => receive remaining pipe' calls
        | (.failed, _) => none
        | (.data bs, pipe') =>
            (receive (remaining - bs.length) pipe' calls).map fun r => (bs ++ r.1, r.2)

lemma receive_spec {calls : List ReadCall} {reply rest : List UInt8}
    (h : Delivers calls (reply ++ rest).length) :
    receive reply.length (reply ++ rest) calls = some (reply, rest) := by
  induction calls generalizing reply with
  | nil =>
      have hnil : reply = [] := by
        have := h.2
        simp at this
        exact this.1
      simp [receive, hnil]
  | cons call calls ih =>
      by_cases hzero : reply.length = 0
      · obtain rfl := List.length_eq_zero_iff.mp hzero
        simp [receive]
      · rw [receive, if_neg hzero]
        obtain ⟨hread, hrest⟩ | ⟨bs, left, heq, hne, hle, hread, hrest⟩ :=
          h.read (show 0 < reply.length by omega)
        · rw [hread]
          exact ih hrest
        · -- what was read is the beginning of the reply
          obtain ⟨reply', rfl⟩ : ∃ reply', reply = bs ++ reply' := by
            have hprefix : bs <+: reply := by
              refine List.prefix_of_prefix_length_le ⟨left, heq.symm⟩ ⟨rest, rfl⟩ hle
            obtain ⟨t, ht⟩ := hprefix
            exact ⟨t, ht.symm⟩
          obtain rfl : left = reply' ++ rest := by
            rw [List.append_assoc] at heq
            exact (List.append_cancel_left heq).symm
          rw [hread]
          simp only [List.length_append, Nat.add_sub_cancel_left]
          rw [ih hrest, Option.map_some]

/-! ## Reading requests -/

/-- `sizeof(stdin_buf)`. -/
def stdinSize : ℕ := 16 * 1024

/-- What a worker has not consumed: the rest of `stdin_buf` and the contents of the pipe. -/
structure PipeReader where
  stdin : List UInt8
  pipe : List UInt8
deriving DecidableEq, Repr

/-- The bytes in the order in which they are consumed. -/
def PipeReader.unread (rd : PipeReader) : List UInt8 := rd.stdin ++ rd.pipe

/-- `buffered_read`: the bytes read (fewer than asked for at the end of the stream) or `none` for an
error, if it returns within the calls.  Each turn copies what the buffer holds; while more is
missing, the next call fills it again. -/
def bufferedRead (count : ℕ) (dst : List UInt8) (rd : PipeReader) :
    List ReadCall → Option (Option (List UInt8) × PipeReader × List ReadCall)
  | [] =>
      if count ≤ rd.stdin.length then
        some (some (dst ++ rd.stdin.take count), ⟨rd.stdin.drop count, rd.pipe⟩, [])
      else none
  | call :: calls =>
      if count ≤ rd.stdin.length then
        some (some (dst ++ rd.stdin.take count), ⟨rd.stdin.drop count, rd.pipe⟩, call :: calls)
      else
        match read rd.pipe stdinSize call with
        | (.again, pipe') =>
            bufferedRead (count - rd.stdin.length) (dst ++ rd.stdin) ⟨[], pipe'⟩ calls
        | (.failed, pipe') => some (none, ⟨[], pipe'⟩, calls)
        | (.eof, pipe') => some (some (dst ++ rd.stdin), ⟨[], pipe'⟩, calls)
        | (.data bs, pipe') =>
            bufferedRead (count - rd.stdin.length) (dst ++ rd.stdin) ⟨bs, pipe'⟩ calls

/-- The worker takes the next bytes of its stream, whatever the split between buffer and pipe. -/
lemma bufferedRead_spec {calls : List ReadCall} {count : ℕ} (dst : List UInt8) {rd : PipeReader}
    (h : Delivers calls rd.pipe.length) (hcount : count ≤ rd.unread.length) :
    ∃ rd' calls', bufferedRead count dst rd calls
        = some (some (dst ++ rd.unread.take count), rd', calls') ∧
      rd'.unread = rd.unread.drop count ∧ Delivers calls' rd'.pipe.length := by
  induction calls generalizing count dst rd with
  | nil =>
      have hpipe : rd.pipe = [] := by simpa using h.2
      have hle : count ≤ rd.stdin.length := by simpa [PipeReader.unread, hpipe] using hcount
      refine ⟨⟨rd.stdin.drop count, rd.pipe⟩, [], ?_, ?_, h⟩
      · simp [bufferedRead, PipeReader.unread, hpipe, hle]
      · simp [PipeReader.unread, hpipe]
  | cons call calls ih =>
      by_cases hle : count ≤ rd.stdin.length
      · refine ⟨⟨rd.stdin.drop count, rd.pipe⟩, call :: calls, ?_, ?_, h⟩
        · simp [bufferedRead, PipeReader.unread, hle, List.take_append_of_le_length hle]
        · simp [PipeReader.unread, List.drop_append_of_le_length hle]
      · -- the buffer is used up; the call fills it again or finds nothing
        have htake : rd.unread.take count
            = rd.stdin ++ rd.pipe.take (count - rd.stdin.length) := by
          rw [PipeReader.unread, List.take_append, List.take_of_length_le (by omega)]
        have hdrop : rd.unread.drop count = rd.pipe.drop (count - rd.stdin.length) := by
          rw [PipeReader.unread, List.drop_append, List.drop_of_length_le (by omega),
            List.nil_append]
        have hpipe : count - rd.stdin.length ≤ rd.pipe.length := by
          simp only [PipeReader.unread, List.length_append] at hcount
          omega
        have hgo {rd₁ : PipeReader} (hunread : rd₁.unread = rd.pipe)
            (hdel : Delivers calls rd₁.pipe.length) :
            ∃ rd' calls',
              bufferedRead (count - rd.stdin.length) (dst ++ rd.stdin) rd₁ calls
                = some (some (dst ++ rd.unread.take count), rd', calls') ∧
              rd'.unread = rd.unread.drop count ∧ Delivers calls' rd'.pipe.length := by
          obtain ⟨rd', calls', hrun, hrest, hdel'⟩ := ih (dst ++ rd.stdin) hdel (hunread ▸ hpipe)
          refine ⟨rd', calls', ?_, ?_, hdel'⟩
          · rw [hrun, htake, hunread, List.append_assoc]
          · rw [hrest, hdrop, hunread]
        rw [bufferedRead, if_neg hle]
        obtain ⟨hread, hrest⟩ | ⟨bs, left, heq, -, -, hread, hrest⟩ :=
          h.read (show 0 < stdinSize by decide)
        · rw [hread]
          exact hgo rfl hrest
        · rw [hread]
          exact hgo heq.symm hrest

end GroundDB
