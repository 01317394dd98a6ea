/-
  CekatEvents.Clients.BoundedBodies — what four SDKs retain of a response body.

  Three of them hold one byte more than they retain; the Node SDK counts that byte and does not hold it.
  They stop when they have seen it, or go on without holding more.

  Main result:

    • `boundedReaders_agree` — the first 65,536 bytes are retained, and truncation and the number of bytes
      looked at are reported, however the body is cut into chunks.
-/
import CekatEvents.Effects.Bounded
import CekatEvents.Java.JdkHttpTransport
import CekatEvents.Node.Scripted
import CekatEvents.Php.Transport
import CekatEvents.Python.Protocol

namespace CekatEvents.Clients

open CekatEvents.Effects

/-- The number of bytes that every SDK retains. -/
abbrev bodyLimit : Nat := 65536

/-! ## §1. Python. -/

section Python

open Python

theorem python_append (buffer : BoundedBuffer) (chunk : List UInt8) :
    buffer.append chunk =
      (decide ((hold bodyLimit buffer.data chunk).length ≤ bodyLimit), ⟨hold bodyLimit buffer.data chunk⟩) := by
  have hdata : (if 0 < MAX_RESPONSE_BYTES + 1 - buffer.data.length then
      buffer.data ++ chunk.take (MAX_RESPONSE_BYTES + 1 - buffer.data.length) else buffer.data) =
        hold bodyLimit buffer.data chunk := by
    split_ifs with hroom
    · rfl
    · exact (hold_full (show 65536 < buffer.data.length by unfold MAX_RESPONSE_BYTES at hroom; omega) chunk).symm
  unfold BoundedBuffer.append
  dsimp only
  rw [hdata]
  rfl

/-- Leaving the loop early loses nothing. -/
theorem python_readAll (buffer : BoundedBuffer) (chunks : List (List UInt8)) :
    (buffer.readAll chunks).data = chunks.foldl (hold bodyLimit) buffer.data := by
  induction chunks generalizing buffer with
  | nil => rfl
  | cons chunk chunks ih =>
      rw [BoundedBuffer.readAll, python_append, List.foldl_cons]
      dsimp only
      split_ifs with hgo
      · exact ih _
      · rw [decide_eq_true_eq, Nat.not_le] at hgo
        exact (foldl_hold_full hgo chunks).symm

/-- What the response reports is what the buffer holds. -/
theorem python_response (buffer : BoundedBuffer) (statusCode : Nat) (reasonPhrase : List Char)
    (headers : List (List Char × List Char)) (failure : Option Cause) :
    (⟨(buffer.response statusCode reasonPhrase headers failure).body,
      (buffer.response statusCode reasonPhrase headers failure).bodyTruncated,
      buffer.observedBodyBytes⟩ : BoundedRead UInt8) = report bodyLimit buffer.data := rfl

end Python

/-! ## §2. PHP. -/

section Php

open Php

theorem php_append (buffer : BoundedBodyBuffer) (chunk : List UInt8) :
    buffer.append chunk = (!decide (bodyLimit < (hold bodyLimit buffer.bytes chunk).length),
      ⟨hold bodyLimit buffer.bytes chunk⟩) := by
  have hbytes : (if 0 < MAX_BODY_BYTES + 1 - buffer.bytes.length then
      buffer.bytes ++ chunk.take (MAX_BODY_BYTES + 1 - buffer.bytes.length) else buffer.bytes) =
        hold bodyLimit buffer.bytes chunk := by
    split_ifs with hroom
    · rfl
    · exact (hold_full (show 65536 < buffer.bytes.length by unfold MAX_BODY_BYTES at hroom; omega) chunk).symm
  unfold BoundedBodyBuffer.append
  dsimp only
  rw [hbytes]
  rfl

theorem php_appendAll (buffer : BoundedBodyBuffer) (chunks : List (List UInt8)) :
    (buffer.appendAll chunks).bytes = chunks.foldl (hold bodyLimit) buffer.bytes := by
  induction chunks generalizing buffer with
  | nil => rfl
  | cons chunk chunks ih =>
      rw [BoundedBodyBuffer.appendAll, php_append, List.foldl_cons]
      dsimp only
      split_ifs with hgo
      · exact ih _
      · rw [Bool.not_eq_true', decide_eq_false_iff_not, not_not] at hgo
        exact (foldl_hold_full hgo chunks).symm

/-- A write that reports no bytes holds none. -/
theorem php_write (buffer : BoundedBodyBuffer) (chunk : List UInt8) :
    (buffer.write chunk).2.bytes = hold bodyLimit buffer.bytes chunk := by
  unfold BoundedBodyBuffer.write
  split_ifs with hover
  · exact (hold_full (of_decide_eq_true hover) chunk).symm
  · rw [php_append]

theorem php_writeAll (buffer : BoundedBodyBuffer) (chunks : List (List UInt8)) :
    (buffer.writeAll chunks).bytes = chunks.foldl (hold bodyLimit) buffer.bytes := by
  unfold BoundedBodyBuffer.writeAll
  induction chunks generalizing buffer with
  | nil => rfl
  | cons chunk chunks ih => rw [List.foldl_cons, List.foldl_cons, ih, php_write]

end Php

/-! ## §3. Java. -/

section Java

open Java

theorem java_write (bytes buffer : List UInt8) :
    BoundedSubscriber.write bytes buffer = hold bodyLimit bytes buffer := by
  have htake : buffer.take (min (MAX_BODY_BYTES + 1 - bytes.length) buffer.length) =
      buffer.take (MAX_BODY_BYTES + 1 - bytes.length) := by
    rw [← List.take_take, List.take_length]
  unfold BoundedSubscriber.write
  dsimp only
  split_ifs with hlength
  · rw [htake]
    rfl
  · -- nothing is left of the room, or of the buffer
    have hnone : buffer.take (MAX_BODY_BYTES + 1 - bytes.length) = [] := by
      rw [← htake, Nat.eq_zero_of_not_pos hlength, List.take_zero]
    unfold hold
    rw [show buffer.take (bodyLimit + 1 - bytes.length) = [] from hnone, List.append_nil]

theorem java_onNext (subscriber : BoundedSubscriber) (buffers : List (List UInt8)) :
    (subscriber.onNext buffers).bytes = buffers.foldl (hold bodyLimit) subscriber.bytes := by
  have hfold : buffers.foldl BoundedSubscriber.write subscriber.bytes =
      buffers.foldl (hold bodyLimit) subscriber.bytes := by
    congr 1
    funext bytes buffer
    exact java_write bytes buffer
  unfold BoundedSubscriber.onNext
  dsimp only
  rw [hfold]
  split_ifs
  · rfl
  · rfl

/-- What is held after any deliveries. -/
theorem java_deliveries (subscriber : BoundedSubscriber) (deliveries : List (List (List UInt8))) :
    (deliveries.foldl BoundedSubscriber.onNext subscriber).bytes =
      deliveries.flatten.foldl (hold bodyLimit) subscriber.bytes := by
  induction deliveries generalizing subscriber with
  | nil => rfl
  | cons buffers deliveries ih =>
      rw [List.foldl_cons, ih, java_onNext, List.flatten_cons, List.foldl_append]

/-- A publisher may stop once the subscriber is full. -/
theorem java_delivered {delivered later : List (List (List UInt8))} {chunks : List (List UInt8)}
    (hchunks : (delivered ++ later).flatten = chunks)
    (hstopped : (delivered.foldl BoundedSubscriber.onNext .new).overflowed = true ∨ later = []) :
    (delivered.foldl BoundedSubscriber.onNext .new).bytes = chunks.foldl (hold bodyLimit) [] := by
  have hbytes := java_deliveries .new delivered
  rw [← hchunks, List.flatten_append, List.foldl_append]
  rcases hstopped with hfull | rfl
  · have hlength := of_decide_eq_true hfull
    rw [hbytes] at hlength ⊢
    exact (foldl_hold_full hlength later.flatten).symm
  · exact hbytes

theorem java_toResponse (subscriber : BoundedSubscriber) (statusCode : Nat)
    (headers : List (List Char × List (List Char))) (failure : Option Cause) :
    (⟨(subscriber.toResponse statusCode headers failure).body,
      (subscriber.toResponse statusCode headers failure).bodyTruncated,
      subscriber.observedBodyBytes⟩ : BoundedRead UInt8) = report bodyLimit subscriber.bytes := by
  have hbody : (subscriber.toResponse statusCode headers failure).body =
      subscriber.bytes.take bodyLimit := by
    show (if decide (bodyLimit < subscriber.bytes.length) then _ else _) = _
    split_ifs with htruncated
    · rfl
    · rw [decide_eq_true_eq, Nat.not_lt] at htruncated
      exact (List.take_of_length_le htruncated).symm
  rw [hbody]
  rfl

end Java

/-! ## §4. All of them. -/

/-- **Four readers retain and report the same**, for any bytes and however they are cut into chunks.

    The buffers of Python, PHP and Java are told to go on, or not, after each chunk; a sink that is written
    to, and a subscriber that is called, once they are full stay as they are.  A loop of Node that has read
    what fits goes on with exactly that. -/
theorem boundedReaders_agree (chunks : List (List UInt8)) :
    (∀ statusCode reasonPhrase headers failure,
      let buffer := (Python.BoundedBuffer.mk []).readAll chunks
      let response := buffer.response statusCode reasonPhrase headers failure
      (⟨response.body, response.bodyTruncated, buffer.observedBodyBytes⟩ : BoundedRead UInt8) =
        boundedRead bodyLimit chunks.flatten ∧ buffer.data.length ≤ bodyLimit + 1) ∧
    (∀ buffer ∈ [(Php.BoundedBodyBuffer.mk []).appendAll chunks, (Php.BoundedBodyBuffer.mk []).writeAll chunks],
      (⟨buffer.retained, buffer.isOverflowed, buffer.observedBytes⟩ : BoundedRead UInt8) =
        boundedRead bodyLimit chunks.flatten ∧ buffer.bytes.length ≤ bodyLimit + 1) ∧
    (∀ delivered later : List (List (List UInt8)), (delivered ++ later).flatten = chunks →
      ∀ statusCode headers failure,
        let subscriber := delivered.foldl Java.BoundedSubscriber.onNext .new
        let response := subscriber.toResponse statusCode headers failure
        (subscriber.overflowed = true ∨ later = [] →
          (⟨response.body, response.bodyTruncated, subscriber.observedBodyBytes⟩ : BoundedRead UInt8) =
            boundedRead bodyLimit chunks.flatten) ∧ subscriber.bytes.length ≤ bodyLimit + 1) ∧
    ∀ (script : Node.Script) (fuel : Nat) (j : Node.Seen), chunks.length < fuel →
      (∃ left, run script.handler (Node.readLoop fuel [] 0) (j, chunks) =
        some (.ok ((boundedRead bodyLimit chunks.flatten).retained,
          (boundedRead bodyLimit chunks.flatten).truncated,
          (boundedRead bodyLimit chunks.flatten).observed), (j, left))) ∧
      (∃ left, run script.handler (Node.readBoundedBody fuel) (j, chunks) =
        some (.ok ⟨Node.textDecode (boundedRead bodyLimit chunks.flatten).retained,
          (boundedRead bodyLimit chunks.flatten).truncated,
          (boundedRead bodyLimit chunks.flatten).observed⟩, (j, left))) ∧
      ∀ before after, chunks = before ++ after → before.flatten.length ≤ bodyLimit →
        run script.handler (Node.readLoop fuel [] 0) (j, chunks) =
          run script.handler (Node.readLoop (fuel - before.length) before.flatten before.flatten.length)
            (j, after) := by
  refine ⟨?_, ?_, ?_, ?_⟩
  · intro statusCode reasonPhrase headers failure
    dsimp only
    rw [python_response, python_readAll]
    exact ⟨report_foldl_hold chunks, length_foldl_hold_le chunks⟩
  · have hbuffer : ∀ buffer : Php.BoundedBodyBuffer, buffer.bytes = chunks.foldl (hold bodyLimit) [] →
        (⟨buffer.retained, buffer.isOverflowed, buffer.observedBytes⟩ : BoundedRead UInt8) =
          boundedRead bodyLimit chunks.flatten ∧ buffer.bytes.length ≤ bodyLimit + 1 := by
      intro buffer hbytes
      have hreport : (⟨buffer.retained, buffer.isOverflowed, buffer.observedBytes⟩ : BoundedRead UInt8) =
          report bodyLimit buffer.bytes := rfl
      rw [hreport, hbytes]
      exact ⟨report_foldl_hold chunks, length_foldl_hold_le chunks⟩
    intro buffer hmem
    rcases List.mem_cons.mp hmem with rfl | hmem
    · exact hbuffer _ (php_appendAll _ chunks)
    · rw [List.mem_singleton] at hmem
      subst hmem
      exact hbuffer _ (php_writeAll _ chunks)
  · intro delivered later hchunks statusCode headers failure
    dsimp only
    rw [java_toResponse]
    constructor
    · intro hstopped
      rw [java_delivered hchunks hstopped]
      exact report_foldl_hold chunks
    · rw [java_deliveries]
      exact length_foldl_hold_le delivered.flatten
  · intro script fuel j hfuel
    refine ⟨?_, ?_, ?_⟩
    · exact Node.run_readLoop script chunks fuel [] j hfuel (Nat.zero_le _)
    · exact Node.run_readBoundedBody script hfuel j
    · rintro before after rfl hfits
      rw [List.length_append] at hfuel
      have hrun := Node.run_readLoop_append script before after (fuel - before.length) [] j hfits
      rw [Nat.sub_add_cancel (by omega)] at hrun
      exact hrun

end CekatEvents.Clients
