import Mathlib

/-!
# Framed streams

Messages in a stream, each with a head of fixed length and a body.
-/

namespace Framing
open List

section

variable {Message Byte : Type}

/-- How a message is written. -/
structure Frame (Message Byte : Type) where
  size : Nat
  head : Message → List Byte
  body : Message → List Byte
  length_head : ∀ message, (head message).length = size

namespace Frame

variable (frame : Frame Message Byte)

def bytes (message : Message) : List Byte := frame.head message ++ frame.body message

def stream (messages : List Message) : List Byte := messages.flatMap frame.bytes

@[simp] theorem stream_nil : frame.stream [] = [] := rfl

theorem stream_cons (message : Message) (later : List Message) :
    frame.stream (message :: later) = frame.head message ++ (frame.body message ++ frame.stream later) := by
  rw [stream, flatMap_cons, bytes, append_assoc]
  rfl

theorem stream_append_singleton (earlier : List Message) (message : Message) :
    frame.stream (earlier ++ [message]) = frame.stream earlier ++ frame.bytes message := by
  rw [stream, flatMap_append, flatMap_singleton]
  rfl

variable {frame}

/-- As many bytes as a head has are the head of the next message. -/
theorem split_head {got rest : List Byte} {messages : List Message} (pos : 0 < frame.size)
    (whole : got.length = frame.size) (same : got ++ rest = frame.stream messages) :
    ∃ message later, messages = message :: later ∧ got = frame.head message ∧
      rest = frame.body message ++ frame.stream later := by
  cases messages with
  | nil =>
    have none : got = [] := (append_eq_nil_iff.mp same).1
    rw [none] at whole
    exact absurd whole pos.ne
  | cons message later =>
    rw [stream_cons] at same
    obtain ⟨head, remains⟩ := append_inj same (whole.trans (frame.length_head message).symm)
    exact ⟨message, later, rfl, head, remains⟩

/-- Fewer bytes than a head has are no messages. -/
theorem no_messages {got : List Byte} {messages : List Message} (short : got.length < frame.size)
    (same : got = frame.stream messages) : messages = [] := by
  cases messages with
  | nil => rfl
  | cons msg later =>
    rw [same, stream_cons, length_append, frame.length_head] at short
    exact absurd short (Nat.not_lt.mpr (Nat.le_add_right _ _))

end Frame

end

end Framing
