import RenderScript.Foundation.Interleaving
import RenderScript.Foundation.Framing
import RenderScript.Foundation.AlignedBytes

/-!
# Messages to the client

`sendMessageToClient` of rsContext.cpp writes a header and a payload to a stream
socket while it holds a lock. The message thread of cpp/RenderScript.cpp reads the
header, makes its buffer large enough and reads the payload. Writes and reads of the
socket go through in pieces. `size_t` has 64 bits.
-/

namespace RenderScript.Messages
open AlignedBytes Framing List Option

/-- The arguments of `sendMessageToClient`; `len` is the length of `data`. -/
structure Message where
  cmdID : UInt32
  subID : UInt32
  data : List UInt8

structure ClientCmdHeader where
  cmdID : UInt32
  bytes : UInt32
  userID : UInt32
  deriving DecidableEq

namespace ClientCmdHeader

def toBytes (hdr : ClientCmdHeader) : List UInt8 :=
  encode 4 hdr.cmdID.toNat ++ (encode 4 hdr.bytes.toNat ++ encode 4 hdr.userID.toNat)

def ofBytes (bytes : List UInt8) : ClientCmdHeader where
  cmdID := .ofNat (decode (bytes.take 4))
  bytes := .ofNat (decode ((bytes.drop 4).take 4))
  userID := .ofNat (decode (bytes.drop 8))

/-- `sizeof(ClientCmdHeader)`. -/
def size : Nat := 12

end ClientCmdHeader

/-- The header that `sendToClient` fills in. Its `bytes` has 32 bits. -/
def Message.header (message : Message) : ClientCmdHeader where
  cmdID := message.cmdID
  bytes := .ofNat message.data.length
  userID := message.subID

@[simp] theorem length_toBytes (hdr : ClientCmdHeader) : hdr.toBytes.length = ClientCmdHeader.size := by
  simp [ClientCmdHeader.toBytes, ClientCmdHeader.size]

/-- What `sendToClient` writes, with both calls of `writeAsync`. -/
def frame : Frame Message UInt8 where
  size := ClientCmdHeader.size
  head message := message.header.toBytes
  body := Message.data
  length_head message := length_toBytes message.header

inductive Client where
  -- in `read` of the header, with the bytes it has got
  | peeking (got : List UInt8)
  -- behind `ContextPeekMessage`
  | peeked
  -- in `read` of the payload
  | getting (got : List UInt8)

/-- What the message thread has got: the result of `ContextPeekMessage`, `usrID`, `receiveLen`
and the bytes in the buffer. -/
structure Delivery where
  r : UInt32
  usrID : UInt32
  receiveLen : Nat
  data : List UInt8
  deriving DecidableEq

/-- `lock` has the holder of `gMessageMutex` and the bytes it has still to write. Bookkeeping: the
messages in the order of the lock, and the deliveries. -/
structure State (Thread : Type) where
  lock : Option (Thread × List UInt8) := none
  mToClient : List UInt8 := []
  mLastClientHeader : ClientCmdHeader := ⟨0, 0, 0⟩
  rbuf_size : Nat := 256
  client : Client := .peeking []
  sent : List Message := []
  delivered : List Delivery := []

inductive Act (Thread : Type) where
  -- `sendMessageToClient` takes the lock
  | send (thread : Thread) (message : Message)
  -- the next bytes of its writes
  | write (thread : Thread) (count : Nat)
  | unlock (thread : Thread)
  -- the next bytes of a read of the client
  | recv (count : Nat)
  -- the client goes on
  | client

section

variable {Thread : Type}

namespace State

def recv (s : State Thread) (count : Nat) : Option (State Thread) :=
  if count ≤ s.mToClient.length then
    match s.client with
    | .peeking got =>
      if got.length + count ≤ ClientCmdHeader.size then
        some { s with client := .peeking (got ++ s.mToClient.take count), mToClient := s.mToClient.drop count }
      else none
    | .peeked => none
    | .getting got =>
      if got.length + count ≤ s.mLastClientHeader.bytes.toNat then
        some { s with client := .getting (got ++ s.mToClient.take count), mToClient := s.mToClient.drop count }
      else none
  else none

def deliver (s : State Thread) (data : List UInt8) : State Thread :=
  { s with client := .peeking [], delivered := s.delivered ++ [{
      r := s.mLastClientHeader.cmdID, usrID := s.mLastClientHeader.userID
      receiveLen := s.mLastClientHeader.bytes.toNat
      data := data }] }

/-- `rbuf_size` after the test in the loop. -/
def grown (s : State Thread) : Nat :=
  let receiveLen := s.mLastClientHeader.bytes.toNat
  if receiveLen ≥ s.rbuf_size then receiveLen + 32 else s.rbuf_size

def clientStep (s : State Thread) : Option (State Thread) :=
  match s.client with
  | .peeking got =>
    if got.length = ClientCmdHeader.size then
      some { s with mLastClientHeader := .ofBytes got, client := .peeked }
    else none
  | .peeked =>
    -- a buffer that is too small gets `RS_MESSAGE_TO_CLIENT_RESIZE` and no bytes
    if s.grown < s.mLastClientHeader.bytes.toNat then some { s.deliver [] with rbuf_size := s.grown }
    else some { s with rbuf_size := s.grown, client := .getting [] }
  | .getting got =>
    if got.length = s.mLastClientHeader.bytes.toNat then some (s.deliver got) else none

variable [DecidableEq Thread]

def step (s : State Thread) : Act Thread → Option (State Thread)
  | .send thread message =>
    if s.lock.isNone then
      some { s with lock := some (thread, frame.bytes message), sent := s.sent ++ [message] }
    else none
  | .write thread count =>
    match s.lock with
    | some (holder, rest) =>
      if holder = thread ∧ count ≤ rest.length then
        some { s with lock := some (holder, rest.drop count), mToClient := s.mToClient ++ rest.take count }
      else none
    | none => none
  | .unlock thread =>
    match s.lock with
    | some (holder, []) => if holder = thread then some { s with lock := none } else none
    | _ => none
  | .recv count => s.recv count
  | .client => s.clientStep

end State

def Message.delivery (message : Message) : Delivery where
  r := message.cmdID
  usrID := message.subID
  receiveLen := message.data.length
  data := message.data

def State.Waits (s : State Thread) : Prop :=
  match s.client with
  | .peeking got => got.length < ClientCmdHeader.size
  | .peeked => False
  | .getting got => got.length < s.mLastClientHeader.bytes.toNat

/-- Messages arrive once and in the order of the lock, and none is missing when the client waits
at an empty socket that nobody is writing to. -/
structure State.Right (s : State Thread) : Prop where
  inOrder : s.delivered <+: s.sent.map Message.delivery
  complete : s.lock = none → s.mToClient = [] → s.Waits → s.delivered = s.sent.map Message.delivery

end

open Interleaving

variable {message : Message}

theorem ofNat_decode_encode (value : UInt32) : UInt32.ofNat (decode (encode 4 value.toNat)) = value := by
  rw [decode_encode value.toNat_lt, UInt32.ofNat_toNat]

theorem ofBytes_toBytes (hdr : ClientCmdHeader) : .ofBytes hdr.toBytes = hdr := by
  have second : (hdr.toBytes.drop 4).take 4 = encode 4 hdr.bytes.toNat := by
    rw [ClientCmdHeader.toBytes, drop_left' (length_encode _ _), take_left' (length_encode _ _)]
  have third : hdr.toBytes.drop 8 = encode 4 hdr.userID.toNat := by
    rw [ClientCmdHeader.toBytes, ← append_assoc, drop_left' (by simp)]
  rw [ClientCmdHeader.ofBytes, second, third, ClientCmdHeader.toBytes,
    take_left' (length_encode _ _), ofNat_decode_encode, ofNat_decode_encode, ofNat_decode_encode]

def Message.Fits (message : Message) : Prop := message.data.length < 2 ^ 32

theorem Message.Fits.bytes (fits : message.Fits) : message.header.bytes.toNat = message.data.length :=
  UInt32.toNat_ofNat_of_lt' fits

section

variable {Thread : Type} {s next : State Thread} {thread : Thread}

namespace State

def unwritten (s : State Thread) : List UInt8 :=
  match s.lock with
  | some (_, rest) => rest
  | none => []

def ahead (s : State Thread) : List UInt8 := s.mToClient ++ s.unwritten

def Agrees (ahead : List UInt8) (header : ClientCmdHeader) (coming : List Message) : Client → Prop
  | .peeking got => got ++ ahead = frame.stream coming
  | .peeked => ∃ message later, coming = message :: later ∧ header = message.header ∧
      ahead = message.data ++ frame.stream later
  | .getting got => ∃ message later, coming = message :: later ∧ header = message.header ∧
      got ++ ahead = message.data ++ frame.stream later

structure Inv (s : State Thread) : Prop where
  fits : ∀ message ∈ s.sent, message.Fits
  split : ∃ gone coming, s.sent = gone ++ coming ∧ s.delivered = gone.map Message.delivery ∧
    Agrees s.ahead s.mLastClientHeader coming s.client

theorem Inv.start : Inv ({} : State Thread) where
  fits := nofun
  split := ⟨[], [], rfl, rfl, rfl⟩

theorem Agrees.append {ahead : List UInt8} {header : ClientCmdHeader} {coming : List Message}
    {client : Client} (agrees : Agrees ahead header coming client) (message : Message) :
    Agrees (ahead ++ frame.bytes message) header (coming ++ [message]) client := by
  cases client with
  | peeking got =>
    show got ++ (ahead ++ _) = _
    rw [← append_assoc, show got ++ ahead = _ from agrees, Frame.stream_append_singleton]
  | peeked =>
    obtain ⟨first, later, rfl, header, rest⟩ := agrees
    refine ⟨first, later ++ [message], rfl, header, ?_⟩
    simp [rest, Frame.stream_append_singleton]
  | getting got =>
    obtain ⟨first, later, rfl, header, rest⟩ := agrees
    refine ⟨first, later ++ [message], rfl, header, ?_⟩
    rw [← append_assoc, rest, Frame.stream_append_singleton, append_assoc]

theorem Inv.send (inv : s.Inv) (free : s.lock.isNone = true) (fits : message.Fits) :
    Inv { s with lock := some (thread, frame.bytes message), sent := s.sent ++ [message] } where
  fits := forall_mem_append.mpr ⟨inv.fits, forall_mem_singleton.mpr fits⟩
  split := by
    obtain ⟨gone, coming, sent, delivered, agrees⟩ := inv.split
    refine ⟨gone, coming ++ [message], ?_, delivered, ?_⟩
    · rw [← append_assoc, ← sent]
    · have before : s.ahead = s.mToClient := by
        rw [ahead, unwritten, isNone_iff_eq_none.mp free]
        exact append_nil _
      rw [before] at agrees
      exact agrees.append message

theorem Inv.congr (inv : s.Inv) {lock : Option (Thread × List UInt8)} {mToClient : List UInt8}
    (same : ahead { s with lock := lock, mToClient := mToClient } = s.ahead) :
    Inv { s with lock := lock, mToClient := mToClient } where
  fits := inv.fits
  split := by
    rw [same]
    exact inv.split

theorem Inv.write (inv : s.Inv) {rest : List UInt8} (holds : s.lock = some (thread, rest)) (count : Nat) :
    Inv { s with lock := some (thread, rest.drop count), mToClient := s.mToClient ++ rest.take count } := by
  apply inv.congr
  simp [ahead, unwritten, holds]

theorem Inv.unlock (inv : s.Inv) (holds : s.lock = some (thread, [])) : Inv ({ s with lock := none } : State Thread) := by
  refine @congr _ s inv none s.mToClient ?_
  rw [ahead, ahead, unwritten, unwritten, holds]

theorem ahead_split (s : State Thread) (got : List UInt8) (count : Nat) :
    (got ++ s.mToClient.take count) ++ (s.mToClient.drop count ++ s.unwritten) = got ++ s.ahead := by
  rw [ahead, append_assoc, ← append_assoc (s.mToClient.take count), take_append_drop]

theorem Inv.recv (inv : s.Inv) {count : Nat} (moved : s.recv count = some next) : next.Inv := by
  obtain ⟨_, moved⟩ := ite_none_right_eq_some.mp moved
  obtain ⟨gone, coming, sent, delivered, agrees⟩ := inv.split
  cases here : s.client with
  | peeking got =>
    rw [here] at moved agrees
    obtain ⟨_, made⟩ := ite_none_right_eq_some.mp moved
    cases made
    exact ⟨inv.fits, gone, coming, sent, delivered, (ahead_split s got count).trans agrees⟩
  | peeked =>
    rw [here] at moved
    cases moved
  | getting got =>
    rw [here] at moved agrees
    obtain ⟨_, made⟩ := ite_none_right_eq_some.mp moved
    cases made
    obtain ⟨msg, later, rfl, header, rest⟩ := agrees
    exact ⟨inv.fits, gone, msg :: later, sent, delivered, msg, later, rfl, header, (ahead_split s got count).trans rest⟩

theorem le_grown (s : State Thread) : s.mLastClientHeader.bytes.toNat ≤ s.grown := by
  dsimp only [grown]
  split
  case isTrue => exact Nat.le_add_right _ _
  case isFalse small => exact Nat.le_of_not_le small

theorem Inv.clientStep (inv : s.Inv) (moved : s.clientStep = some next) : next.Inv := by
  obtain ⟨gone, coming, sent, delivered, agrees⟩ := inv.split
  cases here : s.client with
  | peeking got =>
    rw [here] at agrees
    simp only [State.clientStep, here, ite_none_right_eq_some, Option.some.injEq] at moved
    obtain ⟨whole, rfl⟩ := moved
    obtain ⟨msg, later, rfl, head, rest⟩ := Frame.split_head (by decide) whole agrees
    refine ⟨inv.fits, gone, msg :: later, sent, delivered, msg, later, rfl, ?_, rest⟩
    rw [head]
    exact ofBytes_toBytes msg.header
  | peeked =>
    rw [here] at agrees
    simp only [State.clientStep, here, if_neg (Nat.not_lt.mpr s.le_grown), Option.some.injEq] at moved
    subst moved
    exact ⟨inv.fits, gone, coming, sent, delivered, agrees⟩
  | getting got =>
    rw [here] at agrees
    simp only [State.clientStep, here, ite_none_right_eq_some, Option.some.injEq] at moved
    obtain ⟨whole, rfl⟩ := moved
    obtain ⟨msg, later, rfl, header, rest⟩ := agrees
    have fits : msg.Fits := inv.fits msg (by rw [sent]; simp)
    have length : got.length = msg.data.length := by rw [whole, header, fits.bytes]
    obtain ⟨data, remains⟩ := append_inj rest length
    refine ⟨inv.fits, gone ++ [msg], later, ?_, ?_, remains⟩
    · rw [append_assoc]
      exact sent
    · rw [map_append, ← delivered]
      show s.delivered ++ [_] = s.delivered ++ [msg.delivery]
      rw [header, fits.bytes, data]
      rfl

theorem Inv.right (inv : s.Inv) : s.Right := by
  obtain ⟨gone, coming, sent, delivered, agrees⟩ := inv.split
  constructor
  · rw [delivered, sent, map_append]
    exact prefix_append _ _
  · intro unlocked empty waits
    have nothing : s.ahead = [] := by rw [ahead, unwritten, unlocked, empty]; rfl
    rw [nothing] at agrees
    unfold State.Waits at waits
    cases here : s.client with
    | peeking got =>
      rw [here] at agrees waits
      have last := Frame.no_messages waits ((append_nil got).symm.trans agrees)
      simp [delivered, sent, last]
    | peeked =>
      rw [here] at waits
      cases waits
    | getting got =>
      rw [here] at agrees waits
      obtain ⟨msg, later, rfl, header, rest⟩ := agrees
      have fits : msg.Fits := inv.fits msg (by rw [sent]; simp)
      have lengths := congrArg List.length rest
      rw [append_nil, length_append] at lengths
      rw [header, fits.bytes] at waits
      have short : got.length < msg.data.length := waits
      rw [lengths] at short
      exact absurd short (not_lt.mpr (Nat.le_add_right _ _))

end State

variable [DecidableEq Thread]

def Fitting (_ : State Thread) : Act Thread → Prop
  | .send _ message => message.Fits
  | _ => True

theorem State.Inv.step {act : Act Thread} (inv : s.Inv) (fitting : Fitting s act)
    (moved : s.step act = some next) : next.Inv := by
  cases act with
  | send thread msg =>
    obtain ⟨free, made⟩ := ite_none_right_eq_some.mp moved
    cases made
    exact inv.send free fitting
  | write thread count =>
    cases held : s.lock with
    | none => simp [State.step, held] at moved
    | some holding =>
      simp only [State.step, held, ite_none_right_eq_some, Option.some.injEq] at moved
      obtain ⟨_, rfl⟩ := moved
      exact inv.write held count
  | unlock thread =>
    cases held : s.lock with
    | none => simp [State.step, held] at moved
    | some holding =>
      obtain ⟨holder, rest⟩ := holding
      cases rest with
      | nil =>
        simp only [State.step, held, ite_none_right_eq_some, Option.some.injEq] at moved
        obtain ⟨_, rfl⟩ := moved
        exact inv.unlock held
      | cons => simp [State.step, held] at moved
  | recv count => exact inv.recv moved
  | client => exact inv.clientStep moved

end

theorem messages_arrive {Thread : Type} [DecidableEq Thread] {acts : List (Act Thread)}
    {s : State Thread} (run : Run State.step Fitting {} acts s) : s.Right :=
  (Run.invariant (fun _ => State.Inv) run .start fun inv fitting moved => inv.step fitting moved).right

/-- Two threads send, the second one nothing but a header, and the client reads in pieces. -/
def twoMessages : List (Act Bool) :=
  [.send true ⟨4, 1, [7, 8]⟩, .write true 5, .recv 5, .write true 9, .unlock true,
    .send false ⟨4, 2, []⟩, .write false 12, .unlock false,
    .recv 7, .client, .client, .recv 2, .client, .recv 12, .client, .client, .client]

instance {Thread : Type} (s : State Thread) : (act : Act Thread) → Decidable (Fitting s act)
  | .send _ message => inferInstanceAs (Decidable (message.data.length < 2 ^ 32))
  | .write _ _ | .unlock _ | .recv _ | .client => .isTrue trivial

theorem messages_arrive_two : ∃ s : State Bool, s.Right ∧ s.delivered = [⟨4, 1, 2, [7, 8]⟩, ⟨4, 2, 0, []⟩] := by
  have shown : ((perform State.step Fitting {} twoMessages).map State.delivered) =
      some [⟨4, 1, 2, [7, 8]⟩, ⟨4, 2, 0, []⟩] := by decide +kernel
  obtain ⟨s, performed, delivered⟩ := map_eq_some_iff.mp shown
  exact ⟨s, messages_arrive (run_of_perform performed), delivered⟩

theorem lost_of_header (zero : message.header.bytes = 0) (ne : message.data ≠ []) :
    ∃ s, Run State.step Anyhow ({} : State Unit) [.send () message, .write () 12, .recv 12, .client, .client, .client] s ∧
      s.sent = [message] ∧ s.delivered = [⟨message.cmdID, message.subID, 0, []⟩] ∧ ¬s.Right := by
  have taken : (frame.bytes message).take 12 = message.header.toBytes := take_left' (length_toBytes message.header)
  have enough : 12 ≤ (frame.bytes message).length := by
    rw [Frame.bytes, length_append, frame.length_head]
    exact Nat.le_add_right 12 _
  have performed : perform State.step Anyhow ({} : State Unit)
      [.send () message, .write () 12, .recv 12, .client, .client, .client] =
      some {
        lock := some ((), (frame.bytes message).drop 12), mLastClientHeader := message.header, sent := [message]
        delivered := [⟨message.cmdID, message.subID, 0, []⟩] } := by
    have all : message.header.toBytes.take 12 = message.header.toBytes := take_of_length_le (length_toBytes message.header).le
    have cmdID : message.header.cmdID = message.cmdID := rfl
    have userID : message.header.userID = message.subID := rfl
    simp [perform, State.step, taken, enough, State.recv, State.clientStep, State.deliver, State.grown,
      ClientCmdHeader.size, ofBytes_toBytes, zero, all, cmdID, userID]
  refine ⟨_, run_of_perform performed, rfl, rfl, fun right => ?_⟩
  obtain ⟨more, eq⟩ := right.inOrder
  have data := congrArg Delivery.data (cons.inj eq).1
  exact ne data.symm

def longMessage : Message := ⟨4, 1, .replicate (2 ^ 32) 0⟩

theorem long_message_lost : ∃ s, Run State.step Anyhow ({} : State Unit)
        [.send () longMessage, .write () 12, .recv 12, .client, .client, .client] s ∧
      s.sent = [longMessage] ∧ s.delivered = [⟨4, 1, 0, []⟩] ∧ ¬s.Right := by
  refine lost_of_header ?_ ?_
  · show UInt32.ofNat (List.replicate (2 ^ 32) _).length = 0
    rw [length_replicate]
    rfl
  · show List.replicate (2 ^ 32) _ ≠ []
    decide

end RenderScript.Messages
