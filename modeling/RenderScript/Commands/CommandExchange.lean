import RenderScript.Commands.ApiGenerator
import RenderScript.Foundation.AlignedBytes
import RenderScript.Foundation.ByteMemory

/-!
# Commands through the local fifo

What the statements of generated functions do with `ThreadIO` of rsThreadIO.cpp: the client
fills `mSendBuffer` and sends it, the core reads it into its own buffer and plays it. Words
have 64 bits, and a statement that leaves a buffer has no value.
-/

namespace RenderScript.Commands
open AlignedBytes ByteMemory

section

/-! The sizes of the named types. -/
variable (sizeof : String → Nat)

def VarType.size (vt : VarType) : Nat :=
  if vt.ptrLevel != 0 then 8
  else
    match vt.type with
    | .void => 0
    | .int bits | .uint bits | .float bits => bits / 8
    | .named typeName => sizeof typeName

/-- The fields of `RS_CMD`, each aligned to its size. -/
def fieldsFrom : Nat → List VarType → List (String × Region)
  | _, [] => []
  | position, vt :: rest =>
    let start := alignUp (vt.size sizeof) position
    (vt.name, ⟨start, vt.size sizeof⟩) :: fieldsFrom (start + vt.size sizeof) rest

def fieldsEnd : Nat → List VarType → Nat
  | position, [] => position
  | position, vt :: rest => fieldsEnd (alignUp (vt.size sizeof) position + vt.size sizeof) rest

def ApiEntry.field (api : ApiEntry) (name : String) : Option Region :=
  (fieldsFrom sizeof 0 api.params).lookup name

/-- `sizeof(RS_CMD)`; a structure without fields has size 1. -/
def ApiEntry.cmdSize (api : ApiEntry) : Nat :=
  max 1 (alignUp ((api.params.map (VarType.size sizeof)).foldr max 1) (fieldsEnd sizeof 0 api.params))

end

def mMaxInlineSize : Nat := 1024

/-- The size of `mSendBuffer` and of the buffer in `playCoreCommands`. -/
def bufferSize : Nat := 2 * 1024

/-- `sizeof(CoreCmdHeader)`. -/
def headerSize : Nat := 8

def put (memory : Memory) (start : Nat) (bytes : List UInt8) : Memory :=
  write memory ⟨start, bytes.length⟩ fun offset => bytes.getD offset 0

/-- The arguments of a call by their names, a pointer by its address, and what is at addresses. -/
structure Client where
  memory : Memory
  arg : String → Nat

/-- Locals of a sender. `sent` went to the socket, and `waits` has the sizes of the returns that
the sender waited for. -/
structure Sending where
  mSendBuffer : Memory
  mSendLen : Nat := 0
  dataSize : Nat := 0
  payload : Nat := 0
  sent : List UInt8 := []
  waits : List Nat := []

namespace Sending

def put (s : Sending) (start : Nat) (bytes : List UInt8) : Option Sending :=
  if start + bytes.length ≤ bufferSize then
    some { s with mSendBuffer := Commands.put s.mSendBuffer start bytes }
  else none

def coreHeader (s : Sending) (cmdID dataLen : Nat) : Option Sending := do
  let s ← s.put 4 (encode 4 dataLen)
  let s ← s.put 0 (encode 4 cmdID)
  return { s with mSendLen := (dataLen + headerSize) % 2 ^ 64 }

def coreCommit (s : Sending) : Option Sending :=
  if s.mSendLen ≤ bufferSize then
    some { s with sent := s.sent ++ read s.mSendBuffer ⟨0, s.mSendLen⟩ }
  else none

def coreGetReturn (s : Sending) (data : Option Nat) : Sending :=
  { s with waits := s.waits ++ [data.getD 4] }

/-- `cmd->name = value`. -/
def storeField (sizeof : String → Nat) (api : ApiEntry) (s : Sending) (name : String) (value : Nat) :
    Option Sending := do
  let region ← api.field sizeof name
  s.put (headerSize + region.start) (encode region.length value)

end Sending

def SendStmt.exec (sizeof : String → Nat) (api : ApiEntry) (client : Client) (s : Sending) :
    SendStmt → Option Sending
  | .dataSizeZero => some { s with dataSize := 0 }
  | .dataSizeAdd length => some { s with dataSize := (s.dataSize + client.arg length) % 2 ^ 64 }
  | .coreHeaderInline cmdID => do
      let s ←
        if s.dataSize < mMaxInlineSize then s.coreHeader cmdID (s.dataSize + api.cmdSize sizeof)
        else s.coreHeader cmdID (api.cmdSize sizeof)
      return { s with payload := headerSize + api.cmdSize sizeof }
  | .coreHeader cmdID => s.coreHeader cmdID (api.cmdSize sizeof)
  | .copyOrStore name length =>
    if s.dataSize < mMaxInlineSize then do
      let s ← s.put s.payload (read client.memory ⟨client.arg name, client.arg length⟩)
      let s ← s.storeField sizeof api name (s.payload - (headerSize + api.cmdSize sizeof))
      return { s with payload := s.payload + client.arg length }
    else s.storeField sizeof api name (client.arg name)
  | .store name => s.storeField sizeof api name (client.arg name)
  | .coreCommit => s.coreCommit
  | .getReturnIfLarge => some (if s.dataSize ≥ mMaxInlineSize then s.coreGetReturn none else s)
  | .getReturn ret => some (s.coreGetReturn (some (ret.size sizeof)))
  | .getReturnNull => some (s.coreGetReturn none)

/-- `RS_CMD_ID` of an entry. -/
def cmdID (index : Nat) : Nat := index + 1

def send (sizeof : String → Nat) (index : Nat) (api : ApiEntry) (client : Client) (mSendBuffer : Memory) :
    Option Sending :=
  (printApiCpp (cmdID index) api).foldlM (SendStmt.exec sizeof api client) { mSendBuffer := mSendBuffer }

/-- What `rsi_` gets for a parameter: a value, which is an address for a pointer, or a pointer
into the buffer of the core. -/
inductive Received where
  | word (value : Nat)
  | inBuffer (position : Nat)
  deriving DecidableEq

/-- What a playback function does: a call of `rsi_` and a return of some bytes. -/
inductive Done where
  | call (args : List Received)
  | coreSetReturn (dataLen : Nat)
  deriving DecidableEq

structure Playing where
  buf : Memory
  cmdSizeBytes : Nat
  baseData : Option Nat := none
  totalSize : Nat := 0
  done : List Done := []

/-- `cmd->name`. -/
def Playing.field (sizeof : String → Nat) (api : ApiEntry) (s : Playing) (name : String) : Option Nat := do
  let region ← api.field sizeof name
  return decode (read s.buf ⟨headerSize + region.start, region.length⟩)

def PlayArg.eval (sizeof : String → Nat) (api : ApiEntry) (s : Playing) : PlayArg → Option Received
  | .field name => do
      let value ← s.field sizeof api name
      return .word value
  | .based name => do
      let value ← s.field sizeof api name
      return match s.baseData with
        | none => .word value
        | some base => .inBuffer (base + value)

def Playing.coreSetReturn (s : Playing) (data : Option Nat) : Playing :=
  { s with done := s.done ++ [.coreSetReturn (data.getD 4)] }

def PlayStmt.exec (sizeof : String → Nat) (api : ApiEntry) (s : Playing) : PlayStmt → Option Playing
  | .baseData =>
    some { s with
      baseData :=
        if s.cmdSizeBytes ≠ api.cmdSize sizeof then some (headerSize + api.cmdSize sizeof) else none }
  | .call args => do
      let received ← args.mapM (PlayArg.eval sizeof api s)
      return { s with done := s.done ++ [.call received] }
  | .totalSizeZero => some { s with totalSize := 0 }
  | .totalSizeAdd length => do
      let value ← s.field sizeof api length
      return { s with totalSize := (s.totalSize + value) % 2 ^ 64 }
  | .setReturnIfLarge =>
    some (if s.totalSize ≠ 0 ∧ s.cmdSizeBytes = api.cmdSize sizeof then s.coreSetReturn none else s)
  | .setReturn ret => some (s.coreSetReturn (some (ret.size sizeof)))
  | .setReturnNull => some (s.coreSetReturn none)

/-- The functions that `gPlaybackFuncs` points to. -/
def gPlaybackFuncs (apis : List ApiEntry) : List (Option ApiEntry) :=
  none :: apis.map fun api => if api.direct then none else some api

/-- One command of `playCoreCommands`, and what is left of the stream. -/
def playCoreCommand (sizeof : String → Nat) (apis : List ApiEntry) (buf : Memory) (stream : List UInt8) :
    Option (Playing × List UInt8) := do
  let cmdID := decode (stream.take 4)
  let bytes := decode ((stream.drop 4).take 4)
  if headerSize + bytes ≤ bufferSize ∧ headerSize + bytes ≤ stream.length then
    let api ← ((gPlaybackFuncs apis)[cmdID]?).join
    let playing ← (printPlaybackCpp api).foldlM (PlayStmt.exec sizeof api)
      { buf := put buf 0 (stream.take (headerSize + bytes)), cmdSizeBytes := bytes }
    return (playing, stream.drop (headerSize + bytes))
  else none

end RenderScript.Commands
