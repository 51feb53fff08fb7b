import Mathlib

/-!
# Generated commands

An entry of rs.spec as spec.l stores it, and the functions that rsg_generator.c prints
for it: the sender of the local fifo and the playback function. A printed function is the
list of its statements.
-/

namespace RenderScript.Commands

inductive BaseType where
  | void
  | int (bits : Nat)
  | uint (bits : Nat)
  | float (bits : Nat)
  | named (typeName : String)

structure VarType where
  isConst : Bool := false
  type : BaseType := .void
  ptrLevel : Nat := 0
  name : String := ""

def VarType.hasTypeName (vt : VarType) : Bool :=
  match vt.type with
  | .named _ => true
  | _ => false

structure ApiEntry where
  name : String
  sync : Bool := false
  handcodeApi : Bool := false
  direct : Bool := false
  nocontext : Bool := false
  ret : VarType := {}
  params : List VarType := []

def checkPointerType (baseType : VarType) : List VarType :=
  (List.range baseType.ptrLevel).map fun curPtrLevel =>
    { isConst := decide (curPtrLevel > 0), type := .named "size_t", ptrLevel := curPtrLevel
      name :=
        match baseType.ptrLevel - curPtrLevel with
        | 1 => baseType.name ++ "_length"
        | 2 => baseType.name ++ "_length_length"
        | _ => "" }

def ApiEntry.param (api : ApiEntry) (vt : VarType) : ApiEntry :=
  { api with params := api.params ++ vt :: checkPointerType vt }

def ApiEntry.declare (api : ApiEntry) (declared : List VarType) : ApiEntry :=
  declared.foldl ApiEntry.param { api with params := [] }

/-- The loop of `hasInlineDataPointers`. -/
def inlineDataPointers : List VarType → Bool → Bool
  | [], ret => ret
  | vt :: rest, ret =>
    -- pointers that are not const cannot be inlined
    if !vt.isConst && vt.ptrLevel != 0 then false
    else if vt.ptrLevel > 1 then false
    else inlineDataPointers rest (ret || (vt.isConst && vt.ptrLevel != 0))

def hasInlineDataPointers (api : ApiEntry) : Bool :=
  if api.sync || api.ret.hasTypeName then false else inlineDataPointers api.params false

inductive SendStmt where
  -- size_t dataSize = 0;
  | dataSizeZero
  -- dataSize += p_length;
  | dataSizeAdd (length : String)
  -- cmd = coreHeader(id, dataSize < max ? dataSize + size : size); payload = &cmd[1];
  | coreHeaderInline (cmdID : Nat)
  -- cmd = coreHeader(id, size);
  | coreHeader (cmdID : Nat)
  -- memcpy(payload, p, p_length); cmd->p = payload - &cmd[1]; payload += p_length; or cmd->p = p;
  | copyOrStore (name length : String)
  -- cmd->p = p;
  | store (name : String)
  | coreCommit
  -- if (dataSize >= max) coreGetReturn(NULL, 0);
  | getReturnIfLarge
  -- coreGetReturn(&ret, sizeof(ret));
  | getReturn (ret : VarType)
  -- coreGetReturn(NULL, 0);
  | getReturnNull

def needFlush (api : ApiEntry) : Nat :=
  if api.ret.hasTypeName || api.sync then 1 else (api.params.map (·.ptrLevel)).sum

def printArgument (inlined : Bool) (vt : VarType) : SendStmt :=
  if vt.ptrLevel != 0 && inlined then .copyOrStore vt.name (vt.name ++ "_length") else .store vt.name

def printApiCpp (cmdID : Nat) (api : ApiEntry) : List SendStmt :=
  let inlined := hasInlineDataPointers api
  (if inlined then
      .dataSizeZero :: (api.params.filter fun vt => vt.isConst && vt.ptrLevel != 0).map fun vt =>
        .dataSizeAdd (vt.name ++ "_length")
    else []) ++
    (if inlined then .coreHeaderInline cmdID else .coreHeader cmdID) ::
    api.params.map (printArgument inlined) ++
    .coreCommit ::
    (if inlined then [.getReturnIfLarge]
      else if api.ret.hasTypeName then [.getReturn api.ret]
      else if needFlush api != 0 then [.getReturnNull]
      else [])

/-- Arguments of the call of `rsi_`. -/
inductive PlayArg where
  -- cmd->p
  | field (name : String)
  -- &baseData[(intptr_t)cmd->p]
  | based (name : String)

inductive PlayStmt where
  -- baseData = cmdSizeBytes != sizeof(*cmd) ? &vp[sizeof(*cmd)] : 0;
  | baseData
  | call (args : List PlayArg)
  -- size_t totalSize = 0;
  | totalSizeZero
  -- totalSize += cmd->p_length;
  | totalSizeAdd (length : String)
  -- if (totalSize != 0 && cmdSizeBytes == sizeof(*cmd)) coreSetReturn(NULL, 0);
  | setReturnIfLarge
  -- coreSetReturn(&ret, sizeof(ret));
  | setReturn (ret : VarType)
  -- coreSetReturn(NULL, 0);
  | setReturnNull

def printPlayArg (inlined : Bool) (vt : VarType) : PlayArg :=
  if inlined && vt.ptrLevel != 0 then .based vt.name else .field vt.name

def printPlaybackCpp (api : ApiEntry) : List PlayStmt :=
  let inlined := hasInlineDataPointers api
  let needFlush := (api.params.map (·.ptrLevel)).sum
  (if inlined then [.baseData] else []) ++
    .call (api.params.map (printPlayArg inlined)) ::
    (if inlined then
        .totalSizeZero :: (api.params.filter fun vt => vt.ptrLevel != 0).map (fun vt =>
          .totalSizeAdd (vt.name ++ "_length")) ++ [.setReturnIfLarge]
      else if api.ret.hasTypeName then [.setReturn api.ret]
      else if api.sync || needFlush != 0 then [.setReturnNull]
      else [])

end RenderScript.Commands
