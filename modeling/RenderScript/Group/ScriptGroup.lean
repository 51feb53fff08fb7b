import RenderScript.Foundation.Precedence

/-!
# Script groups

`ScriptGroup` of rsScriptGroup.cpp: the nodes built from kernels and links, the
order given to them by `calcOrder`, and the launches made by `execute`. Scripts,
kernel ids and allocations are pointers in the source and identifiers here.
-/

namespace RenderScript.Group
open Precedence

abbrev Script := Nat

abbrev Allocation := Nat

/-- `address` is the identity that pointer comparisons see. -/
structure ScriptKernelID where
  address : Nat
  mScript : Script
  mSlot : Nat
  mHasKernelInput : Bool
  mHasKernelOutput : Bool
  deriving DecidableEq

structure ScriptFieldID where
  address : Nat
  mScript : Script
  mSlot : Nat
  deriving DecidableEq

structure Link where
  mSource : ScriptKernelID
  mDstKernel : Option ScriptKernelID
  mDstField : Option ScriptFieldID
  mAlloc : Option Allocation
  oneTarget : mDstField.isSome = !mDstKernel.isSome
  deriving DecidableEq

structure Node where
  mScript : Script
  mKernels : List ScriptKernelID
  mOutputs : List Link := []
  mInputs : List Link := []
  mOrder : Nat := 0
  deriving DecidableEq

structure GroupIo where
  mKernel : ScriptKernelID
  mAlloc : Option Allocation
  deriving DecidableEq

def findNode (mNodes : List Node) (s : Script) : Option Nat :=
  mNodes.findIdx? fun n => n.mKernels.any (·.mScript == s)

def addKernel (mNodes : List Node) (k : ScriptKernelID) : List Node :=
  match findNode mNodes k.mScript with
  | none => mNodes ++ [{ mScript := k.mScript, mKernels := [k] }]
  | some n => mNodes.modify n fun node => { node with mKernels := node.mKernels ++ [k] }

def Link.inputScript (l : Link) : Option Script :=
  match l.mDstKernel with
  | some k => some k.mScript
  | none => l.mDstField.map (·.mScript)

/-- The script that receives a link, as `calcOrderRecurse` finds it. -/
def Link.orderScript (l : Link) : Option Script :=
  match l.mDstField with
  | some f => some f.mScript
  | none => l.mDstKernel.map (·.mScript)

def addLink (mNodes : List Node) (l : Link) : Option (List Node) := do
  let source ← findNode mNodes l.mSource.mScript
  let mNodes := mNodes.modify source fun n => { n with mOutputs := n.mOutputs ++ [l] }
  let target ← findNode mNodes (← l.inputScript)
  return mNodes.modify target fun n => { n with mInputs := n.mInputs ++ [l] }

structure Marks where
  mSeen : Nat → Bool
  mOrder : Nat → Nat

def Marks.unseen (marks : Marks) : Marks := { marks with mSeen := fun _ => false }

def Marks.enter (marks : Marks) (n depth : Nat) : Marks where
  mSeen := Function.update marks.mSeen n true
  mOrder := if marks.mOrder n < depth then Function.update marks.mOrder n depth else marks.mOrder

/-- The loop over the outputs of node `n`. -/
def visitOutputs (mNodes : List Node) (recurse : Marks → Nat → Nat → Option (Marks × Bool))
    (n : Nat) : List Link → Marks → Bool → Option (Marks × Bool)
  | [], marks, ret => some (marks, ret)
  | l :: rest, marks, ret => do
      let nt ← findNode mNodes (← l.orderScript)
      if marks.mSeen nt then
        return (marks, false)
      let (marks, answer) ← recurse marks nt (marks.mOrder n + 1)
      visitOutputs mNodes recurse n rest marks (ret && answer)

/-- The recursion enters unseen nodes only, so the number of nodes bounds `fuel`. -/
def calcOrderRecurse (mNodes : List Node) : Nat → Marks → Nat → Nat → Option (Marks × Bool)
  | 0, _, _, _ => none
  | fuel + 1, marks, n, depth => do
      let node ← mNodes[n]?
      visitOutputs mNodes (calcOrderRecurse mNodes fuel) n node.mOutputs (marks.enter n depth) true

def orderNodes (mNodes : List Node) : List Nat → Marks → Bool → Option (Marks × Bool)
  | [], marks, ret => some (marks, ret)
  | n :: rest, marks, ret => do
      let node ← mNodes[n]?
      if node.mInputs.length = 0 then
        let (marks, answer) ← calcOrderRecurse mNodes mNodes.length marks.unseen n 0
        orderNodes mNodes rest marks (ret && answer)
      else
        orderNodes mNodes rest marks ret

def CompareNodeForSort (lhs rhs : Node) : Int := if lhs.mOrder > rhs.mOrder then 1 else 0

def NodeCompare (lhs rhs : Node) : Bool := if lhs.mOrder > rhs.mOrder then true else false

/-- What `calcOrder` leaves behind before it sorts: the nodes, the kernels that
take part in no link on a side, and the value it returns. -/
structure Calculated where
  mNodes : List Node
  mInputs : List GroupIo
  mOutputs : List GroupIo
  ret : Bool

def isUnlinked (mNodes : List Node) (k : ScriptKernelID) (links : Node → List Link)
    (touches : Link → Bool) : Bool :=
  ((findNode mNodes k.mScript).bind (mNodes[·]?)).any fun n => !(links n).any touches

def groupIos (mKernels : List ScriptKernelID) (wanted : ScriptKernelID → Bool) : List GroupIo :=
  (mKernels.filter wanted).map fun k => { mKernel := k, mAlloc := none }

def calcOrder (mKernels : List ScriptKernelID) (mLinks : List Link) : Option Calculated := do
  let mNodes := mKernels.foldl addKernel []
  let mNodes ← mLinks.foldlM addLink mNodes
  let marks : Marks := { mSeen := fun _ => false, mOrder := fun n => (mNodes[n]?.elim 0 (·.mOrder)) }
  let (marks, ret) ← orderNodes mNodes (List.range mNodes.length) marks true
  let mNodes := mNodes.mapIdx fun n node => { node with mOrder := marks.mOrder n }
  return {
    mNodes := mNodes
    mOutputs := groupIos mKernels fun k =>
      k.mHasKernelOutput && isUnlinked mNodes k Node.mOutputs (·.mSource == k)
    mInputs := groupIos mKernels fun k =>
      k.mHasKernelInput && isUnlinked mNodes k Node.mInputs (·.mDstKernel == some k)
    ret := ret }

/-- `Vector::sort` with `CompareNodeForSort`. -/
def SortedByCompareNodeForSort (mNodes sorted : List Node) : Prop :=
  Arranges (fun earlier later => CompareNodeForSort earlier later > 0) mNodes sorted

/-- `std::sort` with `NodeCompare`. -/
def SortedByNodeCompare (mNodes sorted : List Node) : Prop :=
  Arranges (fun earlier later => NodeCompare later earlier) mNodes sorted

/-- The arguments of one `runForEach`. -/
structure ForEachRun where
  kernel : ScriptKernelID
  ain : Option Allocation
  aout : Option Allocation

/-- Later matches overwrite earlier ones, and those of the group those of the links. -/
def lastAllocation (found : List (Option Allocation)) (previous : Option Allocation) :
    Option Allocation :=
  found.foldl (fun _ next => next) previous

def executeKernel (mInputs mOutputs : List GroupIo) (n : Node) (k : ScriptKernelID) :
    ForEachRun where
  kernel := k
  ain := lastAllocation ((mInputs.filter (·.mKernel == k)).map (·.mAlloc))
    (lastAllocation ((n.mInputs.filter (·.mDstKernel == some k)).map (·.mAlloc)) none)
  aout := lastAllocation ((mOutputs.filter (·.mKernel == k)).map (·.mAlloc))
    (lastAllocation ((n.mOutputs.filter (·.mSource == k)).map (·.mAlloc)) none)

/-- The launches of `execute`, in order, without a driver of its own. -/
def execute (mNodes : List Node) (mInputs mOutputs : List GroupIo) : List ForEachRun :=
  mNodes.flatMap fun n => n.mKernels.map (executeKernel mInputs mOutputs n)

end RenderScript.Group
