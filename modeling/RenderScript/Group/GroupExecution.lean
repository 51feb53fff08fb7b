import RenderScript.Group.FusedRun

/-!
# Execution of a script group

A group that is ready to run hands `execute` a list of kernels in which every
linked allocation is written before it is read. Where the fused launch is safe,
both ways to execute the group leave the same external outputs.
-/

namespace RenderScript.Group
open RenderScript.Cpu ByteMemory TicketPool List

variable {transfer : Transfer} {n : Node} {a : Allocation} {k : ScriptKernelID}

def Node.links (n : Node) : List Link := n.mInputs ++ n.mOutputs

def Linked (mNodes : List Node) (a : Allocation) : Prop :=
  ∃ n ∈ mNodes, ∃ l ∈ n.links, l.mAlloc = some a

def hasLinks (mNodes : List Node) : Bool := mNodes.any fun n => !n.links.isEmpty

/-- A group joined by kernel links only, in producer before consumer order. All
links have the allocation that `create` gave them, one for each source kernel, and
all inputs and outputs of the group have been set to other allocations. -/
structure Ready (mNodes : List Node) (mInputs mOutputs : List GroupIo) : Prop where
  kernelLinks : ∀ n ∈ mNodes, ∀ l ∈ n.links, l.mDstKernel.isSome
  order : ∀ front n back, mNodes = front ++ n :: back → ∀ l ∈ n.mInputs,
    ∃ producer ∈ front, l.mSource ∈ producer.mKernels ∧ l ∈ producer.mOutputs
  allocated : ∀ n ∈ mNodes, ∀ l ∈ n.links, ∃ a, l.mAlloc = some a
  shared : ∀ n ∈ mNodes, ∀ l ∈ n.mOutputs, ∀ l' ∈ n.mOutputs, l.mSource = l'.mSource →
    l.mAlloc = l'.mAlloc
  set : ∀ io ∈ mInputs ++ mOutputs, ∃ a, io.mAlloc = some a ∧ ¬ Linked mNodes a
  inputs : ∀ n ∈ mNodes, ∀ k ∈ n.mKernels, k.mHasKernelInput =
    (n.mInputs.any (·.mDstKernel == some k) || mInputs.any (·.mKernel == k))
  outputs : ∀ n ∈ mNodes, ∀ k ∈ n.mKernels, k.mHasKernelOutput =
    (n.mOutputs.any (·.mSource == k) || mOutputs.any (·.mKernel == k))
  unlinked : ∀ n ∈ mNodes, ∀ l ∈ n.mOutputs, ∀ io ∈ mOutputs, io.mKernel ≠ l.mSource
  cells : ∀ n ∈ mNodes, ∀ k ∈ n.mKernels, (k.mHasKernelInput || k.mHasKernelOutput) = true

section

variable {e : ScriptEntry} {mNodes : List Node} {mInputs mOutputs ios : List GroupIo}

theorem lastAllocation_append_singleton (found : List (Option Allocation))
    (last previous : Option Allocation) : lastAllocation (found ++ [last]) previous = last := by
  simp [lastAllocation]

theorem lastAllocation_cases {α : Type} (items : List α) (wanted : α → Bool)
    (alloc : α → Option Allocation) (previous : Option Allocation) :
    (items.any wanted = false ∧ lastAllocation ((items.filter wanted).map alloc) previous = previous) ∨
      items.any wanted = true ∧ ∃ item ∈ items, wanted item = true ∧
        lastAllocation ((items.filter wanted).map alloc) previous = alloc item := by
  rcases eq_nil_or_concat (items.filter wanted) with none | ⟨front, item, split⟩
  · refine .inl ⟨?_, by rw [none]; rfl⟩
    rw [any_eq_false]
    exact filter_eq_nil_iff.mp none
  · have kept : item ∈ items.filter wanted := by simp [split]
    obtain ⟨mem, matched⟩ := mem_filter.mp kept
    refine .inr ⟨any_eq_true.mpr ⟨item, mem, matched⟩, item, mem, matched, ?_⟩
    simp [split, lastAllocation_append_singleton]

/-- What `execute` finds for one side of a kernel, by the flag of that side. -/
def Found (mNodes : List Node) (flag isIo : Bool) (linked : Link → Prop)
    (found : Option Allocation) : Prop :=
  (flag = false ∧ found = none) ∨
    (flag = true ∧ ∃ a, found = some a ∧ ((isIo = true ∧ ¬ Linked mNodes a) ∨ isIo = false ∧ ∃ l, linked l ∧ l.mAlloc = some a))

theorem Found.linked_iff {flag isIo : Bool} {linked : Link → Prop} {found : Option Allocation}
    (cases : Found mNodes flag isIo linked found) (mem : n ∈ mNodes)
    (inNode : ∀ l, linked l → l ∈ n.links) (isFound : found = some a) :
    isIo = false ↔ Linked mNodes a := by
  rcases cases with ⟨-, none⟩ | ⟨-, b, some, source⟩
  · exact absurd (none.symm.trans isFound) (by simp)
  · obtain rfl : b = a := Option.some.inj (some.symm.trans isFound)
    rcases source with ⟨isIo, free⟩ | ⟨noIo, l, isLinked, allocated⟩
    · simp [isIo, free]
    · simp only [noIo, true_iff]
      exact ⟨n, mem, l, inNode l isLinked, allocated⟩

variable (ready : Ready mNodes mInputs mOutputs)

include ready

theorem Ready.found (mem : n ∈ mNodes) {links : List Link} (inNode : links ⊆ n.links)
    (inGroup : ios ⊆ mInputs ++ mOutputs) {wanted : Link → Bool} {flag : Bool}
    (flagEq : flag = (links.any wanted || ios.any (·.mKernel == k))) :
    Found mNodes flag (ios.any (·.mKernel == k)) (fun l => l ∈ links ∧ wanted l = true)
      (lastAllocation ((ios.filter (·.mKernel == k)).map (·.mAlloc))
        (lastAllocation ((links.filter wanted).map (·.mAlloc)) none)) := by
  rcases lastAllocation_cases ios (·.mKernel == k) (·.mAlloc) (lastAllocation ((links.filter wanted).map (·.mAlloc)) none) with
    ⟨noIo, result⟩ | ⟨isIo, io, inIos, -, result⟩
  · rw [noIo, Bool.or_false] at flagEq
    rw [noIo, result]
    rcases lastAllocation_cases links wanted (·.mAlloc) none with
      ⟨noLink, linkResult⟩ | ⟨isLink, l, inLinks, matched, linkResult⟩
    · exact .inl ⟨flagEq.trans noLink, linkResult⟩
    · obtain ⟨a, allocated⟩ := ready.allocated n mem l (inNode inLinks)
      exact .inr ⟨flagEq.trans isLink, a, linkResult.trans allocated, .inr ⟨rfl, l, ⟨inLinks, matched⟩, allocated⟩⟩
  · rw [isIo, Bool.or_true] at flagEq
    rw [isIo, result]
    obtain ⟨a, allocated, free⟩ := ready.set io (inGroup inIos)
    exact .inr ⟨flagEq, a, allocated, .inl ⟨rfl, free⟩⟩

theorem Ready.ain_cases (mem : n ∈ mNodes) (inNode : k ∈ n.mKernels) :
    Found mNodes k.mHasKernelInput (mInputs.any (·.mKernel == k)) (fun l => l ∈ n.mInputs ∧ (l.mDstKernel == some k) = true)
      (executeKernel mInputs mOutputs n k).ain :=
  ready.found mem (subset_append_left _ _) (subset_append_left _ _) (ready.inputs n mem k inNode)

theorem Ready.aout_cases (mem : n ∈ mNodes) (inNode : k ∈ n.mKernels) :
    Found mNodes k.mHasKernelOutput (mOutputs.any (·.mKernel == k)) (fun l => l ∈ n.mOutputs ∧ (l.mSource == k) = true)
      (executeKernel mInputs mOutputs n k).aout :=
  ready.found mem (subset_append_right _ _) (subset_append_right _ _) (ready.outputs n mem k inNode)

def entryOf (mInputs mOutputs : List GroupIo) (n : Node) (k : ScriptKernelID) : ScriptEntry where
  kernel := k
  ain := (executeKernel mInputs mOutputs n k).ain
  inExt := mInputs.any (·.mKernel == k)
  aout := (executeKernel mInputs mOutputs n k).aout
  outExt := mOutputs.any (·.mKernel == k)

theorem Ready.collectKernel_eq (mem : n ∈ mNodes) (inNode : k ∈ n.mKernels) :
    collectKernel mInputs mOutputs n k = some (entryOf mInputs mOutputs n k) := by
  have output : (k.mHasKernelOutput == (executeKernel mInputs mOutputs n k).aout.isSome) = true := by
    rcases ready.aout_cases mem inNode with ⟨no, none⟩ | ⟨yes, a, found, -⟩
    · rw [no, none]
      rfl
    · rw [yes, found]
      rfl
  have input : (k.mHasKernelInput == (executeKernel mInputs mOutputs n k).ain.isSome) = true := by
    rcases ready.ain_cases mem inNode with ⟨no, none⟩ | ⟨yes, a, found, -⟩
    · rw [no, none]
      rfl
    · rw [yes, found]
      rfl
  rw [collectKernel, output, input]
  rfl

theorem Ready.collect_eq : collect mNodes mInputs mOutputs =
      mNodes.flatMap fun n => n.mKernels.map (entryOf mInputs mOutputs n) := by
  refine flatMap_congr fun n mem => ?_
  rw [← filterMap_eq_map]
  exact filterMap_congr fun k inNode => ready.collectKernel_eq mem inNode

theorem Ready.mem_collect :
    e ∈ collect mNodes mInputs mOutputs ↔ ∃ n ∈ mNodes, ∃ k ∈ n.mKernels, entryOf mInputs mOutputs n k = e := by
  rw [ready.collect_eq]
  simp

omit ready in
private theorem flatMap_split {α β : Type} {f : α → List β} {items : List α} {before after : List β}
    {item : β} (split : items.flatMap f = before ++ item :: after) :
    ∃ front origin back, items = front ++ origin :: back ∧ item ∈ f origin ∧ front.flatMap f ⊆ before := by
  induction items generalizing before with
  | nil => simp at split
  | cons head rest ih =>
    rw [flatMap_cons] at split
    rcases append_eq_append_iff.mp split with ⟨more, beforeEq, restEq⟩ | ⟨more, headEq, tail⟩
    · obtain ⟨front, origin, back, rfl, inside, kept⟩ := ih restEq
      refine ⟨head :: front, origin, back, rfl, inside, ?_⟩
      rw [beforeEq, flatMap_cons]
      exact append_subset.mpr ⟨subset_append_left _ _, List.Subset.trans kept (subset_append_right _ _)⟩
    · cases more with
      | nil =>
        obtain ⟨front, origin, back, rfl, inside, kept⟩ := @ih [] (by simpa using tail.symm)
        refine ⟨head :: front, origin, back, rfl, inside, ?_⟩
        rw [append_nil] at headEq
        rw [flatMap_cons, headEq]
        exact append_subset.mpr ⟨List.Subset.refl _, fun x mem =>
          absurd (kept mem) not_mem_nil⟩
      | cons found others =>
        rw [cons_append, cons.injEq] at tail
        refine ⟨[], head, rest, rfl, ?_, by simp⟩
        rw [headEq, tail.1]
        simp

theorem Ready.aout_of_source (mem : n ∈ mNodes) {l : Link} (inLinks : l ∈ n.mOutputs) (inNode : l.mSource ∈ n.mKernels)
    (allocated : l.mAlloc = some a) :
    (entryOf mInputs mOutputs n l.mSource).aout = some a := by
  rcases ready.aout_cases mem inNode with ⟨no, -⟩ | ⟨-, b, found, source⟩
  · have linked : n.mOutputs.any (·.mSource == l.mSource) = true := any_eq_true.mpr ⟨l, inLinks, beq_self_eq_true _⟩
    rw [ready.outputs n mem _ inNode, linked, Bool.true_or] at no
    cases no
  · rcases source with ⟨isIo, -⟩ | ⟨-, other, ⟨otherInLinks, sameSource⟩, otherAllocated⟩
    · obtain ⟨io, inOutputs, matched⟩ := any_eq_true.mp isIo
      exact absurd (beq_iff_eq.mp matched) (ready.unlinked n mem l inLinks io inOutputs)
    · have eq := ready.shared n mem other otherInLinks l inLinks (beq_iff_eq.mp sameSource)
      rw [otherAllocated, allocated] at eq
      exact found.trans eq

theorem Ready.pipelined : Pipelined (Linked mNodes) (collect mNodes mInputs mOutputs) where
  input := by
    intro e collected a reads
    obtain ⟨n, mem, k, inNode, rfl⟩ := ready.mem_collect.mp collected
    exact (ready.ain_cases mem inNode).linked_iff mem (fun l here => mem_append_left _ here.1) reads
  output := by
    intro e collected a writes
    obtain ⟨n, mem, k, inNode, rfl⟩ := ready.mem_collect.mp collected
    exact (ready.aout_cases mem inNode).linked_iff mem (fun l here => mem_append_right _ here.1) writes
  produced := by
    intro before e after split a reads isLinked
    rw [ready.collect_eq] at split
    obtain ⟨front, n, back, nodes, fromNode, earlier⟩ := flatMap_split split
    obtain ⟨k, inNode, rfl⟩ := mem_map.mp fromNode
    have mem : n ∈ mNodes := by simp [nodes]
    rcases ready.ain_cases mem inNode with ⟨-, none⟩ | ⟨-, b, found, source⟩
    · exact absurd (none.symm.trans reads) (by simp)
    · obtain rfl : b = a := Option.some.inj (found.symm.trans reads)
      rcases source with ⟨-, free⟩ | ⟨-, l, ⟨inLinks, -⟩, allocated⟩
      · exact absurd isLinked free
      · obtain ⟨producer, inFront, produces, inOutputs⟩ := ready.order front n back nodes l inLinks
        have producerMember : producer ∈ mNodes := by
          rw [nodes]
          exact mem_append_left _ inFront
        refine ⟨entryOf mInputs mOutputs producer l.mSource, earlier ?_,
          ready.aout_of_source producerMember inOutputs produces allocated⟩
        exact mem_flatMap.mpr ⟨producer, inFront, mem_map_of_mem produces⟩

theorem Ready.exists_uses (collected : e ∈ collect mNodes mInputs mOutputs) : ∃ a, e.Uses a := by
  obtain ⟨n, mem, k, inNode, rfl⟩ := ready.mem_collect.mp collected
  rcases ready.ain_cases mem inNode with ⟨noInput, -⟩ | ⟨-, a, found, -⟩
  · rcases ready.aout_cases mem inNode with ⟨noOutput, -⟩ | ⟨-, b, found, -⟩
    · have some := ready.cells n mem k inNode
      rw [noInput, noOutput] at some
      cases some
    · exact ⟨b, .inr found⟩
  · exact ⟨a, .inl found⟩

omit ready

theorem Linked.hasLinks (linked : Linked mNodes a) : Group.hasLinks mNodes = true := by
  obtain ⟨n, mem, l, inLinks, -⟩ := linked
  refine any_eq_true.mpr ⟨n, mem, ?_⟩
  cases links : n.links with
  | nil =>
    rw [links] at inLinks
    cases inLinks
  | cons head tail => rfl

end

def UsedBy (sl : List ScriptEntry) (a : Allocation) : Prop := ∃ e ∈ sl, e.Uses a

/-- Where the fused launch is safe. Row offsets fit 32 bits, further planes are out
of reach of every launch, and the slices of every threaded launch cover their range.
If the fused launch itself is threaded, no two workers share a scratch row, and a
single row has a single cell. -/
structure FusionSafe (driver : Driver) (dimX dimY dimZ mCount : UInt32) (mInForEach : Bool)
    (anyLinks : Bool) (sl : List ScriptEntry) : Prop where
  nonempty : sl ≠ []
  rows : ∀ e ∈ sl, ∀ a, e.Uses a → RowsFit driver dimY a
  planes : ∀ e ∈ sl, dimZ ≤ 1 ∨ Threads driver e mCount mInForEach
  slices : ∀ e ∈ sl, Threads driver e mCount mInForEach →
    SlicesCover (wholeLaunch driver dimX dimY dimZ e) mCount
  scratch : ∀ first ∈ sl.head?, Threads driver first mCount mInForEach →
    ScratchRows dimX dimY mCount anyLinks

/-- Where the fused launch is safe, both ways to execute a group can run to their
end, and all their runs leave the same external outputs. -/
theorem fusedRun_agrees_fieldDepRun {driver : Driver} {dimX dimY dimZ mCount : UInt32}
    {mInForEach : Bool} {mNodes : List Node} {mInputs mOutputs : List GroupIo} (ready : Ready mNodes mInputs mOutputs)
    (layout : Layout driver dimX dimY dimZ (UsedBy (collect mNodes mInputs mOutputs)))
    (safe : FusionSafe driver dimX dimY dimZ mCount mInForEach (hasLinks mNodes) (collect mNodes mInputs mOutputs)) :
    (∃ trace, FusedRun driver (collect mNodes mInputs mOutputs) mCount mInForEach trace) ∧
      (∃ trace, FieldDepRun driver mCount mInForEach (collect mNodes mInputs mOutputs) trace) ∧
      ∀ fused separate, FusedRun driver (collect mNodes mInputs mOutputs) mCount mInForEach fused →
        FieldDepRun driver mCount mInForEach (collect mNodes mInputs mOutputs) separate →
        ∀ memory, ∀ e ∈ collect mNodes mInputs mOutputs, ∀ a, e.outExt = true → e.aout = some a →
          ∀ x, x < extent dimX → ∀ y, y < rowCount dimY dimZ → contents driver (performs Transfer.run fused memory) x y a =
              contents driver (performs Transfer.run separate memory) x y a := by
  obtain ⟨sl, slEq⟩ : ∃ sl, sl = collect mNodes mInputs mOutputs := ⟨_, rfl⟩
  have pipelined := ready.pipelined
  have some : ∀ e ∈ sl, ∃ a, e.Uses a := by
    intro e mem
    exact ready.exists_uses (slEq ▸ mem)
  rw [← slEq] at layout safe pipelined ⊢
  have uses : ∀ e ∈ sl, ∀ a, e.Uses a → UsedBy sl a := fun e mem a touches =>
    ⟨e, mem, touches⟩
  obtain ⟨first, rest, split⟩ := List.exists_cons_of_ne_nil safe.nonempty
  have firstMember : first ∈ sl := by simp [split]
  have launch := launchOf_eq layout (uses first firstMember) (some first firstMember)
  refine ⟨?_, ?_, ?_⟩
  · obtain ⟨trace, run⟩ := exists_launch (scriptGroupRoot driver sl) (safe.slices first firstMember)
    exact ⟨trace, first, rest, split, launch ▸ run⟩
  · exact exists_fieldDepRun layout (fun e mem => ⟨some e mem, uses e mem⟩) safe.slices
  · intro fused separate fusedRun separateRun memory e mem a external writes x col y row
    have isUsed : UsedBy sl a := ⟨e, mem, .inr writes⟩
    have free : ¬ Linked mNodes a := by
      intro isLinked
      have flag := (pipelined.output e mem a writes).mpr isLinked
      rw [external] at flag
      cases flag
    obtain ⟨head, tail, headSplit, run⟩ := fusedRun
    rw [split, List.cons.injEq] at headSplit
    obtain ⟨rfl, rfl⟩ := headSplit
    rw [launch] at run
    have unlinked : hasLinks mNodes = false → ∀ c, UsedBy sl c → ¬ Linked mNodes c := by
      intro none c _ isLinked
      rw [isLinked.hasLinks] at none
      cases none
    have byTurns := launch_byTurns layout uses pipelined (safe.planes first firstMember)
      (safe.slices first firstMember) unlinked (safe.scratch first (by simp [split])) run
    rw [byTurns.effect layout uses pipelined memory isUsed free col row, fieldDepRun_effect layout
        (fun e mem => ⟨some e mem, fun a touches =>
          ⟨uses e mem a touches, safe.rows e mem a touches⟩⟩)
        safe.planes safe.slices separateRun memory isUsed col row]

/-- Whichever way `execute` takes, it can run to its end, and every run leaves in each external
output what the kernels make of the cell in turn. -/
theorem executeRun_effect {driver : Driver} {dimX dimY dimZ mCount : UInt32} {mInForEach : Bool} {mNodes : List Node}
    {mInputs mOutputs : List GroupIo} (ready : Ready mNodes mInputs mOutputs)
    (layout : Layout driver dimX dimY dimZ (UsedBy (collect mNodes mInputs mOutputs)))
    (safe : FusionSafe driver dimX dimY dimZ mCount mInForEach (hasLinks mNodes) (collect mNodes mInputs mOutputs)) :
    (∃ trace, ExecuteRun driver mNodes mInputs mOutputs mCount mInForEach trace) ∧
      ∀ trace, ExecuteRun driver mNodes mInputs mOutputs mCount mInForEach trace → ∀ memory,
        ∀ e ∈ collect mNodes mInputs mOutputs, ∀ a, e.outExt = true → e.aout = some a →
          ∀ x < extent dimX, ∀ y < rowCount dimY dimZ, contents driver (performs Transfer.run trace memory) x y a =
            if y < extent dimY then pipeline driver (collect mNodes mInputs mOutputs) x y (contents driver memory x y) a
            else contents driver memory x y a := by
  have pipelined := ready.pipelined
  have some := fun e => @ready.exists_uses e
  unfold ExecuteRun
  generalize collect mNodes mInputs mOutputs = sl at *
  have uses : ∀ e ∈ sl, ∀ a, e.Uses a → UsedBy sl a := fun e mem a touches => ⟨e, mem, touches⟩
  split
  · refine ⟨exists_fieldDepRun layout (fun e mem => ⟨some e mem, uses e mem⟩) safe.slices, ?_⟩
    intro trace run memory e mem a _ writes x col y row
    exact fieldDepRun_effect layout
      (fun e mem => ⟨some e mem, fun a touches => ⟨uses e mem a touches, safe.rows e mem a touches⟩⟩)
      safe.planes safe.slices run memory ⟨e, mem, .inr writes⟩ col row
  · obtain ⟨first, rest, rfl⟩ := exists_cons_of_ne_nil safe.nonempty
    have slices := safe.slices first mem_cons_self
    have launch := launchOf_eq layout (uses first mem_cons_self) (some first mem_cons_self)
    constructor
    · obtain ⟨trace, run⟩ := exists_launch (scriptGroupRoot driver (first :: rest)) slices
      exact ⟨trace, first, rest, rfl, launch ▸ run⟩
    · rintro trace ⟨_, _, ⟨⟩, run⟩ memory e mem a external writes x col y row
      rw [launch] at run
      have free : ¬ Linked mNodes a := fun isLinked =>
        Bool.false_ne_true (((pipelined.output e mem a writes).mpr isLinked).symm.trans external)
      have unlinked (none : hasLinks mNodes = false) : ∀ c, UsedBy (first :: rest) c → ¬ Linked mNodes c :=
        fun c _ isLinked => Bool.false_ne_true (none.symm.trans isLinked.hasLinks)
      have byTurns := launch_byTurns layout uses pipelined (safe.planes first mem_cons_self) slices unlinked
        (safe.scratch first rfl) run
      exact byTurns.effect layout uses pipelined memory ⟨e, mem, .inr writes⟩ free col row

/-- Byte cells in rows of 16 bytes, one page for each allocation, and kernels that
copy their input. -/
private def copyDriver (dimX dimY : UInt32) : Driver where
  allocation a := { mallocPtr := 4096 * (a + 1), stride := 16, dimX := dimX, dimY := dimY, dimZ := 0, elementSizeBytes := 1 }
  mIsThreadable _ := true
  hasObjectSlots _ := false
  kernel _ _ _ bytes offset := bytes.getD offset 0

private def copyKernel (s : Script) : ScriptKernelID where
  address := s
  mScript := s
  mSlot := 0
  mHasKernelInput := true
  mHasKernelOutput := true

private theorem copyDriver_layout {dimX dimY : UInt32} (columns : extent dimX ≤ 16)
    (rows : rowCount dimY 0 ≤ 256) (used : Allocation → Prop) :
    Layout (copyDriver dimX dimY) dimX dimY 0 used where
  dims := fun _ _ => ⟨rfl, rfl, rfl⟩
  mapped := fun a _ => mul_ne_zero (by decide) (Nat.succ_ne_zero a)
  elements := fun _ _ => (by decide : 1 < 2 ^ 32)
  rows := fun _ _ => by simpa [copyDriver] using columns
  apart := by
    intro a _ b _ ne loc inside otherInside
    simp only [Region.Holds, storage, copyDriver] at inside otherInside
    rcases Nat.lt_or_gt_of_ne ne with lt | above
    · omega
    · omega

private def copyLink : Link where
  mSource := copyKernel 0
  mDstKernel := some (copyKernel 1)
  mDstField := none
  mAlloc := some 1
  oneTarget := rfl

private def pairNodes : List Node :=
  [{ mScript := 0, mKernels := [copyKernel 0], mOutputs := [copyLink] },
    { mScript := 1, mKernels := [copyKernel 1], mInputs := [copyLink] }]

private def pairInputs : List GroupIo := [{ mKernel := copyKernel 0, mAlloc := some 0 }]

private def pairOutputs : List GroupIo := [{ mKernel := copyKernel 1, mAlloc := some 2 }]

private theorem pair_ready : Ready pairNodes pairInputs pairOutputs where
  kernelLinks := by decide
  order := by
    intro front n back split l inLinks
    rcases front with _ | ⟨first, _ | ⟨second, others⟩⟩
    · simp only [pairNodes, List.nil_append, List.cons.injEq] at split
      rw [← split.1] at inLinks
      cases inLinks
    · simp only [pairNodes, List.cons_append, List.nil_append, List.cons.injEq] at split
      rw [← split.2.1, List.mem_singleton] at inLinks
      rw [← split.1, inLinks]
      simp [copyLink]
    · simp [pairNodes] at split
  allocated := by simp [pairNodes, Node.links, copyLink]
  shared := by decide
  set := by simp [pairInputs, pairOutputs, pairNodes, Linked, Node.links, copyLink]
  inputs := by decide
  outputs := by decide
  unlinked := by decide
  cells := by decide

/-- Two linked kernels over four cells in two rows, with one helper thread. -/
theorem fusedRun_agrees_pair :
    (∃ trace, FusedRun (copyDriver 2 2) (collect pairNodes pairInputs pairOutputs) 1 false trace) ∧ (∃ trace,
        FieldDepRun (copyDriver 2 2) 1 false (collect pairNodes pairInputs pairOutputs) trace) ∧
      ∀ fused separate, FusedRun (copyDriver 2 2) (collect pairNodes pairInputs pairOutputs) 1 false fused →
        FieldDepRun (copyDriver 2 2) 1 false (collect pairNodes pairInputs pairOutputs) separate →
        ∀ memory, ∀ e ∈ collect pairNodes pairInputs pairOutputs, ∀ a, e.outExt = true →
          e.aout = some a → ∀ x, x < extent 2 → ∀ y, y < rowCount 2 0 →
            contents (copyDriver 2 2) (performs Transfer.run fused memory) x y a =
              contents (copyDriver 2 2) (performs Transfer.run separate memory) x y a := by
  apply fusedRun_agrees_fieldDepRun pair_ready (copyDriver_layout (by decide) (by decide) _)
  have covers : ∀ e ∈ collect pairNodes pairInputs pairOutputs,
      SlicesCover (wholeLaunch (copyDriver 2 2) 2 2 0 e) 1 := by decide
  exact {
    nonempty := by decide
    rows := fun _ _ _ _ => (by decide : 16 * (extent 2 - 1) < 2 ^ 32)
    planes := fun _ _ => .inl (by decide)
    slices := fun e mem _ => covers e mem
    scratch := fun _ _ _ => by decide }

theorem executeRun_pair : ∃ trace, ExecuteRun (copyDriver 2 2) pairNodes pairInputs pairOutputs 1 true trace :=
  (executeRun_effect pair_ready (copyDriver_layout (by decide) (by decide) _)
    ⟨by decide, fun _ _ _ _ => (by decide : 16 * (extent 2 - 1) < 2 ^ 32), fun _ _ => .inl (by decide),
      fun _ _ threads => absurd rfl threads.2.2, fun _ _ threads => absurd rfl threads.2.2⟩).1

private def singleNodes : List Node := [{ mScript := 0, mKernels := [copyKernel 0] }]

private def singleOutputs : List GroupIo := [{ mKernel := copyKernel 0, mAlloc := some 1 }]

private theorem single_ready : Ready singleNodes pairInputs singleOutputs where
  kernelLinks := by decide
  order := by
    intro front n back split l inLinks
    have mem : n ∈ singleNodes := by simp [split]
    rw [singleNodes, List.mem_singleton] at mem
    rw [mem] at inLinks
    cases inLinks
  allocated := by simp [singleNodes, Node.links]
  shared := by decide
  set := by simp [pairInputs, singleOutputs, singleNodes, Linked, Node.links]
  inputs := by decide
  outputs := by decide
  unlinked := by decide
  cells := by decide

private def singleEntry : ScriptEntry where
  kernel := copyKernel 0
  ain := some 0
  inExt := true
  aout := some 1
  outExt := true

private theorem single_collect : collect singleNodes pairInputs singleOutputs = [singleEntry] := by decide

private theorem single_sliced : (wholeLaunch (copyDriver 2 0) 2 0 0 singleEntry).sliced 1 =
    some (wholeLaunch (copyDriver 2 0) 2 0 0 singleEntry) := by
  have size : sliceSize 1 2 1 1 = some 1 := by decide +kernel
  have cols : ¬ (wholeLaunch (copyDriver 2 0) 2 0 0 singleEntry).fep.dimY > 1 := by decide
  have chosen := size
  rfl

private theorem single_covers : SlicesCover (wholeLaunch (copyDriver 2 0) 2 0 0 singleEntry) 1 := by
  have cols : ¬ (wholeLaunch (copyDriver 2 0) 2 0 0 singleEntry).fep.dimY > 1 := by decide
  refine ⟨_, single_sliced, ?_⟩
  constructor
  · exact (by decide : WrappedSlices.Unwrapped (2 ^ 32) 0 2 1 2)
  · intro stride mem
    have one : stride = 1 := by
      simpa [wholeLaunch, optionSize, singleEntry, copyDriver] using mem
    subst one
    exact (by decide : 1 * 1 / 2 ^ 32 = 1 * 0 / 2 ^ 32)

private theorem narrow_dst {kernel : PointKernel} {call : OuterCall} (narrow : call.x2.toNat ≤ call.x1.toNat + 1)
    (mem : transfer ∈ kernelTransfers kernel call) :
    transfer.dst = { start := call.p.outPtr, length := call.outstep.toNat } := by
  simp only [kernelTransfers, OuterCall.invocations, List.map_map, List.mem_map] at mem
  obtain ⟨x, inside, rfl⟩ := mem
  have bounds := mem_counter.mp inside
  rw [UInt32.le_iff_toNat_le, UInt32.lt_iff_toNat_lt] at bounds
  have first : x.toNat - call.x1.toNat = 0 := by omega
  simp [first]

/-- Each slice of the fused launch writes the first output cell, whichever cell it
was drawn for. -/
private theorem single_dst {worker ticket : Nat} (mem : transfer ∈ ((wholeLaunch (copyDriver 2 0) 2 0 0 singleEntry).job
      (scriptGroupRoot (copyDriver 2 0) [singleEntry])).work worker ticket) :
    transfer.dst = cell (copyDriver 2 0) 1 0 0 := by
  rw [job_work_columns _ (by decide)] at mem
  split at mem
  · cases mem
  · rw [scriptGroupRoot, List.flatMap_singleton] at mem
    refine narrow_dst ?_ mem
    have word : WrappedSlices.first (2 ^ 32) 0 1 ticket < 2 ^ 32 := Nat.mod_lt _ (by decide)
    have lt : WrappedSlices.last (2 ^ 32) 0 2 1 ticket ≤ WrappedSlices.first (2 ^ 32) 0 1 ticket + 1 :=
      (min_le_left _ _).trans (Nat.mod_le _ _)
    change (UInt32.ofNat (WrappedSlices.last (2 ^ 32) 0 2 1 ticket)).toNat ≤
      (UInt32.ofNat (WrappedSlices.first (2 ^ 32) 0 1 ticket)).toNat + 1
    rw [UInt32.toNat_ofNat', UInt32.toNat_ofNat', Nat.mod_eq_of_lt word]
    exact (Nat.mod_le _ _).trans lt

/-- A single row of two cells: the fused launch never writes the second cell. -/
theorem fusedRun_misses_second_column : Ready singleNodes pairInputs singleOutputs ∧
      Layout (copyDriver 2 0) 2 0 0 (UsedBy (collect singleNodes pairInputs singleOutputs)) ∧
      (∃ trace, FusedRun (copyDriver 2 0) (collect singleNodes pairInputs singleOutputs) 1 false trace) ∧
      (∃ trace, FieldDepRun (copyDriver 2 0) 1 false (collect singleNodes pairInputs singleOutputs) trace) ∧
      ∃ memory, ∀ fused separate, FusedRun (copyDriver 2 0) (collect singleNodes pairInputs singleOutputs) 1 false fused →
        FieldDepRun (copyDriver 2 0) 1 false (collect singleNodes pairInputs singleOutputs) separate →
        contents (copyDriver 2 0) (performs Transfer.run fused memory) 1 0 1 = [0] ∧
          contents (copyDriver 2 0) (performs Transfer.run separate memory) 1 0 1 = [7] := by
  have layout := copyDriver_layout (by decide : extent 2 ≤ 16) (by decide : rowCount 0 0 ≤ 256)
    (UsedBy (collect singleNodes pairInputs singleOutputs))
  refine ⟨single_ready, layout, ?_⟩
  rw [single_collect] at layout ⊢
  have covers := single_covers
  have uses : ∀ a, singleEntry.Uses a → UsedBy [singleEntry] a := fun a touches =>
    ⟨singleEntry, List.mem_cons_self, touches⟩
  have launch := launchOf_eq layout uses ⟨0, .inl rfl⟩
  have launches : ∃ trace, (wholeLaunch (copyDriver 2 0) 2 0 0 singleEntry).LaunchThreads
      (scriptGroupRoot (copyDriver 2 0) [singleEntry]) 1 false trace :=
    exists_launch _ fun _ => covers
  have coversAll : ∀ e ∈ [singleEntry], Threads (copyDriver 2 0) e 1 false →
      SlicesCover (wholeLaunch (copyDriver 2 0) 2 0 0 e) 1 := by
    intro e mem _
    rw [List.mem_singleton.mp mem]
    exact covers
  refine ⟨?_, ?_, ?_⟩
  · obtain ⟨trace, run⟩ := launches
    exact ⟨trace, singleEntry, [], rfl, launch ▸ run⟩
  · apply exists_fieldDepRun layout _ coversAll
    intro e mem
    rw [List.mem_singleton.mp mem]
    exact ⟨⟨0, .inl rfl⟩, uses⟩
  · refine ⟨fun loc => if loc = 4097 then 7 else 0, ?_⟩
    intro fused separate fusedRun separateRun
    constructor
    · obtain ⟨head, tail, split, run⟩ := fusedRun
      cases split
      rw [launch] at run
      obtain ⟨sliced, chosen, completes⟩ := (launchThreads_eq_threadedRun rfl (by decide)).mp run
      cases chosen
      refine (read_performs_apart ?_ _).trans (by decide)
      intro transfer mem
      obtain ⟨worker, ticket, origin⟩ := completes.exists_of_mem mem
      rw [single_dst origin]
      have isUsed := uses 1 (.inr rfl)
      exact layout.cell_apart isUsed isUsed (by decide) (by decide) (by decide) (by decide) (.inr (.inl (by decide)))
    · rw [fieldDepRun_effect layout _ _ coversAll separateRun _ (uses 1 (.inr rfl)) (by decide) (by decide)]
      · decide
      · intro e mem
        rw [List.mem_singleton.mp mem]
        exact ⟨⟨0, .inl rfl⟩, fun a touches => ⟨uses a touches, (by decide : 16 * (extent 0 - 1) < 2 ^ 32)⟩⟩
      · exact fun _ _ => .inl (by decide)

end RenderScript.Group
