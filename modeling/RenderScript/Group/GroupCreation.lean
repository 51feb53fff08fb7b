import RenderScript.Foundation.KeyTags
import RenderScript.Group.CycleCheck

/-!
# Entries and allocations of a new script group

`ScriptGroup::create` runs `calcOrder`, which lists the sides of kernels that no link uses, and then
goes through the outputs of all nodes and gives allocations to their links.
-/

namespace RenderScript.Group
open KeyTags List Option

/-- A `Link *`: the link with its position in `mLinks`. -/
abbrev LinkPointer := Link × Nat

/-- The links of `mOutputs` of a node, as pointers. -/
def outputPointers (mLinks : List Link) (n : Node) : List LinkPointer :=
  mLinks.zipIdx.filter fun l => l.1.mSource.mScript == n.mScript

/-- The loops that allocate links, over the sorted nodes. The links are new and have no allocation. -/
def allocateLinks (mLinks : List Link) (mNodes : List Node) : Tags LinkPointer :=
  (mNodes.map (outputPointers mLinks)).foldl (fun s links => assign (fun l => l.1.mSource) links s)
    { tag := fun _ => none, next := 0 }

structure Created where
  mNodes : List Node
  mInputs : List GroupIo
  mOutputs : List GroupIo
  mAlloc : LinkPointer → Option Allocation

/-- The groups that `create` can return, in a build with either comparison. -/
def Creates (mKernels : List ScriptKernelID) (mLinks : List Link) (group : Created) : Prop :=
  ∃ calculated, calcOrder mKernels mLinks = some calculated ∧
    (SortedByCompareNodeForSort calculated.mNodes group.mNodes ∨ SortedByNodeCompare calculated.mNodes group.mNodes) ∧
    group.mInputs = calculated.mInputs ∧ group.mOutputs = calculated.mOutputs ∧
    group.mAlloc = (allocateLinks mLinks group.mNodes).tag

def FreeOutput (mLinks : List Link) (k : ScriptKernelID) : Prop :=
  k.mHasKernelOutput = true ∧ ∀ l ∈ mLinks, l.mSource ≠ k

def FreeInput (mLinks : List Link) (k : ScriptKernelID) : Prop :=
  k.mHasKernelInput = true ∧ ∀ l ∈ mLinks, l.mDstKernel ≠ some k

def ListsOnce (ios : List GroupIo) (wanted : ScriptKernelID → Prop) : Prop :=
  ∀ k, (wanted k → ios.countP (·.mKernel == k) = 1) ∧ (¬ wanted k → ios.countP (·.mKernel == k) = 0)

structure Wired (mKernels : List ScriptKernelID) (mLinks : List Link) (group : Created) : Prop where
  outputs : ListsOnce group.mOutputs fun k => k ∈ mKernels ∧ FreeOutput mLinks k
  inputs : ListsOnce group.mInputs fun k => k ∈ mKernels ∧ FreeInput mLinks k
  given : ∀ l ∈ mLinks.zipIdx, group.mAlloc l ≠ none
  shared : ∀ l ∈ mLinks.zipIdx, ∀ other ∈ mLinks.zipIdx,
    group.mAlloc l = group.mAlloc other ↔ l.1.mSource = other.1.mSource

section

variable {write : Nat → Node → Node} {mKernels : List ScriptKernelID} {mLinks : List Link} {mNodes : List Node}
  {k : ScriptKernelID}

theorem scripts_mapIdx (script : ∀ n node, (write n node).mScript = node.mScript) :
    (mNodes.mapIdx write).map Node.mScript = mNodes.map Node.mScript := by
  apply ext_getElem?
  intro n
  simp [script, Function.comp_def]

theorem Labelled.mapIdx (labelled : Labelled mNodes) (script : ∀ n node, (write n node).mScript = node.mScript)
    (kernels : ∀ n node, (write n node).mKernels = node.mKernels) : Labelled (mNodes.mapIdx write) where
  unique := by
    rw [scripts_mapIdx script]
    exact labelled.unique
  inhabited := by
    intro node mem
    obtain ⟨n, inside, rfl⟩ := mem_mapIdx.mp mem
    rw [kernels]
    exact labelled.inhabited _ (getElem_mem inside)
  own := by
    intro node mem k inKernels
    obtain ⟨n, inside, rfl⟩ := mem_mapIdx.mp mem
    rw [kernels] at inKernels
    rw [script]
    exact labelled.own _ (getElem_mem inside) k inKernels

/-- The nodes that `calcOrder` leaves, with all links on their two sides. -/
structure Joined (mKernels : List ScriptKernelID) (mLinks : List Link) (mNodes : List Node) : Prop
    extends Labelled mNodes where
  scripts : ∀ s, s ∈ mNodes.map Node.mScript ↔ s ∈ mKernels.map (·.mScript)
  outputs : ∀ n ∈ mNodes, n.mOutputs = mLinks.filter (·.mSource.mScript == n.mScript)
  inputs : ∀ n ∈ mNodes, n.mInputs = mLinks.filter (·.inputScript == some n.mScript)

/-- The entries that `calcOrder` makes from the nodes it leaves. -/
structure Entered (mKernels : List ScriptKernelID) (calculated : Calculated) : Prop where
  outputs : calculated.mOutputs = groupIos mKernels fun k =>
    k.mHasKernelOutput && isUnlinked calculated.mNodes k Node.mOutputs (·.mSource == k)
  inputs : calculated.mInputs = groupIos mKernels fun k =>
    k.mHasKernelInput && isUnlinked calculated.mNodes k Node.mInputs (·.mDstKernel == some k)

theorem joined_of_calcOrder {calculated : Calculated} (ran : calcOrder mKernels mLinks = some calculated) :
    Joined mKernels mLinks calculated.mNodes ∧ Entered mKernels calculated := by
  obtain ⟨unlinked, scripts⟩ := @foldl_addKernel mKernels [] unlinked_nil
  simp only [calcOrder, bind_eq_bind, bind_eq_some_iff, Option.pure_def, Option.some.injEq] at ran
  obtain ⟨linked, added, ⟨marks, ret⟩, -, rfl⟩ := ran
  have within := within_of_foldlM_addLink unlinked.toLabelled added
  rw [foldlM_addLink unlinked.toLabelled within] at added
  cases added
  refine ⟨⟨(unlinked.toLabelled.attach mLinks).mapIdx (fun _ _ => rfl) (fun _ _ => rfl), ?_, ?_, ?_⟩, rfl, rfl⟩
  · intro s
    rw [scripts_mapIdx, List.map_map]
    · simpa [Node.attach] using scripts s
    · exact fun _ _ => rfl
  · intro node mem
    obtain ⟨n, inside, rfl⟩ := mem_mapIdx.mp mem
    have plain := (unlinked.blank _ (getElem_mem (by simpa using inside : n < _))).1
    simp [Node.attach, plain]
  · intro node mem
    obtain ⟨n, inside, rfl⟩ := mem_mapIdx.mp mem
    have plain := (unlinked.blank _ (getElem_mem (by simpa using inside : n < _))).2.1
    simp [Node.attach, plain]

/-- A scan of the links on one side of a kernel's node finds the links of the kernel among all links. -/
theorem isUnlinked_iff (side : Link → Script → Bool) (joined : Joined mKernels mLinks mNodes) (mem : k ∈ mKernels)
    {links : Node → List Link} {touches : Link → Bool} (held : ∀ n ∈ mNodes, links n = mLinks.filter (side · n.mScript))
    (own : ∀ l, touches l = true → side l k.mScript = true) :
    isUnlinked mNodes k links touches = true ↔ ∀ l ∈ mLinks, touches l = false := by
  obtain ⟨n, found⟩ := joined.exists_findNode ((joined.scripts _).mpr (List.mem_map_of_mem mem))
  obtain ⟨node, atIndex, script⟩ := joined.findNode_eq_some_iff.mp found
  have filtered := held node (mem_of_getElem? atIndex)
  simp only [isUnlinked, found, bind_some, atIndex, any_some, filtered, script,
    Bool.not_eq_true', List.any_eq_false, mem_filter, Bool.not_eq_true]
  constructor
  · intro none l mem
    cases touched : touches l with
    | false => rfl
    | true => exact absurd (none l ⟨mem, own l touched⟩) (by simp [touched])
  · intro none l mem
    exact none l mem.1

theorem countP_groupIos (wanted : ScriptKernelID → Bool) :
    (groupIos mKernels wanted).countP (·.mKernel == k) = if wanted k then mKernels.count k else 0 := by
  rw [groupIos, countP_map, countP_filter]
  split
  case isTrue holds =>
    apply countP_congr
    intro other _
    constructor
    · intro both
      exact (Bool.and_eq_true_iff.mp both).1
    · intro eq
      rw [Function.comp_apply, eq, beq_iff_eq.mp eq, holds]
      rfl
  case isFalse fails =>
    rw [countP_eq_zero]
    intro other _ both
    obtain ⟨eq, holds⟩ := Bool.and_eq_true_iff.mp both
    rw [Function.comp_apply, beq_iff_eq] at eq
    exact fails (eq ▸ holds)

theorem listsOnce_groupIos_iff {wanted : ScriptKernelID → Bool} {free : ScriptKernelID → Prop}
    (agrees : ∀ k ∈ mKernels, wanted k = true ↔ free k) :
    ListsOnce (groupIos mKernels wanted) (fun k => k ∈ mKernels ∧ free k) ↔ ∀ k ∈ mKernels, free k → mKernels.count k = 1 := by
  constructor
  · intro once k mem holds
    have counted := (once k).1 ⟨mem, holds⟩
    rwa [countP_groupIos, if_pos ((agrees k mem).mpr holds)] at counted
  · intro single k
    rw [countP_groupIos]
    constructor
    · intro listed
      rw [if_pos ((agrees k listed.1).mpr listed.2)]
      exact single k listed.1 listed.2
    · intro other
      split
      case isTrue holds =>
        rw [count_eq_zero]
        exact fun mem => other ⟨mem, (agrees k mem).mp holds⟩
      case isFalse => rfl

section

variable {calculated : Calculated} (ran : calcOrder mKernels mLinks = some calculated)

include ran

theorem listsOnce_outputs_iff : ListsOnce calculated.mOutputs (fun k => k ∈ mKernels ∧ FreeOutput mLinks k) ↔
      ∀ k ∈ mKernels, FreeOutput mLinks k → mKernels.count k = 1 := by
  obtain ⟨joined, entered⟩ := joined_of_calcOrder ran
  rw [entered.outputs]
  apply listsOnce_groupIos_iff
  intro k mem
  rw [Bool.and_eq_true, isUnlinked_iff (fun l s => l.mSource.mScript == s) joined mem joined.outputs, FreeOutput]
  · simp
  · intro l touched
    rw [beq_iff_eq.mp touched, beq_self_eq_true]

theorem listsOnce_inputs_iff : ListsOnce calculated.mInputs (fun k => k ∈ mKernels ∧ FreeInput mLinks k) ↔
      ∀ k ∈ mKernels, FreeInput mLinks k → mKernels.count k = 1 := by
  obtain ⟨joined, entered⟩ := joined_of_calcOrder ran
  rw [entered.inputs]
  apply listsOnce_groupIos_iff
  intro k mem
  rw [Bool.and_eq_true, isUnlinked_iff (fun l s => l.inputScript == some s) joined mem joined.inputs, FreeInput]
  · simp
  · intro l touched
    rw [Link.inputScript, beq_iff_eq.mp touched, beq_self_eq_true]

end

end

section

variable {mKernels : List ScriptKernelID} {mLinks : List Link} {mNodes sorted : List Node}

theorem mem_outputPointers {n : Node} {l : LinkPointer} :
    l ∈ outputPointers mLinks n ↔ l ∈ mLinks.zipIdx ∧ l.1.mSource.mScript = n.mScript := by
  simp [outputPointers]

theorem outputPointers_apart (mLinks : List Link) (unique : (sorted.map Node.mScript).Nodup) :
    (sorted.map (outputPointers mLinks)).Pairwise fun links others =>
      ∀ l ∈ links, ∀ other ∈ others, l.1.mSource ≠ other.1.mSource := by
  rw [pairwise_map]
  refine (pairwise_map.mp unique).imp ?_
  intro first second ne l mem other mem' eq
  rw [mem_outputPointers] at mem mem'
  exact ne (mem.2.symm.trans ((congrArg _ eq).trans mem'.2))

theorem allocateLinks_spec (mLinks : List Link) (unique : (sorted.map Node.mScript).Nodup) :
    Kept (fun l : LinkPointer => l.1.mSource) (allocateLinks mLinks sorted) ∧
      ∀ n ∈ sorted, ∀ l ∈ outputPointers mLinks n, (allocateLinks mLinks sorted).tag l ≠ none := by
  obtain ⟨kept, all⟩ := foldl_assign_spec (outputPointers_apart mLinks unique) (kept_start _)
    (fun _ _ _ _ _ tagged => absurd rfl tagged)
  refine ⟨kept, fun n mem => ?_⟩
  exact all _ (List.mem_map_of_mem mem)

theorem Joined.allocated (joined : Joined mKernels mLinks mNodes)
    (sources : ∀ l ∈ mLinks, l.mSource.mScript ∈ mKernels.map (·.mScript)) (perm : sorted.Perm mNodes) :
    (∀ l ∈ mLinks.zipIdx, (allocateLinks mLinks sorted).tag l ≠ none) ∧ ∀ l ∈ mLinks.zipIdx, ∀ other ∈ mLinks.zipIdx,
        (allocateLinks mLinks sorted).tag l = (allocateLinks mLinks sorted).tag other ↔ l.1.mSource = other.1.mSource := by
  have unique := (perm.map Node.mScript).nodup_iff.mpr joined.unique
  obtain ⟨kept, all⟩ := allocateLinks_spec mLinks unique
  have given : ∀ l ∈ mLinks.zipIdx, (allocateLinks mLinks sorted).tag l ≠ none := by
    intro l mem
    have source := (joined.scripts _).mpr (sources l.1 (fst_mem_of_mem_zipIdx mem))
    obtain ⟨n, inside, eq⟩ := List.mem_map.mp source
    exact all n (perm.mem_iff.mpr inside) l (mem_outputPointers.mpr ⟨mem, eq.symm⟩)
  refine ⟨given, ?_⟩
  intro l mem other mem'
  obtain ⟨tag, has⟩ := ne_none_iff_exists'.mp (given l mem)
  obtain ⟨otherTag, otherHas⟩ := ne_none_iff_exists'.mp (given other mem')
  rw [has, otherHas, Option.some.injEq]
  exact kept.shared has otherHas

end

variable {mKernels : List ScriptKernelID} {mLinks : List Link}

theorem Creates.wired_iff {group : Created} (creates : Creates mKernels mLinks group) :
    Wired mKernels mLinks group ↔ ∀ k ∈ mKernels, FreeOutput mLinks k ∨ FreeInput mLinks k → mKernels.count k = 1 := by
  obtain ⟨calculated, ran, sorted, inputs, outputs, allocs⟩ := creates
  have perm : group.mNodes.Perm calculated.mNodes := by
    rcases sorted with sorted | sorted
    · exact sorted.perm
    · exact sorted.perm
  have sources : ∀ l ∈ mLinks, l.mSource.mScript ∈ mKernels.map (·.mScript) :=
    fun l mem => (within_of_calcOrder ran l mem).1
  obtain ⟨given, shared⟩ := (joined_of_calcOrder ran).1.allocated sources perm
  constructor
  · intro wired k mem free
    rcases free with output | input
    · exact (listsOnce_outputs_iff ran).mp (outputs ▸ wired.outputs) k mem output
    · exact (listsOnce_inputs_iff ran).mp (inputs ▸ wired.inputs) k mem input
  · intro single
    constructor
    · rw [outputs, listsOnce_outputs_iff ran]
      exact fun k mem output => single k mem (.inl output)
    · rw [inputs, listsOnce_inputs_iff ran]
      exact fun k mem input => single k mem (.inr input)
    · rw [allocs]
      exact given
    · rw [allocs]
      exact shared

theorem exists_creates (within : ∀ l ∈ mLinks, l.Within (mKernels.map (·.mScript))) : ∃ group, Creates mKernels mLinks group := by
  obtain ⟨calculated, ran, -⟩ := calcOrder_orderedFrom within
  obtain ⟨sorted, arranged⟩ := exists_sortedByNodeCompare calculated.mNodes
  exact ⟨⟨sorted, calculated.mInputs, calculated.mOutputs, (allocateLinks mLinks sorted).tag⟩, calculated, ran,
    .inr arranged, rfl, rfl, rfl⟩

/-- `create` returns a group, and the group has one entry for every free side and one allocation for
every source, exactly if no link leaves the group and no kernel with a free side is listed twice. -/
theorem create_wires_iff (mKernels : List ScriptKernelID) (mLinks : List Link) :
    ((∃ group, Creates mKernels mLinks group) ∧ ∀ group, Creates mKernels mLinks group → Wired mKernels mLinks group) ↔
      (∀ l ∈ mLinks, l.Within (mKernels.map (·.mScript))) ∧
        ∀ k ∈ mKernels, FreeOutput mLinks k ∨ FreeInput mLinks k → mKernels.count k = 1 := by
  constructor
  · intro ret
    obtain ⟨⟨group, creates⟩, wired⟩ := ret
    obtain ⟨calculated, ran, -⟩ := id creates
    exact ⟨within_of_calcOrder ran, creates.wired_iff.mp (wired group creates)⟩
  · intro cond
    exact ⟨exists_creates cond.1, fun group creates => creates.wired_iff.mpr cond.2⟩

/-- A link to a kernel of a script without a node: `calcOrder` dereferences a null node. -/
theorem create_fails_outside : [onlyKernel 0].Nodup ∧ ¬ ∃ group, Creates [onlyKernel 0] [scriptLink 0 1] group := by
  refine ⟨nodup_singleton _, ?_⟩
  rintro ⟨group, calculated, ran, -⟩
  have fails : calcOrder [onlyKernel 0] [scriptLink 0 1] = none := by decide
  cases ran

end RenderScript.Group
