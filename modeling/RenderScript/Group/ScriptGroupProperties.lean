import RenderScript.Group.ScriptGroup

/-!
# Order of the nodes of a script group

`calcOrder` labels nodes by a depth-first traversal from every node without
inputs. A traversal that reports success leaves each node below all nodes it
feeds. The two builds then sort by this label in opposite directions.
-/

namespace RenderScript.Group
open Precedence List Function
open Option hiding or_assoc

variable {recurse : Marks → Nat → Nat → Option (Marks × Bool)} {ret : Bool} {mLinks links rest : List Link} {s : Script}
  {l : Link} {marks before after : Marks} {n v fuel : Nat} {node : Node} {mNodes sorted : List Node} {indices : List Nat}

/-!
## Nodes by script
-/

/-- Every node holds kernels of its own script only, and no script has two nodes. -/
structure Labelled (mNodes : List Node) : Prop where
  unique : (mNodes.map Node.mScript).Nodup
  inhabited : ∀ n ∈ mNodes, n.mKernels ≠ []
  own : ∀ n ∈ mNodes, ∀ k ∈ n.mKernels, k.mScript = n.mScript

theorem Labelled.findNode_eq (labelled : Labelled mNodes) (s : Script) :
    findNode mNodes s = mNodes.findIdx? (·.mScript == s) := by
  have agrees : ∀ n ∈ mNodes, (n.mKernels.any (·.mScript == s)) = (n.mScript == s) := by
    intro n mem
    rw [Bool.eq_iff_iff, List.any_eq_true]
    constructor
    · intro found
      obtain ⟨k, inside, eq⟩ := found
      rw [← labelled.own n mem k inside]
      exact eq
    · intro eq
      obtain ⟨k, inside⟩ := exists_mem_of_ne_nil _ (labelled.inhabited n mem)
      exact ⟨k, inside, by rw [labelled.own n mem k inside]; exact eq⟩
  unfold findNode
  clear labelled
  induction mNodes with
  | nil => rfl
  | cons head tail ih =>
    rw [List.findIdx?_cons, List.findIdx?_cons, agrees head mem_cons_self,
      ih fun n mem => agrees n (mem_cons_of_mem head mem)]

theorem Labelled.findNode_eq_some_iff (labelled : Labelled mNodes) :
    findNode mNodes s = some n ↔ ∃ node, mNodes[n]? = some node ∧ node.mScript = s := by
  rw [labelled.findNode_eq, List.findIdx?_eq_some_iff_getElem]
  constructor
  · intro found
    obtain ⟨inside, eq, -⟩ := found
    exact ⟨mNodes[n], List.getElem?_eq_getElem inside, by simpa using eq⟩
  · intro found
    obtain ⟨node, atIndex, eq⟩ := found
    obtain ⟨inside, rfl⟩ := List.getElem?_eq_some_iff.mp atIndex
    refine ⟨inside, by simpa using eq, ?_⟩
    intro earlier before matched
    have twice : (mNodes.map Node.mScript)[earlier]? = (mNodes.map Node.mScript)[n]? := by
      rw [List.getElem?_map, List.getElem?_map, List.getElem?_eq_getElem inside, List.getElem?_eq_getElem (before.trans inside)]
      simpa [eq] using matched
    have equal := (List.getElem?_inj (by simpa using before.trans inside) labelled.unique).mp twice
    omega

theorem Labelled.exists_findNode (labelled : Labelled mNodes)
    (mem : s ∈ mNodes.map Node.mScript) : ∃ n, findNode mNodes s = some n := by
  obtain ⟨node, inside, eq⟩ := List.mem_map.mp mem
  obtain ⟨n, atIndex⟩ := mem_iff_getElem?.mp inside
  exact ⟨n, labelled.findNode_eq_some_iff.mpr ⟨node, atIndex, eq⟩⟩

theorem Labelled.findNode_eq_none_iff (labelled : Labelled mNodes) :
    findNode mNodes s = none ↔ s ∉ mNodes.map Node.mScript := by
  rw [labelled.findNode_eq, List.findIdx?_eq_none_iff]
  simp

theorem Labelled.modify_eq_map (labelled : Labelled mNodes) (found : findNode mNodes s = some n) (write : Node → Node) :
    mNodes.modify n write = mNodes.map fun node => if node.mScript = s then write node else node := by
  apply ext_getElem?
  intro i
  rw [List.getElem?_modify, List.getElem?_map]
  cases atIndex : mNodes[i]? with
  | none => simp
  | some node =>
    have here : n = i ↔ node.mScript = s := by
      constructor
      · intro eq
        subst eq
        obtain ⟨other, again, script⟩ := labelled.findNode_eq_some_iff.mp found
        rw [atIndex] at again
        cases again
        exact script
      · intro script
        have again := labelled.findNode_eq_some_iff.mpr ⟨node, atIndex, script⟩
        rw [found] at again
        cases again
        rfl
    by_cases eq : n = i
    · simp [eq, here.mp eq]
    · have other : ¬ node.mScript = s := fun script => eq (here.mpr script)
      simp [eq, other]

theorem Labelled.map (labelled : Labelled mNodes) {write : Node → Node}
    (script : ∀ n, (write n).mScript = n.mScript) (kernels : ∀ n, (write n).mKernels = n.mKernels) :
    Labelled (mNodes.map write) where
  unique := by
    have eq : Node.mScript ∘ write = Node.mScript := funext script
    rw [List.map_map, eq]
    exact labelled.unique
  inhabited := by
    intro n mem
    obtain ⟨node, inside, rfl⟩ := List.mem_map.mp mem
    rw [kernels]
    exact labelled.inhabited node inside
  own := by
    intro n mem k inKernels
    obtain ⟨node, inside, rfl⟩ := List.mem_map.mp mem
    rw [kernels] at inKernels
    rw [script]
    exact labelled.own node inside k inKernels

/-!
## Adding kernels
-/

structure Unlinked (mNodes : List Node) : Prop extends Labelled mNodes where
  blank : ∀ n ∈ mNodes, n.mOutputs = [] ∧ n.mInputs = [] ∧ n.mOrder = 0

theorem unlinked_nil : Unlinked [] where
  unique := nodup_nil
  inhabited := by simp
  own := by simp
  blank := by simp

theorem mScript_comp_add (k : ScriptKernelID) : (Node.mScript ∘ fun node : Node => if node.mScript = k.mScript then
    { node with mKernels := node.mKernels ++ [k] } else node) = Node.mScript := by
  funext node
  simp only [comp_apply]
  split <;> rfl

theorem addKernel_unlinked (unlinked : Unlinked mNodes) (k : ScriptKernelID) : Unlinked (addKernel mNodes k) := by
  unfold addKernel
  cases found : findNode mNodes k.mScript with
  | none =>
    have fresh := unlinked.findNode_eq_none_iff.mp found
    constructor
    · constructor
      · simp only [map_append, map_cons, map_nil]
        refine nodup_append.mpr ⟨unlinked.unique, by simp, ?_⟩
        intro script mem other single eq
        rw [mem_singleton] at single
        exact fresh (single ▸ eq ▸ mem)
      · intro n mem
        rcases mem_append.mp mem with before | added
        · exact unlinked.inhabited n before
        · rw [mem_singleton] at added
          simp [added]
      · intro n mem
        rcases mem_append.mp mem with before | added
        · exact unlinked.own n before
        · rw [mem_singleton] at added
          simp [added]
    · intro n mem
      rcases mem_append.mp mem with before | added
      · exact unlinked.blank n before
      · rw [mem_singleton] at added
        simp [added]
  | some n =>
    simp only [unlinked.modify_eq_map found]
    constructor
    · constructor
      · rw [List.map_map, mScript_comp_add]
        exact unlinked.unique
      · intro n mem
        obtain ⟨node, inside, rfl⟩ := List.mem_map.mp mem
        split
        · simp
        · exact unlinked.inhabited node inside
      · intro n mem
        obtain ⟨node, inside, rfl⟩ := List.mem_map.mp mem
        split
        · rename_i script
          intro other inKernels
          rcases mem_append.mp inKernels with before | added
          · exact unlinked.own node inside other before
          · rw [mem_singleton] at added
            rw [added]
            exact script.symm
        · exact unlinked.own node inside
    · intro n mem
      obtain ⟨node, inside, rfl⟩ := List.mem_map.mp mem
      split <;> exact unlinked.blank node inside

theorem mem_scripts_addKernel (labelled : Labelled mNodes) (k : ScriptKernelID) (s : Script) :
    s ∈ (addKernel mNodes k).map Node.mScript ↔ s ∈ mNodes.map Node.mScript ∨ s = k.mScript := by
  unfold addKernel
  cases found : findNode mNodes k.mScript with
  | none => simp
  | some n =>
    obtain ⟨node, atIndex, script⟩ := labelled.findNode_eq_some_iff.mp found
    have known := List.mem_map.mpr ⟨node, mem_of_getElem? atIndex, script⟩
    simp only [labelled.modify_eq_map found, List.map_map, mScript_comp_add]
    constructor
    · exact .inl
    · intro either
      rcases either with before | added
      · exact before
      · exact added ▸ known

theorem foldl_addKernel {mKernels : List ScriptKernelID} {mNodes : List Node} (unlinked : Unlinked mNodes) :
    Unlinked (mKernels.foldl addKernel mNodes) ∧ ∀ s, s ∈ (mKernels.foldl addKernel mNodes).map Node.mScript ↔
        s ∈ mNodes.map Node.mScript ∨ s ∈ mKernels.map (·.mScript) := by
  induction mKernels generalizing mNodes with
  | nil => simpa using unlinked
  | cons k rest ih =>
    obtain ⟨final, scripts⟩ := ih (addKernel_unlinked unlinked k)
    refine ⟨final, fun s => ?_⟩
    simp [scripts, mem_scripts_addKernel unlinked.toLabelled, or_assoc]

/-!
## Adding links
-/

theorem Link.orderScript_eq (l : Link) : l.orderScript = l.inputScript := by
  have single := l.oneTarget
  unfold Link.orderScript Link.inputScript
  cases kernel : l.mDstKernel with
  | none => cases field : l.mDstField <;> simp_all
  | some k => cases field : l.mDstField <;> simp_all

def Node.attach (mLinks : List Link) (n : Node) : Node :=
  { n with
    mOutputs := n.mOutputs ++ mLinks.filter (·.mSource.mScript == n.mScript)
    mInputs := n.mInputs ++ mLinks.filter (·.inputScript == some n.mScript) }

def Link.Within (scripts : List Script) (l : Link) : Prop :=
  l.mSource.mScript ∈ scripts ∧ ∃ s ∈ scripts, l.inputScript = some s

theorem Labelled.attach (labelled : Labelled mNodes) (mLinks : List Link) : Labelled (mNodes.map (Node.attach mLinks)) :=
  labelled.map (fun _ => rfl) (fun _ => rfl)

theorem addLink_eq (labelled : Labelled mNodes) (within : l.Within (mNodes.map Node.mScript)) :
    addLink mNodes l = some (mNodes.map (Node.attach [l])) := by
  obtain ⟨sourceKnown, target, targetKnown, script⟩ := within
  obtain ⟨n, found⟩ := labelled.exists_findNode sourceKnown
  let output : Node → Node := fun node =>
    if node.mScript = l.mSource.mScript then { node with mOutputs := node.mOutputs ++ [l] }
    else node
  have outputScript : ∀ node, (output node).mScript = node.mScript := by
    intro node
    simp only [output]
    split <;> rfl
  have outputKernels : ∀ node, (output node).mKernels = node.mKernels := by
    intro node
    simp only [output]
    split <;> rfl
  have linked := labelled.map outputScript outputKernels
  have stillKnown : target ∈ (mNodes.map output).map Node.mScript := by
    have eq : Node.mScript ∘ output = Node.mScript := funext outputScript
    rw [List.map_map, eq]
    exact targetKnown
  obtain ⟨m, foundTarget⟩ := linked.exists_findNode stillKnown
  simp only [addLink, found, script, bind_eq_bind, bind_some, labelled.modify_eq_map found]
  rw [show (fun node : Node => if node.mScript = l.mSource.mScript then
      { node with mOutputs := node.mOutputs ++ [l] } else node) = output from rfl, foundTarget]
  simp only [bind_some, linked.modify_eq_map foundTarget, List.map_map, Option.pure_def, Option.some.injEq]
  apply map_congr_left
  intro node _
  simp only [comp_apply, outputScript, Node.attach, script, filter_cons, filter_nil, beq_iff_eq, Option.some.injEq, output,
    @eq_comm _ l.mSource.mScript _, @eq_comm _ target _]
  split_ifs <;> simp

theorem foldlM_addLink (labelled : Labelled mNodes) (within : ∀ l ∈ mLinks, l.Within (mNodes.map Node.mScript)) :
    mLinks.foldlM addLink mNodes = some (mNodes.map (Node.attach mLinks)) := by
  induction mLinks generalizing mNodes with
  | nil =>
    have eq : Node.attach [] = id := by
      funext node
      simp [Node.attach]
    rw [eq, List.map_id]
    rfl
  | cons l rest ih =>
    have eq : (mNodes.map (Node.attach [l])).map Node.mScript = mNodes.map Node.mScript := by
      rw [List.map_map]
      rfl
    rw [foldlM_cons, addLink_eq labelled (within l mem_cons_self), bind_eq_bind, bind_some, ih (labelled.attach [l])]
    · rw [List.map_map]
      congr 1
      apply map_congr_left
      intro node _
      simp only [comp_apply, Node.attach, filter_cons, filter_nil]
      split_ifs <;> simp
    · intro other mem
      rw [eq]
      exact within other (mem_cons_of_mem l mem)

/-!
## The traversal
-/

/-- Node `u` has an output that ends in node `v`. -/
def Feeds (mNodes : List Node) (u v : Nat) : Prop :=
  ∃ node, mNodes[u]? = some node ∧ ∃ l ∈ node.mOutputs, l.orderScript.bind (findNode mNodes) = some v

def Closed (mNodes : List Node) : Prop :=
  ∀ node ∈ mNodes, ∀ l ∈ node.mOutputs,
    ∃ v, v < mNodes.length ∧ l.orderScript.bind (findNode mNodes) = some v

/-- What a traversal does to the marks: nodes seen before keep their order, and
nodes seen now were reached through a link. -/
structure Extends (mNodes : List Node) (before after : Marks) : Prop where
  keeps : ∀ n, before.mSeen n = true → after.mSeen n = true ∧ after.mOrder n = before.mOrder n
  raises : ∀ n, before.mOrder n ≤ after.mOrder n
  untouched : ∀ n, after.mSeen n = false → after.mOrder n = before.mOrder n
  fed : ∀ n, before.mSeen n = false → after.mSeen n = true → ∃ u, Feeds mNodes u n

/-- Nodes seen since `before` lie below everything they feed. -/
def Complete (mNodes : List Node) (before after : Marks) : Prop :=
  ∀ u, before.mSeen u = false → after.mSeen u = true →
    ∀ v, Feeds mNodes u v → after.mSeen v = true ∧ after.mOrder u < after.mOrder v

theorem Extends.refl (mNodes : List Node) (marks : Marks) : Extends mNodes marks marks where
  keeps := fun _ seen => ⟨seen, rfl⟩
  raises := fun _ => le_refl _
  untouched := fun _ _ => rfl
  fed := by
    intro n unseen seen
    rw [unseen] at seen
    cases seen

theorem Extends.trans {middle : Marks} (first : Extends mNodes before middle) (second : Extends mNodes middle after) :
    Extends mNodes before after where
  keeps := by
    intro n seen
    obtain ⟨still, eq⟩ := first.keeps n seen
    obtain ⟨always, again⟩ := second.keeps n still
    exact ⟨always, again.trans eq⟩
  raises := fun n => (first.raises n).trans (second.raises n)
  untouched := by
    intro n unseen
    have earlier : middle.mSeen n = false := by
      cases seen : middle.mSeen n with
      | false => rfl
      | true =>
        have now := (second.keeps n seen).1
        rw [unseen] at now
        cases now
    exact (second.untouched n unseen).trans (first.untouched n earlier)
  fed := by
    intro n unseen seen
    cases between : middle.mSeen n with
    | false => exact second.fed n between seen
    | true => exact first.fed n unseen between

@[simp] theorem enter_mSeen_self (marks : Marks) (n depth : Nat) : (marks.enter n depth).mSeen n = true := by
  simp [Marks.enter]

theorem enter_mSeen_of_ne {n other : Nat} (ne : other ≠ n) (marks : Marks) (depth : Nat) :
    (marks.enter n depth).mSeen other = marks.mSeen other := by
  simp [Marks.enter, ne]

theorem enter_mOrder_of_ne {n other : Nat} (ne : other ≠ n) (marks : Marks)
    (depth : Nat) : (marks.enter n depth).mOrder other = marks.mOrder other := by
  simp only [Marks.enter]
  split
  · exact update_of_ne ne _ _
  · rfl

theorem enter_mOrder_self (marks : Marks) (n depth : Nat) : (marks.enter n depth).mOrder n = max (marks.mOrder n) depth := by
  simp only [Marks.enter]
  split
  · rw [update_self]
    omega
  · omega

theorem extends_enter (depth : Nat) (unseen : marks.mSeen n = false) (fed : ∃ u, Feeds mNodes u n) :
    Extends mNodes marks (marks.enter n depth) where
  keeps := by
    intro other seen
    have ne : other ≠ n := by
      intro eq
      rw [eq, unseen] at seen
      cases seen
    rw [enter_mSeen_of_ne ne, enter_mOrder_of_ne ne]
    exact ⟨seen, rfl⟩
  raises := by
    intro other
    by_cases eq : other = n
    · rw [eq, enter_mOrder_self]
      exact le_max_left _ _
    · rw [enter_mOrder_of_ne eq]
  untouched := by
    intro other unseenNow
    apply enter_mOrder_of_ne
    intro eq
    rw [eq, enter_mSeen_self] at unseenNow
    cases unseenNow
  fed := by
    intro other unseenBefore seen
    by_cases eq : other = n
    · exact eq ▸ fed
    · rw [enter_mSeen_of_ne eq, unseenBefore] at seen
      cases seen

theorem visitOutputs_cons (mNodes : List Node) (recurse : Marks → Nat → Nat → Option (Marks × Bool)) (n : Nat)
    (rest : List Link) (marks : Marks) (ret : Bool) (target : l.orderScript.bind (findNode mNodes) = some v) :
    visitOutputs mNodes recurse n (l :: rest) marks ret = if marks.mSeen v then some (marks, false)
      else (recurse marks v (marks.mOrder n + 1)).bind fun result =>
        visitOutputs mNodes recurse n rest result.1 (ret && result.2) := by
  obtain ⟨s, script, found⟩ := bind_eq_some_iff.mp target
  simp only [visitOutputs, script, found, bind_eq_bind, bind_some]
  rfl

def Traverses (mNodes : List Node) (recurse : Marks → Nat → Nat → Option (Marks × Bool)) : Prop :=
  ∀ {marks : Marks} {n depth : Nat} {after : Marks} {ret : Bool}, marks.mSeen n = false →
    recurse marks n depth = some (after, ret) →
      Extends mNodes (marks.enter n depth) after ∧ (ret = true → Complete mNodes marks after)

theorem Complete.trans {middle : Marks} (second : Extends mNodes middle after) (firstComplete : Complete mNodes before middle)
    (secondComplete : Complete mNodes middle after) : Complete mNodes before after := by
  intro u unseen seen v feeds
  cases between : middle.mSeen u with
  | false => exact secondComplete u between seen v feeds
  | true =>
    obtain ⟨targetSeen, lt⟩ := firstComplete u unseen between v feeds
    obtain ⟨still, eq⟩ := second.keeps v targetSeen
    refine ⟨still, ?_⟩
    rw [eq, (second.keeps u between).2]
    exact lt

theorem visitOutputs_spec (traverses : Traverses mNodes recurse) (atIndex : mNodes[n]? = some node)
    (outputs : ∀ l ∈ links, l ∈ node.mOutputs ∧ ∃ v, l.orderScript.bind (findNode mNodes) = some v)
    {answer : Bool} (entered : marks.mSeen n = true)
    (visited : visitOutputs mNodes recurse n links marks ret = some (after, answer)) :
    Extends mNodes marks after ∧ (answer = true → ret = true ∧ Complete mNodes marks after ∧
        ∀ l ∈ links, ∀ v, l.orderScript.bind (findNode mNodes) = some v →
          after.mSeen v = true ∧ after.mOrder n < after.mOrder v) := by
  induction links generalizing marks ret with
  | nil =>
    obtain ⟨rfl, rfl⟩ := visited
    refine ⟨.refl _ _, fun success => ⟨success, ?_, by simp⟩⟩
    intro u unseen seen
    rw [unseen] at seen
    cases seen
  | cons l rest ih =>
    obtain ⟨⟨isOutput, v, target⟩, others⟩ := forall_mem_cons.mp outputs
    rw [visitOutputs_cons _ _ _ _ _ _ target] at visited
    cases seen : marks.mSeen v with
    | true =>
      simp only [seen, if_true, Option.some.injEq, Prod.mk.injEq] at visited
      obtain ⟨rfl, rfl⟩ := visited
      exact ⟨.refl _ _, fun success => by cases success⟩
    | false =>
      simp only [seen, Bool.false_eq_true, if_false] at visited
      obtain ⟨⟨mid, lt⟩, called, continued⟩ := bind_eq_some_iff.mp visited
      obtain ⟨deeper, complete⟩ := traverses seen called
      have fed : ∃ u, Feeds mNodes u v := ⟨n, node, atIndex, l, isOutput, target⟩
      have first := (extends_enter (marks.mOrder n + 1) seen fed).trans deeper
      obtain ⟨second, finished⟩ := ih others (first.keeps n entered).1 continued
      refine ⟨first.trans second, fun success => ?_⟩
      obtain ⟨both, restComplete, restBelow⟩ := finished success
      simp only [Bool.and_eq_true] at both
      refine ⟨both.1, (complete both.2).trans second restComplete, ?_⟩
      intro other mem w otherTarget
      rcases mem_cons.mp mem with eq | inRest
      · subst eq
        rw [target] at otherTarget
        cases otherTarget
        obtain ⟨nowSeen, order⟩ := deeper.keeps v (enter_mSeen_self _ _ _)
        obtain ⟨still, kept⟩ := second.keeps v nowSeen
        refine ⟨still, ?_⟩
        rw [kept, order, enter_mOrder_self, ((first.trans second).keeps n entered).2]
        omega
      · exact restBelow other inRest w otherTarget

theorem calcOrderRecurse_traverses (closed : Closed mNodes) (fuel : Nat) :
    Traverses mNodes (calcOrderRecurse mNodes fuel) := by
  induction fuel with
  | zero =>
    intro marks n depth after ret unseen visited
    cases visited
  | succ fuel ih =>
    intro marks n depth after ret unseen visited
    simp only [calcOrderRecurse, bind_eq_bind, bind_eq_some_iff] at visited
    obtain ⟨node, atIndex, visited⟩ := visited
    have outputs : ∀ l ∈ node.mOutputs, l ∈ node.mOutputs ∧ ∃ v, l.orderScript.bind (findNode mNodes) = some v := by
      intro l mem
      obtain ⟨v, -, target⟩ := closed node (mem_of_getElem? atIndex) l mem
      exact ⟨mem, v, target⟩
    obtain ⟨extend, finished⟩ := visitOutputs_spec ih atIndex outputs (enter_mSeen_self marks n depth) visited
    refine ⟨extend, fun success => ?_⟩
    obtain ⟨-, complete, lt⟩ := finished success
    intro u notYet seen v feeds
    by_cases eq : u = n
    · subst eq
      obtain ⟨other, again, l, mem, target⟩ := feeds
      rw [atIndex] at again
      cases again
      exact lt l mem v target
    · exact complete u (by rwa [enter_mSeen_of_ne eq]) seen v feeds

/-!
## Enough fuel
-/

def unseenNodes (mNodes : List Node) (marks : Marks) : Finset Nat :=
  (Finset.range mNodes.length).filter fun n => marks.mSeen n = false

theorem card_unseenNodes (mNodes : List Node) (marks : Marks) : (unseenNodes mNodes marks).card ≤ mNodes.length := by
  have bound := Finset.card_filter_le (Finset.range mNodes.length) fun n => marks.mSeen n = false
  rwa [Finset.card_range] at bound

theorem Extends.unseen_of_unseen (extend : Extends mNodes before after) (unseen : after.mSeen n = false) :
    before.mSeen n = false := by
  cases seen : before.mSeen n with
  | false => rfl
  | true =>
    have now := (extend.keeps n seen).1
    rw [unseen] at now
    cases now

theorem card_unseenNodes_le (extend : Extends mNodes before after) :
    (unseenNodes mNodes after).card ≤ (unseenNodes mNodes before).card := by
  apply Finset.card_le_card
  intro n mem
  obtain ⟨inside, unseen⟩ := Finset.mem_filter.mp mem
  exact Finset.mem_filter.mpr ⟨inside, extend.unseen_of_unseen unseen⟩

theorem card_unseenNodes_enter_lt (depth : Nat) (inside : n < mNodes.length) (unseen : marks.mSeen n = false) :
    (unseenNodes mNodes (marks.enter n depth)).card < (unseenNodes mNodes marks).card := by
  apply Finset.card_lt_card
  refine ⟨?_, ?_⟩
  · intro other mem
    obtain ⟨inRange, unseenNow⟩ := Finset.mem_filter.mp mem
    have ne : other ≠ n := by
      intro eq
      rw [eq, enter_mSeen_self] at unseenNow
      cases unseenNow
    rw [enter_mSeen_of_ne ne] at unseenNow
    exact Finset.mem_filter.mpr ⟨inRange, unseenNow⟩
  · intro included
    have mem : n ∈ unseenNodes mNodes marks := Finset.mem_filter.mpr ⟨Finset.mem_range.mpr inside, unseen⟩
    have unseenNow := (Finset.mem_filter.mp (included mem)).2
    rw [enter_mSeen_self] at unseenNow
    cases unseenNow

theorem visitOutputs_total (traverses : Traverses mNodes recurse)
    (total : ∀ {marks : Marks} {n : Nat} (depth : Nat), n < mNodes.length → marks.mSeen n = false →
      (unseenNodes mNodes marks).card ≤ fuel → ∃ result, recurse marks n depth = some result) (atIndex : mNodes[n]? = some node)
    (outputs : ∀ l ∈ links, l ∈ node.mOutputs ∧ ∃ v, v < mNodes.length ∧ l.orderScript.bind (findNode mNodes) = some v)
    (ret : Bool) (enough : (unseenNodes mNodes marks).card ≤ fuel) :
    ∃ result, visitOutputs mNodes recurse n links marks ret = some result := by
  induction links generalizing marks ret with
  | nil => exact ⟨_, rfl⟩
  | cons l rest ih =>
    obtain ⟨⟨isOutput, v, inside, target⟩, others⟩ := forall_mem_cons.mp outputs
    rw [visitOutputs_cons _ _ _ _ _ _ target]
    cases seen : marks.mSeen v with
    | true => exact ⟨_, rfl⟩
    | false =>
      obtain ⟨⟨mid, answer⟩, called⟩ := total (marks.mOrder n + 1) inside seen enough
      have fed : ∃ u, Feeds mNodes u v := ⟨n, node, atIndex, l, isOutput, target⟩
      have extend := (extends_enter (marks.mOrder n + 1) seen fed).trans (traverses seen called).1
      obtain ⟨result, continued⟩ := ih others (ret && answer) ((card_unseenNodes_le extend).trans enough)
      exact ⟨result, by simpa [called] using continued⟩

theorem calcOrderRecurse_total (closed : Closed mNodes) (fuel : Nat) (depth : Nat) (inside : n < mNodes.length)
    (unseen : marks.mSeen n = false) (enough : (unseenNodes mNodes marks).card ≤ fuel) :
    ∃ result, calcOrderRecurse mNodes fuel marks n depth = some result := by
  induction fuel generalizing marks n depth with
  | zero =>
    have fewer := card_unseenNodes_enter_lt depth inside unseen
    omega
  | succ fuel ih =>
    have atIndex := List.getElem?_eq_getElem inside
    have fewer := card_unseenNodes_enter_lt depth inside unseen
    have outputs : ∀ l ∈ mNodes[n].mOutputs, l ∈ mNodes[n].mOutputs ∧
        ∃ v, v < mNodes.length ∧ l.orderScript.bind (findNode mNodes) = some v :=
      fun l mem => ⟨mem, closed _ (getElem_mem inside) l mem⟩
    obtain ⟨result, visited⟩ := visitOutputs_total (calcOrderRecurse_traverses closed fuel) ih
      atIndex outputs true (by omega : (unseenNodes mNodes (marks.enter n depth)).card ≤ fuel)
    exact ⟨result, by simpa [calcOrderRecurse, atIndex] using visited⟩

/-!
## Traversals from the nodes without inputs
-/

theorem calcOrderRecurse_first (closed : Closed mNodes) {n depth : Nat}
    (visited : calcOrderRecurse mNodes fuel marks n depth = some (after, ret)) (atIndex : mNodes[n]? = some node)
    (outputs : node.mOutputs = l :: rest) (target : l.orderScript.bind (findNode mNodes) = some v) (ne : v ≠ n)
    (unseen : marks.mSeen v = false) : after.mOrder n < after.mOrder v := by
  cases fuel with
  | zero => cases visited
  | succ fuel =>
    have traverses : Traverses mNodes (calcOrderRecurse mNodes fuel) :=
      calcOrderRecurse_traverses closed fuel
    have later : ∀ other ∈ rest, other ∈ node.mOutputs ∧ ∃ w, other.orderScript.bind (findNode mNodes) = some w := by
      intro other mem
      have isOutput := outputs ▸ mem_cons_of_mem l mem
      obtain ⟨w, -, resolved⟩ := closed node (mem_of_getElem? atIndex) other isOutput
      exact ⟨isOutput, w, resolved⟩
    have notSeen : (marks.enter n depth).mSeen v = false := by
      rwa [enter_mSeen_of_ne ne]
    have fed : ∃ u, Feeds mNodes u v := ⟨n, node, atIndex, l, outputs ▸ mem_cons_self, target⟩
    simp only [calcOrderRecurse, atIndex, bind_eq_bind, bind_some, outputs,
      visitOutputs_cons _ _ _ _ _ _ target, notSeen, Bool.false_eq_true, if_false,
      bind_eq_some_iff] at visited
    obtain ⟨⟨mid, lt⟩, called, continued⟩ := visited
    obtain ⟨deeper, -⟩ := traverses notSeen called
    have first := (extends_enter ((marks.enter n depth).mOrder n + 1) notSeen fed).trans deeper
    have entered := (first.keeps n (enter_mSeen_self _ _ _))
    have second := (visitOutputs_spec traverses atIndex later entered.1 continued).1
    have targetSeen := deeper.keeps v (enter_mSeen_self _ _ _)
    rw [(second.keeps n entered.1).2, entered.2, (second.keeps v targetSeen.1).2, targetSeen.2, enter_mOrder_self _ v]
    omega

def Settled (mNodes : List Node) (marks : Marks) (u : Nat) : Prop :=
  ∀ v, Feeds mNodes u v → marks.mOrder u < marks.mOrder v

def Rooted (mNodes : List Node) : Prop :=
  ∀ {n : Nat} {node : Node}, mNodes[n]? = some node →
    (node.mInputs.length = 0 ↔ ∀ u, ¬ Feeds mNodes u n)

theorem orderNodes_cons {rest : List Nat} {result : Marks × Bool} (ran : orderNodes mNodes (n :: rest) marks ret = some result) :
    ∃ node, mNodes[n]? = some node ∧ ((node.mInputs.length ≠ 0 ∧ orderNodes mNodes rest marks ret = some result) ∨
        (node.mInputs.length = 0 ∧ ∃ middle below, calcOrderRecurse mNodes mNodes.length marks.unseen n 0 = some (middle, below) ∧
          orderNodes mNodes rest middle (ret && below) = some result)) := by
  simp only [orderNodes, bind_eq_bind, bind_eq_some_iff] at ran
  obtain ⟨node, atIndex, ran⟩ := ran
  refine ⟨node, atIndex, ?_⟩
  split at ran
  · rename_i root
    obtain ⟨⟨middle, below⟩, called, continued⟩ := bind_eq_some_iff.mp ran
    exact .inr ⟨root, middle, below, called, continued⟩
  · rename_i inner
    exact .inl ⟨inner, ran⟩

section

variable {mNodes : List Node} {marks after : Marks} {n m r : Nat} {ret answer : Bool}

variable (closed : Closed mNodes)

include closed

theorem root_raises (visited : calcOrderRecurse mNodes fuel marks.unseen n 0 = some (after, ret)) (m : Nat) :
    marks.mOrder m ≤ after.mOrder m := by
  have raised := ((calcOrderRecurse_traverses closed fuel) rfl visited).1.raises m
  by_cases eq : m = n
  · subst eq
    rw [enter_mOrder_self] at raised
    exact (le_max_left _ _).trans raised
  · rwa [enter_mOrder_of_ne eq] at raised

theorem root_keeps_sources (visited : calcOrderRecurse mNodes fuel marks.unseen n 0 = some (after, ret))
    (source : ∀ u, ¬ Feeds mNodes u m) : after.mOrder m = marks.mOrder m := by
  have extend := ((calcOrderRecurse_traverses closed fuel) rfl visited).1
  by_cases eq : m = n
  · subst eq
    rw [(extend.keeps m (enter_mSeen_self _ _ _)).2, enter_mOrder_self]
    exact max_zero _
  · have unseenNow : after.mSeen m = false := by
      cases seen : after.mSeen m with
      | false => rfl
      | true =>
        have unseenBefore : (marks.unseen.enter n 0).mSeen m = false := enter_mSeen_of_ne eq _ _
        obtain ⟨u, feeds⟩ := extend.fed m unseenBefore seen
        exact absurd feeds (source u)
    rw [extend.untouched m unseenNow, enter_mOrder_of_ne eq]
    rfl

theorem root_settles (visited : calcOrderRecurse mNodes fuel marks.unseen n 0 = some (after, true)) :
    (∀ u, Settled mNodes marks u → Settled mNodes after u) ∧
      ∀ u, Relation.ReflTransGen (Feeds mNodes) n u → Settled mNodes after u := by
  obtain ⟨extend, success⟩ := (calcOrderRecurse_traverses closed fuel) rfl visited
  have complete := success rfl
  have settled : ∀ u, after.mSeen u = true → Settled mNodes after u := by
    intro u seen v feeds
    exact (complete u rfl seen v feeds).2
  constructor
  · intro u before
    cases seen : after.mSeen u with
    | true => exact settled u seen
    | false =>
      intro v feeds
      have ne : u ≠ n := by
        intro eq
        have entered := (extend.keeps n (enter_mSeen_self _ _ _)).1
        rw [← eq, seen] at entered
        cases entered
      have eq := extend.untouched u seen
      rw [eq]
      exact (before v feeds).trans_le (root_raises closed visited v)
  · intro u path
    apply settled
    induction path with
    | refl => exact (extend.keeps n (enter_mSeen_self _ _ _)).1
    | tail _ feeds seen => exact (complete _ rfl seen _ feeds).1

theorem orderNodes_raises (ran : orderNodes mNodes indices marks ret = some (after, answer)) (m : Nat) :
    marks.mOrder m ≤ after.mOrder m := by
  induction indices generalizing marks ret with
  | nil =>
    cases ran
    exact le_refl _
  | cons n rest ih =>
    obtain ⟨node, -, inner | ⟨-, mid, lt, called, continued⟩⟩ := orderNodes_cons ran
    · exact ih inner.2
    · exact (root_raises closed called m).trans (ih continued)

theorem orderNodes_keeps_sources (ran : orderNodes mNodes indices marks ret = some (after, answer))
    (source : ∀ u, ¬ Feeds mNodes u m) : after.mOrder m = marks.mOrder m := by
  induction indices generalizing marks ret with
  | nil =>
    cases ran
    rfl
  | cons n rest ih =>
    obtain ⟨node, -, inner | ⟨-, mid, lt, called, continued⟩⟩ := orderNodes_cons ran
    · exact ih inner.2
    · exact (ih continued).trans (root_keeps_sources closed called source)

theorem orderNodes_first (rooted : Rooted mNodes) (ran : orderNodes mNodes indices marks ret = some (after, answer))
    (mem : r ∈ indices) (source : ∀ u, ¬ Feeds mNodes u r) (atIndex : mNodes[r]? = some node)
    (outputs : node.mOutputs = l :: rest) (target : l.orderScript.bind (findNode mNodes) = some v) (ne : v ≠ r) :
    after.mOrder r < after.mOrder v := by
  induction indices generalizing marks ret with
  | nil => cases mem
  | cons n others ih =>
    obtain ⟨found, here, inner | ⟨-, mid, lt, called, continued⟩⟩ := orderNodes_cons ran
    · rcases mem_cons.mp mem with eq | later
      · subst eq
        exact absurd ((rooted here).mpr source) inner.1
      · exact ih inner.2 later
    · rcases mem_cons.mp mem with eq | later
      · subst eq
        have above := calcOrderRecurse_first closed called atIndex outputs target ne rfl
        rw [orderNodes_keeps_sources closed continued source]
        exact above.trans_le (orderNodes_raises closed continued v)
      · exact ih continued later

theorem orderNodes_settles (rooted : Rooted mNodes) (ran : orderNodes mNodes indices marks ret = some (after, true)) :
    ret = true ∧ (∀ u, Settled mNodes marks u → Settled mNodes after u) ∧ ∀ r ∈ indices, (∀ u, ¬ Feeds mNodes u r) →
        ∀ u, Relation.ReflTransGen (Feeds mNodes) r u → Settled mNodes after u := by
  induction indices generalizing marks ret with
  | nil =>
    cases ran
    exact ⟨rfl, fun _ settled => settled, by simp⟩
  | cons n rest ih =>
    obtain ⟨node, atIndex, inner | ⟨-, mid, lt, called, continued⟩⟩ := orderNodes_cons ran
    · obtain ⟨success, keeps, gains⟩ := ih inner.2
      refine ⟨success, keeps, ?_⟩
      intro r mem source
      rcases mem_cons.mp mem with eq | later
      · subst eq
        exact absurd ((rooted atIndex).mpr source) inner.1
      · exact gains r later source
    · obtain ⟨success, keeps, gains⟩ := ih continued
      rw [Bool.and_eq_true] at success
      obtain ⟨previous, rfl⟩ := success
      obtain ⟨firstKeeps, firstGains⟩ := root_settles closed called
      refine ⟨previous, fun u settled => keeps u (firstKeeps u settled), ?_⟩
      intro r mem source
      rcases mem_cons.mp mem with eq | later
      · subst eq
        exact fun u path => keeps u (firstGains u path)
      · exact gains r later source

theorem orderNodes_total (inside : ∀ n ∈ indices, n < mNodes.length) (marks : Marks) (ret : Bool) :
    ∃ result, orderNodes mNodes indices marks ret = some result := by
  induction indices generalizing marks ret with
  | nil => exact ⟨_, rfl⟩
  | cons n rest ih =>
    obtain ⟨bounded, others⟩ := forall_mem_cons.mp inside
    obtain ⟨⟨mid, lt⟩, called⟩ :=
      calcOrderRecurse_total closed mNodes.length 0 bounded rfl (card_unseenNodes mNodes marks.unseen)
    simp only [orderNodes, List.getElem?_eq_getElem bounded, bind_eq_bind, bind_some, called]
    split
    · exact ih others mid (ret && lt)
    · exact ih others marks ret

end

/-!
## The graph of a group
-/

def Edge (mLinks : List Link) (s t : Script) : Prop :=
  ∃ l ∈ mLinks, l.mSource.mScript = s ∧ l.inputScript = some t

def Acyclic (mLinks : List Link) : Prop := ∀ s, ¬ Relation.TransGen (Edge mLinks) s s

section

variable {mNodes : List Node} {mLinks : List Link}

theorem feeds_attach_iff (unlinked : Unlinked mNodes) {u : Nat} : Feeds (mNodes.map (Node.attach mLinks)) u v ↔
      ∃ source target, mNodes[u]? = some source ∧ mNodes[v]? = some target ∧ Edge mLinks source.mScript target.mScript := by
  have labelled := unlinked.toLabelled.attach mLinks
  constructor
  · intro feeds
    obtain ⟨node, atIndex, l, mem, resolved⟩ := feeds
    obtain ⟨s, script, found⟩ := bind_eq_some_iff.mp resolved
    obtain ⟨other, atTarget, eq⟩ := labelled.findNode_eq_some_iff.mp found
    rw [List.getElem?_map] at atIndex atTarget
    obtain ⟨source, atSource, rfl⟩ := map_eq_some_iff.mp atIndex
    obtain ⟨target, atIndexTarget, rfl⟩ := map_eq_some_iff.mp atTarget
    refine ⟨source, target, atSource, atIndexTarget, l, ?_⟩
    have blank := (unlinked.blank source (mem_of_getElem? atSource)).1
    simp only [Node.attach, blank, nil_append, mem_filter, beq_iff_eq] at mem
    refine ⟨mem.1, mem.2, ?_⟩
    rw [← l.orderScript_eq, script]
    exact congrArg some eq.symm
  · intro feeds
    obtain ⟨source, target, atSource, atTarget, l, mem, from', into⟩ := feeds
    refine ⟨source.attach mLinks, by rw [List.getElem?_map, atSource]; rfl, l, ?_, ?_⟩
    · simp [Node.attach, mem, from']
    · rw [l.orderScript_eq, into, bind_some]
      exact labelled.findNode_eq_some_iff.mpr ⟨target.attach mLinks, by rw [List.getElem?_map, atTarget]; rfl, rfl⟩

theorem closed_attach (unlinked : Unlinked mNodes) (within : ∀ l ∈ mLinks, l.Within (mNodes.map Node.mScript)) :
    Closed (mNodes.map (Node.attach mLinks)) := by
  have labelled := unlinked.toLabelled.attach mLinks
  intro node mem l isOutput
  obtain ⟨source, inside, rfl⟩ := List.mem_map.mp mem
  have blank := (unlinked.blank source inside).1
  simp only [Node.attach, blank, nil_append, mem_filter] at isOutput
  obtain ⟨-, t, known, script⟩ := within l isOutput.1
  have stillKnown : t ∈ (mNodes.map (Node.attach mLinks)).map Node.mScript := by
    rw [List.map_map]
    exact known
  obtain ⟨v, found⟩ := labelled.exists_findNode stillKnown
  obtain ⟨target, atIndex, -⟩ := labelled.findNode_eq_some_iff.mp found
  refine ⟨v, (List.getElem?_eq_some_iff.mp atIndex).1, ?_⟩
  simp [l.orderScript_eq, script, found]

theorem rooted_attach (unlinked : Unlinked mNodes) (within : ∀ l ∈ mLinks, l.Within (mNodes.map Node.mScript)) :
    Rooted (mNodes.map (Node.attach mLinks)) := by
  intro n node atIndex
  rw [List.getElem?_map] at atIndex
  obtain ⟨target, atTarget, rfl⟩ := map_eq_some_iff.mp atIndex
  have blank := (unlinked.blank target (mem_of_getElem? atTarget)).2.1
  simp only [Node.attach, blank, nil_append, length_eq_zero_iff, filter_eq_nil_iff, beq_iff_eq]
  constructor
  · intro none u feeds
    obtain ⟨source, other, -, again, l, mem, -, into⟩ := (feeds_attach_iff unlinked).mp feeds
    rw [atTarget] at again
    cases again
    exact none l mem into
  · intro source l mem into
    obtain ⟨known, -⟩ := within l mem
    obtain ⟨above, inside, script⟩ := List.mem_map.mp known
    obtain ⟨u, atSource⟩ := mem_iff_getElem?.mp inside
    exact source u ((feeds_attach_iff unlinked).mpr ⟨above, target, atSource, atTarget, l, mem, script.symm, into⟩)

theorem exists_root (unlinked : Unlinked mNodes) (acyclic : Acyclic mLinks) (n : Nat) :
    ∃ r, Relation.ReflTransGen (Feeds (mNodes.map (Node.attach mLinks))) r n ∧
      ∀ u, ¬ Feeds (mNodes.map (Node.attach mLinks)) u r := by
  let script : Nat → Option Script := fun i => mNodes[i]?.map Node.mScript
  apply Precedence.exists_source_above {i | i < mNodes.length} (Set.finite_lt_nat _)
  · intro first second feeds
    obtain ⟨source, -, atSource, -⟩ := (feeds_attach_iff unlinked).mp feeds
    exact (List.getElem?_eq_some_iff.mp atSource).1
  · intro i cycle
    -- A cycle of positions is a cycle of scripts.
    have climbs : ∀ {first second}, Relation.TransGen (Feeds (mNodes.map (Node.attach mLinks))) first second →
        ∃ source target, script first = some source ∧ script second = some target ∧
          Relation.TransGen (Edge mLinks) source target := by
      intro first second path
      induction path with
      | single feeds =>
        obtain ⟨source, target, atSource, atTarget, edge⟩ := (feeds_attach_iff unlinked).mp feeds
        exact ⟨_, _, by simp [script, atSource], by simp [script, atTarget], .single edge⟩
      | tail _ feeds ih =>
        obtain ⟨source, mid, atFirst, atMiddle, climbed⟩ := ih
        obtain ⟨before, target, atBefore, atTarget, edge⟩ := (feeds_attach_iff unlinked).mp feeds
        simp only [script, atBefore, map_some, Option.some.injEq] at atMiddle
        exact ⟨source, _, atFirst, by simp [script, atTarget], climbed.tail (atMiddle ▸ edge)⟩
    obtain ⟨source, target, atSource, atTarget, path⟩ := climbs cycle
    rw [atSource] at atTarget
    cases atTarget
    exact acyclic source path

end

/-!
## Both builds
-/

def Precedes (mNodes : List Node) (l : Link) : Prop :=
  ∃ t, l.inputScript = some t ∧ [l.mSource.mScript, t] <+ mNodes.map Node.mScript

def Node.finish (mLinks : List Link) (order : Nat) (plain : Node) : Node :=
  { plain.attach mLinks with mOrder := order }

/-- How `calcOrder` arrives at its result: the nodes of the kernels, the labels
before and after the traversals, and the labelled nodes. -/
structure OrderedFrom (mLinks : List Link) (base : List Node) (marks after : Marks)
    (calculated : Calculated) : Prop where
  unlinked : Unlinked base
  within : ∀ l ∈ mLinks, l.Within (base.map Node.mScript)
  zero : ∀ n, marks.mOrder n = 0
  ran : orderNodes (base.map (Node.attach mLinks))
    (List.range (base.map (Node.attach mLinks)).length) marks true = some (after, calculated.ret)
  nodes : calculated.mNodes = (base.map (Node.attach mLinks)).mapIdx
    fun n node => { node with mOrder := after.mOrder n }

theorem calcOrder_orderedFrom {mKernels : List ScriptKernelID} (within : ∀ l ∈ mLinks, l.Within (mKernels.map (·.mScript))) :
    ∃ calculated, calcOrder mKernels mLinks = some calculated ∧
      ∃ base marks after, OrderedFrom mLinks base marks after calculated := by
  obtain ⟨unlinked, scripts⟩ := foldl_addKernel unlinked_nil
  obtain ⟨base, baseEq⟩ : ∃ base, base = mKernels.foldl addKernel [] := ⟨_, rfl⟩
  rw [← baseEq] at unlinked scripts
  have known : ∀ l ∈ mLinks, l.Within (base.map Node.mScript) := by
    intro l mem
    obtain ⟨source, t, target, script⟩ := within l mem
    exact ⟨(scripts _).mpr (.inr source), t, (scripts _).mpr (.inr target), script⟩
  obtain ⟨⟨after, ret⟩, ran⟩ := orderNodes_total (closed_attach unlinked known) (fun n mem => mem_range.mp mem)
    { mSeen := fun _ => false
      mOrder := fun n => ((base.map (Node.attach mLinks))[n]?.elim 0 Node.mOrder) } true
  have zero : ∀ n : Nat, ((base.map (Node.attach mLinks))[n]?.elim 0 Node.mOrder) = 0 := by
    intro n
    cases atIndex : (base.map (Node.attach mLinks))[n]? with
    | none => rfl
    | some node =>
      rw [List.getElem?_map] at atIndex
      obtain ⟨plain, atPlain, rfl⟩ := map_eq_some_iff.mp atIndex
      exact (unlinked.blank plain (mem_of_getElem? atPlain)).2.2
  simp only [calcOrder, ← baseEq, foldlM_addLink unlinked.toLabelled known, bind_eq_bind,
    bind_some, ran, Option.pure_def, Option.some.injEq, exists_eq_left']
  exact ⟨base, _, after, unlinked, known, zero, ran, rfl⟩

section

variable {mLinks : List Link} {base : List Node} {marks after : Marks} {calculated : Calculated}

theorem OrderedFrom.getElem? (ordered : OrderedFrom mLinks base marks after calculated)
    {plain : Node} (atIndex : base[n]? = some plain) :
    calculated.mNodes[n]? = some (plain.finish mLinks (after.mOrder n)) := by
  rw [ordered.nodes, List.getElem?_mapIdx, List.getElem?_map, atIndex]
  rfl

theorem OrderedFrom.scripts (ordered : OrderedFrom mLinks base marks after calculated) :
    calculated.mNodes.map Node.mScript = base.map Node.mScript := by
  rw [ordered.nodes]
  apply ext_getElem?
  intro n
  simp only [List.getElem?_map, List.getElem?_mapIdx, Option.map_map]
  rfl

theorem OrderedFrom.ends (ordered : OrderedFrom mLinks base marks after calculated) (mem : l ∈ mLinks) :
    ∃ u v source target, base[u]? = some source ∧ base[v]? = some target ∧
      source.mScript = l.mSource.mScript ∧ l.inputScript = some target.mScript ∧
      Feeds (base.map (Node.attach mLinks)) u v := by
  obtain ⟨known, t, targetKnown, script⟩ := ordered.within l mem
  obtain ⟨source, inside, from'⟩ := List.mem_map.mp known
  obtain ⟨target, targetInside, rfl⟩ := List.mem_map.mp targetKnown
  obtain ⟨u, atSource⟩ := mem_iff_getElem?.mp inside
  obtain ⟨v, atTarget⟩ := mem_iff_getElem?.mp targetInside
  exact ⟨u, v, source, target, atSource, atTarget, from', script, (feeds_attach_iff ordered.unlinked).mpr
      ⟨source, target, atSource, atTarget, l, mem, from'.symm, script⟩⟩

theorem precedes_of_pair {sorted : List Node} {l : Link} {first second : Node} (source : first.mScript = l.mSource.mScript)
    (target : l.inputScript = some second.mScript) (pair : [first, second] <+ sorted) : Precedes sorted l := by
  refine ⟨second.mScript, target, ?_⟩
  have mapped := pair.map Node.mScript
  rwa [map_cons, map_cons, map_nil, source] at mapped

theorem not_precedes_of_reversed {sorted : List Node} (unique : (sorted.map Node.mScript).Nodup) {l : Link} {first second : Node}
    (source : first.mScript = l.mSource.mScript) (target : l.inputScript = some second.mScript)
    (reversed : [second, first] <+ sorted) :
    ¬ Precedes sorted l := by
  intro precedes
  obtain ⟨t, script, pair⟩ := precedes
  rw [target] at script
  cases script
  have mapped := reversed.map Node.mScript
  rw [map_cons, map_cons, map_nil, source] at mapped
  exact not_pair_sublist_swap unique pair mapped

section

variable {mNodes sorted : List Node} {first second : Node}

theorem pair_of_sortedByCompareNodeForSort (arranged : SortedByCompareNodeForSort mNodes sorted)
    (mem : first ∈ mNodes) (mem' : second ∈ mNodes)
    (lt : first.mOrder < second.mOrder) : [first, second] <+ sorted := by
  apply pair_sublist_of_arranges arranged _ mem mem'
  · simp [CompareNodeForSort, lt]
  · intro eq
    exact ne_of_lt lt (congrArg Node.mOrder eq)

theorem pair_of_sortedByNodeCompare (arranged : SortedByNodeCompare mNodes sorted)
    (mem : first ∈ mNodes) (mem' : second ∈ mNodes)
    (lt : first.mOrder < second.mOrder) : [second, first] <+ sorted := by
  apply pair_sublist_of_arranges arranged _ mem' mem
  · simp [NodeCompare, lt]
  · intro eq
    exact ne_of_gt lt (congrArg Node.mOrder eq)

theorem unique_of_arranges {outOfOrder : Node → Node → Bool}
    (arranged : Arranges outOfOrder mNodes sorted) (unique : (mNodes.map Node.mScript).Nodup) :
    (sorted.map Node.mScript).Nodup := by
  rwa [(arranged.perm.map Node.mScript).nodup_iff]

end

/-- When `calcOrder` reports success, sorting upwards respects every link. -/
theorem OrderedFrom.precedes (ordered : OrderedFrom mLinks base marks after calculated)
    (acyclic : Acyclic mLinks) (success : calculated.ret = true) (arranged : SortedByCompareNodeForSort calculated.mNodes sorted)
    (mem : l ∈ mLinks) : Precedes sorted l := by
  have closed := closed_attach ordered.unlinked ordered.within
  have rooted : Rooted _ := rooted_attach ordered.unlinked ordered.within
  obtain ⟨u, v, source, target, atSource, atTarget, from', into, feeds⟩ := ordered.ends mem
  obtain ⟨r, path, root⟩ := exists_root ordered.unlinked acyclic u
  have inside : r < (base.map (Node.attach mLinks)).length := by
    rcases Relation.ReflTransGen.cases_head path with eq | ⟨next, edge, -⟩
    · subst eq
      rw [length_map]
      exact (List.getElem?_eq_some_iff.mp atSource).1
    · obtain ⟨node, atIndex, -⟩ := edge
      exact (List.getElem?_eq_some_iff.mp atIndex).1
  have settled := (orderNodes_settles closed rooted (success ▸ ordered.ran)).2.2 r (mem_range.mpr inside) root u path
  have lt := settled v feeds
  have firstMember := mem_of_getElem? (ordered.getElem? atSource)
  have secondMember := mem_of_getElem? (ordered.getElem? atTarget)
  have pair := pair_of_sortedByCompareNodeForSort arranged firstMember secondMember lt
  exact @precedes_of_pair _ l (source.finish mLinks (after.mOrder u)) (target.finish mLinks (after.mOrder v)) from' into pair

theorem OrderedFrom.exists_not_precedes (ordered : OrderedFrom mLinks base marks after calculated)
    (acyclic : Acyclic mLinks) (linked : mLinks ≠ []) (arranged : SortedByNodeCompare calculated.mNodes sorted) :
    ∃ l ∈ mLinks, ¬ Precedes sorted l := by
  have closed := closed_attach ordered.unlinked ordered.within
  have rooted : Rooted _ := rooted_attach ordered.unlinked ordered.within
  obtain ⟨link, isLink⟩ := exists_mem_of_ne_nil _ linked
  obtain ⟨u, v, -, -, -, -, -, -, feeds⟩ := ordered.ends isLink
  obtain ⟨r, path, root⟩ := exists_root ordered.unlinked acyclic u
  -- The root starts a path, so it has a first output.
  obtain ⟨next, starts⟩ : ∃ next, Feeds (base.map (Node.attach mLinks)) r next := by
    rcases Relation.ReflTransGen.cases_head path with eq | ⟨next, edge, -⟩
    · exact ⟨v, eq ▸ feeds⟩
    · exact ⟨next, edge⟩
  obtain ⟨node, atRoot, hasOutput⟩ := starts
  obtain ⟨l, rest, outputs⟩ : ∃ l rest, node.mOutputs = l :: rest := by
    obtain ⟨other, mem, -⟩ := hasOutput
    exact exists_cons_of_ne_nil (ne_nil_of_mem mem)
  obtain ⟨plain, atPlain, rfl⟩ := map_eq_some_iff.mp (List.getElem?_map.symm.trans atRoot)
  have isOutput := outputs ▸ mem_cons_self
  obtain ⟨w, -, resolved⟩ := closed _ (mem_of_getElem? atRoot) l isOutput
  have edge : Feeds (base.map (Node.attach mLinks)) r w := ⟨_, atRoot, l, isOutput, resolved⟩
  have ne : w ≠ r := fun eq => root r (eq ▸ edge)
  have inside := mem_range.mpr (List.getElem?_eq_some_iff.mp atRoot).1
  have lt := orderNodes_first closed rooted ordered.ran inside root atRoot outputs resolved ne
  have blank := (ordered.unlinked.blank plain (mem_of_getElem? atPlain)).1
  simp only [Node.attach, blank, nil_append, mem_filter, beq_iff_eq] at isOutput
  obtain ⟨target, atTarget, script⟩ : ∃ target, base[w]? = some target ∧ l.inputScript = some target.mScript := by
    obtain ⟨s, orderScript, found⟩ := bind_eq_some_iff.mp resolved
    obtain ⟨other, atFound, eq⟩ := (ordered.unlinked.toLabelled.attach mLinks).findNode_eq_some_iff.mp found
    obtain ⟨target, atTarget, rfl⟩ := map_eq_some_iff.mp (List.getElem?_map.symm.trans atFound)
    rw [l.orderScript_eq] at orderScript
    exact ⟨target, atTarget, orderScript.trans (congrArg some eq.symm)⟩
  have firstMember := mem_of_getElem? (ordered.getElem? atPlain)
  have secondMember := mem_of_getElem? (ordered.getElem? atTarget)
  have reversed := pair_of_sortedByNodeCompare arranged firstMember secondMember lt
  have unique := unique_of_arranges arranged (ordered.scripts ▸ ordered.unlinked.unique)
  exact ⟨l, isOutput.1, @not_precedes_of_reversed _ unique l
    (plain.finish mLinks (after.mOrder r)) (target.finish mLinks (after.mOrder w))
    isOutput.2.symm script reversed⟩

end

theorem exists_sortedByNodeCompare (mNodes : List Node) : ∃ sorted, SortedByNodeCompare mNodes sorted := by
  refine ⟨_, arranges_mergeSort ?_ ?_ mNodes⟩
  · simp only [NodeCompare, gt_iff_lt, Bool.if_false_right, Bool.and_true, decide_eq_false_iff_not]
    omega
  · simp only [NodeCompare, gt_iff_lt, Bool.if_false_right, Bool.and_true, decide_eq_false_iff_not]
    omega

def RespectsLinks (mLinks : List Link) (sorted : List Node) : Prop :=
  ∀ l ∈ mLinks, Precedes sorted l

/-- With both builds the order respects all links only if there are none. The
build that sorts with `CompareNodeForSort` respects them whenever `calcOrder`
reports success. -/
theorem calcOrder_respectsLinks_iff {mKernels : List ScriptKernelID} {mLinks : List Link}
    (within : ∀ l ∈ mLinks, l.Within (mKernels.map (·.mScript))) (acyclic : Acyclic mLinks) :
    ∃ calculated, calcOrder mKernels mLinks = some calculated ∧
      (((∀ sorted, SortedByCompareNodeForSort calculated.mNodes sorted → RespectsLinks mLinks sorted) ∧
          ∀ sorted, SortedByNodeCompare calculated.mNodes sorted → RespectsLinks mLinks sorted) ↔
        mLinks = []) ∧
      (calculated.ret = true → ∀ sorted, SortedByCompareNodeForSort calculated.mNodes sorted → RespectsLinks mLinks sorted) := by
  obtain ⟨calculated, computed, base, marks, after, ordered⟩ := calcOrder_orderedFrom within
  refine ⟨calculated, computed, ⟨?_, ?_⟩, ?_⟩
  · intro respects
    by_contra linked
    obtain ⟨sorted, arranged⟩ := exists_sortedByNodeCompare calculated.mNodes
    obtain ⟨l, mem, wrong⟩ := ordered.exists_not_precedes acyclic linked arranged
    exact wrong (respects.2 sorted arranged l mem)
  · intro none
    subst none
    constructor
    · intro sorted _ l mem
      cases mem
    · intro sorted _ l mem
      cases mem
  · intro success sorted arranged l mem
    exact ordered.precedes acyclic success arranged mem

theorem acyclic_of_increasing (increasing : ∀ l ∈ mLinks, ∀ t, l.inputScript = some t → l.mSource.mScript < t) :
    Acyclic mLinks := by
  have climbs : ∀ {s t}, Relation.TransGen (Edge mLinks) s t → s < t := by
    intro s t path
    induction path with
    | single edge =>
      obtain ⟨l, mem, rfl, target⟩ := edge
      exact increasing l mem _ target
    | tail _ edge ih =>
      obtain ⟨l, mem, rfl, target⟩ := edge
      exact ih.trans (increasing l mem _ target)
  exact fun s cycle => lt_irrefl s (climbs cycle)

/-- One kernel of script `s`, with input and output. -/
private def kernelOf (s : Script) : ScriptKernelID where
  address := s
  mScript := s
  mSlot := 0
  mHasKernelInput := true
  mHasKernelOutput := true

private theorem one_kernel (target : Script) : (none : Option ScriptFieldID).isSome = !(some (kernelOf target)).isSome := rfl

private def linkOf (source target : Script) : Link where
  mSource := kernelOf source
  mDstKernel := some (kernelOf target)
  mDstField := none
  mAlloc := none
  oneTarget := one_kernel target

theorem calcOrder_respectsLinks_chain : ∃ calculated,
      calcOrder [kernelOf 0, kernelOf 1, kernelOf 2] [linkOf 0 1, linkOf 1 2] = some calculated ∧
      calculated.ret = true ∧
      (∀ sorted, SortedByCompareNodeForSort calculated.mNodes sorted → RespectsLinks [linkOf 0 1, linkOf 1 2] sorted) ∧
      ¬ ∀ sorted, SortedByNodeCompare calculated.mNodes sorted → RespectsLinks [linkOf 0 1, linkOf 1 2] sorted := by
  have within : ∀ l ∈ [linkOf 0 1, linkOf 1 2], l.Within ([kernelOf 0, kernelOf 1, kernelOf 2].map (·.mScript)) := by
    simp [linkOf, kernelOf, Link.Within, Link.inputScript]
  have acyclic : Acyclic [linkOf 0 1, linkOf 1 2] := by
    apply acyclic_of_increasing
    simp [linkOf, kernelOf, Link.inputScript]
  obtain ⟨calculated, computed, both, success⟩ := calcOrder_respectsLinks_iff within acyclic
  have reported : calculated.ret = true := by
    have returned : (calcOrder [kernelOf 0, kernelOf 1, kernelOf 2] [linkOf 0 1, linkOf 1 2]).map (·.ret) = some true := by decide
    rw [computed] at returned
    exact Option.some.inj returned
  refine ⟨calculated, computed, reported, success reported, fun downwards => ?_⟩
  have empty := both.mp ⟨success reported, downwards⟩
  cases empty

private def diamondLinks : List Link := [linkOf 0 3, linkOf 0 1, linkOf 1 2, linkOf 2 3]

private def diamondKernels : List ScriptKernelID :=
  [kernelOf 0, kernelOf 1, kernelOf 2, kernelOf 3]

theorem calcOrder_breaks_diamond : Acyclic diamondLinks ∧ (∀ l ∈ diamondLinks, l.Within (diamondKernels.map (·.mScript))) ∧
      ∃ calculated, calcOrder diamondKernels diamondLinks = some calculated ∧
        (∀ sorted, SortedByCompareNodeForSort calculated.mNodes sorted → ¬ RespectsLinks diamondLinks sorted) ∧
        ∀ sorted, SortedByNodeCompare calculated.mNodes sorted → ¬ RespectsLinks diamondLinks sorted := by
  refine ⟨?_, ?_, ?_⟩
  · apply acyclic_of_increasing
    simp [diamondLinks, linkOf, kernelOf, Link.inputScript]
  · simp [diamondLinks, diamondKernels, linkOf, kernelOf, Link.Within, Link.inputScript]
  have labels : (calcOrder diamondKernels diamondLinks).map
      (fun calculated => calculated.mNodes.map fun n => (n.mScript, n.mOrder)) =
        some [(0, 0), (1, 1), (2, 2), (3, 1)] := by decide
  obtain ⟨calculated, computed, labels⟩ := map_eq_some_iff.mp labels
  have unique : (calculated.mNodes.map Node.mScript).Nodup := by
    have scripts := congrArg (List.map Prod.fst) labels
    rw [List.map_map] at scripts
    rw [show calculated.mNodes.map Node.mScript = [0, 1, 2, 3] from scripts]
    decide
  have labelled : ∀ label ∈ [(0, 0), (1, 1), (2, 2), (3, 1)], ∃ n ∈ calculated.mNodes, (n.mScript, n.mOrder) = label := by
    intro label mem
    rw [← labels] at mem
    exact List.mem_map.mp mem
  obtain ⟨start, inStart, isStart⟩ := labelled (0, 0) (by simp)
  obtain ⟨short, inShort, isShort⟩ := labelled (1, 1) (by simp)
  obtain ⟨long, inLong, isLong⟩ := labelled (2, 2) (by simp)
  obtain ⟨join, inJoin, isJoin⟩ := labelled (3, 1) (by simp)
  simp only [Prod.mk.injEq] at isStart isShort isLong isJoin
  refine ⟨calculated, computed, ?_, ?_⟩
  · intro sorted arranged respects
    have reversed := pair_of_sortedByCompareNodeForSort arranged inJoin inLong (by omega)
    have into : (linkOf 2 3).inputScript = some join.mScript := congrArg some isJoin.1.symm
    exact not_precedes_of_reversed (unique_of_arranges arranged unique) isLong.1 into reversed
      (respects (linkOf 2 3) (by simp [diamondLinks]))
  · intro sorted arranged respects
    have reversed := pair_of_sortedByNodeCompare arranged inStart inShort (by omega)
    have into : (linkOf 0 1).inputScript = some short.mScript := congrArg some isShort.1.symm
    exact not_precedes_of_reversed (unique_of_arranges arranged unique) isStart.1 into reversed
      (respects (linkOf 0 1) (by simp [diamondLinks]))

/-!
## Execution
-/

end RenderScript.Group
