import RenderScript.Group.GroupCreation

/-!
# Length of the traversals of a script group

`calcOrderRecurse` with a list of the nodes for which it is entered. A traversal enters no node twice,
and labels a node with the length of a path to it.
-/

namespace RenderScript.Group
open Precedence List Option

variable {node : Node} {links : List Link} {recurse : Marks → Nat → Nat → Option (Marks × Bool)} {n depth : Nat}
  {ret answer : Bool}

def withoutLog (result : Marks × Bool × List Nat) : Marks × Bool := (result.1, result.2.1)

def visitOutputsLogged (mNodes : List Node) (recurse : Marks → Nat → Nat → Option (Marks × Bool × List Nat))
    (n : Nat) : List Link → Marks → Bool → Option (Marks × Bool × List Nat)
  | [], marks, ret => some (marks, ret, [])
  | l :: rest, marks, ret => do
      let nt ← findNode mNodes (← l.orderScript)
      if marks.mSeen nt then
        return (marks, false, [])
      let (marks, answer, entered) ← recurse marks nt (marks.mOrder n + 1)
      let (marks, ret, later) ← visitOutputsLogged mNodes recurse n rest marks (ret && answer)
      return (marks, ret, entered ++ later)

def calcOrderRecurseLogged (mNodes : List Node) : Nat → Marks → Nat → Nat → Option (Marks × Bool × List Nat)
  | 0, _, _, _ => none
  | fuel + 1, marks, n, depth => do
      let node ← mNodes[n]?
      let (marks, ret, entered) ←
        visitOutputsLogged mNodes (calcOrderRecurseLogged mNodes fuel) n node.mOutputs (marks.enter n depth) true
      return (marks, ret, n :: entered)

section

variable {mNodes : List Node}

theorem visitOutputsLogged_results {logged : Marks → Nat → Nat → Option (Marks × Bool × List Nat)}
    (agrees : ∀ marks n depth, (logged marks n depth).map withoutLog = recurse marks n depth) (n : Nat)
    (links : List Link) (marks : Marks) (ret : Bool) :
    (visitOutputsLogged mNodes logged n links marks ret).map withoutLog = visitOutputs mNodes recurse n links marks ret := by
  induction links generalizing marks ret with
  | nil => rfl
  | cons l rest ih =>
    simp only [visitOutputsLogged, visitOutputs, bind_eq_bind]
    cases l.orderScript with
    | none => rfl
    | some script =>
      simp only [bind_some]
      cases findNode mNodes script with
      | none => rfl
      | some nt =>
        simp only [bind_some]
        cases marks.mSeen nt with
        | true => rfl
        | false =>
          rw [← agrees]
          cases logged marks nt (marks.mOrder n + 1) with
          | none => rfl
          | some result =>
            simp only [Bool.false_eq_true, if_false, bind_some, map_some, withoutLog]
            rw [← ih]
            cases visitOutputsLogged mNodes logged n rest result.1 (ret && result.2.1) with
            | none => rfl
            | some later => rfl

theorem calcOrderRecurseLogged_results (fuel : Nat) (marks : Marks) (n depth : Nat) :
    (calcOrderRecurseLogged mNodes fuel marks n depth).map withoutLog = calcOrderRecurse mNodes fuel marks n depth := by
  induction fuel generalizing marks n depth with
  | zero => rfl
  | succ fuel ih =>
    simp only [calcOrderRecurseLogged, calcOrderRecurse, bind_eq_bind]
    cases mNodes[n]? with
    | none => rfl
    | some node =>
      simp only [bind_some]
      rw [← visitOutputsLogged_results ih]
      cases visitOutputsLogged mNodes (calcOrderRecurseLogged mNodes fuel) n node.mOutputs (marks.enter n depth)
        true with
      | none => rfl
      | some result => rfl

end

/-- The nodes that were entered since `before`. -/
structure Logs (before after : Marks) (entered : List Nat) : Prop where
  once : entered.Nodup
  fresh : ∀ n ∈ entered, before.mSeen n = false ∧ after.mSeen n = true
  keeps : ∀ n, before.mSeen n = true → after.mSeen n = true

section

variable {mNodes : List Node} {before middle after marks : Marks} {entered later : List Nat}

theorem Logs.refl (marks : Marks) : Logs marks marks [] where
  once := nodup_nil
  fresh := by simp
  keeps := fun _ seen => seen

theorem Logs.append (first : Logs before middle entered) (second : Logs middle after later) :
    Logs before after (entered ++ later) where
  once := by
    refine nodup_append.mpr ⟨first.once, second.once, ?_⟩
    rintro n early _ late rfl
    have seen := (first.fresh n early).2
    rw [(second.fresh n late).1] at seen
    cases seen
  fresh := by
    intro n mem
    rcases mem_append.mp mem with early | late
    · exact ⟨(first.fresh n early).1, second.keeps n (first.fresh n early).2⟩
    · refine ⟨?_, (second.fresh n late).2⟩
      cases seen : before.mSeen n with
      | false => rfl
      | true => exact absurd (first.keeps n seen) (by simp [(second.fresh n late).1])
  keeps := fun n seen => second.keeps n (first.keeps n seen)

theorem logs_enter (depth : Nat) (unseen : marks.mSeen n = false) : Logs marks (marks.enter n depth) [n] where
  once := nodup_singleton n
  fresh := by simp [unseen]
  keeps := by
    intro other seen
    by_cases eq : other = n
    · rw [eq, enter_mSeen_self]
    · rw [enter_mSeen_of_ne eq, seen]

theorem visitOutputsLogged_logs {recurse : Marks → Nat → Nat → Option (Marks × Bool × List Nat)}
    (logs : ∀ {marks n depth after ret entered}, marks.mSeen n = false →
      recurse marks n depth = some (after, ret, entered) → Logs marks after entered)
    (visited : visitOutputsLogged mNodes recurse n links marks ret = some (after, answer, entered)) :
    Logs marks after entered := by
  induction links generalizing marks ret entered with
  | nil =>
    cases visited
    exact .refl _
  | cons l rest ih =>
    simp only [visitOutputsLogged, bind_eq_bind, bind_eq_some_iff] at visited
    obtain ⟨script, -, nt, -, visited⟩ := visited
    split at visited
    case isTrue =>
      cases visited
      exact .refl _
    case isFalse unseen =>
      obtain ⟨⟨mid, lt, first⟩, called, visited⟩ := bind_eq_some_iff.mp visited
      obtain ⟨⟨last, lastAnswer, second⟩, continued, returned⟩ := bind_eq_some_iff.mp visited
      cases returned
      exact (logs (Bool.eq_false_of_not_eq_true unseen) called).append (ih continued)

theorem calcOrderRecurseLogged_logs (fuel : Nat) (unseen : marks.mSeen n = false)
    (visited : calcOrderRecurseLogged mNodes fuel marks n depth = some (after, ret, entered)) :
    Logs marks after entered := by
  induction fuel generalizing marks n depth after ret entered with
  | zero => cases visited
  | succ fuel ih =>
    simp only [calcOrderRecurseLogged, bind_eq_bind, bind_eq_some_iff] at visited
    obtain ⟨node, -, ⟨last, answer, lt⟩, visited, returned⟩ := visited
    cases returned
    exact (logs_enter depth unseen).append (visitOutputsLogged_logs ih visited)

end

def Reached (mNodes : List Node) (marks : Marks) : Prop :=
  ∀ n, PathTo (Feeds mNodes) (marks.mOrder n) n

section

variable {mNodes : List Node} {marks after : Marks}

theorem Reached.enter (reached : Reached mNodes marks) (path : PathTo (Feeds mNodes) depth n) :
    Reached mNodes (marks.enter n depth) := by
  intro other
  by_cases eq : other = n
  · rw [eq, enter_mOrder_self]
    rcases max_choice (marks.mOrder n) depth with kept | raised
    · rw [kept]
      exact reached n
    · rw [raised]
      exact path
  · rw [enter_mOrder_of_ne eq]
    exact reached other

theorem visitOutputs_reached (keeps : ∀ {marks n depth after ret}, Reached mNodes marks → PathTo (Feeds mNodes) depth n →
      recurse marks n depth = some (after, ret) → Reached mNodes after) (atIndex : mNodes[n]? = some node)
    (outputs : ∀ l ∈ links, l ∈ node.mOutputs) (reached : Reached mNodes marks)
    (visited : visitOutputs mNodes recurse n links marks ret = some (after, answer)) : Reached mNodes after := by
  induction links generalizing marks ret with
  | nil =>
    cases visited
    exact reached
  | cons l rest ih =>
    obtain ⟨isOutput, others⟩ := forall_mem_cons.mp outputs
    simp only [visitOutputs, bind_eq_bind, bind_eq_some_iff] at visited
    obtain ⟨script, named, nt, found, visited⟩ := visited
    split at visited
    case isTrue =>
      cases visited
      exact reached
    case isFalse =>
      obtain ⟨⟨mid, lt⟩, called, continued⟩ := bind_eq_some_iff.mp visited
      have feeds : Feeds mNodes n nt := ⟨node, atIndex, l, isOutput, by simp [named, found]⟩
      exact ih others (keeps reached (.step (reached n) feeds) called) continued

theorem calcOrderRecurse_reached (fuel : Nat) (reached : Reached mNodes marks) (path : PathTo (Feeds mNodes) depth n)
    (visited : calcOrderRecurse mNodes fuel marks n depth = some (after, ret)) : Reached mNodes after := by
  induction fuel generalizing marks n depth after ret with
  | zero => cases visited
  | succ fuel ih =>
    simp only [calcOrderRecurse, bind_eq_bind, bind_eq_some_iff] at visited
    obtain ⟨node, atIndex, visited⟩ := visited
    exact visitOutputs_reached ih atIndex (fun _ mem => mem) (reached.enter path) visited

theorem orderNodes_reached {indices : List Nat} (reached : Reached mNodes marks)
    (ran : orderNodes mNodes indices marks ret = some (after, answer)) : Reached mNodes after := by
  induction indices generalizing marks ret with
  | nil =>
    cases ran
    exact reached
  | cons n rest ih =>
    obtain ⟨node, -, inner | ⟨-, mid, lt, called, continued⟩⟩ := orderNodes_cons ran
    · exact ih reached inner.2
    · have unseen : Reached mNodes marks.unseen := reached
      exact ih (calcOrderRecurse_reached _ unseen (.start n) called) continued

end

section

variable {mLinks : List Link} {base mNodes : List Node} {marks after : Marks} {calculated : Calculated}

/-- A path between nodes is a path of links between their scripts. -/
theorem pathTo_script (unlinked : Unlinked base) {length : Nat}
    (path : PathTo (Feeds (base.map (Node.attach mLinks))) length n) {plain : Node} (atIndex : base[n]? = some plain) :
    PathTo (Edge mLinks) length plain.mScript := by
  induction path generalizing plain with
  | start n => exact .start _
  | step path feeds ih =>
    obtain ⟨source, target, atSource, atTarget, edge⟩ := (feeds_attach_iff unlinked).mp feeds
    rw [atIndex] at atTarget
    cases atTarget
    exact .step (ih atSource) edge

theorem OrderedFrom.exists_longest (ordered : OrderedFrom mLinks base marks after calculated)
    (acyclic : Acyclic mLinks) (mem : node ∈ calculated.mNodes) :
    ∃ longest, IsGreatest (fun length => PathTo (Edge mLinks) length node.mScript) longest ∧ node.mOrder ≤ longest := by
  have targets : ∀ {s t}, Edge mLinks s t → t ∈ mLinks.filterMap Link.inputScript := by
    rintro s t ⟨l, listed, -, target⟩
    exact mem_filterMap.mpr ⟨l, listed, target⟩
  obtain ⟨longest, greatest⟩ := Precedence.exists_longest targets acyclic node.mScript
  refine ⟨longest, greatest, greatest.2 ?_⟩
  obtain ⟨n, atNode⟩ := mem_iff_getElem?.mp mem
  obtain ⟨plain, atPlain⟩ : ∃ plain, base[n]? = some plain := by
    have inside := (List.getElem?_eq_some_iff.mp atNode).1
    rw [ordered.nodes, length_mapIdx, length_map] at inside
    exact ⟨_, List.getElem?_eq_getElem inside⟩
  rw [ordered.getElem? atPlain] at atNode
  cases atNode
  have start : Reached (base.map (Node.attach mLinks)) marks := by
    intro m
    rw [ordered.zero]
    exact .start m
  have path := pathTo_script ordered.unlinked (orderNodes_reached start ordered.ran n) atPlain
  exact path

theorem Closed.exists_traversal (closed : Closed mNodes) (marks : Marks) (inside : n < mNodes.length) :
    ∃ after ret entered, calcOrderRecurse mNodes mNodes.length marks.unseen n 0 = some (after, ret) ∧
        calcOrderRecurseLogged mNodes mNodes.length marks.unseen n 0 = some (after, ret, entered) ∧
        entered.Nodup := by
  have enough := card_unseenNodes mNodes marks.unseen
  obtain ⟨⟨after, ret⟩, visited⟩ := calcOrderRecurse_total closed mNodes.length 0 inside rfl enough
  obtain ⟨⟨last, answer, entered⟩, logged, eq⟩ := map_eq_some_iff.mp ((calcOrderRecurseLogged_results _ _ _ _).trans visited)
  cases eq
  exact ⟨_, _, entered, visited, logged, (calcOrderRecurseLogged_logs _ rfl logged).once⟩

end

/-- For links inside the group, with cycles or not, `calcOrder` comes to an end, and so does the traversal
from any node, which enters no node twice. Without cycles, labels are not above the longest path. -/
theorem calcOrder_bounded {mKernels : List ScriptKernelID} {mLinks : List Link}
    (within : ∀ l ∈ mLinks, l.Within (mKernels.map (·.mScript))) :
    ∃ calculated mNodes, calcOrder mKernels mLinks = some calculated ∧
      mLinks.foldlM addLink (mKernels.foldl addKernel []) = some mNodes ∧
      (∀ (marks : Marks) (n : Nat), n < mNodes.length → ∃ after ret entered,
        calcOrderRecurse mNodes mNodes.length marks.unseen n 0 = some (after, ret) ∧
          calcOrderRecurseLogged mNodes mNodes.length marks.unseen n 0 = some (after, ret, entered) ∧
          entered.Nodup) ∧
      (Acyclic mLinks → ∀ node ∈ calculated.mNodes,
        ∃ longest, IsGreatest (fun length => PathTo (Edge mLinks) length node.mScript) longest ∧ node.mOrder ≤ longest) := by
  obtain ⟨calculated, ran, base, marks, after, ordered⟩ := calcOrder_orderedFrom within
  obtain ⟨unlinked, scripts⟩ := foldl_addKernel unlinked_nil
  have known : ∀ l ∈ mLinks, l.Within ((mKernels.foldl addKernel []).map Node.mScript) := by
    intro l mem
    obtain ⟨source, t, target, script⟩ := within l mem
    exact ⟨(scripts _).mpr (.inr source), t, (scripts _).mpr (.inr target), script⟩
  refine ⟨calculated, _, ran, foldlM_addLink unlinked.toLabelled known, ?_, ?_⟩
  · exact fun marks n inside => (closed_attach unlinked known).exists_traversal marks inside
  · exact fun acyclic node mem => ordered.exists_longest acyclic mem

/-- A script that leads to a cycle with a self link. -/
theorem calcOrder_bounded_cycle : ∃ calculated, calcOrder [onlyKernel 0, onlyKernel 1, onlyKernel 2]
      [scriptLink 0 1, scriptLink 1 2, scriptLink 2 1, scriptLink 2 2] = some calculated := by
  obtain ⟨calculated, -, ran, -⟩ := @calcOrder_bounded [onlyKernel 0, onlyKernel 1, onlyKernel 2]
    [scriptLink 0 1, scriptLink 1 2, scriptLink 2 1, scriptLink 2 2]
    (by simp [Link.Within, scriptLink, onlyKernel, Link.inputScript])
  exact ⟨calculated, ran⟩

end RenderScript.Group
