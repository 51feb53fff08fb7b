import RenderScript.Group.ScriptGroupProperties

/-!
# What `calcOrder` returns

`calcOrderRecurse` returns false where a link leads to a node that has been seen. It starts
at nodes without inputs only, and a node stays seen when the traversal leaves it.
-/

namespace RenderScript.Group
open List Option Function

variable {l other : Link} {done rest : List Link} {ret : Bool}

/-!
## Links that lead to different nodes
-/

section

variable {answer : Bool} {u : Nat} {mNodes : List Node}

def Link.target (mNodes : List Node) (l : Link) : Nat := (l.orderScript.bind (findNode mNodes)).getD 0

def outputsAt (mNodes : List Node) (u : Nat) : List Link := (mNodes[u]?.map Node.mOutputs).getD []

theorem outputsAt_eq {node : Node} (atIndex : mNodes[u]? = some node) : outputsAt mNodes u = node.mOutputs := by
  rw [outputsAt, atIndex]
  rfl

theorem exists_node_of_mem_outputsAt (mem : l ∈ outputsAt mNodes u) :
    ∃ node, mNodes[u]? = some node ∧ l ∈ node.mOutputs := by
  cases atIndex : mNodes[u]? with
  | none =>
    rw [outputsAt, atIndex] at mem
    cases mem
  | some node =>
    rw [outputsAt_eq atIndex] at mem
    exact ⟨node, rfl, mem⟩

theorem Closed.target_eq (closed : Closed mNodes) (mem : l ∈ outputsAt mNodes u) :
    l.orderScript.bind (findNode mNodes) = some (l.target mNodes) := by
  obtain ⟨node, atIndex, isOutput⟩ := exists_node_of_mem_outputsAt mem
  obtain ⟨v, -, found⟩ := closed node (mem_of_getElem? atIndex) l isOutput
  rw [Link.target, found]
  rfl

theorem Closed.feeds_iff (closed : Closed mNodes) {v : Nat} :
    Feeds mNodes u v ↔ ∃ l ∈ outputsAt mNodes u, l.target mNodes = v := by
  constructor
  · intro feeds
    obtain ⟨node, atIndex, l, mem, found⟩ := feeds
    exact ⟨l, outputsAt_eq atIndex ▸ mem, by rw [Link.target, found]; rfl⟩
  · intro linked
    obtain ⟨l, mem, rfl⟩ := linked
    obtain ⟨node, atIndex, isOutput⟩ := exists_node_of_mem_outputsAt mem
    exact ⟨node, atIndex, l, isOutput, closed.target_eq mem⟩

/-- Seen since `before`. -/
def Fresh (before after : Marks) (u : Nat) : Prop := before.mSeen u = false ∧ after.mSeen u = true

structure LeadApart (target : Link → Nat) (outs : Nat → List Link) (nodes : Nat → Prop) : Prop where
  each : ∀ u, nodes u → (outs u).Pairwise fun l other => target l ≠ target other
  across : ∀ u v, nodes u → nodes v → u ≠ v → ∀ l ∈ outs u, ∀ other ∈ outs v, target l ≠ target other

structure Treelike (target : Link → Nat) (outs : Nat → List Link) (before after : Marks) (n : Nat) : Prop
    extends LeadApart target outs (Fresh before after) where
  forward : ∀ u, Fresh before after u → ∀ l ∈ outs u, before.mSeen (target l) = false ∧ target l ≠ n

variable {target : Link → Nat} {outs : Nat → List Link} {before marks middle after : Marks} {n v fuel : Nat}

theorem Treelike.of_le (tree : Treelike target outs before after n)
    (grows : ∀ u, middle.mSeen u = true → after.mSeen u = true) : Treelike target outs before middle n where
  each := fun u fresh => tree.each u ⟨fresh.1, grows u fresh.2⟩
  across := fun u v first second => tree.across u v ⟨first.1, grows u first.2⟩ ⟨second.1, grows v second.2⟩
  forward := fun u fresh => tree.forward u ⟨fresh.1, grows u fresh.2⟩

theorem mem_update_append : other ∈ Function.update outs n (done ++ [l]) u ↔
      other ∈ Function.update outs n done u ∨ u = n ∧ other = l := by
  by_cases eq : u = n
  · subst eq
    simp
  · simp [eq]

theorem Treelike.extend (tree : Treelike target (Function.update outs n done) before marks n)
    (arrived : ∀ u, Fresh before marks u → ∀ other ∈ Function.update outs n done u, marks.mSeen (target other) = true)
    (lt : Treelike target outs marks middle (target l)) (unseen : before.mSeen n = false)
    (entered : marks.mSeen n = true) (grows : ∀ u, before.mSeen u = true → marks.mSeen u = true)
    (new : marks.mSeen (target l) = false) :
    Treelike target (Function.update outs n (done ++ [l])) before middle n := by
  have split {u : Nat} (later : Fresh before middle u) : Fresh before marks u ∨ u ≠ n ∧ Fresh marks middle u := by
    cases seen : marks.mSeen u with
    | true => exact .inl ⟨later.1, seen⟩
    | false =>
      refine .inr ⟨?_, seen, later.2⟩
      intro eq
      rw [eq, entered] at seen
      cases seen
  -- links of old nodes lead to seen nodes, or are the new link
  have old {u : Nat} (earlier : Fresh before marks u) {other : Link} (mem : other ∈ Function.update outs n (done ++ [l]) u) :
      marks.mSeen (target other) = true ∨ target other = target l := by
    rcases mem_update_append.mp mem with before | ⟨-, rfl⟩
    · exact .inl (arrived u earlier other before)
    · exact .inr rfl
  have apart {u w : Nat} (earlier : Fresh before marks u) (later : Fresh marks middle w) {other another : Link}
      (first : other ∈ Function.update outs n (done ++ [l]) u) (second : another ∈ outs w) :
      target other ≠ target another := by
    intro eq
    obtain ⟨open', ne⟩ := lt.forward w later another second
    rcases old earlier first with seen | equal
    · rw [eq, open'] at seen
      cases seen
    · exact ne (eq.symm.trans equal)
  have fresher {other : Link} (seen : marks.mSeen (target other) = true) : target other ≠ target l := by
    intro eq
    rw [eq, new] at seen
    cases seen
  refine { each := ?each, across := ?across, forward := ?forward }
  case each =>
    intro u later
    rcases split later with earlier | ⟨ne, inside⟩
    · by_cases eq : u = n
      · subst eq
        have shorter := tree.each u earlier
        have seen := arrived u earlier
        rw [update_self] at shorter seen ⊢
        refine pairwise_append.mpr ⟨shorter, pairwise_singleton _ _, ?_⟩
        intro other mem another last
        rw [mem_singleton.mp last]
        exact fresher (seen other mem)
      · have shorter := tree.each u earlier
        rw [update_of_ne eq] at shorter ⊢
        exact shorter
    · rw [update_of_ne ne]
      exact lt.each u inside
  case across =>
    intro u w first second ne other mem another mem'
    rcases split first with earlier | ⟨uDiffers, inside⟩
    · rcases split second with secondEarlier | ⟨wDiffers, secondInside⟩
      · rcases mem_update_append.mp mem with here | ⟨rfl, rfl⟩
        · rcases mem_update_append.mp mem' with there | ⟨rfl, rfl⟩
          · exact tree.across u w earlier secondEarlier ne other here another there
          · exact fresher (arrived u earlier other here)
        · rcases mem_update_append.mp mem' with there | ⟨eq, -⟩
          · exact (fresher (arrived w secondEarlier another there)).symm
          · exact absurd eq.symm ne
      · rw [update_of_ne wDiffers] at mem'
        exact apart earlier secondInside mem mem'
    · rw [update_of_ne uDiffers] at mem
      rcases split second with secondEarlier | ⟨wDiffers, secondInside⟩
      · exact (apart secondEarlier inside mem' mem).symm
      · rw [update_of_ne wDiffers] at mem'
        exact lt.across u w inside secondInside ne other mem another mem'
  case forward =>
    intro u later other mem
    have out {t : Nat} (open' : marks.mSeen t = false) : before.mSeen t = false ∧ t ≠ n := by
      constructor
      · cases seen : before.mSeen t with
        | false => rfl
        | true =>
          rw [grows t seen] at open'
          cases open'
      · intro eq
        rw [eq, entered] at open'
        cases open'
    rcases split later with earlier | ⟨ne, inside⟩
    · rcases mem_update_append.mp mem with here | ⟨-, rfl⟩
      · exact tree.forward u earlier other here
      · exact out new
    · rw [update_of_ne ne] at mem
      exact out (lt.forward u inside other mem).1

/-- Every node seen in the loop was entered by a link, of node `n` or of another fresh node. -/
def EnteredBy (target : Link → Nat) (outs : Nat → List Link) (before marks : Marks) (n : Nat) (done : List Link) :
    Prop :=
  ∀ v, Fresh before marks v → v ≠ n →
    (∃ l ∈ done, target l = v) ∨ ∃ u, u ≠ n ∧ Fresh before marks u ∧ ∃ l ∈ outs u, target l = v

theorem Treelike.below (tree : Treelike target outs before middle n)
    (split : outs n = done ++ l :: rest) (entered : EnteredBy target outs before marks n done)
    (unseen : before.mSeen n = false) (seen : marks.mSeen n = true) (grows : ∀ u, before.mSeen u = true → marks.mSeen u = true)
    (growsOn : ∀ u, marks.mSeen u = true → middle.mSeen u = true) :
    Treelike target outs marks middle (target l) := by
  have wider {u : Nat} (fresh : Fresh marks middle u) : Fresh before middle u := by
    refine ⟨?_, fresh.2⟩
    cases known : before.mSeen u with
    | false => rfl
    | true =>
      have still := grows u known
      rw [fresh.1] at still
      cases still
  have root : Fresh before middle n := ⟨unseen, growsOn n seen⟩
  refine { each := ?each, across := ?across, forward := ?forward }
  case each => exact fun u fresh => tree.each u (wider fresh)
  case across => exact fun u w first second => tree.across u w (wider first) (wider second)
  case forward =>
    intro u fresh other mem
    have ne : n ≠ u := by
      intro eq
      rw [← eq, Fresh, seen] at fresh
      cases fresh.1
    obtain ⟨open', ahead⟩ := tree.forward u (wider fresh) other mem
    constructor
    · cases known : marks.mSeen (target other) with
      | false => rfl
      | true =>
        rcases entered _ ⟨open', known⟩ ahead with ⟨earlier, listed, eq⟩ | ⟨w, -, earlier, another, listed, eq⟩
        · have inside : earlier ∈ outs n := split ▸ mem_append_left _ listed
          exact absurd eq (tree.across n u root (wider fresh) ne earlier inside other mem)
        · have apart : w ≠ u := by
            intro equal
            rw [equal, Fresh, fresh.1] at earlier
            cases earlier.2
          exact absurd eq (tree.across w u ⟨earlier.1, growsOn w earlier.2⟩ (wider fresh) apart another listed other mem)
    · intro eq
      have inside : l ∈ outs n := split ▸ mem_append_right _ mem_cons_self
      exact tree.across n u root (wider fresh) ne l inside other mem eq.symm

/-!
## The traversal
-/

def Surveys (mNodes : List Node) (recurse : Marks → Nat → Nat → Option (Marks × Bool)) : Prop :=
  ∀ {marks : Marks} {n depth : Nat} {after : Marks} {ret : Bool}, marks.mSeen n = false →
    recurse marks n depth = some (after, ret) →
      EnteredBy (Link.target mNodes) (outputsAt mNodes) marks after n (outputsAt mNodes n) ∧
        (∀ u, Fresh marks after u → Relation.ReflTransGen (Feeds mNodes) n u) ∧
        (ret = true ↔ Treelike (Link.target mNodes) (outputsAt mNodes) marks after n)

/-- What the loop over the outputs knows behind the links `done`. -/
structure Surveyed (mNodes : List Node) (before marks : Marks) (n : Nat) (done : List Link) (ret : Bool) : Prop where
  seen : marks.mSeen n = true
  grows : ∀ u, before.mSeen u = true → marks.mSeen u = true
  entered : EnteredBy (Link.target mNodes) (outputsAt mNodes) before marks n done
  reached : ∀ u, Fresh before marks u → Relation.ReflTransGen (Feeds mNodes) n u
  tree : ret = true →
    Treelike (Link.target mNodes) (Function.update (outputsAt mNodes) n done) before marks n
  arrived : ret = true → ∀ u, Fresh before marks u → ∀ l ∈ Function.update (outputsAt mNodes) n done u,
    marks.mSeen (l.target mNodes) = true
  met : ret = false → ¬ Treelike (Link.target mNodes) (outputsAt mNodes) before marks n

theorem Surveyed.not_treelike (surveyed : Surveyed mNodes before marks n done ret) (unseen : before.mSeen n = false)
    (split : outputsAt mNodes n = done ++ l :: rest) (seen : marks.mSeen (l.target mNodes) = true) :
    ¬ Treelike (Link.target mNodes) (outputsAt mNodes) before marks n := by
  intro tree
  have root : Fresh before marks n := ⟨unseen, surveyed.seen⟩
  have inside := split ▸ mem_append_right _ mem_cons_self
  obtain ⟨open', ahead⟩ := tree.forward n root l inside
  rcases surveyed.entered _ ⟨open', seen⟩ ahead with ⟨other, mem, eq⟩ | ⟨u, ne, fresh, other, mem, eq⟩
  · have each := tree.each n root
    rw [split] at each
    exact (pairwise_append.mp each).2.2 other mem l mem_cons_self eq
  · exact tree.across u n fresh root ne other mem l inside eq

section

variable {recurse : Marks → Nat → Nat → Option (Marks × Bool)} (closed : Closed mNodes)
  (traverses : Traverses mNodes recurse) (surveys : Surveys mNodes recurse)

include closed traverses surveys

theorem Surveyed.step {depth : Nat} {below : Bool} (surveyed : Surveyed mNodes before marks n done ret)
    (unseen : before.mSeen n = false) (split : outputsAt mNodes n = done ++ l :: rest)
    (new : marks.mSeen (l.target mNodes) = false) (called : recurse marks (l.target mNodes) depth = some (middle, below)) :
    Surveyed mNodes before middle n (done ++ [l]) (ret && below) := by
  obtain ⟨deeper, complete⟩ := traverses new called
  obtain ⟨entered, reached, answer⟩ := surveys new called
  have inside := split ▸ mem_append_right _ mem_cons_self
  have feeds := closed.feeds_iff.mpr ⟨l, inside, rfl⟩
  have targetSeen := (deeper.keeps _ (enter_mSeen_self _ _ _)).1
  have growsOn (u : Nat) (seen : marks.mSeen u = true) : middle.mSeen u = true := by
    refine (deeper.keeps u ?_).1
    by_cases eq : u = l.target mNodes
    · rw [eq, enter_mSeen_self]
    · rwa [enter_mSeen_of_ne eq]
  have wider {u : Nat} (fresh : Fresh marks middle u) : u ≠ n ∧ Fresh before middle u := by
    have ne : u ≠ n := by
      intro eq
      rw [eq, Fresh, surveyed.seen] at fresh
      cases fresh.1
    cases known : before.mSeen u with
    | false => exact ⟨ne, known, fresh.2⟩
    | true =>
      have still := surveyed.grows u known
      rw [fresh.1] at still
      cases still
  refine
    { seen := growsOn n surveyed.seen, grows := fun u seen => growsOn u (surveyed.grows u seen)
      entered := ?entered
      reached := ?reached
      tree := ?tree
      arrived := ?arrived
      met := ?met }
  case entered =>
    intro v fresh ne
    cases seen : marks.mSeen v with
    | true =>
      rcases surveyed.entered v ⟨fresh.1, seen⟩ ne with ⟨other, listed, eq⟩ | ⟨u, apart, earlier, linked⟩
      · exact .inl ⟨other, mem_append_left _ listed, eq⟩
      · exact .inr ⟨u, apart, ⟨earlier.1, growsOn u earlier.2⟩, linked⟩
    | false =>
      by_cases eq : v = l.target mNodes
      · exact .inl ⟨l, mem_append_right _ (mem_singleton_self l), eq.symm⟩
      · rcases entered v ⟨seen, fresh.2⟩ eq with linked | ⟨u, -, later, linked⟩
        · obtain ⟨apart, wide⟩ := wider ⟨new, targetSeen⟩
          exact .inr ⟨l.target mNodes, apart, wide, linked⟩
        · obtain ⟨apart, wide⟩ := wider later
          exact .inr ⟨u, apart, wide, linked⟩
  case reached =>
    intro u fresh
    cases seen : marks.mSeen u with
    | true => exact surveyed.reached u ⟨fresh.1, seen⟩
    | false => exact .head feeds (reached u ⟨seen, fresh.2⟩)
  case tree =>
    intro success
    obtain ⟨before', here⟩ := Bool.and_eq_true_iff.mp success
    exact (surveyed.tree before').extend (surveyed.arrived before') (answer.mp here) unseen surveyed.seen surveyed.grows new
  case arrived =>
    intro success u fresh other mem
    obtain ⟨before', here⟩ := Bool.and_eq_true_iff.mp success
    cases seen : marks.mSeen u with
    | true =>
      rcases mem_update_append.mp mem with earlier | ⟨-, rfl⟩
      · exact growsOn _ (surveyed.arrived before' u ⟨fresh.1, seen⟩ other earlier)
      · exact targetSeen
    | false =>
      obtain ⟨apart, -⟩ := wider ⟨seen, fresh.2⟩
      rw [update_of_ne apart] at mem
      exact (complete here u seen fresh.2 _ (closed.feeds_iff.mpr ⟨other, mem, rfl⟩)).1
  case met =>
    intro failure tree
    rcases Bool.and_eq_false_iff.mp failure with before' | here
    · exact surveyed.met before' (tree.of_le growsOn)
    · have below' := tree.below split surveyed.entered unseen surveyed.seen surveyed.grows growsOn
      rw [answer.mpr below'] at here
      cases here

theorem visitOutputs_surveys (unseen : before.mSeen n = false)
    (split : outputsAt mNodes n = done ++ rest) (surveyed : Surveyed mNodes before marks n done ret)
    (visited : visitOutputs mNodes recurse n rest marks ret = some (after, answer)) :
    EnteredBy (Link.target mNodes) (outputsAt mNodes) before after n (outputsAt mNodes n) ∧
      (∀ u, Fresh before after u → Relation.ReflTransGen (Feeds mNodes) n u) ∧
      (answer = true ↔ Treelike (Link.target mNodes) (outputsAt mNodes) before after n) := by
  have more {marks : Marks} {done rest : List Link} (split : outputsAt mNodes n = done ++ rest)
      (entered : EnteredBy (Link.target mNodes) (outputsAt mNodes) before marks n done) :
      EnteredBy (Link.target mNodes) (outputsAt mNodes) before marks n (outputsAt mNodes n) := by
    intro v fresh ne
    rcases entered v fresh ne with ⟨l, mem, eq⟩ | other
    · exact .inl ⟨l, split ▸ mem_append_left _ mem, eq⟩
    · exact .inr other
  induction rest generalizing done marks ret with
  | nil =>
    cases visited
    have whole : Function.update (outputsAt mNodes) n done = outputsAt mNodes := by
      rw [append_nil] at split
      simp [← split]
    refine ⟨more split surveyed.entered, surveyed.reached, ?_⟩
    cases answer with
    | true => exact ⟨fun _ => whole ▸ surveyed.tree rfl, fun _ => rfl⟩
    | false => exact ⟨fun success => (by cases success), fun tree => absurd tree (surveyed.met rfl)⟩
  | cons l rest ih =>
    have inside := split ▸ mem_append_right _ mem_cons_self
    rw [visitOutputs_cons _ _ _ _ _ _ (closed.target_eq inside)] at visited
    cases seen : marks.mSeen (l.target mNodes) with
    | true =>
      simp only [seen, if_true, Option.some.injEq, Prod.mk.injEq] at visited
      obtain ⟨rfl, rfl⟩ := visited
      refine ⟨more split surveyed.entered, surveyed.reached, fun success => (by cases success), fun tree => ?_⟩
      exact absurd tree (surveyed.not_treelike unseen split seen)
    | false =>
      simp only [seen, Bool.false_eq_true, if_false] at visited
      obtain ⟨⟨mid, lt⟩, called, continued⟩ := bind_eq_some_iff.mp visited
      have next := surveyed.step closed traverses surveys unseen split seen called
      exact ih (by rw [split, append_assoc]; rfl) next continued

end

theorem calcOrderRecurse_surveys (closed : Closed mNodes) (fuel : Nat) : Surveys mNodes (calcOrderRecurse mNodes fuel) := by
  induction fuel with
  | zero =>
    intro marks n depth after ret unseen visited
    cases visited
  | succ fuel ih =>
    intro marks n depth after ret unseen visited
    simp only [calcOrderRecurse, bind_eq_bind, bind_eq_some_iff] at visited
    obtain ⟨node, atIndex, visited⟩ := visited
    have only {u : Nat} (fresh : Fresh marks (marks.enter n depth) u) : u = n := by
      by_contra ne
      rw [Fresh, enter_mSeen_of_ne ne] at fresh
      cases fresh.1.symm.trans fresh.2
    have start : Surveyed mNodes marks (marks.enter n depth) n [] true := by
      refine
        { seen := enter_mSeen_self _ _ _, grows := ?grows, entered := fun v fresh ne => absurd (only fresh) ne
          reached := fun u fresh => only fresh ▸ .refl
          tree := fun _ => ?tree
          arrived := ?arrived
          met := fun failure => (by cases failure) }
      case grows =>
        intro u seen
        by_cases eq : u = n
        · rw [eq, enter_mSeen_self]
        · rwa [enter_mSeen_of_ne eq]
      case tree =>
        refine { each := ?each, across := ?across, forward := ?forward }
        case each =>
          intro u fresh
          rw [only fresh, update_self]
          exact .nil
        case across => exact fun u v first second ne => absurd ((only first).trans (only second).symm) ne
        case forward =>
          intro u fresh l mem
          rw [only fresh, update_self] at mem
          cases mem
      case arrived =>
        intro _ u fresh l mem
        rw [only fresh, update_self] at mem
        cases mem
    have split : outputsAt mNodes n = [] ++ node.mOutputs := outputsAt_eq atIndex
    exact visitOutputs_surveys closed (calcOrderRecurse_traverses closed fuel) ih unseen split start visited

theorem calcOrderRecurse_root (closed : Closed mNodes) (source : ∀ u, ¬ Feeds mNodes u n)
    (visited : calcOrderRecurse mNodes fuel marks.unseen n 0 = some (after, ret)) :
    ret = true ↔ LeadApart (Link.target mNodes) (outputsAt mNodes) (Relation.ReflTransGen (Feeds mNodes) n) := by
  obtain ⟨extend, complete⟩ := (calcOrderRecurse_traverses closed fuel) rfl visited
  obtain ⟨-, reached, answer⟩ := (calcOrderRecurse_surveys closed fuel) rfl visited
  constructor
  · intro success
    have tree := answer.mp success
    have seen {u : Nat} (path : Relation.ReflTransGen (Feeds mNodes) n u) : Fresh marks.unseen after u := by
      refine ⟨rfl, ?_⟩
      induction path with
      | refl => exact (extend.keeps n (enter_mSeen_self _ _ _)).1
      | tail _ feeds seen => exact (complete success _ rfl seen _ feeds).1
    exact ⟨fun u path => tree.each u (seen path), fun u v first second => tree.across u v (seen first) (seen second)⟩
  · intro apart
    refine answer.mpr { each := ?each, across := ?across, forward := ?forward }
    case each => exact fun u fresh => apart.each u (reached u fresh)
    case across => exact fun u v first second => apart.across u v (reached u first) (reached v second)
    case forward =>
      intro u fresh l mem
      refine ⟨rfl, fun eq => source u (closed.feeds_iff.mpr ⟨l, mem, eq⟩)⟩

theorem orderNodes_answer (closed : Closed mNodes) (rooted : Rooted mNodes) {indices : List Nat}
    (ran : orderNodes mNodes indices marks ret = some (after, answer)) :
    answer = true ↔ ret = true ∧ ∀ r ∈ indices, (∀ u, ¬ Feeds mNodes u r) →
      LeadApart (Link.target mNodes) (outputsAt mNodes) (Relation.ReflTransGen (Feeds mNodes) r) := by
  induction indices generalizing marks ret with
  | nil =>
    cases ran
    exact ⟨fun success => ⟨success, fun r member => (by cases member)⟩, And.left⟩
  | cons n rest ih =>
    obtain ⟨node, atIndex, ⟨inner, continued⟩ | ⟨root, mid, lt, called, continued⟩⟩ := orderNodes_cons ran
    · rw [ih continued, forall_mem_cons]
      constructor
      · intro good
        exact ⟨good.1, fun source => absurd ((rooted atIndex).mpr source) inner, good.2⟩
      · intro good
        exact ⟨good.1, good.2.2⟩
    · have source := (rooted atIndex).mp root
      rw [ih continued, forall_mem_cons, Bool.and_eq_true, calcOrderRecurse_root closed source called]
      constructor
      · intro good
        exact ⟨good.1.1, fun _ => good.1.2, good.2⟩
      · intro good
        exact ⟨⟨good.1, good.2.1 source⟩, good.2.2⟩

end

/-!
## Scripts and links
-/

/-- No two links of scripts that are reachable from a script without inputs end in one script. -/
def Unmet (mLinks : List Link) : Prop :=
  ∀ r, (∀ l ∈ mLinks, l.inputScript ≠ some r) →
    mLinks.Pairwise fun l other =>
      Relation.ReflTransGen (Edge mLinks) r l.mSource.mScript →
      Relation.ReflTransGen (Edge mLinks) r other.mSource.mScript → l.inputScript ≠ other.inputScript

section

variable {mNodes : List Node} {mLinks : List Link} {r u : Nat} {root node : Node}

theorem outputsAt_attach (unlinked : Unlinked mNodes) (atIndex : mNodes[u]? = some node) :
    outputsAt (mNodes.map (Node.attach mLinks)) u = mLinks.filter (·.mSource.mScript == node.mScript) := by
  have attached : (mNodes.map (Node.attach mLinks))[u]? = some (node.attach mLinks) := by
    rw [List.getElem?_map, atIndex]
    rfl
  rw [outputsAt_eq attached, Node.attach, (unlinked.blank node (mem_of_getElem? atIndex)).1]
  rfl

section

variable (unlinked : Unlinked mNodes) (within : ∀ l ∈ mLinks, l.Within (mNodes.map Node.mScript))

include unlinked within

theorem target_eq_iff (mem : l ∈ mLinks) (mem' : other ∈ mLinks) :
    l.target (mNodes.map (Node.attach mLinks)) = other.target (mNodes.map (Node.attach mLinks)) ↔
      l.inputScript = other.inputScript := by
  have labelled := unlinked.toLabelled.attach mLinks
  have resolve {l : Link} (mem : l ∈ mLinks) : ∃ t, l.inputScript = some t ∧ findNode (mNodes.map (Node.attach mLinks)) t =
        some (l.target (mNodes.map (Node.attach mLinks))) := by
    obtain ⟨-, t, known, script⟩ := within l mem
    have stillKnown : t ∈ (mNodes.map (Node.attach mLinks)).map Node.mScript := by
      rw [List.map_map]
      exact known
    obtain ⟨v, found⟩ := labelled.exists_findNode stillKnown
    refine ⟨t, script, ?_⟩
    rw [Link.target, l.orderScript_eq, script, bind_some, found]
    rfl
  obtain ⟨t, script, found⟩ := resolve mem
  obtain ⟨s, otherScript, otherFound⟩ := resolve mem'
  obtain ⟨target, atTarget, named⟩ := labelled.findNode_eq_some_iff.mp found
  obtain ⟨otherTarget, atOther, otherNamed⟩ := labelled.findNode_eq_some_iff.mp otherFound
  constructor
  · intro eq
    rw [eq, atOther] at atTarget
    cases atTarget
    rw [script, otherScript, ← named, otherNamed]
  · intro eq
    rw [script, otherScript] at eq
    cases eq
    rw [found] at otherFound
    exact Option.some.inj otherFound

theorem reach_attach_iff (atRoot : mNodes[r]? = some root) (atIndex : mNodes[u]? = some node) :
    Relation.ReflTransGen (Feeds (mNodes.map (Node.attach mLinks))) r u ↔
      Relation.ReflTransGen (Edge mLinks) root.mScript node.mScript := by
  constructor
  · intro path
    induction path generalizing node with
    | refl =>
      rw [atRoot] at atIndex
      cases atIndex
      exact .refl
    | tail _ feeds ih =>
      obtain ⟨source, target, atSource, atTarget, edge⟩ := (feeds_attach_iff unlinked).mp feeds
      rw [atIndex] at atTarget
      cases atTarget
      exact (ih atSource).tail edge
  · intro path
    obtain ⟨s, named⟩ : ∃ s, s = node.mScript := ⟨_, rfl⟩
    rw [← named] at path
    induction path generalizing u node with
    | refl =>
      have eq := unlinked.toLabelled.findNode_eq_some_iff.mpr ⟨node, atIndex, named.symm⟩
      rw [unlinked.toLabelled.findNode_eq_some_iff.mpr ⟨root, atRoot, rfl⟩] at eq
      cases eq
      exact .refl
    | tail _ edge ih =>
      obtain ⟨l, mem, source, into⟩ := edge
      obtain ⟨above, inside, script⟩ := List.mem_map.mp (within l mem).1
      obtain ⟨w, atSource⟩ := mem_iff_getElem?.mp inside
      have path := ih atSource (source.symm.trans script.symm)
      refine path.tail ((feeds_attach_iff unlinked).mpr ⟨above, node, atSource, atIndex, l, mem, script.symm, ?_⟩)
      rw [into, named]

theorem source_attach_iff (atRoot : mNodes[r]? = some root) :
    (∀ u, ¬ Feeds (mNodes.map (Node.attach mLinks)) u r) ↔ ∀ l ∈ mLinks, l.inputScript ≠ some root.mScript := by
  constructor
  · intro source l mem into
    obtain ⟨above, inside, script⟩ := List.mem_map.mp (within l mem).1
    obtain ⟨w, atSource⟩ := mem_iff_getElem?.mp inside
    exact source w ((feeds_attach_iff unlinked).mpr ⟨above, root, atSource, atRoot, l, mem, script.symm, into⟩)
  · intro none u feeds
    obtain ⟨source, target, -, atTarget, l, mem, -, into⟩ := (feeds_attach_iff unlinked).mp feeds
    rw [atRoot] at atTarget
    cases atTarget
    exact none l mem into

theorem leadApart_attach_iff (atRoot : mNodes[r]? = some root) :
    LeadApart (Link.target (mNodes.map (Node.attach mLinks))) (outputsAt (mNodes.map (Node.attach mLinks)))
        (Relation.ReflTransGen (Feeds (mNodes.map (Node.attach mLinks))) r) ↔
      mLinks.Pairwise fun l other => Relation.ReflTransGen (Edge mLinks) root.mScript l.mSource.mScript →
        Relation.ReflTransGen (Edge mLinks) root.mScript other.mSource.mScript → l.inputScript ≠ other.inputScript := by
  have nodeOf {l : Link} (mem : l ∈ mLinks) :
      ∃ (u : Nat) (node : Node), mNodes[u]? = some node ∧ node.mScript = l.mSource.mScript := by
    obtain ⟨above, inside, script⟩ := List.mem_map.mp (within l mem).1
    obtain ⟨u, atIndex⟩ := mem_iff_getElem?.mp inside
    exact ⟨u, above, atIndex, script⟩
  have inside {u : Nat} {l : Link} (mem : l ∈ outputsAt (mNodes.map (Node.attach mLinks)) u) :
      ∃ node : Node, mNodes[u]? = some node ∧ l ∈ mLinks ∧ l.mSource.mScript = node.mScript := by
    obtain ⟨node, atAttached, -⟩ := exists_node_of_mem_outputsAt mem
    rw [List.getElem?_map] at atAttached
    obtain ⟨plain, atIndex, -⟩ := map_eq_some_iff.mp atAttached
    rw [outputsAt_attach unlinked atIndex, mem_filter, beq_iff_eq] at mem
    exact ⟨plain, atIndex, mem.1, mem.2⟩
  rw [pairwise_iff_forall_sublist]
  constructor
  · intro apart l other pair first second eq
    have mem : l ∈ mLinks := pair.subset mem_cons_self
    have mem' : other ∈ mLinks := pair.subset (mem_cons_of_mem l (mem_singleton_self other))
    obtain ⟨u, node, atIndex, script⟩ := nodeOf mem
    obtain ⟨v, otherNode, atOther, otherScript⟩ := nodeOf mem'
    have reach := (reach_attach_iff unlinked within atRoot atIndex).mpr (script ▸ first)
    have otherReach := (reach_attach_iff unlinked within atRoot atOther).mpr (otherScript ▸ second)
    have target := (target_eq_iff unlinked within mem mem').mpr eq
    by_cases equal : u = v
    · subst equal
      rw [atIndex] at atOther
      cases atOther
      have each := apart.each u reach
      rw [outputsAt_attach unlinked atIndex, pairwise_iff_forall_sublist] at each
      have kept := pair.filter (·.mSource.mScript == node.mScript)
      have both : [l, other].filter (·.mSource.mScript == node.mScript) = [l, other] := by
        simp [← script, ← otherScript]
      exact each (both ▸ kept) target
    · refine apart.across u v reach otherReach equal l ?_ other ?_ target
      · rw [outputsAt_attach unlinked atIndex, mem_filter, beq_iff_eq]
        exact ⟨mem, script.symm⟩
      · rw [outputsAt_attach unlinked atOther, mem_filter, beq_iff_eq]
        exact ⟨mem', otherScript.symm⟩
  · intro apart
    constructor
    case each =>
      intro u reach
      rw [pairwise_iff_forall_sublist]
      intro l other pair eq
      obtain ⟨node, atIndex, mem, script⟩ := inside (pair.subset mem_cons_self)
      obtain ⟨_, again, mem', otherScript⟩ := inside (pair.subset (mem_cons_of_mem l (mem_singleton_self other)))
      rw [atIndex] at again
      cases again
      have path := (reach_attach_iff unlinked within atRoot atIndex).mp reach
      rw [outputsAt_attach unlinked atIndex] at pair
      exact apart (pair.trans filter_sublist) (script ▸ path) (otherScript ▸ path)
        ((target_eq_iff unlinked within mem mem').mp eq)
    case across =>
      intro u v reach otherReach ne l listed other otherListed eq
      obtain ⟨node, atIndex, mem, script⟩ := inside listed
      obtain ⟨otherNode, atOther, mem', otherScript⟩ := inside otherListed
      have path := (reach_attach_iff unlinked within atRoot atIndex).mp reach
      have otherPath := (reach_attach_iff unlinked within atRoot atOther).mp otherReach
      have scripts := (target_eq_iff unlinked within mem mem').mp eq
      have ne : l ≠ other := by
        intro equal
        subst equal
        have here := unlinked.toLabelled.findNode_eq_some_iff.mpr ⟨node, atIndex, script.symm⟩
        rw [unlinked.toLabelled.findNode_eq_some_iff.mpr ⟨otherNode, atOther, otherScript.symm⟩] at here
        cases here
        exact ne rfl
      rcases Precedence.pair_sublist_or ne mem mem' with pair | pair
      · exact apart pair (script ▸ path) (otherScript ▸ otherPath) scripts
      · exact apart pair (otherScript ▸ otherPath) (script ▸ path) scripts.symm

end

end

/-!
## The answer
-/

section

variable {calculated : Calculated} {mKernels : List ScriptKernelID} {mLinks : List Link} {mNodes after base : List Node}

theorem within_of_addLink (labelled : Labelled mNodes)
    (added : addLink mNodes l = some after) : l.Within (mNodes.map Node.mScript) := by
  simp only [addLink, bind_eq_bind, bind_eq_some_iff] at added
  obtain ⟨n, found, s, script, m, target, -⟩ := added
  rw [labelled.modify_eq_map found] at target
  obtain ⟨source, atSource, named⟩ := labelled.findNode_eq_some_iff.mp found
  refine ⟨List.mem_map.mpr ⟨source, mem_of_getElem? atSource, named⟩, s, ?_, script⟩
  have kept : ∀ write : Node → Node, (∀ node, (write node).mScript = node.mScript) →
      (∀ node, (write node).mKernels = node.mKernels) → findNode (mNodes.map write) s = some m →
      s ∈ mNodes.map Node.mScript := by
    intro write scripts kernels there
    obtain ⟨node, atNode, eq⟩ := (labelled.map scripts kernels).findNode_eq_some_iff.mp there
    obtain ⟨plain, inside, rfl⟩ := List.mem_map.mp (mem_of_getElem? atNode)
    exact List.mem_map.mpr ⟨plain, inside, (scripts plain).symm.trans eq⟩
  refine kept _ ?_ ?_ target
  · intro node
    split
    · rfl
    · rfl
  · intro node
    split
    · rfl
    · rfl

theorem within_of_foldlM_addLink (labelled : Labelled mNodes)
    (added : mLinks.foldlM addLink mNodes = some after) : ∀ l ∈ mLinks, l.Within (mNodes.map Node.mScript) := by
  induction mLinks generalizing mNodes with
  | nil =>
    intro l mem
    cases mem
  | cons l rest ih =>
    rw [foldlM_cons, bind_eq_bind, bind_eq_some_iff] at added
    obtain ⟨mid, first, added⟩ := added
    have here := within_of_addLink labelled first
    rw [addLink_eq labelled here] at first
    cases first
    have later := ih (labelled.attach [l]) added
    rw [List.map_map] at later
    exact forall_mem_cons.mpr ⟨here, later⟩

theorem within_of_calcOrder (ordered : calcOrder mKernels mLinks = some calculated) :
    ∀ l ∈ mLinks, l.Within (mKernels.map (·.mScript)) := by
  obtain ⟨unlinked, scripts⟩ := @foldl_addKernel mKernels [] unlinked_nil
  simp only [calcOrder, bind_eq_bind, bind_eq_some_iff] at ordered
  obtain ⟨linked, added, -⟩ := ordered
  intro l mem
  obtain ⟨source, t, target, script⟩ := within_of_foldlM_addLink unlinked.toLabelled added l mem
  have known {s : Script} (listed : s ∈ (mKernels.foldl addKernel []).map Node.mScript) : s ∈ mKernels.map (·.mScript) := by
    rcases (scripts s).mp listed with none | kernel
    · cases none
    · exact kernel
  exact ⟨known source, t, known target, script⟩

theorem OrderedFrom.ret_iff {marks after : Marks}
    (ordered : OrderedFrom mLinks base marks after calculated) : calculated.ret = true ↔ Unmet mLinks := by
  have closed := closed_attach ordered.unlinked ordered.within
  have rooted : Rooted _ := rooted_attach ordered.unlinked ordered.within
  rw [orderNodes_answer closed rooted ordered.ran]
  constructor
  · intro good r source
    by_cases known : r ∈ base.map Node.mScript
    · obtain ⟨root, inside, rfl⟩ := List.mem_map.mp known
      obtain ⟨i, atRoot⟩ := mem_iff_getElem?.mp inside
      have lt : i < (base.map (Node.attach mLinks)).length := by
        rw [length_map]
        exact (List.getElem?_eq_some_iff.mp atRoot).1
      exact (leadApart_attach_iff ordered.unlinked ordered.within atRoot).mp
        (good.2 i (mem_range.mpr lt) ((source_attach_iff ordered.unlinked ordered.within atRoot).mpr source))
    · -- a script outside the group has no links
      rw [pairwise_iff_forall_sublist]
      intro l other pair reach
      have mem : l ∈ mLinks := pair.subset mem_cons_self
      rcases Relation.ReflTransGen.cases_head reach with eq | ⟨next, edge, -⟩
      · exact absurd (eq ▸ (ordered.within l mem).1) known
      · obtain ⟨first, listed, from', -⟩ := edge
        exact absurd (from' ▸ (ordered.within first listed).1) known
  · intro unmet
    refine ⟨rfl, ?_⟩
    intro i mem source
    have lt := mem_range.mp mem
    rw [length_map] at lt
    have atRoot := List.getElem?_eq_getElem lt
    exact (leadApart_attach_iff ordered.unlinked ordered.within atRoot).mpr
      (unmet _ ((source_attach_iff ordered.unlinked ordered.within atRoot).mp source))

/-- `calcOrder` comes to an end and tells whether there is a cycle, exactly if every link stays in
the group and cycles are the only way to meet a node again. -/
theorem calcOrder_tells_acyclic_iff (mKernels : List ScriptKernelID) (mLinks : List Link) :
    (∃ calculated, calcOrder mKernels mLinks = some calculated ∧ (calculated.ret = true ↔ Acyclic mLinks)) ↔
      (∀ l ∈ mLinks, l.Within (mKernels.map (·.mScript))) ∧ (Unmet mLinks ↔ Acyclic mLinks) := by
  constructor
  · intro tells
    obtain ⟨calculated, ran, answer⟩ := tells
    have within := within_of_calcOrder ran
    obtain ⟨again, eq, base, marks, after, ordered⟩ := calcOrder_orderedFrom within
    rw [ran] at eq
    cases eq
    exact ⟨within, ordered.ret_iff.symm.trans answer⟩
  · intro cond
    obtain ⟨within, unmet⟩ := cond
    obtain ⟨calculated, ran, base, marks, after, ordered⟩ := calcOrder_orderedFrom within
    exact ⟨calculated, ran, ordered.ret_iff.trans unmet⟩

def onlyKernel (s : Script) : ScriptKernelID where
  address := s
  mScript := s
  mSlot := 0
  mHasKernelInput := true
  mHasKernelOutput := true

theorem link_oneTarget (target : Script) : (none : Option ScriptFieldID).isSome = !(some (onlyKernel target)).isSome := rfl

def scriptLink (source target : Script) : Link where
  mSource := onlyKernel source
  mDstKernel := some (onlyKernel target)
  mDstField := none
  mAlloc := none
  oneTarget := link_oneTarget target

/-- A diamond is taken for a cycle, and two scripts that feed each other are not. -/
theorem calcOrder_rejects_diamond_accepts_cycle :
    (∃ calculated, calcOrder [onlyKernel 0, onlyKernel 1, onlyKernel 2, onlyKernel 3]
        [scriptLink 0 1, scriptLink 0 2, scriptLink 1 3, scriptLink 2 3] = some calculated ∧
      calculated.ret = false) ∧
    Acyclic [scriptLink 0 1, scriptLink 0 2, scriptLink 1 3, scriptLink 2 3] ∧
    (∃ calculated, calcOrder [onlyKernel 0, onlyKernel 1] [scriptLink 0 1, scriptLink 1 0] = some calculated ∧
      calculated.ret = true) ∧
    ¬ Acyclic [scriptLink 0 1, scriptLink 1 0] := by
  refine ⟨?_, ?_, ?_, ?_⟩
  · have returned : (calcOrder [onlyKernel 0, onlyKernel 1, onlyKernel 2, onlyKernel 3]
        [scriptLink 0 1, scriptLink 0 2, scriptLink 1 3, scriptLink 2 3]).map (·.ret) = some false := by decide
    exact map_eq_some_iff.mp returned
  · apply acyclic_of_increasing
    simp [scriptLink, onlyKernel, Link.inputScript]
  · have returned : (calcOrder [onlyKernel 0, onlyKernel 1] [scriptLink 0 1, scriptLink 1 0]).map (·.ret) =
        some true := by decide
    exact map_eq_some_iff.mp returned
  · intro acyclic
    have there : Edge [scriptLink 0 1, scriptLink 1 0] 0 1 := ⟨scriptLink 0 1, mem_cons_self, rfl, rfl⟩
    have back : Edge [scriptLink 0 1, scriptLink 1 0] 1 0 := ⟨scriptLink 1 0, mem_cons_of_mem _ mem_cons_self, rfl, rfl⟩
    exact acyclic 0 (.tail (.single there) back)

end

end RenderScript.Group
