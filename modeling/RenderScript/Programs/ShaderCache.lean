import RenderScript.Foundation.Interleaving

/-!
# The cache of linked shaders

`RsdShaderCache` of driver/rsdShaderCache.cpp, with the part of `RsdShader` that makes the
shader of a set of texture targets. Shaders and entries are addresses, and what GL answers is
given with the call. Zero is the name of no GL object.
-/

namespace RenderScript.ShaderCache
open List

structure StateBasedKey where
  mShaderID : Nat
  mTextureTargets : List Nat

structure Declared where
  mAttribNames : List String
  mUniformNames : List (String × UInt32)

inductive Kind where
  | vertex
  | fragment
  deriving DecidableEq

structure RsdShader where
  mStateBasedShaders : List StateBasedKey := []
  mCurrentState : Option StateBasedKey := none

structure Compiling where
  shaderID : Nat
  compiled : Bool
  infoLen : Nat

def Compiling.loadShader (gl : Compiling) : Nat :=
  if gl.shaderID ≠ 0 ∧ gl.compiled = false ∧ gl.infoLen ≠ 0 then 0 else gl.shaderID

namespace RsdShader

def getExistingState (shader : RsdShader) (targets : List Nat) : Option StateBasedKey :=
  shader.mStateBasedShaders.foldl
    (fun _ key => if key.mTextureTargets = targets then some key else none) none

def getStateBasedShaderID (shader : RsdShader) (targets : List Nat) (gl : Compiling) : Nat × RsdShader :=
  match shader.getExistingState targets with
  | some key => (key.mShaderID, { shader with mCurrentState := some key })
  | none =>
    let key : StateBasedKey := { mShaderID := gl.loadShader, mTextureTargets := targets }
    (key.mShaderID, { mStateBasedShaders := shader.mStateBasedShaders ++ [key], mCurrentState := some key })

def ids (shader : RsdShader) : List Nat := shader.mStateBasedShaders.map (·.mShaderID)

end RsdShader

structure UniformData where
  slot : Int
  arraySize : UInt32

structure AttrData where
  slot : Int
  name : String

/-- `linked`, `vertex` and `fragment` are bookkeeping: whether the program was linked, and the
shaders that it was made of. -/
structure ProgramEntry where
  address : Nat
  vtx : Nat
  frag : Nat
  program : Nat
  vtxAttrs : List AttrData := []
  vtxUniforms : List UniformData := []
  fragUniforms : List UniformData := []
  linked : Bool := false
  vertex : Nat
  fragment : Nat

structure Linking where
  program : Nat
  linkStatus : Bool
  attribLocation : String → Int
  uniformLocation : String → Int
  activeUniforms : List (String × Int)

def populateUniformData (gl : Linking) (prog : Declared) : List UniformData :=
  prog.mUniformNames.map fun uniform =>
    { slot := gl.uniformLocation uniform.1, arraySize := uniform.2 }

def UniformData.isArray (data : UniformData) : Bool := decide (data.slot ≥ 0) && decide (data.arraySize > 1)

def updateUniformArrayData (uniformList : List (String × Int)) (prog : Declared)
    (data : List UniformData) : List UniformData :=
  List.zipWith (fun uniform data =>
    if data.isArray then
      match uniformList.find? (·.1 == uniform.1) with
      | some active => { data with arraySize := .ofInt active.2 }
      | none => data
    else data) prog.mUniformNames data

/-- The part of `link` behind `glLinkProgram`. -/
def ProgramEntry.populate (gl : Linking) (vtx frag : Declared) (e : ProgramEntry) : ProgramEntry :=
  let vtxUniforms := populateUniformData gl vtx
  let fragUniforms := populateUniformData gl frag
  let hasArrays := vtxUniforms.any (·.isArray) || fragUniforms.any (·.isArray)
  let uniformList := if hasArrays then gl.activeUniforms else []
  { e with
    vtxAttrs := vtx.mAttribNames.map fun name => { slot := gl.attribLocation name, name := name }
    vtxUniforms := updateUniformArrayData uniformList vtx vtxUniforms
    fragUniforms := updateUniformArrayData uniformList frag fragUniforms
    linked := true }

/-- `mCurrent` has no value before the first call of `link`. `returned` is bookkeeping: the
result of `link` if the last call was one that made it run. The shaders of address zero are
active at the start. -/
structure State where
  shaders : Kind × Nat → RsdShader := fun _ => {}
  mVertexDirty : Bool := true
  mFragmentDirty : Bool := true
  mVertex : Nat := 0
  mFragment : Nat := 0
  mEntries : List ProgramEntry := []
  mCurrent : Option Nat := none
  next : Nat := 0
  returned : Option Bool := none

structure Draw where
  vtxTargets : List Nat
  fragTargets : List Nat
  vtxShader : Compiling
  fragShader : Compiling
  linking : Linking

namespace State

/-- `getStateBasedShaderID` of a shader. -/
def shaderID (s : State) (shader : Kind × Nat) (targets : List Nat) (gl : Compiling) : Nat × State :=
  let made := (s.shaders shader).getStateBasedShaderID targets gl
  (made.1, { s with shaders := Function.update s.shaders shader made.2 })

def findEntry (s : State) (vID fID : Nat) : Option ProgramEntry :=
  s.mEntries.find? fun e => e.vtx == vID && e.frag == fID

variable (declared : Kind × Nat → Declared)

/-- Without a program, or if it cannot be linked, the entry stays as it was made. -/
def newEntry (s : State) (vID fID : Nat) (gl : Linking) : ProgramEntry :=
  let e : ProgramEntry :=
    { address := s.next, vtx := vID, frag := fID, program := gl.program, vertex := s.mVertex, fragment := s.mFragment }
  if gl.program ≠ 0 ∧ gl.linkStatus = true then
    e.populate gl (declared (.vertex, s.mVertex)) (declared (.fragment, s.mFragment))
  else e

/-- The part of `link` for shaders that are not cached. -/
def makeEntry (s : State) (vID fID : Nat) (gl : Linking) : State :=
  { s with
    mEntries := s.mEntries ++ [s.newEntry declared vID fID gl], mCurrent := some s.next, next := s.next + 1
    returned := some (decide (gl.program = 0) || gl.linkStatus) }

def prepare (s : State) (draw : Draw) : Nat × Nat × State :=
  let vtx := s.shaderID (.vertex, s.mVertex) draw.vtxTargets draw.vtxShader
  let frag := vtx.2.shaderID (.fragment, s.mFragment) draw.fragTargets draw.fragShader
  (vtx.1, frag.1, frag.2)

def link (s : State) (draw : Draw) : State :=
  let (vID, fID, s) := s.prepare draw
  if vID = 0 ∨ fID = 0 then { s with returned := some false }
  else
    match s.findEntry vID fID with
    | some e => { s with mCurrent := some e.address, returned := some true }
    | none => s.makeEntry declared vID fID draw.linking

/-- The two shaders take their values from the cache, which stays as it is. -/
def setup (s : State) (draw : Draw) : State :=
  if s.mVertexDirty = false ∧ s.mFragmentDirty = false then { s with returned := none }
  else
    let s := s.link declared draw
    if s.returned = some true then { s with mVertexDirty := false, mFragmentDirty := false } else s

/-- `ct` stays where an entry was removed. -/
def cleanup (part : ProgramEntry → Nat) (s : State) (shader : Kind × Nat) : State :=
  { s with
    mEntries := (s.shaders shader).ids.foldl
      (fun entries id => entries.filter fun e => !(part e == id)) s.mEntries
    returned := none }

def cleanupVertex (s : State) (shader : Nat) : State := s.cleanup (·.vtx) (.vertex, shader)

def cleanupFragment (s : State) (shader : Nat) : State := s.cleanup (·.frag) (.fragment, shader)

end State

inductive Act where
  | setActiveVertex (shader : Nat)
  | setActiveFragment (shader : Nat)
  | link (draw : Draw)
  | setup (draw : Draw)
  | cleanupVertex (shader : Nat)
  | cleanupFragment (shader : Nat)

namespace State

variable (declared : Kind × Nat → Declared)

def step (s : State) : Act → Option State
  | .setActiveVertex shader => some { s with mVertex := shader, mVertexDirty := true, returned := none }
  | .setActiveFragment shader =>
    some { s with mFragment := shader, mFragmentDirty := true, returned := none }
  | .link draw => some (s.link declared draw)
  | .setup draw => some (s.setup declared draw)
  | .cleanupVertex shader => some (s.cleanupVertex shader)
  | .cleanupFragment shader => some (s.cleanupFragment shader)

def currentID (s : State) (shader : Kind × Nat) : Option Nat :=
  (s.shaders shader).mCurrentState.map (·.mShaderID)

structure Uses (s : State) (e : ProgramEntry) : Prop where
  current : s.mCurrent = some e.address
  linked : e.linked = true
  vertex : e.vertex = s.mVertex
  fragment : e.fragment = s.mFragment
  vtx : s.currentID (.vertex, s.mVertex) = some e.vtx
  frag : s.currentID (.fragment, s.mFragment) = some e.frag

structure Good (s : State) : Prop where
  linked : s.returned = some true → ∃ e ∈ s.mEntries, s.Uses e
  present : ∀ address, s.mCurrent = some address → ∃ e ∈ s.mEntries, e.address = address

end State

def FreshDraw (s : State) (draw : Draw) : Prop :=
  let vID := draw.vtxShader.loadShader
  let fID := draw.fragShader.loadShader
  (∀ shader, vID ≠ 0 → vID ∉ (s.shaders shader).ids) ∧ (∀ shader, fID ≠ 0 → fID ∉ (s.shaders shader).ids) ∧
    (vID ≠ 0 → vID ≠ fID)

def Fresh (s : State) : Act → Prop
  | .link draw => FreshDraw s draw
  | .setup draw => FreshDraw s draw
  | _ => True

open Interleaving

variable {ready next : State} {vID fID : Nat} {e : ProgramEntry}

theorem getExistingState_mem {shader : RsdShader} {targets : List Nat} {key : StateBasedKey}
    (found : shader.getExistingState targets = some key) : key ∈ shader.mStateBasedShaders := by
  rw [RsdShader.getExistingState] at found
  generalize shader.mStateBasedShaders = keys at found ⊢
  induction keys using List.reverseRecOn with
  | nil => cases found
  | append_singleton keys last _ =>
    rw [foldl_append, foldl_cons, foldl_nil] at found
    obtain ⟨_, eq⟩ := Option.ite_none_right_eq_some.mp found
    cases eq
    exact mem_append_right _ mem_cons_self

theorem getStateBasedShaderID_spec (shader : RsdShader) (targets : List Nat) (gl : Compiling) :
    let made := shader.getStateBasedShaderID targets gl
    made.1 ∈ made.2.ids ∧ made.2.mCurrentState.map (·.mShaderID) = some made.1 ∧
      (made.2.ids = shader.ids ∨ made.2.ids = shader.ids ++ [gl.loadShader]) := by
  unfold RsdShader.getStateBasedShaderID
  cases found : shader.getExistingState targets with
  | some key =>
    exact ⟨mem_map_of_mem (getExistingState_mem found), rfl, .inl rfl⟩
  | none =>
    have grown : RsdShader.ids
        { mStateBasedShaders := shader.mStateBasedShaders ++ [⟨gl.loadShader, targets⟩],
          mCurrentState := some ⟨gl.loadShader, targets⟩ } = shader.ids ++ [gl.loadShader] :=
      map_append
    refine ⟨?_, rfl, .inr grown⟩
    rw [grown]
    exact mem_append_right _ mem_cons_self

def Distinct (shaders : Kind × Nat → RsdShader) : Prop :=
  ∀ a b id, id ≠ 0 → id ∈ (shaders a).ids → id ∈ (shaders b).ids → a = b

namespace State

section

variable (s : State) (shader : Kind × Nat) (targets : List Nat) (gl : Compiling)

/-- All that a call of `getStateBasedShaderID` changes. -/
structure Named (s : State) (shader : Kind × Nat) (gl : Compiling) (id : Nat) (after : State) : Prop where
  rest : after = { s with shaders := after.shaders }
  mem : id ∈ (after.shaders shader).ids
  current : after.currentID shader = some id
  other : ∀ b, b ≠ shader → after.shaders b = s.shaders b
  ids : (after.shaders shader).ids = (s.shaders shader).ids ∨
    (after.shaders shader).ids = (s.shaders shader).ids ++ [gl.loadShader]

theorem shaderID_named : Named s shader gl (s.shaderID shader targets gl).1 (s.shaderID shader targets gl).2 := by
  obtain ⟨mem, current, ids⟩ := getStateBasedShaderID_spec (s.shaders shader) targets gl
  constructor
  · rfl
  · simpa [shaderID] using mem
  · simpa [shaderID, currentID] using current
  · intro b ne
    exact Function.update_of_ne ne _ _
  · simpa [shaderID] using ids

variable {s shader gl} {id known : Nat} {after : State}

theorem Named.grows (named : Named s shader gl id after) (b : Kind × Nat)
    (mem : known ∈ (s.shaders b).ids) : known ∈ (after.shaders b).ids := by
  by_cases eq : b = shader
  · subst eq
    rcases named.ids with kept | grown
    · rwa [kept]
    · rw [grown]
      exact mem_append_left _ mem
  · rwa [named.other b eq]

theorem Named.mem_or (named : Named s shader gl id after) {b : Kind × Nat} (mem : known ∈ (after.shaders b).ids) :
    known ∈ (s.shaders b).ids ∨ b = shader ∧ known = gl.loadShader := by
  by_cases eq : b = shader
  · subst eq
    rcases named.ids with kept | grown
    · rw [kept] at mem
      exact .inl mem
    · rw [grown] at mem
      rcases mem_append.mp mem with old | new
      · exact .inl old
      · exact .inr ⟨rfl, mem_singleton.mp new⟩
  · rw [named.other b eq] at mem
    exact .inl mem

theorem Named.distinct (named : Named s shader gl id after) (distinct : Distinct s.shaders)
    (fresh : ∀ b, gl.loadShader ≠ 0 → gl.loadShader ∉ (s.shaders b).ids) : Distinct after.shaders := by
  intro a b known some inA inB
  rcases named.mem_or inA with oldA | ⟨rfl, newA⟩
  · rcases named.mem_or inB with oldB | ⟨rfl, newB⟩
    · exact distinct a b known some oldA oldB
    · rw [newB] at oldA some
      exact absurd oldA (fresh a some)
  · rcases named.mem_or inB with oldB | ⟨rfl, -⟩
    · rw [newA] at oldB some
      exact absurd oldB (fresh b some)
    · rfl

end

structure Inv (s : State) : Prop where
  below : ∀ e ∈ s.mEntries, e.address < s.next
  unique : ∀ e ∈ s.mEntries, ∀ other ∈ s.mEntries, e.address = other.address → e = other
  vtx : ∀ e ∈ s.mEntries, e.vtx ≠ 0 ∧ e.vtx ∈ (s.shaders (.vertex, e.vertex)).ids
  frag : ∀ e ∈ s.mEntries, e.frag ≠ 0 ∧ e.frag ∈ (s.shaders (.fragment, e.fragment)).ids
  distinct : Distinct s.shaders

section

variable {s next : State} (inv : s.Inv)

include inv

theorem Inv.of_subset (entries : next.mEntries ⊆ s.mEntries) (addresses : next.next = s.next)
    (grows : ∀ shader, (s.shaders shader).ids ⊆ (next.shaders shader).ids) (distinct : Distinct next.shaders) : next.Inv where
  below := by
    intro e member
    rw [addresses]
    exact inv.below e (entries member)
  unique := fun e member other mem' => inv.unique e (entries member) other (entries mem')
  vtx := by
    intro e member
    obtain ⟨some, mem⟩ := inv.vtx e (entries member)
    exact ⟨some, grows _ mem⟩
  frag := by
    intro e member
    obtain ⟨some, mem⟩ := inv.frag e (entries member)
    exact ⟨some, grows _ mem⟩
  distinct := distinct

theorem Inv.named {shader : Kind × Nat} {gl : Compiling} {id : Nat} (named : Named s shader gl id next)
    (fresh : ∀ b, gl.loadShader ≠ 0 → gl.loadShader ∉ (s.shaders b).ids) : next.Inv := by
  have rest := named.rest
  apply inv.of_subset
  · rw [rest]
    exact List.Subset.refl _
  · rw [rest]
  · exact fun b _ mem => named.grows b mem
  · exact named.distinct inv.distinct fresh

end

/-- The two names that `link` works with, and the state in which it looks for the entry. -/
structure Prepared (s : State) (vID fID : Nat) (ready : State) : Prop where
  rest : ready = { s with shaders := ready.shaders }
  inv : ready.Inv
  vtx : vID ∈ (ready.shaders (.vertex, s.mVertex)).ids
  frag : fID ∈ (ready.shaders (.fragment, s.mFragment)).ids
  currentVtx : ready.currentID (.vertex, s.mVertex) = some vID
  currentFrag : ready.currentID (.fragment, s.mFragment) = some fID

theorem Inv.prepare {s : State} (inv : s.Inv) {draw : Draw} (fresh : FreshDraw s draw)
    (prepared : s.prepare draw = (vID, fID, ready)) : Prepared s vID fID ready := by
  cases prepared
  obtain ⟨freshVtx, freshFrag, apart⟩ := fresh
  have vtx := shaderID_named s (.vertex, s.mVertex) draw.vtxTargets draw.vtxShader
  have frag := shaderID_named (s.shaderID (.vertex, s.mVertex) draw.vtxTargets draw.vtxShader).2
    (.fragment, s.mFragment) draw.fragTargets draw.fragShader
  have first := inv.named vtx freshVtx
  have stillFresh : ∀ b, draw.fragShader.loadShader ≠ 0 → draw.fragShader.loadShader ∉
      ((s.shaderID (.vertex, s.mVertex) draw.vtxTargets draw.vtxShader).2.shaders b).ids := by
    intro b some mem
    rcases vtx.mem_or mem with old | ⟨-, eq⟩
    · exact freshFrag b some old
    · exact apart (eq ▸ some) eq.symm
  have kindsDiffer : ((.vertex, s.mVertex) : Kind × Nat) ≠ (.fragment, s.mFragment) := by
    intro eq
    cases eq
  constructor
  · rfl
  · exact first.named frag stillFresh
  · exact frag.grows _ vtx.mem
  · exact frag.mem
  · exact (congrArg (fun shader => shader.mCurrentState.map (·.mShaderID)) (frag.other _ kindsDiffer)).trans vtx.current
  · exact frag.current

/-- The three ways in which `link` ends. -/
theorem link_cases (declared : Kind × Nat → Declared) (s : State) (draw : Draw) (prepared : s.prepare draw = (vID, fID, ready)) :
    (vID = 0 ∨ fID = 0) ∧ s.link declared draw = { ready with returned := some false } ∨
    (vID ≠ 0 ∧ fID ≠ 0) ∧ (∃ e, ready.findEntry vID fID = some e ∧
      s.link declared draw = { ready with mCurrent := some e.address, returned := some true }) ∨
    (vID ≠ 0 ∧ fID ≠ 0) ∧ ready.findEntry vID fID = none ∧
      s.link declared draw = ready.makeEntry declared vID fID draw.linking := by
  by_cases failed : vID = 0 ∨ fID = 0
  · refine .inl ⟨failed, ?_⟩
    simp [link, prepared, failed]
  · have some := not_or.mp failed
    cases found : ready.findEntry vID fID with
    | some e =>
      refine .inr (.inl ⟨some, e, rfl, ?_⟩)
      simp [link, prepared, failed, found]
    | none =>
      refine .inr (.inr ⟨some, rfl, ?_⟩)
      simp [link, prepared, failed, found]

theorem findEntry_some {s : State} (found : s.findEntry vID fID = some e) : e ∈ s.mEntries ∧ e.vtx = vID ∧ e.frag = fID := by
  have both := List.find?_some found
  rw [Bool.and_eq_true, beq_iff_eq, beq_iff_eq] at both
  exact ⟨List.mem_of_find?_eq_some found, both⟩

structure Made (s : State) (vID fID : Nat) (gl : Linking) (e : ProgramEntry) (next : State) : Prop where
  eq : next = { s with mEntries := s.mEntries ++ [e], mCurrent := some s.next, next := s.next + 1,
                       returned := some (decide (gl.program = 0) || gl.linkStatus) }
  address : e.address = s.next
  vtx : e.vtx = vID
  frag : e.frag = fID
  vertex : e.vertex = s.mVertex
  fragment : e.fragment = s.mFragment
  linked : e.linked = true ↔ gl.program ≠ 0 ∧ gl.linkStatus = true

theorem makeEntry_made (declared : Kind × Nat → Declared) (s : State) (vID fID : Nat) (gl : Linking) :
    Made s vID fID gl (s.newEntry declared vID fID gl) (s.makeEntry declared vID fID gl) := by
  unfold makeEntry newEntry
  by_cases linked : gl.program ≠ 0 ∧ gl.linkStatus = true
  · rw [if_pos linked]
    exact ⟨rfl, rfl, rfl, rfl, rfl, rfl, iff_of_true rfl linked⟩
  · rw [if_neg linked]
    exact ⟨rfl, rfl, rfl, rfl, rfl, rfl, iff_of_false Bool.false_ne_true linked⟩

theorem Made.inv {s : State} {gl : Linking} (made : Made s vID fID gl e next) (inv : s.Inv)
    (vtx : vID ≠ 0 ∧ vID ∈ (s.shaders (.vertex, s.mVertex)).ids)
    (frag : fID ≠ 0 ∧ fID ∈ (s.shaders (.fragment, s.mFragment)).ids) : next.Inv := by
  have entries : next.mEntries = s.mEntries ++ [e] := by rw [made.eq]
  have shaders : next.shaders = s.shaders := by rw [made.eq]
  have either {other : ProgramEntry} (mem : other ∈ next.mEntries) : other ∈ s.mEntries ∨ other = e := by
    rw [entries] at mem
    exact (mem_append.mp mem).imp_right mem_singleton.mp
  constructor
  · intro other mem
    have bound : next.next = s.next + 1 := by rw [made.eq]
    rw [bound]
    rcases either mem with old | rfl
    · exact Nat.lt_succ_of_lt (inv.below other old)
    · rw [made.address]
      exact Nat.lt_succ_self _
  · intro one mem other mem' same
    rcases either mem with old | rfl
    · rcases either mem' with otherOld | rfl
      · exact inv.unique one old other otherOld same
      · have less := inv.below one old
        rw [same, made.address] at less
        exact absurd less (Nat.lt_irrefl _)
    · rcases either mem' with otherOld | rfl
      · have less := inv.below other otherOld
        rw [← same, made.address] at less
        exact absurd less (Nat.lt_irrefl _)
      · rfl
  · intro other mem
    rw [shaders]
    rcases either mem with old | rfl
    · exact inv.vtx other old
    · rw [made.vtx, made.vertex]
      exact vtx
  · intro other mem
    rw [shaders]
    rcases either mem with old | rfl
    · exact inv.frag other old
    · rw [made.frag, made.fragment]
      exact frag
  · rw [shaders]
    exact inv.distinct

end State

/-- The program of the two shaders was linked if it is cached, and GL makes one if it is not. -/
def CleanDraw (s : State) (draw : Draw) : Prop :=
  let (vID, fID, ready) := s.prepare draw
  vID = 0 ∨ fID = 0 ∨
    match ready.findEntry vID fID with
    | some e => e.linked = true
    | none => draw.linking.program ≠ 0

def CleanUp (part : ProgramEntry → Nat) (s : State) (shader : Kind × Nat) : Prop :=
  ∀ e ∈ s.mEntries, s.mCurrent = some e.address → part e ∉ (s.shaders shader).ids

def Clean (s : State) : Act → Prop
  | .link draw => CleanDraw s draw
  | .setup draw => s.mVertexDirty = false ∧ s.mFragmentDirty = false ∨ CleanDraw s draw
  | .cleanupVertex shader => CleanUp (·.vtx) s (.vertex, shader)
  | .cleanupFragment shader => CleanUp (·.frag) s (.fragment, shader)
  | _ => True

namespace State

variable {declared : Kind × Nat → Declared} {s : State}

section

variable (inv : s.Inv) {draw : Draw} (fresh : FreshDraw s draw)

include inv fresh

theorem Inv.link : (s.link declared draw).Inv := by
  rcases made : s.prepare draw with ⟨vID, fID, ready⟩
  have prepared := inv.prepare fresh made
  rcases link_cases declared s draw made with ⟨-, eq⟩ | ⟨-, e, -, eq⟩ | ⟨some, -, eq⟩
  · rw [eq]
    exact prepared.inv.of_subset (List.Subset.refl _) rfl (fun _ => List.Subset.refl _) prepared.inv.distinct
  · rw [eq]
    exact prepared.inv.of_subset (List.Subset.refl _) rfl (fun _ => List.Subset.refl _) prepared.inv.distinct
  · rw [eq]
    have vertex : ready.mVertex = s.mVertex := by rw [prepared.rest]
    have fragment : ready.mFragment = s.mFragment := by rw [prepared.rest]
    apply (makeEntry_made declared ready vID fID draw.linking).inv prepared.inv
    · rw [vertex]
      exact ⟨some.1, prepared.vtx⟩
    · rw [fragment]
      exact ⟨some.2, prepared.frag⟩

omit inv fresh in
theorem Prepared.uses (prepared : Prepared s vID fID ready) (member : e ∈ ready.mEntries) (vtx : e.vtx = vID)
    (frag : e.frag = fID) (linked : e.linked = true) (returned : Option Bool) :
    Uses { ready with mCurrent := some e.address, returned := returned } e := by
  have vertex : ready.mVertex = s.mVertex := by rw [prepared.rest]
  have fragment : ready.mFragment = s.mFragment := by rw [prepared.rest]
  obtain ⟨someVtx, inVtx⟩ := prepared.inv.vtx e member
  obtain ⟨someFrag, inFrag⟩ := prepared.inv.frag e member
  have sameVertex : e.vertex = s.mVertex := congrArg Prod.snd (prepared.inv.distinct _ _ _ someVtx inVtx (vtx ▸ prepared.vtx))
  have sameFragment : e.fragment = s.mFragment :=
    congrArg Prod.snd (prepared.inv.distinct _ _ _ someFrag inFrag (frag ▸ prepared.frag))
  constructor
  · rfl
  · exact linked
  · exact sameVertex.trans vertex.symm
  · exact sameFragment.trans fragment.symm
  · rw [vertex, vtx]
    exact prepared.currentVtx
  · rw [fragment, frag]
    exact prepared.currentFrag

theorem Good.link (good : s.Good) (clean : CleanDraw s draw) : (s.link declared draw).Good := by
  rcases prepared : s.prepare draw with ⟨vID, fID, ready⟩
  have ready_of := inv.prepare fresh prepared
  have entries : ready.mEntries = s.mEntries := by rw [ready_of.rest]
  have current : ready.mCurrent = s.mCurrent := by rw [ready_of.rest]
  simp only [CleanDraw, prepared] at clean
  rcases link_cases declared s draw prepared with ⟨-, eq⟩ | ⟨some, e, found, eq⟩ | ⟨some, missed, eq⟩
  · rw [eq]
    refine ⟨fun returned => (by cases returned), ?_⟩
    rw [entries, current]
    exact good.present
  · rw [eq]
    obtain ⟨member, vtx, frag⟩ := findEntry_some found
    have linked : e.linked = true := by
      rw [found] at clean
      exact (clean.resolve_left some.1).resolve_left some.2
    refine ⟨fun _ => ⟨e, member, ready_of.uses member vtx frag linked _⟩, ?_⟩
    rintro address same
    cases same
    exact ⟨e, member, rfl⟩
  · rw [eq]
    have program : draw.linking.program ≠ 0 := by
      rw [missed] at clean
      exact (clean.resolve_left some.1).resolve_left some.2
    have vertex : ready.mVertex = s.mVertex := by rw [ready_of.rest]
    have fragment : ready.mFragment = s.mFragment := by rw [ready_of.rest]
    have made := makeEntry_made declared ready vID fID draw.linking
    refine ⟨fun returned => ⟨_, mem_append_right _ mem_cons_self, ?_⟩, ?_⟩
    · have status : draw.linking.linkStatus = true := by
        have result := Option.some.inj returned
        rwa [decide_eq_false program, Bool.false_or] at result
      constructor
      · exact congrArg Option.some made.address.symm
      · exact made.linked.mpr ⟨program, status⟩
      · exact made.vertex
      · exact made.fragment
      · rw [made.vtx]
        exact vertex ▸ ready_of.currentVtx
      · rw [made.frag]
        exact fragment ▸ ready_of.currentFrag
    · rintro address same
      cases same
      exact ⟨_, mem_append_right _ mem_cons_self, made.address⟩

theorem CleanDraw.of_good (good : (s.link declared draw).Good) : CleanDraw s draw := by
  rcases prepared : s.prepare draw with ⟨vID, fID, ready⟩
  have ready_of := inv.prepare fresh prepared
  simp only [CleanDraw, prepared]
  rcases link_cases declared s draw prepared with ⟨none, -⟩ | ⟨-, e, found, eq⟩ | ⟨-, missed, eq⟩
  · rcases none with vtx | frag
    · exact .inl vtx
    · exact .inr (.inl frag)
  · rw [eq] at good
    obtain ⟨other, mem, uses⟩ := good.linked rfl
    have same : e = other := ready_of.inv.unique e (findEntry_some found).1 other mem (Option.some.inj uses.current)
    rw [found]
    exact .inr (.inr (same ▸ uses.linked))
  · rw [eq] at good
    rw [missed]
    refine .inr (.inr fun none => ?_)
    have made := makeEntry_made declared ready vID fID draw.linking
    have returned : (ready.makeEntry declared vID fID draw.linking).returned = some true := by
      rw [made.eq, none]
      rfl
    obtain ⟨e, mem, uses⟩ := good.linked returned
    have addr := Option.some.inj uses.current
    rcases mem_append.mp mem with old | new
    · have less := ready_of.inv.below e old
      rw [addr] at less
      exact lt_irrefl _ less
    · cases mem_singleton.mp new
      exact (made.linked.mp uses.linked).1 none

end

section

variable {part : ProgramEntry → Nat} {shader : Kind × Nat}

theorem mem_cleanup : e ∈ (s.cleanup part shader).mEntries ↔ e ∈ s.mEntries ∧ part e ∉ (s.shaders shader).ids := by
  simp only [cleanup]
  generalize s.mEntries = entries
  induction (s.shaders shader).ids generalizing entries with
  | nil => simp
  | cons id rest ih =>
    rw [foldl_cons, ih, mem_filter, mem_cons, not_or]
    simp [and_assoc]

theorem Inv.cleanup (inv : s.Inv) : (s.cleanup part shader).Inv :=
  inv.of_subset (fun _ mem => (mem_cleanup.mp mem).1) rfl (fun _ => List.Subset.refl _) inv.distinct

theorem Good.cleanup (good : s.Good) (clean : CleanUp part s shader) : (s.cleanup part shader).Good := by
  refine ⟨fun ret => (by cases ret), fun address current => ?_⟩
  obtain ⟨e, mem, eq⟩ := good.present address current
  subst eq
  exact ⟨e, mem_cleanup.mpr ⟨mem, clean e mem current⟩, rfl⟩

theorem CleanUp.of_good (inv : s.Inv) (good : (s.cleanup part shader).Good) : CleanUp part s shader := by
  intro e mem current
  obtain ⟨other, remains, eq⟩ := good.present _ current
  obtain ⟨mem', kept⟩ := mem_cleanup.mp remains
  rwa [inv.unique other mem' e mem eq] at kept

end

theorem Inv.quiet (inv : s.Inv) (entries : next.mEntries = s.mEntries)
    (addresses : next.next = s.next) (shaders : next.shaders = s.shaders) : next.Inv := by
  apply inv.of_subset
  · rw [entries]
    exact List.Subset.refl _
  · exact addresses
  · intro shader
    rw [shaders]
    exact List.Subset.refl _
  · rw [shaders]
    exact inv.distinct

theorem Good.quiet (good : s.Good) (entries : next.mEntries = s.mEntries)
    (current : next.mCurrent = s.mCurrent) (returned : next.returned = none) : next.Good := by
  refine ⟨fun trusted => ?_, ?_⟩
  · rw [returned] at trusted
    cases trusted
  · rw [entries, current]
    exact good.present

theorem setup_cases (declared : Kind × Nat → Declared) (s : State) (draw : Draw) :
    (s.mVertexDirty = false ∧ s.mFragmentDirty = false) ∧ s.setup declared draw = { s with returned := none } ∨
      ¬ (s.mVertexDirty = false ∧ s.mFragmentDirty = false) ∧ ∃ vertexDirty fragmentDirty,
        s.setup declared draw = { s.link declared draw with
          mVertexDirty := vertexDirty, mFragmentDirty := fragmentDirty } := by
  by_cases tidy : s.mVertexDirty = false ∧ s.mFragmentDirty = false
  · exact .inl ⟨tidy, if_pos tidy⟩
  · refine .inr ⟨tidy, ?_⟩
    rw [setup, if_neg tidy]
    dsimp only
    split
    · exact ⟨false, false, rfl⟩
    · exact ⟨_, _, rfl⟩

variable {act : Act} {next : State}

theorem Inv.step (inv : s.Inv) (fresh : Fresh s act) (happens : s.step declared act = some next) : next.Inv := by
  cases act with
  | setActiveVertex shader | setActiveFragment shader =>
    cases happens
    exact inv.quiet rfl rfl rfl
  | link draw =>
    cases happens
    exact inv.link fresh
  | setup draw =>
    cases happens
    rcases setup_cases declared s draw with ⟨-, eq⟩ | ⟨-, vertexDirty, fragmentDirty, eq⟩
    · rw [eq]
      exact inv.quiet rfl rfl rfl
    · rw [eq]
      exact (inv.link fresh).quiet rfl rfl rfl
  | cleanupVertex shader | cleanupFragment shader =>
    cases happens
    exact inv.cleanup

theorem Good.flags (good : s.Good) (vertexDirty fragmentDirty : Bool) :
    Good { s with mVertexDirty := vertexDirty, mFragmentDirty := fragmentDirty } := by
  refine ⟨fun ret => ?_, good.present⟩
  obtain ⟨e, mem, uses⟩ := good.linked ret
  exact ⟨e, mem, { uses with }⟩

theorem good_flags {vertexDirty fragmentDirty : Bool} :
    Good { s with mVertexDirty := vertexDirty, mFragmentDirty := fragmentDirty } ↔ s.Good :=
  ⟨fun good => good.flags s.mVertexDirty s.mFragmentDirty, fun good => good.flags _ _⟩

theorem good_step_iff (inv : s.Inv) (good : s.Good) (fresh : Fresh s act)
    (happens : s.step declared act = some next) : next.Good ↔ Clean s act := by
  cases act with
  | setActiveVertex shader | setActiveFragment shader =>
    cases happens
    exact iff_of_true (good.quiet rfl rfl rfl) trivial
  | link draw =>
    cases happens
    exact ⟨CleanDraw.of_good inv fresh, Good.link inv fresh good⟩
  | setup draw =>
    cases happens
    rcases setup_cases declared s draw with ⟨tidy, eq⟩ | ⟨dirty, vertexDirty, fragmentDirty, eq⟩
    · rw [eq]
      exact iff_of_true (good.quiet rfl rfl rfl) (.inl tidy)
    · rw [eq, good_flags]
      constructor
      · intro trusted
        exact .inr (CleanDraw.of_good inv fresh trusted)
      · intro clean
        exact Good.link inv fresh good (clean.resolve_left dirty)
  | cleanupVertex shader | cleanupFragment shader =>
    cases happens
    exact ⟨CleanUp.of_good inv, good.cleanup⟩

theorem Inv.start : Inv {} where
  below := forall_mem_nil _
  unique := forall_mem_nil _
  vtx := forall_mem_nil _
  frag := forall_mem_nil _
  distinct := by
    intro a b id _ mem
    cases mem

theorem Good.start : Good {} where
  linked := by
    intro ret
    cases ret
  present := by
    intro addr current
    cases current

end State

/-- The runs in which the cache can be trusted throughout are the clean ones. -/
theorem cache_trusted_iff {declared : Kind × Nat → Declared} {acts : List Act} {final : State}
    (run : Run (State.step declared) Fresh {} acts final) :
    Throughout (State.step declared) Fresh {} State.Good acts ↔
      Run (State.step declared) (fun s act => Fresh s act ∧ Clean s act) {} acts final := by
  have kept {acts : List Act} {s : State}
      (cleanly : Run (State.step declared) (fun s act => Fresh s act ∧ Clean s act) {} acts s) :
      s.Inv ∧ s.Good :=
    cleanly.invariant (fun _ s => s.Inv ∧ s.Good) ⟨State.Inv.start, State.Good.start⟩ fun known meets happens =>
        ⟨known.1.step meets.1 happens, (State.good_step_iff known.1 known.2 meets.1 happens).mpr meets.2⟩
  refine run.throughout_iff (fun cleanly => (kept cleanly).2) fun cleanly fresh happens good => ?_
  obtain ⟨inv, goodBefore⟩ := kept cleanly
  exact (State.good_step_iff inv goodBefore fresh happens).mp good

private def plainShader (_ : Kind × Nat) : Declared := { mAttribNames := [], mUniformNames := [] }

private def answer (program : Nat) (linkStatus : Bool) : Linking where
  program := program
  linkStatus := linkStatus
  attribLocation := fun _ => 0
  uniformLocation := fun _ => 0
  activeUniforms := []

private def firstDraw (program : Nat) (linkStatus : Bool) : Draw where
  vtxTargets := []
  fragTargets := []
  vtxShader := { shaderID := 1, compiled := true, infoLen := 0 }
  fragShader := { shaderID := 2, compiled := true, infoLen := 0 }
  linking := answer program linkStatus

private def secondDraw : Draw where
  vtxTargets := []
  fragTargets := []
  vtxShader := { shaderID := 0, compiled := true, infoLen := 0 }
  fragShader := { shaderID := 0, compiled := true, infoLen := 0 }
  linking := answer 0 false

private theorem firstDraw_fresh (program : Nat) (linkStatus : Bool) : Fresh {} (.link (firstDraw program linkStatus)) :=
  ⟨fun _ _ => not_mem_nil, fun _ _ => not_mem_nil, fun _ => show 1 ≠ 2 by decide⟩

private theorem secondDraw_fresh (s : State) : Fresh s (.link secondDraw) :=
  ⟨fun _ named => absurd rfl named, fun _ named => absurd rfl named, fun named => absurd rfl named⟩

private theorem run_first (program : Nat) (linkStatus : Bool) :
    Run (State.step plainShader) Fresh {} [.link (firstDraw program linkStatus)]
      (State.link plainShader {} (firstDraw program linkStatus)) :=
  .snoc .nil (firstDraw_fresh program linkStatus) rfl

theorem cache_trusted_iff_linked : Throughout (State.step plainShader) Fresh {} State.Good [.link (firstDraw 3 true)] :=
  (cache_trusted_iff (run_first 3 true)).mpr (.snoc .nil ⟨firstDraw_fresh 3 true, .inr (.inr (show 3 ≠ 0 by decide))⟩ rfl)

/-- After a failed link the next one finds its entry. The same without a program, at once. After
the clean-up of the only entry `mCurrent` still points to it. -/
theorem cache_not_trusted : (∃ acts final, Run (State.step plainShader) Fresh {} acts final ∧ final.returned = some true ∧
      final.mEntries.map (·.linked) = [false]) ∧
    (∃ acts final, Run (State.step plainShader) Fresh {} acts final ∧ final.returned = some true ∧
      final.mEntries.map (·.program) = [0]) ∧
    ∃ acts final, Run (State.step plainShader) Fresh {} acts final ∧ final.mCurrent = some 0 ∧
      final.mEntries.map (·.address) = [] := by
  refine ⟨⟨_, _, .snoc (run_first 3 false) (secondDraw_fresh _) rfl, rfl, rfl⟩, ⟨_, _, run_first 0 false, rfl, rfl⟩, ?_⟩
  exact ⟨_, _, .snoc (run_first 3 true) (show Fresh _ (.cleanupVertex 0) from trivial) rfl, rfl, rfl⟩

end RenderScript.ShaderCache
