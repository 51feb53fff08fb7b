import RenderScript.Foundation.LookupInsert
import RenderScript.Element.ElementInterning
import RenderScript.Types.RsType

/-!
# Tables that threads share

`createRef` of elements, `getTypeRef` and `getSampler` hold the lock twice: while they
look for a match and while they push a new object. In between other threads can do
the same.
-/

namespace RenderScript.Objects
open RenderScript.Types Elements LookupInsert Interleaving

inductive RsSamplerValue where
  | nearest
  | linear
  | linearMipLinear
  | wrap
  | clamp
  | linearMipNearest
  | mirroredRepeat
  | invalid
  | unnamed (code : UInt32) (nameless : code ∉ [0, 1, 2, 3, 4, 5, 6, 100])
  deriving DecidableEq

/-- The bits of a `float` without the sign. -/
def magnitude (bits : UInt32) : UInt32 := bits &&& 0x7fffffff

def isNaN (bits : UInt32) : Bool := magnitude bits > 0x7f800000

/-- Comparison of floats: a NaN differs from everything, and the two zeros are equal. -/
def floatEq (bits other : UInt32) : Bool :=
  !isNaN bits && !isNaN other && (bits == other || magnitude bits == 0 && magnitude other == 0)

/-- The arguments of `getSampler`, kept in `mHal.state`. -/
structure SamplerState where
  magFilter : RsSamplerValue
  minFilter : RsSamplerValue
  wrapS : RsSamplerValue
  wrapT : RsSamplerValue
  wrapR : RsSamplerValue
  aniso : UInt32
  deriving DecidableEq

structure Sampler where
  address : Nat
  state : SamplerState

def Sampler.matches (wanted : SamplerState) (existing : Sampler) : Bool :=
  existing.state.magFilter == wanted.magFilter && existing.state.minFilter == wanted.minFilter &&
    existing.state.wrapS == wanted.wrapS && existing.state.wrapT == wanted.wrapT &&
    existing.state.wrapR == wanted.wrapR && floatEq existing.state.aniso wanted.aniso

inductive Table where
  | mElements
  | mTypes
  | mAllSamplers
  deriving DecidableEq

inductive Object where
  | element (e : Element)
  | type (t : RsType)
  | sampler (s : Sampler)

namespace Object

def address : Object → Nat
  | .element e => e.address
  | .type t => t.address
  | .sampler s => s.address

def element? : Object → Option Element
  | .element e => some e
  | _ => none

def type? : Object → Option RsType
  | .type t => some t
  | _ => none

def sampler? : Object → Option Sampler
  | .sampler s => some s
  | _ => none

end Object

inductive Request where
  | createRef (dt : RsDataType) (dk : RsDataKind) (isNorm : Bool) (vecSize : UInt32)
  | createRefFields (specs : List FieldSpec)
  | getTypeRef (e : Element) (key : TypeKey)
  | getSampler (state : SamplerState)

def Request.table : Request → Table
  | .createRef _ _ _ _ | .createRefFields _ => .mElements
  | .getTypeRef _ _ => .mTypes
  | .getSampler _ => .mAllSamplers

def Request.matches : Request → Object → Bool
  | .createRef dt dk isNorm vecSize, o => o.element?.any (Element.matchesComponent dt dk isNorm vecSize)
  | .createRefFields specs, o => o.element?.any (Element.matchesFields specs)
  | .getTypeRef e key, o => o.type?.any (RsType.matches e key)
  | .getSampler state, o => o.sampler?.any (Sampler.matches state)

def Request.make (address : Nat) : Request → Object
  | .createRef dt dk isNorm vecSize => .element (.mk address (.set dt dk isNorm vecSize) [])
  | .createRefFields specs => .element (.mk address .initial (specs.map FieldSpec.field))
  | .getTypeRef e key => .type (.create address e key)
  | .getSampler state => .sampler { address := address, state := state }

def Request.mayFail : Request → Bool
  | .getSampler _ => true
  | _ => false

def interning : Protocol Table Request Object where
  slot := Request.table
  isMatch := Request.matches
  make := Request.make
  address := Object.address
  mayFail := Request.mayFail

section

variable {Thread : Type} [DecidableEq Thread] {s : State Thread Table Request Object} {thread : Thread}

def uninterrupted (s : State Thread Table Request Object) (thread : Thread) (request : Request) :
    State Thread Table Request Object :=
  let looked := interning.lookup s thread request
  match looked.pending thread with
  | some ref => interning.insert looked thread ref
  | none => looked

def elementState (s : State Thread Table Request Object) : ElementState :=
  { mElements := (s.table .mElements).filterMap Object.element?, next := s.next }

def typeContext (s : State Thread Table Request Object) : Context :=
  { mTypes := (s.table .mTypes).filterMap Object.type?, nextType := s.next }

/-- A call finds an object, or it makes one; `project` takes the objects of one kind. -/
theorem uninterrupted_spec {α : Type} (project : Object → Option α) (isMatch : α → Bool)
    (free : s.pending thread = none) (request : Request) (table : Table)
    (inTable : request.table = table) (same : request.matches = fun o => (project o).any isMatch) :
    (∃ o x, project o = some x ∧ ((s.table table).filterMap project).find? isMatch = some x ∧
      uninterrupted s thread request = { s with held := (request, o) :: s.held }) ∨
    ((s.table table).filterMap project).find? isMatch = none ∧
      (uninterrupted s thread request).table table = s.table table ++ [request.make s.next] ∧
      (uninterrupted s thread request).held = (request, request.make s.next) :: s.held ∧
      (uninterrupted s thread request).next = s.next + 1 := by
  subst inTable
  rw [List.find?_filterMap, ← same]
  cases found : (s.table request.table).find? request.matches with
  | none =>
    have looked : interning.lookup s thread request =
        { s with
          next := s.next + 1
          pending := Function.update s.pending thread (some (request, request.make s.next)) } := by
      simp [Protocol.lookup, interning, found]
    refine .inr ⟨rfl, ?_⟩
    simp only [uninterrupted, looked, Function.update_self]
    exact ⟨Function.update_self _ _ _, rfl, rfl⟩
  | some o =>
    have looked : interning.lookup s thread request = { s with held := (request, o) :: s.held } := by
      simp [Protocol.lookup, interning, found]
    have any : (project o).any isMatch = true := by
      have isMatch := List.find?_some found
      rwa [same] at isMatch
    obtain ⟨x, isKind, _⟩ := Option.any_eq_true _ _ |>.mp any
    refine .inl ⟨o, x, isKind, isKind, ?_⟩
    simp [uninterrupted, looked, free]

/-- Without interruption a call does to the tables of one kind what a function alone does, and holds its result. -/
def Refines {α σ : Type} (s : State Thread Table Request Object) (thread : Thread) (request : Request)
    (view : State Thread Table Request Object → σ) (wrap : α → Object) (result : α × σ) : Prop :=
  view (uninterrupted s thread request) = result.2 ∧ (uninterrupted s thread request).held = (request, wrap result.1) :: s.held

theorem eq_of_element? {o : Object} {e : Element} (is : o.element? = some e) : o = .element e := by
  cases o <;> cases is
  rfl

theorem uninterrupted_refines (free : s.pending thread = none) :
    (∀ dt dk isNorm vecSize, Refines s thread (.createRef dt dk isNorm vecSize) elementState .element
      (createRef dt dk isNorm vecSize (elementState s))) ∧
    (∀ specs, Refines s thread (.createRefFields specs) elementState .element (createRefFields specs (elementState s))) ∧
    ∀ e key, Refines s thread (.getTypeRef e key) typeContext .type (getTypeRef e key (typeContext s)) := by
  refine ⟨fun dt dk isNorm vecSize => ?_, fun specs => ?_, fun e key => ?_⟩
  · rcases uninterrupted_spec Object.element? _ free (.createRef dt dk isNorm vecSize) .mElements rfl rfl with
      ⟨o, e, isElement, found, after⟩ | ⟨missing, table, held, next⟩
    · simp [Refines, after, createRef, elementState, found, eq_of_element? isElement]
    · simp only [Refines, createRef, elementState, missing, table, held, next, List.filterMap_append]
      exact ⟨rfl, rfl⟩
  · rcases uninterrupted_spec Object.element? _ free (.createRefFields specs) .mElements rfl rfl with
      ⟨o, e, isElement, found, after⟩ | ⟨missing, table, held, next⟩
    · simp [Refines, after, createRefFields, elementState, found, eq_of_element? isElement]
    · simp only [Refines, createRefFields, elementState, missing, table, held, next, List.filterMap_append]
      exact ⟨rfl, rfl⟩
  · rcases uninterrupted_spec Object.type? _ free (.getTypeRef e key) .mTypes rfl rfl with
      ⟨o, t, isType, found, after⟩ | ⟨missing, table, held, next⟩
    · cases o <;> cases isType
      simp [Refines, after, getTypeRef, typeContext, found]
    · simp only [Refines, getTypeRef, typeContext, missing, table, held, next, List.filterMap_append]
      exact ⟨rfl, rfl⟩

end

theorem uninterrupted_float : (elementState (uninterrupted ({} : State Unit Table Request Object) ()
    (.createRef .float32 .user false 1))).mElements.length = 1 := by
  rw [((uninterrupted_refines rfl).1 .float32 .user false 1).1]
  rfl

def zeroed (bits : UInt32) : UInt32 := if magnitude bits = 0 then 0 else bits

theorem isNaN_zeroed {bits : UInt32} : isNaN (zeroed bits) = isNaN bits := by
  unfold zeroed
  split
  case isTrue zero =>
    rw [isNaN, isNaN, zero]
    rfl
  case isFalse => rfl

theorem floatEq_iff {bits other : UInt32} (number : isNaN other = false) :
    floatEq bits other = true ↔ zeroed bits = zeroed other := by
  cases nan : isNaN bits with
  | true =>
    rw [floatEq, nan]
    refine iff_of_false Bool.false_ne_true fun eq => ?_
    have both := congrArg isNaN eq
    rw [isNaN_zeroed, isNaN_zeroed, nan, number] at both
    cases both
  | false =>
    have nonzero : ∀ {bits : UInt32}, magnitude bits ≠ 0 → bits ≠ 0 := by
      rintro _ some rfl
      exact some rfl
    simp only [floatEq, nan, number, Bool.not_false, Bool.true_and, Bool.or_eq_true, beq_iff_eq, Bool.and_eq_true, zeroed]
    by_cases first : magnitude bits = 0 <;> by_cases second : magnitude other = 0
    · simp [first, second]
    · have differ : bits ≠ other := by rintro rfl; exact second first
      simp [first, second, differ, (nonzero second).symm]
    · have differ : bits ≠ other := by rintro rfl; exact first second
      simp [first, second, differ, nonzero first]
    · simp [first, second]

inductive ObjectKey where
  | element (key : Elements.Key)
  | type (address : Nat) (key : TypeKey)
  | sampler (state : SamplerState)
  deriving DecidableEq

def SamplerState.key (state : SamplerState) : SamplerState := { state with aniso := zeroed state.aniso }

theorem Sampler.matches_iff {wanted : SamplerState} (number : isNaN wanted.aniso = false)
    {existing : Sampler} : existing.matches wanted = true ↔ existing.state.key = wanted.key := by
  simp [Sampler.matches, floatEq_iff number, SamplerState.key, SamplerState.mk.injEq, and_assoc]

def Object.key : Object → ObjectKey
  | .element e => .element e.key
  | .type t => .type t.mElement.address t.toTypeKey
  | .sampler s => .sampler s.state.key

def Request.key : Request → ObjectKey
  | .createRef dt dk isNorm vecSize => .element (.component dt dk isNorm vecSize)
  | .createRefFields specs => .element (.fields (specs.map FieldSpec.key))
  | .getTypeRef e key => .type e.address key
  | .getSampler state => .sampler state.key

def Request.Careful : Request → Prop
  | .createRef dt dk isNorm vecSize => (Call.createRef dt dk isNorm vecSize).Careful
  | .createRefFields specs => (Call.createRefFields specs).Careful
  | .getTypeRef _ _ => True
  | .getSampler state => isNaN state.aniso = false

theorem interning_keyed : interning.Keyed Object.key Request.key Request.Careful where
  match_iff {request o} careful := by
    cases request with
    | createRef dt dk isNorm vecSize =>
      cases o with
      | element e => exact matchesComponent_iff_key.trans (ObjectKey.element.injEq _ _ ▸ Iff.rfl)
      | type | sampler => exact iff_of_false Bool.false_ne_true nofun
    | createRefFields specs =>
      cases o with
      | element e =>
        exact (matchesFields_iff_key careful.1 careful.2).trans (ObjectKey.element.injEq _ _ ▸ Iff.rfl)
      | type | sampler => exact iff_of_false Bool.false_ne_true nofun
    | getTypeRef e key =>
      cases o with
      | type t => simp [interning, Request.matches, Object.type?, RsType.matches, Object.key, Request.key]
      | element | sampler => exact iff_of_false Bool.false_ne_true nofun
    | getSampler state =>
      cases o with
      | sampler s => exact (Sampler.matches_iff careful).trans (ObjectKey.sampler.injEq _ _ ▸ Iff.rfl)
      | element | type => exact iff_of_false Bool.false_ne_true nofun
  made {request} address careful := by
    cases request with
    | createRef dt dk isNorm vecSize => exact congrArg ObjectKey.element (key_new_component careful address)
    | createRefFields specs =>
      exact congrArg ObjectKey.element (key_new_fields careful.1 careful.2 address .initial)
    | getTypeRef e key => rfl
    | getSampler state => rfl
  slots {request other} same := by
    cases request <;> cases other <;> first | rfl | cases same

/-- Threads with careful arguments get one object per key exactly in the runs in which no
insertion finds a match in the table. -/
theorem tables_unique_iff {Thread : Type} [DecidableEq Thread]
    {acts : List (Act Thread Table Request)} {s : State Thread Table Request Object}
    (run : Run interning.step (AsksFor Request.Careful) {} acts s) :
    Throughout interning.step (AsksFor Request.Careful) {} (fun s => s.Unique Object.key Request.key) acts ↔
      Run interning.step (fun s act => AsksFor Request.Careful s act ∧ interning.Clean s act) {} acts s :=
  unique_throughout_iff interning_keyed run

def floatRequest : Request := .createRef .float32 .user false 1

/-- One of two threads asks for a float. -/
theorem tables_unique_iff_alone : Throughout interning.step (AsksFor Request.Careful) ({} : State Bool Table Request Object)
      (fun s => s.Unique Object.key Request.key) [.lookup true floatRequest, .insert true] := by
  let clean (s : State Bool Table Request Object) (act : Act Bool Table Request) : Prop :=
    AsksFor Request.Careful s act ∧ interning.Clean s act
  have looked : Run interning.step clean {} [.lookup true floatRequest] _ := Run.snoc .nil ⟨⟨rfl, rfl⟩, trivial⟩ rfl
  have inserted := @Run.snoc _ _ _ _ _ _ _ _ (Act.insert true) looked ⟨trivial, fun _ _ _ none => nomatch none⟩ rfl
  exact (tables_unique_iff (inserted.mono And.left)).mpr inserted

theorem address_make (address : Nat) (request : Request) : (request.make address).address = address := by
  cases request <;> rfl

theorem twins (request : Request) : ∃ s, Run interning.step Anyhow ({} : State Bool Table Request Object)
        [.lookup false request, .lookup true request, .insert false, .insert true] s ∧
      s.table request.table = [request.make 0, request.make 1] ∧
      s.held = [(request, request.make 1), (request, request.make 0)] ∧
      ¬s.Unique Object.key Request.key := by
  refine ⟨_, run_of_perform rfl, ?_, rfl, fun unique => ?_⟩
  · simp [Protocol.insert, Protocol.lookup, interning]
  · have eq := unique.results (request, request.make 1) (.head _) (request, request.make 0) (.tail _ (.head _)) rfl
    have addresses := congrArg Object.address eq
    rw [address_make, address_make] at addresses
    cases addresses

theorem tables_twins : ∃ s, Run interning.step Anyhow ({} : State Bool Table Request Object)
        [.lookup false floatRequest, .lookup true floatRequest, .insert false, .insert true] s ∧
      s.table .mElements = [floatRequest.make 0, floatRequest.make 1] ∧
      s.held = [(floatRequest, floatRequest.make 1), (floatRequest, floatRequest.make 0)] ∧
      ¬s.Unique Object.key Request.key :=
  twins floatRequest

end RenderScript.Objects
