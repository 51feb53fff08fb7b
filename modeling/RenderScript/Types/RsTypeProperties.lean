import RenderScript.Types.Levels
import RenderScript.Element.ElementProperties

/-!
# Round trip of types

The level count that `compute` derives is never zero, so the bytes of a type always
say that it has levels of detail.
-/

namespace RenderScript.Types
open AlignedBytes RenderScript.Stream Elements List

inductive TypeCall where
  | element (call : Call)
  | getTypeRef (e : Element) (key : TypeKey)
  | destroyType (t : RsType)

def TypeCall.run : TypeCall → Context → Context
  | .element call, context => { context with elements := call.run context.elements }
  | .getTypeRef e key, context => (Types.getTypeRef e key context).2
  | .destroyType t, context => context.destroyType t

def TypeCall.Allowed : TypeCall → Context → Prop
  | .element call, context => call.Allowed context.elements ∧
      ∀ gone, call = .destroy gone → ∀ t ∈ context.mTypes, t.mElement.address ≠ gone.address
  | .getTypeRef e _, context => e ∈ context.elements.mElements
  | .destroyType _, _ => True

inductive TypeReachable : Context → Prop where
  | init : TypeReachable {}
  | step {context : Context} {call : TypeCall} (before : TypeReachable context)
      (allowed : call.Allowed context) : TypeReachable (call.run context)

structure SoundContext (context : Context) : Prop where
  elements : Sound context.elements
  known : ∀ t ∈ context.mTypes, t.mElement ∈ context.elements.mElements
  computed : ∀ t ∈ context.mTypes, t = RsType.create t.address t.mElement t.toTypeKey

theorem Call.run_kept {call : Call} {state : ElementState} (sound : Sound state)
    (allowed : call.Allowed state) {e : Element} (mem : e ∈ state.mElements)
    (stays : ∀ gone, call = .destroy gone → e.address ≠ gone.address) :
    e ∈ (call.run state).mElements := by
  cases call with
  | createRef dt dk isNorm vecSize => exact (createRef_gives sound).grows.kept e mem
  | createRefFields specs =>
    exact (createRefFields_gives sound allowed.2 allowed.1).grows.kept e mem
  | destroy gone => exact mem_destroy.mpr ⟨mem, stays gone rfl⟩

section

variable {context : Context} {e : Element} {key : TypeKey}

/-- Found or new, the type is the one that `compute` makes from the key. -/
theorem getTypeRef_eq (sound : SoundContext context) (live : e ∈ context.elements.mElements) :
    (getTypeRef e key context).1 = RsType.create (getTypeRef e key context).1.address e key := by
  rw [getTypeRef]
  cases found : context.mTypes.find? (RsType.matches e key) with
  | none => rfl
  | some t =>
    have mem := List.mem_of_find?_eq_some found
    have isMatch := List.find?_some found
    rw [RsType.matches, Bool.and_eq_true, beq_iff_eq, beq_iff_eq] at isMatch
    have elem := sound.elements.distinct _ (sound.known t mem) e live isMatch.1
    have computed := sound.computed t mem
    rwa [elem, isMatch.2] at computed

theorem getTypeRef_sound (sound : SoundContext context) (live : e ∈ context.elements.mElements) :
    SoundContext (getTypeRef e key context).2 := by
  rw [getTypeRef]
  cases context.mTypes.find? (RsType.matches e key) with
  | some t => exact sound
  | none =>
    refine ⟨sound.elements, ?_, ?_⟩
    · exact forall_mem_append.mpr ⟨sound.known, forall_mem_singleton.mpr live⟩
    · exact forall_mem_append.mpr ⟨sound.computed, forall_mem_singleton.mpr rfl⟩

end

theorem TypeCall.run_sound {call : TypeCall} {context : Context} (sound : SoundContext context)
    (allowed : call.Allowed context) : SoundContext (call.run context) := by
  cases call with
  | element call =>
    refine ⟨Call.run_sound sound.elements allowed.1, ?_, sound.computed⟩
    intro t member
    exact Call.run_kept sound.elements allowed.1 (sound.known t member) fun gone destroyed => allowed.2 gone destroyed t member
  | getTypeRef e key => exact getTypeRef_sound sound allowed
  | destroyType t =>
    refine ⟨sound.elements, ?_, ?_⟩
    · exact fun other member => sound.known other (mem_of_mem_filter member)
    · exact fun other member => sound.computed other (mem_of_mem_filter member)

theorem TypeReachable.sound {context : Context} (reachable : TypeReachable context) : SoundContext context := by
  induction reachable with
  | init => exact ⟨sound_empty, by simp, by simp⟩
  | step _ allowed ih => exact TypeCall.run_sound ih allowed

/-- What reading the bytes of a type does to the tables, and which type it gives. -/
def RsType.rebuild (t : RsType) (context : Context) : RsType × Context :=
  let found := t.mElement.rebuild context.elements
  getTypeRef found.1 { t.toTypeKey with mDimLOD := decide (t.mLodCount ≠ 0), dimYuv := 0 }
    { context with elements := found.2 }

theorem reads_onElements {α : Type} {use64 : Bool} {work : Create α} {context : Context}
    {chunks : List Chunk} {result : α} {elements : ElementState}
    (reads : Reads use64 (work.run context.elements) chunks (result, elements)) :
    Reads use64 ((onElements work).run context) chunks (result, { context with elements := elements }) :=
  reads.map fun found : α × ElementState =>
    (found.1, ({ context with elements := found.2 } : Context))

theorem flag_ne_zero (p : Prop) [Decidable p] : ((if p then 1 else 0 : UInt8) != 0) = decide p := by
  by_cases holds : p <;> simp [holds]

theorem reads_type {use64 : Bool} {getName getElementName : Nat → CString} {t : RsType}
    (name : (getName t.address).strlen < 2 ^ 32) (storable : t.mElement.Storable getElementName) (context : Context) :
    Reads use64 (RsType.createFromStream.run context) ((t.serialize getName getElementName).flatMap (Value.chunks use64))
      (some (t.rebuild context).1, (t.rebuild context).2) := by
  have elem := reads_onElements (@reads_element use64 _ _ storable context.elements)
  simp only [RsType.serialize, flatMap_append, append_assoc]
  refine ((reads_loadU32 _).lift context).step (((reads_loadString name).lift context).step ?_)
  refine elem.step ?_
  refine ((reads_loadU32 _).lift _).step (((reads_loadU32 _).lift _).step
    (((reads_loadU32 _).lift _).step (((reads_loadU8 _).lift _).step
    (((reads_loadU8 _).lift _).step ?_))))
  rw [flag_ne_zero, flag_ne_zero, Bool.decide_eq_true]
  exact (reads_modifyGet (getTypeRef _ _) _).step (reads_pure_run _ _)

structure SameType (t other : RsType) : Prop where
  element : t.mElement.Alike other.mElement
  dimX : t.dimX = other.dimX
  dimY : t.dimY = other.dimY
  dimZ : t.dimZ = other.dimZ
  lod : t.mDimLOD = other.mDimLOD
  faces : t.faces = other.faces
  cells : t.mCellCount = other.mCellCount

section

variable {context other : Context} {t : RsType}

theorem rebuild_eq (known : SoundContext context) (built : t ∈ context.mTypes) (sound : SoundContext other) :
    (t.rebuild other).1 = RsType.create (t.rebuild other).1.address
      (t.mElement.rebuild other.elements).1 { t.toTypeKey with mDimLOD := true, dimYuv := 0 } := by
  have gives := known.elements.rebuild_gives (known.known t built) sound.elements
  have levels : t.mLodCount ≠ 0 := by
    rw [known.computed t built]
    exact TypeKey.lodCount_ne_zero _
  have between : SoundContext { other with elements := (t.mElement.rebuild other.elements).2 } :=
    ⟨gives.sound, fun t member => gives.grows.kept _ (sound.known t member), sound.computed⟩
  rw [RsType.rebuild, decide_eq_true levels]
  exact getTypeRef_eq between gives.member

theorem rebuild_sameType (known : SoundContext context) (built : t ∈ context.mTypes)
    (notYuv : t.dimYuv = 0) (sound : SoundContext other) (element : t.mElement.Alike (t.mElement.rebuild other.elements).1) :
    SameType t (t.rebuild other).1 ↔ t.mDimLOD = true := by
  rw [rebuild_eq known built sound]
  constructor
  · exact SameType.lod
  · intro lod
    refine ⟨element, rfl, rfl, rfl, lod, rfl, ?_⟩
    have key : { t.toTypeKey with mDimLOD := true, dimYuv := 0 } = t.toTypeKey := by
      rw [← lod, ← notYuv]
    have computed := congrArg RsType.mCellCount (known.computed t built)
    rw [key]
    exact computed

variable {malloc : UInt64 → Nat → UInt8} {getName getElementName : Nat → CString}
  {length : UInt64} {use64 : Bool} {after : OStream}

/-- The bytes of a type whose element round-trips are always read back to a type. It has
the same element, dimensions, flags and cells exactly when the type has the LOD flag. -/
theorem createFromStream_serialize_type (reachable : TypeReachable context)
    (built : t ∈ context.mTypes) (notYuv : t.dimYuv = 0) (narrow : t.mElement.Narrow) (name : (getName t.address).strlen < 2 ^ 32)
    (names : ∀ n : Element, n.Within t.mElement → (getElementName n.address).strlen < 2 ^ 32)
    (labels : ∀ n : Element, n.Within t.mElement → ∀ field ∈ n.mFields, field.1.name.strlen < 2 ^ 32)
    (added : (OStream.create malloc length use64).addAll malloc (t.serialize getName getElementName) = some after)
    (small : PositionsBelow (2 ^ 62) malloc (OStream.create malloc length use64) (t.serialize getName getElementName)) :
    (∀ other, TypeReachable other → ∃ result final,
      (RsType.createFromStream.run other).run { mData := after.bytes, mUse64 := use64 } =
        some ((some result, final), { mData := after.bytes, mPos := after.mPos, mUse64 := use64 }) ∧
      (SameType t result ↔ t.mDimLOD = true)) ∧
    (Interned context.elements t.mElement → ∃ result final,
      (RsType.createFromStream.run context).run { mData := after.bytes, mUse64 := use64 } =
        some ((some result, final), { mData := after.bytes, mPos := after.mPos, mUse64 := use64 }) ∧
      (result.mElement = t.mElement ∧ SameType t result ↔ t.mDimLOD = true)) := by
  have known := reachable.sound
  have mem := known.known t built
  have counts : ∀ n : Element, n.Within t.mElement → n.getFieldCount < 2 ^ 32 := fun n within =>
    known.elements.counts n (known.elements.within mem within)
  have reads (other : Context) := (reads_type name ⟨names, counts, labels⟩ other).of_written added small
  constructor
  · intro other otherReachable
    have sound := otherReachable.sound
    have elem := (rebuild_alike known.elements mem sound.elements).mpr narrow
    exact ⟨_, _, reads other, rebuild_sameType known built notYuv sound elem⟩
  · intro interned
    have elem := (rebuild_alike known.elements mem known.elements).mpr narrow
    have eq := rebuild_sameType known built notYuv known elem
    have object : (t.rebuild context).1.mElement = t.mElement := by
      rw [rebuild_eq known built known, rebuild_of_interned known.elements mem narrow interned]
      rfl
    exact ⟨_, _, reads context, (and_iff_right object).trans eq⟩

end

private def staleBlock (_ : UInt64) (_ : Nat) : UInt8 := 0xcd

private theorem empty_noZero : (0 : UInt8) ∉ ([] : List UInt8) := not_mem_nil

private def noName (_ : Nat) : CString := ⟨[], empty_noZero⟩

private def byteElement : Element := (createRef .unsigned8 .user false 1 {}).1

private def byteContext : Context :=
  { elements := (Call.createRef .unsigned8 .user false 1).run {} }

private theorem byteContext_reachable : TypeReachable byteContext :=
  @TypeReachable.step _ (.element (.createRef .unsigned8 .user false 1)) .init ⟨trivial, fun _ destroyed => by cases destroyed⟩

private def rowKey (mDimLOD : Bool) : TypeKey :=
  { dimX := 4, dimY := 0, dimZ := 0, mDimLOD := mDimLOD, faces := false, dimYuv := 0 }

private def rowType (mDimLOD : Bool) : RsType × Context :=
  getTypeRef byteElement (rowKey mDimLOD) byteContext

private theorem byteElement_narrow : byteElement.Narrow := by
  apply narrow_mk.mpr
  exact ⟨by decide, fun field none => absurd none not_mem_nil⟩

private theorem byteElement_labels (n : Element) (within : n.Within byteElement) :
    ∀ field ∈ n.mFields, field.1.name.strlen < 2 ^ 32 := by
  rcases within_mk.mp within with rfl | ⟨field, none, _⟩
  · exact fun field none => absurd none not_mem_nil
  · cases none

/-- A row of four cells with levels of detail. -/
theorem createFromStream_serialize_type_row : ∃ after, (OStream.create staleBlock 64 false).addAll staleBlock
        ((rowType true).1.serialize noName noName) = some after ∧
      ∃ result final, (RsType.createFromStream.run {}).run { mData := after.bytes, mUse64 := false } =
        some ((some result, final), { mData := after.bytes, mPos := after.mPos, mUse64 := false }) ∧
      SameType (rowType true).1 result := by
  have some : ((OStream.create staleBlock 64 false).addAll staleBlock
      ((rowType true).1.serialize noName noName)).isSome := by decide +kernel
  obtain ⟨after, added⟩ := Option.isSome_iff_exists.mp some
  have reachable := @TypeReachable.step _ (.getTypeRef byteElement (rowKey true)) byteContext_reachable (.head _)
  have names : ∀ n : Element, n.Within byteElement → (noName n.address).strlen < 2 ^ 32 := fun _ _ => Nat.two_pow_pos 32
  have name : (noName (rowType true).1.address).strlen < 2 ^ 32 := Nat.two_pow_pos 32
  have built : (rowType true).1 ∈ (rowType true).2.mTypes := .head _
  obtain ⟨result, final, read, eq⟩ := (createFromStream_serialize_type reachable built rfl
    byteElement_narrow name names byteElement_labels added
    (positionsBelow_of_inits (by decide +kernel))).1 {} .init
  exact ⟨after, added, result, final, read, eq.mpr rfl⟩

/-- A row of four cells without levels of detail comes back with three levels and
seven cells. -/
theorem createFromStream_serialize_type_gains_levels : (rowType false).1.mDimLOD = false ∧ (rowType false).1.mCellCount = 4 ∧
    ∃ after, (OStream.create staleBlock 64 false).addAll staleBlock ((rowType false).1.serialize noName noName) = some after ∧
      ∃ result final position, (RsType.createFromStream.run {}).run
          { mData := after.bytes, mUse64 := false } = some ((some result, final), position) ∧
        result.mDimLOD = true ∧ result.mLodCount = 3 ∧ result.mCellCount = 7 := by
  have written : ((OStream.create staleBlock 64 false).addAll staleBlock
      ((rowType false).1.serialize noName noName)).map OStream.bytes =
        some [2, 0, 0, 0, 0, 0, 0, 0, 3, 0, 0, 0, 0, 0, 0, 0, 8, 0, 0, 0xcd, 1, 0, 0, 0,
          0, 0, 0, 0, 4, 0, 0, 0, 0, 0, 0, 0, 0, 0, 0, 0, 1, 0] := by decide +kernel
  obtain ⟨after, added, bytes⟩ := Option.map_eq_some_iff.mp written
  refine ⟨rfl, rfl, after, added, ?_⟩
  rw [bytes]
  exact ⟨_, _, _, rfl, rfl, rfl, rfl⟩

end RenderScript.Types
