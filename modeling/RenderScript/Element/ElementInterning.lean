import RenderScript.Element.ElementProperties

/-!
# One element per key

Single-threaded clients that respect the assertions of `Component::set` get one
object for each key.
-/

namespace RenderScript.Elements
open List

variable {call : Call} {dt : RsDataType} {dk : RsDataKind} {isNorm : Bool} {vecSize : UInt32} {e : Element}
  {specs : List FieldSpec}

def RsDataKind.Asserts (isNorm : Bool) (vecSize : UInt32) : RsDataKind → Prop
  | .pixelL | .pixelA | .pixelYUV => vecSize = 1 ∧ isNorm = true
  | .pixelLA => vecSize = 2 ∧ isNorm = true
  | .pixelRGB => vecSize = 3 ∧ isNorm = true
  | .pixelRGBA => vecSize = 4 ∧ isNorm = true
  | .invalid => False
  | .user | .pixelDepth | .unnamed _ _ => True

def RsDataType.Asserts (dk : RsDataKind) (isNorm : Bool) (vecSize : UInt32) : RsDataType → Prop
  | .unsigned565 => dk = .pixelRGB
  | .unsigned5551 | .unsigned4444 => dk = .pixelRGBA
  | .matrix4x4 | .matrix3x3 | .matrix2x2
  | .element | .type | .allocation | .sampler | .script | .mesh | .programFragment
  | .programVertex | .programRaster | .programStore | .font =>
    vecSize = 1 ∧ isNorm = false ∧ dk = .user
  | .invalid | .unnamed _ _ => False
  | .none | .float16 | .float32 | .float64 | .signed8 | .signed16 | .signed32 | .signed64
  | .unsigned8 | .unsigned16 | .unsigned32 | .unsigned64 | .boolean => True

/-- All assertions of `set`. -/
def Component.Asserts (dt : RsDataType) (dk : RsDataKind) (isNorm : Bool) (vecSize : UInt32) : Prop :=
  vecSize ≤ 4 ∧ dk.Asserts isNorm vecSize ∧ dt.Asserts dk isNorm vecSize

/-- Under its assertions `set` keeps the values it is given. -/
theorem Component.Asserts.kept (asserts : Component.Asserts dt dk isNorm vecSize) :
    (Component.set dt dk isNorm vecSize).mNormalized = isNorm ∧ (Component.set dt dk isNorm vecSize).mVectorSize = vecSize := by
  obtain ⟨-, kind, type⟩ := asserts
  cases dt with
  | unsigned565 =>
    obtain rfl : dk = .pixelRGB := type
    exact ⟨kind.2.symm, kind.1.symm⟩
  | unsigned5551 | unsigned4444 =>
    obtain rfl : dk = .pixelRGBA := type
    exact ⟨kind.2.symm, kind.1.symm⟩
  | _ => exact ⟨rfl, rfl⟩

/-- Simple form within the assertions, or structure form with at least one field and names
of the given lengths. -/
def Call.Asserted : Call → Prop
  | .createRef dt dk isNorm vecSize => Component.Asserts dt dk isNorm vecSize
  | .createRefFields specs => specs ≠ [] ∧ ∀ spec ∈ specs, spec.Plain
  | .destroy _ => True

theorem Call.Asserted.careful (asserted : call.Asserted) : call.Careful := by
  cases call with
  | createRef dt dk isNorm vecSize => exact Component.Asserts.kept asserted
  | createRefFields specs => exact asserted
  | destroy e => trivial

theorem Reachable.mono {sort wider : Call → Prop} (weaker : ∀ call, sort call → wider call)
    {state : ElementState} (reachable : Reachable sort state) : Reachable wider state := by
  induction reachable with
  | init => exact .init
  | step _ allowed isSort ih => exact .step ih allowed (weaker _ isSort)

/-- What identifies an element: the component, or the elements, names and array sizes of the
fields. -/
inductive Key where
  | component (dt : RsDataType) (dk : RsDataKind) (isNorm : Bool) (vecSize : UInt32)
  | fields (fields : List (Nat × FieldLabel))
  deriving DecidableEq

def Element.key (e : Element) : Key :=
  if e.mFields = [] then
    .component e.mComponent.mType e.mComponent.mKind e.mComponent.mNormalized
      e.mComponent.mVectorSize
  else .fields (e.mFields.map fun field => (field.2.address, field.1))

def FieldSpec.key (spec : FieldSpec) : Nat × FieldLabel :=
  (spec.ein.address, { name := spec.nin, arraySize := spec.asize })

def Call.key : Call → Option Key
  | .createRef dt dk isNorm vecSize => some (.component dt dk isNorm vecSize)
  | .createRefFields specs => some (.fields (specs.map FieldSpec.key))
  | .destroy _ => none

def Call.returned : Call → ElementState → Option Element
  | .createRef dt dk isNorm vecSize, state => some (Elements.createRef dt dk isNorm vecSize state).1
  | .createRefFields specs, state => some (Elements.createRefFields specs state).1
  | .destroy _, _ => none

section

variable {ee other : Element} {state : ElementState}

theorem key_leaf (leaf : e.mFields = []) : e.key = .component e.mComponent.mType e.mComponent.mKind e.mComponent.mNormalized
      e.mComponent.mVectorSize := if_pos leaf

theorem key_fields (some : e.mFields ≠ []) :
    e.key = .fields (e.mFields.map fun field => (field.2.address, field.1)) := if_neg some

theorem matchesComponent_iff_key :
    ee.matchesComponent dt dk isNorm vecSize = true ↔ ee.key = .component dt dk isNorm vecSize := by
  rw [matchesComponent_iff]
  by_cases leaf : ee.mFields = []
  · rw [key_leaf leaf, and_iff_right leaf, Key.component.injEq]
  · rw [key_fields leaf]
    exact iff_of_false (fun both => leaf both.1) Key.noConfusion

theorem forall₂_matches_iff (plain : ∀ spec ∈ specs, spec.Plain) {fields : List (FieldLabel × Element)} :
    List.Forall₂ (fun spec field => FieldSpec.matches spec field = true) specs fields ↔
      fields.map (fun field => (field.2.address, field.1)) = specs.map FieldSpec.key := by
  induction specs generalizing fields with
  | nil =>
    simp
  | cons spec specs ih =>
    obtain ⟨thisPlain, plain⟩ := forall_mem_cons.mp plain
    cases fields with
    | nil => exact iff_of_false (fun both => nomatch both) (cons_ne_nil _ _).symm
    | cons field fields =>
      simp [matches_iff thisPlain, ih plain, FieldSpec.key]

theorem matchesFields_iff_key (ne : specs ≠ []) (plain : ∀ spec ∈ specs, spec.Plain) :
    ee.matchesFields specs = true ↔ ee.key = .fields (specs.map FieldSpec.key) := by
  rw [matchesFields_iff, forall₂_matches_iff plain]
  by_cases leaf : ee.mFields = []
  · rw [key_leaf leaf, leaf]
    exact iff_of_false (fun eq => ne (map_eq_nil_iff.mp eq.symm)) Key.noConfusion
  · rw [key_fields leaf, Key.fields.injEq]

theorem sameKey_iff : e.sameKey other = true ↔ other.key = e.key := by
  by_cases leaf : e.mFields = []
  · simp [Element.sameKey, leaf, matchesComponent_iff_key, key_leaf leaf]
  · have ne : e.specs ≠ [] := fun none => leaf (map_eq_nil_iff.mp none)
    have plain : ∀ spec ∈ e.specs, spec.Plain := by
      intro spec mem
      obtain ⟨field, -, rfl⟩ := mem_map.mp mem
      rfl
    have keys : e.specs.map FieldSpec.key = e.mFields.map fun field => (field.2.address, field.1) := by
      rw [Element.specs, map_map]
      rfl
    simp [Element.sameKey, leaf, matchesFields_iff_key ne plain, key_fields leaf, keys]

theorem NoTwins.key_injective (noTwins : NoTwins state) (mem : e ∈ state.mElements) (mem' : other ∈ state.mElements)
    (same : e.key = other.key) : e = other := by
  have keys : e.sameKey = other.sameKey := by
    funext ee
    rw [Bool.eq_iff_iff, sameKey_iff, sameKey_iff, same]
  have first := noTwins e mem
  rw [keys, noTwins other mem'] at first
  exact (Option.some.inj first).symm

theorem lookup_spec (result : Element × ElementState) (noTwins : NoTwins state) {isMatch : Element → Bool} {key : Key}
    {mComponent : Component} {mFields : List (FieldLabel × Element)} (match_iff : ∀ ee, isMatch ee = true ↔ ee.key = key)
    (new : (Element.mk state.next mComponent mFields).key = key) (looked : result = match state.mElements.find? isMatch with
      | some ee => (ee, state)
      | none => state.push mComponent mFields) :
    result.1 ∈ result.2.mElements ∧ result.1.key = key ∧ ∀ other ∈ state.mElements, other.key = key → result.1 = other := by
  cases found : state.mElements.find? isMatch with
  | some ee =>
    rw [found] at looked
    cases looked
    have mem := List.mem_of_find?_eq_some found
    have eq := (match_iff ee).mp (List.find?_some found)
    refine ⟨mem, eq, fun other mem' otherKey => ?_⟩
    exact noTwins.key_injective mem mem' (eq.trans otherKey.symm)
  | none =>
    rw [found] at looked
    cases looked
    refine ⟨mem_push.mpr (.inr rfl), new, fun other mem' otherKey => ?_⟩
    exact absurd ((match_iff other).mpr otherKey) (List.find?_eq_none.mp found other mem')

theorem key_new_component (careful : (Call.createRef dt dk isNorm vecSize).Careful) (address : Nat) :
    (Element.mk address (.set dt dk isNorm vecSize) []).key = .component dt dk isNorm vecSize := by
  obtain ⟨norm, size⟩ := careful
  rw [key_leaf rfl]
  simp [Element.mComponent, Component.mType_set, Component.mKind_set, norm, size]

theorem key_new_fields (ne : specs ≠ []) (plain : ∀ spec ∈ specs, spec.Plain) (address : Nat) (mComponent : Component) :
    (Element.mk address mComponent (specs.map FieldSpec.field)).key = .fields (specs.map FieldSpec.key) := by
  have some : (Element.mk address mComponent (specs.map FieldSpec.field)).mFields ≠ [] :=
    fun none => ne (map_eq_nil_iff.mp none)
  rw [key_fields some, Element.mFields, map_map]
  refine congrArg Key.fields (map_congr_left fun spec isSpec => ?_)
  simp [(plain spec isSpec).field_eq, FieldSpec.key]

theorem returned_spec (noTwins : NoTwins state) (asserted : call.Asserted) (returned : call.returned state = some e) :
    e ∈ (call.run state).mElements ∧ call.key = some e.key ∧
      ∀ other ∈ state.mElements, call.key = some other.key → e = other := by
  cases call with
  | createRef dt dk isNorm vecSize =>
    cases returned
    obtain ⟨mem, key, unique⟩ := lookup_spec (Elements.createRef dt dk isNorm vecSize state)
      noTwins (fun _ => matchesComponent_iff_key) (key_new_component asserted.careful state.next) rfl
    refine ⟨mem, congrArg some key.symm, fun other mem' eq => ?_⟩
    exact unique other mem' (Option.some.inj eq).symm
  | createRefFields specs =>
    cases returned
    obtain ⟨ne, plain⟩ := asserted
    obtain ⟨mem, key, unique⟩ := lookup_spec (Elements.createRefFields specs state) noTwins
      (fun _ => matchesFields_iff_key ne plain)
      (key_new_fields ne plain state.next .initial) rfl
    refine ⟨mem, congrArg some key.symm, fun other mem' eq => ?_⟩
    exact unique other mem' (Option.some.inj eq).symm
  | destroy gone => cases returned

end

/-- Over any run there is at most one live element for each key, a call returns an element with
the key it asks for, and it returns the object that has this key as long as that lives. -/
theorem createRef_unique {state : ElementState} (reachable : Reachable Call.Asserted state) :
    (∀ e ∈ state.mElements, ∀ other ∈ state.mElements, e.key = other.key → e = other) ∧
    ∀ call : Call, call.Asserted → call.Allowed state → ∀ e, call.returned state = some e →
      e ∈ (call.run state).mElements ∧ call.key = some e.key ∧
        ∀ other ∈ state.mElements, call.key = some other.key → e = other := by
  have noTwins := (reachable.mono fun _ => Call.Asserted.careful).noTwins
  constructor
  · intro e mem other mem' eq
    exact noTwins.key_injective mem mem' eq
  · intro call asserted _ e ret
    exact returned_spec noTwins asserted ret

private def floatRef : Call := .createRef .float32 .user false 1

private theorem floatRef_asserted : floatRef.Asserted := ⟨by decide, trivial, trivial⟩

/-- The second call for a float returns the element of the first. -/
theorem createRef_unique_float : Reachable Call.Asserted (floatRef.run {}) ∧
      floatRef.returned (floatRef.run {}) = floatRef.returned {} := by
  have reachable := @Reachable.step Call.Asserted {} floatRef .init trivial floatRef_asserted
  obtain ⟨e, first⟩ : ∃ e, floatRef.returned {} = some e := ⟨_, rfl⟩
  obtain ⟨again, second⟩ : ∃ e, floatRef.returned (floatRef.run {}) = some e := ⟨_, rfl⟩
  obtain ⟨mem, key, -⟩ := (createRef_unique .init).2 floatRef floatRef_asserted trivial e first
  obtain ⟨-, -, eq⟩ := (createRef_unique reachable).2 floatRef floatRef_asserted trivial again second
  exact ⟨reachable, rfl⟩

end RenderScript.Elements
