import RenderScript.Element.ElementCodec

/-!
# The table of elements over time

What holds of the table after any sequence of calls, and what `createRef` returns
in such a table.
-/

namespace RenderScript.Elements
open List

variable {e ee n other : Element} {spec : FieldSpec} {state : ElementState}

structure Sound (state : ElementState) : Prop where
  fresh : ∀ e ∈ state.mElements, e.address < state.next
  distinct : ∀ e ∈ state.mElements, ∀ other ∈ state.mElements, e.address = other.address → e = other
  closed : ∀ e ∈ state.mElements, ∀ field ∈ e.mFields, field.2 ∈ state.mElements
  proper : ∀ e ∈ state.mElements, e.mComponent.Proper
  bare : ∀ e ∈ state.mElements, e.mFields ≠ [] → e.mComponent = .initial
  counts : ∀ e ∈ state.mElements, e.getFieldCount < 2 ^ 32

theorem Sound.within (sound : Sound state) (mem : e ∈ state.mElements) (within : n.Within e) : n ∈ state.mElements := by
  induction within with
  | self => exact mem
  | field isField _ ih => exact ih (sound.closed _ mem _ isField)

structure Grows (before after : ElementState) : Prop where
  kept : ∀ e ∈ before.mElements, e ∈ after.mElements
  fresh : ∀ e ∈ after.mElements, e ∈ before.mElements ∨ before.next ≤ e.address
  next : before.next ≤ after.next

theorem Grows.refl (state : ElementState) : Grows state state :=
  ⟨fun _ mem => mem, fun _ mem => .inl mem, Nat.le_refl _⟩

theorem Grows.trans {first second third : ElementState} (grows : Grows first second)
    (further : Grows second third) : Grows first third where
  kept e member := further.kept e (grows.kept e member)
  fresh e member := by
    rcases further.fresh e member with earlier | new
    · exact grows.fresh e earlier
    · exact .inr (grows.next.trans new)
  next := grows.next.trans further.next

structure Gives (before : ElementState) (result : Element × ElementState) : Prop where
  sound : Sound result.2
  grows : Grows before result.2
  member : result.1 ∈ result.2.mElements

section

variable {state : ElementState} {mComponent : Component} {mFields : List (FieldLabel × Element)}

theorem mem_push : e ∈ (state.push mComponent mFields).2.mElements ↔
      e ∈ state.mElements ∨ e = .mk state.next mComponent mFields := by
  simp [ElementState.push]

theorem push_grows : Grows state (state.push mComponent mFields).2 where
  kept e member := mem_push.mpr (.inl member)
  fresh e member := by
    rcases mem_push.mp member with old | rfl
    · exact .inl old
    · exact .inr (Nat.le_refl _)
  next := Nat.le_succ _

theorem push_gives (sound : Sound state) (proper : mComponent.Proper) (bare : mFields ≠ [] → mComponent = .initial)
    (known : ∀ field ∈ mFields, field.2 ∈ state.mElements) (count : mFields.length < 2 ^ 32) :
    Gives state (state.push mComponent mFields) where
  grows := push_grows
  member := mem_push.mpr (.inr rfl)
  sound := {
    fresh := by
      intro e member
      rcases mem_push.mp member with old | rfl
      · exact Nat.lt_succ_of_lt (sound.fresh e old)
      · exact Nat.lt_succ_self _
    distinct := by
      intro e member other otherMember same
      rcases mem_push.mp member with old | rfl <;> rcases mem_push.mp otherMember with older | rfl
      · exact sound.distinct e old other older same
      · exact absurd same (sound.fresh e old).ne
      · exact absurd same.symm (sound.fresh other older).ne
      · rfl
    closed := by
      intro e member field isField
      rcases mem_push.mp member with old | rfl
      · exact mem_push.mpr (.inl (sound.closed e old field isField))
      · exact mem_push.mpr (.inl (known field isField))
    proper := by
      intro e member
      rcases mem_push.mp member with old | rfl
      · exact sound.proper e old
      · exact proper
    bare := by
      intro e member
      rcases mem_push.mp member with old | rfl
      · exact sound.bare e old
      · exact bare
    counts := by
      intro e member
      rcases mem_push.mp member with old | rfl
      · exact sound.counts e old
      · exact count }

end

theorem found_gives (sound : Sound state) {isMatch : Element → Bool} (found : state.mElements.find? isMatch = some e) :
    Gives state (e, state) :=
  ⟨sound, .refl state, List.mem_of_find?_eq_some found⟩

section

variable {state : ElementState} {dt : RsDataType} {dk : RsDataKind} {isNorm : Bool}
  {vecSize : UInt32}

theorem matchesComponent_iff : ee.matchesComponent dt dk isNorm vecSize = true ↔
      ee.mFields = [] ∧ ee.mComponent.mType = dt ∧ ee.mComponent.mKind = dk ∧
        ee.mComponent.mNormalized = isNorm ∧ ee.mComponent.mVectorSize = vecSize := by
  simp [Element.matchesComponent, Element.getFieldCount, and_assoc]

theorem createRef_gives (sound : Sound state) : Gives state (createRef dt dk isNorm vecSize state) := by
  rw [createRef]
  cases found : state.mElements.find? (Element.matchesComponent dt dk isNorm vecSize) with
  | some ee => exact found_gives sound found
  | none =>
    exact push_gives sound (Component.proper_set dt dk isNorm vecSize) (absurd rfl) (by simp) (by decide)

theorem createRef_leaf (sound : Sound state) : (createRef dt dk isNorm vecSize state).1.mFields = [] ∧
      (createRef dt dk isNorm vecSize state).1.mComponent = .set dt dk isNorm vecSize := by
  rw [createRef]
  cases found : state.mElements.find? (Element.matchesComponent dt dk isNorm vecSize) with
  | some ee =>
    obtain ⟨noFields, rfl, rfl, rfl, rfl⟩ := matchesComponent_iff.mp (List.find?_some found)
    exact ⟨noFields, (sound.proper ee (List.mem_of_find?_eq_some found)).symm⟩
  | none => exact ⟨rfl, rfl⟩

end

section

variable {state : ElementState} {specs : List FieldSpec}

theorem createRefFields_gives (sound : Sound state) (known : ∀ spec ∈ specs, spec.ein ∈ state.mElements)
    (count : specs.length < 2 ^ 32) : Gives state (createRefFields specs state) := by
  rw [createRefFields]
  cases found : state.mElements.find? (Element.matchesFields specs) with
  | some ee => exact found_gives sound found
  | none =>
    apply push_gives sound (Component.proper_set _ _ _ _) (fun _ => rfl)
    · intro field mem
      obtain ⟨spec, isSpec, rfl⟩ := mem_map.mp mem
      exact known spec isSpec
    · rwa [length_map]

def FieldSpec.Plain (spec : FieldSpec) : Prop := spec.len = spec.nin.strlen

theorem plain_default (ein : Element) (nin : CString) (asize : UInt32) :
    FieldSpec.Plain { ein := ein, nin := nin, asize := asize } := rfl

theorem FieldSpec.Plain.eq_default (plain : spec.Plain) : { ein := spec.ein, nin := spec.nin, asize := spec.asize } = spec := by
  obtain ⟨ein, nin, len, asize⟩ := spec
  have length : len = nin.strlen := plain
  rw [length]

theorem FieldSpec.Plain.field_eq (plain : spec.Plain) :
    spec.field = ({ name := spec.nin, arraySize := spec.asize }, spec.ein) := by
  have whole : rsuCopyString spec.nin spec.len = spec.nin := by
    have bytes : spec.nin.bytes.take spec.len = spec.nin.bytes := by
      rw [plain]
      exact take_length
    cases name : spec.nin
    simpa only [rsuCopyString, name, CString.mk.injEq] using bytes
  rw [FieldSpec.field, whole]

theorem matches_iff (plain : spec.Plain) {field : FieldLabel × Element} : spec.matches field = true ↔
      field.2.address = spec.ein.address ∧ field.1 = { name := spec.nin, arraySize := spec.asize } := by
  obtain ⟨⟨name, arraySize⟩, e⟩ := field
  simp only [FieldSpec.matches, Bool.and_eq_true, beq_iff_eq, FieldLabel.mk.injEq]
  constructor
  · rintro ⟨⟨⟨sameElement, -⟩, sameName⟩, sameSize⟩
    exact ⟨sameElement, sameName, sameSize⟩
  · rintro ⟨sameElement, sameName, sameSize⟩
    exact ⟨⟨⟨sameElement, by rw [sameName, plain]⟩, sameName⟩, sameSize⟩

theorem matchesFields_iff : ee.matchesFields specs = true ↔
      List.Forall₂ (fun spec field => FieldSpec.matches spec field = true) specs ee.mFields := by
  simp only [Element.matchesFields, Element.getFieldCount, Bool.and_eq_true, beq_iff_eq,
    all_eq_true, List.forall₂_iff_zip, Prod.forall]
  exact and_congr_left fun _ => eq_comm

theorem eq_map_of_matches {fields : List (FieldLabel × Element)}
    (same : List.Forall₂ (fun spec field => FieldSpec.matches spec field = true) specs fields)
    (plain : ∀ spec ∈ specs, spec.Plain) (identified : ∀ spec ∈ specs, ∀ field ∈ fields, field.2.address = spec.ein.address →
      field.2 = spec.ein) : fields = specs.map FieldSpec.field := by
  induction same with
  | nil => rfl
  | @cons spec field specs fields here _ ih =>
    obtain ⟨thisPlain, plain⟩ := forall_mem_cons.mp plain
    obtain ⟨sameElement, sameLabel⟩ := (matches_iff thisPlain).mp here
    have elem := identified spec mem_cons_self field mem_cons_self sameElement
    have rest := ih plain fun spec isSpec field isField =>
      identified spec (.tail _ isSpec) field (.tail _ isField)
    rw [map_cons, ← rest, thisPlain.field_eq, ← sameLabel, ← elem]

theorem createRefFields_fields (sound : Sound state) (some : specs ≠ [])
    (known : ∀ spec ∈ specs, spec.ein ∈ state.mElements) (plain : ∀ spec ∈ specs, spec.Plain) :
    (createRefFields specs state).1.mFields = specs.map FieldSpec.field ∧
      (createRefFields specs state).1.mComponent = .initial := by
  rw [createRefFields]
  cases found : state.mElements.find? (Element.matchesFields specs) with
  | none => exact ⟨rfl, rfl⟩
  | some ee =>
    have mem := List.mem_of_find?_eq_some found
    have fields : ee.mFields = specs.map FieldSpec.field := by
      apply eq_map_of_matches (matchesFields_iff.mp (List.find?_some found)) plain
      intro spec isSpec field isField
      exact sound.distinct _ (sound.closed ee mem field isField) _ (known spec isSpec)
    refine ⟨fields, sound.bare ee mem ?_⟩
    rw [fields]
    exact fun none => some (map_eq_nil_iff.mp none)

end

/-- The calls that change the table. `createFromStream` is made of the first two. -/
inductive Call where
  | createRef (dt : RsDataType) (dk : RsDataKind) (isNorm : Bool) (vecSize : UInt32)
  | createRefFields (specs : List FieldSpec)
  | destroy (e : Element)

def Call.run : Call → ElementState → ElementState
  | .createRef dt dk isNorm vecSize, state => (Elements.createRef dt dk isNorm vecSize state).2
  | .createRefFields specs, state => (Elements.createRefFields specs state).2
  | .destroy e, state => state.destroy e

/-- Fields are live elements, counted by the 32-bit counter of the loop, and an element that is
the field of another one is kept alive by it. -/
def Call.Allowed : Call → ElementState → Prop
  | .createRef _ _ _ _, _ => True
  | .createRefFields specs, state =>
    specs.length < 2 ^ 32 ∧ ∀ spec ∈ specs, spec.ein ∈ state.mElements
  | .destroy e, state =>
    ∀ other ∈ state.mElements, ∀ field ∈ other.mFields, field.2.address ≠ e.address

inductive Reachable (sort : Call → Prop) : ElementState → Prop where
  | init : Reachable sort {}
  | step {state : ElementState} {call : Call} (before : Reachable sort state)
      (allowed : call.Allowed state) (isSort : sort call) : Reachable sort (call.run state)

theorem mem_destroy : other ∈ (state.destroy e).mElements ↔ other ∈ state.mElements ∧ other.address ≠ e.address := by
  simp [ElementState.destroy]

theorem destroy_sound (sound : Sound state)
    (unused : ∀ other ∈ state.mElements, ∀ field ∈ other.mFields, field.2.address ≠ e.address) :
    Sound (state.destroy e) where
  fresh other member := sound.fresh other (mem_destroy.mp member).1
  distinct first member second secondMember :=
    sound.distinct first (mem_destroy.mp member).1 second (mem_destroy.mp secondMember).1
  closed other member field isField := by
    have old := (mem_destroy.mp member).1
    exact mem_destroy.mpr ⟨sound.closed other old field isField, unused other old field isField⟩
  proper other member := sound.proper other (mem_destroy.mp member).1
  bare other member := sound.bare other (mem_destroy.mp member).1
  counts other member := sound.counts other (mem_destroy.mp member).1

theorem Call.run_sound {call : Call} (sound : Sound state) (allowed : call.Allowed state) : Sound (call.run state) := by
  cases call with
  | createRef dt dk isNorm vecSize => exact (createRef_gives sound).sound
  | createRefFields specs => exact (createRefFields_gives sound allowed.2 allowed.1).sound
  | destroy e => exact destroy_sound sound allowed

theorem sound_empty : Sound {} := by
  constructor <;> simp

theorem Reachable.sound {sort : Call → Prop} (reachable : Reachable sort state) : Sound state := by
  induction reachable with
  | init => exact sound_empty
  | step _ allowed _ ih => exact Call.run_sound ih allowed

end RenderScript.Elements
