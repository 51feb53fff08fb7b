import RenderScript.Element.ElementTable

/-!
# Round trip of elements

Reading back an element gives an equal one unless a data type was cut off, and it
gives the same object when in addition every part is the first of its key in the
table.
-/

namespace RenderScript.Elements
open AlignedBytes RenderScript.Stream List Option

variable {state : ElementState} {address : Nat} {c : Component} {fields : List (FieldLabel × Element)} {e n : Element}

mutual

/-- Same component, same labels and recursively equal fields, wherever the objects are. -/
def Element.Alike : Element → Element → Prop
  | .mk _ c fields, other => c = other.mComponent ∧ FieldsAlike fields other.mFields

def FieldsAlike : List (FieldLabel × Element) → List (FieldLabel × Element) → Prop
  | [], others => others = []
  | (label, e) :: rest, others =>
    ∃ other others', others = (label, other) :: others' ∧ e.Alike other ∧ FieldsAlike rest others'

end

theorem alike_refl (e : Element) : e.Alike e := by
  induction e using Element.ind with
  | node addr c fields ih =>
    refine ⟨rfl, ?_⟩
    induction fields with
    | nil => rfl
    | cons field rest restIh =>
      obtain ⟨here, others⟩ := forall_mem_cons.mp ih
      exact ⟨field.2, rest, rfl, here, restIh others⟩

def Element.Narrow (e : Element) : Prop :=
  ∀ n : Element, n.Within e → n.mComponent.mType.code < 256

/-- What `createFromStream` looks for when it has read an element. -/
def Element.specs (e : Element) : List FieldSpec :=
  e.mFields.map fun field => { ein := field.2, nin := field.1.name, asize := field.1.arraySize }

def Element.sameKey (e : Element) : Element → Bool :=
  if e.mFields = [] then
    Element.matchesComponent e.mComponent.mType e.mComponent.mKind e.mComponent.mNormalized
      e.mComponent.mVectorSize
  else Element.matchesFields e.specs

def Interned (state : ElementState) (e : Element) : Prop :=
  ∀ n : Element, n.Within e → state.mElements.find? n.sameKey = some n

theorem within_mk : n.Within (.mk address c fields) ↔ n = .mk address c fields ∨ ∃ field ∈ fields, n.Within field.2 := by
  constructor
  · intro within
    cases within with
    | self => exact .inl rfl
    | field mem lt => exact .inr ⟨_, mem, lt⟩
  · rintro (rfl | ⟨field, mem, lt⟩)
    · exact .self
    · exact .field mem lt

theorem forall_within_mk {p : Element → Prop} : (∀ n : Element, n.Within (.mk address c fields) → p n) ↔
      p (.mk address c fields) ∧ ∀ field ∈ fields, ∀ n : Element, n.Within field.2 → p n := by
  simp only [within_mk]
  constructor
  · intro all
    exact ⟨all _ (.inl rfl), fun field mem n lt => all n (.inr ⟨field, mem, lt⟩)⟩
  · rintro ⟨here, lt⟩ n (rfl | ⟨field, mem, within⟩)
    · exact here
    · exact lt field mem n within

theorem narrow_mk : (Element.mk address c fields).Narrow ↔ c.mType.code < 256 ∧ ∀ field ∈ fields, field.2.Narrow :=
  forall_within_mk

theorem interned_mk : Interned state (.mk address c fields) ↔
      state.mElements.find? (Element.mk address c fields).sameKey = some (.mk address c fields) ∧
        ∀ field ∈ fields, Interned state field.2 :=
  forall_within_mk

/-- What `rebuildFields` does to a sound table. -/
structure GivesFields (before : ElementState) (fields : List (FieldLabel × Element))
    (result : List FieldSpec × ElementState) : Prop where
  sound : Sound result.2
  grows : Grows before result.2
  known : ∀ spec ∈ result.1, spec.ein ∈ result.2.mElements
  plain : ∀ spec ∈ result.1, spec.Plain
  count : result.1.length = fields.length

theorem rebuildFields_gives (sound : Sound state)
    (elements : ∀ field ∈ fields, ∀ state, Sound state → Gives state (field.2.rebuild state)) :
    GivesFields state fields (rebuildFields fields state) := by
  induction fields generalizing state with
  | nil => exact ⟨sound, .refl state, by simp [rebuildFields], by simp [rebuildFields], rfl⟩
  | cons field rest ih =>
    obtain ⟨here, elements⟩ := forall_mem_cons.mp elements
    have first := here state sound
    have others := ih first.sound elements
    refine ⟨others.sound, first.grows.trans others.grows, ?_, ?_, congrArg (· + 1) others.count⟩
    · exact forall_mem_cons.mpr ⟨others.grows.kept _ first.member, others.known⟩
    · exact forall_mem_cons.mpr ⟨rfl, others.plain⟩

theorem rebuild_gives (counts : ∀ n : Element, n.Within e → n.getFieldCount < 2 ^ 32)
    (sound : Sound state) : Gives state (e.rebuild state) := by
  induction e using Element.ind generalizing state with
  | node addr c fields ih =>
    cases fields with
    | nil =>
      exact createRef_gives sound
    | cons field rest =>
      have inner := rebuildFields_gives sound fun field member state sound =>
        ih field member (fun n lt => counts n (.field member lt)) sound
      have bounded : (rebuildFields (field :: rest) state).1.length < 2 ^ 32 := by
        rw [inner.count]
        exact counts _ .self
      have outer := createRefFields_gives inner.sound inner.known bounded
      exact ⟨outer.sound, inner.grows.trans outer.grows, outer.member⟩

section

variable {origin state before : ElementState}

theorem Sound.rebuild_gives (known : Sound origin) (mem : e ∈ origin.mElements)
    (sound : Sound state) : Gives state (e.rebuild state) :=
  Elements.rebuild_gives (fun n within => known.counts n (known.within mem within)) sound

theorem Sound.rebuildFields_gives (known : Sound origin)
    (members : ∀ field ∈ fields, field.2 ∈ origin.mElements) (sound : Sound state) :
    GivesFields state fields (rebuildFields fields state) :=
  Elements.rebuildFields_gives sound fun field isField _ sound =>
    known.rebuild_gives (members field isField) sound

theorem rebuildFields_alike (known : Sound origin) (members : ∀ field ∈ fields, field.2 ∈ origin.mElements)
    (elements : ∀ field ∈ fields, ∀ state, Sound state → (field.2.Alike (field.2.rebuild state).1 ↔ field.2.Narrow))
    (sound : Sound state) :
    FieldsAlike fields ((rebuildFields fields state).1.map FieldSpec.field) ↔ ∀ field ∈ fields, field.2.Narrow := by
  induction fields generalizing state with
  | nil => simp [rebuildFields, FieldsAlike]
  | cons field rest ih =>
    obtain ⟨label, e⟩ := field
    obtain ⟨mem, members⟩ := forall_mem_cons.mp members
    obtain ⟨here, elements⟩ := forall_mem_cons.mp elements
    have first := here state sound
    have others := ih members elements (known.rebuild_gives mem sound).sound
    have plain := plain_default (e.rebuild state).1 label.name label.arraySize
    rw [rebuildFields, FieldsAlike, map_cons, plain.field_eq, forall_mem_cons, ← first, ← others]
    constructor
    · rintro ⟨other, others', eq, alike, restAlike⟩
      obtain ⟨head, tail⟩ := cons.inj eq
      cases head
      cases tail
      exact ⟨alike, restAlike⟩
    · rintro ⟨alike, restAlike⟩
      exact ⟨_, _, rfl, alike, restAlike⟩

theorem rebuild_alike (known : Sound origin) (mem : e ∈ origin.mElements)
    (sound : Sound state) : e.Alike (e.rebuild state).1 ↔ e.Narrow := by
  induction e using Element.ind generalizing state with
  | node addr c fields ih =>
    have members : ∀ field ∈ fields, field.2 ∈ origin.mElements := known.closed _ mem
    have proper : c.Proper := known.proper _ mem
    cases fields with
    | nil =>
      obtain ⟨noFields, component⟩ := @createRef_leaf _ _ _ c.narrowed.mNormalized c.narrowed.mVectorSize sound
      have narrowed := Component.proper_set (.ofByte c.mType.code.toUInt8) c.mKind c.mNormalized c.mVectorSize
      rw [Element.rebuild, Element.Alike, noFields, component, narrow_mk, ← proper.narrowed_eq_iff]
      simp only [FieldsAlike, not_mem_nil, false_implies, implies_true, and_true]
      rw [eq_comm]
      exact Eq.congr_left narrowed
    | cons field rest =>
      have inner := known.rebuildFields_gives members sound
      have some : (rebuildFields (field :: rest) state).1 ≠ [] := by
        intro none
        have count := inner.count
        rw [none] at count
        cases count
      obtain ⟨result, component⟩ := createRefFields_fields inner.sound some inner.known inner.plain
      have bare : c = .initial := known.bare _ mem (cons_ne_nil _ _)
      have fields := rebuildFields_alike known members
        (fun field isField _ sound => ih field isField (members field isField) sound) sound
      rw [Element.rebuild, Element.Alike, result, component, fields, narrow_mk, bare]
      exact and_congr_left fun _ => iff_of_true rfl (by decide)

theorem not_pushed (grows : Grows state before) (sound : Sound state)
    (mem : e ∈ state.mElements) : (before.push c fields).1 ≠ e := by
  rintro rfl
  have old := sound.fresh _ mem
  have new := grows.next
  exact absurd new (not_le.mpr old)

theorem rebuildFields_self (sound : Sound state) (members : ∀ field ∈ fields, field.2 ∈ state.mElements)
    (elements : ∀ field ∈ fields, (field.2.rebuild state).1 = field.2 →
      (field.2.rebuild state).2 = state ∧ Interned state field.2)
    (same : List.Forall₂ (fun spec field => FieldSpec.matches spec field = true) (rebuildFields fields state).1 fields) :
    rebuildFields fields state = (fields.map fun field =>
        { ein := field.2, nin := field.1.name, asize := field.1.arraySize }, state) ∧
      ∀ field ∈ fields, Interned state field.2 := by
  induction fields with
  | nil => simp [rebuildFields]
  | cons field rest ih =>
    obtain ⟨label, e⟩ := field
    obtain ⟨member, members⟩ := forall_mem_cons.mp members
    obtain ⟨here, elements⟩ := forall_mem_cons.mp elements
    have first := sound.rebuild_gives member sound
    rw [rebuildFields] at same ⊢
    obtain ⟨matching, others⟩ := List.forall₂_cons.mp same
    -- two elements of the later table with one address
    have found := (first.sound.distinct e (first.grows.kept e member) _ first.member ((matches_iff (plain_default _ _ _)).mp matching).1).symm
    obtain ⟨unchanged, interned⟩ := here found
    rw [unchanged] at others ⊢
    obtain ⟨restSame, restInterned⟩ := ih members elements others
    rw [restSame, found]
    exact ⟨rfl, forall_mem_cons.mpr ⟨interned, restInterned⟩⟩

theorem sameKey_leaf (address : Nat) (c : Component) : (Element.mk address c []).sameKey =
      Element.matchesComponent c.mType c.mKind c.mNormalized c.mVectorSize := rfl

theorem sameKey_fields (address : Nat) (c : Component) (field : FieldLabel × Element) (rest : List (FieldLabel × Element)) :
    (Element.mk address c (field :: rest)).sameKey = Element.matchesFields (Element.mk address c (field :: rest)).specs := rfl

theorem interned_of_rebuild (sound : Sound state) (mem : e ∈ state.mElements)
    (same : (e.rebuild state).1 = e) : (e.rebuild state).2 = state ∧ Interned state e := by
  induction e using Element.ind with
  | node addr c fields ih =>
    have members : ∀ field ∈ fields, field.2 ∈ state.mElements := sound.closed _ mem
    rw [interned_mk]
    cases fields with
    | nil =>
      rw [Element.rebuild, createRef] at same ⊢
      cases found : state.mElements.find? (Element.matchesComponent c.narrowed.mType
          c.narrowed.mKind c.narrowed.mNormalized c.narrowed.mVectorSize) with
      | none =>
        rw [found] at same
        exact absurd same (not_pushed (.refl state) sound mem)
      | some ee =>
        rw [found] at same
        obtain rfl : ee = .mk addr c [] := same
        obtain ⟨-, dt, dk, norm, size⟩ := matchesComponent_iff.mp (List.find?_some found)
        rw [← dt, ← dk, ← norm, ← size] at found
        exact ⟨rfl, found, by simp⟩
    | cons field rest =>
      have inner := sound.rebuildFields_gives members sound
      rw [Element.rebuild, createRefFields] at same ⊢
      cases found : (rebuildFields (field :: rest) state).2.mElements.find?
          (Element.matchesFields (rebuildFields (field :: rest) state).1) with
      | none =>
        simp only [found] at same
        exact absurd same (not_pushed inner.grows sound mem)
      | some ee =>
        simp only [found] at same
        obtain rfl : ee = .mk addr c (field :: rest) := same
        obtain ⟨specs, interned⟩ := rebuildFields_self sound members
          (fun field isField => ih field isField (members field isField))
          (matchesFields_iff.mp (List.find?_some found))
        rw [specs] at found ⊢
        exact ⟨rfl, found, interned⟩

theorem rebuildFields_of_self (elements : ∀ field ∈ fields, field.2.rebuild state = (field.2, state)) :
    rebuildFields fields state = (fields.map fun field =>
      { ein := field.2, nin := field.1.name, asize := field.1.arraySize }, state) := by
  induction fields with
  | nil => rfl
  | cons field rest ih =>
    obtain ⟨here, elements⟩ := forall_mem_cons.mp elements
    rw [rebuildFields, here, ih elements]
    rfl

theorem rebuild_of_interned (sound : Sound state) (mem : e ∈ state.mElements)
    (narrow : e.Narrow) (interned : Interned state e) : e.rebuild state = (e, state) := by
  induction e using Element.ind with
  | node addr c fields ih =>
    have members := sound.closed _ mem
    have proper : c.Proper := sound.proper _ mem
    obtain ⟨small, narrow⟩ := narrow_mk.mp narrow
    obtain ⟨found, interned⟩ := interned_mk.mp interned
    cases fields with
    | nil =>
      rw [sameKey_leaf] at found
      rw [Element.rebuild, proper.narrowed_eq_iff.mpr small, createRef, found]
    | cons field rest =>
      have inner := rebuildFields_of_self fun field isField =>
        ih field isField (members field isField) (narrow field isField) (interned field isField)
      rw [sameKey_fields] at found
      rw [Element.rebuild, inner, createRefFields]
      simp only [Element.specs, Element.mFields] at found
      rw [found]

/-- Reading gives the object itself exactly when no data type was cut off and no part
has an earlier twin in the table. -/
theorem rebuild_same (sound : Sound state) (mem : e ∈ state.mElements) :
    (e.rebuild state).1 = e ↔ e.Narrow ∧ Interned state e := by
  constructor
  · intro eq
    obtain ⟨-, interned⟩ := interned_of_rebuild sound mem eq
    exact ⟨(rebuild_alike sound mem sound).mp (by rw [eq]; exact alike_refl e), interned⟩
  · rintro ⟨narrow, interned⟩
    rw [rebuild_of_interned sound mem narrow interned]

theorem sameKey_self (e : Element) : e.sameKey e = true := by
  cases e with
  | mk addr c fields =>
    cases fields with
    | nil =>
      rw [sameKey_leaf, matchesComponent_iff]
      exact ⟨rfl, rfl, rfl, rfl, rfl⟩
    | cons field rest =>
      rw [sameKey_fields, matchesFields_iff, Element.specs, List.forall₂_map_left_iff, List.forall₂_same]
      intro field _
      exact (matches_iff (plain_default _ _ _)).mpr ⟨rfl, rfl⟩

def Call.Careful : Call → Prop
  | .createRef dt dk isNorm vecSize =>
    (Component.set dt dk isNorm vecSize).mNormalized = isNorm ∧
      (Component.set dt dk isNorm vecSize).mVectorSize = vecSize
  | .createRefFields specs => specs ≠ [] ∧ ∀ spec ∈ specs, spec.Plain
  | .destroy _ => True

def NoTwins (state : ElementState) : Prop :=
  ∀ e ∈ state.mElements, state.mElements.find? e.sameKey = some e

theorem NoTwins.interned (noTwins : NoTwins state) (sound : Sound state) (mem : e ∈ state.mElements) : Interned state e :=
  fun n within => noTwins n (sound.within mem within)

theorem NoTwins.push (noTwins : NoTwins state) (missing : state.mElements.find? (Element.mk state.next c fields).sameKey = none) :
    NoTwins (state.push c fields).2 := by
  intro e mem
  rw [ElementState.push, List.find?_append]
  rcases mem_push.mp mem with old | rfl
  · rw [noTwins e old, some_or]
  · rw [missing, none_or, List.find?_cons_of_pos (sameKey_self _)]

theorem NoTwins.destroy (noTwins : NoTwins state) (gone : Element) : NoTwins (state.destroy gone) := by
  intro e mem
  obtain ⟨old, stays⟩ := mem_destroy.mp mem
  obtain ⟨isMatch, front, back, table, before⟩ := List.find?_eq_some_iff_append.mp (noTwins e old)
  rw [ElementState.destroy, List.find?_filter, table, List.find?_append,
    List.find?_eq_none.mpr, none_or, List.find?_cons_of_pos]
  · exact decide_eq_true ⟨bne_iff_ne.mpr stays, isMatch⟩
  · intro other isFront twin
    have ne := before other isFront
    rw [(of_decide_eq_true twin).2] at ne
    exact Bool.false_ne_true ne

theorem specs_map_field {specs : List FieldSpec} (plain : ∀ spec ∈ specs, spec.Plain) (address : Nat) (c : Component) :
    (Element.mk address c (specs.map FieldSpec.field)).specs = specs := by
  rw [Element.specs, Element.mFields, List.map_map]
  refine (map_congr_left fun spec isSpec => ?_).trans (List.map_id specs)
  rw [Function.comp_apply, (plain spec isSpec).field_eq]
  exact (plain spec isSpec).eq_default

theorem Call.run_noTwins {call : Call} (noTwins : NoTwins state) (careful : call.Careful) : NoTwins (call.run state) := by
  cases call with
  | createRef dt dk isNorm vecSize =>
    rw [Call.run, Elements.createRef]
    cases found : state.mElements.find? (Element.matchesComponent dt dk isNorm vecSize) with
    | some ee => exact noTwins
    | none =>
      apply noTwins.push
      rw [sameKey_leaf, careful.1, careful.2, Component.mType_set, Component.mKind_set]
      exact found
  | createRefFields specs =>
    rw [Call.run, Elements.createRefFields]
    cases found : state.mElements.find? (Element.matchesFields specs) with
    | some ee => exact noTwins
    | none =>
      apply noTwins.push
      rw [Element.sameKey, if_neg, specs_map_field careful.2]
      · exact found
      · exact fun none => careful.1 (map_eq_nil_iff.mp none)
  | destroy e => exact noTwins.destroy e

theorem Reachable.noTwins (reachable : Reachable Call.Careful state) : NoTwins state := by
  induction reachable with
  | init => exact fun _ none => absurd none not_mem_nil
  | step _ _ careful ih => exact Call.run_noTwins ih careful

theorem rebuild_careful (reachable : Reachable Call.Careful state)
    (mem : e ∈ state.mElements) (narrow : e.Narrow) : e.rebuild state = (e, state) :=
  rebuild_of_interned reachable.sound mem narrow (reachable.noTwins.interned reachable.sound mem)

end

section

variable {malloc : UInt64 → Nat → UInt8} {getName : Nat → CString} {length : UInt64} {use64 : Bool}
  {e : Element} {after : OStream}

/-- The bytes of an element are always read back to an element. In every context it is
equal to the one written exactly when no data type was cut off; in the context of the
one written it is the same object exactly when in addition no part has an earlier twin. -/
theorem createFromStream_serialize {state : ElementState}
    (reachable : Reachable (fun _ => True) state) (built : e ∈ state.mElements)
    (names : ∀ n : Element, n.Within e → (getName n.address).strlen < 2 ^ 32)
    (labels : ∀ n : Element, n.Within e → ∀ field ∈ n.mFields, field.1.name.strlen < 2 ^ 32)
    (added : (OStream.create malloc length use64).addAll malloc (e.serialize getName) = some after)
    (small : PositionsBelow (2 ^ 62) malloc (OStream.create malloc length use64) (e.serialize getName)) :
    (∀ other, Reachable (fun _ => True) other → ∃ result final,
      (Element.createFromStream.run other).run { mData := after.bytes, mUse64 := use64 } =
        some ((some result, final), { mData := after.bytes, mPos := after.mPos, mUse64 := use64 }) ∧
      (e.Alike result ↔ e.Narrow)) ∧
    ∃ result final, (Element.createFromStream.run state).run { mData := after.bytes, mUse64 := use64 } =
        some ((some result, final), { mData := after.bytes, mPos := after.mPos, mUse64 := use64 }) ∧
      (result = e ↔ e.Narrow ∧ Interned state e) := by
  have sound := reachable.sound
  have counts : ∀ n : Element, n.Within e → n.getFieldCount < 2 ^ 32 := fun n within =>
    sound.counts n (sound.within built within)
  have reads (context : ElementState) := (reads_element ⟨names, counts, labels⟩ context).of_written added small
  constructor
  · intro other otherReachable
    exact ⟨_, _, reads other, rebuild_alike sound built otherReachable.sound⟩
  · exact ⟨_, _, reads state, rebuild_same sound built⟩

end

private def dirtyMemory (_ : UInt64) (_ : Nat) : UInt8 := 0xcd

private def unnamed (_ : Nat) : CString := ⟨[], not_mem_nil⟩

private def floatCall : Call := .createRef .float32 .user false 1

private def floatElement : Element := (createRef .float32 .user false 1 {}).1

theorem rebuild_careful_float : floatElement.rebuild (floatCall.run {}) = (floatElement, floatCall.run {}) :=
  rebuild_careful (Reachable.step .init trivial ⟨rfl, rfl⟩) (.head _) (narrow_mk.mpr ⟨by decide, nofun⟩)

private def pairSpec : FieldSpec := { ein := floatElement, nin := ⟨[120], by decide⟩, asize := 2 }

private def pairTable : ElementState := (Call.createRefFields [pairSpec]).run (floatCall.run {})

private def pairElement : Element := (createRefFields [pairSpec] (floatCall.run {})).1

private theorem pairTable_reachable : Reachable (fun _ => True) pairTable := by
  have first : Reachable (fun _ => True) (floatCall.run {}) := Reachable.step .init trivial trivial
  apply Reachable.step first _ trivial
  refine ⟨by decide, ?_⟩
  intro spec isSpec
  rw [mem_singleton.mp isSpec]
  exact mem_singleton.mpr rfl

private theorem pair_labels (n : Element) (within : n.Within pairElement) :
    ∀ field ∈ n.mFields, field.1.name.strlen < 2 ^ 32 := by
  rcases within_mk.mp within with rfl | ⟨field, isField, lt⟩
  · intro field isField
    rw [mem_singleton.mp isField]
    decide
  · rw [mem_singleton.mp isField] at lt
    rcases within_mk.mp lt with rfl | ⟨field, none, _⟩
    · exact fun field none => absurd none not_mem_nil
    · cases none

/-- An element with one field, in the table that made it. -/
theorem createFromStream_serialize_pair : ∃ after, (OStream.create dirtyMemory 16 false).addAll dirtyMemory
        (pairElement.serialize unnamed) = some after ∧
      ∃ result final, (Element.createFromStream.run pairTable).run { mData := after.bytes, mUse64 := false } =
        some ((some result, final), { mData := after.bytes, mPos := after.mPos, mUse64 := false }) ∧
      (result = pairElement ↔ pairElement.Narrow ∧ Interned pairTable pairElement) := by
  have some : ((OStream.create dirtyMemory 16 false).addAll dirtyMemory
      (pairElement.serialize unnamed)).isSome := by decide +kernel
  obtain ⟨after, added⟩ := isSome_iff_exists.mp some
  have built : pairElement ∈ pairTable.mElements := .tail _ (.head _)
  have names : ∀ n : Element, n.Within pairElement → (unnamed n.address).strlen < 2 ^ 32 := fun _ _ => Nat.two_pow_pos 32
  have both := createFromStream_serialize pairTable_reachable built names pair_labels added
    (positionsBelow_of_inits (by decide +kernel))
  exact ⟨after, added, both.2⟩

private def allocationElement : Element := (createRef .allocation .user false 1 {}).1

/-- The second of two equal calls: `set` replaces the arguments, so the first element is
not found. -/
private def twinResult : Element × ElementState :=
  createRef .unsigned565 .pixelRGB false 1 (createRef .unsigned565 .pixelRGB false 1 {}).2

/-- An element of object type comes back with another data type, and the second of two
twins comes back as the first. -/
theorem createFromStream_serialize_differs : (∃ after, (OStream.create dirtyMemory 64 false).addAll dirtyMemory
        (allocationElement.serialize unnamed) = some after ∧
      ∃ result final position, (Element.createFromStream.run {}).run
          { mData := after.bytes, mUse64 := false } = some ((some result, final), position) ∧
        result.mComponent.mType = .unnamed 234 (by decide) ∧ ¬ allocationElement.Alike result) ∧
    (twinResult.1.address = 1 ∧ twinResult.2.mElements.length = 2 ∧
      ∃ after, (OStream.create dirtyMemory 64 false).addAll dirtyMemory (twinResult.1.serialize unnamed) = some after ∧
      ∃ result final position, (Element.createFromStream.run twinResult.2).run
          { mData := after.bytes, mUse64 := false } = some ((some result, final), position) ∧
        result.address = 0) := by
  have written : ((OStream.create dirtyMemory 64 false).addAll dirtyMemory
      (allocationElement.serialize unnamed)).map OStream.bytes =
        some [3, 0, 0, 0, 0, 0, 0, 0, 234, 0, 0, 0xcd, 1, 0, 0, 0, 0, 0, 0, 0] := by decide +kernel
  have twinWritten : ((OStream.create dirtyMemory 64 false).addAll dirtyMemory
      (twinResult.1.serialize unnamed)).map OStream.bytes =
        some [3, 0, 0, 0, 0, 0, 0, 0, 13, 10, 1, 0xcd, 3, 0, 0, 0, 0, 0, 0, 0] := by decide +kernel
  constructor
  · obtain ⟨after, added, bytes⟩ := map_eq_some_iff.mp written
    refine ⟨after, added, ?_⟩
    rw [bytes]
    refine ⟨_, _, _, rfl, rfl, ?_⟩
    rintro ⟨component, -⟩
    exact absurd (congrArg Component.mType component) (by decide)
  · obtain ⟨after, added, bytes⟩ := map_eq_some_iff.mp twinWritten
    refine ⟨rfl, rfl, after, added, ?_⟩
    rw [bytes]
    exact ⟨_, _, _, rfl, rfl⟩

end RenderScript.Elements
