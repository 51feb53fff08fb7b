import RenderScript.Element.Element
import RenderScript.Stream.StreamProperties

/-!
# Reading back the bytes of an element

What `createFromStream` does with the bytes that `serialize` wrote, as a function of
the element and of the table of elements alone. Data types come back as the byte
they were cut down to.
-/

namespace RenderScript.Elements
open AlignedBytes RenderScript.Stream List

theorem RsDataType.code_ofByte (byte : UInt8) : (RsDataType.ofByte byte).code = byte.toUInt32 := by
  by_cases nameless : 19 ≤ byte
  · rw [RsDataType.ofByte, dif_pos nameless, RsDataType.code]
  · have named : ∀ low : Fin 19, (RsDataType.ofByte (.ofNat low)).code = (UInt8.ofNat low).toUInt32 := by
      decide
    rw [UInt8.not_le] at nameless
    have found := named ⟨byte.toNat, nameless⟩
    rwa [UInt8.ofNat_toNat] at found

theorem RsDataType.ofByte_code {dt : RsDataType} (small : dt.code < 256) : RsDataType.ofByte dt.code.toUInt8 = dt := by
  cases dt with
  | unnamed code nameless =>
    have eq := UInt8.toUInt8_toUInt32 code
    simp only [RsDataType.code, eq, RsDataType.ofByte, nameless, dif_pos]
  | _ => first | rfl | exact absurd small (by decide)

theorem RsDataType.ofByte_code_eq_iff (dt : RsDataType) : RsDataType.ofByte dt.code.toUInt8 = dt ↔ dt.code < 256 := by
  constructor
  · intro eq
    rw [← eq, RsDataType.code_ofByte, UInt32.lt_iff_toNat_lt, UInt8.toNat_toUInt32]
    exact UInt8.toNat_lt _
  · exact RsDataType.ofByte_code

theorem RsDataKind.ofByte_code (dk : RsDataKind) : RsDataKind.ofByte dk.code.toUInt8 = dk := by
  cases dk with
  | unnamed code nameless =>
    have eq := UInt8.toUInt8_toUInt32 code
    simp only [RsDataKind.code, eq, RsDataKind.ofByte, dif_pos nameless]
  | _ => rfl

/-- A component is determined by the four values that `set` keeps. -/
theorem Component.set_eq (dt : RsDataType) (dk : RsDataKind) (norm : Bool) (vecSize : UInt32) :
    Component.set (Component.set dt dk norm vecSize).mType (Component.set dt dk norm vecSize).mKind
      (Component.set dt dk norm vecSize).mNormalized
      (Component.set dt dk norm vecSize).mVectorSize = Component.set dt dk norm vecSize := by
  cases dt <;> rfl

/-- Built by `set`. -/
def Component.Proper (c : Component) : Prop :=
  Component.set c.mType c.mKind c.mNormalized c.mVectorSize = c

theorem Component.proper_set (dt : RsDataType) (dk : RsDataKind) (norm : Bool) (vecSize : UInt32) :
    (Component.set dt dk norm vecSize).Proper :=
  Component.set_eq dt dk norm vecSize

theorem Component.mType_set (dt : RsDataType) (dk : RsDataKind) (norm : Bool) (vecSize : UInt32) :
    (Component.set dt dk norm vecSize).mType = dt := by
  cases dt <;> rfl

theorem Component.mKind_set (dt : RsDataType) (dk : RsDataKind) (norm : Bool) (vecSize : UInt32) :
    (Component.set dt dk norm vecSize).mKind = dk := by
  cases dt <;> rfl

def Component.narrowed (c : Component) : Component :=
  .set (.ofByte c.mType.code.toUInt8) c.mKind c.mNormalized c.mVectorSize

theorem Component.Proper.narrowed_eq_iff {c : Component} (proper : c.Proper) : c.narrowed = c ↔ c.mType.code < 256 := by
  rw [← RsDataType.ofByte_code_eq_iff]
  constructor
  · intro eq
    have types := congrArg Component.mType eq
    rwa [Component.narrowed, Component.mType_set] at types
  · intro eq
    rw [Component.narrowed, eq]
    exact proper

@[elab_as_elim]
theorem Element.ind {motive : Element → Prop} (node : ∀ address mComponent mFields, (∀ field ∈ mFields, motive field.2) →
      motive (.mk address mComponent mFields)) (e : Element) : motive e :=
  match e with
  | .mk address mComponent mFields =>
    node address mComponent mFields fun field _ => Element.ind node field.2
termination_by e
decreasing_by
  rename_i member
  have inside := sizeOf_lt_of_mem member
  cases field
  simp only [Element.mk.sizeOf_spec, Prod.mk.sizeOf_spec] at *
  omega

inductive Element.Within (n : Element) : Element → Prop where
  | self : Within n n
  | field {e : Element} {field : FieldLabel × Element} (member : field ∈ e.mFields)
      (below : Within n field.2) : Within n e

structure Element.Storable (getName : Nat → CString) (e : Element) : Prop where
  names : ∀ n : Element, n.Within e → (getName n.address).strlen < 2 ^ 32
  counts : ∀ n : Element, n.Within e → n.getFieldCount < 2 ^ 32
  labels : ∀ n : Element, n.Within e → ∀ field ∈ n.mFields, field.1.name.strlen < 2 ^ 32

theorem Element.Storable.field {getName : Nat → CString} {e : Element}
    (storable : e.Storable getName) {field : FieldLabel × Element} (mem : field ∈ e.mFields) :
    field.2.Storable getName where
  names n within := storable.names n (.field mem within)
  counts n within := storable.counts n (.field mem within)
  labels n within := storable.labels n (.field mem within)

mutual

/-- What reading the bytes of an element does to the table, and which element it gives. -/
def Element.rebuild : Element → ElementState → Element × ElementState
  | .mk _ c [], state =>
    createRef c.narrowed.mType c.narrowed.mKind c.narrowed.mNormalized c.narrowed.mVectorSize state
  | .mk _ _ (field :: rest), state =>
    let found := rebuildFields (field :: rest) state
    createRefFields found.1 found.2

def rebuildFields : List (FieldLabel × Element) → ElementState → List FieldSpec × ElementState
  | [], state => ([], state)
  | (label, e) :: rest, state =>
    let first := e.rebuild state
    let others := rebuildFields rest first.2
    ({ ein := first.1, nin := label.name, asize := label.arraySize } :: others.1, others.2)

end

theorem CString.ofBuffer_bytes (s : CString) : CString.ofBuffer s.bytes = s := by
  have whole : s.bytes.takeWhile (· != 0) = s.bytes := by
    rw [takeWhile_eq_self_iff]
    intro byte mem
    have present : byte ≠ 0 := fun zero => s.noZero (zero ▸ mem)
    exact bne_iff_ne.mpr present
  cases s
  simpa only [CString.ofBuffer, CString.mk.injEq] using whole

section

variable {use64 : Bool} {getName : Nat → CString}

theorem reads_component (c : Component) :
    Reads use64 Component.loadFromStream (c.serialize.flatMap (Value.chunks use64)) c.narrowed := by
  have flag : ((if c.mNormalized then 1 else 0 : UInt8) != 0) = c.mNormalized := by
    cases c.mNormalized <;> rfl
  have value : Component.set (.ofByte c.mType.code.toUInt8) (.ofByte c.mKind.code.toUInt8)
      ((if c.mNormalized then 1 else 0 : UInt8) != 0) c.mVectorSize = c.narrowed := by
    rw [RsDataKind.ofByte_code, flag, Component.narrowed]
  rw [← value]
  exact (reads_loadU8 _).bind ((reads_loadU8 _).bind ((reads_loadU8 _).bind ((reads_loadU32 _).bind (reads_pure _))))

def Element.chunks (use64 : Bool) (getName : Nat → CString) (e : Element) : List Chunk :=
  (e.serialize getName).flatMap (Value.chunks use64)

def fieldChunks (use64 : Bool) (getName : Nat → CString) (fields : List (FieldLabel × Element)) :
    List Chunk :=
  (serializeFields getName fields).flatMap (Value.chunks use64)

theorem chunks_mk (address : Nat) (c : Component) (fields : List (FieldLabel × Element)) :
    (Element.mk address c fields).chunks use64 getName = (Value.u32 RS_A3D_CLASS_ID_ELEMENT).chunks use64 ++
      ((Value.string (getName address).bytes).chunks use64 ++
      (c.serialize.flatMap (Value.chunks use64) ++
      ((Value.u32 (.ofNat fields.length)).chunks use64 ++
      fieldChunks use64 getName fields))) := by
  simp [Element.chunks, fieldChunks, Element.serialize]

theorem fieldChunks_cons (label : FieldLabel) (e : Element) (rest : List (FieldLabel × Element)) :
    fieldChunks use64 getName ((label, e) :: rest) = (Value.string label.name.bytes).chunks use64 ++
      ((Value.u32 label.arraySize).chunks use64 ++
      (e.chunks use64 getName ++ fieldChunks use64 getName rest)) := by
  simp [Element.chunks, fieldChunks, serializeFields]

/-- `createFromStream` reads the bytes of `e` as `rebuild` says. -/
def ReadsBack (use64 : Bool) (getName : Nat → CString) (depth : Nat) (e : Element) : Prop :=
  ∀ state, Reads use64 ((createFromStreamDepth depth).run state) (e.chunks use64 getName)
    (some (e.rebuild state).1, (e.rebuild state).2)

theorem reads_loadFields {depth : Nat} {fields : List (FieldLabel × Element)}
    (labels : ∀ field ∈ fields, field.1.name.strlen < 2 ^ 32)
    (elements : ∀ field ∈ fields, ReadsBack use64 getName depth field.2) (state : ElementState) :
    Reads use64 ((loadFields (createFromStreamDepth depth) fields.length).run state)
      (fieldChunks use64 getName fields) (rebuildFields fields state) := by
  induction fields generalizing state with
  | nil => exact reads_pure_run [] state
  | cons field rest ih =>
    obtain ⟨label, e⟩ := field
    obtain ⟨short, labels⟩ := forall_mem_cons.mp labels
    obtain ⟨first, elements⟩ := forall_mem_cons.mp elements
    have others := ih labels elements (e.rebuild state).2
    rw [fieldChunks_cons, length_cons, loadFields, rebuildFields]
    refine ((reads_loadString short).lift state).step ?_
    refine ((reads_loadU32 label.arraySize).lift state).step ((first state).step ?_)
    rw [← append_nil (fieldChunks use64 getName rest)]
    refine others.step ?_
    rw [CString.ofBuffer_bytes]
    exact reads_pure_run _ _

theorem total_fieldChunks {fields : List (FieldLabel × Element)} {field : FieldLabel × Element} (mem : field ∈ fields) :
    total (field.2.chunks use64 getName) ≤ total (fieldChunks use64 getName fields) := by
  induction fields with
  | nil => cases mem
  | cons head rest ih =>
    obtain ⟨label, e⟩ := head
    rw [fieldChunks_cons]
    simp only [total_append]
    rcases mem_cons.mp mem with rfl | later
    · dsimp only
      omega
    · have smaller := ih later
      omega

theorem reads_createFromStream {e : Element} (storable : e.Storable getName) {depth : Nat}
    (deep : total (e.chunks use64 getName) ≤ depth) : ReadsBack use64 getName depth e := by
  induction e using Element.ind generalizing depth with
  | node addr c fields ih =>
    intro state
    rw [chunks_mk] at deep ⊢
    simp only [total_append] at deep
    have identifier : total ((Value.u32 RS_A3D_CLASS_ID_ELEMENT).chunks use64) = 4 := rfl
    cases depth with
    | zero => omega
    | succ depth =>
      have nested : ∀ field ∈ fields, ReadsBack use64 getName depth field.2 := by
        intro field mem
        have smaller := @total_fieldChunks use64 getName _ _ mem
        exact ih field mem (storable.field mem) (by omega)
      have count : (UInt32.ofNat fields.length).toNat = fields.length := by
        exact Nat.mod_eq_of_lt (storable.counts _ .self)
      refine ((reads_loadU32 _).lift state).step ?_
      refine ((reads_loadString (storable.names _ .self)).lift state).step ?_
      refine ((reads_component c).lift state).step ?_
      refine ((reads_loadU32 _).lift state).step ?_
      cases fields with
      | nil =>
        exact (reads_modifyGet (createRef _ _ _ _) state).step (reads_pure_run _ _)
      | cons field rest =>
        have some : UInt32.ofNat (field :: rest).length ≠ 0 := by
          intro zero
          rw [zero] at count
          cases count
        rw [if_neg some, count, ← append_nil (fieldChunks use64 getName (field :: rest))]
        refine (reads_loadFields (storable.labels _ .self) nested state).step ?_
        exact (reads_modifyGet (createRefFields _) _).step (reads_pure_run _ _)

theorem reads_element {e : Element} (storable : e.Storable getName) (state : ElementState) :
    Reads use64 (Element.createFromStream.run state) (e.chunks use64 getName)
      (some (e.rebuild state).1, (e.rebuild state).2) := by
  intro s eq small placed inside
  have bytes := total_le_finish s.mPos.toNat (e.chunks use64 getName)
  have deep : total (e.chunks use64 getName) ≤ s.mData.length := by omega
  exact reads_createFromStream storable deep state s eq small placed inside

end

end RenderScript.Elements
