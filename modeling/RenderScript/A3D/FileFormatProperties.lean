import RenderScript.A3D.FileFormat
import RenderScript.Element.ElementCodec
import RenderScript.Stream.StreamRoom

/-!
# Files are read back

What is appended stands in the data of the file at the offset of its entry, and `load`
returns the index that was written. Names and strings have to fit the buffers.
-/

namespace RenderScript.A3DFile
open AlignedBytes RenderScript.Stream Elements List Option

variable {objs : List ObjectBase} {after s : IStream} {start position : Nat} {reader file loaded : FileA3D} {use64 : Bool}

/-!
## The layout of the data
-/

theorem word_pos : 0 < 4 := by decide

def ObjectBase.chunks (obj : ObjectBase) : List Chunk :=
  obj.serialize.flatMap (Value.chunks false) ++ [gap 4 word_pos]

def dataSize (objs : List ObjectBase) : Nat := finish 0 (objs.flatMap ObjectBase.chunks)

def ObjectBase.entry (obj : ObjectBase) (position : Nat) : A3DIndexEntry where
  mObjectName := obj.getName
  mType := obj.getClassId
  mOffset := .ofNat position
  mLength := .ofNat (finish position (obj.serialize.flatMap (Value.chunks false)) - position)

def entriesFrom : Nat → List ObjectBase → List A3DIndexEntry
  | _, [] => []
  | position, obj :: rest => obj.entry position :: entriesFrom (finish position obj.chunks) rest

theorem finish_chunks (obj : ObjectBase) (position : Nat) : finish position obj.chunks =
      alignUp 4 (finish position (obj.serialize.flatMap (Value.chunks false))) := by
  rw [ObjectBase.chunks, finish_append]
  rfl

theorem entriesFrom_append (front back : List ObjectBase) (position : Nat) : entriesFrom position (front ++ back) =
      entriesFrom position front ++ entriesFrom (finish position (front.flatMap ObjectBase.chunks)) back := by
  induction front generalizing position with
  | nil => rfl
  | cons obj rest ih =>
    rw [cons_append, entriesFrom, ih, flatMap_cons, finish_append]
    rfl

@[simp] theorem length_entriesFrom (objs : List ObjectBase) (position : Nat) :
    (entriesFrom position objs).length = objs.length := by
  induction objs generalizing position with
  | nil => rfl
  | cons obj rest ih => simp [entriesFrom, ObjectBase.entry, ih]

theorem map_entriesFrom (objs : List ObjectBase) (position : Nat) : (entriesFrom position objs).map (·.mObjectName) = objs.map (·.getName) ∧
    (entriesFrom position objs).map (·.mType) = objs.map (·.getClassId) := by
  induction objs generalizing position with
  | nil => exact ⟨rfl, rfl⟩
  | cons obj rest ih => simp [entriesFrom, ObjectBase.entry, ih]

def A3DIndexEntry.stop (entry : A3DIndexEntry) : Nat := entry.mOffset.toNat + entry.mLength.toNat

section

variable {obj : ObjectBase} {objs : List ObjectBase} {position : Nat} {entry : A3DIndexEntry}

theorem entry_small (small : finish position obj.chunks < 2 ^ 32) : (obj.entry position).mOffset.toNat = position ∧
      (obj.entry position).stop = finish position (obj.serialize.flatMap (Value.chunks false)) ∧
      (obj.entry position).stop ≤ finish position obj.chunks := by
  have further := le_finish position (obj.serialize.flatMap (Value.chunks false))
  have aligned := le_alignUp (by decide : 0 < 4) (finish position (obj.serialize.flatMap (Value.chunks false)))
  rw [← finish_chunks] at aligned
  have offset : (UInt64.ofNat position).toNat = position := by
    rw [UInt64.toNat_ofNat', Nat.mod_eq_of_lt (by omega)]
  have len : (UInt64.ofNat (finish position (obj.serialize.flatMap (Value.chunks false)) - position)).toNat =
      finish position (obj.serialize.flatMap (Value.chunks false)) - position := by
    rw [UInt64.toNat_ofNat', Nat.mod_eq_of_lt (by omega)]
  rw [A3DIndexEntry.stop, ObjectBase.entry]
  dsimp only
  omega

theorem mem_entriesFrom (small : finish position (objs.flatMap ObjectBase.chunks) < 2 ^ 32)
    (mem : entry ∈ entriesFrom position objs) :
    position ≤ entry.mOffset.toNat ∧ entry.stop ≤ finish position (objs.flatMap ObjectBase.chunks) ∧
      (4 ∣ position → 4 ∣ entry.mOffset.toNat) := by
  induction objs generalizing position with
  | nil => cases mem
  | cons obj rest ih =>
    rw [flatMap_cons, finish_append] at small ⊢
    have first := (le_finish (finish position obj.chunks) (rest.flatMap ObjectBase.chunks)).trans_lt small
    obtain ⟨offset, _, inside⟩ := entry_small first
    rcases mem_cons.mp mem with rfl | later
    · rw [offset]
      exact ⟨le_rfl, inside.trans (le_finish _ _), id⟩
    · obtain ⟨behind, within, aligned⟩ := ih small later
      refine ⟨(le_finish _ _).trans behind, within, fun _ => aligned ?_⟩
      rw [finish_chunks]
      exact dvd_alignUp 4 _

theorem pairwise_entriesFrom (small : finish position (objs.flatMap ObjectBase.chunks) < 2 ^ 32) :
    (entriesFrom position objs).Pairwise fun entry other => entry.stop ≤ other.mOffset.toNat := by
  induction objs generalizing position with
  | nil => exact .nil
  | cons obj rest ih =>
    rw [flatMap_cons, finish_append] at small
    have first := (le_finish (finish position obj.chunks) (rest.flatMap ObjectBase.chunks)).trans_lt small
    obtain ⟨_, _, inside⟩ := entry_small first
    exact .cons (fun other later => inside.trans (mem_entriesFrom small later).1) (ih small)

end

/-!
## Appending
-/

section

variable {malloc : UInt64 → Nat → UInt8}

structure Appended (malloc : UInt64 → Nat → UInt8) (file next : FileA3D) (objs : List ObjectBase) : Prop where
  wrote : Wrote (file.stream malloc) (next.stream malloc) (objs.flatMap ObjectBase.chunks)
  ample : Ample (next.stream malloc)
  index : next.mWriteIndex =
    file.mWriteIndex ++ entriesFrom (file.stream malloc).mPos.toNat objs
  versions : next.mMajorVersion = file.mMajorVersion ∧ next.mMinorVersion = file.mMinorVersion
  use64 : next.mUse64BitOffsets = file.mUse64BitOffsets

structure Ready (malloc : UInt64 → Nat → UInt8) (file : FileA3D) : Prop where
  ample : Ample (file.stream malloc)
  use64 : (file.stream malloc).mUse64 = false

theorem Appended.ready {next : FileA3D} (ready : Ready malloc file)
    (appended : Appended malloc file next objs) : Ready malloc next :=
  ⟨appended.ample, appended.wrote.use64.trans ready.use64⟩

variable {file next third : FileA3D} {obj : ObjectBase} {objs others : List ObjectBase}

variable (ready : Ready malloc file)

include ready

theorem serialize_small (small : finish (file.stream malloc).mPos.toNat obj.chunks < 2 ^ 32) :
    finish (file.stream malloc).mPos.toNat (obj.serialize.flatMap (Value.chunks (file.stream malloc).mUse64)) < 2 ^ 32 := by
  rw [ready.use64]
  rw [finish_chunks] at small
  exact (le_alignUp (by decide) _).trans_lt small

theorem appendToFile_isSome_iff (small : finish (file.stream malloc).mPos.toNat obj.chunks < 2 ^ 32) :
    (file.appendToFile malloc (some obj)).isSome ↔ (file.stream malloc).HasRoomAll malloc obj.serialize := by
  have inside := (serialize_small ready small).trans (by decide : 2 ^ 32 < 2 ^ 62)
  rw [← addAll_isSome_iff ready.ample inside, FileA3D.appendToFile]
  cases (file.stream malloc).addAll malloc obj.serialize <;> rfl

omit ready in
theorem appendToFile_cases (appended : file.appendToFile malloc (some obj) = some next) :
    ∃ after, (file.stream malloc).addAll malloc obj.serialize = some after ∧ next = { file with
        mWriteStream := some (after.align malloc 4)
        mWriteIndex := file.mWriteIndex ++ [{
          mObjectName := obj.getName, mType := obj.getClassId, mOffset := (file.stream malloc).mPos,
          mLength := after.mPos - (file.stream malloc).mPos }] } := by
  obtain ⟨after, added, result⟩ := bind_eq_some_iff.mp appended
  exact ⟨after, added, (Option.some.inj result).symm⟩

theorem serialize_wrote {after : OStream} (small : finish (file.stream malloc).mPos.toNat obj.chunks < 2 ^ 32)
    (added : (file.stream malloc).addAll malloc obj.serialize = some after) :
    Wrote (file.stream malloc) after (obj.serialize.flatMap (Value.chunks false)) ∧ Ample after := by
  have inside := serialize_small ready small
  have lt := @positionsBelow_of_finish malloc _ (by decide) _ ready.ample _ inside
  have wrote := addAll_wrote (by decide) ready.ample.inside added lt
  rw [ready.use64] at wrote
  exact ⟨wrote, addAll_ample ready.ample (inside.trans (by decide)) added⟩

theorem appendToFile_appended (small : finish (file.stream malloc).mPos.toNat obj.chunks < 2 ^ 32)
    (appended : file.appendToFile malloc (some obj) = some next) : Appended malloc file next [obj] := by
  obtain ⟨after, added, rfl⟩ := appendToFile_cases appended
  obtain ⟨wrote, ample⟩ := serialize_wrote ready small added
  have position := wrote.position
  have aligned : alignUp 4 after.mPos.toNat < 2 ^ 32 := by
    rw [position, ← finish_chunks]
    exact small
  obtain ⟨moved, enough⟩ := align_four_wrote ample aligned
  refine ⟨?_, enough, ?_, ⟨rfl, rfl⟩, rfl⟩
  · rw [flatMap_singleton]
    exact wrote.trans moved
  · have further := le_finish (file.stream malloc).mPos.toNat (obj.serialize.flatMap (Value.chunks false))
    have len : after.mPos - (file.stream malloc).mPos = .ofNat (after.mPos.toNat - (file.stream malloc).mPos.toNat) := by
      rw [← UInt64.toNat_inj, UInt64.toNat_sub_of_le _ _ (UInt64.le_iff_toNat_le.mpr (by omega)),
        UInt64.toNat_ofNat', Nat.mod_eq_of_lt]
      have word := after.mPos.toNat_lt
      omega
    simp [entriesFrom, ObjectBase.entry, len, position]

omit ready in
theorem Appended.trans (first : Appended malloc file next objs)
    (second : Appended malloc next third others) : Appended malloc file third (objs ++ others) where
  wrote := by
    rw [flatMap_append]
    exact first.wrote.trans second.wrote
  ample := second.ample
  index := by
    rw [second.index, first.index, append_assoc, entriesFrom_append, first.wrote.position]
  versions := ⟨second.versions.1.trans first.versions.1, second.versions.2.trans first.versions.2⟩
  use64 := second.use64.trans first.use64

theorem appended_nil : Appended malloc file file [] where
  wrote := ⟨rfl, ready.ample.inside, rfl, trivial, fun _ _ => rfl⟩
  ample := ready.ample
  index := (append_nil _).symm
  versions := ⟨rfl, rfl⟩
  use64 := rfl

omit ready in
theorem appendAll_cons (file : FileA3D) (obj : ObjectBase) (rest : List ObjectBase) : file.appendAll malloc (obj :: rest) =
      (file.appendToFile malloc (some obj)).bind fun next => next.appendAll malloc rest := rfl

omit ready in
theorem appendAll_append (file : FileA3D) (front back : List ObjectBase) : file.appendAll malloc (front ++ back) =
      (file.appendAll malloc front).bind fun next => next.appendAll malloc back :=
  foldlM_append ..

theorem appendAll_appended (small : finish (file.stream malloc).mPos.toNat (objs.flatMap ObjectBase.chunks) < 2 ^ 32)
    (appended : file.appendAll malloc objs = some next) : Appended malloc file next objs := by
  induction objs generalizing file with
  | nil =>
    cases appended
    exact appended_nil ready
  | cons obj rest ih =>
    obtain ⟨mid, first, others⟩ := bind_eq_some_iff.mp appended
    rw [flatMap_cons, finish_append] at small
    have one := appendToFile_appended ready ((le_finish _ _).trans_lt small) first
    have position := one.wrote.position
    rw [flatMap_singleton] at position
    rw [← position] at small
    exact one.trans (ih (one.ready ready) small others)

def FileA3D.HasRoomFor (malloc : UInt64 → Nat → UInt8) : FileA3D → List ObjectBase → Prop
  | _, [] => True
  | file, obj :: rest => (file.stream malloc).HasRoomAll malloc obj.serialize ∧
      ∀ next ∈ file.appendToFile malloc (some obj), next.HasRoomFor malloc rest

instance FileA3D.decidableHasRoomFor : ∀ (objs : List ObjectBase) (file : FileA3D),
    Decidable (file.HasRoomFor malloc objs)
  | [], _ => inferInstanceAs (Decidable True)
  | obj :: rest, file =>
    have (next : FileA3D) : Decidable (next.HasRoomFor malloc rest) := decidableHasRoomFor rest next
    inferInstanceAs (Decidable ((file.stream malloc).HasRoomAll malloc obj.serialize ∧
      ∀ next ∈ file.appendToFile malloc (some obj), next.HasRoomFor malloc rest))

theorem appendAll_isSome_iff (small : finish (file.stream malloc).mPos.toNat (objs.flatMap ObjectBase.chunks) < 2 ^ 32) :
    (file.appendAll malloc objs).isSome ↔ file.HasRoomFor malloc objs := by
  induction objs generalizing file with
  | nil => exact ⟨fun _ => trivial, fun _ => rfl⟩
  | cons obj rest ih =>
    rw [flatMap_cons, finish_append] at small
    have first := (le_finish _ _).trans_lt small
    rw [appendAll_cons, FileA3D.HasRoomFor, ← appendToFile_isSome_iff ready first]
    cases appended : file.appendToFile malloc (some obj) with
    | none => exact ⟨nofun, fun both => nomatch both.1⟩
    | some next =>
      have one := appendToFile_appended ready first appended
      have position := one.wrote.position
      rw [flatMap_singleton] at position
      rw [← position] at small
      have later := ih (one.ready ready) small
      simp [later]

/-!
## The bytes of an object
-/

def FileA3D.serialized (malloc : UInt64 → Nat → UInt8) (file : FileA3D) (obj : ObjectBase) :
    Option (List UInt8) :=
  ((file.stream malloc).addAll malloc obj.serialize).map fun after =>
    after.bytes.drop (file.stream malloc).mPos.toNat

omit ready in
theorem bytes_slice (s : OStream) {length : Nat} (inside : start + length ≤ s.mPos.toNat) :
    (s.bytes.drop start).take length = (List.range' start length).map s.mData := by
  have rest : s.mPos.toNat - start = length + (s.mPos.toNat - start - length) := by omega
  rw [OStream.bytes, ← map_drop, ← map_take, range_eq_range', drop_range', rest,
    ← range'_append, take_left' length_range', zero_add, mul_one]

omit ready in
theorem drop_bytes_of_kept {s final : OStream} (begins : start ≤ s.mPos.toNat) (ends : s.mPos.toNat ≤ final.mPos.toNat)
    (kept : ∀ index, index < s.mPos.toNat → final.mData index = s.mData index) :
    s.bytes.drop start = (final.bytes.drop start).take (s.mPos.toNat - start) := by
  have whole : s.bytes.drop start = (s.bytes.drop start).take (s.mPos.toNat - start) := by
    rw [take_of_length_le]
    simp [length_bytes]
  rw [whole, bytes_slice s (by omega), bytes_slice final (by omega)]
  apply map_congr_left
  intro index mem
  rw [mem_range'_1] at mem
  exact (kept index (by omega)).symm

theorem appendToFile_kept (small : finish (file.stream malloc).mPos.toNat obj.chunks < 2 ^ 32)
    (appended : file.appendToFile malloc (some obj) = some next) :
    ∃ after, (file.stream malloc).addAll malloc obj.serialize = some after ∧
      after.mPos.toNat = (obj.entry (file.stream malloc).mPos.toNat).stop ∧
      after.mPos.toNat ≤ (next.stream malloc).mPos.toNat ∧
      ∀ index, index < after.mPos.toNat → (next.stream malloc).mData index = after.mData index := by
  obtain ⟨after, added, rfl⟩ := appendToFile_cases appended
  obtain ⟨wrote, ample⟩ := serialize_wrote ready small added
  obtain ⟨_, stop, _⟩ := entry_small small
  have aligned : alignUp 4 after.mPos.toNat < 2 ^ 32 := by
    rw [wrote.position, ← finish_chunks]
    exact small
  obtain ⟨moved, -⟩ := align_four_wrote ample aligned
  refine ⟨after, added, wrote.position.trans stop.symm, ?_, moved.kept⟩
  exact (le_finish _ _).trans_eq moved.position.symm

theorem serialized_stays {front back : List ObjectBase}
    (small : finish (file.stream malloc).mPos.toNat ((front ++ obj :: back).flatMap ObjectBase.chunks) < 2 ^ 32)
    (appended : file.appendAll malloc (front ++ obj :: back) = some next) {entry : A3DIndexEntry}
    (written : entry = obj.entry (finish (file.stream malloc).mPos.toNat (front.flatMap ObjectBase.chunks))) :
    ∃ before, file.appendAll malloc front = some before ∧ before.serialized malloc obj =
      some (((next.stream malloc).bytes.drop entry.mOffset.toNat).take entry.mLength.toNat) := by
  rw [appendAll_append, bind_eq_some_iff] at appended
  obtain ⟨before, earlier, later⟩ := appended
  rw [appendAll_cons, bind_eq_some_iff] at later
  obtain ⟨mid, one, others⟩ := later
  rw [flatMap_append, finish_append, flatMap_cons, finish_append] at small
  have upToObject := (le_finish _ _).trans_lt small
  have first := appendAll_appended ready ((le_finish _ _).trans_lt upToObject) earlier
  have beforeReady := first.ready ready
  rw [← first.wrote.position] at small upToObject written
  have second := appendToFile_appended beforeReady upToObject one
  have position := second.wrote.position
  rw [flatMap_singleton] at position
  rw [← position] at small
  have third := appendAll_appended (second.ready beforeReady) small others
  obtain ⟨after, added, stop, past, kept⟩ := appendToFile_kept beforeReady upToObject one
  obtain ⟨offset, _, _⟩ := entry_small upToObject
  have len : after.mPos.toNat - (before.stream malloc).mPos.toNat = entry.mLength.toNat := by
    simp [stop, A3DIndexEntry.stop, offset, written]
  have ends := (le_finish _ _).trans_eq third.wrote.position.symm
  have begins : (before.stream malloc).mPos.toNat ≤ after.mPos.toNat := by
    rw [stop, A3DIndexEntry.stop, offset]
    exact Nat.le_add_right _ _
  refine ⟨before, earlier, ?_⟩
  simp [FileA3D.serialized, added, drop_bytes_of_kept begins (past.trans ends) fun i lt =>
    (third.wrote.kept i (lt.trans_le past)).trans (kept i lt), len, written, offset]

end

/-!
## The header
-/

section

theorem chunks_calls (use64 : Bool) (entry : A3DIndexEntry) :
    (entry.calls use64).flatMap (Value.chunks false) = (Value.string entry.mObjectName.bytes).chunks false ++
      ((Value.u32 entry.mType).chunks false ++ ((Value.u32 entry.mOffset.toUInt32).chunks false ++
        (Value.u32 entry.mLength.toUInt32).chunks false)) := by
  cases use64 <;> rfl

structure A3DIndexEntry.Fits (entry : A3DIndexEntry) : Prop where
  name : entry.mObjectName.strlen < 2 ^ 32
  offset : entry.mOffset.toNat < 2 ^ 32
  length : entry.mLength.toNat < 2 ^ 32

theorem toUInt64_toUInt32 {v : UInt64} (small : v.toNat < 2 ^ 32) : v.toUInt32.toUInt64 = v := by
  rw [← UInt64.toNat_inj, UInt32.toNat_toUInt64, UInt64.toNat_toUInt32, Nat.mod_eq_of_lt small]

theorem reads_parseEntry {entry : A3DIndexEntry} (fits : entry.Fits) (use64 : Bool) :
    Reads false (parseEntry false) ((entry.calls use64).flatMap (Value.chunks false)) entry := by
  rw [chunks_calls, parseEntry]
  refine (reads_loadString fits.name).bind ((reads_loadU32 entry.mType).bind ?_)
  refine (reads_loadU32 _).bind ?_
  refine (reads_loadU32 _).bind ?_
  rw [toUInt64_toUInt32 fits.offset, toUInt64_toUInt32 fits.length, CString.ofBuffer_bytes]
  exact reads_pure entry

variable {entries : List A3DIndexEntry} {parsed : FileA3D} {count : Nat} {bytes : List UInt8}

theorem reads_parseEntries (fits : ∀ entry ∈ entries, entry.Fits) (use64 : Bool) :
    Reads false (parseEntries false entries.length)
      ((entries.flatMap (A3DIndexEntry.calls use64)).flatMap (Value.chunks false)) entries := by
  induction entries with
  | nil => exact reads_pure []
  | cons entry rest ih =>
    obtain ⟨first, others⟩ := forall_mem_cons.mp fits
    rw [flatMap_cons, flatMap_append, length_cons, parseEntries]
    refine (reads_parseEntry first use64).bind ?_
    rw [← append_nil (List.flatMap (Value.chunks false) _)]
    exact (ih others).bind (reads_pure (entry :: rest))

theorem reads_parseHeader (reader : FileA3D) (count : file.mWriteIndex.length < 2 ^ 32)
    (fits : ∀ entry ∈ file.mWriteIndex, entry.Fits) :
    Reads false reader.parseHeader (file.header.flatMap (Value.chunks false)) { reader with
        mMajorVersion := file.mMajorVersion
        mMinorVersion := file.mMinorVersion
        mUse64BitOffsets := false
        mIndex := reader.mIndex ++ file.mWriteIndex } := by
  have size : (UInt32.ofNat file.mWriteIndex.length).toNat = file.mWriteIndex.length := by
    rw [UInt32.toNat_ofNat', Nat.mod_eq_of_lt count]
  have chunks : file.header.flatMap (Value.chunks false) =
      (Value.u32 file.mMajorVersion).chunks false ++ ((Value.u32 file.mMinorVersion).chunks false ++
        ((Value.u32 0).chunks false ++ ((Value.u32 (.ofNat file.mWriteIndex.length)).chunks false ++
          (file.mWriteIndex.flatMap (A3DIndexEntry.calls file.mUse64BitOffsets)).flatMap (Value.chunks false)))) := by
    rw [FileA3D.header, size, take_length]
    rfl
  have entries := reads_parseEntries fits file.mUse64BitOffsets
  rw [← size] at entries
  rw [chunks, FileA3D.parseHeader]
  refine (reads_loadU32 _).bind ((reads_loadU32 _).bind ((reads_loadU32 0).bind ((reads_loadU32 _).bind ?_)))
  rw [← append_nil (List.flatMap (Value.chunks false) _)]
  exact entries.bind (reads_pure _)

/-!
## Loading
-/

theorem load_parts {header body : List UInt8} {rest : IStream}
    (headerSize : header.length < 2 ^ 64) (bodySize : body.length < 2 ^ 64)
    (parse : reader.parseHeader.run { mData := header ++ encode 8 body.length ++ body, mUse64 := false } = some (parsed, rest)) :
    reader.load (A3D_MAGIC_KEY ++ encode 8 header.length ++ header ++ encode 8 body.length ++ body) = some (true, { parsed with
        mDataSize := .ofNat body.length
        mReadStream := some { mData := body, mUse64 := parsed.mUse64BitOffsets } }) := by
  have size : (UInt64.ofNat body.length).toNat = body.length := by
    rw [UInt64.toNat_ofNat', Nat.mod_eq_of_lt bodySize]
  have number {n : Nat} (small : n < 2 ^ 64) (others : List UInt8) :
      ¬(encode 8 n ++ others).length < 8 ∧ decode ((encode 8 n ++ others).take 8) = n ∧
        (encode 8 n ++ others).drop 8 = others := by
    refine ⟨?_, ?_, drop_left' (length_encode 8 n)⟩
    · rw [length_append, length_encode]
      omega
    · rw [take_left' (length_encode 8 n)]
      exact decode_encode small
  obtain ⟨headerThere, headerRead, headerRest⟩ := number headerSize (header ++ (encode 8 body.length ++ body))
  obtain ⟨bodyThere, bodyRead, bodyRest⟩ := number bodySize body
  have magic : (A3D_MAGIC_KEY ++ (encode 8 header.length ++ (header ++ (encode 8 body.length ++ body)))).take 12 =
      A3D_MAGIC_KEY := take_left' rfl
  have behind : (A3D_MAGIC_KEY ++ (encode 8 header.length ++ (header ++ (encode 8 body.length ++ body)))).drop 12 =
      encode 8 header.length ++ (header ++ (encode 8 body.length ++ body)) := drop_left' rfl
  have long : ¬(A3D_MAGIC_KEY ++ (encode 8 header.length ++ (header ++ (encode 8 body.length ++ body)))).length < 12 := by
    rw [length_append]
    exact not_lt.mpr (Nat.le_add_right 12 _)
  have room : ¬(header ++ (encode 8 body.length ++ body)).length < header.length := by
    rw [length_append]
    exact not_lt.mpr (Nat.le_add_right _ _)
  simp only [append_assoc] at parse ⊢
  rw [FileA3D.load, if_neg (not_or.mpr ⟨long, not_not.mpr magic⟩)]
  simp only [behind, if_neg headerThere, headerRead, headerRest, if_neg room, parse, drop_left, bind_eq_bind,
    bind_some, if_neg bodyThere, bodyRead, bodyRest, size, lt_irrefl, if_false]
  rfl

/-!
What is read has lengths of 32 bits, whatever the bytes are.
-/

theorem length_readAt {look : Nat → Option UInt8} (read : readAt look start count = some bytes) : bytes.length = count := by
  induction count generalizing start bytes with
  | zero =>
    cases read
    rfl
  | succ count ih =>
    obtain ⟨byte, _, read⟩ := bind_eq_some_iff.mp read
    obtain ⟨rest, others, read⟩ := bind_eq_some_iff.mp read
    cases read
    exact congrArg (· + 1) (ih others)

theorem length_loadString (loaded : IStream.loadString.run s = some (bytes, after)) : bytes.length < 2 ^ 32 := by
  obtain ⟨⟨len, mid⟩, _, text⟩ := bind_eq_some_iff.mp loaded
  obtain ⟨⟨read, state⟩, lifted, result⟩ := bind_eq_some_iff.mp text
  obtain ⟨found, there, eq⟩ := bind_eq_some_iff.mp lifted
  cases eq
  cases result
  rw [length_readAt there]
  exact len.toNat_lt

theorem parseEntry_name {entry : A3DIndexEntry}
    (parsed : (parseEntry use64).run s = some (entry, after)) : entry.mObjectName.strlen < 2 ^ 32 := by
  obtain ⟨⟨name, mid⟩, first, parsed⟩ := bind_eq_some_iff.mp parsed
  have short : (CString.ofBuffer name).strlen < 2 ^ 32 := ( takeWhile_prefix _).length_le.trans_lt (length_loadString first)
  obtain ⟨⟨type, mid⟩, second, parsed⟩ := bind_eq_some_iff.mp parsed
  dsimp only at parsed
  split at parsed
  all_goals
    obtain ⟨⟨offset, mid⟩, _, parsed⟩ := bind_eq_some_iff.mp parsed
    obtain ⟨⟨len, mid⟩, _, parsed⟩ := bind_eq_some_iff.mp parsed
    cases parsed
    exact short

theorem parseEntries_bounds (parsed : (parseEntries use64 count).run s = some (entries, after)) :
    entries.length = count ∧ ∀ entry ∈ entries, entry.mObjectName.strlen < 2 ^ 32 := by
  induction count generalizing s after entries with
  | zero =>
    cases parsed
    exact ⟨rfl, nofun⟩
  | succ count ih =>
    rw [parseEntries, StateT.run_bind] at parsed
    obtain ⟨⟨entry, mid⟩, first, parsed⟩ := bind_eq_some_iff.mp parsed
    obtain ⟨⟨rest, mid⟩, others, parsed⟩ := bind_eq_some_iff.mp parsed
    cases parsed
    obtain ⟨len, names⟩ := ih others
    exact ⟨congrArg (· + 1) len, forall_mem_cons.mpr ⟨parseEntry_name first, names⟩⟩

theorem parseHeader_bounds (empty : reader.mIndex = []) (run : reader.parseHeader.run s = some (parsed, after)) :
    parsed.mIndex.length < 2 ^ 32 ∧ ∀ entry ∈ parsed.mIndex, entry.mObjectName.strlen < 2 ^ 32 := by
  rw [FileA3D.parseHeader, StateT.run_bind] at run
  obtain ⟨⟨major, mid⟩, _, run⟩ := bind_eq_some_iff.mp run
  rw [StateT.run_bind] at run
  obtain ⟨⟨minor, mid⟩, _, run⟩ := bind_eq_some_iff.mp run
  rw [StateT.run_bind] at run
  obtain ⟨⟨flags, mid⟩, _, run⟩ := bind_eq_some_iff.mp run
  rw [StateT.run_bind] at run
  obtain ⟨⟨numIndexEntries, mid⟩, _, run⟩ := bind_eq_some_iff.mp run
  obtain ⟨⟨entries, mid⟩, list, run⟩ := bind_eq_some_iff.mp run
  cases run
  obtain ⟨len, names⟩ := parseEntries_bounds list
  rw [empty, nil_append, len]
  exact ⟨numIndexEntries.toNat_lt, names⟩

theorem load_bounds {data : List UInt8} (empty : reader.mIndex = []) (read : reader.load data = some (true, loaded)) :
    loaded.mIndex.length < 2 ^ 32 ∧ ∀ entry ∈ loaded.mIndex, entry.mObjectName.strlen < 2 ^ 32 := by
  rw [FileA3D.load] at read
  dsimp only at read
  split at read
  · cases read
  split at read
  · cases read
  split at read
  · cases read
  obtain ⟨⟨parsed, rest⟩, run, read⟩ := bind_eq_some_iff.mp read
  have bounds := parseHeader_bounds empty run
  split at read
  · cases read
  split at read
  · cases read
  cases read
  exact bounds

end

/-!
## Room for the header
-/

/-- What the entries of the index take in memory: 40 bytes and a copy of the name each. -/
def indexSize (objs : List ObjectBase) : Nat := (objs.map fun obj => obj.getName.strlen + 41).sum

theorem calls_weight (use64 : Bool) (entries : List A3DIndexEntry) :
    ((((entries.flatMap (A3DIndexEntry.calls use64)).flatMap (Value.chunks false)).map fun chunk =>
      chunk.bytes.length + (chunk.unit - 1)).sum) =
      (entries.map fun entry => entry.mObjectName.strlen + 28).sum := by
  induction entries with
  | nil => rfl
  | cons entry rest ih =>
    have one : ((((entry.calls use64).flatMap (Value.chunks false)).map fun chunk =>
        chunk.bytes.length + (chunk.unit - 1)).sum) = entry.mObjectName.strlen + 28 := by
      rw [chunks_calls]
      simp [Value.chunks, number, raw, CString.strlen]
      omega
    simp [one, ih]

theorem header_small (index : file.mWriteIndex = entriesFrom position objs) (memory : indexSize objs < 2 ^ 61) :
    finish 0 (file.header.flatMap (Value.chunks false)) < 2 ^ 61 + 28 := by
  have bound := finish_le 0 (file.header.flatMap (Value.chunks false))
  have all : (file.mWriteIndex.map fun entry => entry.mObjectName.strlen + 28).sum ≤ indexSize objs := by
    have names : (file.mWriteIndex.map fun entry => entry.mObjectName.strlen + 28) =
        objs.map fun obj => obj.getName.strlen + 28 := by
      have mapped := congrArg (List.map fun name => name.strlen + 28) (map_entriesFrom objs position).1
      rw [List.map_map, List.map_map] at mapped
      rw [index]
      exact mapped
    rw [names]
    exact sum_le_sum fun _ _ => Nat.add_le_add_left (by decide) _
  have some : ((file.mWriteIndex.take (UInt32.ofNat file.mWriteIndex.length).toNat).map fun entry =>
      entry.mObjectName.strlen + 28).sum ≤ (file.mWriteIndex.map fun entry => entry.mObjectName.strlen + 28).sum :=
    ((take_sublist _ _).map _).sum_le_sum fun _ _ => Nat.zero_le _
  rw [FileA3D.header, flatMap_append, map_append, sum_append, calls_weight] at bound
  have numbers : ((([Value.u32 file.mMajorVersion, .u32 file.mMinorVersion, .u32 0,
      .u32 (.ofNat file.mWriteIndex.length)].flatMap (Value.chunks false)).map fun chunk =>
        chunk.bytes.length + (chunk.unit - 1)).sum) = 28 := rfl
  rw [FileA3D.header, flatMap_append]
  omega

/-!
## Round trips
-/

def FileA3D.region (file : FileA3D) (entry : A3DIndexEntry) : Option (List UInt8) :=
  file.mReadStream.map fun stream => (stream.mData.drop entry.mOffset.toNat).take entry.mLength.toNat

/-- A file that was loaded, compared with the objects appended to the file that was written. -/
structure WrittenBack (malloc : UInt64 → Nat → UInt8) (start file : FileA3D) (objs : List ObjectBase)
    (loaded : FileA3D) : Prop where
  names : loaded.mIndex.map (·.mObjectName) = objs.map (·.getName)
  classes : loaded.mIndex.map (·.mType) = objs.map (·.getClassId)
  index : loaded.mIndex = file.mWriteIndex
  aligned : ∀ entry ∈ loaded.mIndex, 4 ∣ entry.mOffset.toNat
  inside : ∀ entry ∈ loaded.mIndex, entry.stop ≤ loaded.mDataSize.toNat
  disjoint : loaded.mIndex.Pairwise fun entry other => entry.stop ≤ other.mOffset.toNat
  contents : ∀ front obj back, objs = front ++ obj :: back → ∃ before entry,
    start.appendAll malloc front = some before ∧ loaded.mIndex[front.length]? = some entry ∧
      loaded.region entry = before.serialized malloc obj ∧ (before.serialized malloc obj).isSome

/-- Appending the objects and writing the file stays inside the buffers, and what is written, if
there is anything, is read back. The flags are what the constructors left in `mUse64BitOffsets`. -/
def RoundTrips (malloc : UInt64 → Nat → UInt8) (flag readerFlag : Bool) (objs : List ObjectBase) : Prop :=
  ∃ file written, FileA3D.appendAll malloc { mUse64BitOffsets := flag } objs = some file ∧
    file.writeFile malloc = some written ∧
    ∀ data ∈ written, ∃ loaded, FileA3D.load { mUse64BitOffsets := readerFlag } data = some (true, loaded) ∧
      WrittenBack malloc { mUse64BitOffsets := flag } file objs loaded

/-- Strings fit their streams when the buffers are doubled once, and the header has room for the
number of entries and the lengths of names. -/
structure Fits (malloc : UInt64 → Nat → UInt8) (flag : Bool) (objs : List ObjectBase) : Prop where
  data : FileA3D.HasRoomFor malloc { mUse64BitOffsets := flag } objs
  count : dataSize objs ≠ 0 → objs.length < 2 ^ 32
  names : dataSize objs ≠ 0 → ∀ obj ∈ objs, obj.getName.strlen < 2 ^ 32
  header : dataSize objs ≠ 0 → (OStream.create malloc (5 * 1024) false).HasRoomAll malloc
    (FileA3D.header { mUse64BitOffsets := flag, mWriteIndex := entriesFrom 0 objs })

section

variable {headerStream : OStream} {malloc : UInt64 → Nat → UInt8} {flag readerFlag : Bool} {objs : List ObjectBase}
  {file : FileA3D}

theorem ready_start (malloc : UInt64 → Nat → UInt8) (flag : Bool) : Ready malloc { mUse64BitOffsets := flag } :=
  ⟨⟨(by decide : 16 ≤ (256 * 1024 : UInt64).toNat), Nat.zero_le _⟩, rfl⟩

theorem appended_start (small : dataSize objs < 2 ^ 32)
    (appended : FileA3D.appendAll malloc { mUse64BitOffsets := flag } objs = some file) :
    Appended malloc { mUse64BitOffsets := flag } file objs :=
  appendAll_appended (ready_start malloc flag) small appended

theorem writeFile_eq (file : FileA3D) : file.writeFile malloc = if (file.stream malloc).mPos = 0 then some none
      else ((OStream.create malloc (5 * 1024) false).addAll malloc file.header).map fun headerStream =>
        some (A3D_MAGIC_KEY ++ encode 8 headerStream.mPos.toNat ++ headerStream.bytes ++
          encode 8 (file.stream malloc).mPos.toNat ++ (file.stream malloc).bytes) := by
  rw [FileA3D.writeFile, FileA3D.stream]
  cases file.mWriteStream with
  | none => rfl
  | some stream =>
    dsimp only [getD_some]
    split
    · rfl
    · cases (OStream.create malloc (5 * 1024) false).addAll malloc file.header <;> rfl

theorem header_eq (appended : Appended malloc { mUse64BitOffsets := flag } file objs) :
    file.header = FileA3D.header { mUse64BitOffsets := flag, mWriteIndex := entriesFrom 0 objs } := by
  have index := appended.index
  rw [FileA3D.header, index, appended.versions.1, appended.versions.2, appended.use64]
  rfl

theorem entriesFrom_fits (small : dataSize objs < 2 ^ 32) (names : ∀ obj ∈ objs, obj.getName.strlen < 2 ^ 32) :
    ∀ entry ∈ entriesFrom 0 objs, entry.Fits := by
  intro entry listed
  obtain ⟨_, inside, _⟩ := mem_entriesFrom small listed
  have stop := inside.trans_lt small
  rw [A3DIndexEntry.stop] at stop
  refine ⟨?_, by omega, by omega⟩
  have named : entry.mObjectName ∈ objs.map (·.getName) := by
    rw [← (map_entriesFrom objs 0).1]
    exact List.mem_map_of_mem listed
  obtain ⟨obj, mem, eq⟩ := List.mem_map.mp named
  exact eq ▸ names obj mem

theorem header_wrote (memory : indexSize objs < 2 ^ 61) (index : file.mWriteIndex = entriesFrom 0 objs)
    (added : (OStream.create malloc (5 * 1024) false).addAll malloc file.header = some headerStream) :
    Wrote (OStream.create malloc (5 * 1024) false) headerStream (file.header.flatMap (Value.chunks false)) := by
  have ample : Ample (OStream.create malloc (5 * 1024) false) := ⟨(by decide : 16 ≤ (5 * 1024 : UInt64).toNat), Nat.zero_le _⟩
  have small : finish 0 (file.header.flatMap (Value.chunks false)) < 2 ^ 62 := (header_small index memory).trans (by decide)
  exact addAll_wrote le_rfl ample.inside added (positionsBelow_of_finish le_rfl ample small)

theorem load_written (readerFlag : Bool) (small : dataSize objs < 2 ^ 32)
    (memory : indexSize objs < 2 ^ 61) (count : objs.length < 2 ^ 32) (names : ∀ obj ∈ objs, obj.getName.strlen < 2 ^ 32)
    (appended : Appended malloc { mUse64BitOffsets := flag } file objs)
    (added : (OStream.create malloc (5 * 1024) false).addAll malloc file.header = some headerStream) :
    ∃ loaded, FileA3D.load { mUse64BitOffsets := readerFlag }
        (A3D_MAGIC_KEY ++ encode 8 headerStream.mPos.toNat ++ headerStream.bytes ++
          encode 8 (file.stream malloc).mPos.toNat ++ (file.stream malloc).bytes) = some (true, loaded) ∧
      loaded.mIndex = entriesFrom 0 objs ∧ loaded.mDataSize = (file.stream malloc).mPos ∧
      ∃ use64, loaded.mReadStream = some { mData := (file.stream malloc).bytes, mUse64 := use64 } := by
  have index : file.mWriteIndex = entriesFrom 0 objs := appended.index
  have wrote := header_wrote memory index added
  have headerEnd : headerStream.mPos.toNat = finish 0 (file.header.flatMap (Value.chunks false)) := wrote.position
  have headerSmall := header_small index memory
  have dataEnd : (file.stream malloc).mPos.toNat = dataSize objs := appended.wrote.position
  let rest := encode 8 (file.stream malloc).bytes.length ++ (file.stream malloc).bytes
  let headerData : IStream := { mData := headerStream.bytes ++ rest, mUse64 := false }
  have size : headerData.mData.length = headerStream.mPos.toNat + (8 + (file.stream malloc).mPos.toNat) := by
    rw [length_append, length_append, length_encode, length_bytes, length_bytes]
  have placed : Placed headerData.look 0 (file.header.flatMap (Value.chunks false)) := by
    apply (wrote.placed_bytes rfl false).congr
    intro position _ lt
    rw [← headerEnd, ← length_bytes] at lt
    exact (List.getElem?_append_left lt).symm
  have parse := reads_parseHeader { mUse64BitOffsets := readerFlag }
    (by rw [index, length_entriesFrom]; exact count) (index ▸ entriesFrom_fits small names)
    headerData rfl (by omega) placed (by rw [size, headerEnd]; exact Nat.le_add_right _ _)
  dsimp only [headerData, rest] at parse
  rw [← append_assoc] at parse
  have loaded := load_parts (by rw [length_bytes]; omega) (by rw [length_bytes]; omega) parse
  rw [length_bytes, length_bytes] at loaded
  refine ⟨_, loaded, index, UInt64.ofNat_toNat, ⟨_, rfl⟩⟩

theorem getElem?_entriesFrom (front : List ObjectBase) (obj : ObjectBase) (back : List ObjectBase) :
    (entriesFrom 0 (front ++ obj :: back))[front.length]? = some (obj.entry (finish 0 (front.flatMap ObjectBase.chunks))) := by
  rw [entriesFrom_append, List.getElem?_append_right (by rw [length_entriesFrom]), length_entriesFrom, Nat.sub_self]
  rfl

theorem writtenBack_of_load (small : dataSize objs < 2 ^ 32)
    (appended : FileA3D.appendAll malloc { mUse64BitOffsets := flag } objs = some file)
    (index : loaded.mIndex = entriesFrom 0 objs) (size : loaded.mDataSize = (file.stream malloc).mPos)
    (data : loaded.mReadStream = some { mData := (file.stream malloc).bytes, mUse64 := use64 }) :
    WrittenBack malloc { mUse64BitOffsets := flag } file objs loaded := by
  have result := appended_start small appended
  have dataEnd := result.wrote.position
  constructor
  case names => rw [index, (map_entriesFrom objs 0).1]
  case classes => rw [index, (map_entriesFrom objs 0).2]
  case index => exact index.trans result.index.symm
  case aligned =>
    rw [index]
    exact fun entry mem => (mem_entriesFrom small mem).2.2 (dvd_zero 4)
  case inside =>
    rw [index, size, dataEnd]
    exact fun entry mem => (mem_entriesFrom small mem).2.1
  case disjoint =>
    rw [index]
    exact pairwise_entriesFrom small
  case contents =>
    rintro front obj back rfl
    obtain ⟨before, earlier, bytes⟩ := serialized_stays (ready_start malloc flag) small appended rfl
    refine ⟨before, _, earlier, (congrArg (·[front.length]?) index).trans (getElem?_entriesFrom front obj back), ?_, ?_⟩
    · rw [FileA3D.region, data, bytes]
      rfl
    · rw [bytes]
      rfl

theorem header_isSome_iff (memory : indexSize objs < 2 ^ 61) (appended : Appended malloc { mUse64BitOffsets := flag } file objs) :
    ((OStream.create malloc (5 * 1024) false).addAll malloc file.header).isSome = true ↔
      (OStream.create malloc (5 * 1024) false).HasRoomAll malloc
        (FileA3D.header { mUse64BitOffsets := flag, mWriteIndex := entriesFrom 0 objs }) := by
  have ample : Ample (OStream.create malloc (5 * 1024) false) := ⟨(by decide : 16 ≤ (5 * 1024 : UInt64).toNat), Nat.zero_le _⟩
  rw [← header_eq appended]
  exact addAll_isSome_iff ample ((header_small appended.index memory).trans (by decide))

theorem roundTrips_of_fits (readerFlag : Bool) (small : dataSize objs < 2 ^ 32) (memory : indexSize objs < 2 ^ 61)
    (fits : Fits malloc flag objs) : RoundTrips malloc flag readerFlag objs := by
  obtain ⟨file, appended⟩ := isSome_iff_exists.mp ((appendAll_isSome_iff (ready_start malloc flag) small).mpr fits.data)
  have result := appended_start small appended
  have dataEnd : (file.stream malloc).mPos.toNat = dataSize objs := result.wrote.position
  by_cases empty : (file.stream malloc).mPos = 0
  · exact ⟨file, none, appended, by simp [writeFile_eq, empty], nofun⟩
  · have ne : dataSize objs ≠ 0 := by
      rw [← dataEnd]
      exact fun zero => empty (UInt64.toNat_inj.mp zero)
    have room := (header_isSome_iff memory result).mpr (fits.header ne)
    obtain ⟨headerStream, added⟩ := isSome_iff_exists.mp room
    obtain ⟨loaded, read, i, size, use64, data⟩ := load_written readerFlag small memory (fits.count ne)
      (fits.names ne) result added
    refine ⟨file, _, appended, by rw [writeFile_eq, if_neg empty, added]; rfl, ?_⟩
    rintro _ ⟨⟩
    exact ⟨loaded, read, writtenBack_of_load small appended i size data⟩

theorem fits_of_roundTrips (small : dataSize objs < 2 ^ 32) (memory : indexSize objs < 2 ^ 61)
    (works : RoundTrips malloc flag readerFlag objs) : Fits malloc flag objs := by
  obtain ⟨file, written, appended, wrote, read⟩ := works
  have result := appended_start small appended
  have dataEnd := result.wrote.position
  have data := (appendAll_isSome_iff (ready_start malloc flag) small).mp (isSome_of_eq_some appended)
  have header (ne : dataSize objs ≠ 0) : ∃ headerStream bytes, written = some bytes ∧
      (OStream.create malloc (5 * 1024) false).addAll malloc file.header = some headerStream := by
    have moved : (file.stream malloc).mPos ≠ 0 := fun zero => ne (dataEnd.symm.trans (congrArg _ zero))
    rw [writeFile_eq, if_neg moved] at wrote
    obtain ⟨headerStream, added, rfl⟩ := map_eq_some_iff.mp wrote
    exact ⟨headerStream, _, rfl, added⟩
  have bounds (ne : dataSize objs ≠ 0) : objs.length < 2 ^ 32 ∧ ∀ obj ∈ objs, obj.getName.strlen < 2 ^ 32 := by
    obtain ⟨_, bytes, rfl, _⟩ := header ne
    obtain ⟨loaded, success, back⟩ := read bytes rfl
    obtain ⟨count, names⟩ := load_bounds rfl success
    have length := congrArg List.length back.names
    rw [length_map, length_map] at length
    refine ⟨length ▸ count, fun obj mem => ?_⟩
    have named := back.names ▸ List.mem_map_of_mem mem
    obtain ⟨entry, listed, eq⟩ := List.mem_map.mp named
    exact eq ▸ names entry listed
  refine ⟨data, fun ne => (bounds ne).1, fun ne => (bounds ne).2, fun ne => ?_⟩
  obtain ⟨headerStream, _, _, added⟩ := header ne
  exact (header_isSome_iff memory result).mp (isSome_of_eq_some added)

/-- Files are read back exactly if the strings and the index fit. -/
theorem roundTrips_iff (malloc : UInt64 → Nat → UInt8) (flag readerFlag : Bool) (objs : List ObjectBase)
    (small : dataSize objs < 2 ^ 32) (memory : indexSize objs < 2 ^ 61) :
    RoundTrips malloc flag readerFlag objs ↔ Fits malloc flag objs :=
  ⟨fits_of_roundTrips small memory, roundTrips_of_fits readerFlag small memory⟩

end

/-!
An object with a short name, and one whose name is longer than twice the buffer of the header.
-/

theorem letter_noZero (count : Nat) : (0 : UInt8) ∉ List.replicate count 97 := by
  intro mem
  exact absurd (eq_of_mem_replicate mem) (by decide)

def namedByte (letters : Nat) : ObjectBase where
  getName := ⟨List.replicate letters 97, letter_noZero letters⟩
  getClassId := 4
  serialize := [.u8 7]

private def anyBlock (_ : UInt64) (_ : Nat) : UInt8 := 0xcd

theorem roundTrips_two : RoundTrips anyBlock true false [namedByte 3, namedByte 1] := by
  refine (roundTrips_iff anyBlock true false _ (by decide +kernel) (by decide +kernel)).mpr ?_
  exact ⟨by decide +kernel, fun _ => by decide +kernel, fun _ => by decide +kernel, fun _ => by decide +kernel⟩

/-- The name does not fit the header's buffer of 5120 bytes when that is doubled. -/
theorem long_name_overflows : dataSize [namedByte 20000] < 2 ^ 32 ∧ indexSize [namedByte 20000] < 2 ^ 61 ∧
      ¬RoundTrips anyBlock false false [namedByte 20000] := by
  have small : dataSize [namedByte 20000] < 2 ^ 32 := by decide +kernel
  have strlen : (namedByte 20000).getName.strlen = 20000 := length_replicate
  have memory : indexSize [namedByte 20000] < 2 ^ 61 := by
    rw [indexSize, map_singleton, sum_singleton, strlen]
    decide
  refine ⟨small, memory, fun works => ?_⟩
  have room := (fits_of_roundTrips small memory works).header (by decide +kernel)
  have shown : ((OStream.create anyBlock (5 * 1024) false).addAll anyBlock
      [.u32 0, .u32 1, .u32 0, .u32 1]).map (fun s => (s.mPos.toNat, s.mLength.toNat)) = some (16, 5120) := by
    decide +kernel
  obtain ⟨s, added, seen⟩ := map_eq_some_iff.mp shown
  injection seen with pos length
  have name : ((namedByte 20000).entry 0).mObjectName.bytes.length = 20000 := strlen
  have fits := (OStream.HasRoomAll.behind room added).1
  rcases fits with empty | inside
  · rw [empty] at name
    cases name
  · rw [pos, length, name] at inside
    exact absurd inside (by decide)

end RenderScript.A3DFile
