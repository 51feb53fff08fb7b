import RenderScript.A3D.FileFormatProperties

/-!
# Files that are not loaded to the end

`load` of rsFileA3D.cpp from a buffer and from a FILE whose reads may be short. The
functions that create a file do not look at what `load` returns, so that the index of a
file and its read stream can be used after every load.
-/

namespace RenderScript.A3DFile
open AlignedBytes RenderScript.Stream List Option

/-- The bytes that a call of `fread` brings, and whether a call of `malloc` succeeds. -/
structure File where
  fread : Nat → Nat → List UInt8
  short : ∀ call count, (fread call count).length ≤ count
  malloc : Nat → Nat → Bool

def File.headerSize (f : File) : Nat := decode (f.fread 1 8)

def File.headerData (f : File) : List UInt8 := f.fread 2 f.headerSize

/-- `mDataSize` behind a read that may be short. -/
def File.dataSize (f : File) (mDataSize : UInt64) : UInt64 :=
  .ofNat (decode (f.fread 3 8 ++ (encode 8 mDataSize.toNat).drop (f.fread 3 8).length))

def FileA3D.loadFile (file : FileA3D) (f : File) : Option (Bool × FileA3D) :=
  if (f.fread 0 12).length ≠ 12 ∨ f.fread 0 12 ≠ A3D_MAGIC_KEY then some (false, file)
  else if (f.fread 1 8).length ≠ 8 ∨ f.headerSize = 0 then some (false, file)
  else if f.malloc 0 f.headerSize = false then some (false, file)
  else if f.headerData.length ≠ f.headerSize then some (false, file)
  else do
    let (file, _) ← file.parseHeader.run { mData := f.headerData, mUse64 := false }
    let file := { file with mDataSize := f.dataSize file.mDataSize }
    if (f.fread 3 8).length ≠ 8 ∨ file.mDataSize = 0 then return (false, file)
    if f.malloc 1 file.mDataSize.toNat = false then return (false, file)
    let mAlloc := f.fread 4 file.mDataSize.toNat
    if mAlloc.length ≠ file.mDataSize.toNat then return (false, file)
    return (true, { file with mReadStream := some { mData := mAlloc, mUse64 := file.mUse64BitOffsets } })

inductive Source where
  | memory (data : List UInt8)
  | file (f : File)

def FileA3D.loadFrom (file : FileA3D) : Source → Option (Bool × FileA3D)
  | .memory data => file.load data
  | .file f => file.loadFile f

def FileA3D.getNumIndexEntries (file : FileA3D) : Nat := file.mIndex.length

/-- `mRsObj` has the entries with an object, and `made` says whether `createFromStream` gives one.
No value when a stream that is NULL is used. -/
def FileA3D.initializeFromEntry (file : FileA3D) (mRsObj : Nat → Bool) (index : Nat) (made : Bool) :
    Option (Nat → Bool) :=
  if index ≥ file.mIndex.length then some mRsObj
  else if mRsObj index then some mRsObj
  else do
    let _ ← file.mReadStream
    return Function.update mRsObj index made

/-- Calls of `rsaFileA3DGetEntryByIndex`. -/
def FileA3D.getEntries (file : FileA3D) (calls : List (Nat × Bool)) : Option (Nat → Bool) :=
  calls.foldlM (fun mRsObj call => file.initializeFromEntry mRsObj call.1 call.2) fun _ => false

def FileA3D.Usable (file : FileA3D) : Prop :=
  (file.getNumIndexEntries ≠ 0 → file.mReadStream ≠ none) ∧
    ∀ calls : List (Nat × Bool), (∀ call ∈ calls, call.1 < file.getNumIndexEntries) →
      file.getEntries calls ≠ none

namespace Source

def HasHeader : Source → Prop
  | .memory data =>
    data.take 12 = A3D_MAGIC_KEY ∧ 20 ≤ data.length ∧ 20 + decode ((data.drop 12).take 8) ≤ data.length
  | .file f =>
    f.fread 0 12 = A3D_MAGIC_KEY ∧ (f.fread 1 8).length = 8 ∧ f.headerSize ≠ 0 ∧
      f.malloc 0 f.headerSize = true ∧ f.headerData.length = f.headerSize

def numIndexEntries : Source → Nat
  | .memory data => decode ((data.drop 32).take 4)
  | .file f => decode ((f.headerData.drop 12).take 4)

def behindHeader (data : List UInt8) : List UInt8 := data.drop (20 + decode ((data.drop 12).take 8))

/-- The data behind the header arrive as a whole; those of a FILE are not empty. -/
def HasData : Source → Prop
  | .memory data =>
    8 ≤ (behindHeader data).length ∧
      8 + decode ((behindHeader data).take 8) ≤ (behindHeader data).length
  | .file f =>
    (f.fread 3 8).length = 8 ∧ decode (f.fread 3 8) ≠ 0 ∧ f.malloc 1 (decode (f.fread 3 8)) = true ∧
      (f.fread 4 (decode (f.fread 3 8))).length = decode (f.fread 3 8)

end Source

theorem initializeFromEntry_isSome {file : FileA3D} (stream : file.mReadStream ≠ none) (mRsObj : Nat → Bool)
    (index : Nat) (made : Bool) : ∃ after, file.initializeFromEntry mRsObj index made = some after := by
  obtain ⟨s, found⟩ := ne_none_iff_exists'.mp stream
  rw [FileA3D.initializeFromEntry]
  split
  case isTrue => exact ⟨mRsObj, rfl⟩
  case isFalse =>
    split
    case isTrue => exact ⟨mRsObj, rfl⟩
    case isFalse =>
      rw [found]
      exact ⟨_, rfl⟩

theorem getEntries_isSome {file : FileA3D} (stream : file.mReadStream ≠ none) (calls : List (Nat × Bool)) :
    file.getEntries calls ≠ none := by
  rw [FileA3D.getEntries]
  generalize (fun _ : Nat => false) = mRsObj
  induction calls generalizing mRsObj with
  | nil => exact some_ne_none _
  | cons call rest ih =>
    obtain ⟨after, called⟩ := initializeFromEntry_isSome stream mRsObj call.1 call.2
    rw [foldlM_cons, called]
    exact ih after

theorem usable_iff (file : FileA3D) : file.Usable ↔ (file.mIndex.length ≠ 0 → file.mReadStream ≠ none) := by
  constructor
  · exact And.left
  · intro stream
    refine ⟨stream, ?_⟩
    intro calls valid
    cases calls with
    | nil => exact some_ne_none _
    | cons call rest =>
      have inside := valid call mem_cons_self
      exact getEntries_isSome (stream (ne_zero_of_lt inside)) (call :: rest)

theorem readAt_eq_take {data bytes : List UInt8} {start count : Nat}
    (read : readAt (fun index => data[index]?) start count = some bytes) :
    bytes = (data.drop start).take count := by
  induction count generalizing start bytes with
  | zero =>
    cases read
    rfl
  | succ count ih =>
    rw [readAt, bind_eq_bind, bind_eq_some_iff] at read
    obtain ⟨byte, here, read⟩ := read
    rw [bind_eq_bind, bind_eq_some_iff] at read
    obtain ⟨rest, later, read⟩ := read
    cases read
    obtain ⟨inside, rfl⟩ := List.getElem?_eq_some_iff.mp here
    rw [ih later, drop_eq_getElem_cons inside, take_succ_cons]

theorem loadByteArray_run (numBytes : Nat) (s : IStream) : (IStream.loadByteArray numBytes).run s =
      (readAt s.look s.mPos.toNat numBytes).map fun bytes => (bytes, { s with mPos := s.mPos + .ofNat numBytes }) := by
  cases found : readAt s.look s.mPos.toNat numBytes with
  | none => simp [IStream.loadByteArray, found]
  | some bytes => simp [IStream.loadByteArray, found]

theorem loadU32_run (s : IStream) : IStream.loadU32.run s =
      ((IStream.loadByteArray 4).run { s with mPos := (s.mPos + 3) &&& ~~~3 }).map fun result =>
        (.ofNat (decode result.1), result.2) := by
  rw [IStream.loadU32, IStream.loadNumber]
  simp only [StateT.run_bind, StateT.run_modify, StateT.run_pure, Option.pure_def, bind_eq_bind,
    bind_some, bind_assoc, map_eq_bind]
  rfl

theorem loadU32_at {s after : IStream} {v : UInt32} (run : IStream.loadU32.run s = some (v, after)) :
    v.toNat = decode ((s.mData.drop ((s.mPos + 3) &&& ~~~3).toNat).take 4) ∧
      after = { s with mPos := ((s.mPos + 3) &&& ~~~3) + 4 } := by
  rw [loadU32_run, loadByteArray_run, Option.map_map] at run
  obtain ⟨bytes, found, result⟩ := map_eq_some_iff.mp run
  cases result
  have taken := readAt_eq_take found
  have few : bytes.length ≤ 4 := by
    rw [taken]
    exact length_take_le _ _
  have small := (decode_lt bytes).trans_le (Nat.pow_le_pow_right (by decide) few : 256 ^ bytes.length ≤ 256 ^ 4)
  refine ⟨?_, rfl⟩
  rw [UInt32.toNat_ofNat', Nat.mod_eq_of_lt small, taken]

theorem parseHeader_length {reader parsed : FileA3D} {data : List UInt8} {after : IStream} (empty : reader.mIndex = [])
    (run : reader.parseHeader.run { mData := data, mUse64 := false } = some (parsed, after)) :
    parsed.mIndex.length = decode ((data.drop 12).take 4) ∧ parsed.mReadStream = reader.mReadStream := by
  rw [FileA3D.parseHeader, StateT.run_bind] at run
  obtain ⟨⟨major, first⟩, majorRead, run⟩ := bind_eq_some_iff.mp run
  rw [StateT.run_bind] at run
  obtain ⟨⟨minor, second⟩, minorRead, run⟩ := bind_eq_some_iff.mp run
  rw [StateT.run_bind] at run
  obtain ⟨⟨flags, third⟩, flagsRead, run⟩ := bind_eq_some_iff.mp run
  rw [StateT.run_bind] at run
  obtain ⟨⟨numIndexEntries, fourth⟩, countRead, run⟩ := bind_eq_some_iff.mp run
  obtain ⟨⟨entries, mid⟩, list, run⟩ := bind_eq_some_iff.mp run
  cases run
  -- each of the three words before the count moves the position by four
  obtain rfl := (loadU32_at majorRead).2
  obtain rfl := (loadU32_at minorRead).2
  obtain rfl := (loadU32_at flagsRead).2
  have count := (loadU32_at countRead).1
  have pos : ((((((((0 : UInt64) + 3 &&& ~~~3) + 4) + 3 &&& ~~~3) + 4) + 3 &&& ~~~3) + 4 + 3) &&& ~~~3).toNat = 12 := by
    decide
  refine ⟨?_, rfl⟩
  rw [empty, nil_append, (parseEntries_bounds list).1, count]
  exact congrArg (fun i => decode ((data.drop i).take 4)) pos

section

variable {reader loaded : FileA3D} {ok : Bool}

theorem toNat_ofNat_decode {bytes : List UInt8} (few : bytes.length ≤ 8) :
    (UInt64.ofNat (decode bytes)).toNat = decode bytes := by
  have small := (decode_lt bytes).trans_le (Nat.pow_le_pow_right (by decide) few : 256 ^ bytes.length ≤ 256 ^ 8)
  rw [UInt64.toNat_ofNat', Nat.mod_eq_of_lt small]

theorem load_memory {data : List UInt8} (empty : reader.mIndex = []) (closed : reader.mReadStream = none)
    (run : reader.load data = some (ok, loaded)) :
    (¬ (Source.memory data).HasHeader → loaded = reader) ∧
      ((Source.memory data).HasHeader → loaded.mIndex.length = (Source.memory data).numIndexEntries ∧
        (loaded.mReadStream ≠ none ↔ (Source.memory data).HasData)) := by
  rw [FileA3D.load] at run
  dsimp only at run
  simp only [Source.HasHeader, Source.HasData, Source.behindHeader, Source.numIndexEntries]
  split at run
  case isTrue wrong =>
    cases run
    refine ⟨fun _ => rfl, fun header => ?_⟩
    rcases wrong with short | ne
    · omega
    · exact absurd header.1 ne
  case isFalse right =>
    rw [not_or, not_lt, not_not] at right
    split at run
    case isTrue short =>
      cases run
      rw [length_drop] at short
      exact ⟨fun _ => rfl, fun header => by omega⟩
    case isFalse long =>
      rw [length_drop, not_lt] at long
      split at run
      case isTrue short =>
        cases run
        rw [length_drop, length_drop] at short
        exact ⟨fun _ => rfl, fun header => by omega⟩
      case isFalse whole =>
        rw [length_drop, length_drop, not_lt] at whole
        obtain ⟨⟨parsed, rest⟩, parse, run⟩ := bind_eq_some_iff.mp run
        obtain ⟨count, kept⟩ := parseHeader_length empty parse
        rw [drop_drop, drop_drop] at count
        refine ⟨fun missing => absurd ⟨right.2, by omega, by omega⟩ missing, fun _ => ?_⟩
        simp only [drop_drop, Nat.reduceAdd] at run
        have few : ((data.drop (20 + decode ((data.drop 12).take 8))).take 8).length ≤ 8 := length_take_le _ _
        split at run
        case isTrue short =>
          cases run
          exact ⟨count, iff_of_false (not_not_intro (kept.trans closed)) fun data => by omega⟩
        case isFalse enough =>
          rw [toNat_ofNat_decode few] at run
          split at run
          case isTrue short =>
            cases run
            refine ⟨count, iff_of_false (not_not_intro (kept.trans closed)) fun data => ?_⟩
            rw [length_drop] at short data
            omega
          case isFalse complete =>
            cases run
            refine ⟨count, fun _ => ?_, fun _ => some_ne_none _⟩
            rw [length_drop] at complete enough ⊢
            omega

theorem load_file {f : File} (empty : reader.mIndex = []) (closed : reader.mReadStream = none)
    (run : reader.loadFile f = some (ok, loaded)) :
    (¬ (Source.file f).HasHeader → loaded = reader) ∧
      ((Source.file f).HasHeader → loaded.mIndex.length = (Source.file f).numIndexEntries ∧
        (loaded.mReadStream ≠ none ↔ (Source.file f).HasData)) := by
  rw [FileA3D.loadFile] at run
  simp only [Source.HasHeader, Source.HasData, Source.numIndexEntries]
  split at run
  case isTrue wrong =>
    cases run
    refine ⟨fun _ => rfl, fun header => ?_⟩
    rcases wrong with short | ne
    · exact absurd (congrArg List.length header.1) short
    · exact absurd header.1 ne
  case isFalse right =>
    rw [not_or, not_not, not_not] at right
    split at run
    case isTrue wrong =>
      cases run
      refine ⟨fun _ => rfl, fun header => ?_⟩
      rcases wrong with short | zero
      · exact absurd header.2.1 short
      · exact absurd zero header.2.2.1
    case isFalse sized =>
      rw [not_or, not_not] at sized
      split at run
      case isTrue failed =>
        cases run
        exact ⟨fun _ => rfl, fun header => by rw [failed] at header; cases header.2.2.2.1⟩
      case isFalse room =>
        rw [Bool.not_eq_false] at room
        split at run
        case isTrue short =>
          cases run
          exact ⟨fun _ => rfl, fun header => absurd header.2.2.2.2 short⟩
        case isFalse whole =>
          rw [not_not] at whole
          obtain ⟨⟨parsed, rest⟩, parse, run⟩ := bind_eq_some_iff.mp run
          obtain ⟨count, kept⟩ := parseHeader_length empty parse
          refine ⟨fun missing => absurd ⟨right.2, sized.1, sized.2, room, whole⟩ missing, fun _ => ?_⟩
          dsimp only at run
          have size (full : (f.fread 3 8).length = 8) : (f.dataSize parsed.mDataSize).toNat = decode (f.fread 3 8) := by
            have none : (encode 8 parsed.mDataSize.toNat).drop 8 = [] := drop_eq_nil_of_le (by rw [length_encode])
            simp [File.dataSize, full, none, toNat_ofNat_decode full.le]
          have nonzero (full : (f.fread 3 8).length = 8) : f.dataSize parsed.mDataSize = 0 ↔ decode (f.fread 3 8) = 0 := by
            rw [← size full, ← UInt64.toNat_inj]
            rfl
          split at run
          case isTrue wrong =>
            cases run
            refine ⟨count, iff_of_false (not_not_intro (kept.trans closed)) fun data => ?_⟩
            rcases wrong with short | zero
            · exact absurd data.1 short
            · exact absurd ((nonzero data.1).mp zero) data.2.1
          case isFalse there =>
            rw [not_or, not_not] at there
            obtain ⟨full, large⟩ := there
            rw [nonzero full] at large
            rw [size full] at run
            split at run
            case isTrue failed =>
              cases run
              refine ⟨count, iff_of_false (not_not_intro (kept.trans closed)) fun data => ?_⟩
              rw [failed] at data
              cases data.2.2.1
            case isFalse enough =>
              rw [Bool.not_eq_false] at enough
              split at run
              case isTrue short =>
                cases run
                exact ⟨count, iff_of_false (not_not_intro (kept.trans closed)) fun data => short data.2.2.2⟩
              case isFalse complete =>
                cases run
                rw [not_not] at complete
                exact ⟨count, fun _ => ⟨full, large, enough, complete⟩, fun _ => some_ne_none _⟩

end

/-- A new file is usable behind a load exactly if the data arrive with an index that is not empty. -/
theorem usable_after_load_iff {source : Source} {mUse64BitOffsets ok : Bool} {loaded : FileA3D}
    (run : ({ mUse64BitOffsets := mUse64BitOffsets } : FileA3D).loadFrom source = some (ok, loaded)) :
    loaded.Usable ↔ (source.HasHeader → source.numIndexEntries ≠ 0 → source.HasData) := by
  have parts : (¬ source.HasHeader → loaded = { mUse64BitOffsets := mUse64BitOffsets }) ∧
      (source.HasHeader → loaded.mIndex.length = source.numIndexEntries ∧ (loaded.mReadStream ≠ none ↔ source.HasData)) := by
    cases source with
    | memory data => exact load_memory rfl rfl run
    | file f => exact load_file rfl rfl run
  rw [usable_iff]
  by_cases header : source.HasHeader
  · obtain ⟨count, stream⟩ := parts.2 header
    rw [count, stream]
    exact ⟨fun usable _ => usable, fun condition => condition header⟩
  · rw [parts.1 header]
    exact ⟨fun _ complete => absurd complete header, fun _ entries => absurd rfl entries⟩

/-- A header with one entry of class `RS_A3D_CLASS_ID_MESH` without a name. -/
def oneEntry : List UInt8 :=
  encode 4 0 ++ encode 4 1 ++ encode 4 0 ++ encode 4 1 ++ encode 4 0 ++ encode 4 1 ++ encode 4 0 ++ encode 4 4

theorem usable_after_load_whole : ∃ loaded, ({ mUse64BitOffsets := false } : FileA3D).loadFrom
        (.memory (A3D_MAGIC_KEY ++ encode 8 32 ++ oneEntry ++ encode 8 4 ++ [1, 2, 3, 4])) = some (true, loaded) ∧
      loaded.getNumIndexEntries = 1 ∧ loaded.Usable := by
  have ran : (({ mUse64BitOffsets := false } : FileA3D).loadFrom
      (.memory (A3D_MAGIC_KEY ++ encode 8 32 ++ oneEntry ++ encode 8 4 ++ [1, 2, 3, 4]))).map
        (fun result => (result.1, result.2.getNumIndexEntries)) = some (true, 1) := by
    decide +kernel
  obtain ⟨⟨ok, loaded⟩, run, result⟩ := map_eq_some_iff.mp ran
  simp only [Prod.mk.injEq] at result
  obtain ⟨rfl, count⟩ := result
  refine ⟨loaded, run, count, (usable_after_load_iff run).mpr fun _ _ => ?_⟩
  simp only [Source.HasData]
  decide +kernel

/-- The file ends behind its header: one entry, and no stream to read it from. -/
theorem truncated_file_not_usable : ∃ loaded, ({ mUse64BitOffsets := false } : FileA3D).loadFrom
        (.memory (A3D_MAGIC_KEY ++ encode 8 32 ++ oneEntry)) = some (false, loaded) ∧
      loaded.getNumIndexEntries = 1 ∧ loaded.getEntries [(0, true)] = none := by
  have ran : (({ mUse64BitOffsets := false } : FileA3D).loadFrom (.memory (A3D_MAGIC_KEY ++ encode 8 32 ++ oneEntry))).map
        (fun result => (result.1, result.2.getNumIndexEntries, (result.2.getEntries [(0, true)]).isNone)) =
          some (false, 1, true) := by
    decide +kernel
  obtain ⟨⟨ok, loaded⟩, run, result⟩ := map_eq_some_iff.mp ran
  simp only [Prod.mk.injEq, isNone_iff_eq_none] at result
  obtain ⟨rfl, count, failed⟩ := result
  exact ⟨loaded, run, count, failed⟩

end RenderScript.A3DFile
