import RenderScript.Stream.Stream

/-!
# What streams write and read

Every call of an `OStream` places chunks of bytes behind those already written,
and every load of an `IStream` takes the chunks of one value. A sequence of calls is
read back by the matching sequence of loads.
-/

namespace RenderScript.Stream
open AlignedBytes List Option

variable {position low : UInt64}

private theorem and_byte (n : Nat) : n &&& 255 = n % 256 := Nat.and_two_pow_sub_one_eq_mod n 8

theorem bytes_u16 (v : UInt16) : [(v &&& 0xff).toUInt8, (v >>> 8).toUInt8] = encode 2 v.toNat := by
  simp only [encode, cons.injEq, and_true, ← UInt8.toNat_inj]
  simp [Nat.shiftRight_eq_div_pow, and_byte]

theorem bytes_u32 (v : UInt32) : [(v &&& 0xff).toUInt8, ((v >>> 8) &&& 0xff).toUInt8, ((v >>> 16) &&& 0xff).toUInt8,
      ((v >>> 24) &&& 0xff).toUInt8] = encode 4 v.toNat := by
  simp only [encode, cons.injEq, and_true, ← UInt8.toNat_inj]
  simp [Nat.shiftRight_eq_div_pow, and_byte, Nat.div_div_eq_div_mul]

theorem bytes_u64 (v : UInt64) : [(v &&& 0xff).toUInt8, ((v >>> 8) &&& 0xff).toUInt8, ((v >>> 16) &&& 0xff).toUInt8,
      ((v >>> 24) &&& 0xff).toUInt8, ((v >>> 32) &&& 0xff).toUInt8,
      ((v >>> 40) &&& 0xff).toUInt8, ((v >>> 48) &&& 0xff).toUInt8,
      ((v >>> 56) &&& 0xff).toUInt8] = encode 8 v.toNat := by
  simp only [encode, cons.injEq, and_true, ← UInt8.toNat_inj]
  simp [Nat.shiftRight_eq_div_pow, and_byte, Nat.div_div_eq_div_mul]

theorem byte_sshiftRight (v : Int32) {shift : Nat} (inside : shift + 8 ≤ 32) :
    UInt8.ofBitVec ((v.toBitVec.sshiftRight shift &&& 0xff#32).setWidth 8) = UInt8.ofNat (v.toBitVec.toNat / 2 ^ shift) := by
  have unsigned : (v.toBitVec.sshiftRight shift &&& 0xff#32).setWidth 8 = (v.toBitVec >>> shift).setWidth 8 := by
    apply BitVec.eq_of_getLsbD_eq
    intro bit low
    have mask : (0xff#32).getLsbD bit = true := by interval_cases bit <;> rfl
    have kept : shift + bit < 32 := by omega
    have word : ¬ 32 ≤ bit := by omega
    simp only [BitVec.getLsbD_setWidth, BitVec.getLsbD_and, BitVec.getLsbD_sshiftRight, mask, low,
      BitVec.getLsbD_ushiftRight, kept, word, decide_true, Bool.true_and, Bool.and_true, if_true,
      decide_false, Bool.not_false]
  rw [unsigned, ← UInt8.toNat_inj]
  simp [Nat.shiftRight_eq_div_pow]

theorem toNat_aligned {bits : Nat} (fits : bits ≤ 64)
    (isLow : low.toNat = 2 ^ bits - 1) (room : position.toNat + low.toNat < 2 ^ 64) :
    ((position + low) &&& ~~~low).toNat = alignUp (2 ^ bits) position.toNat := by
  have pos : 0 < 2 ^ bits := Nat.two_pow_pos bits
  have mask : (~~~low).toNat = 2 ^ 64 - 2 ^ bits := by
    rw [UInt64.toNat_not, isLow, UInt64.size]
    omega
  rw [UInt64.toNat_and, UInt64.toNat_add, mask, Nat.mod_eq_of_lt room, and_mask fits, Nat.mod_eq_of_lt room, isLow, alignUp]

theorem toNat_align_two (small : position.toNat < 2 ^ 62) : ((position + 1) &&& ~~~1).toNat = alignUp 2 position.toNat :=
  toNat_aligned (by decide : 1 ≤ 64) rfl (by simp only [UInt64.toNat_one]; omega)

theorem toNat_align_four (small : position.toNat < 2 ^ 62) : ((position + 3) &&& ~~~3).toNat = alignUp 4 position.toNat :=
  toNat_aligned (by decide : 2 ≤ 64) rfl (by simp only [UInt64.reduceToNat]; omega)

theorem toNat_align_eight (small : position.toNat < 2 ^ 62) : ((position + 7) &&& ~~~7).toNat = alignUp 8 position.toNat :=
  toNat_aligned (by decide : 3 ≤ 64) rfl (by simp only [UInt64.reduceToNat]; omega)

def number (size value : Nat) (positive : 0 < size) : Chunk where
  unit := size
  bytes := encode size value
  positive := positive

def raw (bytes : List UInt8) : Chunk where
  unit := 1
  bytes := bytes
  positive := Nat.one_pos

def Value.chunks (use64 : Bool) : Value → List Chunk
  | .u8 v => [raw [v]]
  | .u16 v => [number 2 v.toNat (by decide)]
  | .u32 v => [number 4 v.toNat (by decide)]
  | .i32 v => [number 4 v.toBitVec.toNat (by decide)]
  | .f v => [number 4 v.toNat (by decide)]
  | .string bytes => [number 4 (UInt32.ofNat bytes.length).toNat (by decide), raw bytes]
  | .byteArray bytes => [raw bytes]
  | .offset v =>
    if use64 then [number 8 v.toNat (by decide)] else [number 4 v.toUInt32.toNat (by decide)]

variable {chunks others : List Chunk} {s after before : OStream} {bytes : List UInt8} {v : Value} {limit index : Nat}
  {values rest : List Value}

def OStream.look (s : OStream) (index : Nat) : Option UInt8 := some (s.mData index)

structure Wrote (before after : OStream) (chunks : List Chunk) : Prop where
  use64 : after.mUse64 = before.mUse64
  inside : after.mPos.toNat ≤ after.mLength.toNat
  position : after.mPos.toNat = finish before.mPos.toNat chunks
  placed : Placed after.look before.mPos.toNat chunks
  kept : ∀ index, index < before.mPos.toNat → after.mData index = before.mData index

theorem Wrote.trans {first second third : OStream} (wrote : Wrote first second chunks) (continued : Wrote second third others) :
    Wrote first third (chunks ++ others) where
  use64 := continued.use64.trans wrote.use64
  inside := continued.inside
  position := by rw [finish_append, ← wrote.position, continued.position]
  placed := by
    rw [placed_append]
    constructor
    · apply wrote.placed.congr
      intro i _ lt
      rw [← wrote.position] at lt
      exact congrArg some (continued.kept i lt).symm
    · rw [← wrote.position]
      exact continued.placed
  kept := by
    intro i lt
    have further := le_finish first.mPos.toNat chunks
    rw [← wrote.position] at further
    rw [continued.kept i (by omega), wrote.kept i lt]

structure Stored (before after : OStream) (bytes : List UInt8) : Prop where
  use64 : after.mUse64 = before.mUse64
  length : after.mLength = before.mLength
  position : after.mPos.toNat = before.mPos.toNat + bytes.length
  standing : At after.look before.mPos.toNat bytes
  kept : ∀ index, index < before.mPos.toNat → after.mData index = before.mData index

theorem storeAll_cons (s : OStream) (v : UInt8) (rest : List UInt8) :
    s.storeAll (v :: rest) = (s.store v).bind fun next => next.storeAll rest := rfl

theorem toNat_mPos_store (room : s.mPos < s.mLength) : (s.mPos + 1).toNat = s.mPos.toNat + 1 := by
  have lt := UInt64.lt_iff_toNat_lt.mp room
  have word := s.mLength.toNat_lt
  rw [UInt64.toNat_add, UInt64.toNat_one, Nat.mod_eq_of_lt (by omega)]

theorem storeAll_stored (stored : s.storeAll bytes = some after) : Stored s after bytes := by
  induction bytes generalizing s with
  | nil =>
    cases stored
    exact ⟨rfl, rfl, rfl, trivial, fun _ _ => rfl⟩
  | cons v rest ih =>
    rw [storeAll_cons, bind_eq_some_iff] at stored
    obtain ⟨next, first, others⟩ := stored
    unfold OStream.store at first
    split at first
    · rename_i room
      cases first
      have step := toNat_mPos_store room
      have later := ih others
      have position := later.position
      have standing := later.standing
      rw [step] at position standing
      refine ⟨later.use64, later.length, ?_, ⟨?_, standing⟩, ?_⟩
      · rw [position, length_cons]
        omega
      · rw [OStream.look, later.kept _ (by dsimp only; omega)]
        dsimp only
        simp
      · intro i lt
        rw [later.kept _ (by dsimp only; omega)]
        exact Function.update_of_ne (by omega) _ _
    · cases first

theorem storeAll_isSome_iff (s : OStream) (bytes : List UInt8) : (s.storeAll bytes).isSome ↔
      bytes = [] ∨ s.mPos.toNat + bytes.length ≤ s.mLength.toNat := by
  induction bytes generalizing s with
  | nil => simp [OStream.storeAll]
  | cons v rest ih =>
    rw [storeAll_cons, OStream.store]
    split
    · rename_i room
      have step := toNat_mPos_store room
      have lt := UInt64.lt_iff_toNat_lt.mp room
      rw [bind_some, ih]
      cases rest with
      | nil =>
        simp
        omega
      | cons next others =>
        simp only [length_cons, reduceCtorEq, false_or]
        omega
    · rename_i full
      rw [UInt64.lt_iff_toNat_lt] at full
      simp
      omega

structure Grown (before after : OStream) : Prop where
  use64 : after.mUse64 = before.mUse64
  position : after.mPos = before.mPos
  kept : ∀ index, index < before.mLength.toNat → index < before.mPos.toNat →
    after.mData index = before.mData index

section

variable {fuel : Nat} {numBytes : UInt64} {malloc : UInt64 → Nat → UInt8}

theorem growSize_grown (s : OStream) : Grown s (s.growSize malloc) where
  use64 := rfl
  position := rfl
  kept := fun _ inside _ => if_pos inside

theorem growFor_grown (s : OStream) (size : UInt64) : Grown s (s.growFor malloc size) := by
  unfold OStream.growFor
  split
  · exact growSize_grown s
  · exact ⟨rfl, rfl, fun _ _ _ => rfl⟩

variable (inside : s.mPos.toNat ≤ s.mLength.toNat)

include inside

theorem wrote_of_stored {grown : OStream} {chunk : Chunk} (aligned : position.toNat = alignUp chunk.unit s.mPos.toNat)
    (growth : Grown { s with mPos := position } grown) (stored : grown.storeAll chunk.bytes = some after)
    (ends : chunk.bytes = [] → grown.mPos.toNat ≤ grown.mLength.toNat) :
    Wrote s after [chunk] := by
  have result := storeAll_stored stored
  have begins : grown.mPos.toNat = alignUp chunk.unit s.mPos.toNat := by
    rw [growth.position, ← aligned]
  have later := le_alignUp chunk.positive s.mPos.toNat
  have reached := result.position
  have standing := result.standing
  rw [begins] at reached standing
  refine ⟨result.use64.trans growth.use64, ?_, reached, ⟨standing, trivial⟩, ?_⟩
  · have some : (grown.storeAll chunk.bytes).isSome := by rw [stored]; rfl
    rw [result.length]
    rcases (storeAll_isSome_iff grown chunk.bytes).mp some with empty | room
    · rw [result.position, empty]
      exact ends empty
    · rw [result.position]
      exact room
  · intro i lt
    have old : i < ({ s with mPos := position } : OStream).mPos.toNat := by
      dsimp only
      omega
    rw [result.kept i (by omega), growth.kept i (by dsimp only; omega) old]

theorem addU32_wrote {v : UInt32} (small : s.mPos.toNat < 2 ^ 62) (added : s.addU32 malloc v = some after) :
    Wrote s after [number 4 v.toNat (by decide)] := by
  rw [OStream.addU32, bytes_u32] at added
  exact wrote_of_stored inside (toNat_align_four small) (growFor_grown _ 4) added
    fun empty => absurd (congrArg List.length empty) (by simp [number])

theorem addI32_wrote {v : Int32} (small : s.mPos.toNat < 2 ^ 62) (added : s.addI32 malloc v = some after) :
    Wrote s after [number 4 v.toBitVec.toNat (by decide)] := by
  have bytes : [v.toBitVec.toNat / 2 ^ 0, v.toBitVec.toNat / 2 ^ 8, v.toBitVec.toNat / 2 ^ 16,
      v.toBitVec.toNat / 2 ^ 24].map UInt8.ofNat = encode 4 v.toBitVec.toNat := by
    simp [encode, Nat.div_div_eq_div_mul]
  simp only [OStream.addI32, byte_sshiftRight v (by decide : 0 + 8 ≤ 32),
    byte_sshiftRight v (by decide : 8 + 8 ≤ 32), byte_sshiftRight v (by decide : 16 + 8 ≤ 32),
    byte_sshiftRight v (by decide : 24 + 8 ≤ 32)] at added
  rw [map_cons, map_cons, map_cons, map_cons, map_nil] at bytes
  rw [bytes] at added
  exact wrote_of_stored inside (toNat_align_four small) (growFor_grown _ 4) added
    fun empty => absurd (congrArg List.length empty) (by simp [number])

theorem addU16_wrote {v : UInt16} (small : s.mPos.toNat < 2 ^ 62) (added : s.addU16 malloc v = some after) :
    Wrote s after [number 2 v.toNat (by decide)] := by
  rw [OStream.addU16, bytes_u16] at added
  exact wrote_of_stored inside (toNat_align_two small) (growFor_grown _ 2) added
    fun empty => absurd (congrArg List.length empty) (by simp [number])

theorem addU8_wrote {v : UInt8} (added : s.addU8 malloc v = some after) : Wrote s after [raw [v]] :=
  wrote_of_stored inside (alignUp_one _).symm (growFor_grown s 1) added fun empty => absurd empty (by simp [raw])

omit inside in
theorem toNat_mLength_growSize {s : OStream} (small : s.mLength.toNat < 2 ^ 63) :
    (s.growSize malloc).mLength.toNat = s.mLength.toNat * 2 := by
  have two : (2 : UInt64).toNat = 2 := rfl
  rw [OStream.growSize, UInt64.toNat_mul, two, Nat.mod_eq_of_lt (by omega)]

omit inside in
theorem growUntil_grown (small : s.mPos.toNat + numBytes.toNat < 2 ^ 63)
    (grew : OStream.growUntil malloc numBytes fuel s = some after) :
    Grown s after ∧ after.mPos.toNat < after.mLength.toNat := by
  have ended : ∀ {s : OStream}, s.mPos.toNat + numBytes.toNat < 2 ^ 63 →
      ¬ s.mPos + numBytes ≥ s.mLength → s.mPos.toNat < s.mLength.toNat := by
    intro s small fits
    rw [ge_iff_le, UInt64.le_iff_toNat_le, UInt64.toNat_add, Nat.mod_eq_of_lt (by omega)] at fits
    omega
  induction fuel generalizing s with
  | zero =>
    unfold OStream.growUntil at grew
    split at grew
    · cases grew
    · rename_i fits
      cases grew
      exact ⟨⟨rfl, rfl, fun _ _ _ => rfl⟩, ended small fits⟩
  | succ fuel ih =>
    unfold OStream.growUntil at grew
    split at grew
    · rename_i tight
      rw [ge_iff_le, UInt64.le_iff_toNat_le, UInt64.toNat_add, Nat.mod_eq_of_lt (by omega)] at tight
      have doubled : (s.growSize malloc).mLength.toNat = s.mLength.toNat * 2 := toNat_mLength_growSize (by omega)
      obtain ⟨growth, room⟩ := @ih (s.growSize malloc) small grew
      refine ⟨⟨growth.use64, growth.position, ?_⟩, room⟩
      intro i inside lt
      rw [growth.kept i (by omega) lt]
      exact (growSize_grown s).kept i inside lt
    · rename_i fits
      cases grew
      exact ⟨⟨rfl, rfl, fun _ _ _ => rfl⟩, ended small fits⟩

omit inside in
theorem growUntil_mPos (grew : OStream.growUntil malloc numBytes fuel s = some after) : after.mPos = s.mPos := by
  induction fuel generalizing s with
  | zero =>
    unfold OStream.growUntil at grew
    split at grew
    · cases grew
    · cases grew
      rfl
  | succ fuel ih =>
    unfold OStream.growUntil at grew
    split at grew
    · exact @ih (s.growSize malloc) grew
    · cases grew
      rfl

theorem addByteArray_wrote {src : List UInt8} (added : s.addByteArray malloc src = some after)
    (small : after.mPos.toNat < 2 ^ 62) : Wrote s after [raw src] := by
  obtain ⟨grown, grew, stored⟩ := bind_eq_some_iff.mp added
  have reached := (storeAll_stored stored).position
  rw [growUntil_mPos grew] at reached
  have length : (UInt64.ofNat src.length).toNat = src.length := by
    rw [UInt64.toNat_ofNat', Nat.mod_eq_of_lt (by omega)]
  obtain ⟨growth, room⟩ := growUntil_grown (by omega) grew
  exact wrote_of_stored inside (alignUp_one _).symm growth stored fun _ => room.le

theorem addString_wrote (begins : s.mPos.toNat < 2 ^ 62)
    (added : s.addString malloc bytes = some after) (small : after.mPos.toNat < 2 ^ 62) :
    Wrote s after [number 4 (UInt32.ofNat bytes.length).toNat (by decide), raw bytes] := by
  obtain ⟨mid, first, stored⟩ := bind_eq_some_iff.mp added
  have length := addU32_wrote inside begins first
  have growth : Grown mid (mid.growFor malloc (.ofNat bytes.length)) := growFor_grown _ _
  have reached := (storeAll_stored stored).position
  rw [growth.position] at reached
  have text : Wrote mid after [raw bytes] := by
    apply wrote_of_stored length.inside (alignUp_one _).symm growth stored
    intro empty
    have within := length.inside
    rw [growth.position, OStream.growFor]
    split
    · rename_i tight
      have none : UInt64.ofNat bytes.length = 0 := by
        rw [show bytes = [] from empty]
        rfl
      rw [none, UInt64.add_zero, ge_iff_le, UInt64.le_iff_toNat_le] at tight
      rw [toNat_mLength_growSize (by omega)]
      omega
    · exact within
  exact length.trans text

theorem addOffset_wrote {v : UInt64} (small : s.mPos.toNat < 2 ^ 62) (added : s.addOffset malloc v = some after) :
    Wrote s after ((Value.offset v).chunks s.mUse64) := by
  unfold OStream.addOffset at added
  cases use64 : s.mUse64 with
  | false =>
    rw [if_neg (by simp [use64])] at added
    exact addU32_wrote inside small added
  | true =>
    rw [if_pos use64, bytes_u64] at added
    have result : Wrote s after [number 8 v.toNat (by decide)] :=
      wrote_of_stored inside (toNat_align_eight small) (growFor_grown _ 8) added
        fun empty => absurd (congrArg List.length empty) (by simp [number])
    exact result

theorem add_wrote (begins : s.mPos.toNat < 2 ^ 62) (added : s.add malloc v = some after)
    (small : after.mPos.toNat < 2 ^ 62) : Wrote s after (v.chunks s.mUse64) := by
  cases v with
  | u8 v => exact addU8_wrote inside added
  | u16 v => exact addU16_wrote inside begins added
  | u32 v | f v => exact addU32_wrote inside begins added
  | i32 v => exact addI32_wrote inside begins added
  | string bytes => exact addString_wrote inside begins added small
  | byteArray bytes => exact addByteArray_wrote inside added small
  | offset v => exact addOffset_wrote inside begins added

omit inside

theorem addAll_cons (s : OStream) (v : Value) (rest : List Value) :
    s.addAll malloc (v :: rest) = (s.add malloc v).bind fun next => next.addAll malloc rest := rfl

def PositionsBelow (limit : Nat) (malloc : UInt64 → Nat → UInt8) (s : OStream)
    (values : List Value) : Prop :=
  ∀ front back, values = front ++ back → ∀ after, s.addAll malloc front = some after →
    after.mPos.toNat < limit

theorem PositionsBelow.start (small : PositionsBelow limit malloc s values) : s.mPos.toNat < limit := small [] values rfl s rfl

theorem PositionsBelow.last (small : PositionsBelow limit malloc s values) (added : s.addAll malloc values = some after) :
    after.mPos.toNat < limit :=
  small values [] (append_nil _).symm after added

theorem positionsBelow_nil (lt : s.mPos.toNat < limit) : PositionsBelow limit malloc s [] := by
  intro front back split after reached
  rw [(nil_eq_append_iff.mp split).1] at reached
  cases reached
  exact lt

theorem PositionsBelow.cons (lt : s.mPos.toNat < limit)
    (later : ∀ next, s.add malloc v = some next → PositionsBelow limit malloc next rest) :
    PositionsBelow limit malloc s (v :: rest) := by
  intro front back split after reached
  cases front with
  | nil =>
    cases reached
    exact lt
  | cons head front =>
    obtain ⟨rfl, restSplit⟩ := cons.inj split
    rw [addAll_cons, bind_eq_some_iff] at reached
    obtain ⟨next, first, others⟩ := reached
    exact later next first front back restSplit after others

theorem PositionsBelow.mono {further : Nat} (small : PositionsBelow limit malloc s values) (larger : limit ≤ further) :
    PositionsBelow further malloc s values :=
  fun front back split after reached => (small front back split after reached).trans_le larger

theorem positionsBelow_of_inits
    (small : ∀ front ∈ values.inits, (s.addAll malloc front).all fun after => after.mPos.toNat < limit) :
    PositionsBelow limit malloc s values := by
  intro front back split after reached
  have bounded := small front ((mem_inits _ _).mpr ⟨back, split.symm⟩)
  rw [reached] at bounded
  exact of_decide_eq_true bounded

theorem PositionsBelow.tail {next : OStream}
    (small : PositionsBelow limit malloc s (v :: rest)) (added : s.add malloc v = some next) :
    PositionsBelow limit malloc next rest := by
  intro front back split after reached
  apply small (v :: front) back (by simp [split]) after
  rw [addAll_cons, added]
  exact reached

theorem addAll_wrote (limited : limit ≤ 2 ^ 62) (inside : s.mPos.toNat ≤ s.mLength.toNat)
    (added : s.addAll malloc values = some after) (small : PositionsBelow limit malloc s values) :
    Wrote s after (values.flatMap (Value.chunks s.mUse64)) := by
  induction values generalizing s with
  | nil =>
    cases added
    exact ⟨rfl, inside, rfl, trivial, fun _ _ => rfl⟩
  | cons v rest ih =>
    rw [addAll_cons, bind_eq_some_iff] at added
    obtain ⟨next, first, others⟩ := added
    have later := small.tail first
    have wrote := add_wrote inside (small.start.trans_le limited) first (later.start.trans_le limited)
    have continued := ih wrote.inside others later
    rw [wrote.use64] at continued
    exact wrote.trans continued

end

def IStream.at (s : IStream) (position : Nat) : IStream := { s with mPos := .ofNat position }

theorem toNat_mPos_at (s : IStream) {position : Nat} (small : position < 2 ^ 62) : (s.at position).mPos.toNat = position := by
  rw [IStream.at, UInt64.toNat_ofNat', Nat.mod_eq_of_lt (by omega)]

def Reads {α : Type} (use64 : Bool) (load : Load α) (chunks : List Chunk) (value : α) : Prop :=
  ∀ s : IStream, s.mUse64 = use64 → s.mData.length < 2 ^ 62 →
    Placed s.look s.mPos.toNat chunks → finish s.mPos.toNat chunks ≤ s.mData.length →
    load.run s = some (value, s.at (finish s.mPos.toNat chunks))

section

variable {α β : Type} {use64 : Bool}

theorem reads_pure (value : α) : Reads use64 (pure value) [] value := by
  intro s _ _ _ _
  have here : s.at s.mPos.toNat = s := by
    simp [IStream.at]
  rw [finish, here]
  rfl

variable {load : Load α} {value : α}

theorem Reads.bind {next : α → Load β} {result : β} (first : Reads use64 load chunks value)
    (second : Reads use64 (next value) others result) :
    Reads use64 (load >>= next) (chunks ++ others) result := by
  intro s eq small placed inside
  rw [placed_append] at placed
  rw [finish_append] at inside ⊢
  have mid := (le_finish _ others).trans inside
  have pos := toNat_mPos_at s (mid.trans_lt small)
  have later := second (s.at (finish s.mPos.toNat chunks)) eq small
    (by rw [pos]; exact placed.2) (by rw [pos]; exact inside)
  rw [pos] at later
  rw [StateT.run_bind, first s eq small placed.1 mid]
  exact later

theorem Reads.map (reads : Reads use64 load chunks value) (f : α → β) : Reads use64 (f <$> load) chunks (f value) := by
  intro s eq small placed inside
  rw [StateT.run_map, reads s eq small placed inside]
  rfl

theorem reads_loadByteArray (bytes : List UInt8) : Reads use64 (IStream.loadByteArray bytes.length) [raw bytes] bytes := by
  intro s _ _ placed _
  have standing : At s.look s.mPos.toNat bytes := by
    have first := placed.1
    rwa [show (raw bytes).unit = 1 from rfl, alignUp_one] at first
  have ends : finish s.mPos.toNat [raw bytes] = s.mPos.toNat + bytes.length := by
    rw [finish, finish, show (raw bytes).unit = 1 from rfl, alignUp_one]
    rfl
  have pos : s.mPos + .ofNat bytes.length = UInt64.ofNat (s.mPos.toNat + bytes.length) := by
    simp
  rw [ends, IStream.at, ← pos]
  simp [IStream.loadByteArray, standing.readAt_eq]

theorem loadNumber_eq {size value : Nat} {positive : 0 < size} (fits : value < 256 ^ size)
    {s : IStream} (aligned : position.toNat = alignUp size s.mPos.toNat)
    (placed : Placed s.look s.mPos.toNat [number size value positive]) :
    (IStream.loadNumber size).run { s with mPos := position } =
      some (value, s.at (finish s.mPos.toNat [number size value positive])) := by
  have ends : finish s.mPos.toNat [number size value positive] = alignUp size s.mPos.toNat + size := by
    rw [finish, finish, number, length_encode]
  have standing : At s.look position.toNat (encode size value) := by
    rw [aligned]
    exact placed.1
  have found : readAt ({ s with mPos := position } : IStream).look position.toNat size = some (encode size value) := by
    have read := standing.readAt_eq
    rwa [length_encode] at read
  have after : position + .ofNat size = UInt64.ofNat (finish s.mPos.toNat [number size value positive]) := by
    simp [ends, ← aligned]
  rw [IStream.at, ← after]
  simp [IStream.loadNumber, IStream.loadByteArray, found, decode_encode fits]

theorem reads_aligned {size value : Nat} {positive : 0 < size} (fits : value < 256 ^ size)
    {low : UInt64} (aligns : ∀ position : UInt64, position.toNat < 2 ^ 62 →
      ((position + low) &&& ~~~low).toNat = alignUp size position.toNat) :
    Reads use64 (do
      modify fun s : IStream => { s with mPos := (s.mPos + low) &&& ~~~low }
      IStream.loadNumber size) [number size value positive] value := by
  intro s _ small placed inside
  have begins := ((le_finish _ _).trans inside).trans_lt small
  exact loadNumber_eq fits (aligns s.mPos begins) placed

theorem reads_loadU32 (v : UInt32) : Reads use64 IStream.loadU32 [number 4 v.toNat (by decide)] v := by
  have read := (@reads_aligned use64 4 _ (by decide) v.toNat_lt 3 fun _ => toNat_align_four).map UInt32.ofNat
  rw [UInt32.ofNat_toNat] at read
  exact read

theorem reads_loadI32 (v : Int32) : Reads use64 IStream.loadI32 [number 4 v.toBitVec.toNat (by decide)] v := by
  have read := (@reads_aligned use64 4 _ (by decide) v.toBitVec.isLt 3
    fun _ => toNat_align_four).map fun tmp => Int32.ofBitVec (.ofNat 32 tmp)
  rw [BitVec.ofNat_toNat, BitVec.setWidth_eq, Int32.ofBitVec_toBitVec] at read
  exact read

theorem reads_loadU16 (v : UInt16) : Reads use64 IStream.loadU16 [number 2 v.toNat (by decide)] v := by
  have read := (@reads_aligned use64 2 _ (by decide) v.toNat_lt 1 fun _ => toNat_align_two).map UInt16.ofNat
  rw [UInt16.ofNat_toNat] at read
  exact read

theorem reads_loadU8 (v : UInt8) : Reads use64 IStream.loadU8 [raw [v]] v := by
  have read := ((@reads_loadByteArray use64 [v]).map decode).map UInt8.ofNat
  rw [decode, decode, Nat.mul_zero, add_zero, UInt8.ofNat_toNat] at read
  exact read

theorem reads_loadString (small : bytes.length < 2 ^ 32) : Reads use64 IStream.loadString
      [number 4 (UInt32.ofNat bytes.length).toNat (by decide), raw bytes] bytes := by
  have length : (UInt32.ofNat bytes.length).toNat = bytes.length := by
    rw [UInt32.toNat_ofNat', Nat.mod_eq_of_lt small]
  have text : Reads use64 (IStream.loadByteArray (UInt32.ofNat bytes.length).toNat) [raw bytes]
      bytes := by
    rw [length]
    exact reads_loadByteArray bytes
  exact (reads_loadU32 (UInt32.ofNat bytes.length)).bind text

theorem reads_loadOffset {v : UInt64} (fits : use64 = false → v.toNat < 2 ^ 32) :
    Reads use64 IStream.loadOffset ((Value.offset v).chunks use64) v := by
  cases use64 with
  | true =>
    have read := (@reads_aligned true 8 _ (by decide) v.toNat_lt 7 fun _ => toNat_align_eight).map UInt64.ofNat
    rw [UInt64.ofNat_toNat] at read
    intro s eq small placed inside
    have branch : IStream.loadOffset.run s = (UInt64.ofNat <$> (do
        modify fun s : IStream => { s with mPos := (s.mPos + 7) &&& ~~~7 }
        IStream.loadNumber 8) : Load UInt64).run s := by
      simp [IStream.loadOffset, eq]
    rw [branch]
    exact read s eq small placed inside
  | false =>
    have read := (@reads_loadU32 false v.toUInt32).map UInt32.toUInt64
    have whole : v.toUInt32.toUInt64 = v := by
      rw [← UInt64.toNat_inj, UInt32.toNat_toUInt64, UInt64.toNat_toUInt32, Nat.mod_eq_of_lt (fits rfl)]
    rw [whole] at read
    intro s eq small placed inside
    have branch : IStream.loadOffset.run s = (UInt32.toUInt64 <$> IStream.loadU32).run s := by
      simp [IStream.loadOffset, eq]
    rw [branch]
    exact read s eq small placed inside

/-- What a value must satisfy to be read back: lengths of strings have 32 bits, and
so have offsets unless the stream has long ones. -/
def Value.Fits (use64 : Bool) : Value → Prop
  | .string bytes => bytes.length < 2 ^ 32
  | .offset v => use64 = false → v.toNat < 2 ^ 32
  | _ => True

theorem reads_load (fits : v.Fits use64) : Reads use64 (IStream.load v.kind) (v.chunks use64) v := by
  cases v with
  | u8 v => exact (reads_loadU8 v).map Value.u8
  | u16 v => exact (reads_loadU16 v).map Value.u16
  | u32 v => exact (reads_loadU32 v).map Value.u32
  | i32 v => exact (reads_loadI32 v).map Value.i32
  | f v => exact (reads_loadU32 v).map Value.f
  | string bytes => exact (reads_loadString fits).map Value.string
  | byteArray bytes => exact (reads_loadByteArray bytes).map Value.byteArray
  | offset v => exact (reads_loadOffset fits).map Value.offset

theorem reads_loadAll (fits : ∀ v ∈ values, v.Fits use64) :
    Reads use64 (IStream.loadAll (values.map Value.kind)) (values.flatMap (Value.chunks use64)) values := by
  induction values with
  | nil => exact reads_pure []
  | cons v rest ih =>
    obtain ⟨first, others⟩ := forall_mem_cons.mp fits
    rw [map_cons, flatMap_cons, IStream.loadAll, mapM_cons]
    apply (reads_load first).bind
    rw [← append_nil (rest.flatMap (Value.chunks use64))]
    exact (ih others).bind (reads_pure (v :: rest))

/-!
Loads inside a computation with a state of its own.
-/

variable {σ : Type}

theorem Reads.lift (reads : Reads use64 load chunks value) (state : σ) :
    Reads use64 ((liftM load : StateT σ Load α).run state) chunks (value, state) :=
  reads.map fun found => (found, state)

theorem Reads.step {first : StateT σ Load α} {next : α → StateT σ Load β} {value : α} {result : β} {state middle final : σ}
    (begins : Reads use64 (first.run state) chunks (value, middle))
    (continues : Reads use64 ((next value).run middle) others (result, final)) :
    Reads use64 ((first >>= next).run state) (chunks ++ others) (result, final) := by
  rw [StateT.run_bind]
  exact begins.bind continues

theorem reads_pure_run (value : α) (state : σ) : Reads use64 ((pure value : StateT σ Load α).run state) [] (value, state) :=
  reads_pure (value, state)

theorem reads_modifyGet (f : σ → α × σ) (state : σ) : Reads use64 ((modifyGet f : StateT σ Load α).run state) [] (f state) :=
  reads_pure (f state)

end

@[simp] theorem length_bytes (s : OStream) : s.bytes.length = s.mPos.toNat := by
  simp [OStream.bytes]

theorem getElem?_bytes (s : OStream) (lt : index < s.mPos.toNat) : s.bytes[index]? = some (s.mData index) := by
  simp [OStream.bytes, lt]

theorem Wrote.placed_bytes (wrote : Wrote before after chunks) (fresh : before.mPos = 0) (use64 : Bool) :
    Placed ({ mData := after.bytes, mUse64 := use64 } : IStream).look 0 chunks := by
  have placed := wrote.placed
  have position := wrote.position
  rw [fresh, UInt64.toNat_zero] at placed position
  apply placed.congr
  intro i _ lt
  exact (getElem?_bytes after (by omega)).symm

section

variable {malloc : UInt64 → Nat → UInt8}

theorem reads_front {α : Type} {length : UInt64} {use64 : Bool} {first rest : List Value} {after : OStream} {load : Load α}
    {value : α} (reads : Reads use64 load (first.flatMap (Value.chunks use64)) value)
    (added : (OStream.create malloc length use64).addAll malloc (first ++ rest) = some after)
    (small : PositionsBelow (2 ^ 62) malloc (OStream.create malloc length use64) (first ++ rest)) :
    load.run { mData := after.bytes, mUse64 := use64 } =
      some (value, { mData := after.bytes, mPos := .ofNat (finish 0 (first.flatMap (Value.chunks use64))),
                     mUse64 := use64 }) := by
  have wrote := addAll_wrote (le_refl _) (Nat.zero_le _) added small
  have placed := wrote.placed_bytes rfl use64
  have position : after.mPos.toNat = finish 0 ((first ++ rest).flatMap (Value.chunks use64)) := wrote.position
  have ends := small.last added
  have size := length_bytes after
  have use : (OStream.create malloc length use64).mUse64 = use64 := rfl
  rw [use, flatMap_append] at placed
  rw [flatMap_append, finish_append] at position
  have before := le_finish (finish 0 (first.flatMap (Value.chunks use64))) (rest.flatMap (Value.chunks use64))
  have read := reads { mData := after.bytes, mUse64 := use64 } rfl (by dsimp only; omega)
    (placed_append.mp placed).1 (by rw [UInt64.toNat_zero, size]; omega)
  exact read

/-- What reads the chunks of the values reads the bytes that the calls wrote, and ends
where the calls ended. -/
theorem Reads.of_written {α : Type} {length : UInt64} {use64 : Bool} {load : Load α} {value : α}
    (reads : Reads use64 load (values.flatMap (Value.chunks use64)) value)
    (added : (OStream.create malloc length use64).addAll malloc values = some after)
    (small : PositionsBelow (2 ^ 62) malloc (OStream.create malloc length use64) values) :
    load.run { mData := after.bytes, mUse64 := use64 } =
      some (value, { mData := after.bytes, mPos := after.mPos, mUse64 := use64 }) := by
  have position : after.mPos.toNat = finish 0 (values.flatMap (Value.chunks use64)) :=
    (addAll_wrote (le_refl _) (Nat.zero_le _) added small).position
  rw [← append_nil values] at added small
  simp [reads_front reads added small, ← position]

/-- A sequence of calls is read back by the matching loads, which end where the
calls ended. Offsets must fit 32 bits unless the stream has 64-bit offsets. -/
theorem loadAll_addAll {length : UInt64} {use64 : Bool} {values : List Value} {after : OStream}
    (added : (OStream.create malloc length use64).addAll malloc values = some after)
    (small : PositionsBelow (2 ^ 32) malloc (OStream.create malloc length use64) values)
    (fits : ∀ v, Value.offset v ∈ values → use64 = false → v.toNat < 2 ^ 32) :
    (IStream.loadAll (values.map Value.kind)).run { mData := after.bytes, mUse64 := use64 } =
      some (values, { mData := after.bytes, mPos := after.mPos, mUse64 := use64 }) := by
  have wrote := addAll_wrote (by decide) (Nat.zero_le _) added small
  have position := wrote.position
  have ends := small.last added
  have allFit : ∀ v ∈ values, v.Fits use64 := by
    intro v mem
    cases v with
    | string bytes =>
      have chunk : raw bytes ∈ values.flatMap (Value.chunks use64) := mem_flatMap.mpr ⟨_, mem, by simp [Value.chunks]⟩
      have length := length_le_finish chunk 0
      exact (length.trans_eq position.symm).trans_lt ends
    | offset v => exact fits v mem
    | _ => trivial
  exact (reads_loadAll allFit).of_written added (small.mono (by decide))

end

private def dirtyBlock (_ : UInt64) (_ : Nat) : UInt8 := 0xcd

private def sampleValues : List Value :=
  [.u8 1, .string [114, 115], .offset 0x100000002, .u16 3, .i32 (-4), .byteArray [5, 6, 7], .f 8]

/-- All kinds of values through a buffer that grows twice, with 64-bit offsets. -/
theorem loadAll_addAll_sample : ∃ after, (OStream.create dirtyBlock 16 true).addAll dirtyBlock sampleValues = some after ∧
      (IStream.loadAll (sampleValues.map Value.kind)).run { mData := after.bytes, mUse64 := true } =
        some (sampleValues, { mData := after.bytes, mPos := after.mPos, mUse64 := true }) := by
  have some : ((OStream.create dirtyBlock 16 true).addAll dirtyBlock sampleValues).isSome := by
    decide +kernel
  obtain ⟨after, added⟩ := isSome_iff_exists.mp some
  refine ⟨after, added, loadAll_addAll added (positionsBelow_of_inits (by decide +kernel)) ?_⟩
  intro v _ narrow
  cases narrow

/-- An offset of more than 32 bits is cut off in a stream with 32-bit offsets. -/
theorem loadAll_addAll_long_offset :
    ∃ after, (OStream.create dirtyBlock 16 false).addAll dirtyBlock [.offset 0x100000000] = some after ∧
      PositionsBelow (2 ^ 32) dirtyBlock (OStream.create dirtyBlock 16 false) [.offset 0x100000000] ∧
      (IStream.loadAll [.offset]).run { mData := after.bytes, mUse64 := false } =
        some ([.offset 0], { mData := after.bytes, mPos := after.mPos, mUse64 := false }) := by
  have written : ((OStream.create dirtyBlock 16 false).addAll dirtyBlock
      [.offset 0x100000000]).map (fun after => (after.bytes, after.mPos)) = some ([0, 0, 0, 0], 4) := by decide +kernel
  obtain ⟨after, added, contents⟩ := map_eq_some_iff.mp written
  obtain ⟨bytes, pos⟩ := Prod.mk.inj contents
  refine ⟨after, added, positionsBelow_of_inits (by decide +kernel), ?_⟩
  rw [bytes, pos]
  decide +kernel

end RenderScript.Stream
