import RenderScript.Stream.StreamProperties

/-!
# Room in streams

When the calls of an `OStream` stay inside its buffer. A number needs at most one
doubling and a byte array gets as many as it needs, but a string gets only one.
-/

namespace RenderScript.Stream
open AlignedBytes List Option

variable {s after : OStream} {size : UInt64} {bytes : List UInt8} {v : Value} {values : List Value}

section

variable {malloc : UInt64 → Nat → UInt8}

structure Ample (s : OStream) : Prop where
  length : 16 ≤ s.mLength.toNat
  inside : s.mPos.toNat ≤ s.mLength.toNat

theorem storeAll_growFor_iff (length : bytes.length = size.toNat) (small : s.mPos.toNat + size.toNat < 2 ^ 63) :
    ((s.growFor malloc size).storeAll bytes).isSome ↔ bytes = [] ∨ s.mPos.toNat + bytes.length ≤ 2 * s.mLength.toNat := by
  have sum : (s.mPos + size).toNat = s.mPos.toNat + size.toNat := by
    rw [UInt64.toNat_add, Nat.mod_eq_of_lt (by omega)]
  rw [storeAll_isSome_iff, OStream.growFor]
  apply or_congr_right
  split
  · rename_i tight
    rw [ge_iff_le, UInt64.le_iff_toNat_le, sum] at tight
    rw [toNat_mLength_growSize (by omega), mul_comm]
    rfl
  · rename_i loose
    rw [ge_iff_le, UInt64.le_iff_toNat_le, sum] at loose
    omega

theorem le_mLength_growFor {s : OStream} {size : UInt64} (small : s.mPos.toNat + size.toNat < 2 ^ 63) :
    s.mLength.toNat ≤ (s.growFor malloc size).mLength.toNat := by
  rw [OStream.growFor]
  split
  · rename_i tight
    rw [ge_iff_le, UInt64.le_iff_toNat_le, UInt64.toNat_add, Nat.mod_eq_of_lt (by omega)] at tight
    rw [toNat_mLength_growSize (by omega)]
    omega
  · exact le_refl _

theorem ample_of_stored (small : s.mPos.toNat + size.toNat < 2 ^ 63) (length : 16 ≤ s.mLength.toNat) (ne : bytes ≠ [])
    (stored : (s.growFor malloc size).storeAll bytes = some after) : Ample after := by
  have result := storeAll_stored stored
  have grown := @le_mLength_growFor malloc s _ small
  have some : ((s.growFor malloc size).storeAll bytes).isSome := by rw [stored]; rfl
  rcases (storeAll_isSome_iff _ _).mp some with empty | room
  · exact absurd empty ne
  · refine ⟨?_, ?_⟩
    · rw [result.length]
      exact length.trans grown
    · rw [result.position, result.length]
      exact room

/-- A number of `size` bytes always finds room. -/
theorem number_added {s aligned : OStream} (ample : Ample s) (small : s.mPos.toNat < 2 ^ 62)
    (length : aligned.mLength = s.mLength) {size : UInt64} {bytes : List UInt8} (bytesLength : bytes.length = size.toNat)
    (pos : 0 < size.toNat) (word : size.toNat ≤ 8) (place : aligned.mPos.toNat = alignUp size.toNat s.mPos.toNat) :
    ∃ after, (aligned.growFor malloc size).storeAll bytes = some after ∧ Ample after := by
  have room := ample.inside
  have large := ample.length
  have close := alignUp_lt pos s.mPos.toNat
  rw [← length] at room large
  have fits : aligned.mPos.toNat + size.toNat < 2 ^ 63 := by omega
  have ne : bytes ≠ [] := by
    rintro rfl
    rw [length_nil] at bytesLength
    omega
  have some : ((aligned.growFor malloc size).storeAll bytes).isSome := by
    rw [storeAll_growFor_iff bytesLength fits]
    right
    omega
  obtain ⟨after, stored⟩ := isSome_iff_exists.mp some
  exact ⟨after, stored, ample_of_stored fits large ne stored⟩

theorem addU32_added (ample : Ample s) (small : s.mPos.toNat < 2 ^ 62) (v : UInt32) :
    ∃ after, s.addU32 malloc v = some after ∧ Ample after :=
  @number_added _ s { s with mPos := (s.mPos + 3) &&& ~~~3 } ample small rfl 4 _ rfl
    (by decide) (by decide) (toNat_align_four small)

/-- `addByteArray` grows until there is room. -/
theorem growUntil_added {numBytes : UInt64} {fuel : Nat} {s : OStream} (small : s.mPos.toNat + numBytes.toNat < 2 ^ 63)
    (enough : s.mPos.toNat + numBytes.toNat < 2 ^ fuel * s.mLength.toNat) :
    ∃ after, OStream.growUntil malloc numBytes fuel s = some after ∧ s.mPos.toNat + numBytes.toNat < after.mLength.toNat ∧
      s.mLength.toNat ≤ after.mLength.toNat := by
  have sum : ∀ s : OStream, s.mPos.toNat + numBytes.toNat < 2 ^ 63 →
      (s.mPos + numBytes ≥ s.mLength ↔ s.mLength.toNat ≤ s.mPos.toNat + numBytes.toNat) := by
    intro s small
    rw [ge_iff_le, UInt64.le_iff_toNat_le, UInt64.toNat_add, Nat.mod_eq_of_lt (by omega)]
  induction fuel generalizing s with
  | zero =>
    have fits : ¬ s.mPos + numBytes ≥ s.mLength := by
      rw [sum s small]
      omega
    rw [OStream.growUntil, if_neg fits]
    exact ⟨s, rfl, by omega, le_refl _⟩
  | succ fuel ih =>
    rw [OStream.growUntil]
    split
    · rename_i tight
      rw [sum s small] at tight
      have doubled : (s.growSize malloc).mLength.toNat = s.mLength.toNat * 2 := toNat_mLength_growSize (by omega)
      have more : s.mPos.toNat + numBytes.toNat < 2 ^ fuel * (s.growSize malloc).mLength.toNat := by
        rw [doubled, mul_comm s.mLength.toNat, ← mul_assoc, ← pow_succ]
        exact enough
      obtain ⟨after, grew, room, larger⟩ := @ih (s.growSize malloc) small more
      exact ⟨after, grew, room, by omega⟩
    · rename_i loose
      rw [sum s small] at loose
      exact ⟨s, rfl, by omega, le_refl _⟩

theorem addByteArray_added {s : OStream} (ample : Ample s) {src : List UInt8} (small : s.mPos.toNat + src.length < 2 ^ 63) :
    ∃ after, s.addByteArray malloc src = some after ∧ Ample after := by
  have length : (UInt64.ofNat src.length).toNat = src.length := by
    rw [UInt64.toNat_ofNat', Nat.mod_eq_of_lt (by omega)]
  have large := ample.length
  obtain ⟨grown, grew, room, larger⟩ := @growUntil_added _ (.ofNat src.length) 64 s (by omega) (by omega)
  have position := growUntil_mPos grew
  have some : (grown.storeAll src).isSome := by
    rw [storeAll_isSome_iff, position]
    right
    omega
  obtain ⟨after, stored⟩ := isSome_iff_exists.mp some
  have result := storeAll_stored stored
  refine ⟨after, ?_, ?_, ?_⟩
  · rw [OStream.addByteArray, grew]
    exact stored
  · rw [result.length]
    omega
  · rw [result.position, result.length, position]
    omega

/-- A string is not longer than what is left behind its length when the buffer is doubled once. -/
def OStream.HasRoom (s : OStream) : Value → Prop
  | .string bytes =>
    let text := alignUp 4 s.mPos.toNat + 4
    let length := if s.mLength.toNat ≤ text then s.mLength.toNat * 2 else s.mLength.toNat
    bytes = [] ∨ text + bytes.length ≤ 2 * length
  | _ => True

instance (s : OStream) : ∀ v, Decidable (s.HasRoom v)
  | .string _ => inferInstanceAs (Decidable (_ ∨ _))
  | .u8 _ | .u16 _ | .u32 _ | .i32 _ | .f _ | .byteArray _ | .offset _ => inferInstanceAs (Decidable True)

def OStream.HasRoomAll (malloc : UInt64 → Nat → UInt8) : OStream → List Value → Prop
  | _, [] => True
  | s, v :: rest => s.HasRoom v ∧ ∀ next ∈ s.add malloc v, OStream.HasRoomAll malloc next rest

instance OStream.decidableHasRoomAll : ∀ (values : List Value) (s : OStream),
    Decidable (s.HasRoomAll malloc values)
  | [], _ => inferInstanceAs (Decidable True)
  | v :: rest, s =>
    have (next : OStream) : Decidable (next.HasRoomAll malloc rest) := decidableHasRoomAll rest next
    inferInstanceAs (Decidable (s.HasRoom v ∧ ∀ next ∈ s.add malloc v, next.HasRoomAll malloc rest))

theorem OStream.HasRoomAll.behind {s next : OStream} {front back : List Value} (room : s.HasRoomAll malloc (front ++ back))
    (added : s.addAll malloc front = some next) :
    next.HasRoomAll malloc back := by
  induction front generalizing s with
  | nil =>
    cases added
    exact room
  | cons v rest ih =>
    obtain ⟨mid, first, others⟩ := bind_eq_some_iff.mp added
    exact ih (room.2 mid first) others

theorem addU32_length {v : UInt32} (small : s.mPos.toNat < 2 ^ 62) (added : s.addU32 malloc v = some after) :
    after.mLength.toNat = if s.mLength.toNat ≤ alignUp 4 s.mPos.toNat + 4 then s.mLength.toNat * 2 else s.mLength.toNat := by
  have result := storeAll_stored added
  have close := alignUp_lt (by decide : 0 < 4) s.mPos.toNat
  have sum : (((s.mPos + 3) &&& ~~~3) + 4).toNat = alignUp 4 s.mPos.toNat + 4 := by
    rw [UInt64.toNat_add, toNat_align_four small, Nat.mod_eq_of_lt]
    · rfl
    · simp only [UInt64.reduceToNat]
      omega
  rw [result.length, OStream.growFor]
  dsimp only
  split
  · rename_i tight
    rw [ge_iff_le, UInt64.le_iff_toNat_le, sum] at tight
    rw [if_pos tight]
    exact toNat_mLength_growSize (by dsimp only; omega)
  · rename_i loose
    rw [ge_iff_le, UInt64.le_iff_toNat_le, sum] at loose
    simp [loose]

theorem addString_isSome_iff (ample : Ample s) (small : s.mPos.toNat + bytes.length < 2 ^ 62) :
    (s.addString malloc bytes).isSome ↔ s.HasRoom (.string bytes) := by
  obtain ⟨mid, length, _⟩ := addU32_added ample (by omega) (.ofNat bytes.length)
  have position : mid.mPos.toNat = alignUp 4 s.mPos.toNat + 4 := (addU32_wrote ample.inside (by omega) length).position
  have close := alignUp_lt (by decide : 0 < 4) s.mPos.toNat
  have count : (UInt64.ofNat bytes.length).toNat = bytes.length := by
    rw [UInt64.toNat_ofNat', Nat.mod_eq_of_lt (by omega)]
  rw [OStream.addString, length, OStream.HasRoom, ← addU32_length (by omega) length, ← position]
  exact storeAll_growFor_iff count.symm (by omega)

theorem add_position (inside : s.mPos.toNat ≤ s.mLength.toNat)
    (small : s.mPos.toNat < 2 ^ 62) (added : s.add malloc v = some after) :
    after.mPos.toNat = finish s.mPos.toNat (v.chunks s.mUse64) := by
  have text (bytes : List UInt8) (position : Nat) : finish position [raw bytes] = position + bytes.length :=
    congrArg (· + bytes.length) (alignUp_one position)
  cases v with
  | string bytes =>
    obtain ⟨mid, length, stored⟩ := bind_eq_some_iff.mp added
    have wrote := addU32_wrote inside small length
    have reached := (storeAll_stored stored).position
    rw [(growFor_grown mid _).position, wrote.position] at reached
    rw [reached, ← text]
    rfl
  | byteArray bytes =>
    obtain ⟨grown, grew, stored⟩ := bind_eq_some_iff.mp added
    have reached := (storeAll_stored stored).position
    rw [growUntil_mPos grew] at reached
    rw [reached, ← text]
    rfl
  | u8 v => exact (addU8_wrote inside added).position
  | u16 v => exact (addU16_wrote inside small added).position
  | u32 v | f v => exact (addU32_wrote inside small added).position
  | i32 v => exact (addI32_wrote inside small added).position
  | offset v => exact (addOffset_wrote inside small added).position

theorem addString_added (ample : Ample s) (small : s.mPos.toNat + bytes.length < 2 ^ 62) (room : s.HasRoom (.string bytes)) :
    ∃ after, s.addString malloc bytes = some after ∧ Ample after := by
  obtain ⟨mid, length, enough⟩ := addU32_added ample (by omega) (.ofNat bytes.length)
  obtain ⟨after, added⟩ := isSome_iff_exists.mp ((addString_isSome_iff ample small).mpr room)
  refine ⟨after, added, ?_⟩
  have count : (UInt64.ofNat bytes.length).toNat = bytes.length := by
    rw [UInt64.toNat_ofNat', Nat.mod_eq_of_lt (by omega)]
  have position : mid.mPos.toNat = alignUp 4 s.mPos.toNat + 4 := (addU32_wrote ample.inside (by omega) length).position
  have close := alignUp_lt (by decide : 0 < 4) s.mPos.toNat
  rw [OStream.addString, length] at added
  cases bytes with
  | nil =>
    cases added
    have grown := @le_mLength_growFor malloc mid 0 (by simp only [UInt64.toNat_zero]; omega)
    refine ⟨enough.length.trans grown, ?_⟩
    rw [(growFor_grown mid _).position]
    exact enough.inside.trans grown
  | cons byte rest =>
    exact ample_of_stored (by omega) enough.length (cons_ne_nil _ _) added

theorem text_lt {position : Nat} {use64 : Bool} {v : Value} (text : v = .string bytes ∨ v = .byteArray bytes)
    (small : finish position (v.chunks use64) < 2 ^ 62) : position + bytes.length < 2 ^ 62 := by
  have long := (total_le_finish position _).trans_lt small
  rcases text with rfl | rfl
  · rw [show total ((Value.string bytes).chunks use64) = 4 + (bytes.length + 0) from rfl] at long
    omega
  · exact long

theorem add_added {s : OStream} (ample : Ample s) {v : Value} (small : finish s.mPos.toNat (v.chunks s.mUse64) < 2 ^ 62)
    (room : s.HasRoom v) :
    ∃ after, s.add malloc v = some after ∧ Ample after := by
  have begins := (le_finish _ _).trans_lt small
  cases v with
  | string bytes => exact addString_added ample (text_lt (.inl rfl) small) room
  | byteArray bytes => exact addByteArray_added ample ((text_lt (.inr rfl) small).trans (by decide))
  | u8 v =>
    exact number_added ample begins rfl rfl (by decide) (by decide) (alignUp_one _).symm
  | u16 v =>
    exact @number_added _ s { s with mPos := (s.mPos + 1) &&& ~~~1 } ample begins rfl 2 _ rfl
      (by decide) (by decide) (toNat_align_two begins)
  | i32 v =>
    exact @number_added _ s { s with mPos := (s.mPos + 3) &&& ~~~3 } ample begins rfl 4 _ rfl
      (by decide) (by decide) (toNat_align_four begins)
  | u32 v | f v => exact addU32_added ample begins v
  | offset v =>
    rw [OStream.add, OStream.addOffset]
    split
    · exact @number_added _ s { s with mPos := (s.mPos + 7) &&& ~~~7 } ample begins rfl 8 _ rfl
        (by decide) (by decide) (toNat_align_eight begins)
    · exact addU32_added ample begins _

theorem add_isSome_iff {s : OStream} (ample : Ample s) {v : Value} (small : finish s.mPos.toNat (v.chunks s.mUse64) < 2 ^ 62) :
    (s.add malloc v).isSome ↔ s.HasRoom v := by
  constructor
  · intro succeeded
    cases v with
    | string bytes => exact (addString_isSome_iff ample (text_lt (.inl rfl) small)).mp succeeded
    | _ => trivial
  · intro room
    obtain ⟨after, added, _⟩ := add_added ample small room
    rw [added]
    rfl

theorem add_ample (ample : Ample s)
    (small : finish s.mPos.toNat (v.chunks s.mUse64) < 2 ^ 62) (added : s.add malloc v = some after) :
    Ample after := by
  have succeeded := isSome_of_eq_some added
  obtain ⟨result, eq, enough⟩ := add_added ample small ((add_isSome_iff ample small).mp succeeded)
  cases eq.symm.trans added
  exact enough

theorem finish_cons {next : OStream} (ample : Ample s) {rest : List Value} {limit : Nat} (limited : limit ≤ 2 ^ 62)
    (small : finish s.mPos.toNat ((v :: rest).flatMap (Value.chunks s.mUse64)) < limit) (added : s.add malloc v = some next) :
    next.mUse64 = s.mUse64 ∧ finish next.mPos.toNat (rest.flatMap (Value.chunks next.mUse64)) < limit := by
  rw [flatMap_cons, finish_append] at small
  have first := (le_finish _ _).trans_lt small
  have begins := ((le_finish _ _).trans_lt first).trans_le limited
  have pos := add_position ample.inside begins added
  have use64 := (add_wrote ample.inside begins added (by omega)).use64
  rw [use64, pos]
  exact ⟨rfl, small⟩

theorem positionsBelow_of_finish {limit : Nat} (limited : limit ≤ 2 ^ 62) {s : OStream} (ample : Ample s) {values : List Value}
    (small : finish s.mPos.toNat (values.flatMap (Value.chunks s.mUse64)) < limit) :
    PositionsBelow limit malloc s values := by
  induction values generalizing s with
  | nil => exact positionsBelow_nil small
  | cons v rest ih =>
    refine .cons ((le_finish _ _).trans_lt small) fun next added => ?_
    have first : finish s.mPos.toNat (v.chunks s.mUse64) < 2 ^ 62 := by
      rw [flatMap_cons, finish_append] at small
      exact ((le_finish _ _).trans_lt small).trans_le limited
    exact ih (add_ample ample first added) (finish_cons ample limited small added).2

theorem addAll_isSome_iff (ample : Ample s) (small : finish s.mPos.toNat (values.flatMap (Value.chunks s.mUse64)) < 2 ^ 62) :
    (s.addAll malloc values).isSome ↔ s.HasRoomAll malloc values := by
  induction values generalizing s with
  | nil => exact ⟨fun _ => trivial, fun _ => rfl⟩
  | cons v rest ih =>
    have first : finish s.mPos.toNat (v.chunks s.mUse64) < 2 ^ 62 := by
      rw [flatMap_cons, finish_append] at small
      exact (le_finish _ _).trans_lt small
    rw [addAll_cons, OStream.HasRoomAll, ← add_isSome_iff ample first]
    cases added : s.add malloc v with
    | none => exact ⟨nofun, fun both => nomatch both.1⟩
    | some next =>
      have later := ih (add_ample ample first added) (finish_cons ample le_rfl small added).2
      simp [later]

theorem addAll_ample (ample : Ample s) (small : finish s.mPos.toNat (values.flatMap (Value.chunks s.mUse64)) < 2 ^ 62)
    (added : s.addAll malloc values = some after) : Ample after := by
  induction values generalizing s with
  | nil =>
    cases added
    exact ample
  | cons v rest ih =>
    obtain ⟨next, first, others⟩ := bind_eq_some_iff.mp added
    have firstSmall : finish s.mPos.toNat (v.chunks s.mUse64) < 2 ^ 62 := by
      rw [flatMap_cons, finish_append] at small
      exact (le_finish _ _).trans_lt small
    exact ih (add_ample ample firstSmall first) (finish_cons ample le_rfl small first).2 others

def gap (unit : Nat) (positive : 0 < unit) : Chunk where
  unit := unit
  bytes := []
  positive := positive

theorem toNat_align_mask {position : UInt64} (small : alignUp 4 position.toNat < 2 ^ 32) :
    ((position + ((4 : UInt32) - 1).toUInt64) &&& (~~~((4 : UInt32) - 1)).toUInt64).toNat = alignUp 4 position.toNat := by
  have sum : position.toNat + 3 < 2 ^ 32 := by
    rw [alignUp] at small
    omega
  have mask : (~~~((4 : UInt32) - 1)).toUInt64.toNat = 2 ^ 32 - 2 ^ 2 := by decide
  have low : ((4 : UInt32) - 1).toUInt64.toNat = 3 := by decide
  have whole : (position + ((4 : UInt32) - 1).toUInt64).toNat = position.toNat + 3 := by
    rw [UInt64.toNat_add, low, Nat.mod_eq_of_lt (by omega)]
  rw [UInt64.toNat_and, mask, and_mask (by decide), whole, Nat.mod_eq_of_lt sum]
  rfl

theorem align_four_wrote {s : OStream} (ample : Ample s) (small : alignUp 4 s.mPos.toNat < 2 ^ 32) :
    Wrote s (s.align malloc 4) [gap 4 (by decide)] ∧ Ample (s.align malloc 4) := by
  have pos := toNat_align_mask small
  have close := alignUp_lt (by decide : 0 < 4) s.mPos.toNat
  have large := ample.length
  have inside := ample.inside
  rw [OStream.align]
  dsimp only
  split
  · rename_i tight
    rw [ge_iff_le, UInt64.le_iff_toNat_le, pos] at tight
    have doubled := @toNat_mLength_growSize malloc s (by omega)
    have room : alignUp 4 s.mPos.toNat ≤ s.mLength.toNat * 2 := by omega
    rw [← doubled, ← pos] at room
    refine ⟨wrote_of_stored inside pos (growSize_grown _) rfl fun _ => room, ?_, room⟩
    exact large.trans (Nat.le_mul_of_pos_right _ (by decide) |>.trans doubled.ge)
  · rename_i loose
    rw [ge_iff_le, UInt64.le_iff_toNat_le, not_le] at loose
    refine ⟨wrote_of_stored inside pos ⟨rfl, rfl, fun _ _ _ => rfl⟩ rfl fun _ => loose.le, ?_, loose.le⟩
    exact large

end

end RenderScript.Stream
