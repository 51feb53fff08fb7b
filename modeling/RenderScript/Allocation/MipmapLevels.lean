import RenderScript.Allocation.Mipmaps

/-!
# Passes over the levels of a texture

Where the texels of a level are, which bytes a pass writes, and what the passes of all levels and
faces leave.
-/

namespace RenderScript.Copies
open AlignedBytes ByteMemory LineCopies Stacking Sweeps Elements RenderScript.Types Allocations

variable {x y s location : Nat}

structure Texture (t : RsType) : Prop where
  plain : Plain t
  flat : t.dimZ = 0
  wide : 0 < t.dimX.toNat
  tall : 0 < t.dimY.toNat
  bits : t.mElement.getSizeBits = 8 ∨ t.mElement.getSizeBits = 16 ∨ t.mElement.getSizeBits = 32

def widthOf (t : RsType) (lod : Nat) : Nat := (tableLevel t lod).x.toNat

def heightOf (t : RsType) (lod : Nat) : Nat := (tableLevel t lod).y.toNat

def levelStart (t : RsType) (face lod : Nat) : Nat :=
  face * offset (tableSize t) t.mLodCount.toNat + offset (tableSize t) lod

def texelAt (t : RsType) (face lod x y : Nat) : Nat :=
  levelStart t face lod + y * tableStride t lod + x * t.mElement.getSizeBytes

section

variable {t : RsType}

theorem Texture.size (texture : Texture t) : 8 * t.mElement.getSizeBytes = t.mElement.getSizeBits ∧ 0 < t.mElement.getSizeBytes ∧
      t.mElement.getSizeBytes ≤ 4 := by
  rw [Element.getSizeBytes, Nat.shiftRight_eq_div_pow]
  rcases texture.bits with one | two | four
  · rw [one]
    decide
  · rw [two]
    decide
  · rw [four]
    decide

theorem Texture.word_lt (texture : Texture t) (memory : Memory) (ptr : Nat) :
    wordAt memory t.mElement.getSizeBytes ptr < 2 ^ t.mElement.getSizeBits := by
  rw [← texture.size.1, pow_mul]
  exact wordAt_lt

theorem lt_two_pow_of_log2 {n k : Nat} (few : n.log2 < k) : n < 2 ^ k :=
  Nat.lt_log2_self.trans_le (Nat.pow_le_pow_right two_pos few)

theorem Texture.dims_lt (texture : Texture t) (room : t.mLodCount.toNat ≤ MAX_LOD)
    (several : 2 ≤ t.mLodCount.toNat) : t.dimX.toNat < 2 ^ 16 ∧ t.dimY.toNat < 2 ^ 16 := by
  have count := texture.plain.mLodCount
  have most : t.mLodCount.toNat ≤ 16 := room
  split at count
  · have deep : depth (firstLevel t) < 16 := by omega
    rw [depth] at deep
    exact ⟨lt_two_pow_of_log2 (by change (firstLevel t).x.toNat.log2 < 16; omega),
      lt_two_pow_of_log2 (by change (firstLevel t).y.toNat.log2 < 16; omega)⟩
  · omega

theorem texel_in_pass {lod : Nat} (inX : x < widthOf t (lod + 1)) (inY : y < heightOf t (lod + 1)) :
    y * widthOf t (lod + 1) + x < heightOf t (lod + 1) * widthOf t (lod + 1) := by
  have rows : (y + 1) * widthOf t (lod + 1) ≤ heightOf t (lod + 1) * widthOf t (lod + 1) := Nat.mul_le_mul_right _ inY
  rw [Nat.succ_mul] at rows
  omega

variable (texture : Texture t)

theorem Texture.widthOf_pos (texture : Texture t) (lod : Nat) : 0 < widthOf t lod :=
  @one_le_iterate (firstLevel t) texture.wide _

theorem Texture.heightOf_pos (texture : Texture t) (lod : Nat) : 0 < heightOf t lod := by
  apply pos_of_ne_zero
  intro zero
  exact texture.tall.ne' ((within_tableLevel t lod).zeroY.mp zero)

theorem Texture.depthOf (texture : Texture t) (lod : Nat) : (tableLevel t lod).z.toNat = 0 := by
  have within := (within_tableLevel t lod).z
  have flat : (firstLevel t).z.toNat = 0 := congrArg UInt32.toNat texture.flat
  omega

theorem Texture.tableSize_eq (texture : Texture t) (lod : Nat) : tableSize t lod = heightOf t lod * tableStride t lod := by
  have rows : rowsOf (tableLevel t lod) = heightOf t lod := by
    rw [rowsOf, texture.depthOf, Nat.mul_comm, Nat.max_eq_right (Nat.zero_le 1), Nat.one_mul]
    exact Nat.max_eq_left (texture.heightOf_pos lod)
  rw [RenderScript.Allocations.tableSize_eq, rows, offset_const]

theorem levelStart_succ (t : RsType) (face lod : Nat) :
    levelStart t face (lod + 1) = levelStart t face lod + tableSize t lod := by
  rw [levelStart, levelStart, offset_succ, add_assoc]

theorem levelStart_mono {face lod other : Nat} (later : lod ≤ other) :
    levelStart t face lod ≤ levelStart t face other := Nat.add_le_add_left (offset_mono later) _

theorem levelStart_end (t : RsType) (face : Nat) : levelStart t face t.mLodCount.toNat = levelStart t (face + 1) 0 := by
  rw [levelStart, levelStart, offset_zero, Nat.succ_mul, add_zero]

theorem levelStart_face_mono {face other : Nat} (later : face ≤ other) : levelStart t face 0 ≤ levelStart t other 0 := by
  exact Nat.add_le_add_right (Nat.mul_le_mul_right _ later) _

theorem allocSize_levelStart (plain : Plain t) : (allocationBuildPointerTable t).allocSize = levelStart t (faceTotal t) 0 := by
  rw [plain.allocSize_eq, offset_const, levelStart, offset_zero, add_zero]

/-!
### Addresses
-/

section

variable (room : t.mLodCount.toNat ≤ MAX_LOD) (several : 2 ≤ t.mLodCount.toNat)

include texture room several

theorem Texture.widthOf_lt (lod : Nat) : widthOf t lod < 2 ^ 16 :=
  (within_tableLevel t lod).x.trans_lt (texture.dims_lt room several).1

theorem Texture.heightOf_lt (lod : Nat) : heightOf t lod < 2 ^ 16 :=
  (within_tableLevel t lod).y.trans_lt (texture.dims_lt room several).2

theorem Texture.stride_eq (lod : Nat) : tableStride t lod = alignUp 16 (widthOf t lod * t.mElement.getSizeBytes) := by
  have narrow := texture.widthOf_lt room several lod
  have small := texture.size.2.2
  have bytes := Nat.mul_le_mul narrow.le small
  exact rsRound_eq (by change widthOf t lod * t.mElement.getSizeBytes + 15 < 2 ^ 32; omega)

theorem Texture.row_le_stride (lod : Nat) : widthOf t lod * t.mElement.getSizeBytes ≤ tableStride t lod := by
  rw [texture.stride_eq room several]
  exact le_alignUp (by decide) _

omit room several in
theorem Texture.dimX_eq {lod : Nat} (lt : lod < t.mLodCount.toNat) :
    ((allocationBuildPointerTable t).lod lod).dimX.toNat = widthOf t lod := by
  rw [texture.plain.table_lod lt]
  rfl

omit room several in
theorem Texture.dimY_eq {lod : Nat} (lt : lod < t.mLodCount.toNat) :
    ((allocationBuildPointerTable t).lod lod).dimY.toNat = heightOf t lod := by
  rw [texture.plain.table_lod lt]
  rfl

theorem Texture.texelAt_end {face lod x y : Nat} (inX : x < widthOf t lod) (inY : y < heightOf t lod) :
    texelAt t face lod x y + t.mElement.getSizeBytes ≤ levelStart t face (lod + 1) := by
  have cols : (x + 1) * t.mElement.getSizeBytes ≤ widthOf t lod * t.mElement.getSizeBytes := Nat.mul_le_mul_right _ inX
  have rows : (y + 1) * tableStride t lod ≤ heightOf t lod * tableStride t lod := Nat.mul_le_mul_right _ inY
  have width := texture.row_le_stride room several lod
  rw [Nat.succ_mul] at cols rows
  rw [texelAt, levelStart_succ, texture.tableSize_eq]
  omega

theorem Texture.texelAt_next {face lod x y x' y' : Nat} (inX : x < widthOf t lod) (later : y < y' ∨ y = y' ∧ x < x') :
    texelAt t face lod x y + t.mElement.getSizeBytes ≤ texelAt t face lod x' y' := by
  have width := texture.row_le_stride room several lod
  rw [texelAt, texelAt]
  rcases later with lt | ⟨rfl, right⟩
  · have cols : (x + 1) * t.mElement.getSizeBytes ≤ widthOf t lod * t.mElement.getSizeBytes := Nat.mul_le_mul_right _ inX
    have rows : (y + 1) * tableStride t lod ≤ y' * tableStride t lod := Nat.mul_le_mul_right _ lt
    rw [Nat.succ_mul] at cols rows
    omega
  · have cols : (x + 1) * t.mElement.getSizeBytes ≤ x' * t.mElement.getSizeBytes := Nat.mul_le_mul_right _ right
    rw [Nat.succ_mul] at cols
    omega

end

end

def rowAt (t : RsType) (face lod : Nat) (y : UInt32) : Nat :=
  getOffsetPtr (allocationBuildPointerTable t) (.ofNat t.mElement.getSizeBytes) 0 y 0 lod face

def planeAt (t : RsType) (face lod : Nat) (z : UInt32) : Nat :=
  getOffsetPtr (allocationBuildPointerTable t) (.ofNat t.mElement.getSizeBytes) 0 0 z lod face

def passFilter (bits : Nat) : BoxFilter :=
  if bits = 32 then boxFilter8888 else if bits = 16 then boxFilter565 else boxFilter8

def passRow (t : RsType) (face lod : Nat) : UInt32 → Nat :=
  if t.mElement.getSizeBits = 16 then planeAt t face lod else rowAt t face lod

def passMemory (t : RsType) (face lod : Nat) (block : Memory) (steps : Nat) : Memory :=
  sweep t.mElement.getSizeBytes
    (stepTarget t.mElement.getSizeBytes (widthOf t (lod + 1)) (rowAt t face (lod + 1)) 0)
    (stepBytes t.mElement.getSizeBytes (widthOf t (lod + 1)) (passFilter t.mElement.getSizeBits)
      (passRow t face lod) 0) steps block

def passBlock (t : RsType) (face lod : Nat) (block : Memory) : Memory :=
  passMemory t face lod block (heightOf t (lod + 1) * widthOf t (lod + 1))

def PassInside (t : RsType) (face lod : Nat) : Prop :=
  ∀ y < heightOf t (lod + 1), ∀ x < widthOf t (lod + 1),
    StepInside (allocationBuildPointerTable t).allocSize t.mElement.getSizeBytes (passRow t face lod)
      (rowAt t face (lod + 1)) (.ofNat y) x

section

variable {t : RsType} (texture : Texture t) {a after : Alloc} {face lod : Nat}

include texture

theorem Texture.averaging : Averaging t.mElement.getSizeBits (passFilter t.mElement.getSizeBits) := by
  rcases texture.bits with one | two | four
  · rw [one]
    exact averaging8
  · rw [two]
    exact averaging565
  · rw [four]
    exact averaging8888

theorem Texture.mipLevel_iff (of : a.Of t) (lt : lod + 1 < t.mLodCount.toNat) : a.mipLevel lod face = some after ↔
      PassInside t face lod ∧ { a with block := passBlock t face lod a.block } = after := by
  have next : (fun y => a.getOffsetPtr 0 y 0 (lod + 1) face) = rowAt t face (lod + 1) := by
    funext y
    rw [Alloc.getOffsetPtr, of.table, Alloc.elementSizeBytes, of.type]
    rfl
  have rows : (fun y => a.getOffsetPtr 0 y 0 lod face) = rowAt t face lod := by
    funext y
    rw [Alloc.getOffsetPtr, of.table, Alloc.elementSizeBytes, of.type]
    rfl
  have planes : (fun z => a.getOffsetPtr 0 0 z lod face) = planeAt t face lod := by
    funext z
    rw [Alloc.getOffsetPtr, of.table, Alloc.elementSizeBytes, of.type]
    rfl
  have dims (size : Nat) (filter : BoxFilter) (row : UInt32 → Nat) : a.mip size filter row lod face =
        mipLines size filter row (rowAt t face (lod + 1)) (widthOf t (lod + 1)) (heightOf t (lod + 1)) 0 a := by
    rw [Alloc.mip, next, of.table, texture.dimX_eq lt, texture.dimY_eq lt]
  have size := texture.size.1
  have pass : a.mipLevel lod face = mipLines t.mElement.getSizeBytes (passFilter t.mElement.getSizeBits)
      (passRow t face lod) (rowAt t face (lod + 1)) (widthOf t (lod + 1)) (heightOf t (lod + 1)) 0 a := by
    unfold Alloc.mipLevel passRow
    rw [of.type]
    rcases texture.bits with one | two | four
    · have bytes : t.mElement.getSizeBytes = 1 := by omega
      rw [one, bytes, if_neg (by decide), if_neg (by decide), if_pos rfl, if_neg (by decide), Alloc.mip8, rows, dims]
      rfl
    · have bytes : t.mElement.getSizeBytes = 2 := by omega
      rw [two, bytes, if_neg (by decide), if_pos rfl, if_pos rfl, Alloc.mip565, planes, dims]
      rfl
    · have bytes : t.mElement.getSizeBytes = 4 := by omega
      rw [four, bytes, if_pos rfl, if_neg (by decide), Alloc.mip8888, rows, dims]
      rfl
  rw [pass, mipLines_iff, of.table]
  simp only [zero_add]
  rfl

/-!
### Steps
-/

section

variable (room : t.mLodCount.toNat ≤ MAX_LOD) (several : 2 ≤ t.mLodCount.toNat)

theorem Texture.rowAt_eq (lt : lod < t.mLodCount.toNat) (low : y < 2 ^ 32) :
    rowAt t face lod (.ofNat y) = texelAt t face lod 0 y := by
  have place := @Cell.offset_eq t ⟨0, y, 0, lod, face⟩ low
  rw [texture.plain.table_lod lt, texture.plain.table_faceOffset_eq] at place
  simp only [LodState.ofLevel, Nat.zero_mul, Nat.zero_mod, add_zero] at place
  rw [texelAt, levelStart, Nat.zero_mul, add_zero, add_comm (face * _)]
  exact place

include room several

theorem Texture.stepTarget_eq {s : Nat} (lt : lod + 1 < t.mLodCount.toNat)
    (inPass : s < heightOf t (lod + 1) * widthOf t (lod + 1)) :
    stepTarget t.mElement.getSizeBytes (widthOf t (lod + 1)) (rowAt t face (lod + 1)) 0 s =
      texelAt t face (lod + 1) (s % widthOf t (lod + 1)) (s / widthOf t (lod + 1)) := by
  have line := (Nat.div_lt_iff_lt_mul (texture.widthOf_pos _)).mpr inPass
  have low := line.trans (texture.heightOf_lt room several _)
  rw [stepTarget, zero_add, texture.rowAt_eq lt (low.trans (by decide)), texelAt, texelAt]
  omega

theorem Texture.steps_apart (lt : lod + 1 < t.mLodCount.toNat) {s' : Nat} (later : s < s')
    (inPass : s' < heightOf t (lod + 1) * widthOf t (lod + 1)) :
    stepTarget t.mElement.getSizeBytes (widthOf t (lod + 1)) (rowAt t face (lod + 1)) 0 s + t.mElement.getSizeBytes ≤
      stepTarget t.mElement.getSizeBytes (widthOf t (lod + 1)) (rowAt t face (lod + 1)) 0 s' := by
  rw [texture.stepTarget_eq room several lt inPass, texture.stepTarget_eq room several lt (later.trans inPass)]
  apply texture.texelAt_next room several (Nat.mod_lt _ (texture.widthOf_pos _))
  have quotients := Nat.div_le_div_right (c := widthOf t (lod + 1)) later.le
  rcases quotients.lt_or_eq with lines | eq
  · exact .inl lines
  · have first := Nat.div_add_mod s (widthOf t (lod + 1))
    have second := Nat.div_add_mod s' (widthOf t (lod + 1))
    rw [eq] at first
    exact .inr ⟨eq, by omega⟩

variable (below : lod + 1 < t.mLodCount.toNat) {block : Memory}

include below

theorem Texture.passMemory_outside {steps : Nat} (inPass : steps ≤ heightOf t (lod + 1) * widthOf t (lod + 1))
    (out : location < levelStart t face (lod + 1) ∨ levelStart t face (lod + 2) ≤ location) :
    passMemory t face lod block steps location = block location := by
  refine sweep_outside fun s inSteps => ?_
  have inAll := inSteps.trans_le inPass
  have col := Nat.mod_lt s (texture.widthOf_pos (lod + 1))
  have line := (Nat.div_lt_iff_lt_mul (texture.widthOf_pos _)).mpr inAll
  have ends := @Texture.texelAt_end t texture room several face _ _ _ col line
  rw [texture.stepTarget_eq room several below inAll]
  rcases out with before | behind
  · rw [texelAt]
    omega
  · exact .inr (ends.trans behind)

theorem Texture.passMemory_ahead (inPass : s < heightOf t (lod + 1) * widthOf t (lod + 1))
    (ahead : stepTarget t.mElement.getSizeBytes (widthOf t (lod + 1)) (rowAt t face (lod + 1)) 0 s ≤ location) :
    passMemory t face lod block s location = block location :=
  sweep_outside fun _ inSteps => .inr ((texture.steps_apart room several below inSteps inPass).trans ahead)

theorem Texture.passMemory_behind (inPass : s < heightOf t (lod + 1) * widthOf t (lod + 1))
    (behind : location < stepTarget t.mElement.getSizeBytes (widthOf t (lod + 1)) (rowAt t face (lod + 1)) 0 s) :
    passMemory t face lod block s location = passBlock t face lod block location := by
  refine (sweep_of_le inPass.le fun k later inSteps => .inl (behind.trans_le ?_)).symm
  rcases later.lt_or_eq with after | rfl
  · exact (Nat.le_add_right _ _).trans (texture.steps_apart room several below after inSteps)
  · exact le_rfl

theorem Texture.passBlock_texel (inX : x < widthOf t (lod + 1)) (inY : y < heightOf t (lod + 1)) :
    let memory := passMemory t face lod block (y * widthOf t (lod + 1) + x)
    let i1 := passRow t face lod (.ofNat y * 2) + x * (2 * t.mElement.getSizeBytes)
    let i2 := passRow t face lod (.ofNat y * 2 + 1) + x * (2 * t.mElement.getSizeBytes)
    wordAt (passBlock t face lod block) t.mElement.getSizeBytes (texelAt t face (lod + 1) x y) =
      passFilter t.mElement.getSizeBits (wordAt memory t.mElement.getSizeBytes i1)
        (wordAt memory t.mElement.getSizeBytes (i1 + t.mElement.getSizeBytes))
        (wordAt memory t.mElement.getSizeBytes i2)
        (wordAt memory t.mElement.getSizeBytes (i2 + t.mElement.getSizeBytes)) := by
  intro memory i1 i2
  have wide := texture.widthOf_pos (lod + 1)
  have quotient : (y * widthOf t (lod + 1) + x) / widthOf t (lod + 1) = y := by
    rw [mul_comm, Nat.mul_add_div wide, Nat.div_eq_of_lt inX, add_zero]
  have remainder : (y * widthOf t (lod + 1) + x) % widthOf t (lod + 1) = x := by
    rw [mul_comm, Nat.mul_add_mod, Nat.mod_eq_of_lt inX]
  have inPass := texel_in_pass inX inY
  have target := @Texture.stepTarget_eq t texture face _ room several _ below inPass
  rw [quotient, remainder] at target
  have bits : 2 ^ t.mElement.getSizeBits = 256 ^ t.mElement.getSizeBytes := by
    rw [← texture.size.1, Nat.pow_mul]
  apply wordAt_of_bytes
  · intro j inside
    rw [← target]
    refine (sweep_at ?_ inPass inside).trans ?_
    · exact fun k l before inAll => .inl (texture.steps_apart room several below before inAll)
    · rw [stepBytes, quotient, remainder, zero_add]
      rfl
  · rw [← bits]
    exact texture.averaging.small (texture.word_lt _ _) (texture.word_lt _ _) (texture.word_lt _ _) (texture.word_lt _ _)

end

end

/-- A pass in the course of others: what it starts from, and what is left of it in the end. `kept` are
the places that no pass has written before. -/
structure Stage (t : RsType) (face lod : Nat) (kept : Nat → Prop) (first last : Memory) : Prop where
  inside : PassInside t face lod
  ran : ∃ before : Memory, (∀ location, kept location → before location = first location) ∧
    ∀ location, levelStart t face 0 ≤ location → location < levelStart t face (lod + 2) →
      passBlock t face lod before location = last location

section

variable {t : RsType} (texture : Texture t) (room : t.mLodCount.toNat ≤ MAX_LOD)
  (several : 2 ≤ t.mLodCount.toNat) {a after : Alloc} {face lod count : Nat}

include texture room several

theorem Texture.mipLevels_stages (of : a.Of t) (fits : lod + count < t.mLodCount.toNat)
    (made : mipLevels face count lod a = some after) :
    after.Of t ∧
    (∀ location, location < levelStart t face (lod + 1) ∨ levelStart t (face + 1) 0 ≤ location →
      after.block location = a.block location) ∧
    ∀ l, lod ≤ l → l < lod + count →
      Stage t face l (fun location => location < levelStart t face (lod + 1) ∨ levelStart t face (l + 1) ≤ location)
        a.block after.block := by
  induction count generalizing lod a with
  | zero =>
    cases made
    exact ⟨of, fun _ _ => rfl, fun l above lt => absurd (above.trans_lt lt) (lt_irrefl _)⟩
  | succ count ih =>
    obtain ⟨mid, first, rest⟩ := Option.bind_eq_some_iff.mp made
    have lt : lod + 1 < t.mLodCount.toNat := by omega
    obtain ⟨inside, rfl⟩ := (texture.mipLevel_iff of lt).mp first
    have ofMiddle : Alloc.Of t { a with block := passBlock t face lod a.block } := ⟨of.type, of.laid⟩
    obtain ⟨ofAfter, frame, stages⟩ := ih ofMiddle (by omega) rest
    have pass {location : Nat} (out : location < levelStart t face (lod + 1) ∨ levelStart t face (lod + 2) ≤ location) :
        passBlock t face lod a.block location = a.block location :=
      texture.passMemory_outside room several lt le_rfl out
    have faceEnd : levelStart t face (lod + 2) ≤ levelStart t (face + 1) 0 := by
      rw [← levelStart_end]
      exact levelStart_mono (by omega)
    have next : levelStart t face (lod + 1) ≤ levelStart t face (lod + 2) := levelStart_mono (Nat.le_succ _)
    refine ⟨ofAfter, ?_, ?_⟩
    · intro location out
      rcases out with before | behind
      · exact (frame location (.inl (before.trans_le next))).trans (pass (.inl before))
      · exact (frame location (.inr behind)).trans (pass (.inr (faceEnd.trans behind)))
    · intro l above inLoop
      rcases above.eq_or_lt with rfl | later
      · refine ⟨inside, a.block, fun _ _ => rfl, fun location _ early => ?_⟩
        exact (frame location (.inl early)).symm
      · obtain ⟨insideLater, before, kept, left⟩ := stages l later (by omega)
        refine ⟨insideLater, before, fun location out => ?_, left⟩
        rcases out with early | late
        · exact (kept location (.inl (early.trans_le next))).trans (pass (.inl early))
        · have behind := (levelStart_mono (Nat.succ_le_succ later)).trans late
          exact (kept location (.inr late)).trans (pass (.inr behind))

theorem Texture.mipFaces_stages {levels : Nat} (all : levels + 1 = t.mLodCount.toNat) (of : a.Of t)
    (made : mipFaces levels count face a = some after) :
    (∀ location, location < levelStart t face 0 → after.block location = a.block location) ∧
    (∀ f, face ≤ f → f < face + count → ∀ location, levelStart t f 0 ≤ location →
      location < levelStart t f 1 → after.block location = a.block location) ∧
    ∀ f, face ≤ f → f < face + count → ∀ l < levels,
      Stage t f l (fun location => levelStart t f 0 ≤ location ∧ location < levelStart t f 1 ∨
        levelStart t f (l + 1) ≤ location) a.block after.block := by
  induction count generalizing face a with
  | zero =>
    cases made
    exact ⟨fun _ _ => rfl, fun f above lt => absurd (above.trans_lt lt) (lt_irrefl _),
      fun f above lt => absurd (above.trans_lt lt) (lt_irrefl _)⟩
  | succ count ih =>
    obtain ⟨mid, first, rest⟩ := Option.bind_eq_some_iff.mp made
    obtain ⟨ofMiddle, pass, stages⟩ := texture.mipLevels_stages room several of (by omega) first
    obtain ⟨frame, kept, others⟩ := ih ofMiddle rest
    have starts : levelStart t face 0 ≤ levelStart t face 1 := levelStart_mono (Nat.zero_le _)
    have ends {lod : Nat} (inFace : lod ≤ t.mLodCount.toNat) : levelStart t face lod ≤ levelStart t (face + 1) 0 := by
      rw [← levelStart_end]
      exact levelStart_mono inFace
    refine ⟨?_, ?_, ?_⟩
    · intro location before
      have early := before.trans_le starts
      rw [frame location (early.trans_le (ends (by omega))), pass location (.inl early)]
    · intro f above lt location start stop
      rcases above.eq_or_lt with rfl | later
      · rw [frame location (stop.trans_le (ends (by omega))), pass location (.inl stop)]
      · have behind := (levelStart_face_mono later).trans start
        rw [kept f later (by omega) location start stop, pass location (.inr behind)]
    · intro f above lt l inLevels
      rcases above.eq_or_lt with rfl | later
      · obtain ⟨inside, before, eq, left⟩ := stages l (Nat.zero_le _) (by omega)
        refine ⟨inside, before, fun location out => ?_, fun location start early => ?_⟩
        · rcases out with ⟨-, first⟩ | late
          · exact eq location (.inl first)
          · exact eq location (.inr late)
        · exact (left location start early).trans (frame location (early.trans_le (ends (by omega)))).symm
      · obtain ⟨inside, before, eq, left⟩ := others f later (by omega) l inLevels
        refine ⟨inside, before, fun location out => ?_, left⟩
        have start : levelStart t (face + 1) 0 ≤ levelStart t f 0 := levelStart_face_mono later
        have level : levelStart t f 0 ≤ levelStart t f (l + 1) := levelStart_mono (Nat.zero_le _)
        rw [eq location out, pass location (.inr _)]
        rcases out with ⟨first, -⟩ | late
        · exact start.trans first
        · exact (start.trans level).trans late

omit room several in
theorem Texture.mipLevels_exists (of : a.Of t) (fits : lod + count < t.mLodCount.toNat)
    (inside : ∀ l, lod ≤ l → l < lod + count → PassInside t face l) :
    ∃ after, mipLevels face count lod a = some after ∧ after.Of t := by
  induction count generalizing lod a with
  | zero => exact ⟨a, rfl, of⟩
  | succ count ih =>
    have first := (texture.mipLevel_iff of (by omega)).mpr ⟨inside lod le_rfl (by omega), rfl⟩
    obtain ⟨after, rest, ofAfter⟩ := @ih { a with block := passBlock t face lod a.block } (lod + 1)
      ⟨of.type, of.laid⟩ (by omega) fun l above lt => inside l (Nat.le_of_succ_le above) (by omega)
    exact ⟨after, Option.bind_eq_some_iff.mpr ⟨_, first, rest⟩, ofAfter⟩

omit room several in
theorem Texture.mipFaces_exists {levels : Nat} (all : levels + 1 = t.mLodCount.toNat) (of : a.Of t)
    (inside : ∀ f, face ≤ f → f < face + count → ∀ l < levels, PassInside t f l) :
    ∃ after, mipFaces levels count face a = some after := by
  induction count generalizing face a with
  | zero => exact ⟨a, rfl⟩
  | succ count ih =>
    obtain ⟨mid, first, ofMiddle⟩ := @Texture.mipLevels_exists t texture a _ 0 levels of
      (by omega) fun l _ lt => inside face le_rfl (by omega) l (by omega)
    obtain ⟨after, rest⟩ := @ih mid (face + 1) ofMiddle fun f above lt =>
      inside f (Nat.le_of_succ_le above) (by omega)
    exact ⟨after, Option.bind_eq_some_iff.mpr ⟨_, first, rest⟩⟩

end

end RenderScript.Copies
