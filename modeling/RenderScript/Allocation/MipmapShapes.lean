import RenderScript.Allocation.MipmapAverages

/-!
# Shapes whose mipmaps are averages

Contents for which a texel is not the average of the four texels before it, for every texture that
is not halved in both directions down to the last level.
-/

namespace RenderScript.Copies
open AlignedBytes ByteMemory LineCopies Stacking Sweeps Elements RenderScript.Types Allocations

/-!
## What is left of the contents
-/

/-- A texture after its mipmaps have been generated, with what the passes over the first face did. -/
structure Generated (t : RsType) (block last : Memory) : Prop where
  average : LevelsAverage t last
  inside : ∀ f < faceTotal t, ∀ l, l + 1 < t.mLodCount.toNat → PassInside t f l
  stage : ∀ l, l + 1 < t.mLodCount.toNat →
    Stage t 0 l (fun location => levelStart t 0 0 ≤ location ∧ location < levelStart t 0 1 ∨
      levelStart t 0 (l + 1) ≤ location) block last
  first : ∀ location, location < levelStart t 0 1 → last location = block location

variable {k lod : Nat}

section

variable {t : RsType} (texture : Texture t)

theorem levelStart_zero (t : RsType) : levelStart t 0 0 = 0 := by
  simp [levelStart, offset_zero]

theorem Generates.room (generates : Generates t) : t.mLodCount.toNat ≤ MAX_LOD := by
  obtain ⟨a, -, made, -⟩ := generates true fun _ => 0
  exact (init_eq made).2

theorem two_pow_sub {k lod : Nat} (lt : lod + 1 ≤ k) : 2 ^ (k - lod) = 2 * 2 ^ (k - (lod + 1)) := by
  rw [← pow_succ']
  congr 1
  omega

theorem near_lt {n dim i : Nat} (halves : n.log2 = dim - k) (above : k ≤ dim) (small : i ≤ 1) :
    min i (n - 1) < 2 ^ (min dim (k + 1) - k) := by
  rcases above.eq_or_lt with rfl | more
  · have single := log2_eq_zero_iff.mp (halves.trans (Nat.sub_self _))
    rw [min_eq_left (Nat.le_succ _), Nat.sub_self]
    omega
  · have two : min dim (k + 1) - k = 1 := by omega
    rw [two]
    omega

theorem average_lt {f : Nat → Nat → Nat} (byte : ∀ x y, f x y < 256) {x y i j : Nat} (smallI : i ≤ 1)
    (smallJ : j ≤ 1) (shade : f (x + i) (y + j) < 255) :
    (f x y + f (x + 1) y + f x (y + 1) + f (x + 1) (y + 1)) / 4 < 255 := by
  have b1 := byte x y
  have b2 := byte (x + 1) y
  have b3 := byte x (y + 1)
  have b4 := byte (x + 1) (y + 1)
  rcases Nat.le_one_iff_eq_zero_or_eq_one.mp smallI with rfl | rfl
  · rcases Nat.le_one_iff_eq_zero_or_eq_one.mp smallJ with rfl | rfl
    · change f x y < 255 at shade
      omega
    · change f x (y + 1) < 255 at shade
      omega
  · rcases Nat.le_one_iff_eq_zero_or_eq_one.mp smallJ with rfl | rfl
    · change f (x + 1) y < 255 at shade
      omega
    · omega

include texture

theorem Generates.generated (generates : Generates t) (several : 2 ≤ t.mLodCount.toNat) (block : Memory) :
    ∃ last, Generated t block last := by
  have room := generates.room
  obtain ⟨a, after, made, ran, average, -⟩ := generates true block
  obtain ⟨rfl, -⟩ := init_eq made
  have of : Alloc.Of t { type := t, laid := t, script := true, block := block } := ⟨rfl, rfl⟩
  have passes := toNat_passes texture.plain.one_le_mLodCount
  rw [generate_eq of] at ran
  obtain ⟨-, kept, stages⟩ := texture.mipFaces_stages room several passes of ran
  refine ⟨after.block, average, ?_, ?_, ?_⟩
  · intro f inFace l lt
    exact (stages f (Nat.zero_le _) (by omega) l (by omega)).inside
  · intro l lt
    have some : 0 < faceTotal t := faceTotal_pos
    exact stages 0 le_rfl (by omega) l (by omega)
  · intro loc early
    have some : 0 < faceTotal t := faceTotal_pos
    exact kept 0 le_rfl (by omega) loc ((levelStart_zero t).trans_le (Nat.zero_le _)) early

/-!
## Low bytes
-/

omit texture in
theorem wordAt_mod (memory : Memory) {size : Nat} (some : 0 < size) (ptr : Nat) :
    wordAt memory size ptr % 256 = (memory ptr).toNat := by
  obtain ⟨rest, rfl⟩ : ∃ rest, size = rest + 1 := ⟨size - 1, by omega⟩
  have small := (memory ptr).toNat_lt
  rw [wordAt, ByteMemory.read, List.range_succ_eq_map, List.map_cons, decode, Nat.add_mul_mod_self_left]
  exact Nat.mod_eq_of_lt small

theorem Texture.head_channels (rows : t.mElement.getSizeBits ≠ 16) (memory : Memory) (ptr : Nat) :
    (channels t.mElement.getSizeBits (wordAt memory t.mElement.getSizeBytes ptr)).head? = some (memory ptr).toNat := by
  have low := wordAt_mod memory texture.size.2.1 ptr
  have word := texture.word_lt memory ptr
  rcases texture.bits with one | planes | four
  · rw [one] at word ⊢
    simp [channels, ← low, Nat.mod_eq_of_lt (show _ < 256 from word)]
  · exact absurd planes rows
  · simp [four, channels, low]

omit texture in
theorem head_average {a b c d : List Nat} {p q r s : Nat} (first : a.head? = some p) (second : b.head? = some q)
    (third : c.head? = some r) (fourth : d.head? = some s) :
    (average a b c d).head? = some ((p + q + r + s) / 4) := by
  obtain ⟨_, rfl⟩ := List.head?_eq_some_iff.mp first
  obtain ⟨_, rfl⟩ := List.head?_eq_some_iff.mp second
  obtain ⟨_, rfl⟩ := List.head?_eq_some_iff.mp third
  obtain ⟨_, rfl⟩ := List.head?_eq_some_iff.mp fourth
  rfl

def low (t : RsType) (memory : Memory) (lod x y : Nat) : Nat := (memory (texelAt t 0 lod x y)).toNat

theorem Texture.low_passFilter (rows : t.mElement.getSizeBits ≠ 16) {memory last : Memory} {ptr p q r s : Nat}
    (value : wordAt last t.mElement.getSizeBytes ptr = passFilter t.mElement.getSizeBits (wordAt memory t.mElement.getSizeBytes p)
        (wordAt memory t.mElement.getSizeBytes q) (wordAt memory t.mElement.getSizeBytes r)
        (wordAt memory t.mElement.getSizeBytes s)) :
    (last ptr).toNat = ((memory p).toNat + (memory q).toNat + (memory r).toNat + (memory s).toNat) / 4 := by
  have channels := texture.averaging.channels (texture.word_lt memory p) (texture.word_lt memory q)
    (texture.word_lt memory r) (texture.word_lt memory s)
  have head := congrArg List.head? channels
  rw [← value, texture.head_channels rows, head_average (texture.head_channels rows _ _)
    (texture.head_channels rows _ _) (texture.head_channels rows _ _) (texture.head_channels rows _ _)] at head
  exact Option.some.inj head

theorem Texture.level_pos (lod : Nat) : 0 < (t.mLodDim lod).x.toNat ∧ 0 < (t.mLodDim lod).y.toNat := by
  rw [texture.mLodDim_x, texture.mLodDim_y]
  exact ⟨texture.widthOf_pos _, texture.heightOf_pos _⟩

theorem Texture.two_pow_le {l : Nat} (wide : k ≤ t.dimX.toNat.log2) (tall : l ≤ t.dimY.toNat.log2) (lod : Nat) :
    2 ^ (k - lod) ≤ widthOf t (lod + 1) ∧ 2 ^ (l - lod) ≤ heightOf t (lod + 1) := by
  rw [← Nat.le_log2 (texture.widthOf_pos _).ne', ← Nat.le_log2 (texture.heightOf_pos _).ne', log2_widthOf, log2_heightOf]
  omega

variable (room : t.mLodCount.toNat ≤ MAX_LOD) (several : 2 ≤ t.mLodCount.toNat)
  (rows : t.mElement.getSizeBits ≠ 16) {block last : Memory} (generated : Generated t block last)
  {lod x y : Nat}

include room several rows generated

theorem Texture.low_next (lt : lod + 1 < t.mLodCount.toNat) (inX : 2 * x + 1 < widthOf t lod)
    (inY : 2 * y + 1 < heightOf t lod) (writtenX : x < widthOf t (lod + 1)) (writtenY : y < heightOf t (lod + 1)) :
    low t last (lod + 1) x y = (low t last lod (2 * x) (2 * y) + low t last lod (2 * x + 1) (2 * y) +
        low t last lod (2 * x) (2 * y + 1) + low t last lod (2 * x + 1) (2 * y + 1)) / 4 :=
  texture.low_passFilter rows (texture.average_of_stage room several rows (generated.stage lod lt) lt
    writtenX writtenY (texture.texelAt_end room several inX inY))

/-- A texel of level 1. The pass reads what it has written before, level 0 and, from the texel on, what was
there in the beginning. -/
theorem Texture.low_first (inX : x < widthOf t 0) (inY : y < heightOf t 0) : ∃ memory : Memory,
      (∀ location, location < levelStart t 0 1 ∨ texelAt t 0 1 x y ≤ location → memory location = block location) ∧
      (∀ location < texelAt t 0 1 x y, memory location = last location) ∧
      low t last 1 x y = (low t memory 0 (2 * x) (2 * y) + low t memory 0 (2 * x + 1) (2 * y) +
          low t memory 0 (2 * x) (2 * y + 1) + low t memory 0 (2 * x + 1) (2 * y + 1)) / 4 := by
  have height := inY.trans (texture.heightOf_lt room several _)
  obtain ⟨memory, behind, ahead, value⟩ := texture.texel_of_stage room several (generated.stage 0 several) several inX inY
  obtain ⟨even, odd⟩ := @Texture.passRow_eq t texture 0 0 y rows (by omega) (by omega)
  simp only [even, odd, texelAt_column] at value
  have written (location : Nat) (before : location < texelAt t 0 1 x y) := behind location ((levelStart_zero t).trans_le (Nat.zero_le _)) before
  have start : levelStart t 0 1 ≤ texelAt t 0 1 x y := by
    rw [texelAt]
    omega
  refine ⟨memory, ?_, written, texture.low_passFilter rows value⟩
  intro location out
  rcases out with early | late
  · exact (written location (early.trans_le start)).trans (generated.first location early)
  · exact ahead location (.inr (start.trans late)) late

theorem Texture.low_clamped (lt : lod + 1 < t.mLodCount.toNat) :
    let nearX (x : Nat) := min x (widthOf t (lod + 1) - 1)
    let nearY (y : Nat) := min y (heightOf t (lod + 1) - 1)
    low t last (lod + 1) 0 0 = (low t last lod (nearX 0) (nearY 0) + low t last lod (nearX 1) (nearY 0) +
        low t last lod (nearX 0) (nearY 1) + low t last lod (nearX 1) (nearY 1)) / 4 := by
  have average := generated.average 0 faceTotal_pos lod lt 0 (texture.level_pos _).1 0 (texture.level_pos _).2
  rw [texture.texelChannels_eq room several lt (texture.widthOf_pos _) (texture.heightOf_pos _)] at average
  simp only [texture.clampedTexel_eq room several (Nat.lt_of_succ_lt lt)] at average
  have head := congrArg List.head? average
  rw [texture.head_channels rows, head_average (texture.head_channels rows _ _)
    (texture.head_channels rows _ _) (texture.head_channels rows _ _) (texture.head_channels rows _ _)] at head
  exact Option.some.inj head

/-!
## Bright and dark texels
-/

/-- Where all texels of a block are the same, those of the next levels are. The block has `q` others of its
height above it. -/
theorem Texture.uniform {a b q value : Nat} (wide : a ≤ t.dimX.toNat.log2) (tall : b + q ≤ t.dimY.toNat.log2)
    (first : ∀ x < 2 ^ a, ∀ y < 2 ^ b, low t last 0 x (q * 2 ^ b + y) = value) (inA : lod ≤ a) (inB : lod ≤ b)
    (lt : lod < t.mLodCount.toNat) :
    ∀ x < 2 ^ (a - lod), ∀ y < 2 ^ (b - lod), low t last lod x (q * 2 ^ (b - lod) + y) = value := by
  induction lod with
  | zero => exact first
  | succ lod ih =>
    have before := ih (Nat.le_of_succ_le inA) (Nat.le_of_succ_le inB) (Nat.lt_of_succ_lt lt)
    obtain ⟨width, height⟩ := texture.two_pow_le wide tall lod
    have smallerX := widthOf_succ_le t lod
    have smallerY := heightOf_succ_le t lod
    have powA := two_pow_sub inA
    have powB := two_pow_sub inB
    have lines : (q + 1) * 2 ^ (b - lod) ≤ 2 ^ (b + q - lod) := by
      rw [Nat.sub_add_comm (Nat.le_of_succ_le inB), pow_add, mul_comm]
      exact Nat.mul_le_mul_left _ Nat.lt_two_pow_self
    intro x inX y inY
    have twice : 2 * (q * 2 ^ (b - (lod + 1)) + y) = q * 2 ^ (b - lod) + 2 * y := by
      rw [powB, mul_add, mul_left_comm]
    rw [add_mul, one_mul] at lines
    rw [texture.low_next room several rows generated lt (by omega) (by omega) (by omega) (by omega), twice,
      add_assoc (q * _), before _ (by omega) _ (by omega), before _ (by omega) _ (by omega),
      before _ (by omega) _ (by omega), before _ (by omega) _ (by omega)]
    omega

theorem Texture.dark (wide : k ≤ t.dimX.toNat.log2) (tall : k ≤ t.dimY.toNat.log2) (lt : k + 1 < t.mLodCount.toNat)
    (first : ∃ x y, x < 2 ^ k ∧ y < 2 ^ k ∧ low t last 1 x y < 255) (inLevels : lod ≤ k) :
    ∃ x y, x < 2 ^ (k - lod) ∧ y < 2 ^ (k - lod) ∧ low t last (lod + 1) x y < 255 := by
  induction lod with
  | zero => exact first
  | succ lod ih =>
    obtain ⟨x, y, inX, inY, shade⟩ := ih (Nat.le_of_succ_le inLevels)
    obtain ⟨width, height⟩ := texture.two_pow_le wide tall lod
    obtain ⟨nextWidth, nextHeight⟩ := texture.two_pow_le wide tall (lod + 1)
    have pow := two_pow_sub inLevels
    refine ⟨x / 2, y / 2, by omega, by omega, ?_⟩
    have value := @Texture.low_next t texture room several rows _ last generated (lod + 1) (x / 2) (y / 2)
      (by omega) (by omega) (by omega) (by omega) (by omega)
    have cols := Nat.div_add_mod x 2
    have lines := Nat.div_add_mod y 2
    rw [value]
    refine average_lt (f := low t last (lod + 1)) (fun _ _ => UInt8.toNat_lt _) (i := x % 2)
      (j := y % 2) (by omega) (by omega) ?_
    rwa [cols, lines]

/-- Level `k` is the first with a dimension of one. Its texels would be as bright as those of level
`k + 1`. -/
theorem Texture.bright_of_dark (shorter : k = min t.dimX.toNat.log2 t.dimY.toNat.log2)
    (differ : t.dimX.toNat.log2 ≠ t.dimY.toNat.log2)
    (bright : ∀ x < 2 ^ min t.dimX.toNat.log2 (k + 1), ∀ y < 2 ^ min t.dimY.toNat.log2 (k + 1), low t last 0 x y = 255)
    (dark : ∃ x y, x < 2 ^ k ∧ y < 2 ^ k ∧ low t last 1 x y < 255) : False := by
  have levels := texture.levels_eq several
  have lt : k + 1 < t.mLodCount.toNat := by omega
  obtain ⟨x, y, inX, inY, shade⟩ := texture.dark room several rows generated (by omega) (by omega) lt dark (le_refl k)
  have light : ∀ x < 2 ^ (min t.dimX.toNat.log2 (k + 1) - k), ∀ y < 2 ^ (min t.dimY.toNat.log2 (k + 1) - k),
      low t last k x y = 255 := by
    have block := @Texture.uniform t texture room several rows _ _ generated k
      (min t.dimX.toNat.log2 (k + 1)) (min t.dimY.toNat.log2 (k + 1)) 0 255 (min_le_left _ _)
      (min_le_left _ _)
    simp only [Nat.zero_mul, zero_add] at block
    exact block bright (by omega) (by omega) (by omega)
  have nearX (i : Nat) (small : i ≤ 1) := near_lt (log2_widthOf t k) (by omega) small
  have nearY (j : Nat) (small : j ≤ 1) := near_lt (log2_heightOf t k) (by omega) small
  have value := texture.low_clamped room several rows generated lt
  dsimp only at value
  rw [light _ (nearX 0 (by omega)) _ (nearY 0 (by omega)), light _ (nearX 1 (by omega)) _ (nearY 0 (by omega)),
    light _ (nearX 0 (by omega)) _ (nearY 1 (by omega)), light _ (nearX 1 (by omega)) _ (nearY 1 (by omega))]
    at value
  rw [Nat.sub_self] at inX inY
  obtain rfl : x = 0 := by omega
  obtain rfl : y = 0 := by omega
  omega

end

/-!
## Contents
-/

/-- All bytes have one value before a place, and another one from there on. -/
def edgeAt (place : Nat) (before behind : UInt8) : Memory :=
  fun location => if location < place then before else behind

theorem edgeAt_before {place location : Nat} {before behind : UInt8} (early : location < place) :
    edgeAt place before behind location = before := if_pos early

theorem edgeAt_behind {place location : Nat} {before behind : UInt8} (late : place ≤ location) :
    edgeAt place before behind location = behind := if_neg (not_lt.mpr late)

section

variable {t : RsType} (texture : Texture t) (several : 2 ≤ t.mLodCount.toNat)
  (rows : t.mElement.getSizeBits ≠ 16) (generates : Generates t)

include texture

theorem Texture.levelStart_one : levelStart t 0 1 = heightOf t 0 * tableStride t 0 := by
  rw [levelStart_succ, levelStart_zero, texture.tableSize_eq, zero_add]

omit texture in
theorem texelAt_first (t : RsType) (x y : Nat) : texelAt t 0 0 x y = y * tableStride t 0 + x * t.mElement.getSizeBytes := by
  rw [texelAt, levelStart_zero, zero_add]

include several rows generates

/-- The contents are dark from a place on. Blocks of level 0 in front of it are bright, and a texel of level 1
that lies in the same block is computed from this place. -/
theorem Texture.edge_leaves_block {k x y i j : Nat} (shorter : k = min t.dimX.toNat.log2 t.dimY.toNat.log2)
    (differ : t.dimX.toNat.log2 ≠ t.dimY.toNat.log2)
    (light : ∀ x < 2 ^ min t.dimX.toNat.log2 (k + 1), ∀ y < 2 ^ min t.dimY.toNat.log2 (k + 1),
      texelAt t 0 0 x y < levelStart t 0 1)
    (before : ∀ x' < 2 ^ min t.dimX.toNat.log2 (k + 1), ∀ y' < 2 ^ min t.dimY.toNat.log2 (k + 1),
      texelAt t 0 0 x' y' < texelAt t 0 0 (2 * x + i) (2 * y + j))
    (inX : x < 2 ^ k) (inY : y < 2 ^ k) (smallI : i ≤ 1) (smallJ : j ≤ 1)
    (free : texelAt t 0 0 (2 * x + i) (2 * y + j) < levelStart t 0 1 ∨
      texelAt t 0 1 x y ≤ texelAt t 0 0 (2 * x + i) (2 * y + j)) : False := by
  have room := generates.room
  obtain ⟨last, generated⟩ := generates.generated texture several (edgeAt (texelAt t 0 0 (2 * x + i) (2 * y + j)) 255 0)
  refine texture.bright_of_dark room several rows generated shorter differ ?_ ⟨x, y, inX, inY, ?_⟩
  · intro x' inX' y' inY'
    rw [low, generated.first _ (light x' inX' y' inY'), edgeAt_before (before x' inX' y' inY')]
    rfl
  · obtain ⟨width, height⟩ : 2 ^ k ≤ widthOf t 1 ∧ 2 ^ k ≤ heightOf t 1 := texture.two_pow_le (by omega) (by omega) 0
    obtain ⟨memory, kept, -, value⟩ := texture.low_first room several rows generated (inX.trans_le width) (inY.trans_le height)
    have shade : low t memory 0 (2 * x + i) (2 * y + j) = 0 := by
      rw [low, kept _ free, edgeAt_behind le_rfl]
      rfl
    rw [value]
    exact average_lt (f := low t memory 0) (fun _ _ => UInt8.toNat_lt _) smallI smallJ (shade.trans_lt (by decide))

omit texture several rows generates in
theorem texelAt_lt {face x y x' y' : Nat} (some : 0 < t.mElement.getSizeBytes) (right : x < x')
    (lower : y ≤ y') : texelAt t face lod x y < texelAt t face lod x' y' := by
  refine add_lt_add_of_le_of_lt ?_ (mul_lt_mul_of_pos_right right some)
  exact Nat.add_le_add_left (Nat.mul_le_mul_right _ lower) _

theorem Texture.narrow_leaves_block (narrow : t.dimX.toNat.log2 = k) (tall : k < t.dimY.toNat.log2)
    (spare : texelAt t 0 0 (2 ^ k) (2 ^ (k + 1) - 1) < levelStart t 0 1) : False := by
  have some := texture.size.2.1
  have pos := Nat.two_pow_pos k
  have col : 2 * (2 ^ k / 2) + 2 ^ k % 2 = 2 ^ k := Nat.div_add_mod _ _
  have line : 2 * (2 ^ k - 1) + 1 = 2 ^ (k + 1) - 1 := by
    omega
  have before (x y : Nat) (inX : x < 2 ^ k) (inY : y < 2 ^ (k + 1)) :
      texelAt t 0 0 x y < texelAt t 0 0 (2 ^ k) (2 ^ (k + 1) - 1) :=
    texelAt_lt some inX (by omega)
  have regionX : min t.dimX.toNat.log2 (k + 1) = k := by omega
  have regionY : min t.dimY.toNat.log2 (k + 1) = k + 1 := by omega
  refine @Texture.edge_leaves_block t texture several rows generates k (2 ^ k / 2) (2 ^ k - 1) (2 ^ k % 2) 1
    (by omega) (by omega) ?_ ?_ (by omega) (by omega) (by omega) le_rfl (.inl ?_)
  · rw [regionX, regionY]
    exact fun x inX y inY => (before x y inX inY).trans spare
  · rw [regionX, regionY, col, line]
    exact fun x inX y inY => before x y inX inY
  · rw [col, line]
    exact spare

theorem Texture.low_leaves_block (short : t.dimY.toNat.log2 = k) (wide : k < t.dimX.toNat.log2) : False := by
  have room := generates.room
  have pos := Nat.two_pow_pos k
  obtain ⟨width, height⟩ : 2 ^ (k + 1) ≤ widthOf t 0 ∧ 2 ^ k ≤ heightOf t 0 := texture.two_pow_le wide short.ge 0
  have regionX : min t.dimX.toNat.log2 (k + 1) = k + 1 := by omega
  have regionY : min t.dimY.toNat.log2 (k + 1) = k := by omega
  have light : ∀ x < 2 ^ (k + 1), ∀ y < 2 ^ k, texelAt t 0 0 x y < levelStart t 0 1 := by
    intro x inX y inY
    have ends := @Texture.texelAt_end t texture room several 0 0 x y (by omega) (by omega)
    exact (Nat.lt_add_of_pos_right texture.size.2.1).trans_le ends
  have before (line : Nat) (lower : 2 ^ k ≤ line) :
      ∀ x < 2 ^ (k + 1), ∀ y < 2 ^ k, texelAt t 0 0 x y < texelAt t 0 0 0 line := by
    intro x inX y inY
    have next := @Texture.texelAt_next t texture room several 0 0 x y 0 line (by omega) (.inl (by omega))
    exact (Nat.lt_add_of_pos_right texture.size.2.1).trans_le next
  rcases height.lt_or_eq with more | exactly
  · have line : 2 * (2 ^ k / 2) + 2 ^ k % 2 = 2 ^ k := Nat.div_add_mod _ _
    refine @Texture.edge_leaves_block t texture several rows generates k 0 (2 ^ k / 2) 0 (2 ^ k % 2)
      (by omega) (by omega) ?_ ?_ pos (by omega) (Nat.zero_le _) (by omega) (.inl ?_)
    · rw [regionX, regionY]
      exact light
    · rw [regionX, regionY, line]
      exact before _ le_rfl
    · have ends := @Texture.texelAt_end t texture room several 0 0 0 _ (by omega) more
      rw [line]
      exact (Nat.lt_add_of_pos_right texture.size.2.1).trans_le ends
  · have line : 2 * (2 ^ k - 1) + 1 = 2 ^ k + (2 ^ k - 1) := by omega
    have stride : tableStride t 1 = tableStride t 0 := rfl
    refine @Texture.edge_leaves_block t texture several rows generates k 0 (2 ^ k - 1) 0 1
      (by omega) (by omega) ?_ ?_ pos (by omega) (Nat.zero_le _) le_rfl (.inr ?_)
    · rw [regionX, regionY]
      exact light
    · rw [regionX, regionY, line]
      exact before _ (Nat.le_add_right _ _)
    · rw [line, texelAt_first, add_mul, texelAt, texture.levelStart_one, ← exactly, stride]

end

/-!
## Rows without padding

The columns behind a row are those of the next row. If a texture is twice as high as wide, and its rows are
packed, the right half of level 1 is as the left half, one row lower, and its last row is computed from level 1
itself.
-/

structure Fades (t : RsType) (memory : Memory) (lod half : Nat) : Prop where
  most : ∀ x < 2 * half, ∀ y < 2 * half, low t memory lod x y ≤ 2
  upper : ∀ x < 2 * half, ∀ y, y + 1 < half → low t memory lod x y = 0
  edge : ∀ x < 2 * half, ∀ y, y + 1 = half → low t memory lod x y ≤ 1
  corner : ∀ x < 2 * half, ∀ y, half ≤ x → y + 1 = 2 * half → low t memory lod x y ≤ 1

section

variable {t : RsType} (texture : Texture t) (room : t.mLodCount.toNat ≤ MAX_LOD)
  (several : 2 ≤ t.mLodCount.toNat) (rows : t.mElement.getSizeBits ≠ 16) {block last : Memory}
  (generated : Generated t block last) {k : Nat}

include texture room several rows generated

theorem Texture.fades_next {half : Nat} (lt : lod + 2 < t.mLodCount.toNat)
    (fades : Fades t last (lod + 1) (2 * half)) (inX : 4 * half ≤ widthOf t (lod + 1))
    (inY : 4 * half ≤ heightOf t (lod + 1)) (writtenX : 2 * half ≤ widthOf t (lod + 2))
    (writtenY : 2 * half ≤ heightOf t (lod + 2)) :
    Fades t last (lod + 2) half := by
  obtain ⟨most, upper, edge, corner⟩ := fades
  have value (x y : Nat) (inSquare : x < 2 * half) (inLines : y < 2 * half) :=
    Texture.low_next texture room several rows generated lt (by omega) (by omega)
      (writtenX.trans_lt' inSquare) (writtenY.trans_lt' inLines)
  refine ⟨?_, ?_, ?_, ?_⟩
  · intro x inSquare y inLines
    have first := most (2 * x) (by omega) (2 * y) (by omega)
    have second := most (2 * x + 1) (by omega) (2 * y) (by omega)
    have third := most (2 * x) (by omega) (2 * y + 1) (by omega)
    have fourth := most (2 * x + 1) (by omega) (2 * y + 1) (by omega)
    rw [value x y inSquare inLines]
    omega
  · intro x inSquare y above
    rw [value x y inSquare (by omega), upper _ (by omega) _ (by omega), upper _ (by omega) _ (by omega),
      upper _ (by omega) _ (by omega), upper _ (by omega) _ (by omega)]
  · intro x inSquare y line
    have third := edge (2 * x) (by omega) (2 * y + 1) (by omega)
    have fourth := edge (2 * x + 1) (by omega) (2 * y + 1) (by omega)
    rw [value x y inSquare (by omega), upper _ (by omega) (2 * y) (by omega), upper _ (by omega) (2 * y) (by omega)]
    omega
  · intro x inSquare y right line
    have first := most (2 * x) (by omega) (2 * y) (by omega)
    have second := most (2 * x + 1) (by omega) (2 * y) (by omega)
    have third := corner (2 * x) (by omega) (2 * y + 1) (by omega) (by omega)
    have fourth := corner (2 * x + 1) (by omega) (2 * y + 1) (by omega) (by omega)
    rw [value x y inSquare (by omega)]
    omega

theorem Texture.fades_run (wide : k ≤ t.dimX.toNat.log2) (tall : k ≤ t.dimY.toNat.log2)
    (first : Fades t last 1 (2 ^ (k - 1))) (inLevels : lod + 2 ≤ k) :
    Fades t last (lod + 1) (2 ^ (k - (lod + 1))) := by
  have levels := texture.levels_eq several
  induction lod with
  | zero => exact first
  | succ lod ih =>
    have before := ih (by omega)
    have pow := @two_pow_sub k (lod + 1) (by omega)
    have twice := @two_pow_sub k lod (by omega)
    obtain ⟨width, height⟩ := texture.two_pow_le wide tall lod
    obtain ⟨nextWidth, nextHeight⟩ : 2 ^ (k - (lod + 1)) ≤ widthOf t (lod + 2) ∧ 2 ^ (k - (lod + 1)) ≤ heightOf t (lod + 2) :=
      texture.two_pow_le wide tall (lod + 1)
    rw [pow] at before
    exact texture.fades_next room several rows generated (by omega) before (by omega) (by omega) (by omega) (by omega)

end

section

variable {t : RsType} (texture : Texture t) (room : t.mLodCount.toNat ≤ MAX_LOD)
  (several : 2 ≤ t.mLodCount.toNat) (rows : t.mElement.getSizeBits ≠ 16) {k : Nat} {memory last : Memory}
  (wide : 2 ^ k ≤ widthOf t 0) (packed : tableStride t 0 = 2 ^ k * t.mElement.getSizeBytes)
  (tall : heightOf t 0 = 2 ^ (k + 1))
  (generated : Generated t (edgeAt (2 ^ k * tableStride t 0) 0 2) last)

include texture packed

theorem Texture.texelAt_lt_row {q x y : Nat} (inRows : x < q * 2 ^ k) : texelAt t 0 0 x y < (y + q) * tableStride t 0 := by
  have cols := mul_lt_mul_of_pos_right inRows texture.size.2.1
  rw [mul_assoc, ← packed] at cols
  rw [texelAt_first, add_mul]
  exact Nat.add_lt_add_left cols _

variable (kept : ∀ location < levelStart t 0 1, memory location = edgeAt (2 ^ k * tableStride t 0) 0 2 location)

include kept tall

theorem Texture.low_upper {q x y : Nat} (inRows : x < q * 2 ^ k) (above : y + q ≤ 2 ^ k) : low t memory 0 x y = 0 := by
  have place := @Texture.texelAt_lt_row t texture k packed q x y inRows
  have half : (y + q) * tableStride t 0 ≤ 2 ^ k * tableStride t 0 := Nat.mul_le_mul_right _ above
  have all : 2 ^ k * tableStride t 0 ≤ levelStart t 0 1 := by
    rw [texture.levelStart_one, tall]
    exact Nat.mul_le_mul_right _ (Nat.pow_le_pow_right (by decide) (Nat.le_succ k))
  rw [low, kept _ ((place.trans_le half).trans_le all), edgeAt_before (place.trans_le half)]
  rfl

theorem Texture.low_le_two {q x y : Nat} (inRows : x < q * 2 ^ k) (inLevel : y + q ≤ 2 ^ (k + 1)) : low t memory 0 x y ≤ 2 := by
  have place := @Texture.texelAt_lt_row t texture k packed q x y inRows
  have all : (y + q) * tableStride t 0 ≤ levelStart t 0 1 := by
    rw [texture.levelStart_one, tall]
    exact Nat.mul_le_mul_right _ inLevel
  rw [low, kept _ (place.trans_le all), edgeAt]
  split
  · exact Nat.zero_le 2
  · exact le_refl 2

omit kept

include room several rows wide generated

theorem Texture.first_upper {x y : Nat} (inX : x < 2 ^ k) (above : 2 * y + 3 ≤ 2 ^ k) : low t last 1 x y = 0 := by
  obtain ⟨memory, kept, -, value⟩ := @Texture.low_first t texture room several rows _ _ generated x y (by omega) (by omega)
  have zero {i j : Nat} (column : i < 2 * 2 ^ k) (line : j + 2 ≤ 2 ^ k) := texture.low_upper packed tall (fun loc early => kept loc (.inl early)) column line
  rw [value, zero (by omega) (by omega), zero (by omega) (by omega), zero (by omega) (by omega), zero (by omega) (by omega)]

theorem Texture.first_fades (large : 2 ≤ k) : Fades t last 1 (2 ^ (k - 1)) := by
  have half : 2 ^ k = 2 * 2 ^ (k - 1) := @two_pow_sub k 0 (by omega)
  have four : 2 ^ 2 ≤ 2 ^ k := Nat.pow_le_pow_right (by decide) large
  have reads (x y : Nat) (inX : x < 2 ^ k) (inY : y < 2 ^ k) :=
    @Texture.low_first t texture room several rows _ _ generated x y (by omega) (by omega)
  -- Row `2 ^ (k + 1)` of level 0 is the first row of level 1.
  have wrapped {x y i : Nat} {memory : Memory} (inX : x < 2 ^ k) (right : 2 ^ k ≤ 2 * x) (small : i ≤ 1) (line : y + 1 = 2 ^ k)
      (written : ∀ location < texelAt t 0 1 x y, memory location = last location) :
      low t memory 0 (2 * x + i) (2 * y + 1) = 0 := by
    have place : texelAt t 0 0 (2 * x + i) (2 * y + 1) = texelAt t 0 1 (2 * x + i - 2 ^ k) 0 := by
      have lines : 2 ^ (k + 1) * tableStride t 0 = (2 * y + 1) * tableStride t 0 + tableStride t 0 := by
        rw [← Nat.succ_mul]
        congr 1
        omega
      have cols : (2 * x + i) * t.mElement.getSizeBytes =
          tableStride t 0 + (2 * x + i - 2 ^ k) * t.mElement.getSizeBytes := by
        rw [packed, ← add_mul]
        congr 1
        omega
      rw [texelAt_first, texelAt, texture.levelStart_one, tall, lines, cols, Nat.zero_mul]
      omega
    have early : texelAt t 0 1 (2 * x + i - 2 ^ k) 0 < texelAt t 0 1 x y := by
      have next := @Texture.texelAt_next t texture room several 0 1 (2 * x + i - 2 ^ k) 0 x y
        (by change _ < widthOf t 0; omega) (.inl (by omega))
      exact (Nat.lt_add_of_pos_right texture.size.2.1).trans_le next
    rw [low, place, written _ early]
    exact texture.first_upper room several rows wide packed tall generated (by omega) (by omega)
  refine ⟨?_, ?_, ?_, ?_⟩
  · intro x inX y inY
    obtain ⟨memory, kept, written, value⟩ := reads x y (by omega) (by omega)
    have small {q i j : Nat} (column : i < q * 2 ^ k) (line : j + q ≤ 2 ^ (k + 1)) := texture.low_le_two packed tall (fun _ early => kept _ (.inl early)) column line
    have first : low t memory 0 (2 * x) (2 * y) ≤ 2 := @small 2 _ _ (by omega) (by omega)
    have second : low t memory 0 (2 * x + 1) (2 * y) ≤ 2 := @small 2 _ _ (by omega) (by omega)
    have lower {i : Nat} (one : i ≤ 1) : low t memory 0 (2 * x + i) (2 * y + 1) ≤ 2 := by
      rcases lt_or_ge (2 * x) (2 ^ k) with left | right
      · exact @small 1 _ _ (by omega) (by omega)
      · rcases lt_or_ge (y + 1) (2 ^ k) with inside | last
        · exact @small 2 _ _ (by omega) (by omega)
        · rw [wrapped (by omega) right one (by omega) written]
          exact Nat.zero_le 2
    have third : low t memory 0 (2 * x) (2 * y + 1) ≤ 2 := lower (Nat.zero_le 1)
    have fourth := lower (le_refl 1)
    omega
  · intro x inX y above
    exact texture.first_upper room several rows wide packed tall generated (by omega) (by omega)
  · intro x inX y line
    obtain ⟨memory, kept, -, value⟩ := reads x y (by omega) (by omega)
    have zero {i : Nat} (column : i < 2 * 2 ^ k) : low t memory 0 i (2 * y) = 0 :=
      texture.low_upper packed tall (fun _ early => kept _ (.inl early)) column (by omega)
    have small {i : Nat} (column : i < 2 * 2 ^ k) : low t memory 0 i (2 * y + 1) ≤ 2 :=
      texture.low_le_two packed tall (fun _ early => kept _ (.inl early)) column (by omega)
    have third := @small (2 * x) (by omega)
    have fourth := @small (2 * x + 1) (by omega)
    rw [value, zero (by omega), zero (by omega)]
    omega
  · intro x inX y right line
    obtain ⟨memory, kept, written, value⟩ := reads x y (by omega) (by omega)
    have small {i : Nat} (column : i < 2 * 2 ^ k) : low t memory 0 i (2 * y) ≤ 2 :=
      texture.low_le_two packed tall (fun _ early => kept _ (.inl early)) column (by omega)
    have first := @small (2 * x) (by omega)
    have second := @small (2 * x + 1) (by omega)
    have third : low t memory 0 (2 * x) (2 * y + 1) = 0 := wrapped (by omega) (by omega) (Nat.zero_le 1) (by omega) written
    have fourth := wrapped (by omega) (by omega) le_rfl (by omega) written
    omega

/-- In the end a texel is computed from 0, 0, 2 and at most 1, and the level before has 0 and 2 only. -/
theorem Texture.packed_differs (large : 2 ≤ k) (logX : t.dimX.toNat.log2 = k) (logY : t.dimY.toNat.log2 = k + 1) : False := by
  obtain ⟨m, rfl⟩ : ∃ m, k = m + 2 := ⟨k - 2, by omega⟩
  have levels := texture.levels_eq several
  have kept := generated.first
  have above : low t last (m + 2) 0 0 = 0 := by
    have block := @Texture.uniform t texture room several rows _ last generated _ (m + 2) (m + 2) 0 0 logX.ge (by omega)
      (fun x inX y inY => texture.low_upper packed tall kept (q := 1) (by omega) (by omega))
      le_rfl le_rfl (by omega) 0 (Nat.two_pow_pos _) 0 (Nat.two_pow_pos _)
    rwa [Nat.zero_mul] at block
  have lt : low t last (m + 2) 0 1 = 2 := by
    have block := @Texture.uniform t texture room several rows _ last generated _ (m + 2) (m + 2) 1 2 logX.ge (by omega)
      (fun x inX y inY => by
        have place := @Texture.texelAt_lt_row t texture _ packed 1 x (1 * 2 ^ (m + 2) + y) (by omega)
        have all : (1 * 2 ^ (m + 2) + y + 1) * tableStride t 0 ≤ levelStart t 0 1 := by
          rw [texture.levelStart_one, tall]
          exact Nat.mul_le_mul_right _ (by omega)
        have behind : 2 ^ (m + 2) * tableStride t 0 ≤ texelAt t 0 0 x (1 * 2 ^ (m + 2) + y) := by
          rw [texelAt_first, one_mul, add_mul, add_assoc]
          exact Nat.le_add_right _ _
        rw [low, kept _ (place.trans_le all), edgeAt_behind behind]
        rfl)
      le_rfl le_rfl (by omega) 0 (Nat.two_pow_pos _) 0 (Nat.two_pow_pos _)
    rwa [Nat.sub_self] at block
  have fades : Fades t last (m + 1) 2 := by
    have run := texture.fades_run room several rows generated logX.ge (by omega)
      (texture.first_fades room several rows wide packed tall generated large) (le_refl (m + 2))
    have two : m + 2 - (m + 1) = 1 := by omega
    rwa [two] at run
  have tall' : m + 2 ≤ t.dimY.toNat.log2 := by omega
  have four := texture.two_pow_le logX.ge tall' m
  have two : 2 ^ (m + 2 - (m + 1)) ≤ widthOf t (m + 2) ∧ 2 ^ (m + 2 - (m + 1)) ≤ heightOf t (m + 2) :=
    texture.two_pow_le logX.ge tall' (m + 1)
  rw [Nat.add_sub_cancel_left] at four
  rw [Nat.add_sub_add_left] at two
  have right : low t last (m + 2) 1 0 = 0 := by
    have value : low t last (m + 2) 1 0 = (low t last (m + 1) 2 0 + low t last (m + 1) 3 0 +
        low t last (m + 1) 2 1 + low t last (m + 1) 3 1) / 4 :=
      texture.low_next room several rows generated (by omega) (by omega) (by omega) two.1 (texture.heightOf_pos _)
    have third := fades.edge 2 (by decide) 1 rfl
    have fourth := fades.edge 3 (by decide) 1 rfl
    rw [value, fades.upper 2 (by decide) 0 (by decide), fades.upper 3 (by decide) 0 (by decide)]
    omega
  have corner : low t last (m + 2) 1 1 ≤ 1 := by
    have value : low t last (m + 2) 1 1 = (low t last (m + 1) 2 2 + low t last (m + 1) 3 2 +
        low t last (m + 1) 2 3 + low t last (m + 1) 3 3) / 4 :=
      texture.low_next room several rows generated (by omega) (by omega) (by omega) two.1 two.2
    have first := fades.most 2 (by decide) 2 (by decide)
    have second := fades.most 3 (by decide) 2 (by decide)
    have third := fades.corner 2 (by decide) 3 le_rfl rfl
    have fourth := fades.corner 3 (by decide) 3 (by decide) rfl
    omega
  have read : low t last (m + 2 + 1) 0 0 = (low t last (m + 2) 0 0 + low t last (m + 2) 1 0 +
      low t last (m + 2) 0 1 + low t last (m + 2) 1 1) / 4 :=
    texture.low_next room several rows generated (by omega) (by omega) (by omega) (texture.widthOf_pos _)
      (texture.heightOf_pos _)
  have expected := @Texture.low_clamped t texture room several rows _ _ generated (m + 2) (by omega)
  have single : widthOf t (m + 2 + 1) ≤ 1 := by
    apply log2_eq_zero_iff.mp
    rw [log2_widthOf]
    omega
  have double : 1 < heightOf t (m + 2 + 1) := by
    apply one_lt_of_log2
    rw [log2_heightOf]
    omega
  dsimp only at expected
  rw [min_eq_right (by omega : widthOf t (m + 2 + 1) - 1 ≤ 1), Nat.sub_eq_zero_of_le single, min_self,
    zero_min, min_eq_left (by omega : 1 ≤ heightOf t (m + 2 + 1) - 1)] at expected
  omega

end

/-!
## Textures whose levels are not averages
-/

section

variable {t : RsType} (texture : Texture t) (several : 2 ≤ t.mLodCount.toNat) (generates : Generates t)

include texture

theorem Texture.planeAt_eq {face z : Nat} (lt : lod < t.mLodCount.toNat) : planeAt t face lod (.ofNat z) =
      levelStart t face lod + z * heightOf t lod % 2 ^ 32 * tableStride t lod := by
  have place := @Cell.offset_eq t ⟨0, 0, z, lod, face⟩ (Nat.two_pow_pos 32)
  rw [texture.plain.table_lod lt, texture.plain.table_faceOffset_eq] at place
  simp only [LodState.ofLevel, Nat.zero_mul, Nat.zero_mod, add_zero] at place
  rw [levelStart, add_comm (face * _)]
  exact place

theorem Texture.stride_le (room : t.mLodCount.toNat ≤ MAX_LOD) (several : 2 ≤ t.mLodCount.toNat) : 16 ≤ tableStride t 0 := by
  have row := Nat.mul_le_mul (texture.widthOf_pos 0) texture.size.2.1
  rw [texture.stride_eq room several, alignUp]
  omega

include several generates

theorem Texture.planes_differ : t.mElement.getSizeBits ≠ 16 := by
  intro planes
  have room := generates.room
  have size : t.mElement.getSizeBytes = 2 := by
    have bits := texture.size.1
    omega
  obtain ⟨last, generated⟩ := generates.generated texture several (edgeAt (levelStart t 0 1) 255 0)
  have light (memory : Memory) (ptr : Nat) (all : ∀ i < 2, memory (ptr + i) = 255) : wordAt memory 2 ptr = 65535 := by
    have word : wordAt (fun _ => 255) 2 ptr = 65535 := by simp [wordAt, ByteMemory.read, decode]
    rw [← word]
    exact wordAt_congr all
  have dark (memory : Memory) (ptr : Nat) (all : ∀ i < 2, memory (ptr + i) = 0) : wordAt memory 2 ptr = 0 :=
    @wordAt_congr _ (fun _ => 0) 2 ptr all
  have stride := texture.stride_le room several
  have start : texelAt t 0 1 0 0 = levelStart t 0 1 := by
    rw [texelAt, Nat.zero_mul, Nat.zero_mul]
    rfl
  have rowEnd : tableStride t 0 ≤ levelStart t 0 1 := by
    rw [texture.levelStart_one]
    exact Nat.le_mul_of_pos_left _ (texture.heightOf_pos 0)
  have first : passRow t 0 0 (.ofNat 0 * 2) = 0 := by
    rw [passRow, if_pos planes]
    refine (texture.planeAt_eq (z := 0) (by omega)).trans ?_
    simp [levelStart_zero]
  have second : passRow t 0 0 (.ofNat 0 * 2 + 1) = levelStart t 0 1 := by
    have short := (texture.heightOf_lt room several 0).trans (by decide : 2 ^ 16 < 2 ^ 32)
    rw [passRow, if_pos planes]
    refine (texture.planeAt_eq (z := 1) (by omega)).trans ?_
    rw [levelStart_zero, texture.levelStart_one, one_mul, Nat.mod_eq_of_lt short, zero_add]
  obtain ⟨memory, behind, ahead, value⟩ := texture.texel_of_stage room several (generated.stage 0 several)
    several (texture.widthOf_pos _) (texture.heightOf_pos _)
  have bright (loc : Nat) (early : loc < levelStart t 0 1) : memory loc = 255 := by
    rw [behind loc ((levelStart_zero t).trans_le (Nat.zero_le _)) (start.symm ▸ early),
      generated.first loc early, edgeAt_before early]
  have shade (loc : Nat) (late : levelStart t 0 1 ≤ loc) : memory loc = 0 := by
    rw [ahead loc (.inr late) (start.trans_le late), edgeAt_behind late]
  dsimp only at value
  rw [first, second, size, planes, Nat.zero_mul, add_zero,
    light _ _ fun i inWord => bright _ (by omega), light _ _ fun i inWord => bright _ (by omega),
    dark _ _ fun i inWord => shade _ (by omega), dark _ _ fun i inWord => shade _ (by omega)] at value
  have average := generated.average 0 faceTotal_pos 0 several 0 (texture.level_pos _).1 0 (texture.level_pos _).2
  have clamped (x y : Nat) : clampedTexel t last 0 0 x y = channels 16 65535 := by
    have width := texture.widthOf_pos 0
    have height := texture.heightOf_pos 0
    have ends : texelAt t 0 0 (min x (widthOf t 0 - 1)) (min y (heightOf t 0 - 1)) +
        t.mElement.getSizeBytes ≤ levelStart t 0 1 :=
      texture.texelAt_end room several (by omega) (by omega)
    rw [texture.clampedTexel_eq room several (by omega), planes, size]
    refine congrArg (channels 16) (light _ _ fun i inWord => ?_)
    have early : texelAt t 0 0 (min x (widthOf t 0 - 1)) (min y (heightOf t 0 - 1)) + i < levelStart t 0 1 := by
      omega
    exact (generated.first _ early).trans (edgeAt_before early)
  rw [texture.texelChannels_eq room several several (texture.widthOf_pos _) (texture.heightOf_pos _), planes, size,
    value, clamped, clamped, clamped, clamped] at average
  exact absurd average (by decide)

theorem Texture.three_leaves_block (rows : t.mElement.getSizeBits ≠ 16)
    (square : t.dimX.toNat.log2 = t.dimY.toNat.log2) (four : t.mElement.getSizeBits = 32) : t.dimX ≠ 3 := by
  intro three
  have room := generates.room
  obtain ⟨last, generated⟩ := generates.generated texture several fun _ => 0
  have size : t.mElement.getSizeBytes = 4 := by
    have bits := texture.size.1
    omega
  have levels := texture.levels_eq several
  have width : widthOf t 0 = 3 := congrArg UInt32.toNat three
  have two : t.mLodCount.toNat = 2 := by
    have log : t.dimX.toNat.log2 = 1 := by
      rw [three]
      decide
    omega
  have stride : tableStride t 0 = 16 := by
    rw [texture.stride_eq room several, width, size]
    decide
  have short := texture.heightOf_lt room several 0
  have tall := texture.heightOf_pos 0
  have some : 0 < faceTotal t := faceTotal_pos
  obtain ⟨-, -, reads⟩ := generated.inside (faceTotal t - 1) (by omega) 0 several (heightOf t 0 - 1)
    (Nat.sub_lt tall (by decide)) 2 (by change 2 < widthOf t 0; omega)
  have faces : faceTotal t - 1 + 1 = faceTotal t := by omega
  have next : levelStart t (faceTotal t) 0 = levelStart t (faceTotal t - 1) 0 + heightOf t 0 * 16 + heightOf t 0 * 16 := by
    have sizes : tableSize t 0 = heightOf t 0 * 16 ∧ tableSize t 1 = heightOf t 0 * 16 := by
      rw [texture.tableSize_eq, texture.tableSize_eq, stride]
      exact ⟨rfl, congrArg (heightOf t 0 * ·) stride⟩
    rw [← faces, ← levelStart_end, two, levelStart_succ, levelStart_succ, sizes.1, sizes.2]
    rfl
  rw [(texture.passRow_eq rows (by omega) (by omega)).2, allocSize_levelStart texture.plain, next, texelAt,
    stride, size] at reads
  omega

theorem Texture.logs_eq (rows : t.mElement.getSizeBits ≠ 16) : t.dimX.toNat.log2 = t.dimY.toNat.log2 := by
  have room := generates.room
  rcases lt_trichotomy t.dimX.toNat.log2 t.dimY.toNat.log2 with narrow | eq | short
  · exfalso
    have stride := texture.stride_le room several
    have row := texture.row_le_stride room several 0
    obtain ⟨wide, tall⟩ := texture.two_pow_le le_rfl narrow 0
    have cols : 2 ^ t.dimX.toNat.log2 * t.mElement.getSizeBytes ≤ widthOf t 0 * t.mElement.getSizeBytes :=
      Nat.mul_le_mul_right _ wide
    rcases lt_or_ge (texelAt t 0 0 (2 ^ t.dimX.toNat.log2) (2 ^ (t.dimX.toNat.log2 + 1) - 1))
      (levelStart t 0 1) with spare | full
    · exact texture.narrow_leaves_block several rows generates rfl narrow spare
    · generalize logX : t.dimX.toNat.log2 = k at *
      have pos := Nat.two_pow_pos (k + 1)
      rw [texelAt_first, texture.levelStart_one] at full
      have lines : (2 ^ (k + 1) - 1) * tableStride t 0 + tableStride t 0 = 2 ^ (k + 1) * tableStride t 0 := by
        rw [← Nat.succ_mul]
        congr 1
        omega
      have all : 2 ^ (k + 1) * tableStride t 0 ≤ heightOf t 0 * tableStride t 0 := Nat.mul_le_mul_right _ tall
      have packed : tableStride t 0 = 2 ^ k * t.mElement.getSizeBytes := by omega
      have twice : heightOf t 0 = 2 ^ (k + 1) := Nat.eq_of_mul_eq_mul_right (by omega : 0 < tableStride t 0) (by omega)
      have large : 2 ≤ k := by
        by_contra small
        have pow : 2 ^ k ≤ 2 ^ 1 := Nat.pow_le_pow_right (by decide) (by omega)
        have bytes := Nat.mul_le_mul pow texture.size.2.2
        omega
      have logY : t.dimY.toNat.log2 = k + 1 := by
        change (heightOf t 0).log2 = k + 1
        simp [twice]
      obtain ⟨last, generated⟩ := generates.generated texture several (edgeAt (2 ^ k * tableStride t 0) 0 2)
      exact texture.packed_differs room several rows wide packed twice generated large logX logY
  · exact eq
  · exact (texture.low_leaves_block several rows generates rfl short).elim

omit several in
theorem Texture.halves_of_generates : Halves t := by
  have some := texture.plain.one_le_mLodCount
  refine ⟨generates.room, ?_⟩
  rcases some.eq_or_lt with one | several
  · exact .inl one.symm
  · have rows := texture.planes_differ several generates
    have square := texture.logs_eq several generates rows
    refine .inr ⟨rows, square, ?_⟩
    rintro ⟨four, three⟩
    exact texture.three_leaves_block several generates rows square four three

end

/-- Mipmaps are averages exactly for textures with both dimensions halved to one in the same step. -/
theorem generates_iff_halves {t : RsType} (texture : Texture t) : Generates t ↔ Halves t :=
  ⟨texture.halves_of_generates, texture.generates_of_halves⟩

private def levels (dimX dimY : UInt32) : RsType :=
  .create 0 (.mk 0 (.set .unsigned8 .user false 1) [])
    { dimX := dimX, dimY := dimY, dimZ := 0, mDimLOD := true, faces := false, dimYuv := 0 }

private theorem levels_texture {dimX dimY : UInt32} (wide : 0 < dimX.toNat) (tall : 0 < dimY.toNat) :
    Texture (levels dimX dimY) :=
  ⟨⟨rfl, rfl⟩, rfl, wide, tall, .inl rfl⟩

theorem generates_iff_halves_odd : Generates (levels 7 5) :=
  (generates_iff_halves (levels_texture (by decide) (by decide))).mpr ⟨by decide, .inr (by decide)⟩

/-- Two texels side by side, and one texel in the next level. It is a quarter of both, and of two texels of the
level itself. -/
theorem generates_lost : Texture (levels 2 1) ∧ ¬ Generates (levels 2 1) ∧
    ((rsdAllocationInit (levels 2 1) true (edgeAt 16 255 0)).bind fun a => a.rsdAllocationGenerateMipmaps.map fun after =>
        (texelChannels (levels 2 1) after.block { x := 0, y := 0, z := 0, lod := 0, face := 0 },
          texelChannels (levels 2 1) after.block { x := 1, y := 0, z := 0, lod := 0, face := 0 },
          texelChannels (levels 2 1) after.block { x := 0, y := 0, z := 0, lod := 1, face := 0 })) =
      some ([255], [255], [127]) := by
  have texture : Texture (levels 2 1) := levels_texture (by decide) (by decide)
  refine ⟨texture, fun generates => ?_, by decide +kernel⟩
  have square := texture.logs_eq (by decide) generates (by decide)
  exact absurd square (by decide)

end RenderScript.Copies
