import RenderScript.Allocation.ObjectCells
import RenderScript.Allocation.CellLayout

/-!
# Handles in the cells of an allocation

How often the cells of an allocation have the handle of an object, and what a line of cells that is
written changes.
-/

namespace RenderScript.Allocations
open ByteMemory LineCopies Elements RenderScript.Types List

def tally (memory : Memory) (places : List Nat) (ob : Nat) : Nat := (places.map (handleAt memory)).count ob

section

variable {memory other : Memory} {places : List Nat} {ob : Nat}

theorem tally_append (memory : Memory) (places more : List Nat) (ob : Nat) :
    tally memory (places ++ more) ob = tally memory places ob + tally memory more ob := by
  rw [tally, map_append, count_append]
  rfl

theorem tally_congr (same : ∀ p ∈ places, handleAt memory p = handleAt other p) (ob : Nat) :
    tally memory places ob = tally other places ob := by
  rw [tally, tally, map_congr_left same]

theorem tally_of_null (some : ob ≠ 0) (null : ∀ p ∈ places, handleAt memory p = 0) : tally memory places ob = 0 := by
  rw [tally, count_eq_zero]
  intro mem
  obtain ⟨p, inside, found⟩ := mem_map.mp mem
  exact some (found.symm.trans (null p inside))

theorem one_le_tally {p : Nat} (mem : p ∈ places) (found : handleAt memory p = ob) : 1 ≤ tally memory places ob :=
  count_pos_iff.mpr (mem_map.mpr ⟨p, mem, found⟩)

theorem handleAt_zero (p : Nat) : handleAt (fun _ => 0) p = 0 := rfl

theorem tally_write_cells {e : Element} (inside : RefsInside e) (memory src : Memory) (dst w ob : Nat) :
    tally (write memory ⟨dst, w * e.getSizeBytes⟩ src) (cellRefs e dst w) ob = tally src (cellRefs e 0 w) ob := by
  have eq : ∀ q ∈ cellRefs e 0 w, handleAt (write memory ⟨dst, w * e.getSizeBytes⟩ src) (dst + q) = handleAt src q := by
    intro q mem
    have ends := (inside.mem_cellRefs mem).2
    exact handleAt_write_inside (ends.trans_eq (zero_add _))
  rw [tally, tally, cellRefs_shift, map_map]
  exact congrArg (List.count ob) (map_congr_left eq)

theorem tally_cellRefs (memory : Memory) (e : Element) (ptr ct ob : Nat) : tally memory (cellRefs e ptr ct) ob =
      ∑ i ∈ Finset.range ct, tally memory (e.references.map (ptr + i * e.getSizeBytes + ·)) ob := by
  induction ct with
  | zero => rfl
  | succ ct ih =>
    have last : cellRefs e (ptr + ct * e.getSizeBytes) 1 = e.references.map (ptr + ct * e.getSizeBytes + ·) := by
      rw [cellRefs, range_one, flatMap_singleton, Nat.zero_mul, add_zero]
    rw [cellRefs_add, tally_append, ih, last, Finset.sum_range_succ]

end

deriving instance DecidableEq for Cell

def cells (t : RsType) : Finset Cell :=
  (Finset.range (faceTotal t)).biUnion fun face =>
    (Finset.range t.mLodCount.toNat).biUnion fun lod =>
      (Finset.range (max (t.mLodDim lod).z.toNat 1)).biUnion fun z =>
        (Finset.range (max (t.mLodDim lod).y.toNat 1)).biUnion fun y =>
          (Finset.range (t.mLodDim lod).x.toNat).image fun x => ⟨x, y, z, lod, face⟩

def Cell.handles (t : RsType) (c : Cell) : List Nat := t.mElement.references.map (c.offset t + ·)

def handleCount (t : RsType) (memory : Memory) (ob : Nat) : Nat :=
  ∑ c ∈ cells t, tally memory (c.handles t) ob

section

variable {t : RsType} {c : Cell} {w ob : Nat} {memory : Memory}

theorem mem_cells : c ∈ cells t ↔ c.In t := by
  simp only [cells, Finset.mem_biUnion, Finset.mem_range, Finset.mem_image]
  constructor
  · rintro ⟨face, inFace, lod, inLod, z, inZ, y, inY, x, inX, rfl⟩
    exact ⟨inLod, inFace, inX, inY, inZ⟩
  · intro isIn
    exact ⟨c.face, isIn.face, c.lod, isIn.lod, c.z, isIn.z, c.y, isIn.y, c.x, isIn.x, rfl⟩

theorem handleCount_zero (some : ob ≠ 0) : handleCount t (fun _ => 0) ob = 0 :=
  Finset.sum_eq_zero fun _ _ => tally_of_null some fun p _ => handleAt_zero p

def lineCells (c : Cell) (w : Nat) : Finset Cell := (Finset.range w).image fun i => { c with x := c.x + i }

def Cell.line (c : Cell) (w : Nat) : Box := ⟨c.x, c.y, c.z, w, 1, 1, c.lod, c.face⟩

theorem mem_lineCells {other : Cell} : other ∈ lineCells c w ↔ (c.line w).Has other := by
  simp only [lineCells, Finset.mem_image, Finset.mem_range]
  constructor
  · rintro ⟨i, lt, rfl⟩
    refine ⟨rfl, rfl, ⟨Nat.le_add_right _ _, Nat.add_lt_add_left lt _⟩, ?_, ?_⟩
    · exact ⟨le_rfl, Nat.lt_succ_self _⟩
    · exact ⟨le_rfl, Nat.lt_succ_self _⟩
  · rintro ⟨lod, face, x, y, z⟩
    obtain ⟨i, right⟩ := Nat.exists_eq_add_of_le x.1
    have inLine := x.2
    have inY : c.y = other.y := le_antisymm y.1 (Nat.le_of_lt_succ y.2)
    have inZ : c.z = other.z := le_antisymm z.1 (Nat.le_of_lt_succ z.2)
    refine ⟨i, ?_, ?_⟩
    · change other.x = c.x + i at right
      change other.x < c.x + w at inLine
      omega
    · cases other
      exact (Cell.mk.injEq ..).mpr ⟨right.symm, inY, inZ, lod.symm, face.symm⟩

theorem line_in {other : Cell} (isIn : (c.line w).In t) (inLine : other ∈ lineCells c w) : other.In t := by
  obtain ⟨i, lt, rfl⟩ := Finset.mem_image.mp inLine
  refine ⟨isIn.lod, isIn.face, ?_, isIn.y, isIn.z⟩
  exact (Nat.add_lt_add_left (Finset.mem_range.mp lt) _).trans_le isIn.x

theorem line_subset (isIn : (c.line w).In t) : lineCells c w ⊆ cells t := fun _ inLine => mem_cells.mpr (line_in isIn inLine)

theorem lines_line (c : Cell) (w : Nat) : 0 < (c.line w).lines := one_pos

theorem lineAt_line (t : RsType) (c : Cell) (w : Nat) : (c.line w).lineAt t 0 = c.offset t := by
  have first : (c.line w).lineCell 0 = c := by
    cases c
    simp [Box.lineCell, Cell.line]
  rw [Box.lineAt, first]

theorem RowsFit.small (fits : RowsFit t) (plain : Plain t) (isIn : (c.line w).In t)
    (some : w ≠ 0) : t.mElement.getSizeBytes < 2 ^ 32 := by
  have short := fits.width_lt ((Nat.le_add_left _ _).trans (isIn.width plain))
  exact (Nat.le_mul_of_pos_left _ (pos_of_ne_zero some)).trans_lt short

theorem RowsFit.short (fits : RowsFit t) : t.dimX.toNat * t.mElement.getSizeBytes + 15 < 2 ^ 32 := by
  rcases fits with empty | ⟨short, -, -⟩
  · rw [empty]
    decide
  · exact short

section

variable (plain : Plain t) (fits : RowsFit t) (isIn : (c.line w).In t)

include plain fits isIn

theorem line_inside : c.offset t + w * t.mElement.getSizeBytes ≤ (allocationBuildPointerTable t).allocSize := by
  have inside := isIn.inside plain fits (lines_line c w)
  rw [lineAt_line] at inside
  exact inside

theorem sum_lineCells (memory : Memory) (ob : Nat) : ∑ other ∈ lineCells c w, tally memory (other.handles t) ob =
      tally memory (cellRefs t.mElement (c.offset t) w) ob := by
  have ne : Set.InjOn (fun i => { c with x := c.x + i }) (Finset.range w : Set Nat) := by
    intro i _ j _ eq
    exact add_left_cancel (congrArg Cell.x eq)
  rw [lineCells, Finset.sum_image ne, tally_cellRefs]
  apply Finset.sum_congr rfl
  intro i lt
  have has : (c.line w).Has { c with x := c.x + i } := mem_lineCells.mp (Finset.mem_image_of_mem _ lt)
  have place := isIn.offset_of_has plain fits has
  have first : (c.line w).lineOf { c with x := c.x + i } = 0 := by
    simp [Box.lineOf, Cell.line]
  rw [first, lineAt_line] at place
  change _ = c.offset t + (c.x + i - c.x) * t.mElement.getSizeBytes at place
  rw [Nat.add_sub_cancel_left] at place
  rw [Cell.handles, place]

theorem handleCount_line (memory : Memory) (ob : Nat) :
    handleCount t memory ob = tally memory (cellRefs t.mElement (c.offset t) w) ob +
      ∑ other ∈ cells t \ lineCells c w, tally memory (other.handles t) ob := by
  rw [← sum_lineCells plain fits isIn, add_comm]
  exact (Finset.sum_sdiff (line_subset isIn)).symm

theorem handleCount_write (inside : RefsInside t.mElement) (memory src : Memory) (ob : Nat) :
    handleCount t (write memory ⟨c.offset t, w * t.mElement.getSizeBytes⟩ src) ob +
        tally memory (cellRefs t.mElement (c.offset t) w) ob =
      handleCount t memory ob + tally src (cellRefs t.mElement 0 w) ob := by
  have others : ∀ other ∈ cells t \ lineCells c w,
      tally (write memory ⟨c.offset t, w * t.mElement.getSizeBytes⟩ src) (other.handles t) ob =
        tally memory (other.handles t) ob := by
    intro other mem
    obtain ⟨otherIn, outside⟩ := Finset.mem_sdiff.mp mem
    apply tally_congr
    intro p handle
    obtain ⟨r, known, rfl⟩ := mem_map.mp handle
    have fits4 := inside r known
    apply handleAt_congr
    intro i small
    have apart := isIn.outside plain fits (mem_cells.mp otherIn) (fun has => outside (mem_lineCells.mpr has))
      (show r + i < t.mElement.getSizeBytes by omega) 0 (lines_line c w)
    rw [lineAt_line, ← add_assoc] at apart
    exact write_outside _ _ apart
  rw [handleCount_line plain fits isIn memory, handleCount_line plain fits isIn (write _ _ _),
    tally_write_cells inside, Finset.sum_congr rfl others]
  omega

end

end

section

variable {t : RsType} (plain : Plain t)

include plain

theorem first_row_in : ((rowCell 0).line t.dimX.toNat).In t where
  lod := plain.one_le_mLodCount
  face := faceTotal_pos
  x := by
    rw [Cell.line, rowCell, plain.mLodDim]
    exact (zero_add _).le
  y := le_max_right _ _
  z := le_max_right _ _

theorem handleCount_first (fits : RowsFit t) (memory : Memory) (ob : Nat) :
    handleCount t memory ob = tally memory (cellRefs t.mElement 0 t.dimX.toNat) ob +
      ∑ other ∈ cells t \ lineCells (rowCell 0) t.dimX.toNat, tally memory (other.handles t) ob := by
  have first : (rowCell 0).offset t = 0 := by
    simp [plain.offset_rowCell]
  have split := handleCount_line plain fits (first_row_in plain) memory ob
  rw [first] at split
  exact split

end

def handlePlaces (t : RsType) : Multiset Nat := (cells t).val.bind fun c => (c.handles t : Multiset Nat)

section

variable {t : RsType} {memory other : Memory} {p ob : Nat}

theorem handleCount_eq_count (t : RsType) (memory : Memory) (ob : Nat) :
    handleCount t memory ob = ((handlePlaces t).map (handleAt memory)).count ob := by
  rw [handlePlaces, Multiset.map_bind, Multiset.count_bind]
  simp only [Multiset.map_coe, Multiset.coe_count]
  rfl

theorem handleAt_eq (memory : Memory) (p : Nat) : handleAt memory p = (memory p).toNat + 256 * ((memory (p + 1)).toNat +
      256 * ((memory (p + 2)).toNat + 256 * (memory (p + 3)).toNat)) := by
  rfl

theorem handleAt_le (grows : ∀ i < 4, (memory (p + i)).toNat ≤ (other (p + i)).toNat) : handleAt memory p ≤ handleAt other p := by
  have first := grows 0 (by decide)
  have second := grows 1 (by decide)
  have third := grows 2 (by decide)
  have fourth := grows 3 (by decide)
  rw [add_zero] at first
  rw [handleAt_eq, handleAt_eq]
  omega

theorem handleAt_lt (grows : ∀ i < 4, (memory (p + i)).toNat ≤ (other (p + i)).toNat) {i : Nat} (inHandle : i < 4)
    (more : (memory (p + i)).toNat < (other (p + i)).toNat) : handleAt memory p < handleAt other p := by
  have first := grows 0 (by decide)
  have second := grows 1 (by decide)
  have third := grows 2 (by decide)
  have fourth := grows 3 (by decide)
  rw [add_zero] at first
  rw [handleAt_eq, handleAt_eq]
  interval_cases i
  · rw [add_zero] at more
    omega
  · omega
  · omega
  · omega

theorem sum_eq_of_count {s s' : Multiset Nat} (same : ∀ v, v ≠ 0 → s.count v = s'.count v) : s.sum = s'.sum := by
  have others : s.filter (· ≠ 0) = s'.filter (· ≠ 0) := by
    ext v
    by_cases zero : v = 0
    · simp [zero]
    · simp [zero, same v zero]
  have split (s : Multiset Nat) : s.sum = (s.filter (· ≠ 0)).sum := by
    have none : (s.filter fun v => ¬ v ≠ 0).sum = 0 :=
      Multiset.sum_eq_zero fun v mem => not_not.mp (Multiset.mem_filter.mp mem).2
    have both := congrArg Multiset.sum (Multiset.filter_add_not (· ≠ 0) s)
    rw [Multiset.sum_add, none, add_zero] at both
    exact both.symm
  rw [split s, split s', others]

theorem exists_count_ne {places : Multiset Nat}
    (grows : ∀ location, (memory location).toNat ≤ (other location).toNat) (mem : p ∈ places) {i : Nat}
    (inHandle : i < 4) (more : (memory (p + i)).toNat < (other (p + i)).toNat) :
    ∃ ob, ob ≠ 0 ∧ (places.map (handleAt memory)).count ob ≠ (places.map (handleAt other)).count ob := by
  by_contra same
  have equal : (places.map (handleAt memory)).sum = (places.map (handleAt other)).sum := by
    apply sum_eq_of_count
    intro ob some
    by_contra different
    exact same ⟨ob, some, different⟩
  have less := Multiset.sum_lt_sum (fun q _ => handleAt_le fun j _ => grows (q + j))
      ⟨p, mem, handleAt_lt (fun j _ => grows (p + j)) inHandle more⟩
  exact less.ne equal

end

end RenderScript.Allocations
