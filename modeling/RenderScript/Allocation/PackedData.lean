import RenderScript.Foundation.PieceCopies
import RenderScript.Allocation.AllocationProperties

/-!
# Packed data

When `writePackedData` of rsAllocation.cpp, from padded to packed form and back, restores the bytes
of all items that are not padding.
-/

namespace RenderScript.Elements

/-- `name[0] == '#'` -/
def FieldLabel.isPadding (label : FieldLabel) : Bool := label.name.bytes.head? = some 35

mutual

/-- The bytes of an element that are not padding, by the offsets of its fields and the strides of arrays. -/
def Element.dataBytes : Element → List Nat
  | .mk _ mComponent [] =>
    List.range (((mComponent.mBitsUnpadded.getD mComponent.mBits).toNat + 7) >>> 3)
  | .mk _ _ (field :: rest) => dataBytesIn (field :: rest) 0

def dataBytesIn : List (FieldLabel × Element) → Nat → List Nat
  | [], _ => []
  | (label, e) :: rest, bits =>
    (if label.isPadding then []
      else (List.range label.arraySize.toNat).flatMap fun ct =>
        e.dataBytes.map ((UInt32.ofNat bits >>> 3).toNat + ct * e.getSizeBytes + ·)) ++
      dataBytesIn rest (bits + e.getSizeBits * label.arraySize.toNat)

end

end RenderScript.Elements

namespace RenderScript.Allocations
open AlignedBytes ByteMemory LineCopies PieceCopies Elements RenderScript.Types List Option

def piece (place : FieldPlace) : Piece :=
  ⟨place.offset.toNat, place.offsetUnpadded.toNat, place.sizeUnpadded.toNat⟩

def pieces (dstPadded : Bool) (places : List FieldPlace) : List Piece :=
  places.map fun place => if dstPadded then (piece place).flip else piece place

section

variable {src dst dst' : Memory} {srcSize dstSize srcAt dstAt srcInc dstInc : Nat} {dstPadded : Bool}
  {places : List FieldPlace}

theorem readAt_lookBlock_iff {size start count : Nat} {bytes : List UInt8} :
    readAt (lookBlock size src) start count = some bytes ↔
      (count = 0 ∨ start + count ≤ size) ∧ bytes = (List.range' start count).map src := by
  induction count generalizing start bytes with
  | zero => simp [readAt, eq_comm]
  | succ count ih =>
    rw [readAt, lookBlock]
    split
    case isFalse out =>
      refine iff_of_false (by simp) fun both => ?_
      omega
    case isTrue inside =>
      simp only [bind_eq_bind, bind_some, bind_eq_some_iff, ih, range'_succ, map_cons]
      constructor
      · rintro ⟨rest, ⟨bound, rfl⟩, found⟩
        exact ⟨by omega, (Option.some.inj found).symm⟩
      · rintro ⟨bound, rfl⟩
        exact ⟨_, ⟨by omega, rfl⟩, rfl⟩

theorem memcpy_range' {size start count at' : Nat} : memcpy size dst at' ((List.range' start count).map src) = some dst' ↔
      at' + count ≤ size ∧ dst' = write dst ⟨at', count⟩ fun k => src (start + k) := by
  have eq : (fun i => if i < at' then dst i
      else (((List.range' start count).map src)[i - at']?).getD (dst i)) =
        write dst ⟨at', count⟩ fun k => src (start + k) := by
    funext i
    unfold write
    split
    case isTrue before => rw [if_neg fun held => Nat.not_le_of_lt before held.1]
    case isFalse behind =>
      split
      case isTrue held =>
        have inside : i - at' < count := by
          have lt : i < at' + count := held.2
          omega
        rw [List.getElem?_map, List.getElem?_range' inside, map_some, getD_some, one_mul]
      case isFalse out =>
        have short : ((List.range' start count).map src).length ≤ i - at' := by
          have behindAll : ¬ (at' ≤ i ∧ i < at' + count) := out
          rw [length_map, length_range']
          omega
        simp [List.getElem?_eq_none short]
  rw [memcpy, length_map, length_range', eq]
  split
  case isTrue inside => simp [inside, eq_comm]
  case isFalse out => simp [out]

def ItemInside (srcSize dstSize srcAt dstAt : Nat) (pieces : List Piece) : Prop :=
  ∀ p ∈ pieces, (p.size = 0 ∨ srcAt + p.source + p.size ≤ srcSize) ∧ dstAt + p.target + p.size ≤ dstSize

theorem copyPlaces_eq_some_iff : copyPlaces dstSize (lookBlock srcSize src) srcAt dstAt dstPadded places dst = some dst' ↔
      ItemInside srcSize dstSize srcAt dstAt (pieces dstPadded places) ∧
        dst' = copyPieces src srcAt dstAt (pieces dstPadded places) dst := by
  induction places generalizing dst with
  | nil =>
    rw [copyPlaces, some_inj, pieces, map_nil, copyPieces]
    have none : ItemInside srcSize dstSize srcAt dstAt [] := fun p mem => absurd mem not_mem_nil
    rw [and_iff_right none]
    exact eq_comm
  | cons place rest ih =>
    have source : (if dstPadded then place.offsetUnpadded else place.offset).toNat =
        (if dstPadded then (piece place).flip else piece place).source := by
      cases dstPadded with
      | false => rfl
      | true => rfl
    have target : (if dstPadded then place.offset else place.offsetUnpadded).toNat =
        (if dstPadded then (piece place).flip else piece place).target := by
      cases dstPadded with
      | false => rfl
      | true => rfl
    have size : place.sizeUnpadded.toNat = (if dstPadded then (piece place).flip else piece place).size := by
      cases dstPadded with
      | false => rfl
      | true => rfl
    have split : pieces dstPadded (place :: rest) =
        (if dstPadded then (piece place).flip else piece place) :: pieces dstPadded rest := rfl
    rw [copyPlaces, source, target, size, split, copyPieces, ItemInside, forall_mem_cons]
    simp only [bind_eq_bind, bind_eq_some_iff, readAt_lookBlock_iff]
    constructor
    · rintro ⟨bytes, ⟨readable, rfl⟩, mid, copied, others⟩
      obtain ⟨room, rfl⟩ := memcpy_range'.mp copied
      obtain ⟨inside, rfl⟩ := ih.mp others
      exact ⟨⟨⟨readable, room⟩, inside⟩, rfl⟩
    · rintro ⟨⟨⟨readable, room⟩, inside⟩, rfl⟩
      exact ⟨_, ⟨readable, rfl⟩, _, memcpy_range'.mpr ⟨room, rfl⟩, ih.mpr ⟨inside, rfl⟩⟩

theorem copyItems_eq_some_iff {items : Nat} :
    copyItems dstSize (lookBlock srcSize src) srcInc dstInc dstPadded places items srcAt dstAt dst = some dst' ↔
      (∀ i < items, ItemInside srcSize dstSize (srcAt + i * srcInc) (dstAt + i * dstInc) (pieces dstPadded places)) ∧
        dst' = PieceCopies.copyItems src srcInc dstInc (pieces dstPadded places) items srcAt dstAt dst := by
  induction items generalizing srcAt dstAt dst with
  | zero =>
    rw [copyItems, some_inj, PieceCopies.copyItems]
    rw [and_iff_right fun i lt => absurd lt (Nat.not_lt_zero i)]
    exact eq_comm
  | succ items ih =>
    have next (at' inc i : Nat) : at' + (i + 1) * inc = at' + inc + i * inc := by
      rw [Nat.succ_mul]
      omega
    rw [copyItems, PieceCopies.copyItems, Nat.forall_lt_succ_left]
    simp only [bind_eq_bind, bind_eq_some_iff, copyPlaces_eq_some_iff, next, Nat.zero_mul, add_zero, and_assoc]
    constructor
    · rintro ⟨mid, inside, rfl, others⟩
      exact ⟨inside, ih.mp others⟩
    · rintro ⟨inside, others⟩
      exact ⟨_, inside, rfl, ih.mpr others⟩

end

section

variable {t : RsType} {unpadded : Nat} {src dst dst' : Memory} {srcSize dstSize : Nat} {dstPadded : Bool}

def paddedBytes (t : RsType) : Nat := (UInt32.ofNat t.mElement.getSizeBytes).toNat

def numItems (t : RsType) : Nat := (UInt32.ofNat (getPackedSizeBytes t / paddedBytes t)).toNat

theorem writePackedData_eq_some_iff (known : t.mElement.getSizeBytesUnpadded = some unpadded) :
    writePackedData t dstSize dst (lookBlock srcSize src) dstPadded = some dst' ↔
      paddedBytes t ≠ 0 ∧ ∃ places, t.mElement.places = some places ∧ copyItems dstSize (lookBlock srcSize src)
          (if dstPadded then (UInt32.ofNat unpadded).toNat else paddedBytes t)
          (if dstPadded then paddedBytes t else (UInt32.ofNat unpadded).toNat) dstPadded places (numItems t) 0 0 dst =
            some dst' := by
  have zero : UInt32.ofNat t.mElement.getSizeBytes = 0 ↔ paddedBytes t = 0 := (UInt32.toNat_inj (b := 0)).symm
  rw [writePackedData, known]
  simp only [bind_eq_bind, bind_some, bind_eq_some_iff, zero, apply_ite UInt32.toNat]
  constructor
  · rintro ⟨places, found, copied⟩
    split at copied
    case isTrue => cases copied
    case isFalse some => exact ⟨some, places, found, copied⟩
  · rintro ⟨some, places, found, copied⟩
    refine ⟨places, found, ?_⟩
    rw [if_neg some]
    exact copied

end

/-- The pieces of an item are inside it in both forms and fill the packed one, and each byte of `data` is in a
piece, behind which no piece has the byte in the padded form or its copy in the packed form. -/
structure Packing (pieces : List Piece) (padded unpadded : Nat) (data : List Nat) : Prop where
  padded : ∀ p ∈ pieces, p.source + p.size ≤ padded
  packed : ∀ p ∈ pieces, p.target + p.size ≤ unpadded
  covered : ∀ b < unpadded, ∃ p ∈ pieces, p.Writes b
  restored : ∀ b ∈ data, ∃ before p after, pieces = before ++ p :: after ∧ p.Reads b ∧
    ∀ q ∈ after, ¬ q.Reads b ∧ ¬ q.Writes (p.target + (b - p.source))

/-- Items that are packed and unpacked have their data again. All bytes of the packed form are written: they do
not depend on what was there. -/
def PacksBack (t : RsType) : Prop :=
  ∃ unpadded, t.mElement.getSizeBytesUnpadded = some unpadded ∧
    numItems t * (UInt32.ofNat unpadded).toNat = numItems t * unpadded ∧
    ∀ src scratch fresh : Memory, ∃ packed restored,
      writePackedData t (numItems t * unpadded) scratch (lookBlock (numItems t * paddedBytes t) src) false =
        some packed ∧
      writePackedData t (numItems t * paddedBytes t) fresh (lookBlock (numItems t * unpadded) packed) true =
        some restored ∧
      (∀ i < numItems t, ∀ b ∈ t.mElement.dataBytes, restored (i * paddedBytes t + b) = src (i * paddedBytes t + b)) ∧
      ∀ scratch' packed',
        writePackedData t (numItems t * unpadded) scratch' (lookBlock (numItems t * paddedBytes t) src) false =
          some packed' → ∀ b < numItems t * unpadded, packed' b = packed b

section

variable {pieces : List Piece} {padded unpadded items : Nat} {data : List Nat}

theorem itemInside_iff (some : items ≠ 0) :
    (∀ i < items, ItemInside (items * padded) (items * unpadded) (0 + i * padded) (0 + i * unpadded) pieces) ↔
      ∀ p ∈ pieces, (p.size = 0 ∨ p.source + p.size ≤ padded) ∧ p.target + p.size ≤ unpadded := by
  obtain ⟨before, rfl⟩ := Nat.exists_eq_succ_of_ne_zero some
  constructor
  · intro inside p mem
    have last := inside before (Nat.lt_succ_self _) p mem
    rw [Nat.succ_mul, Nat.succ_mul] at last
    omega
  · intro inside i lt p mem
    have item := inside p mem
    have source := Nat.mul_le_mul_right padded (Nat.succ_le_of_lt lt)
    have target := Nat.mul_le_mul_right unpadded (Nat.succ_le_of_lt lt)
    rw [Nat.succ_mul] at source target
    omega

def packItems (pieces : List Piece) (padded unpadded items : Nat) (src scratch : Memory) : Memory :=
  PieceCopies.copyItems src padded unpadded pieces items 0 0 scratch

def unpackItems (pieces : List Piece) (padded unpadded items : Nat) (packed fresh : Memory) : Memory :=
  PieceCopies.copyItems packed unpadded padded (pieces.map Piece.flip) items 0 0 fresh

theorem forall_flip {P : Piece → Prop} : (∀ p ∈ pieces.map Piece.flip, P p) ↔ ∀ p ∈ pieces, P p.flip := List.forall_mem_map

section

variable {i b : Nat} {src scratch packed fresh : Memory}

theorem packItems_at (inside : ∀ p ∈ pieces, p.target + p.size ≤ unpadded) (inItems : i < items) (inItem : b < unpadded) :
    packItems pieces padded unpadded items src scratch (i * unpadded + b) =
      ((originOf pieces b).map fun s => src (i * padded + s)).getD (scratch (i * unpadded + b)) := by
  have copied := @copyItems_at src scratch pieces 0 0 padded _ items b inside i inItems inItem
  rw [zero_add, zero_add] at copied
  exact copied

theorem unpackItems_at (inside : ∀ p ∈ pieces, p.source + p.size ≤ padded) (inItems : i < items) (inItem : b < padded) :
    unpackItems pieces padded unpadded items packed fresh (i * padded + b) =
      ((originOf (pieces.map Piece.flip) b).map fun s => packed (i * unpadded + s)).getD (fresh (i * padded + b)) := by
  have copied := @copyItems_at packed fresh _ 0 0 unpadded padded items b (forall_flip.mpr inside) i inItems inItem
  rw [zero_add, zero_add] at copied
  exact copied

end

structure Exchanged (pieces : List Piece) (padded unpadded items : Nat) (data : List Nat) : Prop where
  restored : ∀ src scratch fresh, ∀ i < items, ∀ b ∈ data,
    unpackItems pieces padded unpadded items (packItems pieces padded unpadded items src scratch) fresh
      (i * padded + b) = src (i * padded + b)
  written : ∀ src scratch scratch', ∀ b < items * unpadded,
    packItems pieces padded unpadded items src scratch' b = packItems pieces padded unpadded items src scratch b

theorem Packing.exchanged (packing : Packing pieces padded unpadded data) : Exchanged pieces padded unpadded items data := by
  constructor
  · intro src scratch fresh i lt b mem
    obtain ⟨c, back, forth⟩ := bind_eq_some_iff.mp (originOf_flip_iff.mpr (packing.restored b mem))
    obtain ⟨_, p, _, split, writes, -, -⟩ := originOf_eq_some_iff.mp forth
    have inPacked : c < unpadded := writes.2.trans_le (packing.packed p (split ▸ mem_append_right _ mem_cons_self))
    obtain ⟨_, q, _, parts, reads, -⟩ := packing.restored b mem
    have inPadded : b < padded := reads.2.trans_le (packing.padded q (parts ▸ mem_append_right _ mem_cons_self))
    simp [unpackItems_at packing.padded lt inPadded, back, packItems_at packing.packed lt inPacked, forth]
  · intro src scratch scratch' b lt
    have some : 0 < unpadded := pos_of_ne_zero fun zero => by
      rw [zero, Nat.mul_zero] at lt
      exact Nat.not_lt_zero _ lt
    have inItems := (Nat.div_lt_iff_lt_mul some).mpr lt
    have inItem : b % unpadded < unpadded := Nat.mod_lt _ some
    have place := (Nat.div_add_mod' b unpadded).symm
    cases found : originOf pieces (b % unpadded) with
    | none =>
      obtain ⟨p, mem, writes⟩ := packing.covered _ inItem
      exact absurd writes (originOf_eq_none_iff.mp found p mem)
    | some s =>
      rw [place, packItems_at packing.packed inItems inItem, packItems_at packing.packed inItems inItem, found]
      rfl

section

variable (nonempty : items ≠ 0) (inPadded : ∀ p ∈ pieces, p.source + p.size ≤ padded)
  (inPacked : ∀ p ∈ pieces, p.target + p.size ≤ unpadded) (exchanged : Exchanged pieces padded unpadded items data)

include nonempty exchanged

theorem Exchanged.lt_padded (inPadded : ∀ p ∈ pieces, p.source + p.size ≤ padded) {b : Nat} (mem : b ∈ data) : b < padded := by
  by_contra outside
  obtain ⟨before, rfl⟩ := Nat.exists_eq_succ_of_ne_zero nonempty
  have behind : 0 + (before + 1) * padded ≤ before * padded + b := by
    rw [Nat.succ_mul]
    omega
  have eq := exchanged.restored (fun _ => 1) (fun _ => 0) (fun _ => 0) before (Nat.lt_succ_self _) b mem
  rw [unpackItems, copyItems_behind (forall_flip.mpr inPadded) behind] at eq
  cases eq

include inPacked

theorem Exchanged.originOf_ne_none {b : Nat} (inItem : b < unpadded) : originOf pieces b ≠ none := by
  intro none
  have first := inItem.trans_le (Nat.le_mul_of_pos_left _ (pos_of_ne_zero nonempty))
  have place : b = 0 * unpadded + b := by rw [Nat.zero_mul, zero_add]
  have eq := exchanged.written (fun _ => 0) (fun _ => 0) (fun _ => 1) b first
  rw [place, packItems_at inPacked (pos_of_ne_zero nonempty) inItem,
    packItems_at inPacked (pos_of_ne_zero nonempty) inItem, none] at eq
  cases eq

include inPadded

theorem Exchanged.packing : Packing pieces padded unpadded data := by
  refine ⟨inPadded, inPacked, ?_, ?_⟩
  · intro b inItem
    by_contra uncovered
    refine exchanged.originOf_ne_none nonempty inPacked inItem (originOf_eq_none_iff.mpr fun p mem writes => ?_)
    exact uncovered ⟨p, mem, writes⟩
  · intro b mem
    have first : 0 < items := pos_of_ne_zero nonempty
    have inItem := exchanged.lt_padded nonempty inPadded mem
    -- contents in which the byte differs from all others
    have eq := exchanged.restored (fun l => if l = b then 1 else 0) (fun _ => 0) (fun _ => 0) 0 first b mem
    rw [unpackItems_at inPadded first inItem, if_pos (by rw [Nat.zero_mul, zero_add])] at eq
    apply originOf_flip_iff.mp
    cases back : originOf (pieces.map Piece.flip) b with
    | none =>
      rw [back] at eq
      cases eq
    | some c =>
      obtain ⟨before, p, after, split, writes, place, -⟩ := originOf_eq_some_iff.mp back
      have flipped := split ▸ mem_append_right _ mem_cons_self
      obtain ⟨q, inPieces, rfl⟩ := List.mem_map.mp flipped
      have low : q.source ≤ b := writes.1
      have high : b < q.source + q.size := writes.2
      have bound := inPacked q inPieces
      have inUnpadded : c < unpadded := by
        change c = q.target + (b - q.source) at place
        omega
      rw [back, map_some, getD_some, packItems_at inPacked first inUnpadded] at eq
      cases forth : originOf pieces c with
      | none => exact absurd forth (exchanged.originOf_ne_none nonempty inPacked inUnpadded)
      | some s =>
        rw [forth, map_some, getD_some, Nat.zero_mul, zero_add] at eq
        rw [bind_some, forth]
        by_cases equal : s = b
        · rw [equal]
        · rw [if_neg equal] at eq
          cases eq

end

end

section

variable {t : RsType} {places : List FieldPlace} {unpadded : Nat}

theorem pieces_true (places : List FieldPlace) : pieces true places = (places.map piece).map Piece.flip := by
  rw [List.map_map]
  rfl

section

variable (known : t.mElement.getSizeBytesUnpadded = some unpadded) (found : t.mElement.places = some places)
  (bytes : paddedBytes t ≠ 0) (small : unpadded < 2 ^ 32)

include known found bytes small

theorem pack_eq_some_iff {src scratch packed : Memory} :
    writePackedData t (numItems t * unpadded) scratch (lookBlock (numItems t * paddedBytes t) src) false = some packed ↔
      (∀ i < numItems t, ItemInside (numItems t * paddedBytes t) (numItems t * unpadded) (0 + i * paddedBytes t)
        (0 + i * unpadded) (places.map piece)) ∧
      packed = packItems (places.map piece) (paddedBytes t) unpadded (numItems t) src scratch := by
  rw [writePackedData_eq_some_iff known, and_iff_right bytes, found, UInt32.toNat_ofNat_of_lt' small]
  simp only [some_inj, exists_eq_left', copyItems_eq_some_iff]
  rfl

theorem unpack_eq_some_iff {packed fresh restored : Memory} :
    writePackedData t (numItems t * paddedBytes t) fresh (lookBlock (numItems t * unpadded) packed) true = some restored ↔
      (∀ i < numItems t, ItemInside (numItems t * unpadded) (numItems t * paddedBytes t) (0 + i * unpadded)
        (0 + i * paddedBytes t) ((places.map piece).map Piece.flip)) ∧
      restored = unpackItems (places.map piece) (paddedBytes t) unpadded (numItems t) packed fresh := by
  rw [writePackedData_eq_some_iff known, and_iff_right bytes, found, UInt32.toNat_ofNat_of_lt' small]
  simp only [some_inj, exists_eq_left', copyItems_eq_some_iff, pieces_true]
  rfl

end

/-- Items come back exactly if there are none, or the first entries of the fields are a packing. -/
theorem packs_back_iff (t : RsType) : PacksBack t ↔ ∃ unpadded places, t.mElement.getSizeBytesUnpadded = some unpadded ∧
      t.mElement.places = some places ∧ paddedBytes t ≠ 0 ∧
      (numItems t = 0 ∨ unpadded < 2 ^ 32 ∧ Packing (places.map piece) (paddedBytes t) unpadded t.mElement.dataBytes) := by
  constructor
  · rintro ⟨unpadded, known, whole, always⟩
    obtain ⟨packed, restored, packs, unpacks, -⟩ := always (fun _ => 0) (fun _ => 0) fun _ => 0
    obtain ⟨bytes, places, found, -⟩ := (writePackedData_eq_some_iff known).mp packs
    refine ⟨unpadded, places, known, found, bytes, ?_⟩
    by_cases items : numItems t = 0
    · exact .inl items
    have small : unpadded < 2 ^ 32 := by
      rw [← Nat.eq_of_mul_eq_mul_left (pos_of_ne_zero items) whole]
      exact UInt32.toNat_lt _
    refine .inr ⟨small, ?_⟩
    have inPacked := (itemInside_iff items).mp ((pack_eq_some_iff known found bytes small).mp packs).1
    have inPadded := (itemInside_iff items).mp ((unpack_eq_some_iff known found bytes small).mp unpacks).1
    rw [forall_flip] at inPadded
    apply Exchanged.packing items (fun p mem => (inPadded p mem).2) fun p mem => (inPacked p mem).2
    constructor
    · intro src scratch fresh
      obtain ⟨packed, restored, packs, unpacks, eq, -⟩ := always src scratch fresh
      obtain ⟨-, rfl⟩ := (pack_eq_some_iff known found bytes small).mp packs
      obtain ⟨-, rfl⟩ := (unpack_eq_some_iff known found bytes small).mp unpacks
      exact eq
    · intro src scratch scratch'
      obtain ⟨packed, restored, packs, -, -, eq⟩ := always src scratch fun _ => 0
      obtain ⟨inside, rfl⟩ := (pack_eq_some_iff known found bytes small).mp packs
      exact eq scratch' _ ((pack_eq_some_iff known found bytes small).mpr ⟨inside, rfl⟩)
  · rintro ⟨unpadded, places, known, found, bytes, empty | ⟨small, packing⟩⟩
    · have nothing (dstSize : Nat) (dst : Memory) (look : Nat × Memory) (dstPadded : Bool) :
          writePackedData t dstSize dst (lookBlock look.1 look.2) dstPadded = some dst := by
        refine (writePackedData_eq_some_iff known).mpr ⟨bytes, places, found, ?_⟩
        rw [empty]
        rfl
      refine ⟨unpadded, known, by simp [empty], fun src scratch fresh => ?_⟩
      refine ⟨scratch, fresh, nothing _ _ (_, _) _, nothing _ _ (_, _) _, ?_, ?_⟩
      · intro i lt
        rw [empty] at lt
        exact absurd lt (Nat.not_lt_zero i)
      · intro scratch' packed' packs b lt
        rw [empty, Nat.zero_mul] at lt
        exact absurd lt (Nat.not_lt_zero b)
    · have exchanged : Exchanged _ _ _ (numItems t) _ := packing.exchanged
      have inside : ∀ i < numItems t, ItemInside (numItems t * paddedBytes t) (numItems t * unpadded)
          (0 + i * paddedBytes t) (0 + i * unpadded) (places.map piece) := by
        intro i lt
        refine (itemInside_iff (ne_zero_of_lt lt)).mpr (fun p mem => ?_) i lt
        exact ⟨.inr (packing.padded p mem), packing.packed p mem⟩
      have back : ∀ i < numItems t, ItemInside (numItems t * unpadded) (numItems t * paddedBytes t)
          (0 + i * unpadded) (0 + i * paddedBytes t) ((places.map piece).map Piece.flip) := by
        intro i lt
        refine (itemInside_iff (ne_zero_of_lt lt)).mpr (forall_flip.mpr fun p mem => ?_) i lt
        exact ⟨.inr (packing.packed p mem), packing.padded p mem⟩
      refine ⟨unpadded, known, by rw [UInt32.toNat_ofNat_of_lt' small], fun src scratch fresh => ?_⟩
      refine ⟨_, _, (pack_eq_some_iff known found bytes small).mpr ⟨inside, rfl⟩,
        (unpack_eq_some_iff known found bytes small).mpr ⟨back, rfl⟩, exchanged.restored src scratch fresh, ?_⟩
      intro scratch' packed' packs
      obtain ⟨-, rfl⟩ := (pack_eq_some_iff known found bytes small).mp packs
      exact exchanged.written src scratch scratch'

end

/-- A field with one entry, which is not a structure and whose padding is behind its data. -/
structure SingleField (field : FieldLabel × Element) (b u : Nat) : Prop where
  leaf : field.2.mFields = []
  single : field.1.arraySize = 1
  bits : field.2.mComponent.mBits.toNat = 8 * b
  unpadded : field.2.mComponent.mBitsUnpadded.map UInt32.toNat = some (8 * u)
  padding : u ≤ b

section

variable {field : FieldLabel × Element} {fields : List (FieldLabel × Element)} {b u offset offsetUnpadded : Nat}

variable (single : SingleField field b u)

include single

theorem SingleField.getSizeBits : field.2.getSizeBits = 8 * b := by
  rw [Element.getSizeBits, if_pos single.leaf, Element.mBits, if_pos single.leaf, single.bits]

theorem SingleField.getSizeBitsUnpadded : field.2.getSizeBitsUnpadded = some (8 * u) := by
  rw [Element.getSizeBitsUnpadded, if_pos single.leaf, Element.mBitsUnpadded, if_pos single.leaf, single.unpadded]

theorem SingleField.getSizeBytesUnpadded : field.2.getSizeBytesUnpadded = some u := by
  rw [Element.getSizeBytesUnpadded, single.getSizeBitsUnpadded, map_some]
  congr 1
  rw [Nat.shiftRight_eq_div_pow]
  omega

theorem SingleField.dataBytes : field.2.dataBytes = List.range u := by
  obtain ⟨label, addr, mComponent, mFields⟩ := field
  obtain rfl : mFields = [] := single.leaf
  have unpadded := single.unpadded
  change mComponent.mBitsUnpadded.map UInt32.toNat = some (8 * u) at unpadded
  obtain ⟨bits, known, size⟩ := map_eq_some_iff.mp unpadded
  rw [Element.dataBytes, known, getD_some, size, Nat.shiftRight_eq_div_pow]
  congr 1
  omega

omit single in
theorem offset_eq {bytes : Nat} (small : 8 * bytes < 2 ^ 32) : (UInt32.ofNat (8 * bytes) >>> 3).toNat = bytes := by
  rw [UInt32.toNat_shiftRight, UInt32.toNat_ofNat_of_lt' small, Nat.shiftRight_eq_div_pow]
  change 8 * bytes / 2 ^ 3 = bytes
  omega

structure Placed (fields : List (FieldLabel × Element)) (offset offsetUnpadded ends endsUnpadded : Nat)
    (pieces : List Piece) : Prop where
  source : ∀ p ∈ pieces, offset ≤ p.source ∧ p.source + p.size ≤ ends
  target : ∀ p ∈ pieces, offsetUnpadded ≤ p.target ∧ p.target + p.size ≤ endsUnpadded
  covered : ∀ x, offsetUnpadded ≤ x → x < endsUnpadded → ∃ p ∈ pieces, p.Writes x
  restored : ∀ x ∈ dataBytesIn fields (8 * offset), ∃ before p after, pieces = before ++ p :: after ∧ p.Reads x ∧
    ∀ q ∈ after, ¬ q.Reads x ∧ ¬ q.Writes (p.target + (x - p.source))

theorem Placed.cons {ends endsUnpadded : Nat} {pieces : List Piece}
    (small : 8 * offset < 2 ^ 32) (placed : Placed fields (offset + b) (offsetUnpadded + u) ends endsUnpadded pieces)
    (le : offset + b ≤ ends) (leUnpadded : offsetUnpadded + u ≤ endsUnpadded) :
    Placed (field :: fields) offset offsetUnpadded ends endsUnpadded (⟨offset, offsetUnpadded, u⟩ :: pieces) := by
  have padding := single.padding
  constructor
  · rw [forall_mem_cons]
    refine ⟨⟨le_rfl, (Nat.add_le_add_left padding _).trans le⟩, fun p mem => ?_⟩
    have bounds := placed.source p mem
    omega
  · rw [forall_mem_cons]
    refine ⟨⟨le_rfl, leUnpadded⟩, fun p mem => ?_⟩
    have bounds := placed.target p mem
    omega
  · intro x low high
    by_cases first : x < offsetUnpadded + u
    · exact ⟨_, mem_cons_self, low, first⟩
    · obtain ⟨p, mem, writes⟩ := placed.covered x (not_lt.mp first) high
      exact ⟨p, mem_cons_of_mem _ mem, writes⟩
  · intro x mem
    rw [dataBytesIn, mem_append] at mem
    rcases mem with inField | inOthers
    · have reads : offset ≤ x ∧ x < offset + u := by
        split at inField
        case isTrue => cases inField
        case isFalse =>
          rw [single.single, single.dataBytes, offset_eq small] at inField
          simp only [UInt32.toNat_one, range_one, flatMap_singleton, Nat.zero_mul, add_zero, List.mem_map, mem_range] at inField
          obtain ⟨k, lt, rfl⟩ := inField
          exact ⟨Nat.le_add_right _ _, Nat.add_lt_add_left lt _⟩
      refine ⟨[], _, pieces, rfl, reads, fun q later => ⟨?_, ?_⟩⟩
      · intro otherReads
        have bounds := placed.source q later
        have low := otherReads.1
        omega
      · intro otherWrites
        have bounds := placed.target q later
        have low : q.target ≤ offsetUnpadded + (x - offset) := otherWrites.1
        omega
    · rw [single.getSizeBits, single.single, UInt32.toNat_one, mul_one, ← mul_add] at inOthers
      obtain ⟨before, p, after, rfl, rest⟩ := placed.restored x inOthers
      exact ⟨_ :: before, p, after, rfl, rest⟩

theorem SingleField.share : (field.2.mBits * field.1.arraySize).toNat = 8 * b := by
  rw [single.single, mul_one, Element.mBits, if_pos single.leaf, single.bits]

theorem SingleField.shareUnpadded :
    (do return ((← field.2.mBitsUnpadded) * field.1.arraySize).toNat : Option Nat) = some (8 * u) := by
  obtain ⟨bits, known, size⟩ := map_eq_some_iff.mp single.unpadded
  rw [single.single, Element.mBitsUnpadded, if_pos single.leaf, known]
  simp only [bind_eq_bind, bind_some, mul_one, size]
  rfl

omit single

theorem exists_placed (single : ∀ field ∈ fields, ∃ b u, SingleField field b u) (ahead : offsetUnpadded ≤ offset)
    (small : 8 * offset + (fields.map fun field => (field.2.mBits * field.1.arraySize).toNat).sum < 2 ^ 32) :
    ∃ places ends endsUnpadded sizes, placeFields fields (8 * offset) (8 * offsetUnpadded) = some places ∧
      Placed fields offset offsetUnpadded ends endsUnpadded (places.map piece) ∧
      8 * offset + (fields.map fun field => (field.2.mBits * field.1.arraySize).toNat).sum = 8 * ends ∧
      (fields.mapM fun field => do return ((← field.2.mBitsUnpadded) * field.1.arraySize).toNat) = some sizes ∧
      8 * offsetUnpadded + sizes.sum = 8 * endsUnpadded ∧ endsUnpadded ≤ ends := by
  induction fields generalizing offset offsetUnpadded with
  | nil =>
    refine ⟨[], offset, offsetUnpadded, [], rfl, ⟨by simp, by simp, ?_, ?_⟩, by simp, rfl, by simp, ahead⟩
    · intro x low high
      omega
    · intro x mem
      cases mem
  | cons field rest ih =>
    obtain ⟨⟨b, u, first⟩, others⟩ := forall_mem_cons.mp single
    have padding := first.padding
    rw [map_cons, sum_cons, first.share] at small
    obtain ⟨places, ends, endsUnpadded, sizes, found, placed, total, known, totalUnpadded, le⟩ :=
      @ih (offset + b) (offsetUnpadded + u) others (by omega) (by omega)
    let place : FieldPlace := ⟨UInt32.ofNat (8 * offset) >>> 3, UInt32.ofNat (8 * offsetUnpadded) >>> 3, .ofNat u⟩
    refine ⟨place :: places, ends, endsUnpadded, 8 * u :: sizes, ?_, ?_, ?_, ?_, ?_, le⟩
    · obtain ⟨label, e⟩ := field
      rw [placeFields, first.getSizeBitsUnpadded, first.getSizeBytesUnpadded, first.getSizeBits]
      have one : label.arraySize.toNat = 1 := congrArg UInt32.toNat first.single
      simp only [bind_eq_bind, bind_some, one, mul_one, ← mul_add, found]
      rfl
    · have placeOf : piece place = ⟨offset, offsetUnpadded, u⟩ := by
        rw [piece, offset_eq (by omega), offset_eq (by omega), UInt32.toNat_ofNat_of_lt' (show u < 2 ^ 32 by omega)]
      rw [map_cons, placeOf]
      apply placed.cons first
      · omega
      · omega
      · omega
    · rw [map_cons, sum_cons, first.share]
      omega
    · rw [mapM_cons, first.shareUnpadded, known]
      rfl
    · rw [sum_cons]
      omega

end

private def float3 : Element := .mk 0 (.set .float32 .user false 3) []

private def wrapping (arraySize : UInt32) (e : Element) : Element := .mk 1 .initial [(⟨⟨[], nofun⟩, arraySize⟩, e)]

private def beside : Element :=
  .mk 2 .initial [(⟨⟨[], nofun⟩, 1⟩, float3), (⟨⟨[], nofun⟩, 1⟩, wrapping 1 float3)]

private def itemsOf (e : Element) (dimX : UInt32) : RsType :=
  .create 0 e { dimX := dimX, dimY := 0, dimZ := 0, mDimLOD := false, faces := false, dimYuv := 0 }

/-- The second entry of an array is not copied, and the packed form has no room for a structure in a structure. -/
theorem packs_lost : (∃ packed restored, numItems (itemsOf (wrapping 2 float3) 1) = 1 ∧
      writePackedData (itemsOf (wrapping 2 float3) 1) 24 (fun _ => 0) (lookBlock 32 fun _ => 1) false = some packed ∧
      writePackedData (itemsOf (wrapping 2 float3) 1) 32 (fun _ => 0) (lookBlock 24 packed) true = some restored ∧
      16 ∈ (wrapping 2 float3).dataBytes ∧ restored 16 = 0 ∧ packed 12 = 0) ∧
    numItems (itemsOf beside 1) = 1 ∧ beside.getSizeBytesUnpadded = some 12 ∧ 20 ∈ beside.dataBytes ∧
      writePackedData (itemsOf beside 1) 12 (fun _ => 0) (lookBlock 16 fun _ => 1) false = none := by
  refine ⟨⟨_, _, rfl, rfl, rfl, ?_, ?_, ?_⟩, rfl, rfl, ?_, rfl⟩
  · decide
  · decide
  · decide
  · decide

end RenderScript.Allocations
