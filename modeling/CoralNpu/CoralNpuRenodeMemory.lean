/-
**The memory shared with the emulator.**

When the simulator runs inside the emulator, the memory belongs to the emulator, which hands over a
list of blocks.  An access is cut at the block boundaries: its loop divides the address, moves the
bytes up to the end of the block, and goes on behind them.  Addresses and the block size have
sixty-four bits, the offset in a block, the size of a block and the number of bytes left are `int`s.

Main definitions:

* `Renode.CoralNPURenodeMemory`, `Renode.construct` — the memory and its constructor;
* `Renode.loadStoreHelper` — the loop over the blocks;
* `Renode.MemoryAccess`, `Renode.CoralNPURenodeMemory.run` — the four accesses, and a sequence of
  them;
* `Renode.flatRun` — the same accesses of a flat memory;
* `Renode.MemoryAccess.InRange`, `Renode.MemoryAccess.Fits` — accesses of the memory's range, and
  those whose numbers fit the types they are kept in.

Main results:

* `Renode.CoralNPURenodeMemory.Shares.loop_moved` — the loop over the blocks moves a range;
* `Renode.CoralNPURenodeMemory.Shares.step_refines` — an access is the one of the flat memory;
* `Renode.refinesFlat_of_fits` — **so is every sequence of accesses that fit**.
-/

import CoralNpu.BlockMemory
import CoralNpu.CInt

set_option relaxedAutoImplicit false
set_option autoImplicit false

namespace CoralNpu.Renode

open BlockMemory CInt FlatMemory

/-! ### The memory -/

/-- The bytes of a `DataBuffer` or of a block. -/
abbrev ByteArea := List (BitVec 8)

/-- `kCoralnpuMaxMemoryAddress`. -/
def kCoralnpuMaxMemoryAddress : BitVec 64 := 0x3fffff

/-- `CoralNPURenodeMemory`; the blocks of `block_map_` with their contents. -/
structure CoralNPURenodeMemory where
  addressableUnitShift : ℕ
  addressableUnitSize : ℤ
  allocationByteSize : ℤ
  memoryBlockSizeBytes : BitVec 64
  baseAddress : BitVec 64
  maxAddress : BitVec 64
  blockMap : List ByteArea

/-- The number of blocks the constructor asks for. -/
def numBlock (blockSizeBytes maxAddress : BitVec 64) : BitVec 64 :=
  (maxAddress + blockSizeBytes - 1) / blockSizeBytes

/-- The constructor.  It fails when its assertion does, divides by zero for blocks without bytes,
and counts the blocks in an `int`. -/
def construct (blockSizeBytes memorySizeBytes : BitVec 64) (blockPtrList : List ByteArea)
    (baseAddress : BitVec 64) (addressableUnitSize : ℕ) : Option CoralNPURenodeMemory :=
  let maxAddress := baseAddress + memorySizeBytes
  let count := (numBlock blockSizeBytes maxAddress).toNat
  if kCoralnpuMaxMemoryAddress < maxAddress ∧ blockSizeBytes ≠ 0 ∧ count < 2 ^ 31 ∧
      count ≤ blockPtrList.length then
    some {
      addressableUnitShift := Nat.log2 addressableUnitSize
      addressableUnitSize := addressableUnitSize
      allocationByteSize :=
        toSigned 32 (blockSizeBytes * BitVec.ofNat 64 addressableUnitSize).toNat
      memoryBlockSizeBytes := blockSizeBytes
      baseAddress := baseAddress
      maxAddress := maxAddress
      blockMap := blockPtrList.take count }
  else none

/-! ### The loop over the blocks -/

/-- The bytes from an offset on; `none` when they are not all in the area. -/
def slice (area : ByteArea) (offset n : ℤ) : Option ByteArea :=
  if 0 ≤ offset ∧ 0 ≤ n ∧ offset + n ≤ area.length then
    some ((area.drop offset.toNat).take n.toNat)
  else none

/-- `memcpy`: the area it writes. -/
def memcpy (dst : ByteArea) (p : ℤ) (src : ByteArea) (q n : ℤ) : Option ByteArea :=
  (slice dst p n).bind fun _ => (slice src q n).map fun bytes => patch dst p.toNat bytes

/-- The bytes moved in one turn of the loop: from the block for a load, to it for a store. -/
def transfer (isLoad : Bool) (m : CoralNPURenodeMemory) (blockIdx : ℕ) (block : ByteArea)
    (blockByteOffset : ℤ) (db : ByteArea) (bytePtr storeSizeInBytes : ℤ) :
    Option (CoralNPURenodeMemory × ByteArea) :=
  if isLoad then
    (memcpy db bytePtr block blockByteOffset storeSizeInBytes).map fun db' => (m, db')
  else
    (memcpy block blockByteOffset db bytePtr storeSizeInBytes).map fun block' =>
      ({ m with blockMap := m.blockMap.set blockIdx block' }, db)

/-- The loop of `LoadStoreHelper`.  A turn that moves nothing is repeated without end. -/
def loadStoreLoop (isLoad : Bool) : ℕ → CoralNPURenodeMemory → ByteArea → ℤ → BitVec 64 → ℤ →
    Option (CoralNPURenodeMemory × ByteArea)
  | 0, _, _, _, _, _ => none
  | fuel + 1, m, db, bytePtr, address, sizeInUnits => do
      let blockIdx := address / m.memoryBlockSizeBytes
      let block ← m.blockMap[blockIdx.toNat]?
      let blockUnitOffset := toSigned 32 (address - blockIdx * m.memoryBlockSizeBytes).toNat
      let left ← checked 32 (m.allocationByteSize - blockUnitOffset)
      let storeSizeInUnits := min sizeInUnits left
      let storeSizeInBytes := toSigned 32 (storeSizeInUnits * 2 ^ m.addressableUnitShift)
      let blockByteOffset := toSigned 32 (blockUnitOffset * 2 ^ m.addressableUnitShift)
      let (m', db') ← transfer isLoad m blockIdx.toNat block blockByteOffset db bytePtr
          storeSizeInBytes
      let sizeInUnits' ← checked 32 (sizeInUnits - storeSizeInUnits)
      if 0 < sizeInUnits' then
        loadStoreLoop isLoad fuel m' db' (bytePtr + storeSizeInBytes)
          (address + BitVec.ofInt 64 storeSizeInUnits) sizeInUnits'
      else some (m', db')

/-- `LoadStoreHelper`.  Turns that move something are at most as many as there are units. -/
def loadStoreHelper (isLoad : Bool) (m : CoralNPURenodeMemory) (address : BitVec 64) (db : ByteArea)
    (bytePtr sizeInUnits : ℤ) : Option (CoralNPURenodeMemory × ByteArea) :=
  if address < m.maxAddress then
    loadStoreLoop isLoad (sizeInUnits.toNat + 1) m db bytePtr address sizeInUnits
  else none

/-! ### The accesses -/

/-- `IsValidAddress`. -/
def isValidAddress (m : CoralNPURenodeMemory) (address highAddress : BitVec 64) : Bool :=
  address ≥ m.baseAddress ∧ highAddress ≤ m.maxAddress

/-- An access checked and made. -/
def accessChecked (isLoad : Bool) (m : CoralNPURenodeMemory) (address : BitVec 64) (db : ByteArea)
    (bytePtr sizeInUnits : ℤ) : Option (CoralNPURenodeMemory × ByteArea) :=
  let high := address + BitVec.ofInt 64 sizeInUnits
  if isValidAddress m address high ∧ 0 < sizeInUnits then
    loadStoreHelper isLoad m address db bytePtr sizeInUnits
  else none

/-- The scalar `Load` and `Store`. -/
def accessScalar (isLoad : Bool) (m : CoralNPURenodeMemory) (address : BitVec 64) (db : ByteArea) :
    Option (CoralNPURenodeMemory × ByteArea) :=
  accessChecked isLoad m address db 0 (toSigned 32 (Int.tdiv db.length m.addressableUnitSize))

/-- The scalar `Load`: the buffer after it. -/
def load (m : CoralNPURenodeMemory) (address : BitVec 64) (db : ByteArea) :
    Option (CoralNPURenodeMemory × ByteArea) := accessScalar true m address db

/-- The scalar `Store`. -/
def store (m : CoralNPURenodeMemory) (address : BitVec 64) (db : ByteArea) :
    Option (CoralNPURenodeMemory × ByteArea) := accessScalar false m address db

/-- The address of an element: a list of addresses is a gather or a scatter, a single one the start
of a unit stride access.  The index is `unsigned`. -/
def elementAddress (addressSpan : List (BitVec 64)) (elSize : ℤ) (i : ℕ) : Option (BitVec 64) :=
  if 1 < addressSpan.length then addressSpan[i]?
  else addressSpan[0]?.map fun address => address + BitVec.ofInt 64 (toUnsigned 32 (i * elSize))

/-- The accesses of the active elements from the `i`th on. -/
def accessElementsFrom (isLoad : Bool) (addressSpan : List (BitVec 64)) (elSize : ℤ) :
    ℕ → List Bool → CoralNPURenodeMemory → ByteArea → Option (CoralNPURenodeMemory × ByteArea)
  | _, [], m, db => some (m, db)
  | i, false :: mask, m, db => accessElementsFrom isLoad addressSpan elSize (i + 1) mask m db
  | i, true :: mask, m, db => do
      let address ← elementAddress addressSpan elSize i
      let (m', db') ← accessChecked isLoad m address db (toUnsigned 32 (elSize * i))
        (Int.tdiv elSize m.addressableUnitSize)
      accessElementsFrom isLoad addressSpan elSize (i + 1) mask m' db'

/-- The `Load` and `Store` of elements.  The index does not reach the end of a mask that is longer
than its type. -/
def accessElements (isLoad : Bool) (m : CoralNPURenodeMemory) (addressSpan : List (BitVec 64))
    (maskSpan : List Bool) (elSize : ℤ) (db : ByteArea) :
    Option (CoralNPURenodeMemory × ByteArea) :=
  if 0 < Int.tdiv elSize m.addressableUnitSize ∧ maskSpan.length < 2 ^ 32 then
    accessElementsFrom isLoad addressSpan elSize 0 maskSpan m db
  else none

/-- The `Load` of elements. -/
def loadElements (m : CoralNPURenodeMemory) (addressSpan : List (BitVec 64)) (maskSpan : List Bool)
    (elSize : ℤ) (db : ByteArea) : Option (CoralNPURenodeMemory × ByteArea) :=
  accessElements true m addressSpan maskSpan elSize db

/-- The `Store` of elements. -/
def storeElements (m : CoralNPURenodeMemory) (addressSpan : List (BitVec 64)) (maskSpan : List Bool)
    (elSize : ℤ) (db : ByteArea) : Option (CoralNPURenodeMemory × ByteArea) :=
  accessElements false m addressSpan maskSpan elSize db

/-! ### The memory as a flat one -/

namespace CoralNPURenodeMemory

/-- The flat memory behind the blocks. -/
def flat (m : CoralNPURenodeMemory) : BitVec 64 → BitVec 8 :=
  view 0 m.memoryBlockSizeBytes.toNat m.blockMap

/-- The memory as it is constructed for units of one byte: its range is `[lo, hi)`, and it has a
place for each address of `[lo, top)`. -/
structure Shares (blockSizeBytes : BitVec 64) (lo hi top : ℕ) (m : CoralNPURenodeMemory) :
    Prop where
  shift : m.addressableUnitShift = 0
  unit : m.addressableUnitSize = 1
  allocation : m.allocationByteSize = toSigned 32 blockSizeBytes.toNat
  blockSize : m.memoryBlockSizeBytes = blockSizeBytes
  pos : 0 < blockSizeBytes.toNat
  base : m.baseAddress.toNat = lo
  max : m.maxAddress.toNat = hi
  top_le : top ≤ hi
  covers : Covers blockSizeBytes.toNat m.blockMap lo top

/-- What an access of `n` bytes leaves: a load has put the range into the buffer, a store the part
of the buffer into the range. -/
def Moved (m : CoralNPURenodeMemory) (db : ByteArea) (p : ℕ) (a : BitVec 64) (n : ℕ) :
    Bool → CoralNPURenodeMemory × ByteArea → Prop
  | true, (m', db') => m' = m ∧ db' = patch db p (read m.flat a n)
  | false, (m', db') => db' = db ∧ m'.flat = write m.flat a ((db.drop p).take n)

end CoralNPURenodeMemory

/-- The numbers of an access fit the types they are kept in: its length is an `int`, and so are the
block size and the offsets that the loop computes with. -/
def FitsInt (blockSizeBytes : BitVec 64) (a : BitVec 64) (n : ℕ) : Prop :=
  n < 2 ^ 31 ∧ (blockSizeBytes.toNat < 2 ^ 31 ∨
    ((a.toNat % blockSizeBytes.toNat + n : ℕ) : ℤ) ≤ toSigned 32 blockSizeBytes.toNat)

/-- The length of the first piece of an access. -/
def pieceLength (blockSizeBytes : BitVec 64) (a : BitVec 64) (n : ℕ) : ℕ :=
  min n (blockSizeBytes.toNat - a.toNat % blockSizeBytes.toNat)

/-! ### One turn -/

theorem slice_of_le {area : ByteArea} {o n : ℕ} (h : o + n ≤ area.length) :
    slice area o n = some ((area.drop o).take n) := by
  have hin : 0 ≤ (o : ℤ) ∧ 0 ≤ (n : ℤ) ∧ (o : ℤ) + n ≤ area.length := by omega
  rw [slice, if_pos hin, Int.toNat_natCast, Int.toNat_natCast]

theorem memcpy_of_le {dst src : ByteArea} {p q n : ℕ} (hdst : p + n ≤ dst.length)
    (hsrc : q + n ≤ src.length) :
    memcpy dst p src q n = some (patch dst p ((src.drop q).take n)) := by
  rw [memcpy, slice_of_le hdst, slice_of_le hsrc, Option.bind_some, Option.map_some,
    Int.toNat_natCast]

namespace CoralNPURenodeMemory

variable {blockSizeBytes : BitVec 64} {lo hi top : ℕ} {m : CoralNPURenodeMemory}

/-- The block of a piece. -/
theorem Shares.exists_block (h : m.Shares blockSizeBytes lo hi top) {a : BitVec 64} {k : ℕ}
    (hk : 0 < k) (hlo : lo ≤ a.toNat) (htop : a.toNat + k ≤ top)
    (hfit : a.toNat % blockSizeBytes.toNat + k ≤ blockSizeBytes.toNat) :
    ∃ block, m.blockMap[a.toNat / blockSizeBytes.toNat]? = some block ∧
      a.toNat % blockSizeBytes.toNat + k ≤ block.length := by
  -- the block of its last byte
  obtain ⟨block, hblock, hlt⟩ := h.covers (a.toNat + (k - 1)) (by omega) (by omega)
  obtain ⟨hdiv, hmod⟩ :=
    div_mod_add a.toNat (k - 1) blockSizeBytes.toNat (by omega)
  rw [hdiv] at hblock
  rw [hmod] at hlt
  exact ⟨block, hblock, by omega⟩

/-- A store leaves the memory as it is constructed. -/
theorem Shares.set (h : m.Shares blockSizeBytes lo hi top) {idx : ℕ} {block block' : ByteArea}
    (hblock : m.blockMap[idx]? = some block) (hlength : block'.length = block.length) :
    ({ m with blockMap := m.blockMap.set idx block' } : CoralNPURenodeMemory).Shares
      blockSizeBytes lo hi top :=
  { h with covers := h.covers.set hblock hlength }

/-- **A piece is moved.** -/
theorem Shares.transfer_moved (h : m.Shares blockSizeBytes lo hi top) (isLoad : Bool)
    {a : BitVec 64} {k p : ℕ} {db block : ByteArea} (htop : a.toNat + k ≤ top)
    (hfit : a.toNat % blockSizeBytes.toNat + k ≤ blockSizeBytes.toNat)
    (hblock : m.blockMap[a.toNat / blockSizeBytes.toNat]? = some block)
    (hlength : a.toNat % blockSizeBytes.toNat + k ≤ block.length) (hdb : p + k ≤ db.length) :
    ∃ s, transfer isLoad m (a.toNat / blockSizeBytes.toNat) block
        ((a.toNat % blockSizeBytes.toNat : ℕ) : ℤ) db p k = some s ∧
      m.Moved db p a k isLoad s ∧ s.1.Shares blockSizeBytes lo hi top ∧ s.2.length = db.length := by
  have hrange : a.toNat + k ≤ 2 ^ 64 := by
    have hmax := m.maxAddress.isLt
    have := h.max
    have := h.top_le
    omega
  cases isLoad with
  | true =>
      have hread := take_drop_eq_read (d := 0) hblock hfit hlength hrange
      have hlen : (read (view 0 blockSizeBytes.toNat m.blockMap) a k).length = k := length_read ..
      refine ⟨_, by rw [transfer, if_pos rfl, memcpy_of_le hdb hlength]; rfl, ⟨rfl, ?_⟩, h, ?_⟩
      · rw [hread, flat, h.blockSize]
      · rw [hread]
        exact length_patch (by rw [hlen]; exact hdb)
  | false =>
      have hlen : ((db.drop p).take k).length = k := by
        rw [List.length_take, List.length_drop]
        omega
      refine ⟨_, by rw [transfer, if_neg (by decide), memcpy_of_le hlength hdb]; rfl, ⟨rfl, ?_⟩,
        h.set hblock (length_patch (by rw [hlen]; exact hlength)), rfl⟩
      rw [flat, flat, h.blockSize]
      exact view_set_patch hblock (by rw [hlen]; exact hfit) (by rw [hlen]; exact hlength)
        (by rw [hlen]; exact hrange)

/-- Two moves, one behind the other, are one. -/
theorem Moved.append {isLoad : Bool} {db : ByteArea} {p k l : ℕ} {a : BitVec 64}
    {s s' : CoralNPURenodeMemory × ByteArea} (hp : p + (k + l) ≤ db.length) (hkl : k + l ≤ 2 ^ 64)
    (h : m.Moved db p a k isLoad s)
    (h' : s.1.Moved s.2 (p + k) (a + BitVec.ofNat 64 k) l isLoad s') :
    m.Moved db p a (k + l) isLoad s' := by
  cases isLoad with
  | true =>
      obtain ⟨rfl, hdb⟩ := h
      refine ⟨h'.1, ?_⟩
      have hlen : (read s.1.flat a k).length = k := length_read ..
      have hboth := patch_patch (read s.1.flat a k) (read s.1.flat (a + BitVec.ofNat 64 k) l)
        (show p ≤ db.length by omega)
      rw [hlen] at hboth
      rw [h'.2, hdb, hboth, read_add]
  | false =>
      obtain ⟨hdb, hflat⟩ := h
      refine ⟨h'.1.trans hdb, ?_⟩
      have hk : ((db.drop p).take k).length = k := by
        rw [List.length_take, List.length_drop]
        omega
      have hl : ((db.drop (p + k)).take l).length = l := by
        rw [List.length_take, List.length_drop]
        omega
      have happend := write_append m.flat a ((db.drop p).take k) ((db.drop (p + k)).take l)
        (by rw [hk, hl]; exact hkl)
      rw [hk] at happend
      rw [h'.2, hflat, hdb, ← happend, List.take_add, List.drop_drop]

end CoralNPURenodeMemory

/-! ### The loop -/

section Width

variable {blockSizeBytes a : BitVec 64} {n : ℕ}

theorem pieceLength_le (blockSizeBytes a : BitVec 64) (n : ℕ) :
    pieceLength blockSizeBytes a n ≤ n :=
  Nat.min_le_left ..

theorem mod_add_pieceLength_le (hpos : 0 < blockSizeBytes.toNat) :
    a.toNat % blockSizeBytes.toNat + pieceLength blockSizeBytes a n ≤ blockSizeBytes.toNat := by
  have hlt := Nat.mod_lt a.toNat hpos
  rw [pieceLength]
  omega

theorem pieceLength_pos (hpos : 0 < blockSizeBytes.toNat) (hn : 0 < n) :
    0 < pieceLength blockSizeBytes a n := by
  have hlt := Nat.mod_lt a.toNat hpos
  rw [pieceLength]
  omega

/-- The quotient and the remainder of the loop are those of the numbers. -/
theorem toNat_sub_udiv_mul (a b : BitVec 64) : (a - a / b * b).toNat = a.toNat % b.toNat := by
  have hdiv := Nat.div_add_mod a.toNat b.toNat
  have hlt := a.isLt
  have hmul : (a / b * b).toNat = b.toNat * (a.toNat / b.toNat) := by
    rw [BitVec.toNat_mul, BitVec.toNat_udiv, Nat.mul_comm, Nat.mod_eq_of_lt (by omega)]
  rw [BitVec.toNat_sub_of_le (by rw [BitVec.le_def, hmul]; omega), hmul]
  omega

theorem toSigned_natCast {k : ℕ} (h : k < 2 ^ 31) : toSigned 32 (k : ℤ) = k :=
  toSigned_of_fits (by decide) ⟨by omega, by omega⟩

theorem checked_sub {k n : ℕ} (hle : k ≤ n) (hn : n < 2 ^ 31) :
    checked 32 ((n : ℤ) - k) = some ((n - k : ℕ) : ℤ) := by
  rw [Int.ofNat_sub hle]
  exact checked_of_fits ⟨by omega, by omega⟩

/-- The offset is kept in its type. -/
theorem FitsInt.toSigned_offset (h : FitsInt blockSizeBytes a n) (hpos : 0 < blockSizeBytes.toNat) :
    toSigned 32 ((a.toNat % blockSizeBytes.toNat : ℕ) : ℤ) =
      (a.toNat % blockSizeBytes.toNat : ℕ) := by
  have hmod := Nat.mod_lt a.toNat hpos
  have hsigned := toSigned_lt (w := 32) (by decide) (blockSizeBytes.toNat : ℤ)
  apply toSigned_of_fits (by decide)
  refine ⟨by omega, ?_⟩
  rcases h.2 with hsmall | hinside
  · omega
  · omega

/-- What the loop takes for the rest of the block gives the first piece. -/
theorem FitsInt.exists_left (h : FitsInt blockSizeBytes a n) (hpos : 0 < blockSizeBytes.toNat) :
    ∃ left : ℤ, checked 32 (toSigned 32 (blockSizeBytes.toNat : ℤ) -
        (a.toNat % blockSizeBytes.toNat : ℕ)) = some left ∧
      min (n : ℤ) left = (pieceLength blockSizeBytes a n : ℕ) := by
  have hmod := Nat.mod_lt a.toNat hpos
  rw [pieceLength]
  rcases h.2 with hsmall | hinside
  · have hsigned : toSigned 32 (blockSizeBytes.toNat : ℤ) = blockSizeBytes.toNat :=
      toSigned_of_fits (by decide) ⟨by omega, by omega⟩
    rw [hsigned]
    exact ⟨_, checked_of_fits ⟨by omega, by omega⟩, by omega⟩
  · have hlt := toSigned_lt (w := 32) (by decide) (blockSizeBytes.toNat : ℤ)
    have hle := toSigned_le (w := 32) (z := (blockSizeBytes.toNat : ℤ)) (by omega)
    exact ⟨_, checked_of_fits ⟨by omega, by omega⟩, by omega⟩

/-- What is left behind the first piece fits again. -/
theorem FitsInt.rest (h : FitsInt blockSizeBytes a n)
    (hlt : pieceLength blockSizeBytes a n < n) :
    FitsInt blockSizeBytes (a + BitVec.ofNat 64 (pieceLength blockSizeBytes a n))
      (n - pieceLength blockSizeBytes a n) := by
  have hle := toSigned_le (w := 32) (z := (blockSizeBytes.toNat : ℤ)) (by omega)
  obtain ⟨hn, hfits⟩ := h
  rw [pieceLength] at hlt
  refine ⟨by omega, Or.inl ?_⟩
  rcases hfits with hsmall | hinside
  · exact hsmall
  · omega

end Width

namespace CoralNPURenodeMemory

variable {blockSizeBytes : BitVec 64} {lo hi top : ℕ}

/-- **One turn of the loop moves the first piece.** -/
theorem Shares.loop_turn {m : CoralNPURenodeMemory} (h : m.Shares blockSizeBytes lo hi top)
    (isLoad : Bool) {a : BitVec 64} {n p : ℕ} {db : ByteArea} (hn : 0 < n) (hlo : lo ≤ a.toNat)
    (htop : a.toNat + n ≤ top) (hfits : FitsInt blockSizeBytes a n) (hdb : p + n ≤ db.length)
    (fuel : ℕ) :
    ∃ s, m.Moved db p a (pieceLength blockSizeBytes a n) isLoad s ∧
      s.1.Shares blockSizeBytes lo hi top ∧ s.2.length = db.length ∧
      loadStoreLoop isLoad (fuel + 1) m db p a n =
        if pieceLength blockSizeBytes a n < n then
          loadStoreLoop isLoad fuel s.1 s.2 ((p + pieceLength blockSizeBytes a n : ℕ) : ℤ)
            (a + BitVec.ofNat 64 (pieceLength blockSizeBytes a n))
            ((n - pieceLength blockSizeBytes a n : ℕ) : ℤ)
        else some s := by
  have hle := pieceLength_le blockSizeBytes a n
  have hfit := mod_add_pieceLength_le (a := a) (n := n) h.pos
  obtain ⟨left, hleft, hmin⟩ := hfits.exists_left h.pos
  obtain ⟨block, hblock, hlength⟩ :=
    h.exists_block (pieceLength_pos h.pos hn) hlo (by omega) hfit
  obtain ⟨s, htransfer, hmoved, hs, hlen⟩ :=
    h.transfer_moved isLoad (by omega) hfit hblock hlength
      (le_trans (Nat.add_le_add_left hle p) hdb)
  refine ⟨s, hmoved, hs, hlen, ?_⟩
  generalize pieceLength blockSizeBytes a n = k at *
  have hpiece := toSigned_natCast (lt_of_le_of_lt hle hfits.1)
  have hsub := checked_sub hle hfits.1
  rw [loadStoreLoop]
  simp only [h.blockSize, h.allocation, h.shift, BitVec.toNat_udiv, toNat_sub_udiv_mul, hblock,
    hfits.toSigned_offset h.pos, hleft, hmin, pow_zero, mul_one, hpiece, htransfer, hsub,
    Option.bind_eq_bind, Option.bind_some, BitVec.ofInt_natCast, Nat.cast_add, Nat.cast_pos,
    Nat.sub_pos_iff_lt]

/-- **The loop over the blocks moves a range.** -/
theorem Shares.loop_moved (isLoad : Bool) {n fuel : ℕ} (hfuel : n ≤ fuel)
    {m : CoralNPURenodeMemory} (h : m.Shares blockSizeBytes lo hi top) {a : BitVec 64} {p : ℕ}
    {db : ByteArea} (hn : 0 < n) (hlo : lo ≤ a.toNat) (htop : a.toNat + n ≤ top)
    (hfits : FitsInt blockSizeBytes a n) (hdb : p + n ≤ db.length) :
    ∃ s, loadStoreLoop isLoad fuel m db p a n = some s ∧ m.Moved db p a n isLoad s ∧
      s.1.Shares blockSizeBytes lo hi top ∧ s.2.length = db.length := by
  induction fuel generalizing m a n p db with
  | zero => omega
  | succ fuel ih =>
      obtain ⟨s, hmoved, hs, hlen, hturn⟩ := h.loop_turn isLoad hn hlo htop hfits hdb fuel
      have hpos := pieceLength_pos (a := a) h.pos hn
      have hle := pieceLength_le blockSizeBytes a n
      rw [hturn]
      by_cases hlt : pieceLength blockSizeBytes a n < n
      · have hrest := hfits.rest hlt
        generalize pieceLength blockSizeBytes a n = k at *
        have haddr : (a + BitVec.ofNat 64 k).toNat = a.toNat + k := by
          have hmax := m.maxAddress.isLt
          have := h.max
          have := h.top_le
          rw [BitVec.toNat_add, BitVec.toNat_ofNat, Nat.mod_eq_of_lt (a := k) (by omega),
            Nat.mod_eq_of_lt (by omega)]
        obtain ⟨s', hloop, hmoved', hs', hlen'⟩ := ih (by omega) hs (by omega)
          (by rw [haddr]; omega) (by rw [haddr]; omega) hrest
          (show p + k + (n - k) ≤ s.2.length by omega)
        refine ⟨s', by rw [if_pos hlt, hloop], ?_, hs', hlen'.trans hlen⟩
        have hboth := hmoved.append (by omega) (by have := hfits.1; omega) hmoved'
        rw [Nat.add_sub_cancel' hle] at hboth
        exact hboth
      · have hall : pieceLength blockSizeBytes a n = n := by omega
        rw [hall] at hmoved
        exact ⟨s, if_neg hlt, hmoved, hs, hlen⟩

/-- An access of the range passes the checks and is made. -/
theorem Shares.accessChecked_moved {m : CoralNPURenodeMemory}
    (h : m.Shares blockSizeBytes lo hi top) (isLoad : Bool) {a : BitVec 64} {n p : ℕ}
    {db : ByteArea} (hn : 0 < n) (hlo : lo ≤ a.toNat) (htop : a.toNat + n ≤ top)
    (hfits : FitsInt blockSizeBytes a n) (hdb : p + n ≤ db.length) :
    ∃ s, accessChecked isLoad m a db p n = some s ∧ m.Moved db p a n isLoad s ∧
      s.1.Shares blockSizeBytes lo hi top ∧ s.2.length = db.length := by
  have hmax := h.max
  have hle := h.top_le
  have hlt := m.maxAddress.isLt
  have hhigh : (a + BitVec.ofNat 64 n).toNat = a.toNat + n := by
    rw [BitVec.toNat_add, BitVec.toNat_ofNat, Nat.mod_eq_of_lt (a := n) (by omega),
      Nat.mod_eq_of_lt (by omega)]
  have hvalid : isValidAddress m a (a + BitVec.ofNat 64 n) = true := by
    rw [isValidAddress, decide_eq_true_eq]
    exact ⟨BitVec.le_def.2 (by rw [h.base]; exact hlo), BitVec.le_def.2 (by rw [hhigh]; omega)⟩
  have hbelow : a < m.maxAddress := BitVec.lt_def.2 (by omega)
  obtain ⟨s, hloop, hs⟩ := h.loop_moved isLoad (Nat.le_succ n) hn hlo htop hfits hdb
  refine ⟨s, ?_, hs⟩
  rw [accessChecked, BitVec.ofInt_natCast, if_pos ⟨hvalid, by omega⟩, loadStoreHelper,
    if_pos hbelow, Int.toNat_natCast, hloop]

end CoralNPURenodeMemory

/-! ### Sequences of accesses -/

/-- An access of the memory, with the buffer it is given. -/
inductive MemoryAccess where
  | load (address : BitVec 64) (db : ByteArea)
  | store (address : BitVec 64) (db : ByteArea)
  | loadElements (addressSpan : List (BitVec 64)) (maskSpan : List Bool) (elSize : ℕ)
    (db : ByteArea)
  | storeElements (addressSpan : List (BitVec 64)) (maskSpan : List Bool) (elSize : ℕ)
    (db : ByteArea)

/-- The memory and the buffer after an access. -/
def CoralNPURenodeMemory.step (m : CoralNPURenodeMemory) :
    MemoryAccess → Option (CoralNPURenodeMemory × ByteArea)
  | .load address db => Renode.load m address db
  | .store address db => Renode.store m address db
  | .loadElements addressSpan maskSpan elSize db =>
      Renode.loadElements m addressSpan maskSpan elSize db
  | .storeElements addressSpan maskSpan elSize db =>
      Renode.storeElements m addressSpan maskSpan elSize db

/-- The memory and the buffers after a sequence of accesses. -/
def CoralNPURenodeMemory.run (m : CoralNPURenodeMemory) :
    List MemoryAccess → Option (CoralNPURenodeMemory × List ByteArea)
  | [] => some (m, [])
  | access :: accesses => do
      let (m', db) ← m.step access
      let (m'', dbs) ← m'.run accesses
      some (m'', db :: dbs)

/-! ### The accesses of a flat memory -/

/-- The active elements of a mask that starts with the `i`th. -/
def activeElements : ℕ → List Bool → List ℕ
  | _, [] => []
  | i, false :: mask => activeElements (i + 1) mask
  | i, true :: mask => i :: activeElements (i + 1) mask

/-- The address of an element. -/
def addressOfElement (addressSpan : List (BitVec 64)) (elSize i : ℕ) : BitVec 64 :=
  if 1 < addressSpan.length then addressSpan.getD i 0
  else addressSpan.getD 0 0 + BitVec.ofNat 64 (i * elSize)

/-- A buffer with the bytes of the active elements loaded. -/
def loadActive (memory : BitVec 64 → BitVec 8) (address : ℕ → BitVec 64) (elSize : ℕ)
    (active : List ℕ) (db : ByteArea) : ByteArea :=
  db.mapIdx fun k byte =>
    if k / elSize ∈ active then memory (address (k / elSize) + BitVec.ofNat 64 (k % elSize))
      else byte

/-- A memory with the active elements stored, in order. -/
def storeActive (memory : BitVec 64 → BitVec 8) (address : ℕ → BitVec 64) (elSize : ℕ)
    (active : List ℕ) (db : ByteArea) : BitVec 64 → BitVec 8 :=
  active.foldl (fun memory i => write memory (address i) ((db.drop (elSize * i)).take elSize))
    memory

/-- The memory and the buffer after an access of a flat memory. -/
def MemoryAccess.flatOutcome (memory : BitVec 64 → BitVec 8) :
    MemoryAccess → (BitVec 64 → BitVec 8) × ByteArea
  | .load address db => (memory, read memory address db.length)
  | .store address db => (write memory address db, db)
  | .loadElements addressSpan maskSpan elSize db =>
      (memory, loadActive memory (addressOfElement addressSpan elSize) elSize
        (activeElements 0 maskSpan) db)
  | .storeElements addressSpan maskSpan elSize db =>
      (storeActive memory (addressOfElement addressSpan elSize) elSize
        (activeElements 0 maskSpan) db, db)

/-- The memory and the buffers after a sequence of accesses of a flat memory. -/
def flatRun (memory : BitVec 64 → BitVec 8) :
    List MemoryAccess → (BitVec 64 → BitVec 8) × List ByteArea
  | [] => (memory, [])
  | access :: accesses =>
      let (memory', db) := access.flatOutcome memory
      let (memory'', dbs) := flatRun memory' accesses
      (memory'', db :: dbs)

/-! ### Which accesses are refined -/

/-- An access of bytes of the range `[lo, hi)`. -/
def RangeIn (lo hi : ℕ) (a : BitVec 64) (n : ℕ) : Prop := 0 < n ∧ lo ≤ a.toNat ∧ a.toNat + n ≤ hi

instance instDecidableRangeIn (lo hi : ℕ) (a : BitVec 64) (n : ℕ) : Decidable (RangeIn lo hi a n) :=
  inferInstanceAs (Decidable (_ ∧ _ ∧ _))

/-- An active element has an address of the range and a place in the buffer. -/
def ElementIn (lo hi : ℕ) (addressSpan : List (BitVec 64)) (elSize : ℕ) (db : ByteArea) (i : ℕ) :
    Prop :=
  (addressSpan.length = 1 ∨ i < addressSpan.length) ∧ elSize * i + elSize ≤ db.length ∧
    RangeIn lo hi (addressOfElement addressSpan elSize i) elSize

/-- An access that is not empty, of bytes of the range. -/
def MemoryAccess.InRange (lo hi : ℕ) : MemoryAccess → Prop
  | .load address db | .store address db => RangeIn lo hi address db.length
  | .loadElements addressSpan maskSpan elSize db | .storeElements addressSpan maskSpan elSize db =>
      0 < elSize ∧ ∀ i ∈ activeElements 0 maskSpan, ElementIn lo hi addressSpan elSize db i

/-- A range whose numbers fit, in the blocks that are counted. -/
def RangeFits (blockSizeBytes : BitVec 64) (count : ℕ) (a : BitVec 64) (n : ℕ) : Prop :=
  FitsInt blockSizeBytes a n ∧ a.toNat + n ≤ count * blockSizeBytes.toNat

/-- A range that fits ends with the blocks at the latest. -/
theorem RangeIn.of_fits {blockSizeBytes : BitVec 64} {lo hi count : ℕ} {a : BitVec 64} {n : ℕ}
    (h : RangeIn lo hi a n) (hfits : RangeFits blockSizeBytes count a n) :
    RangeIn lo (min hi (count * blockSizeBytes.toNat)) a n :=
  ⟨h.1, h.2.1, le_min h.2.2 hfits.2⟩

theorem ElementIn.of_fits {blockSizeBytes : BitVec 64} {lo hi count : ℕ}
    {addressSpan : List (BitVec 64)} {elSize : ℕ} {db : ByteArea} {i : ℕ}
    (h : ElementIn lo hi addressSpan elSize db i)
    (hfits : RangeFits blockSizeBytes count (addressOfElement addressSpan elSize i) elSize) :
    ElementIn lo (min hi (count * blockSizeBytes.toNat)) addressSpan elSize db i :=
  ⟨h.1, h.2.1, h.2.2.of_fits hfits⟩

/-- An access whose numbers fit the types they are kept in. -/
def MemoryAccess.Fits (blockSizeBytes : BitVec 64) (count : ℕ) : MemoryAccess → Prop
  | .load address db | .store address db => RangeFits blockSizeBytes count address db.length
  | .loadElements addressSpan maskSpan elSize _ | .storeElements addressSpan maskSpan elSize _ =>
      maskSpan.length < 2 ^ 32 ∧ ∀ i ∈ activeElements 0 maskSpan, elSize * i < 2 ^ 32 ∧
        RangeFits blockSizeBytes count (addressOfElement addressSpan elSize i) elSize

/-! ### Elements -/

theorem loadActive_nil (memory : BitVec 64 → BitVec 8) (address : ℕ → BitVec 64) (elSize : ℕ)
    (db : ByteArea) : loadActive memory address elSize [] db = db := by
  apply List.ext_getElem?
  intro k
  rw [loadActive, List.getElem?_mapIdx]
  simp only [List.not_mem_nil, if_false, Option.map_id']

/-- An element more, loaded before the others. -/
theorem loadActive_cons {memory : BitVec 64 → BitVec 8} {address : ℕ → BitVec 64} {elSize i : ℕ}
    {active : List ℕ} {db : ByteArea} (hpos : 0 < elSize) (h : elSize * i + elSize ≤ db.length) :
    loadActive memory address elSize active
      (patch db (elSize * i) (read memory (address i) elSize)) =
      loadActive memory address elSize (i :: active) db := by
  have hlen : (read memory (address i) elSize).length = elSize := length_read ..
  apply List.ext_getElem?
  intro k
  rw [loadActive, loadActive, List.getElem?_mapIdx, List.getElem?_mapIdx]
  have hdiv := Nat.div_add_mod k elSize
  have hmod := Nat.mod_lt k hpos
  by_cases hk : k / elSize = i
  · subst hk
    rw [getElem?_patch_inside (by omega) (by omega) (by omega), List.getElem?_eq_getElem (by omega),
      List.getElem?_eq_getElem (by omega), getElem_read]
    have hoffset : k - elSize * (k / elSize) = k % elSize := by omega
    simp only [Option.map_some, List.mem_cons, true_or, if_true, hoffset, ite_self]
  · have hout : k < elSize * i ∨ elSize * i + elSize ≤ k := by
      rcases Nat.lt_or_ge k (elSize * i) with hlt | hge
      · exact Or.inl hlt
      · refine Or.inr (not_lt.1 fun hlt => hk ?_)
        rw [← Nat.add_sub_cancel' hge, Nat.mul_add_div hpos, Nat.div_eq_of_lt (by omega),
          Nat.add_zero]
    rw [getElem?_patch_outside (by omega) (by rw [hlen]; exact hout)]
    simp only [List.mem_cons, hk, false_or]

/-- The code's address of an element. -/
theorem elementAddress_eq {addressSpan : List (BitVec 64)} {elSize i : ℕ}
    (h : addressSpan.length = 1 ∨ i < addressSpan.length) (hi : elSize * i < 2 ^ 32) :
    elementAddress addressSpan elSize i = some (addressOfElement addressSpan elSize i) := by
  rw [elementAddress, addressOfElement]
  by_cases hlist : 1 < addressSpan.length
  · have hlt : i < addressSpan.length := by omega
    rw [if_pos hlist, if_pos hlist, List.getElem?_eq_getElem hlt, List.getD_eq_getElem _ _ hlt]
  · have hlt : 0 < addressSpan.length := by omega
    have hindex : toUnsigned 32 ((i : ℤ) * elSize) = ((i * elSize : ℕ) : ℤ) := by
      rw [Nat.mul_comm] at hi
      rw [← Nat.cast_mul]
      exact toUnsigned_of_lt (by omega) (by omega)
    rw [if_neg hlist, if_neg hlist, List.getElem?_eq_getElem hlt, List.getD_eq_getElem _ _ hlt,
      Option.map_some, hindex, BitVec.ofInt_natCast]

namespace CoralNPURenodeMemory

variable {blockSizeBytes : BitVec 64} {lo hi top : ℕ}

/-- What the accesses of elements leave. -/
def MovedElements (m : CoralNPURenodeMemory) (db : ByteArea) (address : ℕ → BitVec 64) (elSize : ℕ)
    (active : List ℕ) : Bool → CoralNPURenodeMemory × ByteArea → Prop
  | true, (m', db') => m' = m ∧ db' = loadActive m.flat address elSize active db
  | false, (m', db') => db' = db ∧ m'.flat = storeActive m.flat address elSize active db

/-- An element more, accessed before the others. -/
theorem MovedElements.cons {m : CoralNPURenodeMemory} {isLoad : Bool} {db : ByteArea}
    {address : ℕ → BitVec 64} {elSize i : ℕ} {active : List ℕ}
    {s s' : CoralNPURenodeMemory × ByteArea} (hpos : 0 < elSize)
    (hdb : elSize * i + elSize ≤ db.length)
    (h : m.Moved db (elSize * i) (address i) elSize isLoad s)
    (h' : s.1.MovedElements s.2 address elSize active isLoad s') :
    m.MovedElements db address elSize (i :: active) isLoad s' := by
  cases isLoad with
  | true =>
      obtain ⟨rfl, hread⟩ := h
      refine ⟨h'.1, ?_⟩
      rw [h'.2, hread, loadActive_cons hpos hdb]
  | false =>
      obtain ⟨hkept, hflat⟩ := h
      refine ⟨h'.1.trans hkept, ?_⟩
      rw [h'.2, hflat, hkept, storeActive, storeActive, List.foldl_cons]

/-- **The active elements are accessed.** -/
theorem Shares.accessElementsFrom_moved (isLoad : Bool) {addressSpan : List (BitVec 64)}
    {elSize : ℕ} (hpos : 0 < elSize) {i : ℕ} {mask : List Bool} {m : CoralNPURenodeMemory}
    (h : m.Shares blockSizeBytes lo hi top) {db : ByteArea}
    (hin : ∀ j ∈ activeElements i mask, ElementIn lo top addressSpan elSize db j)
    (hfits : ∀ j ∈ activeElements i mask, elSize * j < 2 ^ 32 ∧
      FitsInt blockSizeBytes (addressOfElement addressSpan elSize j) elSize) :
    ∃ s, accessElementsFrom isLoad addressSpan elSize i mask m db = some s ∧
      m.MovedElements db (addressOfElement addressSpan elSize) elSize
        (activeElements i mask) isLoad s ∧
      s.1.Shares blockSizeBytes lo hi top := by
  induction mask generalizing i m db with
  | nil =>
      refine ⟨(m, db), rfl, ?_, h⟩
      cases isLoad with
      | true => exact ⟨rfl, (loadActive_nil ..).symm⟩
      | false => exact ⟨rfl, rfl⟩
  | cons active mask ih =>
      cases active with
      | false => exact ih h hin hfits
      | true =>
          obtain ⟨hgiven, hplace, hn, hlo, htop⟩ := hin i List.mem_cons_self
          obtain ⟨hindex, hfit⟩ := hfits i List.mem_cons_self
          obtain ⟨s, haccess, hmoved, hs, hlen⟩ :=
            h.accessChecked_moved isLoad hn hlo htop hfit hplace
          have hin' : ∀ j ∈ activeElements (i + 1) mask,
              ElementIn lo top addressSpan elSize s.2 j := by
            intro j hj
            obtain ⟨hgiven', hplace', hrange'⟩ := hin j (List.mem_cons_of_mem _ hj)
            exact ⟨hgiven', hlen ▸ hplace', hrange'⟩
          obtain ⟨s', hrest, hmoved', hs'⟩ :=
            ih hs hin' fun j hj => hfits j (List.mem_cons_of_mem _ hj)
          refine ⟨s', ?_, MovedElements.cons hpos hplace hmoved hmoved', hs'⟩
          have hptr : toUnsigned 32 ((elSize : ℤ) * i) = ((elSize * i : ℕ) : ℤ) := by
            rw [← Nat.cast_mul]
            exact toUnsigned_of_lt (by omega) (by omega)
          rw [accessElementsFrom, elementAddress_eq hgiven hindex, hptr, h.unit, Int.tdiv_one]
          simp only [Option.bind_eq_bind, Option.bind_some, haccess, hrest]

/-- A scalar access. -/
theorem Shares.accessScalar_moved {m : CoralNPURenodeMemory} (h : m.Shares blockSizeBytes lo hi top)
    (isLoad : Bool) {a : BitVec 64} {db : ByteArea} (hin : RangeIn lo top a db.length)
    (hfits : FitsInt blockSizeBytes a db.length) :
    ∃ s, accessScalar isLoad m a db = some s ∧ m.Moved db 0 a db.length isLoad s ∧
      s.1.Shares blockSizeBytes lo hi top := by
  obtain ⟨hn, hlo, htop⟩ := hin
  obtain ⟨s, haccess, hmoved, hs, -⟩ :=
    h.accessChecked_moved isLoad hn hlo htop hfits (Nat.zero_add db.length).le
  rw [Nat.cast_zero] at haccess
  refine ⟨s, ?_, hmoved, hs⟩
  rw [accessScalar, h.unit, Int.tdiv_one, toSigned_natCast hfits.1]
  exact haccess

/-- The accesses of elements. -/
theorem Shares.accessElements_moved {m : CoralNPURenodeMemory}
    (h : m.Shares blockSizeBytes lo hi top) (isLoad : Bool) {addressSpan : List (BitVec 64)}
    {mask : List Bool} {elSize : ℕ} {db : ByteArea} (hpos : 0 < elSize)
    (hmask : mask.length < 2 ^ 32)
    (hin : ∀ i ∈ activeElements 0 mask, ElementIn lo top addressSpan elSize db i)
    (hfits : ∀ i ∈ activeElements 0 mask, elSize * i < 2 ^ 32 ∧
      FitsInt blockSizeBytes (addressOfElement addressSpan elSize i) elSize) :
    ∃ s, accessElements isLoad m addressSpan mask elSize db = some s ∧
      m.MovedElements db (addressOfElement addressSpan elSize) elSize
        (activeElements 0 mask) isLoad s ∧
      s.1.Shares blockSizeBytes lo hi top := by
  obtain ⟨s, haccess, hs⟩ := h.accessElementsFrom_moved isLoad hpos hin hfits
  refine ⟨s, ?_, hs⟩
  rw [accessElements, h.unit, Int.tdiv_one, if_pos ⟨by omega, hmask⟩, haccess]

/-- **An access is the one of the flat memory.** -/
theorem Shares.step_refines {m : CoralNPURenodeMemory} {count : ℕ}
    (h : m.Shares blockSizeBytes lo hi (min hi (count * blockSizeBytes.toNat)))
    {access : MemoryAccess} (hin : access.InRange lo hi)
    (hfits : access.Fits blockSizeBytes count) :
    ∃ m', m.step access = some (m', (access.flatOutcome m.flat).2) ∧
      m'.flat = (access.flatOutcome m.flat).1 ∧
      m'.Shares blockSizeBytes lo hi (min hi (count * blockSizeBytes.toNat)) := by
  cases access with
  | load a db =>
      obtain ⟨⟨m', db'⟩, hstep, ⟨rfl, rfl⟩, hs⟩ :=
        h.accessScalar_moved true (RangeIn.of_fits hin hfits) hfits.1
      refine ⟨m', ?_, rfl, hs⟩
      rw [patch_all (length_read ..)] at hstep
      exact hstep
  | store a db =>
      obtain ⟨⟨m', db'⟩, hstep, ⟨rfl, hflat⟩, hs⟩ :=
        h.accessScalar_moved false (RangeIn.of_fits hin hfits) hfits.1
      rw [List.drop_zero, List.take_length] at hflat
      exact ⟨m', hstep, hflat, hs⟩
  | loadElements addressSpan mask elSize db =>
      obtain ⟨⟨m', db'⟩, hstep, ⟨rfl, rfl⟩, hs⟩ := h.accessElements_moved true hin.1 hfits.1
        (fun i hi => (hin.2 i hi).of_fits (hfits.2 i hi).2)
        (fun i hi => ⟨(hfits.2 i hi).1, (hfits.2 i hi).2.1⟩)
      exact ⟨m', hstep, rfl, hs⟩
  | storeElements addressSpan mask elSize db =>
      obtain ⟨⟨m', db'⟩, hstep, ⟨rfl, hflat⟩, hs⟩ := h.accessElements_moved false hin.1 hfits.1
        (fun i hi => (hin.2 i hi).of_fits (hfits.2 i hi).2)
        (fun i hi => ⟨(hfits.2 i hi).1, (hfits.2 i hi).2.1⟩)
      exact ⟨m', hstep, hflat, hs⟩

/-- **A sequence of accesses is the one of the flat memory.** -/
theorem Shares.run_refines {count : ℕ} {accesses : List MemoryAccess} {m : CoralNPURenodeMemory}
    (h : m.Shares blockSizeBytes lo hi (min hi (count * blockSizeBytes.toNat)))
    (hin : ∀ access ∈ accesses, access.InRange lo hi)
    (hfits : ∀ access ∈ accesses, access.Fits blockSizeBytes count) :
    ∃ m', m.run accesses = some (m', (flatRun m.flat accesses).2) ∧
      m'.flat = (flatRun m.flat accesses).1 := by
  induction accesses generalizing m with
  | nil => exact ⟨m, rfl, rfl⟩
  | cons access accesses ih =>
      obtain ⟨m', hstep, hflat, hs⟩ := h.step_refines (hin access List.mem_cons_self)
        (hfits access List.mem_cons_self)
      obtain ⟨m'', hrun, hflat'⟩ := ih hs (fun x hx => hin x (List.mem_cons_of_mem _ hx))
        (fun x hx => hfits x (List.mem_cons_of_mem _ hx))
      refine ⟨m'', ?_, ?_⟩
      · rw [run, hstep]
        simp only [Option.bind_eq_bind, Option.bind_some, hrun, hflat, flatRun]
      · rw [hflat', hflat]
        rfl

end CoralNPURenodeMemory

/-! ### The memory constructed -/

/-- What is handed over: blocks of at least one byte for a memory larger than the simulator's
default, and a place in them for each of its bytes. -/
structure HandedOver (blockSizeBytes memorySizeBytes baseAddress : BitVec 64)
    (blockPtrList : List ByteArea) : Prop where
  pos : 0 < blockSizeBytes.toNat
  large : kCoralnpuMaxMemoryAddress.toNat < baseAddress.toNat + memorySizeBytes.toNat
  count_le : (numBlock blockSizeBytes (baseAddress + memorySizeBytes)).toNat ≤ blockPtrList.length
  covers : Covers blockSizeBytes.toNat blockPtrList baseAddress.toNat
    (baseAddress.toNat + memorySizeBytes.toNat)

/-- The end of the memory is an address, and the number of its blocks an `int`. -/
def MemoryFits (blockSizeBytes memorySizeBytes baseAddress : BitVec 64) : Prop :=
  baseAddress.toNat + memorySizeBytes.toNat < 2 ^ 64 ∧
    (numBlock blockSizeBytes (baseAddress + memorySizeBytes)).toNat < 2 ^ 31

/-- The memory is constructed, and a sequence of accesses gives what it gives in a flat memory with
the bytes of the blocks; no access leaves the blocks. -/
def RefinesFlat (blockSizeBytes memorySizeBytes baseAddress : BitVec 64)
    (blockPtrList : List ByteArea) (accesses : List MemoryAccess) : Prop :=
  ∃ m m', construct blockSizeBytes memorySizeBytes blockPtrList baseAddress 1 = some m ∧
    m.flat = view 0 blockSizeBytes.toNat
      (blockPtrList.take (numBlock blockSizeBytes (baseAddress + memorySizeBytes)).toNat) ∧
    m.run accesses = some (m', (flatRun m.flat accesses).2) ∧ m'.flat = (flatRun m.flat accesses).1

/-- The blocks that are counted have the places below their end. -/
theorem covers_take {size lo hi count : ℕ} {blocks : List ByteArea} (hpos : 0 < size)
    (h : Covers size blocks lo hi) :
    Covers size (blocks.take count) lo (min hi (count * size)) := by
  intro a hlo hhi
  obtain ⟨block, hblock, hlt⟩ := h a hlo (by omega)
  refine ⟨block, ?_, hlt⟩
  rw [List.getElem?_take_of_lt, hblock]
  exact (Nat.div_lt_iff_lt_mul hpos).2 (by omega)

/-- The memory as it is constructed. -/
theorem construct_shares {blockSizeBytes memorySizeBytes baseAddress : BitVec 64}
    {blockPtrList : List ByteArea}
    (h : HandedOver blockSizeBytes memorySizeBytes baseAddress blockPtrList)
    (hfits : MemoryFits blockSizeBytes memorySizeBytes baseAddress) :
    ∃ m, construct blockSizeBytes memorySizeBytes blockPtrList baseAddress 1 = some m ∧
      m.flat = view 0 blockSizeBytes.toNat
        (blockPtrList.take (numBlock blockSizeBytes (baseAddress + memorySizeBytes)).toNat) ∧
      m.Shares blockSizeBytes baseAddress.toNat (baseAddress.toNat + memorySizeBytes.toNat)
        (min (baseAddress.toNat + memorySizeBytes.toNat)
          ((numBlock blockSizeBytes (baseAddress + memorySizeBytes)).toNat *
            blockSizeBytes.toNat)) := by
  have hmax : (baseAddress + memorySizeBytes).toNat =
      baseAddress.toNat + memorySizeBytes.toNat := by
    rw [BitVec.toNat_add, Nat.mod_eq_of_lt hfits.1]
  have hlarge : kCoralnpuMaxMemoryAddress < baseAddress + memorySizeBytes :=
    BitVec.lt_def.2 (by rw [hmax]; exact h.large)
  have hne : blockSizeBytes ≠ 0 := by
    rintro rfl
    exact absurd h.pos (by decide)
  refine ⟨_, if_pos ⟨hlarge, hne, hfits.2, h.count_le⟩, rfl, ?_⟩
  exact {
    shift := rfl
    unit := rfl
    allocation := by
      have hone : blockSizeBytes * BitVec.ofNat 64 1 = blockSizeBytes := BitVec.mul_one _
      simp only [hone]
    blockSize := rfl
    pos := h.pos
    base := rfl
    max := hmax
    top_le := Nat.min_le_left ..
    covers := covers_take h.pos h.covers }

/-- **When the memory refines a flat one**: when it and all accesses fit. -/
theorem refinesFlat_of_fits {blockSizeBytes memorySizeBytes baseAddress : BitVec 64}
    {blockPtrList : List ByteArea} {accesses : List MemoryAccess}
    (h : HandedOver blockSizeBytes memorySizeBytes baseAddress blockPtrList)
    (hin : ∀ access ∈ accesses, access.InRange baseAddress.toNat
      (baseAddress.toNat + memorySizeBytes.toNat))
    (hmemory : MemoryFits blockSizeBytes memorySizeBytes baseAddress)
    (hfits : ∀ access ∈ accesses, access.Fits blockSizeBytes
      (numBlock blockSizeBytes (baseAddress + memorySizeBytes)).toNat) :
    RefinesFlat blockSizeBytes memorySizeBytes baseAddress blockPtrList accesses := by
  obtain ⟨m, hconstruct, hflat, hshares⟩ := construct_shares h hmemory
  obtain ⟨m', hrun, hflat'⟩ := hshares.run_refines hin hfits
  exact ⟨m, m', hconstruct, hflat, hrun, hflat'⟩

/-- A memory of two blocks, the second of which is shorter: a store across their boundary, the load
of what it has stored, and the load of two elements, one on each side. -/
theorem refinesFlat_twoBlocks :
    RefinesFlat 3000000 4194304 0 [List.replicate 3000000 0, List.replicate 1194304 0]
      [.store 2999998 [1, 2, 3, 4], .load 2999998 [0, 0, 0, 0],
        .loadElements [3000000, 2999999] [true, true] 1 [0, 0]] := by
  have hcount : (numBlock 3000000 (0 + 4194304)).toNat = 2 := by decide
  refine refinesFlat_of_fits ⟨by decide, by decide, by rw [hcount]; decide, ?_⟩ ?_
    ⟨by decide, by rw [hcount]; decide⟩ ?_
  · intro a _ ha
    have hend : a < 4194304 := ha
    rcases Nat.lt_or_ge a 3000000 with hfirst | hsecond
    · refine ⟨List.replicate 3000000 0, ?_, ?_⟩
      · rw [show a / (3000000 : BitVec 64).toNat = 0 from Nat.div_eq_of_lt hfirst]
        rfl
      · rw [List.length_replicate]
        exact Nat.mod_lt _ (by decide)
    · refine ⟨List.replicate 1194304 0, ?_, ?_⟩
      · rw [show a / (3000000 : BitVec 64).toNat = 1 from
          Nat.div_eq_of_lt_le hsecond (lt_of_lt_of_le hend (by decide))]
        rfl
      · rw [List.length_replicate, show a % (3000000 : BitVec 64).toNat = a - 3000000 from ?_]
        · omega
        · exact (Nat.mod_eq_sub_mod hsecond).trans (Nat.mod_eq_of_lt (by omega))
  · intro access haccess
    simp only [List.mem_cons, List.not_mem_nil, or_false] at haccess
    rcases haccess with rfl | rfl | rfl
    · exact ⟨by decide, by decide, by decide⟩
    · exact ⟨by decide, by decide, by decide⟩
    · refine ⟨by decide, ?_⟩
      intro i hi
      simp only [activeElements, List.mem_cons, List.not_mem_nil, or_false] at hi
      rcases hi with rfl | rfl
      · exact ⟨by decide, by decide, by decide, by decide, by decide⟩
      · exact ⟨by decide, by decide, by decide, by decide, by decide⟩
  · intro access haccess
    rw [hcount]
    simp only [List.mem_cons, List.not_mem_nil, or_false] at haccess
    rcases haccess with rfl | rfl | rfl
    · exact ⟨⟨by decide, Or.inl (by decide)⟩, by decide⟩
    · exact ⟨⟨by decide, Or.inl (by decide)⟩, by decide⟩
    · refine ⟨by decide, ?_⟩
      intro i hi
      simp only [activeElements, List.mem_cons, List.not_mem_nil, or_false] at hi
      rcases hi with rfl | rfl
      · exact ⟨by decide, ⟨by decide, Or.inl (by decide)⟩, by decide⟩
      · exact ⟨by decide, ⟨by decide, Or.inl (by decide)⟩, by decide⟩

/-! ### A block that is too large -/

/-- A memory whose block size is lost in the type of `allocation_byte_size_`: nothing is moved, and
the loop does not end. -/
theorem loadStoreLoop_of_allocation_eq_zero {m : CoralNPURenodeMemory}
    (hallocation : m.allocationByteSize = 0) (hshift : m.addressableUnitShift = 0) (fuel : ℕ)
    (db : ByteArea) : loadStoreLoop true fuel m db 0 0 4 = none := by
  induction fuel generalizing db with
  | zero => rfl
  | succ fuel ih =>
      have hoffset :
          (0 - 0 / m.memoryBlockSizeBytes * m.memoryBlockSizeBytes : BitVec 64).toNat = 0 := by
        rw [toNat_sub_udiv_mul, BitVec.ofNat_eq_ofNat, BitVec.toNat_ofNat, Nat.zero_mod]
      have hzero : toSigned 32 0 = 0 := by decide
      have hleft : checked 32 ((0 : ℤ) - 0) = some 0 := by decide
      have hrest : checked 32 ((4 : ℤ) - 0) = some 4 := by decide
      have hmin : min (4 : ℤ) 0 = 0 := by decide
      rw [loadStoreLoop]
      simp only [hoffset, hallocation, hshift, Nat.cast_zero, hzero, hleft, hmin, zero_mul, hrest,
        Option.bind_eq_bind, Option.bind_some]
      cases m.blockMap[(0 / m.memoryBlockSizeBytes : BitVec 64).toNat]? with
      | none => rfl
      | some block =>
          rw [Option.bind_some, transfer, if_pos rfl]
          cases memcpy db 0 block 0 0 with
          | none => rfl
          | some db' =>
              rw [Option.map_some, Option.bind_some, if_pos (by decide)]
              exact ih db'

/-- A word is not loaded. -/
theorem load_of_allocation_eq_zero {m : CoralNPURenodeMemory}
    (hallocation : m.allocationByteSize = 0) (hshift : m.addressableUnitShift = 0)
    (hunit : m.addressableUnitSize = 1) : load m 0 [0, 0, 0, 0] = none := by
  have hsize : toSigned 32 (Int.tdiv ([0, 0, 0, 0] : ByteArea).length 1) = 4 := by decide
  rw [load, accessScalar, hunit, hsize, accessChecked, loadStoreHelper]
  split
  · split
    · exact loadStoreLoop_of_allocation_eq_zero hallocation hshift _ _
    · rfl
  · rfl

/-- **A memory of one block of four gigabytes.** -/
theorem not_refinesFlat_fourGigabytes :
    HandedOver 0x100000000 0x100000000 0 [List.replicate 0x100000000 0] ∧
      (MemoryAccess.load 0 [0, 0, 0, 0]).InRange 0 0x100000000 ∧
      ¬ RefinesFlat 0x100000000 0x100000000 0 [List.replicate 0x100000000 0]
        [.load 0 [0, 0, 0, 0]] := by
  have hcount : (numBlock 0x100000000 (0 + 0x100000000)).toNat = 1 := by decide
  refine ⟨⟨by decide, by decide, by rw [hcount]; exact Nat.le_refl 1, ?_⟩,
    ⟨by decide, by decide, by decide⟩, ?_⟩
  · intro a _ ha
    have hlt : a < 0x100000000 := ha
    refine ⟨List.replicate 0x100000000 0, ?_, ?_⟩
    · rw [show a / (0x100000000 : BitVec 64).toNat = 0 from Nat.div_eq_of_lt hlt]
      rfl
    · rw [List.length_replicate]
      exact Nat.mod_lt _ (by decide)
  · rintro ⟨m, m', hconstruct, -, hrun, -⟩
    rw [construct] at hconstruct
    split at hconstruct
    · cases hconstruct
      rw [CoralNPURenodeMemory.run, CoralNPURenodeMemory.step,
        load_of_allocation_eq_zero (by decide) (by decide) rfl] at hrun
      cases hrun
    · cases hconstruct

end CoralNpu.Renode
