/-
**The memory of the top, from outside.**

A debugger reads and writes the memory of a halted core, up to its last physical address; a longer
access is cut there.  An image is loaded by such writes, one for each piece of the file that fits a
buffer.

The accesses go to the memory itself: the decode cache is not told of them.

Main definitions:

* `CoralNpu.CoralNpuTop.readMemory`, `CoralNpu.CoralNpuTop.writeMemory` — the two accesses;
* `CoralNpu.CoralNpuTop.loadImage` — `CoralNPUTop::LoadImage`, and
  `CoralNpu.CoralNpuTop.loadPieces`, its loop.

Main results:

* `CoralNpu.CoralNpuTop.loadPieces_eq` — the loop writes one range;
* `CoralNpu.CoralNpuTop.loadImage_loaded` — **an image is loaded exactly when it fits**, what fits
  of it is written and nothing else changes, and a loaded image is read back.
-/

import CoralNpu.CoralNpuTopResume
import CoralNpu.FlatMemory

set_option relaxedAutoImplicit false
set_option autoImplicit false

namespace CoralNpu

open FlatMemory

namespace CoralNpuTop

variable {ρ : Type} {C : DecodeCache}

/-! ### Accesses -/

/-- The length of an access, cut at the last address. -/
def accessLength (maxPhysicalAddress address length : BitVec 64) : BitVec 64 :=
  if length ≤ maxPhysicalAddress - address + 1 then length else maxPhysicalAddress - address + 1

/-- `ReadMemory`: the bytes put into the buffer. -/
def readMemory (maxPhysicalAddress address length : BitVec 64) (s : CoralNpuTop ρ C) :
    Except TopStatus (List (BitVec 8)) :=
  if s.runStatus ≠ .halted then
    .error (.failedPrecondition "ReadMemory: Core must be halted".toList)
  else if address > maxPhysicalAddress then
    .error (.invalidArgument "Memory address invalid".toList)
  else .ok (read s.code.memory address (accessLength maxPhysicalAddress address length).toNat)

/-- The top with bytes stored past the decode cache. -/
def storeBytes (address : Address) (bytes : List (BitVec 8)) (s : CoralNpuTop ρ C) :
    CoralNpuTop ρ C :=
  { s with code := { s.code with memory := write s.code.memory address bytes } }

/-- `WriteMemory`: the number of bytes written. -/
def writeMemory (maxPhysicalAddress address : BitVec 64) (buffer : List (BitVec 8))
    (s : CoralNpuTop ρ C) : Except TopStatus (BitVec 64) × CoralNpuTop ρ C :=
  if s.runStatus ≠ .halted then
    (.error (.failedPrecondition "WriteMemory: Core must be halted".toList), s)
  else if address > maxPhysicalAddress then
    (.error (.invalidArgument "Memory address invalid".toList), s)
  else
    let length := accessLength maxPhysicalAddress address (BitVec.ofNat 64 buffer.length)
    (.ok length, s.storeBytes address (buffer.take length.toNat))

/-! ### Images -/

/-- The status of `LoadImage`. -/
inductive ImageStatus where
  | ok
  | internal (message : String)
  deriving DecidableEq

/-- The size of the buffer of `LoadImage`. -/
def kBufferSize : ℕ := 4096

/-- The loop of `LoadImage`, over what is left of the file.  A piece that does not fill the buffer
is the last one. -/
def loadPieces (maxPhysicalAddress : BitVec 64) (bytes : List (BitVec 8)) (loadAddress : BitVec 64)
    (s : CoralNpuTop ρ C) : ImageStatus × CoralNpuTop ρ C :=
  if _ : bytes = [] then (.ok, s)
  else
    let piece := bytes.take kBufferSize
    match s.writeMemory maxPhysicalAddress loadAddress piece with
    | (.error _, s) => (.internal "Memory write failed", s)
    | (.ok written, s) =>
        if written.toNat ≠ piece.length then (.internal "Failed to write all the bytes", s)
        else if piece.length < kBufferSize then (.ok, s)
        else
          loadPieces maxPhysicalAddress (bytes.drop kBufferSize)
            (loadAddress + BitVec.ofNat 64 piece.length) s
termination_by bytes.length
decreasing_by
  rw [List.length_drop]
  have hpos := List.length_pos_of_ne_nil ‹bytes ≠ []›
  have hsize : 0 < kBufferSize := by decide
  omega

/-- `LoadImage`; a file that cannot be opened is `none`. -/
def loadImage (maxPhysicalAddress : BitVec 64) (file : Option (List (BitVec 8)))
    (startAddress : BitVec 64) (s : CoralNpuTop ρ C) : ImageStatus × CoralNpuTop ρ C :=
  match file with
  | none => (.internal "Failed to open file", s)
  | some bytes => s.loadPieces maxPhysicalAddress bytes startAddress

/-! ### What is written -/

@[simp] theorem runStatus_storeBytes (address : Address) (bytes : List (BitVec 8))
    (s : CoralNpuTop ρ C) :
    (s.storeBytes address bytes).runStatus = s.runStatus := rfl

@[simp] theorem memory_storeBytes (address : Address) (bytes : List (BitVec 8))
    (s : CoralNpuTop ρ C) :
    (s.storeBytes address bytes).code.memory = write s.code.memory address bytes := rfl

@[simp] theorem storeBytes_nil (address : Address) (s : CoralNpuTop ρ C) :
    s.storeBytes address [] = s := rfl

/-- Two ranges, one behind the other, are one. -/
theorem storeBytes_storeBytes (address : Address) (xs ys : List (BitVec 8)) (s : CoralNpuTop ρ C)
    (h : xs.length + ys.length ≤ 2 ^ 64) :
    (s.storeBytes address xs).storeBytes (address + BitVec.ofNat 64 xs.length) ys =
      s.storeBytes address (xs ++ ys) := by
  simp only [storeBytes, write_append _ _ _ _ h]

section Halted

variable {maxPhysicalAddress address : BitVec 64} {s : CoralNpuTop ρ C}

/-- The room up to the last address. -/
def room (maxPhysicalAddress address : BitVec 64) : ℕ :=
  maxPhysicalAddress.toNat + 1 - address.toNat

theorem toNat_accessLength (hmax : maxPhysicalAddress.toNat < 2 ^ 64 - 1)
    (h : ¬ address > maxPhysicalAddress) (length : BitVec 64) :
    (accessLength maxPhysicalAddress address length).toNat =
      min length.toNat (room maxPhysicalAddress address) := by
  have hle : address.toNat ≤ maxPhysicalAddress.toNat := BitVec.not_lt.1 h
  have hroom : (maxPhysicalAddress - address + 1).toNat = room maxPhysicalAddress address := by
    have hsub := BitVec.toNat_sub_of_le (BitVec.not_lt.1 h)
    rw [BitVec.toNat_add, hsub, room]
    have hone : (1 : BitVec 64).toNat = 1 := rfl
    rw [hone, Nat.mod_eq_of_lt (by omega)]
    omega
  rw [accessLength, ← hroom]
  split
  · rename_i hle
    exact (Nat.min_eq_left (BitVec.le_def.1 hle)).symm
  · rename_i hlt
    exact (Nat.min_eq_right (Nat.le_of_lt (BitVec.not_le.1 hlt))).symm

/-- **A write to a halted top**: past the last address it fails, before that what fits is
written. -/
theorem writeMemory_eq (address : BitVec 64) (hmax : maxPhysicalAddress.toNat < 2 ^ 64 - 1)
    (hhalted : s.runStatus = .halted) {buffer : List (BitVec 8)}
    (hbuffer : buffer.length < 2 ^ 64) :
    s.writeMemory maxPhysicalAddress address buffer =
      if address > maxPhysicalAddress then
        (.error (.invalidArgument "Memory address invalid".toList), s)
      else
        (.ok (BitVec.ofNat 64 (min buffer.length (room maxPhysicalAddress address))),
          s.storeBytes address (buffer.take (room maxPhysicalAddress address))) := by
  rw [writeMemory, if_neg (not_not.2 hhalted)]
  split
  · rfl
  · rename_i hle
    have hlength := toNat_accessLength hmax hle (BitVec.ofNat 64 buffer.length)
    rw [BitVec.toNat_ofNat, Nat.mod_eq_of_lt hbuffer] at hlength
    have hword := congrArg (BitVec.ofNat 64) hlength
    rw [BitVec.ofNat_toNat, BitVec.setWidth_eq] at hword
    have hcut : min buffer.length (room maxPhysicalAddress address) % 2 ^ 64 =
        min buffer.length (room maxPhysicalAddress address) :=
      Nat.mod_eq_of_lt (Nat.lt_of_le_of_lt (Nat.min_le_left _ _) hbuffer)
    simp only [hword, BitVec.toNat_ofNat, hcut]
    rw [Nat.min_comm buffer.length, ← List.take_take, List.take_length]

/-- The room left behind a piece that fits. -/
theorem room_add {n : ℕ} (hn : n ≤ room maxPhysicalAddress address) (hpos : 0 < n)
    (hmax : maxPhysicalAddress.toNat < 2 ^ 64 - 1) :
    room maxPhysicalAddress (address + BitVec.ofNat 64 n) =
      room maxPhysicalAddress address - n := by
  rw [room] at hn
  have hsum : (address + BitVec.ofNat 64 n).toNat = address.toNat + n := by
    rw [BitVec.toNat_add, BitVec.toNat_ofNat, Nat.add_mod_mod, Nat.mod_eq_of_lt (by omega)]
  rw [room, room, hsum]
  omega

/-- The failure of a write of a piece. -/
def pieceFailure (maxPhysicalAddress address : BitVec 64) : ImageStatus :=
  if address > maxPhysicalAddress then .internal "Memory write failed"
  else .internal "Failed to write all the bytes"

/-- An iteration of the loop: there is no room for the piece, or it is the last one, or the loop
goes on. -/
theorem loadPieces_cons (hmax : maxPhysicalAddress.toNat < 2 ^ 64 - 1)
    (hhalted : s.runStatus = .halted) {bytes : List (BitVec 8)} (hnil : bytes ≠ []) :
    s.loadPieces maxPhysicalAddress bytes address =
      if room maxPhysicalAddress address < (bytes.take kBufferSize).length then
        (pieceFailure maxPhysicalAddress address,
          s.storeBytes address ((bytes.take kBufferSize).take (room maxPhysicalAddress address)))
      else if (bytes.take kBufferSize).length < kBufferSize then
        (.ok, s.storeBytes address (bytes.take kBufferSize))
      else
        (s.storeBytes address (bytes.take kBufferSize)).loadPieces maxPhysicalAddress
          (bytes.drop kBufferSize) (address + BitVec.ofNat 64 (bytes.take kBufferSize).length) := by
  have hpos : 0 < (bytes.take kBufferSize).length := by
    rw [List.length_take, kBufferSize]
    have := List.length_pos_of_ne_nil hnil
    omega
  have hlt : (bytes.take kBufferSize).length < 2 ^ 64 :=
    Nat.lt_of_le_of_lt (List.length_take_le _ _) (by decide)
  rw [loadPieces, dif_neg hnil]
  simp only [writeMemory_eq address hmax hhalted hlt, pieceFailure]
  generalize bytes.take kBufferSize = piece at hpos hlt ⊢
  by_cases hbehind : address > maxPhysicalAddress
  · have hroom : room maxPhysicalAddress address = 0 := by
      have := BitVec.lt_def.1 hbehind
      rw [room]
      omega
    rw [if_pos hbehind, hroom, if_pos hpos, List.take_zero, storeBytes_nil, if_pos hbehind]
  · have hwritten : (BitVec.ofNat 64 (min piece.length (room maxPhysicalAddress address))).toNat =
        min piece.length (room maxPhysicalAddress address) := by
      rw [BitVec.toNat_ofNat, Nat.mod_eq_of_lt (by omega)]
    simp only [if_neg hbehind, hwritten]
    by_cases hroom : room maxPhysicalAddress address < piece.length
    · rw [if_pos hroom, if_pos (by omega)]
    · rw [if_neg hroom, if_neg (by omega), List.take_of_length_le (by omega)]

/-- **The loop writes one range**: of the bytes, what there is room for. -/
theorem loadPieces_eq (address : BitVec 64) (hmax : maxPhysicalAddress.toNat < 2 ^ 64 - 1)
    (bytes : List (BitVec 8)) (hhalted : s.runStatus = .halted) :
    (s.loadPieces maxPhysicalAddress bytes address).2 =
        s.storeBytes address (bytes.take (room maxPhysicalAddress address)) ∧
      ((s.loadPieces maxPhysicalAddress bytes address).1 = .ok ↔
        bytes.length ≤ room maxPhysicalAddress address) := by
  induction hlength : bytes.length using Nat.strong_induction_on generalizing bytes address s with
  | _ n ih =>
      by_cases hnil : bytes = []
      · subst hnil
        rw [loadPieces, dif_pos rfl, List.take_nil, storeBytes_nil, ← hlength]
        exact ⟨rfl, iff_of_true rfl (Nat.zero_le _)⟩
      have hpos := List.length_pos_of_ne_nil hnil
      have hsize : (bytes.take kBufferSize).length = min kBufferSize bytes.length :=
        List.length_take
      have hbuffer : 0 < kBufferSize := by decide
      rw [loadPieces_cons hmax hhalted hnil]
      by_cases hroom : room maxPhysicalAddress address < (bytes.take kBufferSize).length
      · -- the piece reaches behind the last address
        rw [if_pos hroom, List.take_take, Nat.min_eq_left (by omega)]
        refine ⟨rfl, iff_of_false ?_ (by omega)⟩
        rw [pieceFailure]
        split <;> intro h <;> cases h
      rw [if_neg hroom]
      by_cases hlast : (bytes.take kBufferSize).length < kBufferSize
      · rw [if_pos hlast, List.take_of_length_le (by omega), List.take_of_length_le (by omega)]
        exact ⟨rfl, iff_of_true rfl (by omega)⟩
      · have hpiece : (bytes.take kBufferSize).length = kBufferSize := by omega
        rw [if_neg hlast]
        have hfits : kBufferSize ≤ room maxPhysicalAddress address := by omega
        have hrest := room_add hfits hbuffer hmax
        have hdrop : (bytes.drop kBufferSize).length = n - kBufferSize := by
          rw [List.length_drop, hlength]
        have hless : n - kBufferSize < n := Nat.sub_lt (by omega) hbuffer
        obtain ⟨hstate, hok⟩ :=
          ih (n - kBufferSize) hless (s := s.storeBytes address (bytes.take kBufferSize))
          (address + BitVec.ofNat 64 kBufferSize) (bytes.drop kBufferSize) hhalted hdrop
        have hall : room maxPhysicalAddress address ≤ 2 ^ 64 := by
          rw [room]
          omega
        rw [hpiece, hstate, hok, hrest]
        refine ⟨?_, by omega⟩
        have hjoin := storeBytes_storeBytes address (bytes.take kBufferSize)
          ((bytes.drop kBufferSize).take (room maxPhysicalAddress address - kBufferSize)) s
          (by rw [hpiece, List.length_take]
              exact (Nat.add_le_of_le_sub' hfits (Nat.min_le_left _ _)).trans hall)
        rw [hpiece] at hjoin
        rw [hjoin, ← List.take_add, Nat.add_sub_cancel' hfits]

end Halted

/-- **An image is loaded exactly when it fits** below the last address.  What there is room for is
written, whether or not all of it fits, and nothing else of the top changes; every part of a loaded
image is read back. -/
theorem loadImage_loaded {maxPhysicalAddress startAddress : BitVec 64} {s : CoralNpuTop ρ C}
    (hmax : maxPhysicalAddress.toNat < 2 ^ 64 - 1) (hhalted : s.runStatus = .halted)
    (bytes : List (BitVec 8)) :
    let loaded := s.loadImage maxPhysicalAddress (some bytes) startAddress
    (loaded.1 = .ok ↔ bytes = [] ∨
      startAddress.toNat + bytes.length ≤ maxPhysicalAddress.toNat + 1) ∧
      loaded.2 = s.storeBytes startAddress (bytes.take (room maxPhysicalAddress startAddress)) ∧
      (loaded.1 = .ok → ∀ offset length : ℕ, 0 < length → offset + length ≤ bytes.length →
        loaded.2.readMemory maxPhysicalAddress (startAddress + BitVec.ofNat 64 offset)
            (BitVec.ofNat 64 length) = .ok ((bytes.drop offset).take length)) := by
  obtain ⟨hstate, hok⟩ := loadPieces_eq startAddress hmax bytes hhalted
  have hfits : bytes.length ≤ room maxPhysicalAddress startAddress ↔
      bytes = [] ∨ startAddress.toNat + bytes.length ≤ maxPhysicalAddress.toNat + 1 := by
    rw [room, ← List.length_eq_zero_iff]
    omega
  refine ⟨hok.trans hfits, hstate, fun hloaded offset length hlength hle => ?_⟩
  have hroom := hok.1 hloaded
  rw [room] at hroom
  rw [loadImage, hstate, List.take_of_length_le (hok.1 hloaded)]
  have hoffset : (startAddress + BitVec.ofNat 64 offset).toNat = startAddress.toNat + offset := by
    rw [BitVec.toNat_add, BitVec.toNat_ofNat, Nat.add_mod_mod, Nat.mod_eq_of_lt (by omega)]
  have hbelow : ¬ startAddress + BitVec.ofNat 64 offset > maxPhysicalAddress := by
    rw [gt_iff_lt, BitVec.lt_def, hoffset]
    omega
  have hcut : (accessLength maxPhysicalAddress (startAddress + BitVec.ofNat 64 offset)
      (BitVec.ofNat 64 length)).toNat = length := by
    rw [toNat_accessLength hmax hbelow, room, hoffset, BitVec.toNat_ofNat,
      Nat.mod_eq_of_lt (by omega)]
    omega
  rw [readMemory, runStatus_storeBytes, if_neg (not_not.2 hhalted), if_neg hbelow, hcut,
    memory_storeBytes, read_write _ _ hle (by omega)]

/-- Five bytes at the end of sixteen do not fit; four of them are written. -/
theorem loadImage_loaded_five :
    let s : CoralNpuTop Unit noCache := start () (fun _ => 0) 0
    (s.loadImage 0xf (some [1, 2, 3, 4, 5]) 0xc).2 = s.storeBytes 0xc [1, 2, 3, 4] :=
  (loadImage_loaded (by decide) rfl [1, 2, 3, 4, 5]).2.1

end CoralNpuTop

end CoralNpu
