/-
**Strings for the log.**

A string in memory is read word by word until a word has a NUL, and trimmed at the NUL; the helper
that does this stops at the end of memory too, and then finds no NUL to trim at.  A string that a
program sends in pieces is collected until a piece has a NUL.

Main definitions:

* `CoralNpu.GuestMemory` — the memory, as the helper reads it;
* `CoralNpu.stringLoadHelper` — `CoralNPUStringLoadHelper`, with its ways to end;
* `CoralNpu.coralNPULogInstruction` — `CoralNPULogInstruction`;
* `CoralNpu.memoryText` — the string in memory;
* `CoralNpu.TerminatorRead` — the byte behind the string is read, and is a NUL.

Main results:

* `CoralNpu.returns_iff` — what the helper returns, byte by byte;
* `CoralNpu.loadsString_iff` — **the string in memory is loaded exactly when** the byte behind it is
  read as a NUL;
* `CoralNpu.clogString_runLog` — the buffer holds the pieces sent since the last NUL.
-/

import CoralNpu.CoralNpuLog
import CoralNpu.WordMemory
import Mathlib.Data.List.DropRight
import Mathlib.Data.List.TakeWhile

set_option relaxedAutoImplicit false
set_option autoImplicit false

namespace CoralNpu

open AsciiText WordMemory

/-! ### Loading a string -/

/-- The memory a string is loaded from.  A load at an address above the maximum traps, and leaves
the buffer it loads into as it is. -/
structure GuestMemory where
  bytes : BitVec 64 → BitVec 8
  maxPhysicalAddress : BitVec 64
  loadMemory : BitVec 64 → BitVec 32 → BitVec 32
  loadMemory_le : ∀ {addr : BitVec 64} (db : BitVec 32), addr ≤ maxPhysicalAddress →
    loadMemory addr db = loadWord bytes addr
  loadMemory_gt : ∀ {addr : BitVec 64} (db : BitVec 32), ¬ addr ≤ maxPhysicalAddress →
    loadMemory addr db = db

/-- A memory with some bytes and a maximum. -/
def guestMemory (bytes : BitVec 64 → BitVec 8) (maxPhysicalAddress : BitVec 64) : GuestMemory where
  bytes := bytes
  maxPhysicalAddress := maxPhysicalAddress
  loadMemory addr db := if addr ≤ maxPhysicalAddress then loadWord bytes addr else db
  loadMemory_le _ h := if_pos h
  loadMemory_gt _ h := if_neg h

/-- A byte as a character. -/
def charOf (b : BitVec 8) : Char := Char.ofNat b.toNat

/-- The four characters of a word. -/
def wordChars (data : BitVec 32) : Text :=
  [charOf (data.extractLsb' 0 8), charOf (data.extractLsb' 8 8), charOf (data.extractLsb' 16 8),
    charOf (data.extractLsb' 24 8)]

/-- `WordHasZero`. -/
def wordHasZero (data : BitVec 32) : Bool :=
  (data >>> 24 &&& 0xff) == 0 || (data >>> 16 &&& 0xff) == 0 || (data >>> 8 &&& 0xff) == 0 ||
    (data &&& 0xff) == 0

/-- The ways the helper ends: it runs on, it throws because there is no NUL to resize to, or it
returns. -/
inductive HelperOutcome where
  | running
  | throws
  | returns (text : Text)
  deriving DecidableEq

/-- `resize(find('\\0'))`. -/
def trim (text : Text) : HelperOutcome :=
  match text.findIdx? (· == '\x00') with
  | some n => .returns (text.take n)
  | none => .throws

/-- The loop of the helper, for at most `fuel` words. -/
def loadLoop (m : GuestMemory) : ℕ → BitVec 32 → BitVec 32 → Text → Option Text
  | 0, _, _, _ => none
  | fuel + 1, addr, db, outString =>
      let data := m.loadMemory (addr.setWidth 64) db
      let outString := outString ++ wordChars data
      let addr := addr + 4
      if wordHasZero data = false ∧ addr.setWidth 64 < m.maxPhysicalAddress then
        loadLoop m fuel addr data outString
      else some outString

/-- `CoralNPUStringLoadHelper`, for at most `fuel` words; `stale` is in the buffer at first. -/
def stringLoadHelper (m : GuestMemory) (fuel : ℕ) (addr stale : BitVec 32) : HelperOutcome :=
  match loadLoop m fuel addr stale [] with
  | some outString => trim outString
  | none => .running

/-! ### The string in memory -/

/-- The last address of the guest. -/
def lastAddress (m : GuestMemory) : ℕ := min m.maxPhysicalAddress.toNat (2 ^ 32 - 1)

/-- The bytes from an address to the end of memory. -/
def bytesFrom (m : GuestMemory) (addr : BitVec 32) : Text :=
  (List.range' addr.toNat (lastAddress m + 1 - addr.toNat)).map fun a =>
    charOf (m.bytes (BitVec.ofNat 64 a))

/-- The string in memory: up to the first NUL, or to the end of memory when there is none. -/
def memoryText (m : GuestMemory) (addr : BitVec 32) : Text := cString (bytesFrom m addr)

/-- The helper terminates, and returns the string in memory. -/
def LoadsString (m : GuestMemory) (addr stale : BitVec 32) : Prop :=
  ∃ fuel, stringLoadHelper m fuel addr stale = .returns (memoryText m addr)

/-- The address of a word the loop reads. -/
def wordAddress (addr : BitVec 32) (k : ℕ) : BitVec 64 :=
  (addr + BitVec.ofNat 32 (4 * k)).setWidth 64

/-- A byte the loop reads. -/
def readByte (m : GuestMemory) (addr : BitVec 32) (i : ℕ) : BitVec 8 :=
  m.bytes (wordAddress addr (i / 4) + BitVec.ofNat 64 (i % 4))

/-- **The byte behind the string is read as a NUL**: the loop gets to its word, and the byte is a
NUL.  A string above the maximum is empty, and the buffer is read in its place. -/
def TerminatorRead (m : GuestMemory) (addr stale : BitVec 32) : Prop :=
  if addr.setWidth 64 ≤ m.maxPhysicalAddress then
    let n := (memoryText m addr).length
    (n / 4 = 0 ∨ wordAddress addr (n / 4) < m.maxPhysicalAddress) ∧ readByte m addr n = 0
  else stale.extractLsb' 0 8 = 0

/-! ### Log instructions -/

/-- The log: the pending arguments, the string that is sent in pieces, and what was printed. -/
structure LogState where
  logArgs : List LogArg
  clogString : Text
  printed : Text
  deriving DecidableEq

/-- A log instruction that is executed: with the memory it loads from, its source operand, and what
is in the buffer it loads into. -/
structure LogInstruction where
  memory : GuestMemory
  logMode : ℤ
  source : BitVec 32
  stale : BitVec 32

/-- `CoralNPULogInstruction`, with a limit on the words of a string; `none` when it does not
return. -/
def coralNPULogInstruction (fuel : ℕ) (inst : LogInstruction) (s : LogState) : Option LogState :=
  match inst.logMode with
  | 0 =>
      match stringLoadHelper inst.memory fuel inst.source inst.stale with
      | .returns formatString =>
          match printLog formatString s.logArgs with
          | .printed p => some { s with logArgs := p.logArgs, printed := s.printed ++ p.logString }
          | _ => none
      | _ => none
  | 1 => some { s with logArgs := s.logArgs ++ [.value inst.source] }
  | 2 =>
      let clogString := s.clogString ++ wordChars inst.source
      if wordHasZero inst.source then
        match trim clogString with
        | .returns text => some { s with logArgs := s.logArgs ++ [.string text], clogString := [] }
        | _ => none
      else some { s with clogString }
  | 3 =>
      match stringLoadHelper inst.memory fuel inst.source inst.stale with
      | .returns strArg => some { s with logArgs := s.logArgs ++ [.string strArg] }
      | _ => none
  | _ => some s

/-- A run of log instructions. -/
def runLog (fuel : ℕ) : List LogInstruction → LogState → Option LogState
  | [], s => some s
  | inst :: insts, s => (coralNPULogInstruction fuel inst s).bind (runLog fuel insts)

/-- The pieces that were sent. -/
def clogWords (insts : List LogInstruction) : List (BitVec 32) :=
  insts.filterMap fun inst => if inst.logMode = 2 then some inst.source else none

/-- The pieces since the last one with a NUL. -/
def unfinished (words : List (BitVec 32)) : List (BitVec 32) := words.rtakeWhile (! wordHasZero ·)

/-- **A string in pieces is put together**: after every run, a piece with a NUL passes on the
characters before the NUL, of this piece and of those since the last NUL; then the buffer is
empty. -/
def PiecesJoined : Prop :=
  ∀ fuel insts s (inst : LogInstruction), runLog fuel insts ⟨[], [], []⟩ = some s →
    inst.logMode = 2 → wordHasZero inst.source = true →
      coralNPULogInstruction fuel inst s = some
        ⟨s.logArgs ++
          [.string (cString ((unfinished (clogWords insts) ++ [inst.source]).flatMap wordChars))],
          [], s.printed⟩

/-! ### Characters -/

theorem charOf_eq_nul (b : BitVec 8) : charOf b = '\x00' ↔ b = 0 := by
  revert b
  decide

/-- A byte of a word, as the code takes it. -/
theorem shift_and_eq_zero (data : BitVec 32) (n : ℕ) :
    data >>> n &&& 0xff = 0 ↔ data.extractLsb' n 8 = 0 := by
  have hbyte : (data >>> n &&& 0xff).toNat = (data.extractLsb' n 8).toNat := by
    rw [BitVec.toNat_and, BitVec.toNat_ushiftRight, BitVec.extractLsb'_toNat,
      show (0xff : BitVec 32).toNat = 2 ^ 8 - 1 from rfl, Nat.and_two_pow_sub_one_eq_mod]
  rw [← BitVec.toNat_inj, hbyte, ← BitVec.toNat_inj]
  rfl

theorem wordHasZero_iff (data : BitVec 32) : wordHasZero data = true ↔ '\x00' ∈ wordChars data := by
  have hlow := shift_and_eq_zero data 0
  rw [BitVec.ushiftRight_zero] at hlow
  simp only [wordHasZero, wordChars, Bool.or_eq_true, beq_iff_eq, shift_and_eq_zero, hlow,
    List.mem_cons, List.not_mem_nil, or_false, eq_comm (a := '\x00'), charOf_eq_nul]
  constructor
  · rintro (((h | h) | h) | h)
    · exact Or.inr (Or.inr (Or.inr h))
    · exact Or.inr (Or.inr (Or.inl h))
    · exact Or.inr (Or.inl h)
    · exact Or.inl h
  · rintro (h | h | h | h)
    · exact Or.inr h
    · exact Or.inl (Or.inr h)
    · exact Or.inl (Or.inl (Or.inr h))
    · exact Or.inl (Or.inl (Or.inl h))

/-! ### The loop -/

/-- The first bytes the loop reads, as characters. -/
def readTo (m : GuestMemory) (addr : BitVec 32) (n : ℕ) : Text :=
  (List.range n).map fun i => charOf (readByte m addr i)

/-- The first NUL the loop reads, in a word it gets to. -/
structure Scans (m : GuestMemory) (addr : BitVec 32) (n : ℕ) : Prop where
  nul : readByte m addr n = 0
  before : ∀ i < n, readByte m addr i ≠ 0
  reached : ∀ k, 0 < k → k ≤ n / 4 → wordAddress addr k < m.maxPhysicalAddress

section Loop

variable {m : GuestMemory} {addr : BitVec 32}

theorem readByte_word {k j : ℕ} (hj : j < 4) :
    readByte m addr (4 * k + j) = m.bytes (wordAddress addr k + BitVec.ofNat 64 j) := by
  have hdiv : (4 * k + j) / 4 = k := by omega
  have hmod : (4 * k + j) % 4 = j := by omega
  rw [readByte, hdiv, hmod]

/-- The characters of a word the loop reads. -/
theorem wordChars_loadMemory {k : ℕ} (h : wordAddress addr k ≤ m.maxPhysicalAddress)
    (db : BitVec 32) : wordChars (m.loadMemory (wordAddress addr k) db) =
      (List.range 4).map fun j => charOf (readByte m addr (4 * k + j)) := by
  have hbyte (j : ℕ) (hj : j < 4) : (loadWord m.bytes (wordAddress addr k)).extractLsb' (8 * j) 8 =
      readByte m addr (4 * k + j) := by
    have hoffset : (BitVec.ofNat 64 j).toNat = j := toNat_offset (by decide) hj
    have hload := extractLsb'_loadWord (by decide : 2 ≤ 64) m.bytes (wordAddress addr k)
      (k := BitVec.ofNat 64 j) (by rwa [hoffset])
    rw [hoffset] at hload
    rw [hload, readByte_word hj]
  have h0 := hbyte 0 (by decide)
  have h1 := hbyte 1 (by decide)
  have h2 := hbyte 2 (by decide)
  have h3 := hbyte 3 (by decide)
  rw [m.loadMemory_le db h]
  simp only [wordChars, List.range_succ, List.range_zero, List.map_cons, List.map_nil,
    List.nil_append, List.cons_append, ← h0, ← h1, ← h2, ← h3]

/-- One word more. -/
theorem readTo_append {k : ℕ} (h : wordAddress addr k ≤ m.maxPhysicalAddress) (db : BitVec 32) :
    readTo m addr (4 * k) ++ wordChars (m.loadMemory (wordAddress addr k) db) =
      readTo m addr (4 * (k + 1)) := by
  rw [wordChars_loadMemory h, readTo, readTo, Nat.mul_succ, List.range_add, List.map_append,
    List.map_map]
  rfl

/-- A word without a NUL. -/
theorem wordHasZero_eq_false_iff {k : ℕ} (h : wordAddress addr k ≤ m.maxPhysicalAddress)
    (db : BitVec 32) : wordHasZero (m.loadMemory (wordAddress addr k) db) = false ↔
      ∀ j < 4, readByte m addr (4 * k + j) ≠ 0 := by
  rw [← Bool.not_eq_true, wordHasZero_iff, wordChars_loadMemory h, List.mem_map]
  constructor
  · intro hnot j hj hzero
    exact hnot ⟨j, List.mem_range.2 hj, (charOf_eq_nul _).2 hzero⟩
  · rintro hbytes ⟨j, hj, hnul⟩
    exact hbytes j (List.mem_range.1 hj) ((charOf_eq_nul _).1 hnul)

theorem wordAddress_succ (addr : BitVec 32) (k : ℕ) :
    addr + BitVec.ofNat 32 (4 * k) + 4 = addr + BitVec.ofNat 32 (4 * (k + 1)) := by
  rw [Nat.mul_succ, BitVec.ofNat_add, BitVec.add_assoc]
  rfl

/-- **An iteration**, when what was read so far is in the string. -/
theorem loadLoop_succ {k : ℕ} (hle : wordAddress addr k ≤ m.maxPhysicalAddress) (fuel : ℕ)
    (db : BitVec 32) :
    loadLoop m (fuel + 1) (addr + BitVec.ofNat 32 (4 * k)) db (readTo m addr (4 * k)) =
      if (∀ j < 4, readByte m addr (4 * k + j) ≠ 0) ∧
          wordAddress addr (k + 1) < m.maxPhysicalAddress then
        loadLoop m fuel (addr + BitVec.ofNat 32 (4 * (k + 1)))
          (m.loadMemory (wordAddress addr k) db) (readTo m addr (4 * (k + 1)))
      else some (readTo m addr (4 * (k + 1))) := by
  have hdata : m.loadMemory ((addr + BitVec.ofNat 32 (4 * k)).setWidth 64) db =
      m.loadMemory (wordAddress addr k) db := rfl
  have hnext : (addr + BitVec.ofNat 32 (4 * (k + 1))).setWidth 64 = wordAddress addr (k + 1) := rfl
  simp only [loadLoop, wordAddress_succ, hnext, hdata, readTo_append hle,
    wordHasZero_eq_false_iff hle]

/-- **What the loop has read** when it ends: some words, all but the last without a NUL. -/
theorem loadLoop_eq_some {fuel k : ℕ} {db : BitVec 32} {outString : Text}
    (hle : wordAddress addr k ≤ m.maxPhysicalAddress)
    (hbefore : ∀ i < 4 * k, readByte m addr i ≠ 0)
    (hreached : ∀ j, 0 < j → j ≤ k → wordAddress addr j < m.maxPhysicalAddress)
    (hloop : loadLoop m fuel (addr + BitVec.ofNat 32 (4 * k)) db (readTo m addr (4 * k)) =
      some outString) :
    ∃ last, outString = readTo m addr (4 * (last + 1)) ∧
      (∀ i < 4 * last, readByte m addr i ≠ 0) ∧
      ∀ j, 0 < j → j ≤ last → wordAddress addr j < m.maxPhysicalAddress := by
  induction fuel generalizing k db with
  | zero => cases hloop
  | succ fuel ih =>
      rw [loadLoop_succ hle] at hloop
      split at hloop
      next hgoes =>
        obtain ⟨hword, hnext⟩ := hgoes
        refine ih (BitVec.le_of_lt hnext) ?_ ?_ hloop
        · intro i hi
          by_cases hlt : i < 4 * k
          · exact hbefore i hlt
          · have hi' : 4 * k + (i - 4 * k) = i := by omega
            rw [← hi']
            exact hword _ (by omega)
        · intro j hpos hj
          rcases Nat.lt_or_ge k j with hlt | hge
          · rwa [show j = k + 1 by omega]
          · exact hreached j hpos hge
      next =>
        cases hloop
        exact ⟨k, rfl, hbefore, hreached⟩

/-- **The loop gets to the first NUL.** -/
theorem loadLoop_of_scans {n : ℕ} (h : Scans m addr n)
    (hle : wordAddress addr 0 ≤ m.maxPhysicalAddress) {left k : ℕ} (hk : k + left = n / 4)
    (db : BitVec 32) :
    loadLoop m (left + 1) (addr + BitVec.ofNat 32 (4 * k)) db (readTo m addr (4 * k)) =
      some (readTo m addr (4 * (n / 4 + 1))) := by
  have hword : wordAddress addr k ≤ m.maxPhysicalAddress := by
    rcases Nat.eq_zero_or_pos k with rfl | hpos
    · exact hle
    · exact BitVec.le_of_lt (h.reached k hpos (by omega))
  induction left generalizing k db with
  | zero =>
      rw [loadLoop_succ hword, if_neg, ← hk, Nat.add_zero]
      · rintro ⟨hbytes, -⟩
        have hn : 4 * k + n % 4 = n := by omega
        exact hbytes (n % 4) (by omega) (by rw [hn]; exact h.nul)
  | succ left ih =>
      have hnext : wordAddress addr (k + 1) < m.maxPhysicalAddress :=
        h.reached _ (by omega) (by omega)
      rw [loadLoop_succ hword, if_pos ⟨fun j hj => h.before _ (by omega), hnext⟩]
      exact ih (by omega) _ (BitVec.le_of_lt hnext)

/-! ### The NUL -/

theorem findIdx?_readTo_iff {n length : ℕ} :
    (readTo m addr length).findIdx? (· == '\x00') = some n ↔
      n < length ∧ readByte m addr n = 0 ∧ ∀ i < n, readByte m addr i ≠ 0 := by
  have hlength : (readTo m addr length).length = length := by simp [readTo]
  have hget (i : ℕ) (hi : i < (readTo m addr length).length) :
      ((readTo m addr length)[i] == '\x00') = true ↔ readByte m addr i = 0 := by
    rw [beq_iff_eq]
    simp only [readTo, List.getElem_map, List.getElem_range, charOf_eq_nul]
  rw [List.findIdx?_eq_some_iff_getElem]
  constructor
  · rintro ⟨hlt, hnul, hfirst⟩
    exact ⟨hlength ▸ hlt, (hget n hlt).1 hnul, fun i hi hzero => hfirst i hi ((hget i _).2 hzero)⟩
  · rintro ⟨hlt, hnul, hfirst⟩
    exact ⟨hlength.symm ▸ hlt, (hget n _).2 hnul,
      fun i hi hzero => hfirst i hi ((hget i _).1 hzero)⟩

/-- **What the helper returns**: the bytes up to the first NUL it gets to. -/
theorem returns_iff (hle : wordAddress addr 0 ≤ m.maxPhysicalAddress) (stale : BitVec 32)
    (text : Text) : (∃ fuel, stringLoadHelper m fuel addr stale = .returns text) ↔
      ∃ n, Scans m addr n ∧ text = readTo m addr n := by
  have htake {n length : ℕ} (hlt : n < length) :
      (readTo m addr length).take n = readTo m addr n := by
    rw [readTo, readTo, ← List.map_take, List.take_range, Nat.min_eq_left (Nat.le_of_lt hlt)]
  have haddr : addr + BitVec.ofNat 32 (4 * 0) = addr := BitVec.add_zero addr
  have hempty : readTo m addr (4 * 0) = [] := rfl
  constructor
  · rintro ⟨fuel, hreturns⟩
    rw [stringLoadHelper] at hreturns
    split at hreturns
    next outString hloop =>
      rw [← hempty, ← haddr] at hloop
      obtain ⟨last, rfl, hbefore, hreached⟩ := loadLoop_eq_some hle (by simp) (by omega) hloop
      rw [trim] at hreturns
      split at hreturns
      next n hfind =>
        cases hreturns
        obtain ⟨hlt, hnul, hfirst⟩ := findIdx?_readTo_iff.1 hfind
        -- the NUL is in the last word that was read
        have hge : 4 * last ≤ n := by
          by_contra hlt
          exact hbefore n (by omega) hnul
        exact ⟨n, ⟨hnul, hfirst, fun k hpos hk => hreached k hpos (by omega)⟩, htake hlt⟩
      next => cases hreturns
    next => cases hreturns
  · rintro ⟨n, hscans, rfl⟩
    have hlt : n < 4 * (n / 4 + 1) := by omega
    have hloop := loadLoop_of_scans hscans hle (Nat.zero_add (n / 4)) stale
    rw [haddr, hempty] at hloop
    refine ⟨n / 4 + 1, ?_⟩
    rw [stringLoadHelper, hloop]
    simp only [trim, findIdx?_readTo_iff.2 ⟨hlt, hscans.nul, hscans.before⟩, htake hlt]

/-! ### The bytes to the end of memory -/

theorem toNat_wordAddress {k : ℕ} (h : addr.toNat + 4 * k < 2 ^ 32) :
    (wordAddress addr k).toNat = addr.toNat + 4 * k := by
  rw [wordAddress, BitVec.toNat_setWidth, BitVec.toNat_add, BitVec.toNat_ofNat,
    Nat.mod_eq_of_lt (show 4 * k < 2 ^ 32 by omega), Nat.mod_eq_of_lt h,
    Nat.mod_eq_of_lt (show addr.toNat + 4 * k < 2 ^ 64 by omega)]

/-- A byte that the loop reads before the address wraps. -/
theorem readByte_eq {i : ℕ} (h : addr.toNat + i < 2 ^ 32) :
    readByte m addr i = m.bytes (BitVec.ofNat 64 (addr.toNat + i)) := by
  have hword : wordAddress addr (i / 4) = BitVec.ofNat 64 (addr.toNat + 4 * (i / 4)) := by
    rw [← toNat_wordAddress (by omega : addr.toNat + 4 * (i / 4) < 2 ^ 32), BitVec.ofNat_toNat,
      BitVec.setWidth_eq]
  rw [readByte, hword, ← BitVec.ofNat_add, Nat.add_assoc, Nat.div_add_mod]

theorem bytesFrom_eq : bytesFrom m addr = readTo m addr (lastAddress m + 1 - addr.toNat) := by
  rw [bytesFrom, List.range'_eq_map_range, readTo, List.map_map]
  refine List.map_congr_left fun i hi => ?_
  have hlast : lastAddress m ≤ 2 ^ 32 - 1 := Nat.min_le_right _ _
  have hlt := List.mem_range.1 hi
  rw [Function.comp_apply, readByte_eq (by omega)]

/-- The string in memory, as the bytes the loop reads before the first NUL. -/
theorem memoryText_eq : ∃ n ≤ lastAddress m + 1 - addr.toNat,
    memoryText m addr = readTo m addr n ∧ ∀ i < n, readByte m addr i ≠ 0 := by
  have htake : memoryText m addr = (bytesFrom m addr).take (memoryText m addr).length :=
    List.prefix_iff_eq_take.1 (List.takeWhile_prefix _)
  have hlength : (bytesFrom m addr).length = lastAddress m + 1 - addr.toNat := by simp [bytesFrom]
  have hle : (memoryText m addr).length ≤ lastAddress m + 1 - addr.toNat :=
    hlength ▸ (List.takeWhile_prefix _).length_le
  have heq : memoryText m addr = readTo m addr (memoryText m addr).length := by
    rw [bytesFrom_eq] at htake
    rwa [readTo, ← List.map_take, List.take_range, Nat.min_eq_left hle] at htake
  refine ⟨_, hle, heq, fun i hi hzero => ?_⟩
  have hmem : '\x00' ∈ memoryText m addr := by
    rw [heq, readTo, List.mem_map]
    exact ⟨i, List.mem_range.2 hi, (charOf_eq_nul _).2 hzero⟩
  exact absurd (List.mem_takeWhile_imp hmem) (by decide)

theorem length_readTo (n : ℕ) : (readTo m addr n).length = n := by simp [readTo]

/-- A string above the maximum: the loop reads the buffer first. -/
theorem loadLoop_prefix {fuel : ℕ} {db : BitVec 32} {text outString : Text}
    (h : loadLoop m fuel addr db text = some outString) : text <+: outString := by
  induction fuel generalizing addr db text with
  | zero => cases h
  | succ fuel ih =>
      rw [loadLoop] at h
      split at h
      · exact (List.prefix_append _ _).trans (ih h)
      · cases h
        exact List.prefix_append _ _

theorem returns_nil_iff (hgt : ¬ addr.setWidth 64 ≤ m.maxPhysicalAddress) (stale : BitVec 32) :
    (∃ fuel, stringLoadHelper m fuel addr stale = .returns []) ↔ stale.extractLsb' 0 8 = 0 := by
  constructor
  · rintro ⟨fuel, hreturns⟩
    rw [stringLoadHelper] at hreturns
    cases hloop : loadLoop m fuel addr stale [] with
    | none =>
        rw [hloop] at hreturns
        cases hreturns
    | some outString =>
        rw [hloop] at hreturns
        have hleading : wordChars stale <+: outString := by
          cases fuel with
          | zero => cases hloop
          | succ fuel =>
              rw [loadLoop, m.loadMemory_gt _ hgt] at hloop
              split at hloop
              · exact loadLoop_prefix hloop
              · cases hloop
                exact List.prefix_refl _
        obtain ⟨rest, rfl⟩ := hleading
        by_contra hlow
        have hne : charOf (stale.extractLsb' 0 8) ≠ '\x00' := fun h => hlow ((charOf_eq_nul _).1 h)
        simp only [trim] at hreturns
        split at hreturns
        next n hfind =>
          cases n with
          | zero =>
              obtain ⟨_, hnul, _⟩ := List.findIdx?_eq_some_iff_getElem.1 hfind
              exact hne (beq_iff_eq.1 hnul)
          | succ n => cases hreturns
        next => cases hreturns
  · intro hlow
    have hnul : charOf (stale.extractLsb' 0 8) = '\x00' := (charOf_eq_nul _).2 hlow
    have hzero : wordHasZero stale = true := (wordHasZero_iff stale).2 (by simp [wordChars, hnul])
    refine ⟨1, ?_⟩
    simp [stringLoadHelper, loadLoop, m.loadMemory_gt _ hgt, hzero, trim, wordChars, hnul,
      List.findIdx?_cons]

/-- **The string in memory is loaded exactly when** the byte behind it is read as a NUL. -/
theorem loadsString_iff (stale : BitVec 32) :
    LoadsString m addr stale ↔ TerminatorRead m addr stale := by
  obtain ⟨n, hn, htext, hbefore⟩ := @memoryText_eq m addr
  have hlast : lastAddress m ≤ m.maxPhysicalAddress.toNat := Nat.min_le_left _ _
  have hlast' : lastAddress m ≤ 2 ^ 32 - 1 := Nat.min_le_right _ _
  have haddr : (addr.setWidth 64).toNat = addr.toNat := by
    rw [BitVec.toNat_setWidth, Nat.mod_eq_of_lt (by omega)]
  rw [LoadsString, TerminatorRead]
  by_cases hle : addr.setWidth 64 ≤ m.maxPhysicalAddress
  · have hle0 : wordAddress addr 0 ≤ m.maxPhysicalAddress := by
      rwa [wordAddress, Nat.mul_zero, BitVec.add_zero]
    rw [if_pos hle, returns_iff hle0, htext, length_readTo]
    constructor
    · rintro ⟨n', hscans, heq⟩
      have hn' : n = n' := by
        rw [← @length_readTo m addr n, heq, length_readTo]
      subst hn'
      refine ⟨?_, hscans.nul⟩
      rcases Nat.eq_zero_or_pos (n / 4) with hzero | hpos
      · exact Or.inl hzero
      · exact Or.inr (hscans.reached _ hpos (Nat.le_refl _))
    · rintro ⟨hreached, hnul⟩
      refine ⟨n, ⟨hnul, hbefore, fun k hpos hk => ?_⟩, rfl⟩
      rcases Nat.lt_or_eq_of_le hk with hlt | rfl
      · -- the word is not the last one, so it is inside memory
        rw [BitVec.lt_def, toNat_wordAddress (by omega)]
        omega
      · exact hreached.resolve_left (by omega)
  · have hgt : m.maxPhysicalAddress.toNat < addr.toNat := by
      rwa [BitVec.le_def, haddr, Nat.not_le] at hle
    have hzero : n = 0 := by omega
    rw [if_neg hle, htext, hzero]
    exact returns_nil_iff hle stale

end Loop

/-! ### Strings in pieces -/

theorem trim_of_mem {text : Text} (h : '\x00' ∈ text) : trim text = .returns (cString text) := by
  obtain ⟨n, hn⟩ : ∃ n, text.findIdx? (· == '\x00') = some n := by
    rw [← Option.isSome_iff_exists, List.findIdx?_isSome, List.any_eq_true]
    exact ⟨_, h, beq_self_eq_true _⟩
  have hfindIdx : n = text.findIdx (· == '\x00') :=
    (List.findIdx?_eq_some_iff_findIdx_eq.1 hn).2.symm
  rw [trim, hn, cString, List.takeWhile_eq_take_findIdx_not, hfindIdx]
  simp only [bne, Bool.not_not]

/-- **An instruction**, on the buffer. -/
theorem clogString_instruction {fuel : ℕ} {inst : LogInstruction} {s s' : LogState}
    (h : coralNPULogInstruction fuel inst s = some s') :
    s'.clogString = if inst.logMode = 2 then
      (if wordHasZero inst.source then [] else s.clogString ++ wordChars inst.source)
      else s.clogString := by
  obtain ⟨memory, logMode, source, stale⟩ := inst
  rw [coralNPULogInstruction.eq_def] at h
  split at h
  next hmode =>
    rw [if_neg (by rw [hmode]; decide)]
    split at h
    · split at h
      · cases h
        rfl
      · cases h
    · cases h
  next hmode =>
    rw [if_neg (by rw [hmode]; decide)]
    cases h
    rfl
  next hmode =>
    rw [if_pos hmode]
    cases hzero : wordHasZero source with
    | true =>
        simp only [hzero, if_true] at h ⊢
        split at h
        · cases h
          rfl
        · cases h
    | false =>
        simp only [hzero, Bool.false_eq_true, if_false] at h ⊢
        cases h
        rfl
  next hmode =>
    rw [if_neg (by rw [hmode]; decide)]
    split at h
    · cases h
      rfl
    · cases h
  next _ _ hclog _ =>
    rw [if_neg hclog]
    cases h
    rfl

/-- **The buffer holds the pieces sent since the last NUL**, after a run that goes on from
`sent`. -/
theorem clogString_runLog {fuel : ℕ} {insts : List LogInstruction} {s s' : LogState}
    {sent : List (BitVec 32)} (hs : s.clogString = (unfinished sent).flatMap wordChars)
    (hrun : runLog fuel insts s = some s') :
    s'.clogString = (unfinished (sent ++ clogWords insts)).flatMap wordChars := by
  induction insts generalizing s sent with
  | nil =>
      cases hrun
      rw [hs, clogWords, List.filterMap_nil, List.append_nil]
  | cons inst insts ih =>
      obtain ⟨t, hinst, hrest⟩ := Option.bind_eq_some_iff.1 hrun
      have ht := clogString_instruction hinst
      by_cases hmode : inst.logMode = 2
      · have hwords : clogWords (inst :: insts) = inst.source :: clogWords insts := by
          simp [clogWords, hmode]
        rw [hwords, List.append_cons]
        refine ih ?_ hrest
        rw [ht, if_pos hmode, hs]
        cases hzero : wordHasZero inst.source with
        | true => simp [unfinished, hzero]
        | false => simp [unfinished, hzero]
      · have hwords : clogWords (inst :: insts) = clogWords insts := by
          simp [clogWords, hmode]
        rw [hwords]
        exact ih (by rw [ht, if_neg hmode, hs]) hrest

theorem piecesJoined : PiecesJoined := by
  intro fuel insts s inst hrun hmode hzero
  have hbuffer : s.clogString = (unfinished ([] ++ clogWords insts)).flatMap wordChars :=
    clogString_runLog rfl hrun
  have hnul : '\x00' ∈ s.clogString ++ wordChars inst.source :=
    List.mem_append_right _ ((wordHasZero_iff _).1 hzero)
  have htext : s.clogString ++ wordChars inst.source =
      (unfinished (clogWords insts) ++ [inst.source]).flatMap wordChars := by
    simp [hbuffer]
  have htrim := trim_of_mem hnul
  rw [htext] at htrim
  rw [coralNPULogInstruction, hmode]
  simp only [hzero, if_true, htext, htrim]

/-- **Logged strings are put together exactly when** the byte behind a string in memory is read as a
NUL; strings that are sent in pieces always are. -/
theorem loadsString_piecesJoined_iff (m : GuestMemory) (addr stale : BitVec 32) :
    LoadsString m addr stale ∧ PiecesJoined ↔ TerminatorRead m addr stale :=
  ⟨fun h => (loadsString_iff stale).1 h.1, fun h => ⟨(loadsString_iff stale).2 h, piecesJoined⟩⟩

/-- Memory without a NUL, and a string in its last word. -/
theorem not_loadsString_no_nul :
    ¬ (LoadsString (guestMemory (fun _ => 1) 0x3fffff) 0x3ffffc 0 ∧ PiecesJoined) := by
  rintro ⟨hloads, -⟩
  have hread := (loadsString_iff 0).1 hloads
  rw [TerminatorRead, if_pos (by decide)] at hread
  exact absurd hread.2 (by decide)

end CoralNpu
