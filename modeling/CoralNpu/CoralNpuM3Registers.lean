/-
**What the register operands of the assembler mean.**

A register operand is an integer, floating-point or vector register, a vector mask, or a control and
status register.  The encoder reads them all with one dictionary, which has the registers of every
class and some other names, and a text that is no name is read as a number.  So a register of the
class of the operand is encoded by its own number; a register of another class is encoded by its
number there.

Main definitions:

* `CoralNpu.Isa32M3.RegisterClass`, `CoralNpu.Isa32M3.RegisterOperand` — the classes and their
  names, and the operands;
* `CoralNpu.Isa32M3.Names`, `CoralNpu.Isa32M3.Reads` — what a text is the name of, and what it is
  read as;
* `CoralNpu.Isa32M3.ParsesRegister` — what the encoder does.

Main results:

* `CoralNpu.Isa32M3.parseReg_eq_ok_iff` — the values of texts;
* `CoralNpu.Isa32M3.registers_parse` — **registers are encoded by their number, and exactly the
  names and numbers are accepted**.
-/

import CoralNpu.CoralNpuM3Operands
import CoralNpu.FirstMatch
import CoralNpu.Rv32Text
import Mathlib.Data.List.TakeWhile

set_option relaxedAutoImplicit false
set_option autoImplicit false

namespace CoralNpu.Isa32M3

open AsciiText

/-! ### Classes -/

/-- The classes of registers. -/
inductive RegisterClass where
  | integer | float | vector | mask | csr
  deriving DecidableEq

/-- Names in the order of their values. -/
def inOrder (names : List String) : NameTable :=
  names.zipIdx.map fun (name, n) => (name.toList, BitVec.ofNat 64 n)

/-- The ABI names of the floating-point registers. -/
def floatAbiNames : List String :=
  ["ft0", "ft1", "ft2", "ft3", "ft4", "ft5", "ft6", "ft7", "fs0", "fs1", "fa0", "fa1", "fa2", "fa3",
    "fa4", "fa5", "fa6", "fa7", "fs2", "fs3", "fs4", "fs5", "fs6", "fs7", "fs8", "fs9", "fs10",
    "fs11", "ft8", "ft9", "ft10", "ft11"]

/-- The control and status registers. -/
def csrNames : List (String × ℕ) :=
  [("fflags", 0x001), ("frm", 0x002), ("fcsr", 0x003), ("vstart", 0x008), ("vxsat", 0x009),
    ("vxrm", 0x00A), ("vcsr", 0x00F), ("satp", 0x180), ("mstatus", 0x300), ("mie", 0x304),
    ("mtvec", 0x305), ("mscratch", 0x340), ("mepc", 0x341), ("mcause", 0x342), ("mtval", 0x343),
    ("mip", 0x344), ("cycle", 0xC00), ("time", 0xC01), ("instret", 0xC02), ("vl", 0xC20),
    ("vtype", 0xC21), ("vlenb", 0xC22)]

/-- The performance counters and their events: a stem, the number of the register in front of the
first, and that of the high halves. -/
def counterFamilies : List (String × ℕ × ℕ) :=
  [("hpmcounter", 0xC00, 0xC80), ("mhpmcounter", 0xB00, 0xB80), ("mhpmevent", 0x320, 0x720)]

/-- The names of a family of counters. -/
def counterNames : String × ℕ × ℕ → NameTable := fun (stem, low, high) =>
  numbered stem 3 29 (low + 3) ++
    (numbered stem 3 29 (high + 3)).map fun (name, n) => (name ++ ['h'], n)

/-- **The names of the registers of a class**, architectural and ABI, and their numbers. -/
def RegisterClass.names : RegisterClass → NameTable
  | integer => numbered "x" 0 32 0 ++ inOrder Rv32.abiNames ++ [("fp".toList, 8)]
  | float => numbered "f" 0 32 0 ++ inOrder floatAbiNames
  | vector => numbered "v" 0 32 0
  | mask => [("v0.t".toList, 0)]
  | csr => nameTable csrNames ++ counterFamilies.flatMap counterNames

/-- The other names: the sets of a fence, rounding modes, and the parts of `vtype`. -/
def otherNames : NameTable :=
  fenceSets ++ nameTable
    [("rne", 0), ("rtz", 1), ("rdn", 2), ("rup", 3), ("rmm", 4), ("dyn", 7), ("e8", 0),
      ("e16", 1), ("e32", 2), ("m1", 0), ("m2", 1), ("m4", 2), ("m8", 3), ("res4", 4), ("mf8", 5),
      ("mf4", 6), ("mf2", 7), ("ta", 1), ("tu", 0), ("ma", 1), ("mu", 0)]

/-- A counter with its number in a text for `SimpleAtoi`. -/
inductive CounterText : Text → BitVec 64 → Prop
  | low {stem : String} {low high : ℕ} {digits : Text} {k : ℤ}
      (hfamily : (stem, low, high) ∈ counterFamilies)
      (hdigits : simpleAtoi 32 digits = some k) (hlo : 3 ≤ k) (hhi : k ≤ 31) :
      CounterText (stem.toList ++ digits) (BitVec.ofInt 64 (low + k))
  | high {stem : String} {low high : ℕ} {digits : Text} {k : ℤ}
      (hfamily : (stem, low, high) ∈ counterFamilies)
      (hdigits : simpleAtoi 32 digits = some k) (hlo : 3 ≤ k) (hhi : k ≤ 31) :
      CounterText (stem.toList ++ (digits ++ ['h'])) (BitVec.ofInt 64 (high + k))

/-! ### Operands -/

/-- The register operands. -/
inductive RegisterOperand where
  | rs1 | rs2 | rd | frs1 | frs2 | frs3 | frd | vs1 | vs2 | vs3 | vdSource | vd | vmask |
    csrSource | csr
  deriving DecidableEq

namespace RegisterOperand

/-- The operand of the instruction set. -/
def enum : RegisterOperand → SourceOpEnum ⊕ DestOpEnum
  | rs1 => .inl .rs1
  | rs2 => .inl .rs2
  | rd => .inr .rd
  | frs1 => .inl .frs1
  | frs2 => .inl .frs2
  | frs3 => .inl .frs3
  | frd => .inr .frd
  | vs1 => .inl .vs1
  | vs2 => .inl .vs2
  | vs3 => .inl .vs3
  | vdSource => .inl .vd
  | vd => .inr .vd
  | vmask => .inl .vmask
  | csrSource => .inl .csr
  | csr => .inr .csr

/-- Its class. -/
def registerClass : RegisterOperand → RegisterClass
  | rs1 | rs2 | rd => .integer
  | frs1 | frs2 | frs3 | frd => .float
  | vs1 | vs2 | vs3 | vdSource | vd => .vector
  | vmask => .mask
  | csrSource | csr => .csr

/-- Its field. -/
def layout (op : RegisterOperand) : BitLayout := op.enum.elim SourceOpEnum.layout DestOpEnum.layout

/-- The operand that its text is parsed for. -/
def srcOp (op : RegisterOperand) : SourceOpEnum := op.enum.elim id fun _ => .none

/-- The encoding of a text. -/
def encoding (op : RegisterOperand) (address : BitVec 64) (opcode : OpcodeEnum) (text : Text) :
    Except Text (BitVec 64) :=
  op.enum.elim (getSrcOpEncoding address text opcode) (getDestOpEncoding text opcode)

/-- The conditions of the three forms of `vsetvli`. -/
def Allows (op : RegisterOperand) (opcode : OpcodeEnum) (val : BitVec 64) : Prop :=
  match op with
  | rs1 | frs1 | vs1 =>
    (opcode = .vsetvliXn → val ≠ 0) ∧ (opcode = .vsetvliNz ∨ opcode = .vsetvliZz → val = 0)
  | rd | frd => (opcode = .vsetvliNz → val ≠ 0) ∧ (opcode = .vsetvliZz → val = 0)
  | _ => True

instance (op : RegisterOperand) (opcode : OpcodeEnum) (val : BitVec 64) :
    Decidable (op.Allows opcode val) :=
  match op with
  | rs1 | frs1 | vs1 | rd | frd => inferInstanceAs (Decidable ((_ → _) ∧ (_ → _)))
  | rs2 | frs2 | frs3 | vs2 | vs3 | vdSource | vd | vmask | csrSource | csr =>
    inferInstanceAs (Decidable True)

end RegisterOperand

/-! ### What a text is read as -/

/-- The part of a text that can name a register: the text, or what is in its parentheses. -/
def inside (text : Text) : Text := withoutParens .rs1 text

/-- **What a text names**: the mask, one of the other names, or a register of any class.  A text
that ends with `.t` names nothing else than the mask. -/
inductive Names : Text → BitVec 64 → Prop
  | mask : Names "v0.t".toList 0
  | other {text : Text} {n : BitVec 64} (h : (text, n) ∈ otherNames) : Names text n
  | register {c : RegisterClass} {text : Text} {n : BitVec 64} (hc : c ≠ .mask)
      (h : (inside text, n) ∈ c.names)
      (hfp : inside text ≠ "fp".toList) (ht : endsWith ".t".toList text = false) : Names text n
  | counter {text : Text} {n : BitVec 64} (h : CounterText (inside text) n)
      (ht : endsWith ".t".toList text = false) :
      Names text n

/-- The number that a text stands for: in hexadecimal behind `0x`, else in decimal, else in
hexadecimal. -/
def numberOf (text : Text) : Option (BitVec 64) :=
  if hasHexPrefix text then simpleHexAtoi (text.drop 2)
  else ((simpleAtoi 64 text).map (BitVec.ofInt 64 ·)).or (simpleHexAtoi text)

/-- **What the text of an operand is read as**: its name, else its number.  An operand without a
mask is not masked. -/
inductive Reads (op : RegisterOperand) : Text → BitVec 64 → Prop
  | unmasked (h : op = .vmask) : Reads op [] 1
  | name {text : Text} {n : BitVec 64} (hne : text ≠ []) (h : Names text n) : Reads op text n
  | number {text : Text} {n : BitVec 64} (hne : text ≠ []) (hname : ∀ m, ¬ Names text m)
      (ht : endsWith ".t".toList text = false) (h : numberOf (numberText (inside text)) = some n) :
        Reads op text n

/-- A text that is not empty, except for a mask, is not `fp`, and has a number behind its `0x`. -/
structure Regular (op : RegisterOperand) (text : Text) : Prop where
  nonempty : operandText text = [] → op = .vmask
  fp : inside (operandText text) ≠ "fp".toList
  hex : hasHexPrefix (numberText (inside (operandText text))) = true →
    simpleHexAtoi ((numberText (inside (operandText text))).drop 2) ≠ none

/-- **What the encoder does with a register operand.**  A register of the class has its own number,
any name or number has its low bits, and nothing else is accepted. -/
structure ParsesRegister (op : RegisterOperand) (address : BitVec 64) (opcode : OpcodeEnum)
    (text : Text) : Prop where
  own : ∀ n, (operandText text, n) ∈ op.registerClass.names → op.Allows opcode n →
    ∃ word, op.encoding address opcode text = .ok word ∧ (op.layout.extract word).toNat = n.toNat
  accepted : ∀ n, Reads op (operandText text) n → op.Allows opcode n →
    op.encoding address opcode text = .ok (op.layout.insert n 0)
  rejected : (∀ n, Reads op (operandText text) n → ¬ op.Allows opcode n) →
    ∃ message, op.encoding address opcode text = .error message

/-! ### Tables -/

/-- The value of a name in a table. -/
theorem mem_of_lookup_eq_some {table : NameTable} {name : Text} {n : BitVec 64}
    (h : table.lookup name = some n) : (name, n) ∈ table := by
  obtain ⟨front, back, rfl, -⟩ := List.lookup_eq_some_iff.1 h
  simp

/-- A name with a character that is in no name of the table. -/
theorem lookup_eq_none_of_char {table : NameTable} {c : Char} (htable : ∀ e ∈ table, c ∉ e.1)
    {name : Text} (h : c ∈ name) : table.lookup name = none := by
  cases hlookup : table.lookup name with
  | none => rfl
  | some n => exact absurd h (htable _ (mem_of_lookup_eq_some hlookup))

/-- The bits of the number of a register. -/
def RegisterClass.width : RegisterClass → ℕ
  | integer | float | vector => 5
  | mask => 1
  | csr => 12

/-- The registers of the dictionary. -/
def dictionaryValue (s : Text) : Option (BitVec 64) := (kRegs.lookup s).or (dynamicCsr s)

/-- A number for a name, different for the names in `kRegs`. -/
def nameNumber (name : Text) : ℕ := name.foldl (fun n c => (n * 37 + c.toNat) % 65536) 0

/-- **What the tables say of each other.** -/
theorem tables_agree :
    FirstMatch.distinctFrom 0 (kRegs.map fun e => nameNumber e.1) = true ∧
    (∀ e ∈ kRegs, dynamicCsr e.1 = none ∨ dynamicCsr e.1 = some e.2) ∧
    (∀ e ∈ fenceSets, dictionaryValue e.1 = none) ∧
    (∀ e ∈ keywords,
      dictionaryValue e.1 = none ∧ e ∈ otherNames ∨ dictionaryValue e.1 = some e.2 ∧ '(' ∉ e.1) ∧
    (∀ e ∈ otherNames, fenceSets.lookup e.1 = some e.2 ∨
      fenceSets.lookup e.1 = none ∧ endsWith ".t".toList e.1 = false ∧
      keywords.lookup e.1 = some e.2) ∧
    (∀ c ∈ [RegisterClass.integer, .float, .vector, .mask, .csr], ∀ e ∈ c.names,
      e.1 ≠ [] ∧ (c ≠ .mask → '(' ∉ e.1 ∧ endsWith ".t".toList e.1 = false) ∧
      e.2.toNat < 2 ^ c.width) := by
  decide +kernel

theorem lookup_kRegs : ∀ e ∈ kRegs, kRegs.lookup e.1 = some e.2 := by
  intro e he
  refine FirstMatch.lookup_of_nodup (List.Nodup.of_map nameNumber ?_) he
  rw [List.map_map]
  exact (FirstMatch.nodup_of_distinctFrom tables_agree.1).1

theorem dynamicCsr_of_kRegs : ∀ e ∈ kRegs, dynamicCsr e.1 = none ∨ dynamicCsr e.1 = some e.2 :=
  tables_agree.2.1

theorem dictionaryValue_of_fenceSets : ∀ e ∈ fenceSets, dictionaryValue e.1 = none :=
  tables_agree.2.2.1

theorem dictionaryValue_of_keywords : ∀ e ∈ keywords,
    dictionaryValue e.1 = none ∧ e ∈ otherNames ∨ dictionaryValue e.1 = some e.2 ∧ '(' ∉ e.1 :=
  tables_agree.2.2.2.1

theorem lookup_of_otherNames : ∀ e ∈ otherNames, fenceSets.lookup e.1 = some e.2 ∨
    fenceSets.lookup e.1 = none ∧ endsWith ".t".toList e.1 = false ∧
    keywords.lookup e.1 = some e.2 :=
  tables_agree.2.2.2.2.1

/-- The names of registers are plain, and their numbers fit. -/
theorem names_plain (c : RegisterClass) {e : Text × BitVec 64} (h : e ∈ c.names) :
    e.1 ≠ [] ∧ (c ≠ .mask → '(' ∉ e.1 ∧ endsWith ".t".toList e.1 = false) ∧
    e.2.toNat < 2 ^ c.width :=
  tables_agree.2.2.2.2.2 c (by cases c <;> decide) e h

/-- The names in `kRegs`, class by class. -/
theorem mem_kRegs_iff {e : Text × BitVec 64} : e ∈ kRegs ↔
    (e ∈ numbered "x" 0 32 0 ∨ e ∈ inOrder Rv32.abiNames) ∨ e ∈ RegisterClass.float.names ∨
    e ∈ RegisterClass.vector.names ∨ e ∈ nameTable csrNames ∨
    e ∈ numbered "hpmcounter" 3 29 0xC03 := by
  have hinteger :
      (nameTable [("zero", 0), ("ra", 1), ("sp", 2), ("gp", 3), ("tp", 4)] ++ numbered "t" 0 3 5 ++
      numbered "s" 0 2 8 ++ numbered "a" 0 8 10 ++ numbered "s" 2 10 18 ++ numbered "t" 3 4 28).Perm
      (inOrder Rv32.abiNames) := by decide +kernel
  have hfloat :
      (numbered "ft" 0 8 0 ++ numbered "fs" 0 2 8 ++ numbered "fa" 0 8 10 ++
        numbered "fs" 2 10 18 ++
      numbered "ft" 8 4 28).Perm (inOrder floatAbiNames) := by decide +kernel
  have hcsr :
      (nameTable [("fflags", 0x001), ("frm", 0x002), ("fcsr", 0x003), ("vl", 0xC20),
        ("vtype", 0xC21), ("vlenb", 0xC22), ("vstart", 0x008), ("vxsat", 0x009), ("vxrm", 0x00A),
        ("vcsr", 0x00F), ("cycle", 0xC00), ("time", 0xC01), ("instret", 0xC02), ("mstatus", 0x300),
        ("mie", 0x304), ("mepc", 0x341), ("mtvec", 0x305), ("satp", 0x180), ("mscratch", 0x340),
        ("mcause", 0x342), ("mtval", 0x343), ("mip", 0x344)]).Perm (nameTable csrNames) := by
    decide +kernel
  rw [← hinteger.mem_iff, ← hcsr.mem_iff]
  simp only [kRegs, RegisterClass.names, List.mem_append, ← hfloat.mem_iff, or_assoc]

/-! ### Counters -/

/-- Only spaces are stripped. -/
theorem isSpace_or_mem_strip {text : Text} {c : Char} (h : c ∈ text) :
    isSpace c = true ∨ c ∈ strip text := by
  have hleft : ∀ {text : Text}, c ∈ text → isSpace c = true ∨ c ∈ stripLeft text := by
    intro text h
    rw [← List.takeWhile_append_dropWhile (p := isSpace) (l := text), List.mem_append] at h
    exact h.imp_left fun htake => List.mem_takeWhile_imp htake
  rcases hleft h with hspace | hmem
  · exact .inl hspace
  · rw [strip, List.mem_reverse]
    exact hleft (List.mem_reverse.2 hmem)

/-- Numbers have no other characters. -/
theorem characters_of_simpleAtoi {bits : ℕ} {text : Text} {z : ℤ}
    (h : simpleAtoi bits text = some z) {c : Char}
    (hc : c ∈ text) : isSpace c = true ∨ c = '-' ∨ c = '+' ∨ IsDigit c := by
  refine (isSpace_or_mem_strip hc).imp_right fun hmem => ?_
  rw [simpleAtoi] at h
  split at h
  next digits heq =>
    obtain ⟨n, hn, -⟩ := Option.bind_eq_some_iff.1 h
    rw [heq, List.mem_cons] at hmem
    exact hmem.imp_right fun hdigit => .inr ((isDigit_of_digitsValue hn).2 c hdigit)
  next =>
    obtain ⟨n, hn, -⟩ := Option.bind_eq_some_iff.1 h
    have hdigits := (isDigit_of_digitsValue hn).2
    rw [dropPlus.eq_def] at hdigits
    split at hdigits
    next rest heq =>
      rw [heq, List.mem_cons] at hmem
      exact .inr (hmem.imp_right (hdigits c))
    next => exact .inr (.inr (hdigits c hmem))

theorem endsWith_h_of_simpleAtoi {bits : ℕ} {digits : Text} {z : ℤ}
    (h : simpleAtoi bits digits = some z) : endsWith ['h'] digits = false := by
  rw [endsWith, ← Bool.not_eq_true, List.isSuffixOf_iff_suffix]
  rintro ⟨front, rfl⟩
  rcases characters_of_simpleAtoi h (c := 'h') (by simp) with hspace | hminus | hplus | hdigit
  · exact absurd hspace (by decide)
  · exact absurd hminus (by decide)
  · exact absurd hplus (by decide)
  · exact hdigit.ne (by decide : digitValue 'h'.toLower = none) rfl

/-- The value of a text in a family. -/
def familyValue (s : Text) : Text × ℤ × ℤ → Option (BitVec 64) := fun (stem, low, high) =>
  if startsWith stem s then
    let tail := s.drop stem.length
    let isHigh := endsWith ['h'] tail
    let digits := if isHigh then tail.dropLast else tail
    (simpleAtoi 32 digits).bind fun n =>
      if n ≥ 3 ∧ n ≤ 31 then some (BitVec.ofInt 64 ((if isHigh then high else low) + n)) else none
  else none

theorem dynamicCsr_eq (s : Text) : dynamicCsr s =
    [("hpmcounter".toList, 0xC00, 0xC80), ("mhpmcounter".toList, 0xB00, 0xB80),
      ("mhpmevent".toList, 0x320, 0x720)].findSome? (familyValue s) := rfl

theorem familyValue_append (stem tail : Text) (low high : ℤ) :
    familyValue (stem ++ tail) (stem, low, high) =
    (simpleAtoi 32 (if endsWith ['h'] tail then tail.dropLast else tail)).bind fun n =>
      if n ≥ 3 ∧ n ≤ 31 then
        some (BitVec.ofInt 64 ((if endsWith ['h'] tail then high else low) + n)) else none := by
  have hstarts : startsWith stem (stem ++ tail) = true :=
    List.isPrefixOf_iff_prefix.2 (List.prefix_append stem tail)
  simp only [familyValue, hstarts, if_true, List.drop_left]

theorem familyValue_of_startsWith_eq (s stem : Text) (low high : ℤ)
    (h : startsWith stem s = false) :
    familyValue s (stem, low, high) = none := if_neg (by simp [h])

/-- A text behind the stem of a family is read in this family. -/
theorem dynamicCsr_append {stem : String} {low high : ℕ}
    (hfamily : (stem, low, high) ∈ counterFamilies) (tail : Text) :
    dynamicCsr (stem.toList ++ tail) =
      familyValue (stem.toList ++ tail) (stem.toList, low, high) := by
  have hfind (a b c : Text × ℤ × ℤ) (s : Text) : [a, b, c].findSome? (familyValue s) =
      ((familyValue s a).or (familyValue s b)).or (familyValue s c) := by
    simp only [List.findSome?_cons, List.findSome?_nil]
    cases familyValue s a <;> cases familyValue s b <;> cases familyValue s c <;> rfl
  rw [dynamicCsr_eq, hfind]
  simp only [counterFamilies, List.mem_cons, Prod.mk.injEq, List.not_mem_nil, or_false] at hfamily
  -- no stem begins with another one
  rcases hfamily with ⟨rfl, rfl, rfl⟩ | ⟨rfl, rfl, rfl⟩ | ⟨rfl, rfl, rfl⟩
  · rw [familyValue_of_startsWith_eq _ "mhpmcounter".toList _ _ rfl,
      familyValue_of_startsWith_eq _ "mhpmevent".toList _ _ rfl, Option.or_none, Option.or_none]
    rfl
  · rw [familyValue_of_startsWith_eq _ "hpmcounter".toList _ _ rfl,
      familyValue_of_startsWith_eq _ "mhpmevent".toList _ _ rfl, Option.or_none, Option.none_or]
    rfl
  · rw [familyValue_of_startsWith_eq _ "hpmcounter".toList _ _ rfl,
      familyValue_of_startsWith_eq _ "mhpmcounter".toList _ _ rfl, Option.none_or, Option.none_or]
    rfl

/-- **The counters that are read.** -/
theorem dynamicCsr_eq_some_iff {s : Text} {n : BitVec 64} :
    dynamicCsr s = some n ↔ CounterText s n := by
  constructor
  · intro h
    rw [dynamicCsr_eq] at h
    obtain ⟨⟨stem, low, high⟩, hmem, hvalue⟩ := List.exists_of_findSome?_eq_some h
    have hfamily : ∃ (name : String) (l h : ℕ),
        (name, l, h) ∈ counterFamilies ∧ stem = name.toList ∧ low = l ∧ high = h := by
      simp only [List.mem_cons, Prod.mk.injEq, List.not_mem_nil, or_false] at hmem
      rcases hmem with ⟨rfl, rfl, rfl⟩ | ⟨rfl, rfl, rfl⟩ | ⟨rfl, rfl, rfl⟩
      · exact ⟨"hpmcounter", _, _, .head _, rfl, rfl, rfl⟩
      · exact ⟨"mhpmcounter", _, _, .tail _ (.head _), rfl, rfl, rfl⟩
      · exact ⟨"mhpmevent", _, _, .tail _ (.tail _ (.head _)), rfl, rfl, rfl⟩
    obtain ⟨name, l, h, hfamily, rfl, rfl, rfl⟩ := hfamily
    have hstarts : startsWith name.toList s = true := by
      by_contra hnot
      rw [familyValue_of_startsWith_eq _ _ _ _ (by simpa using hnot)] at hvalue
      cases hvalue
    obtain ⟨tail, rfl⟩ := List.isPrefixOf_iff_prefix.1 hstarts
    rw [familyValue_append] at hvalue
    obtain ⟨k, hdigits, hk⟩ := Option.bind_eq_some_iff.1 hvalue
    obtain ⟨⟨hlo, hhi⟩, hn⟩ := Option.ite_none_right_eq_some.1 hk
    cases hn
    cases hends : endsWith ['h'] tail with
    | false =>
        rw [hends] at hdigits
        exact .low hfamily hdigits hlo hhi
    | true =>
        rw [hends] at hdigits
        obtain ⟨digits, rfl⟩ := List.isSuffixOf_iff_suffix.1 hends
        rw [if_pos rfl, List.dropLast_concat] at hdigits
        exact .high hfamily hdigits hlo hhi
  · rintro (⟨hfamily, hdigits, hlo, hhi⟩ | ⟨hfamily, hdigits, hlo, hhi⟩)
    · rw [dynamicCsr_append hfamily, familyValue_append, endsWith_h_of_simpleAtoi hdigits]
      simp only [Bool.false_eq_true, if_false, hdigits, Option.bind_some]
      exact if_pos ⟨hlo, hhi⟩
    · rename_i digits k
      have hends : endsWith ['h'] (digits ++ ['h']) = true :=
        List.isSuffixOf_iff_suffix.2 (List.suffix_append _ _)
      rw [dynamicCsr_append hfamily, familyValue_append, hends]
      simp only [if_true, List.dropLast_concat, hdigits, Option.bind_some]
      exact if_pos ⟨hlo, hhi⟩

/-- The names of a family are read. -/
theorem counterText_of_mem {family : String × ℕ × ℕ} (hfamily : family ∈ counterFamilies)
    {e : Text × BitVec 64} (h : e ∈ counterNames family) : CounterText e.1 e.2 := by
  obtain ⟨stem, low, high⟩ := family
  have hdigits : ∀ i < 29, simpleAtoi 32 (decimal (3 + i)) = some ((3 + i : ℕ) : ℤ) := by decide
  have hvalue (base i : ℕ) :
      BitVec.ofInt 64 ((base : ℤ) + ((3 + i : ℕ) : ℤ)) = BitVec.ofNat 64 (base + 3 + i) := by
    rw [← Nat.cast_add, BitVec.ofInt_natCast, Nat.add_assoc]
  simp only [counterNames, numbered, List.map_map, List.mem_append, List.mem_map, List.mem_range,
    Function.comp_apply] at h
  rcases h with ⟨i, hi, rfl⟩ | ⟨i, hi, rfl⟩
  · have hcounter := CounterText.low hfamily (hdigits i hi) (by omega) (by omega)
    rwa [hvalue] at hcounter
  · have hcounter := CounterText.high hfamily (hdigits i hi) (by omega) (by omega)
    rw [hvalue, ← List.append_assoc] at hcounter
    exact hcounter

/-! ### Registers in the dictionary -/

theorem dictionaryValue_of_counter {s : Text} {n : BitVec 64} (h : CounterText s n) :
    dictionaryValue s = some n := by
  have hcounter := dynamicCsr_eq_some_iff.2 h
  rw [dictionaryValue]
  cases hlookup : kRegs.lookup s with
  | none => exact hcounter
  | some m =>
      rcases dynamicCsr_of_kRegs _ (mem_of_lookup_eq_some hlookup) with hnone | hsome
      · exact absurd (hcounter.symm.trans hnone) (by simp)
      · exact (hsome.symm.trans hcounter)

/-- **Every register but `fp` is in the dictionary.** -/
theorem dictionaryValue_of_names {c : RegisterClass} (hc : c ≠ .mask) {s : Text} {n : BitVec 64}
    (h : (s, n) ∈ c.names) (hfp : s ≠ "fp".toList) : dictionaryValue s = some n := by
  have hregs (hmem : (s, n) ∈ kRegs) : dictionaryValue s = some n := by
    rw [dictionaryValue, lookup_kRegs _ hmem]
    rfl
  cases c with
  | integer =>
      rw [RegisterClass.names, List.mem_append, List.mem_append, List.mem_singleton] at h
      rcases h with h | h
      · exact hregs (mem_kRegs_iff.2 (.inl h))
      · exact absurd (Prod.mk.inj h).1 hfp
  | float => exact hregs (mem_kRegs_iff.2 (.inr (.inl h)))
  | vector => exact hregs (mem_kRegs_iff.2 (.inr (.inr (.inl h))))
  | mask => exact absurd rfl hc
  | csr =>
      rcases List.mem_append.1 h with h | h
      · exact hregs (mem_kRegs_iff.2 (.inr (.inr (.inr (.inl h)))))
      · obtain ⟨family, hfamily, hmem⟩ := List.mem_flatMap.1 h
        exact dictionaryValue_of_counter (counterText_of_mem hfamily hmem)

/-- The dictionary has registers only. -/
theorem names_of_dictionaryValue {text : Text} {n : BitVec 64}
    (h : dictionaryValue (inside text) = some n)
    (ht : endsWith ".t".toList text = false) : Names text n := by
  have hfp : inside text ≠ "fp".toList := by
    intro heq
    have hnone : dictionaryValue "fp".toList = none := by decide +kernel
    rw [heq, hnone] at h
    cases h
  rw [dictionaryValue] at h
  cases hlookup : kRegs.lookup (inside text) with
  | none =>
      rw [hlookup, Option.none_or] at h
      exact .counter (dynamicCsr_eq_some_iff.1 h) ht
  | some m =>
      rw [hlookup] at h
      cases h
      rcases mem_kRegs_iff.1 (mem_of_lookup_eq_some hlookup) with
        hinteger | hfloat | hvector | hcsr | hcounter
      · exact .register (c := .integer) (by decide)
          (List.mem_append_left _ (List.mem_append.2 hinteger)) hfp ht
      · exact .register (by decide) hfloat hfp ht
      · exact .register (by decide) hvector hfp ht
      · exact .register (c := .csr) (by decide) (List.mem_append_left _ hcsr) hfp ht
      · have hfamily : ("hpmcounter", 0xC00, 0xC80) ∈ counterFamilies := .head _
        exact .counter (counterText_of_mem hfamily (List.mem_append_left _ hcounter)) ht

/-! ### Texts -/

theorem inside_eq_or (text : Text) : inside text = text ∨ '(' ∈ text := by
  rw [inside, withoutParens]
  cases hstart : text.idxOf? '(' with
  | none => exact .inl rfl
  | some start =>
      refine .inr (by_contra fun hnot => ?_)
      rw [List.idxOf?_eq_none_iff.2 hnot] at hstart
      cases hstart

theorem withoutParens_srcOp (op : RegisterOperand) (text : Text) :
    withoutParens op.srcOp text = inside text := by
  cases op <;> rfl

theorem isHexOperand_srcOp (op : RegisterOperand) : isHexOperand op.srcOp = false := by
  cases op <;> rfl

/-- A register of the dictionary is in no other table, but for the control and status registers. -/
theorem lookups_of_dictionaryValue {text : Text} {n : BitVec 64}
    (h : dictionaryValue (inside text) = some n) :
    fenceSets.lookup text = none ∧
    (keywords.lookup text = none ∨ keywords.lookup text = some n) := by
  have hplain : ∀ e ∈ fenceSets ++ keywords, '(' ∉ e.1 := by decide +kernel
  rw [List.forall_mem_append] at hplain
  rcases inside_eq_or text with heq | hparen
  · rw [heq] at h
    constructor
    · cases hfence : fenceSets.lookup text with
      | none => rfl
      | some m =>
        exact absurd (h.symm.trans (dictionaryValue_of_fenceSets _ (mem_of_lookup_eq_some hfence)))
          (by simp)
    · cases hkeyword : keywords.lookup text with
      | none => exact .inl rfl
      | some m =>
          rcases dictionaryValue_of_keywords _ (mem_of_lookup_eq_some hkeyword) with
            ⟨hnone, -⟩ | ⟨hsome, -⟩
          · exact absurd (h.symm.trans hnone) (by simp)
          · exact .inr (hsome.symm.trans h)
  · exact ⟨lookup_eq_none_of_char hplain.1 hparen, .inl (lookup_eq_none_of_char hplain.2 hparen)⟩

section Parse

variable {op : RegisterOperand} {text : Text} {n : BitVec 64}

/-- A text that is empty. -/
theorem parseReg_of_nil (h : Regular op text) (hnil : operandText text = []) :
    parseReg text op.srcOp = .ok 1 := by
  rw [h.nonempty hnil, parseReg, hnil]
  rfl

/-- A text that is not empty and is in no table of its own. -/
theorem parseReg_of_lookups (hne : operandText text ≠ [])
    (hfence : fenceSets.lookup (operandText text) = none)
    (ht : endsWith ".t".toList (operandText text) = false) : parseReg text op.srcOp =
      match keywords.lookup (operandText text) with
      | some n => .ok n
      | none => match dictionaryValue (inside (operandText text)) with
        | some n => .ok n
        | none => parseNumber text op.srcOp (numberText (inside (operandText text))) := by
  rw [← withoutParens_srcOp op]
  simp only [parseReg, if_neg hne, hfence, ht, Bool.false_eq_true, if_false]
  rfl

/-- A text that ends with `.t`. -/
theorem parseReg_of_endsWith (hne : operandText text ≠ [])
    (hfence : fenceSets.lookup (operandText text) = none)
    (ht : endsWith ".t".toList (operandText text) = true)
    (hnot : operandText text ≠ "v0.t".toList) :
    parseReg text op.srcOp = .error
      ("Invalid mask register: ".toList ++ operandText text ++
        ". Only v0.t is allowed.".toList) := by
  simp only [parseReg, if_neg hne, hfence, ht, if_true, ne_eq, hnot, not_false_eq_true]

theorem parseReg_of_dictionaryValue (hne : operandText text ≠ [])
    (h : dictionaryValue (inside (operandText text)) = some n)
    (ht : endsWith ".t".toList (operandText text) = false) : parseReg text op.srcOp = .ok n := by
  obtain ⟨hfence, hkeyword⟩ := lookups_of_dictionaryValue h
  rw [parseReg_of_lookups hne hfence ht]
  rcases hkeyword with hnone | hsome
  · rw [hnone, h]
  · rw [hsome]

/-- **Names are read.** -/
theorem parseReg_of_names (hne : operandText text ≠ []) (h : Names (operandText text) n) :
    parseReg text op.srcOp = .ok n := by
  generalize htext : operandText text = name at h
  cases h with
  | mask =>
      have hfence : fenceSets.lookup "v0.t".toList = none := by decide
      simp only [parseReg, htext, hfence]
      rfl
  | other hmem =>
      rcases lookup_of_otherNames _ hmem with hfence | ⟨hfence, ht, hkeyword⟩
      · simp only [parseReg, if_neg hne]
        rw [htext, hfence]
      · rw [parseReg_of_lookups hne (htext ▸ hfence) (htext ▸ ht), htext, hkeyword]
  | register hc hmem hfp ht =>
      exact parseReg_of_dictionaryValue hne (htext ▸ dictionaryValue_of_names hc hmem hfp)
        (htext ▸ ht)
  | counter hcounter ht =>
      exact parseReg_of_dictionaryValue hne (htext ▸ dictionaryValue_of_counter hcounter)
        (htext ▸ ht)

/-- A keyword is a name. -/
theorem names_of_keywords {text : Text} {n : BitVec 64} (h : keywords.lookup text = some n)
    (ht : endsWith ".t".toList text = false) : Names text n := by
  rcases dictionaryValue_of_keywords _ (mem_of_lookup_eq_some h) with ⟨-, hother⟩ | ⟨hvalue, hparen⟩
  · exact .other hother
  · have heq : inside text = text := (inside_eq_or text).resolve_right hparen
    exact names_of_dictionaryValue (heq.symm ▸ hvalue) ht

theorem names_of_fenceSets {text : Text} {n : BitVec 64} (h : fenceSets.lookup text = some n) :
    Names text n :=
  .other (List.mem_append_left _ (mem_of_lookup_eq_some h))

/-- A text that is in no table is no name. -/
theorem not_names_of_lookups {text : Text} (hfence : fenceSets.lookup text = none)
    (ht : endsWith ".t".toList text = false) (hkeyword : keywords.lookup text = none)
    (hvalue : dictionaryValue (inside text) = none) (n : BitVec 64) : ¬ Names text n := by
  intro h
  cases h with
  | mask => cases ht
  | other hmem =>
      rcases lookup_of_otherNames _ hmem with hsome | ⟨-, -, hsome⟩
      · exact absurd (hsome.symm.trans hfence) (by simp)
      · exact absurd (hsome.symm.trans hkeyword) (by simp)
  | register hc hmem hfp _ =>
    exact absurd ((dictionaryValue_of_names hc hmem hfp).symm.trans hvalue) (by simp)
  | counter hcounter _ =>
    exact absurd ((dictionaryValue_of_counter hcounter).symm.trans hvalue) (by simp)

/-- Numbers are read. -/
theorem parseNumber_eq_ok_iff (h : Regular op text) :
    parseNumber text op.srcOp (numberText (inside (operandText text))) = .ok n ↔
      numberOf (numberText (inside (operandText text))) = some n := by
  have hhex := h.hex
  generalize numberText (inside (operandText text)) = number at hhex ⊢
  rw [parseNumber, numberOf, isHexOperand_srcOp]
  cases hleading : hasHexPrefix number with
  | true =>
      obtain ⟨v, hv⟩ := Option.ne_none_iff_exists'.1 (hhex hleading)
      simp [hv]
  | false =>
      simp only [Bool.false_eq_true, if_false, Option.none_or]
      cases ((simpleAtoi 64 number).map (BitVec.ofInt 64 ·)).or (simpleHexAtoi number) <;> simp

theorem reads_of_parseReg (h : Regular op text) (hparse : parseReg text op.srcOp = .ok n) :
    Reads op (operandText text) n := by
  by_cases hnil : operandText text = []
  · rw [parseReg_of_nil h hnil] at hparse
    cases hparse
    rw [hnil]
    exact .unmasked (h.nonempty hnil)
  cases hfence : fenceSets.lookup (operandText text) with
  | some m =>
      rw [parseReg_of_names hnil (names_of_fenceSets hfence)] at hparse
      cases hparse
      exact .name hnil (names_of_fenceSets hfence)
  | none =>
  cases ht : endsWith ".t".toList (operandText text) with
  | true =>
      -- only `v0.t` is accepted
      have hmask : operandText text = "v0.t".toList := by
        by_contra hnot
        rw [parseReg_of_endsWith hnil hfence ht hnot] at hparse
        cases hparse
      have hnames : Names (operandText text) 0 := hmask ▸ Names.mask
      rw [parseReg_of_names hnil hnames] at hparse
      cases hparse
      exact .name hnil hnames
  | false =>
  rw [parseReg_of_lookups hnil hfence ht] at hparse
  cases hkeyword : keywords.lookup (operandText text) with
  | some m =>
      rw [hkeyword] at hparse
      cases hparse
      exact .name hnil (names_of_keywords hkeyword ht)
  | none =>
  rw [hkeyword] at hparse
  cases hvalue : dictionaryValue (inside (operandText text)) with
  | some m =>
      rw [hvalue] at hparse
      cases hparse
      exact .name hnil (names_of_dictionaryValue hvalue ht)
  | none =>
      rw [hvalue] at hparse
      exact .number hnil (not_names_of_lookups hfence ht hkeyword hvalue) ht
        ((parseNumber_eq_ok_iff h).1 hparse)

theorem parseReg_of_reads (h : Regular op text) (hreads : Reads op (operandText text) n) :
    parseReg text op.srcOp = .ok n := by
  generalize hname : operandText text = name at hreads
  cases hreads with
  | unmasked _ => exact parseReg_of_nil h hname
  | name hne hnames => exact parseReg_of_names (hname ▸ hne) (hname ▸ hnames)
  | number hne hnot ht hnumber =>
      subst hname
      have hfence : fenceSets.lookup (operandText text) = none :=
        Option.eq_none_iff_forall_ne_some.2 fun m hm => hnot m (names_of_fenceSets hm)
      have hkeyword : keywords.lookup (operandText text) = none :=
        Option.eq_none_iff_forall_ne_some.2 fun m hm => hnot m (names_of_keywords hm ht)
      have hvalue : dictionaryValue (inside (operandText text)) = none :=
        Option.eq_none_iff_forall_ne_some.2 fun m hm => hnot m (names_of_dictionaryValue hm ht)
      rw [parseReg_of_lookups hne hfence ht, hkeyword, hvalue]
      exact (parseNumber_eq_ok_iff h).2 hnumber

/-- **The values of texts.** -/
theorem parseReg_eq_ok_iff (h : Regular op text) :
    parseReg text op.srcOp = .ok n ↔ Reads op (operandText text) n :=
  ⟨reads_of_parseReg h, parseReg_of_reads h⟩

end Parse

/-! ### Operands and their fields -/

namespace RegisterOperand

/-- The encoding of a value: its low bits in the field, or a condition of `vsetvli` fails. -/
theorem encoding_of_parseReg {op : RegisterOperand} {text : Text} {n : BitVec 64}
    (h : parseReg text op.srcOp = .ok n) (address : BitVec 64) (opcode : OpcodeEnum) :
    (op.Allows opcode n → op.encoding address opcode text = .ok (op.layout.insert n 0)) ∧
    (¬ op.Allows opcode n → ∃ message, op.encoding address opcode text = .error message) := by
  cases op with
  | rs1 | frs1 | vs1 =>
      simp only [srcOp, enum, Sum.elim_inl, id] at h
      simp only [encoding, enum, Sum.elim_inl, getSrcOpEncoding, h, Allows]
      cases opcode <;> by_cases hzero : n = 0 <;>
        simp only [hzero, reduceCtorEq, true_and, if_true, if_false, ne_eq, not_true_eq_false,
          not_false_eq_true, and_true, and_false, or_true, or_false, forall_const, false_imp_iff]
      all_goals first | rfl | exact ⟨_, rfl⟩
  | rd | frd =>
      simp only [srcOp, enum, Sum.elim_inr] at h
      simp only [encoding, enum, Sum.elim_inr, getDestOpEncoding, h, Allows]
      cases opcode <;> by_cases hzero : n = 0 <;>
        simp only [hzero, reduceCtorEq, true_and, if_true, if_false, ne_eq, not_true_eq_false,
          not_false_eq_true, and_true, and_false, forall_const, false_imp_iff]
      all_goals first | rfl | exact ⟨_, rfl⟩
  | rs2 | frs2 | frs3 | vs2 | vs3 | vdSource | vd | vmask | csrSource | csr =>
      refine ⟨fun _ => ?_, fun hnot => absurd trivial hnot⟩
      simp only [srcOp, enum, Sum.elim_inl, Sum.elim_inr, id] at h
      simp only [encoding, enum, Sum.elim_inl, Sum.elim_inr, getSrcOpEncoding, getDestOpEncoding, h]
      rfl

theorem encoding_of_error {op : RegisterOperand} {text : Text} {message : Text}
    (h : parseReg text op.srcOp = .error message) (address : BitVec 64) (opcode : OpcodeEnum) :
    op.encoding address opcode text = .error message := by
  cases op <;> simp only [encoding, enum, Sum.elim_inl, Sum.elim_inr, getSrcOpEncoding,
    getDestOpEncoding] <;>
    simp only [srcOp, enum, Sum.elim_inl, Sum.elim_inr, id] at h <;> rw [h]

/-- The fields are wide enough for the numbers of the class. -/
theorem lt_of_mem_names (op : RegisterOperand) {e : Text × BitVec 64}
    (h : e ∈ op.registerClass.names) : e.2.toNat < 2 ^ op.layout.length := by
  have hwidth : op.layout.length = op.registerClass.width := by cases op <;> rfl
  rw [hwidth]
  exact (names_plain _ h).2.2

/-- The field of a value holds its low bits. -/
theorem extract_layout (op : RegisterOperand) (n : BitVec 64) :
    (op.layout.extract (op.layout.insert n (0 : BitVec 64))).toNat =
      n.toNat % 2 ^ op.layout.length := by
  have hfits : op.layout.Fits 64 := by cases op <;> decide
  have hmask : op.layout.mask = BitVec.allOnes op.layout.length := by cases op <;> decide
  rw [BitLayout.extract_insert hfits, hmask, BitVec.and_allOnes, BitVec.toNat_setWidth]

end RegisterOperand

/-- A register of any class has a plain text. -/
theorem names_of_mem {c : RegisterClass} {text : Text} {n : BitVec 64} (h : (text, n) ∈ c.names)
    (hfp : inside text ≠ "fp".toList) : Names text n := by
  by_cases hc : c = .mask
  · subst hc
    cases List.mem_singleton.1 h
    exact .mask
  · obtain ⟨hparen, ht⟩ := (names_plain c h).2.1 hc
    have heq : inside text = text := (inside_eq_or text).resolve_right hparen
    exact .register hc (heq.symm ▸ h) hfp ht

/-- **Registers are encoded by their number**, names and numbers of all kinds by their low bits, and
nothing else is accepted. -/
theorem registers_parse (op : RegisterOperand) (address : BitVec 64) (opcode : OpcodeEnum)
    (text : Text) (h : Regular op text) : ParsesRegister op address opcode text := by
  have haccepted : ∀ n, Reads op (operandText text) n → op.Allows opcode n →
      op.encoding address opcode text = .ok (op.layout.insert n 0) := fun n hreads =>
    (RegisterOperand.encoding_of_parseReg (parseReg_of_reads h hreads) address opcode).1
  refine ⟨fun n hmem hallows => ?_, haccepted, fun hnot => ?_⟩
  · have hne : operandText text ≠ [] := (names_plain _ hmem).1
    refine ⟨_, haccepted n (.name hne (names_of_mem hmem h.fp)) hallows, ?_⟩
    rw [op.extract_layout, Nat.mod_eq_of_lt (op.lt_of_mem_names hmem)]
  · cases hparse : parseReg text op.srcOp with
    | error message => exact ⟨message, RegisterOperand.encoding_of_error hparse address opcode⟩
    | ok n =>
        exact (RegisterOperand.encoding_of_parseReg hparse address opcode).2
          (hnot n (reads_of_parseReg h hparse))

/-- A stack pointer behind a comma. -/
theorem registers_parse_sp :
    ∃ word, RegisterOperand.rs1.encoding 0 .other ", sp ".toList = .ok word ∧
    (RegisterOperand.rs1.layout.extract word).toNat = 2 := by
  have hregular : Regular .rs1 ", sp ".toList := by constructor <;> decide
  exact (registers_parse .rs1 0 .other ", sp ".toList hregular).own 2 (by decide) (by decide)

/-- Exactly the registers of the class are accepted. -/
def ParsesByClass (op : RegisterOperand) (address : BitVec 64) (opcode : OpcodeEnum)
    (text : Text) : Prop :=
  (∃ word, op.encoding address opcode text = .ok word) ↔
  ∃ n, (operandText text, n) ∈ op.registerClass.names

theorem not_parsesByClass_of_parseReg (op : RegisterOperand) {address : BitVec 64}
    {opcode : OpcodeEnum} {text : Text} {n : BitVec 64} (hparse : parseReg text op.srcOp = .ok n)
    (hallows : op.Allows opcode n) (hnot : ∀ e ∈ op.registerClass.names, e.1 ≠ operandText text) :
    ¬ ParsesByClass op address opcode text := by
  intro h
  obtain ⟨m, hmem⟩ :=
    h.1 ⟨_, (RegisterOperand.encoding_of_parseReg hparse address opcode).1 hallows⟩
  exact hnot _ hmem rfl

/-- A vector register and a number as an integer register. -/
theorem not_parsesByClass :
    ¬ ParsesByClass .rs1 0 .other "v3".toList ∧ ¬ ParsesByClass .rs1 0 .other "5".toList := by
  have hvector : parseReg "v3".toList .rs1 = .ok 3 := by decide
  have hnumber : parseReg "5".toList .rs1 = .ok 5 := by decide
  exact ⟨not_parsesByClass_of_parseReg .rs1 hvector (by decide) (by decide),
    not_parsesByClass_of_parseReg .rs1 hnumber (by decide) (by decide)⟩

end CoralNpu.Isa32M3
