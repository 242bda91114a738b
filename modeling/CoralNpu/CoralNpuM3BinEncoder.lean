/-
**The operands of the assembler.**

The encoder interface of the M3 assembler gets the text of an operand and gives back its bits in the
instruction word.  One function reads every text, whatever operand it is for: names of registers, of
control and status registers, of rounding modes and of the parts of `vtype`, and numbers, in decimal
or in hexadecimal.  The number goes to the field of the operand, as it is or relative to the address
of the instruction.

Main definitions:

* `CoralNpu.Isa32M3.simpleAtoi`, `CoralNpu.Isa32M3.simpleHexAtoi` — the numbers that a text stands
  for;
* `CoralNpu.Isa32M3.parseReg` — the value of an operand text;
* `CoralNpu.Isa32M3.SourceOpEnum.layout` — the fields of the instruction formats;
* `CoralNpu.Isa32M3.getSrcOpEncoding`, `CoralNpu.Isa32M3.getDestOpEncoding` — the bits of a source
  operand, and of a destination operand.
-/

import CoralNpu.AsciiText
import CoralNpu.BitLayout

set_option relaxedAutoImplicit false
set_option autoImplicit false

namespace CoralNpu.Isa32M3

open AsciiText

/-! ### Texts -/

/-- The text begins with this one. -/
def startsWith (stem text : Text) : Bool := stem.isPrefixOf text

/-- The text ends with this one. -/
def endsWith (tail text : Text) : Bool := tail.isSuffixOf text

/-- The value of a text of digits, of either case. -/
def digitsValue (base : ℕ) (text : Text) : Option ℕ :=
  if text = [] then none else parseDigits base (text.map Char.toLower) 0

/-- A number without its plus sign. -/
def dropPlus : Text → Text
  | '+' :: rest => rest
  | text => text

/-- `SimpleAtoi` into a signed integer with this many bits: a decimal number with an optional
sign. -/
def simpleAtoi (bits : ℕ) (text : Text) : Option ℤ :=
  let inRange (z : ℤ) : Option ℤ :=
    if -2 ^ (bits - 1) ≤ z ∧ z < 2 ^ (bits - 1) then some z else none
  match strip text with
  | '-' :: digits => (digitsValue 10 digits).bind fun n => inRange (-n)
  | text => (digitsValue 10 (dropPlus text)).bind fun n => inRange n

/-- A number without the `0x` in front. -/
def dropHexPrefix : Text → Text
  | '0' :: 'x' :: rest => rest
  | '0' :: 'X' :: rest => rest
  | text => text

/-- `SimpleHexAtoi` into a `uint64_t`: hexadecimal digits, with an optional `0x` and an optional
plus sign. -/
def simpleHexAtoi (text : Text) : Option (BitVec 64) :=
  (digitsValue 16 (dropHexPrefix (dropPlus (strip text)))).bind fun n =>
    if n < 2 ^ 64 then some (BitVec.ofNat 64 n) else none

/-! ### Names -/

/-- The names that some values have. -/
abbrev NameTable := List (Text × BitVec 64)

/-- A table of names written as strings. -/
def nameTable (names : List (String × ℕ)) : NameTable :=
  names.map fun (name, n) => (name.toList, BitVec.ofNat 64 n)

/-- The names with a stem and the numbers from `first` on, for values from `value` on. -/
def numbered (stem : String) (first count value : ℕ) : NameTable :=
  (List.range count).map fun i => (stem.toList ++ decimal (first + i), BitVec.ofNat 64 (value + i))

/-- The sets of a fence. -/
def fenceSets : NameTable := nameTable
  [("iorw", 15), ("ior", 14), ("iow", 13), ("io", 12), ("irw", 11), ("ir", 10), ("iw", 9),
    ("i", 8), ("orw", 7), ("or", 6), ("ow", 5), ("o", 4), ("rw", 3), ("r", 2), ("w", 1)]

/-- Rounding modes, the parts of `vtype`, and control and status registers. -/
def keywords : NameTable := nameTable
  [("rne", 0), ("rtz", 1), ("rdn", 2), ("rup", 3), ("rmm", 4), ("dyn", 7),
    ("e8", 0), ("e16", 1), ("e32", 2),
    ("m1", 0), ("m2", 1), ("m4", 2), ("m8", 3), ("res4", 4), ("mf8", 5), ("mf4", 6), ("mf2", 7),
    ("ta", 1), ("tu", 0), ("ma", 1), ("mu", 0),
    ("fflags", 1), ("frm", 2), ("fcsr", 3), ("vstart", 8), ("vxsat", 9), ("vxrm", 10), ("vcsr", 15),
    ("vl", 0xc20), ("vtype", 0xc21), ("vlenb", 0xc22), ("cycle", 0xc00), ("time", 0xc01),
    ("instret", 0xc02), ("fcsr", 0x003), ("vstart", 0x008), ("satp", 0x180), ("mstatus", 0x300),
    ("mscratch", 0x340), ("mie", 0x304), ("mtvec", 0x305), ("mepc", 0x341), ("mcause", 0x342),
    ("mtval", 0x343), ("mip", 0x344)]

/-- `kRegs`. -/
def kRegs : NameTable :=
  numbered "x" 0 32 0 ++ nameTable [("zero", 0), ("ra", 1), ("sp", 2), ("gp", 3), ("tp", 4)] ++
  numbered "t" 0 3 5 ++ numbered "s" 0 2 8 ++ numbered "a" 0 8 10 ++ numbered "s" 2 10 18 ++
    numbered "t" 3 4 28 ++
  numbered "f" 0 32 0 ++ numbered "ft" 0 8 0 ++ numbered "fs" 0 2 8 ++ numbered "fa" 0 8 10 ++
  numbered "fs" 2 10 18 ++ numbered "ft" 8 4 28 ++ numbered "v" 0 32 0 ++
  nameTable [("fflags", 0x001), ("frm", 0x002), ("fcsr", 0x003), ("vl", 0xC20), ("vtype", 0xC21),
    ("vlenb", 0xC22), ("vstart", 0x008), ("vxsat", 0x009), ("vxrm", 0x00A), ("vcsr", 0x00F),
    ("cycle", 0xC00), ("time", 0xC01), ("instret", 0xC02), ("mstatus", 0x300), ("mie", 0x304),
    ("mepc", 0x341), ("mtvec", 0x305), ("satp", 0x180), ("mscratch", 0x340), ("mcause", 0x342),
    ("mtval", 0x343), ("mip", 0x344)] ++
  numbered "hpmcounter" 3 29 0xC03

/-- The counters that are not in the table: the stem, a number from 3 to 31, and `h` for the high
half. -/
def dynamicCsr (s : Text) : Option (BitVec 64) :=
  [("hpmcounter".toList, 0xC00, 0xC80), ("mhpmcounter".toList, 0xB00, 0xB80),
    ("mhpmevent".toList, 0x320, 0x720)].findSome? fun (stem, low, high) =>
      if startsWith stem s then
        let tail := s.drop stem.length
        let isHigh := endsWith ['h'] tail
        let digits := if isHigh then tail.dropLast else tail
        (simpleAtoi 32 digits).bind fun n =>
          if n ≥ 3 ∧ n ≤ 31 then some (BitVec.ofInt 64 ((if isHigh then high else low) + n))
            else none
      else none

/-! ### Operands -/

/-- The source operands. -/
inductive SourceOpEnum where
  | rs1 | frs1 | vs1 | rs2 | frs2 | vs2 | frs3 | vs3 | vd | rm | vmask | iImm12 | csr | jImm12 |
    sImm12 | bImm12
  | uImm20 | jImm20 | csrUimm5 | simm5 | uimm5 | rUimm5 | succ | pred | nf | zimm11 | zimm10
  | const1 | const2 | const4 | vmaskTrue | none
  /-- the operands that the assembler does not encode, by their number -/
  | other (number : ℕ)
  deriving DecidableEq

/-- An operand text without the spaces around it and the comma in front of it. -/
def operandText (textIn : Text) : Text :=
  match strip textIn with
  | ',' :: rest => strip rest
  | text => text

/-- The part of a text with parentheses that counts: the offset in front of them, or what is
inside. -/
def withoutParens (srcOp : SourceOpEnum) (s : Text) : Text :=
  match s.idxOf? '(', s.idxOf? ')' with
  | some parenStart, some parenEnd =>
      if parenEnd > parenStart then
        if srcOp ∈ [.iImm12, .sImm12, .bImm12, .jImm12, .simm5, .uimm5] then s.take parenStart
        else (s.drop (parenStart + 1)).take (parenEnd - parenStart - 1)
      else s
  | _, _ => s

/-- The number in front of a comment. -/
def numberText (s : Text) : Text := strip (s.takeWhile (· ≠ '<'))

/-- `0x` or `0X` is in front. -/
def hasHexPrefix (s : Text) : Bool := startsWith "0x".toList s || startsWith "0X".toList s

/-- The operands that are read in hexadecimal first. -/
def isHexOperand (srcOp : SourceOpEnum) : Bool := srcOp ∈ [SourceOpEnum.uImm20, .bImm12, .jImm20]

/-- The end of `ParseReg`: a text that is no name. -/
def parseNumber (textIn : Text) (srcOp : SourceOpEnum) (hexStr : Text) : Except Text (BitVec 64) :=
  if hasHexPrefix hexStr then
    .ok ((simpleHexAtoi (hexStr.drop 2)).getD 0)
  else
    let hexFirst := if isHexOperand srcOp then simpleHexAtoi hexStr else .none
    match hexFirst.or ((simpleAtoi 64 hexStr).map (BitVec.ofInt 64 ·)) |>.or
      (simpleHexAtoi hexStr) with
    | some v => .ok v
    | .none => .error ("Invalid register or immediate: ".toList ++ textIn)

/-- `ParseReg`. -/
def parseReg (textIn : Text) (srcOp : SourceOpEnum) : Except Text (BitVec 64) :=
  let text := operandText textIn
  if text = [] then .ok (if srcOp = .vmask then 1 else if srcOp = .rm then 7 else 0)
  else match fenceSets.lookup text with
  | some n => .ok n
  | .none =>
    if endsWith ".t".toList text then
      if text ≠ "v0.t".toList then
        .error ("Invalid mask register: ".toList ++ text ++ ". Only v0.t is allowed.".toList)
      else .ok 0
    else match keywords.lookup text with
    | some n => .ok n
    | .none =>
      let s := withoutParens srcOp text
      match (kRegs.lookup s).or (dynamicCsr s) with
      | some n => .ok n
      | .none => parseNumber textIn srcOp (numberText s)

/-! ### Fields -/

/-- The fields and overlays of the instruction formats that operands go to. -/
def SourceOpEnum.layout : SourceOpEnum → BitLayout
  | rs1 | frs1 | vs1 => BitLayout.field 15 5
  | rs2 | frs2 | vs2 => BitLayout.field 20 5
  | frs3 => BitLayout.field 27 5
  | vs3 | vd => BitLayout.field 7 5
  | rm => BitLayout.field 12 3
  | vmask => BitLayout.field 25 1
  | iImm12 | csr | jImm12 => BitLayout.field 20 12
  -- `s_imm[12] = imm7, imm5`
  | sImm12 => BitLayout.field 7 5 ++ BitLayout.field 25 7
  -- `b_imm[13] = imm7[6], imm5[0], imm7[5..0], imm5[4..1], 0b0`
  | bImm12 => [Option.none] ++ BitLayout.field 8 4 ++ BitLayout.field 25 6 ++ [some 7, some 31]
  | uImm20 => BitLayout.field 12 20
  -- `j_imm[21] = imm20[19, 7..0, 8, 18..9], 0b0`
  | jImm20 =>
    [Option.none] ++ BitLayout.field 21 10 ++ [some 20] ++ BitLayout.field 12 8 ++ [some 31]
  | csrUimm5 | simm5 | uimm5 => BitLayout.field 15 5
  | rUimm5 => BitLayout.field 20 5
  | succ => BitLayout.field 20 4
  | pred => BitLayout.field 24 4
  | nf => BitLayout.field 29 3
  | zimm11 => BitLayout.field 20 11
  | zimm10 => BitLayout.field 20 10
  | const1 | const2 | const4 | vmaskTrue | none | other _ => []

/-- The opcodes with a condition on their registers. -/
inductive OpcodeEnum where
  | vsetvliXn | vsetvliNz | vsetvliZz | other
  deriving DecidableEq

/-- `GetSrcOpEncoding`. -/
def getSrcOpEncoding (address : BitVec 64) (text : Text) (opcode : OpcodeEnum)
    (sourceOp : SourceOpEnum) : Except Text (BitVec 64) :=
  match parseReg text sourceOp with
  | .error message => .error message
  | .ok val =>
    let encode (value : BitVec 64) : Except Text (BitVec 64) := .ok (sourceOp.layout.insert value 0)
    match sourceOp with
    | .rs1 | .frs1 | .vs1 =>
      if opcode = .vsetvliXn ∧ val = 0 then .error "vsetvli_xn requires rs1 != 0".toList
      else if opcode = .vsetvliNz ∧ val ≠ 0 then .error "vsetvli_nz requires rs1 == 0".toList
      else if opcode = .vsetvliZz ∧ val ≠ 0 then .error "vsetvli_zz requires rs1 == 0".toList
      else encode val
    -- a negative number is relative already
    | .bImm12 => encode (if val.toInt < 0 then val else val - address)
    | .jImm20 => encode (val - address)
    | .nf => encode (val - 1)
    | .const1 | .const2 | .const4 | .vmaskTrue | .none => .ok 0
    | .other number => .error ("Invalid source op: ".toList ++ decimal number)
    | _ => encode val

/-- The destination operands. -/
inductive DestOpEnum where
  | rd | frd | vd | csr | fflags | nextPc | none | other
  deriving DecidableEq

/-- Their fields. -/
def DestOpEnum.layout : DestOpEnum → BitLayout
  | rd | frd | vd => BitLayout.field 7 5
  | csr => BitLayout.field 20 12
  | fflags | nextPc | none | other => []

/-- `GetDestOpEncoding`. -/
def getDestOpEncoding (text : Text) (opcode : OpcodeEnum) (destOp : DestOpEnum) :
    Except Text (BitVec 64) :=
  match parseReg text .none with
  | .error message => .error message
  | .ok val =>
    match destOp with
    | .rd | .frd =>
      if opcode = .vsetvliNz ∧ val = 0 then .error "vsetvli_nz requires rd != 0".toList
      else if opcode = .vsetvliZz ∧ val ≠ 0 then .error "vsetvli_zz requires rd == 0".toList
      else .ok (destOp.layout.insert val 0)
    | .vd | .csr => .ok (destOp.layout.insert val 0)
    | .fflags | .nextPc | .none => .ok 0
    | .other => .error "Invalid dest op".toList

end CoralNpu.Isa32M3
