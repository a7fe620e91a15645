import MyRiscvCore.Pipeline.Pack

/-!
# MyRiscvCore — the encodings of RV32IM, Zicsr and the machine-mode instructions

The instruction listings of the specification as a table, written down without the decoder: a row names
an operation, the bits of the word that are fixed for it, and the format that places its operands. An
immediate is given as the specification draws it, by the bits it is made of.
-/

namespace MyRiscvCore

/-! ## Formats -/

/-- How a word holds the operands of an instruction. `csr` and `csrImm` are the two forms of the CSR
instructions, `sys` has no operand. -/
inductive Format
  | r | i | s | b | u | j | csr | csrImm | fence | sys
  deriving DecidableEq

namespace Format

def rd (f : Format) (v : Word) : Option Nat :=
  match f with
  | .r | .i | .u | .j | .csr | .csrImm => some (v.extractLsb' 7 5).toNat
  | _ => none

def rs1 (f : Format) (v : Word) : Option Nat :=
  match f with
  | .r | .i | .s | .b | .csr => some (v.extractLsb' 15 5).toNat
  | _ => none

def rs2 (f : Format) (v : Word) : Option Nat :=
  match f with
  | .r | .s | .b => some (v.extractLsb' 20 5).toNat
  | _ => none

def csrAddr (f : Format) (v : Word) : Option Nat :=
  match f with
  | .csr | .csrImm => some (v.extractLsb' 20 12).toNat
  | _ => none

/-- The immediate, sign-extended; the one of a CSR instruction is not. -/
def imm (f : Format) (v : Word) : Option Word :=
  match f with
  | .i | .fence => some ((v.extractLsb' 20 12).signExtend 32)
  | .s => some ((v.extractLsb' 25 7 ++ v.extractLsb' 7 5).signExtend 32)
  | .b => some ((v.extractLsb' 31 1 ++ v.extractLsb' 7 1 ++ v.extractLsb' 25 6 ++
      v.extractLsb' 8 4 ++ 0#1).signExtend 32)
  | .u => some (v.extractLsb' 12 20 ++ 0#12)
  | .j => some ((v.extractLsb' 31 1 ++ v.extractLsb' 12 8 ++ v.extractLsb' 20 1 ++
      v.extractLsb' 21 10 ++ 0#1).signExtend 32)
  | .csrImm => some ((v.extractLsb' 15 5).setWidth 32)
  | _ => none

end Format

/-! ## The table -/

/-- A bit field with a fixed value. -/
structure FixedBits where
  lo : Nat
  width : Nat
  value : Nat
  deriving DecidableEq

structure Encoding where
  op : Op
  opUnit : OpUnit
  subOp : SubOp
  format : Format
  fixed : List FixedBits
  deriving DecidableEq

/-- The word has the bits that the specification fixes. -/
def Encoding.Matches (e : Encoding) (v : Word) : Prop :=
  ∀ b ∈ e.fixed, (v.extractLsb' b.lo b.width).toNat = b.value

instance (e : Encoding) (v : Word) : Decidable (e.Matches v) :=
  inferInstanceAs (Decidable (∀ b ∈ e.fixed, _))

/-- The fixed fields of the listings: the opcode, `funct3` and `funct7`. -/
def opc (n : Nat) : FixedBits := ⟨0, 7, n⟩
def f3 (n : Nat) : FixedBits := ⟨12, 3, n⟩
def f7 (n : Nat) : FixedBits := ⟨25, 7, n⟩

/-- `rd` and `rs1` are zero. -/
def noRegs : List FixedBits := [⟨7, 5, 0⟩, ⟨15, 5, 0⟩]

def branchRow (op : Op) (bruOp : BruOp) (n : Nat) : Encoding :=
  ⟨op, .bru, .bru bruOp, .b, [opc 0x63, f3 n]⟩
def loadRow (op : Op) (lsuOp : LsuOp) (n : Nat) : Encoding :=
  ⟨op, .lsu, .lsu lsuOp, .i, [opc 0x03, f3 n]⟩
def storeRow (op : Op) (lsuOp : LsuOp) (n : Nat) : Encoding :=
  ⟨op, .lsu, .lsu lsuOp, .s, [opc 0x23, f3 n]⟩
def immRow (op : Op) (aluOp : AluOp) (n : Nat) : Encoding :=
  ⟨op, .alu, .alu aluOp, .i, [opc 0x13, f3 n]⟩
def shiftRow (op : Op) (aluOp : AluOp) (n m : Nat) : Encoding :=
  ⟨op, .alu, .alu aluOp, .i, [opc 0x13, f3 n, f7 m]⟩
def opRow (op : Op) (opUnit : OpUnit) (subOp : SubOp) (n m : Nat) : Encoding :=
  ⟨op, opUnit, subOp, .r, [opc 0x33, f3 n, f7 m]⟩
def csrRow (op : Op) (csrOp : CsrOp) (f : Format) (n : Nat) : Encoding :=
  ⟨op, .csr, .csr csrOp, f, [opc 0x73, f3 n]⟩
def sysRow (op : Op) (opUnit : OpUnit) (subOp : SubOp) (n : Nat) : Encoding :=
  ⟨op, opUnit, subOp, .sys, [opc 0x73, f3 0, ⟨20, 12, n⟩] ++ noRegs⟩

/-- All listings but that of `fence.i`. -/
def baseEncodings : List Encoding :=
  [⟨.lui, .alu, .alu .lui, .u, [opc 0x37]⟩, ⟨.auipc, .alu, .alu .auipc, .u, [opc 0x17]⟩,
    ⟨.jal, .bru, .bru .jal, .j, [opc 0x6f]⟩, ⟨.jalr, .bru, .bru .jalr, .i, [opc 0x67, f3 0]⟩,
    branchRow .beq .beq 0, branchRow .bne .bne 1, branchRow .blt .blt 4, branchRow .bge .bge 5,
    branchRow .bltu .bltu 6, branchRow .bgeu .bgeu 7,
    loadRow .lb .lb 0, loadRow .lh .lh 1, loadRow .lw .lw 2, loadRow .lbu .lbu 4,
    loadRow .lhu .lhu 5, storeRow .sb .sb 0, storeRow .sh .sh 1, storeRow .sw .sw 2,
    immRow .addi .add 0, immRow .slti .slt 2, immRow .sltiu .sltu 3, immRow .xori .xor 4,
    immRow .ori .or 6, immRow .andi .and 7, shiftRow .slli .sll 1 0, shiftRow .srli .srl 5 0,
    shiftRow .srai .sra 5 0x20,
    opRow .add .alu (.alu .add) 0 0, opRow .sub .alu (.alu .sub) 0 0x20,
    opRow .sll .alu (.alu .sll) 1 0, opRow .slt .alu (.alu .slt) 2 0,
    opRow .sltu .alu (.alu .sltu) 3 0, opRow .xor .alu (.alu .xor) 4 0,
    opRow .srl .alu (.alu .srl) 5 0, opRow .sra .alu (.alu .sra) 5 0x20,
    opRow .or .alu (.alu .or) 6 0, opRow .and .alu (.alu .and) 7 0,
    opRow .mul .mul (.mul .mul) 0 1, opRow .mulh .mul (.mul .mulh) 1 1,
    opRow .mulhsu .mul (.mul .mulhsu) 2 1, opRow .mulhu .mul (.mul .mulhu) 3 1,
    opRow .div .div (.div .div) 4 1, opRow .divu .div (.div .divu) 5 1,
    opRow .rem .div (.div .rem) 6 1, opRow .remu .div (.div .remu) 7 1,
    ⟨.fence, .alu, .alu .fence, .fence, [opc 0x0f, f3 0, ⟨28, 4, 0⟩] ++ noRegs⟩,
    sysRow .ecall .alu (.alu .ecall) 0, sysRow .ebreak .alu (.alu .ebreak) 1,
    sysRow .mret .bru (.bru .mret) 0x302,
    csrRow .csrrw .csrrw .csr 1, csrRow .csrrs .csrrs .csr 2, csrRow .csrrc .csrrc .csr 3,
    csrRow .csrrwi .csrrw .csrImm 5, csrRow .csrrsi .csrrs .csrImm 6,
    csrRow .csrrci .csrrc .csrImm 7]

/-- The listing of `fence.i` fixes its opcode and `funct3`; the other fields are reserved. -/
def fenceI : Encoding := ⟨.fenceI, .alu, .alu .fenceI, .sys, [opc 0x0f, f3 1]⟩

/-- `fence.i` as software is to write it, with the reserved fields zero. -/
def fenceIZero : Encoding := { fenceI with fixed := [opc 0x0f, f3 1, ⟨20, 12, 0⟩] ++ noRegs }

/-- What a decoded operation says of the operands of a row. -/
structure Encoding.Agrees (e : Encoding) (v : Word) (d : DecodeInfo) : Prop where
  op : d.op = e.op
  opUnit : d.opUnit = e.opUnit
  subOp : d.subOp = e.subOp
  rd : (if d.rdEnable then some d.rd else none) = e.format.rd v
  rs1 : (if d.arg1Src = .reg then some d.rs1 else none) = e.format.rs1 v
  rs2 : (if d.arg2Src = .reg then some d.rs2 else none) = e.format.rs2 v
  csr : ∀ a, e.format.csrAddr v = some a → d.csr = a
  imm : ∀ x, e.format.imm v = some x → d.imm = x

end MyRiscvCore
