import MyRiscvCore.Spec.Encoding

/-!
# MyRiscvCore — the arithmetic of RV32I and RV32M

What the specification says an arithmetic instruction computes, written down over numbers: a word is the
number it stands for, signed or unsigned as the instruction reads it, and the result is the word of the number
computed.

The second part is the arithmetic of the host language, as far as `mul.cpp` and `div.cpp` use it. Signed
operations are partial: the language gives an overflow or a division by zero no meaning.
-/

namespace MyRiscvCore

/-! ## RV32I -/

/-- The immediate of an I-format word. -/
def immI (v : Word) : Word := (v.extractLsb' 20 12).signExtend 32

/-- The immediate of a U-format word. -/
def immU (v : Word) : Word := v.extractLsb' 12 20 ++ 0#12

/-- The shift amount in the word: the low 5 bits of the immediate, whatever the bits above them are. -/
def shamtI (v : Word) : Nat := (v.extractLsb' 20 5).toNat

/-- The shift amount in a register. -/
def shamtR (b : Word) : Nat := b.toNat % 32

def setLess (c : Prop) [Decidable c] : Word := if c then 1 else 0

/-- Logical left and right shift, and arithmetic right shift (which rounds down). -/
def shiftLeft (a : Word) (n : Nat) : Word := BitVec.ofNat 32 (a.toNat * 2 ^ n)
def shiftRightLogical (a : Word) (n : Nat) : Word := BitVec.ofNat 32 (a.toNat / 2 ^ n)
def shiftRightArith (a : Word) (n : Nat) : Word := BitVec.ofInt 32 (a.toInt / 2 ^ n)

/-- The result of an instruction of the formats OP, OP-IMM, LUI and AUIPC with this word at this pc, for the
values `a` of rs1 and `b` of rs2. -/
def rv32iValue (op : Op) (v pc a b : Word) : Option Word :=
  match op with
  | .lui => some (immU v)
  | .auipc => some (pc + immU v)
  | .addi => some (a + immI v)
  | .slti => some (setLess (a.toInt < (immI v).toInt))
  | .sltiu => some (setLess (a.toNat < (immI v).toNat))
  | .xori => some (a ^^^ immI v)
  | .ori => some (a ||| immI v)
  | .andi => some (a &&& immI v)
  | .slli => some (shiftLeft a (shamtI v))
  | .srli => some (shiftRightLogical a (shamtI v))
  | .srai => some (shiftRightArith a (shamtI v))
  | .add => some (a + b)
  | .sub => some (a - b)
  | .sll => some (shiftLeft a (shamtR b))
  | .slt => some (setLess (a.toInt < b.toInt))
  | .sltu => some (setLess (a.toNat < b.toNat))
  | .xor => some (a ^^^ b)
  | .srl => some (shiftRightLogical a (shamtR b))
  | .sra => some (shiftRightArith a (shamtR b))
  | .or => some (a ||| b)
  | .and => some (a &&& b)
  | _ => none

/-! ## The host language -/

namespace Host

/-- The product of two `int64_t`. -/
def mulI64 (x y : Int) : Option Int :=
  if -2 ^ 63 ≤ x * y ∧ x * y < 2 ^ 63 then some (x * y) else none

/-- The quotient of two `int32_t`, rounded to zero. -/
def divI32 (x y : Int) : Option Int :=
  if y = 0 ∨ (x = -2 ^ 31 ∧ y = -1) then none else some (x.tdiv y)

/-- The remainder of two `int32_t`; it has a value where the quotient has one. -/
def remI32 (x y : Int) : Option Int :=
  if y = 0 ∨ (x = -2 ^ 31 ∧ y = -1) then none else some (x.tmod y)

/-- The quotient and the remainder of two `uint32_t`. -/
def divU32 (x y : Nat) : Option Nat := if y = 0 then none else some (x / y)
def remU32 (x y : Nat) : Option Nat := if y = 0 then none else some (x % y)

/-- The `rd_value` expressions of `mul.cpp`. The operands of `mulhsu` are an `int64_t` and a `uint64_t`, so
both are converted to `uint64_t`, whose product wraps. -/
def mulExpr (op : MulOp) (a b : Word) : Option Word :=
  match op with
  | .mul => (mulI64 a.toInt b.toInt).map fun x => (BitVec.ofInt 64 x &&& 0xffffffff).setWidth 32
  | .mulh =>
    (mulI64 a.toInt b.toInt).map fun x => ((BitVec.ofInt 64 x >>> 32) &&& 0xffffffff).setWidth 32
  | .mulhsu =>
    some ((((BitVec.ofInt 64 a.toInt * BitVec.ofNat 64 b.toNat) >>> 32) &&& 0xffffffff).setWidth 32)
  | .mulhu =>
    some ((((BitVec.ofNat 64 a.toNat * BitVec.ofNat 64 b.toNat) >>> 32) &&& 0xffffffff).setWidth 32)

/-- The `rd_value` expressions of `div.cpp`. In `remu` the cast binds the dividend alone; the divisor is an
`int32_t` that the conversion makes a `uint32_t` again. -/
def divExpr (op : DivOp) (a b : Word) : Option Word :=
  match op with
  | .div =>
    if b = 0 then some 0xFFFFFFFF else if a = 0x80000000 ∧ b = 0xFFFFFFFF then some 0x80000000
    else (divI32 a.toInt b.toInt).map (BitVec.ofInt 32)
  | .divu => if b = 0 then some 0xFFFFFFFF else (divU32 a.toNat b.toNat).map (BitVec.ofNat 32)
  | .rem =>
    if b = 0 then some a else if a = 0x80000000 ∧ b = 0xFFFFFFFF then some 0
    else (remI32 a.toInt b.toInt).map (BitVec.ofInt 32)
  | .remu =>
    if b = 0 then some a
    else (remU32 (BitVec.ofInt 32 a.toInt).toNat (BitVec.ofInt 32 b.toInt).toNat).map (BitVec.ofNat 32)

end Host

end MyRiscvCore
