import MyRiscvCore.Spec.Arithmetic
import MyRiscvCore.Pipeline.DecodeExact
import Mathlib.Tactic.Linarith

/-!
# MyRiscvCore — what the ALU, the multiplier and the divider compute

* `rv32i_computation` — an OP, OP-IMM, LUI or AUIPC word, decoded, with the operands that the readreg stage
  selects for it, makes the ALU put out the value the specification gives;
* `rv32m_arithmetic` — the multiplier and the divider compute products, quotients and remainders, and their
  expressions have a meaning in the host language for all operands.
-/

namespace MyRiscvCore

/-! ## The ALU

Each operation of the unit is the one that the specification writes down with numbers. -/

section Shifts

variable (a : Word) (n : Nat)

theorem shiftLeft_eq : a <<< n = shiftLeft a n := by
  refine BitVec.eq_of_toNat_eq ?_
  rw [shiftLeft, BitVec.toNat_shiftLeft, BitVec.toNat_ofNat, Nat.shiftLeft_eq]

theorem ushiftRight_eq : a >>> n = shiftRightLogical a n := by
  refine BitVec.eq_of_toNat_eq ?_
  have hlt : a.toNat / 2 ^ n < 2 ^ 32 := (Nat.div_le_self _ _).trans_lt a.isLt
  rw [shiftRightLogical, BitVec.toNat_ushiftRight, BitVec.toNat_ofNat, Nat.shiftRight_eq_div_pow,
    Nat.mod_eq_of_lt hlt]

theorem sshiftRight_eq : a.sshiftRight n = shiftRightArith a n := by
  show BitVec.ofInt 32 (a.toInt >>> n) = _
  rw [shiftRightArith, Int.shiftRight_eq_div_pow]
  push_cast
  rfl

/-- The mask of the ALU takes the shift amount of a register. -/
theorem shamt_reg (b : Word) : (b &&& 0x1f).toNat = shamtR b := by
  rw [BitVec.toNat_and, show (0x1f : Word).toNat = 2 ^ 5 - 1 from rfl, Nat.and_two_pow_sub_one_eq_mod]
  rfl

/-- It takes the shift amount of the word from the immediate, with the bits of `funct7` above it. -/
theorem shamt_imm (v : Word) : (immI v &&& 0x1f).toNat = shamtI v := by
  have hbits : immI v &&& 0x1f = (v.extractLsb' 20 5).setWidth 32 := by
    refine BitVec.eq_of_getLsbD_eq fun i hi => ?_
    rw [immI, BitVec.getLsbD_and, BitVec.getLsbD_signExtend, BitVec.getLsbD_setWidth,
      BitVec.getLsbD_extractLsb', BitVec.getLsbD_extractLsb', show (0x1f : Word) = BitVec.ofNat 32 (2 ^ 5 - 1) from rfl,
      BitVec.getLsbD_ofNat, Nat.testBit_two_pow_sub_one]
    by_cases h : i < 5
    · simp [h, hi, show i < 12 by omega]
    · simp [h]
  rw [hbits]
  exact Bits.toNat_setWidth_of_le (by decide)

theorem slt_eq (b : Word) : (if a.slt b then 1 else 0 : Word) = setLess (a.toInt < b.toInt) := by
  simp [setLess, BitVec.slt]

theorem ult_eq (b : Word) : (if a.ult b then 1 else 0 : Word) = setLess (a.toNat < b.toNat) := by
  simp [setLess, BitVec.ult]

end Shifts

/-- What the ALU gets for an operation: the register operands it has, the immediate and the pc. -/
structure AluOperands (p : IssueExecutePack) (v pc a b : Word) : Prop where
  src1 : p.arg1Src = .reg → p.src1Value = a
  src2 : p.arg2Src = .reg → p.src2Value = b
  src2Imm : p.arg2Src = .imm → p.src2Value = p.imm
  pc : p.pc = pc

/-- The immediate that decode gives an arithmetic instruction. -/
def aluImm (op : Op) (v : Word) : Word :=
  match op with
  | .lui | .auipc => immU v
  | _ => immI v

/-- The ALU computes the value of the specification. -/
theorem aluValue_eq {p : IssueExecutePack} {v pc a b x : Word} (h : AluOperands p v pc a b)
    (hshape : Decode.shapeOf p.op = ⟨p.opUnit, p.subOp, p.arg1Src, p.arg2Src⟩)
    (himm : p.imm = aluImm p.op v ∨ p.arg2Src = .reg) (hx : rv32iValue p.op v pc a b = some x) :
    Execute.aluValue (Execute.aluOpOf p.subOp) p = x := by
  -- the shape of the operation tells which operands the ALU reads
  cases hop : p.op <;> rw [hop] at hshape hx <;> simp only [Decode.shapeOf, Decode.Shape.mk.injEq] at hshape <;>
    obtain ⟨-, hsub, ha1, ha2⟩ := hshape <;> rw [← hsub]
  case lui =>
    cases hx
    rw [hop] at himm
    exact himm.resolve_right (by rw [← ha2]; decide)
  case auipc =>
    cases hx
    rw [hop] at himm
    show p.imm + p.pc = _
    rw [himm.resolve_right (by rw [← ha2]; decide), h.pc, BitVec.add_comm]
    rfl
  case addi | slti | sltiu | xori | ori | andi | slli | srli | srai =>
    cases hx
    rw [hop] at himm
    have himm : p.imm = immI v := himm.resolve_right (by rw [← ha2]; decide)
    simp only [Execute.aluOpOf, Execute.aluValue, h.src1 ha1.symm, h.src2Imm ha2.symm, himm, slt_eq, ult_eq,
      shiftLeft_eq, ushiftRight_eq, sshiftRight_eq, shamt_imm]
  case add | sub | sll | slt | sltu | xor | srl | sra | or | and =>
    cases hx
    simp only [Execute.aluOpOf, Execute.aluValue, h.src1 ha1.symm, h.src2 ha2.symm, slt_eq, ult_eq,
      shiftLeft_eq, ushiftRight_eq, sshiftRight_eq, shamt_reg]
  all_goals cases hx

/-- The instructions of each format. -/
def upperOps : List Op := [.lui, .auipc]
def immOps : List Op := [.addi, .slti, .sltiu, .xori, .ori, .andi, .slli, .srli, .srai]
def regOps : List Op := [.add, .sub, .sll, .slt, .sltu, .xor, .srl, .sra, .or, .and]

/-- The immediate of `lui` and `auipc`, and that of the others. -/
theorem aluImm_upper {op : Op} (h : op ∈ upperOps) (v : Word) : aluImm op v = immU v := by
  simp only [upperOps, List.mem_cons, List.not_mem_nil, or_false] at h
  obtain rfl | rfl := h <;> rfl

theorem aluImm_imm {op : Op} (h : op ∈ immOps) (v : Word) : aluImm op v = immI v := by
  unfold aluImm
  split
  · exact absurd h (by decide)
  · exact absurd h (by decide)
  · rfl

/-- A format with a source register has it in the one field. -/
theorem Format.rs1_field {f : Format} {v : Word} {n : Nat} (h : f.rs1 v = some n) :
    n = (v.extractLsb' 15 5).toNat := by
  cases f <;> cases h <;> rfl

/-- The shift amount is in the field of `rs2`. -/
theorem Format.rs2_field {f : Format} {v : Word} {n : Nat} (h : f.rs2 v = some n) :
    n = (v.extractLsb' 20 5).toNat := by
  cases f <;> cases h <;> rfl

/-- The rows of the table with one of the four opcodes that go to the ALU. -/
theorem aluRow_format : ∀ e ∈ fenceIZero :: baseEncodings, ∃ f ∈ e.fixed, f.lo = 0 ∧ f.width = 7 ∧
    (e.opUnit = .alu → f.value ∈ [0x33, 0x13, 0x37, 0x17] → e ∈ baseEncodings ∧
      (e.op ∈ upperOps ∧ e.format = .u ∨ e.op ∈ immOps ∧ e.format = .i ∨ e.op ∈ regOps ∧ e.format = .r)) := by
  decide

/-- The specification gives these instructions a value, and the ALU no exception. -/
theorem rv32iValue_some {op : Op} (h : op ∈ upperOps ++ immOps ++ regOps) (v pc a b : Word) :
    (∃ x, rv32iValue op v pc a b = some x) ∧
      Execute.aluOpOf (Decode.shapeOf op).subOp ≠ .ecall ∧ Execute.aluOpOf (Decode.shapeOf op).subOp ≠ .ebreak := by
  cases op
  case lui | auipc | addi | slti | sltiu | xori | ori | andi | slli | srli | srai | add | sub | sll | slt | sltu |
      xor | srl | sra | or | and =>
    exact ⟨⟨_, rfl⟩, by decide, by decide⟩
  all_goals exact absurd h (by decide)

/-- The unit on an operation that raises no exception. -/
theorem alu_plain {p : IssueExecutePack} (hen : p.enable = true) (hexc : p.hasException = false)
    (hv : p.valid = true) (hecall : Execute.aluOpOf p.subOp ≠ .ecall)
    (hebreak : Execute.aluOpOf p.subOp ≠ .ebreak) :
    Execute.alu p = { Execute.base p with rdValue := Execute.aluValue (Execute.aluOpOf p.subOp) p } := by
  unfold Execute.alu
  rw [hen, hexc, hv]
  simp only [Bool.not_false, Bool.and_self, if_true, Bool.not_true, Bool.false_eq_true, if_false]

/-- The value of a register argument: `x0` is not mapped and reads 0. -/
def regOperand (reg : Nat → Word) (needMap : Bool) (rs : Nat) (src : ArgSrc) (imm : Word) : Word :=
  if needMap then reg rs else if src = .imm then imm else 0

/-- The operand that readreg selects when the register has its data. -/
theorem readOperand_eq {regfile : Regfile} {chs : Channels} {reg : Nat → Word} {needMap : Bool}
    {phy rs : Nat} {src : ArgSrc} {imm : Word}
    (hreg : needMap = true → regfile.read phy = .ok (reg rs) ∧ regfile.readDataValid phy = .ok true) :
    Readreg.readOperand regfile chs needMap phy src imm = .ok (regOperand reg needMap rs src imm, true) := by
  unfold Readreg.readOperand regOperand
  cases needMap with
  | true =>
    obtain ⟨hread, hvalid⟩ := hreg rfl
    simp [hread, hvalid, bind, Except.bind, pure, Except.pure]
  | false =>
    rw [if_neg Bool.false_ne_true, if_neg Bool.false_ne_true]
    split_ifs <;> rfl

/-- Register `x0` is not mapped and reads as zero. -/
theorem regOperand_reg {reg : Nat → Word} {needMap : Bool} {rs : Nat} {src : ArgSrc} {imm : Word}
    (hzero : reg 0 = 0) (hsrc : src = .reg) (h : needMap = (src == .reg && decide (rs > 0))) :
    regOperand reg needMap rs src imm = reg rs := by
  subst hsrc
  unfold regOperand
  by_cases hrs : rs = 0
  · simp [h, hrs, hzero]
  · simp [h, Nat.pos_of_ne_zero hrs]

/-- The result of an OP, OP-IMM, LUI or AUIPC instruction is the one of the specification. -/
theorem rv32i_computation {v pc : Word} {op : RenameReadregOp} {chs : Channels} {regfile : Regfile}
    {reg : Nat → Word} (hop : op.toDecodeInfo = Decode.decodeWord pc v false) (hexc : op.hasException = false)
    (hvalid : op.valid = true) (hunit : op.opUnit = .alu)
    (hopcode : (v.extractLsb' 0 7).toNat ∈ [0x33, 0x13, 0x37, 0x17]) (hzero : reg 0 = 0)
    (hrs1 : op.rs1NeedMap = true →
      regfile.read op.rs1Phy = .ok (reg op.rs1) ∧ regfile.readDataValid op.rs1Phy = .ok true)
    (hrs2 : op.rs2NeedMap = true →
      regfile.read op.rs2Phy = .ok (reg op.rs2) ∧ regfile.readDataValid op.rs2Phy = .ok true) :
    ∃ i r e, Readreg.readOp regfile chs op = .ok i ∧ i.src1Loaded = true ∧ i.src2Loaded = true ∧
      r = Execute.alu (Issue.sendPack i (i.src1Value, i.src1Loaded) (i.src2Value, i.src2Loaded)) ∧
      r.hasException = false ∧ e ∈ baseEncodings ∧ e.Matches v ∧
      rv32iValue e.op v pc (reg (v.extractLsb' 15 5).toNat) (reg (v.extractLsb' 20 5).toNat) =
        some r.rdValue := by
  -- the row of the word
  have hjalr : ¬ LooseJalr v := fun h => by rw [h.1] at hopcode; revert hopcode; decide
  rw [hop] at hvalid
  obtain ⟨e, he, hm⟩ := (decodeWord_exact pc v hjalr).1.mp hvalid
  have hag := (decodeWord_exact pc v hjalr).2 e he hm
  obtain ⟨f, hf, hlo, hwidth, hrow⟩ := aluRow_format e he
  have hopc : f.value ∈ [0x33, 0x13, 0x37, 0x17] := by
    have := hm f hf
    rw [hlo, hwidth] at this
    rwa [← this]
  have hunit' : e.opUnit = .alu := by rw [← hag.opUnit, ← hop, hunit]
  obtain ⟨hbase, hformat⟩ := hrow hunit' hopc
  have hmem : e.op ∈ upperOps ++ immOps ++ regOps := by
    rw [List.mem_append, List.mem_append]
    obtain ⟨h, -⟩ | ⟨h, -⟩ | ⟨h, -⟩ := hformat
    · exact .inl (.inl h)
    · exact .inl (.inr h)
    · exact .inr h
  obtain ⟨hshape, -⟩ := Decode.shaped_decodeWord pc v false hvalid
  have hsound := Decode.sound_decodeWord pc v false
  rw [← hop] at hag hshape hsound hvalid
  obtain ⟨⟨x, hx⟩, hecall, hebreak⟩ :=
    rv32iValue_some hmem v pc (reg (v.extractLsb' 15 5).toNat) (reg (v.extractLsb' 20 5).toNat)
  rw [← hag.op, hshape] at hecall hebreak
  rw [← hag.op] at hx
  -- the operands of the row
  have hneed1 : op.rs1NeedMap = (op.arg1Src == .reg && decide (op.rs1 > 0)) := by rw [hop]; rfl
  have hneed2 : op.rs2NeedMap = (op.arg2Src == .reg && decide (op.rs2 > 0)) := by rw [hop]; rfl
  let x1 := regOperand reg op.rs1NeedMap op.rs1 op.arg1Src op.imm
  let x2 := regOperand reg op.rs2NeedMap op.rs2 op.arg2Src op.imm
  let p := Issue.sendPack ⟨op, x1, true, x2, true⟩ (x1, true) (x2, true)
  have hp : p = ⟨⟨op, x1, true, x2, true⟩, 0⟩ := by
    simp [p, Issue.sendPack, hunit]
  have hread : Readreg.readOp regfile chs op = .ok ⟨op, x1, true, x2, true⟩ := by
    unfold Readreg.readOp
    rw [hsound.enable, hvalid, readOperand_eq hrs1, readOperand_eq hrs2]
    rfl
  have hoperands : AluOperands p v pc (reg (v.extractLsb' 15 5).toNat) (reg (v.extractLsb' 20 5).toNat) := by
    rw [hp]
    refine ⟨fun h => ?_, fun h => ?_, fun h => ?_, hsound.pc_eq⟩
    · have hrs := hag.rs1
      rw [if_pos h] at hrs
      rw [← Format.rs1_field hrs.symm]
      exact regOperand_reg hzero h hneed1
    · have hrs := hag.rs2
      rw [if_pos h] at hrs
      rw [← Format.rs2_field hrs.symm]
      exact regOperand_reg hzero h hneed2
    · show regOperand reg op.rs2NeedMap op.rs2 op.arg2Src op.imm = op.imm
      rw [hneed2, h]
      rfl
  have himm : p.imm = aluImm p.op v ∨ p.arg2Src = .reg := by
    rw [hp]
    show op.imm = aluImm op.op v ∨ op.arg2Src = .reg
    rw [hag.op]
    obtain ⟨h, hf⟩ | ⟨h, hf⟩ | ⟨-, hf⟩ := hformat
    · rw [aluImm_upper h]
      exact .inl (hag.imm _ (by rw [hf]; rfl))
    · rw [aluImm_imm h]
      exact .inl (hag.imm _ (by rw [hf]; rfl))
    · have hrs := hag.rs2
      rw [hf] at hrs
      exact .inr (by by_contra h; rw [if_neg h] at hrs; cases hrs)
  have hvalue : Execute.alu p = { Execute.base p with rdValue := x } := by
    rw [alu_plain (by rw [hp]; exact hsound.enable) (by rw [hp]; exact hexc) (by rw [hp]; exact hvalid)
      (by rw [hp]; exact hecall) (by rw [hp]; exact hebreak),
      aluValue_eq hoperands (by rw [hp]; exact hshape) himm (by rw [hp]; exact hx)]
  refine ⟨_, Execute.alu p, e, hread, rfl, rfl, rfl, ?_, hbase, hm, ?_⟩
  · rw [hvalue, hp]
    exact hexc
  · rw [hvalue, ← hag.op]
    exact hx

/-- `srai x1, x2, 4`, with the value of `x2` in physical register 3. -/
theorem rv32i_computation_srai :
    ∃ i r e, Readreg.readOp ⟨fun _ => 0x80000000, fun _ => true⟩ []
        ⟨⟨Decode.decodeWord 8 0x40415093 false, default, default⟩, 0, 3, 0, 5⟩ = .ok i ∧
      i.src1Loaded = true ∧ i.src2Loaded = true ∧
      r = Execute.alu (Issue.sendPack i (i.src1Value, i.src1Loaded) (i.src2Value, i.src2Loaded)) ∧
      r.hasException = false ∧ e ∈ baseEncodings ∧ e.Matches 0x40415093 ∧
      rv32iValue e.op 0x40415093 8 0x80000000 0x80000000 = some r.rdValue :=
  @rv32i_computation _ _ _ _ _ (fun n => if n = 0 then 0 else 0x80000000) rfl rfl (by decide) (by decide) (by decide)
    rfl (fun _ => ⟨rfl, rfl⟩) (fun h => absurd h (by decide))

/-! ## The multiplier and the divider

The source computes in 64 bits and converts; `Host` keeps its conversions and what they leave undefined. -/

/-- An operation for a unit, with its operands. -/
def operandPack (subOp : SubOp) (a b : Word) : IssueExecutePack :=
  { (default : IssueExecutePack) with
    enable := true, valid := true, subOp := subOp, src1Value := a, src2Value := b }

/-- The result of the multiplier and of the divider. -/
def mulOut (op : MulOp) (a b : Word) : Word := (Execute.mul (operandPack (.mul op) a b)).rdValue
def divOut (op : DivOp) (a b : Word) : Word := (Execute.div (operandPack (.div op) a b)).rdValue

section Product

variable (a b : Word)

theorem setWidth_and_low (x : BitVec 64) : (x &&& 0xffffffff).setWidth 32 = x.setWidth 32 := by
  refine BitVec.eq_of_toNat_eq ?_
  rw [BitVec.toNat_setWidth, BitVec.toNat_setWidth, BitVec.toNat_and,
    show (0xffffffff : BitVec 64).toNat = 2 ^ 32 - 1 from rfl, Nat.and_two_pow_sub_one_eq_mod, Nat.mod_mod]

theorem toInt_range : -2147483648 ≤ a.toInt ∧ a.toInt < 2147483648 := ⟨BitVec.le_toInt a, BitVec.toInt_lt⟩

/-- The product of two factors in these ranges is a signed 64-bit number. -/
theorem product_range {x y : Int} (hx : -2147483648 ≤ x ∧ x < 2147483648)
    (hy : -2147483648 ≤ y ∧ y < 4294967296) : -2 ^ 63 ≤ x * y ∧ x * y < 2 ^ 63 := by
  constructor <;> rcases le_total 0 y with h | h <;> rcases le_total 0 x with h' | h' <;> nlinarith

theorem toInt_product : -2 ^ 63 ≤ a.toInt * b.toInt ∧ a.toInt * b.toInt < 2 ^ 63 := by
  have hb := toInt_range b
  exact product_range (toInt_range a) ⟨hb.1, by omega⟩

/-- A product of two words fits into 64 bits, whatever the signs. -/
theorem signed_product : (a.signExtend 64 * b.signExtend 64).toInt = a.toInt * b.toInt := by
  have hrange := toInt_product a b
  rw [BitVec.toInt_mul, BitVec.toInt_signExtend_of_le (by omega), BitVec.toInt_signExtend_of_le (by omega)]
  exact Int.bmod_eq_of_le (by omega) (by omega)

/-- Also the one that `mulhsu` takes half of. -/
theorem mixed_product : (a.signExtend 64 * b.setWidth 64).toInt = a.toInt * b.toNat := by
  have hb := b.isLt
  have hrange := product_range (toInt_range a) (y := b.toNat) ⟨by omega, by omega⟩
  have hub : (b.setWidth 64).toInt = b.toNat := by
    rw [BitVec.toInt_setWidth]
    exact Int.bmod_eq_of_le (by omega) (by omega)
  rw [BitVec.toInt_mul, BitVec.toInt_signExtend_of_le (by omega), hub]
  exact Int.bmod_eq_of_le (by omega) (by omega)

theorem unsigned_product : (a.setWidth 64 * b.setWidth 64).toNat = a.toNat * b.toNat := by
  have ha := a.isLt
  have hb := b.isLt
  have hlt : a.toNat * b.toNat < 2 ^ 64 := by nlinarith
  rw [BitVec.toNat_mul, BitVec.toNat_setWidth, BitVec.toNat_setWidth,
    Nat.mod_eq_of_lt (by omega : a.toNat < 2 ^ 64), Nat.mod_eq_of_lt (by omega : b.toNat < 2 ^ 64),
    Nat.mod_eq_of_lt hlt]

theorem setWidth_signExtend : (a.signExtend 64).setWidth 32 = a := by
  refine BitVec.eq_of_getLsbD_eq fun i hi => ?_
  rw [BitVec.getLsbD_setWidth, BitVec.getLsbD_signExtend]
  simp [hi, show i < 64 by omega]

theorem setWidth_setWidth_64 : (a.setWidth 64).setWidth 32 = a := by
  refine BitVec.eq_of_getLsbD_eq fun i hi => ?_
  rw [BitVec.getLsbD_setWidth, BitVec.getLsbD_setWidth]
  simp [hi, show i < 64 by omega]

/-- The low word of a product does not depend on the signs. -/
theorem low_product {x y : BitVec 64} (hx : x.setWidth 32 = a) (hy : y.setWidth 32 = b) :
    (a.signExtend 64 * b.signExtend 64).setWidth 32 = (x * y).setWidth 32 := by
  rw [BitVec.setWidth_mul _ _ (by decide), BitVec.setWidth_mul _ _ (by decide), setWidth_signExtend,
    setWidth_signExtend, hx, hy]

end Product

section Quotient

variable (a b : Word)

theorem sdiv_eq_ofInt : a.sdiv b = BitVec.ofInt 32 (a.toInt.tdiv b.toInt) := by
  refine BitVec.eq_of_toInt_eq ?_
  rw [BitVec.toInt_sdiv, BitVec.toInt_ofInt]

theorem srem_eq_ofInt : a.srem b = BitVec.ofInt 32 (a.toInt.tmod b.toInt) := by
  rw [← BitVec.toInt_srem, BitVec.ofInt_toInt]

/-- Quotient and remainder belong together. -/
theorem sdiv_mul_add_srem : a.sdiv b * b + a.srem b = a := by
  calc a.sdiv b * b + a.srem b
      = BitVec.ofInt 32 (a.toInt.tdiv b.toInt * b.toInt + a.toInt.tmod b.toInt) := by
        rw [BitVec.ofInt_add, BitVec.ofInt_mul, BitVec.ofInt_toInt, ← sdiv_eq_ofInt, ← srem_eq_ofInt]
    _ = a := by rw [Int.tdiv_mul_add_tmod, BitVec.ofInt_toInt]

theorem udiv_mul_add_umod : a / b * b + a % b = a := by
  refine BitVec.eq_of_toNat_eq ?_
  rw [BitVec.toNat_add, BitVec.toNat_mul, BitVec.toNat_udiv, BitVec.toNat_umod, Nat.mod_add_mod,
    Nat.div_add_mod', Nat.mod_eq_of_lt a.isLt]

theorem toInt_ne_zero {b : Word} (hb : b ≠ 0) : b.toInt ≠ 0 := fun h =>
  hb (BitVec.eq_of_toInt_eq (h.trans BitVec.toInt_zero.symm))

/-- The remainder is smaller than the divisor. -/
theorem srem_natAbs_lt {b : Word} (hb : b ≠ 0) : (a.srem b).toInt.natAbs < b.toInt.natAbs := by
  rw [BitVec.toInt_srem, Int.natAbs_tmod]
  exact Nat.mod_lt _ (Int.natAbs_pos.mpr (toInt_ne_zero hb))

/-- A remainder has the sign of the dividend. -/
theorem srem_sign : (0 ≤ a.toInt → 0 ≤ (a.srem b).toInt) ∧ (a.toInt ≤ 0 → (a.srem b).toInt ≤ 0) := by
  rw [BitVec.toInt_srem]
  refine ⟨Int.tmod_nonneg _, fun ha => ?_⟩
  have hneg := Int.tmod_nonneg b.toInt (Int.neg_nonneg_of_nonpos ha)
  rw [Int.neg_tmod] at hneg
  omega

end Quotient

/-- The arithmetic of the M extension for these operands. -/
structure Rv32m (a b : Word) : Prop where
  mulDefined : ∀ op, Host.mulExpr op a b = some (mulOut op a b)
  divDefined : ∀ op, Host.divExpr op a b = some (divOut op a b)
  signedProduct : (mulOut .mulh a b ++ mulOut .mul a b).toInt = a.toInt * b.toInt
  unsignedProduct : (mulOut .mulhu a b ++ mulOut .mul a b).toNat = a.toNat * b.toNat
  mixedProduct : (mulOut .mulhsu a b ++ mulOut .mul a b).toInt = a.toInt * b.toNat
  signedDivision : divOut .div a b * b + divOut .rem a b = a
  unsignedDivision : divOut .divu a b * b + divOut .remu a b = a
  signedRemainder : b ≠ 0 → ¬ (a = 0x80000000 ∧ b = 0xFFFFFFFF) →
    (divOut .rem a b).toInt.natAbs < b.toInt.natAbs ∧
      (0 ≤ a.toInt → 0 ≤ (divOut .rem a b).toInt) ∧ (a.toInt ≤ 0 → (divOut .rem a b).toInt ≤ 0)
  unsignedRemainder : b ≠ 0 → (divOut .remu a b).toNat < b.toNat
  byZero : b = 0 → divOut .div a b = 0xFFFFFFFF ∧ divOut .rem a b = a ∧
    divOut .divu a b = 0xFFFFFFFF ∧ divOut .remu a b = a
  overflow : a = 0x80000000 → b = 0xFFFFFFFF → divOut .div a b = 0x80000000 ∧ divOut .rem a b = 0

section Units

variable (a b : Word)

/-- The expressions of the multiplier are defined and give its results. -/
theorem mulExpr_eq (op : MulOp) : Host.mulExpr op a b = some (mulOut op a b) := by
  have hmul : Host.mulI64 a.toInt b.toInt = some (a.toInt * b.toInt) := if_pos (toInt_product a b)
  have hsigned : BitVec.ofInt 64 (a.toInt * b.toInt) = a.signExtend 64 * b.signExtend 64 := by
    rw [BitVec.ofInt_mul]
    rfl
  cases op with
  | mul =>
    rw [Host.mulExpr, hmul, Option.map_some, hsigned, setWidth_and_low]
    rfl
  | mulh =>
    rw [Host.mulExpr, hmul, Option.map_some, hsigned, setWidth_and_low]
    rfl
  | mulhsu =>
    rw [Host.mulExpr, setWidth_and_low, BitVec.ofNat_toNat]
    rfl
  | mulhu =>
    rw [Host.mulExpr, setWidth_and_low, BitVec.ofNat_toNat, BitVec.ofNat_toNat]
    rfl

/-- The results of the divider, with the two special cases. -/
theorem divOut_eq : divOut .div a b = (if b = 0 then 0xFFFFFFFF else
      if a = 0x80000000 ∧ b = 0xFFFFFFFF then 0x80000000 else a.sdiv b) ∧
    divOut .rem a b = (if b = 0 then a else
      if a = 0x80000000 ∧ b = 0xFFFFFFFF then 0 else a.srem b) ∧
    divOut .divu a b = (if b = 0 then 0xFFFFFFFF else a / b) ∧
    divOut .remu a b = if b = 0 then a else a % b := by
  simp only [divOut, Execute.div, operandPack, Execute.divOpOf, Bool.and_self, if_true, beq_iff_eq, Bool.and_eq_true,
    and_self]

/-- Where the divider divides, the host language has a quotient and a remainder. -/
theorem signed_defined {a b : Word} (hb : b ≠ 0) (ho : ¬ (a = 0x80000000 ∧ b = 0xFFFFFFFF)) :
    ¬ (b.toInt = 0 ∨ (a.toInt = -2 ^ 31 ∧ b.toInt = -1)) := by
  rintro (h | ⟨ha, h⟩)
  · exact toInt_ne_zero hb h
  · exact ho ⟨BitVec.eq_of_toInt_eq ha, BitVec.eq_of_toInt_eq h⟩

/-- Its expressions are defined, since the special cases are caught before. -/
theorem divExpr_eq (op : DivOp) : Host.divExpr op a b = some (divOut op a b) := by
  obtain ⟨hdiv, hrem, hdivu, hremu⟩ := divOut_eq a b
  by_cases hb : b = 0
  · cases op <;> simp [Host.divExpr, hb, divOut_eq]
  have hnat : b.toNat ≠ 0 := fun h => hb (BitVec.eq_of_toNat_eq h)
  cases op with
  | divu =>
    rw [Host.divExpr, hdivu, if_neg hb, if_neg hb, Host.divU32, if_neg hnat, Option.map_some,
      ← BitVec.toNat_udiv, BitVec.ofNat_toNat, BitVec.setWidth_eq]
  | remu =>
    rw [Host.divExpr, hremu, if_neg hb, if_neg hb, BitVec.ofInt_toInt, BitVec.ofInt_toInt, Host.remU32,
      if_neg hnat, Option.map_some, ← BitVec.toNat_umod, BitVec.ofNat_toNat, BitVec.setWidth_eq]
  | div =>
    rw [Host.divExpr, hdiv, if_neg hb, if_neg hb]
    split_ifs with ho
    · rfl
    · rw [Host.divI32, if_neg (signed_defined hb ho), Option.map_some, sdiv_eq_ofInt]
  | rem =>
    rw [Host.divExpr, hrem, if_neg hb, if_neg hb]
    split_ifs with ho
    · rfl
    · rw [Host.remI32, if_neg (signed_defined hb ho), Option.map_some, srem_eq_ofInt]

end Units

/-- The multiplier and the divider compute what the M extension asks for, on all operands. -/
theorem rv32m_arithmetic (a b : Word) : Rv32m a b := by
  obtain ⟨hdiv, hrem, hdivu, hremu⟩ := divOut_eq a b
  -- the two halves of a product
  have hhigh (x : BitVec 64) (hx : mulOut .mul a b = x.setWidth 32) :
      ((x >>> 32).setWidth 32 ++ mulOut .mul a b : BitVec 64) = x := by
    rw [hx]
    exact Bits.append_parts (n := 32) (w := 32) x
  exact {
    mulDefined := mulExpr_eq a b
    divDefined := divExpr_eq a b
    signedProduct := by
      rw [← signed_product, ← hhigh (a.signExtend 64 * b.signExtend 64) rfl]
      rfl
    unsignedProduct := by
      rw [← unsigned_product, ← hhigh _ (low_product a b (setWidth_setWidth_64 a) (setWidth_setWidth_64 b))]
      rfl
    mixedProduct := by
      rw [← mixed_product, ← hhigh _ (low_product a b (setWidth_signExtend a) (setWidth_setWidth_64 b))]
      rfl
    signedDivision := by
      rw [hdiv, hrem]
      split_ifs with hb ho
      · rw [hb]
        simp
      · rw [ho.1, ho.2]
        rfl
      · exact sdiv_mul_add_srem a b
    unsignedDivision := by
      rw [hdivu, hremu]
      split_ifs with hb
      · rw [hb]
        simp
      · exact udiv_mul_add_umod a b
    signedRemainder := by
      intro hb ho
      rw [hrem, if_neg hb, if_neg ho]
      exact ⟨srem_natAbs_lt a hb, srem_sign a b⟩
    unsignedRemainder := by
      intro hb
      rw [hremu, if_neg hb, BitVec.toNat_umod]
      exact Nat.mod_lt _ (Nat.pos_of_ne_zero fun h => hb (BitVec.eq_of_toNat_eq h))
    byZero := by
      intro hb
      exact ⟨hdiv.trans (if_pos hb), hrem.trans (if_pos hb), hdivu.trans (if_pos hb), hremu.trans (if_pos hb)⟩
    overflow := by
      rintro rfl rfl
      exact ⟨rfl, rfl⟩ }

end MyRiscvCore
