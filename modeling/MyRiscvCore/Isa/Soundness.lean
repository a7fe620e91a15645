import MyRiscvCore.Isa.Interpreter

/-!
# MyRiscvCore — one event is one step of the interpreter

An event of the in-order machine comes with the result that an execute unit put out for the operands that decode
selected. `effect_sound` says that it is what the interpreter computes from the word: the decoded fields are those of
the row (`Fits`), and for each kind of instruction the unit's result is the value, the exception and the CSR write of
the specification.
-/

namespace MyRiscvCore

variable {op : Op} {row : Encoding} {p : IssueExecutePack}

namespace Isa

/-! ## Multiplication and division

The source works on 64-bit products; the manual speaks of the upper and lower word. -/

section Arithmetic

theorem low_ofInt (x : BitVec 64) : x.setWidth 32 = BitVec.ofInt 32 x.toInt := by
  apply BitVec.eq_of_toNat_eq
  have hx := x.isLt
  rw [BitVec.toNat_setWidth, BitVec.toNat_ofInt, BitVec.toInt_eq_toNat_cond]
  split_ifs <;> omega

theorem high_ofInt (x : BitVec 64) : (x >>> 32).setWidth 32 = BitVec.ofInt 32 (x.toInt / 2 ^ 32) := by
  apply BitVec.eq_of_toNat_eq
  have hx := x.isLt
  rw [BitVec.toNat_setWidth, BitVec.toNat_ushiftRight, Nat.shiftRight_eq_div_pow, BitVec.toNat_ofInt,
    BitVec.toInt_eq_toNat_cond]
  split_ifs <;> omega

theorem high_ofNat (x : BitVec 64) : (x >>> 32).setWidth 32 = BitVec.ofNat 32 (x.toNat / 2 ^ 32) := by
  apply BitVec.eq_of_toNat_eq
  rw [BitVec.toNat_setWidth, BitVec.toNat_ushiftRight, Nat.shiftRight_eq_div_pow, BitVec.toNat_ofNat]

variable {p : IssueExecutePack} {arg1 arg2 : ArgSrc}

/-- The result of the multiplier. -/
theorem mul_value (hen : p.enable = true) (hv : p.valid = true)
    (hshape : Decode.shapeOf p.op = ⟨.mul, p.subOp, arg1, arg2⟩) :
    rv32mValue p.op p.src1Value p.src2Value = some (Execute.mul p).rdValue := by
  cases hop : p.op <;> rw [hop] at hshape <;> simp only [Decode.shapeOf, Decode.Shape.mk.injEq] at hshape
  case mul | mulh | mulhsu | mulhu =>
    simp only [Execute.mul, hen, hv, ← hshape.2.1, Execute.mulOpOf, rv32mValue, Bool.and_self, if_true,
      ← signed_product, ← mixed_product, ← unsigned_product, ← low_ofInt, ← high_ofInt, ← high_ofNat]
  all_goals exact absurd hshape.1 (by decide)

/-- The overflowing quotient wraps as the manual asks. -/
theorem sdiv_overflow {a b : Word} (h : a = 0x80000000 ∧ b = 0xFFFFFFFF) :
    BitVec.ofInt 32 (a.toInt.tdiv b.toInt) = 0x80000000 ∧ BitVec.ofInt 32 (a.toInt.tmod b.toInt) = 0 := by
  rw [h.1, h.2]
  decide

/-- The result of the divider. -/
theorem div_value (hen : p.enable = true) (hv : p.valid = true)
    (hshape : Decode.shapeOf p.op = ⟨.div, p.subOp, arg1, arg2⟩) :
    rv32mValue p.op p.src1Value p.src2Value = some (Execute.div p).rdValue := by
  have hudiv (a b : Word) : a / b = BitVec.ofNat 32 (a.toNat / b.toNat) := by
    rw [← BitVec.toNat_udiv, BitVec.ofNat_toNat, BitVec.setWidth_eq]
  have humod (a b : Word) : a % b = BitVec.ofNat 32 (a.toNat % b.toNat) := by
    rw [← BitVec.toNat_umod, BitVec.ofNat_toNat, BitVec.setWidth_eq]
  cases hop : p.op <;> rw [hop] at hshape <;> simp only [Decode.shapeOf, Decode.Shape.mk.injEq] at hshape
  case div | rem =>
    simp only [Execute.div, hen, hv, ← hshape.2.1, Execute.divOpOf, rv32mValue, Bool.and_self, if_true, beq_iff_eq,
      Bool.and_eq_true, sdiv_eq_ofInt, srem_eq_ofInt]
    split_ifs with hb ho
    · rfl
    · first | rw [(sdiv_overflow ho).1] | rw [(sdiv_overflow ho).2]
    · rfl
  case divu =>
    simp only [Execute.div, hen, hv, ← hshape.2.1, Execute.divOpOf, rv32mValue, Bool.and_self, if_true, beq_iff_eq,
      hudiv]
    rfl
  case remu =>
    simp only [Execute.div, hen, hv, ← hshape.2.1, Execute.divOpOf, rv32mValue, Bool.and_self, if_true, beq_iff_eq,
      humod]
  all_goals exact absurd hshape.1 (by decide)

end Arithmetic

/-! ## Fields

What the decoder reads is what the row places (`Fits`), so everything that is computed from it agrees. -/

/-- The format of the rows of an operation. -/
def formatOf : Op → Format
  | .lui | .auipc => .u
  | .jal => .j
  | .beq | .bge | .bgeu | .blt | .bltu | .bne => .b
  | .sb | .sh | .sw => .s
  | .csrrw | .csrrs | .csrrc => .csr
  | .csrrwi | .csrrsi | .csrrci => .csrImm
  | .fence => .fence
  | .fenceI | .ecall | .ebreak | .mret => .sys
  | .addi | .slti | .sltiu | .xori | .ori | .andi | .slli | .srli | .srai | .jalr | .lb | .lbu | .lh | .lhu | .lw => .i
  | _ => .r

theorem row_format : ∀ e ∈ fenceIZero :: baseEncodings, e.format = formatOf e.op := by decide

/-- What the machine has decoded is the instruction, in the fields that an operation of its kind has. -/
structure Fits (d i : DecodeInfo) : Prop where
  valid : d.valid = true
  valid' : i.valid = true
  pc : d.pc = i.pc
  op : d.op = i.op
  rdEnable : d.rdEnable = Decode.hasDest i.op
  rd : Decode.hasDest i.op = true → d.rd = i.rd
  rs1 : (Decode.shapeOf i.op).arg1Src = .reg → d.rs1 = i.rs1
  rs2 : (Decode.shapeOf i.op).arg2Src = .reg → d.rs2 = i.rs2
  imm : formatOf i.op ∉ [.r, .csr, .sys] → d.imm = i.imm
  csr : i.op.isCsr = true → d.csr = i.csr

/-- A format has a destination exactly if the decoder enables one. -/
theorem formatOf_rd (op : Op) (v : Word) : ((formatOf op).rd v).isSome = Decode.hasDest op := by
  cases op <;> rfl

/-- The decoder reads a word of the table as its row does. -/
theorem fits_instruction {v : Word} (hrow : row ∈ fenceIZero :: baseEncodings)
    (hm : row.Matches v) (pc : Word) : Fits (Decode.decodeWord pc v false) (instruction row pc v) ∧
      (if (Decode.decodeWord pc v false).rdEnable then some (Decode.decodeWord pc v false).rd else none) =
        row.format.rd v := by
  obtain ⟨hvalid, hag⟩ := encodings_decoded hrow pc v hm
  obtain ⟨hshape, hdest⟩ := Decode.shaped_decodeWord pc v false hvalid
  have hformat := row_format row hrow
  rw [hag.op] at hshape hdest
  -- the row has a destination if the decoder enables one
  have henable : (Decode.decodeWord pc v false).rdEnable = Decode.hasDest row.op := by
    rw [← formatOf_rd row.op v, ← hformat, ← hag.rd]
    cases (Decode.decodeWord pc v false).rdEnable <;> rfl
  refine ⟨⟨hvalid, rfl, (Decode.sound_decodeWord pc v false).pc_eq, hag.op, henable, fun hd => ?_, fun hs => ?_,
    fun hs => ?_, fun hf => ?_, fun hc => ?_⟩, hag.rd⟩
  · have hrd := hag.rd
    rw [if_pos (hdest hd)] at hrd
    show _ = (row.format.rd v).getD 0
    rw [← hrd, Option.getD_some]
  · have hrs := hag.rs1
    rw [if_pos ((congrArg (·.arg1Src) hshape).symm.trans hs)] at hrs
    show _ = (row.format.rs1 v).getD 0
    rw [← hrs, Option.getD_some]
  · have hrs := hag.rs2
    rw [if_pos ((congrArg (·.arg2Src) hshape).symm.trans hs)] at hrs
    show _ = (row.format.rs2 v).getD 0
    rw [← hrs, Option.getD_some]
  · show _ = (row.format.imm v).getD 0
    have hf : row.format ∉ [.r, .csr, .sys] := by rw [hformat]; exact hf
    obtain ⟨x, hx⟩ : ∃ x, row.format.imm v = some x := by
      cases hfmt : row.format with
      | r | csr | sys => exact absurd (by rw [hfmt]; decide) hf
      | _ => exact ⟨_, rfl⟩
    rw [hx, hag.imm x hx, Option.getD_some]
  · show _ = (row.format.csrAddr v).getD 0
    obtain ⟨a, ha⟩ : ∃ a, row.format.csrAddr v = some a := by
      have hc : row.op.isCsr = true := hc
      rw [hformat]
      cases hop : row.op <;> rw [hop] at hc <;> first | exact ⟨_, rfl⟩ | exact absurd hc (by decide)
    rw [ha, hag.csr a ha, Option.getD_some]

section Fits

variable {d i : DecodeInfo} (h : Fits d i) (regs : Nat → Word)

include h

theorem Fits.successor_eq (mepc : Word) : successor regs mepc d = successor regs mepc i := by
  unfold successor
  rw [h.valid, h.valid', h.op, h.pc]
  cases hop : i.op
  case jal => rw [h.imm (by rw [hop]; decide)]
  case jalr => rw [h.imm (by rw [hop]; decide), h.rs1 (by rw [hop]; decide)]
  case beq | bge | bgeu | blt | bltu | bne =>
    rw [h.imm (by rw [hop]; decide), h.rs1 (by rw [hop]; decide), h.rs2 (by rw [hop]; decide)]
  all_goals rfl

theorem Fits.storeRequests_eq : storeRequests regs d = storeRequests regs i := by
  unfold storeRequests
  rw [h.valid, h.valid', h.op]
  cases hop : i.op
  case sb | sh | sw =>
    rw [h.imm (by rw [hop]; decide), h.rs1 (by rw [hop]; decide), h.rs2 (by rw [hop]; decide)]
  all_goals rfl

theorem Fits.zicsrWrite_eq (old : Word) : zicsrWrite regs d old = zicsrWrite regs i old := by
  unfold zicsrWrite
  rw [h.op]
  cases hop : i.op
  case csrrw | csrrs | csrrc => rw [h.rs1 (by rw [hop]; decide)]
  case csrrwi | csrrsi | csrrci => rw [h.imm (by rw [hop]; decide)]
  all_goals rfl

theorem Fits.misjudged_iff : MisjudgedSource d ↔ MisjudgedSource i := by
  unfold MisjudgedSource
  rw [h.op]
  cases hop : i.op
  case csrrw | csrrs | csrrc => rw [h.rs1 (by rw [hop]; decide)]; simp
  case csrrwi | csrrsi | csrrci => rw [h.imm (by rw [hop]; decide)]; simp
  all_goals simp

theorem Fits.addr_eq (hacc : i.op.isAccess = true) :
    sourceReg regs d.rs1 + d.imm = sourceReg regs i.rs1 + i.imm := by
  have himm : formatOf i.op ∉ [.r, .csr, .sys] := by
    cases hop : i.op <;> rw [hop] at hacc <;> first | decide | exact absurd hacc (by decide)
  have hsrc : (Decode.shapeOf i.op).arg1Src = .reg := by
    obtain ⟨lsuOp, arg2, hs, -⟩ := Op.access_shape hacc
    rw [hs]
  rw [h.imm himm, h.rs1 hsrc]

end Fits

/-- What the unit puts out, told by what it would write. -/
theorem csr_cases (file : Csrfile) (hen : p.enable = true) (hv : p.valid = true)
    (hexc : p.hasException = false) :
    (file.read p.csr = none → (Execute.csr file p).toExceptionInfo = ⟨true, .illegalInstruction, 0⟩) ∧
    ∀ old, file.read p.csr = some old → (Execute.csr file p).rdValue = old ∧
      (unitWrite p old = none →
        (Execute.csr file p).hasException = false ∧ (Execute.csr file p).csrNewvalueValid = false) ∧
      ∀ new, unitWrite p old = some new →
        (Csrfile.writeCheck p.csr = true → (Execute.csr file p).hasException = false ∧
          (Execute.csr file p).csrNewvalueValid = true ∧ (Execute.csr file p).csrNewvalue = new) ∧
        (Csrfile.writeCheck p.csr = false →
          (Execute.csr file p).toExceptionInfo = ⟨true, .illegalInstruction, p.value⟩) := by
  have hbase : (Execute.base p).hasException = false := hexc
  rw [Execute.csr, hen, hv]
  simp only [Bool.not_true, Bool.false_eq_true, if_false, if_true]
  refine ⟨fun hread => by rw [hread], fun old hread => ?_⟩
  rw [hread]
  simp only [unitWrite]
  split_ifs with hsrc hwrite
  all_goals simp_all [Execute.base]

theorem zicsrWrite_isSome (regs : Nat → Word) (d : DecodeInfo) (old old' : Word) :
    (zicsrWrite regs d old).isSome = (zicsrWrite regs d old').isSome := by
  unfold zicsrWrite
  cases d.op
  case csrrs | csrrc | csrrsi | csrrci => split_ifs <;> rfl
  all_goals rfl

/-- What an instruction that does not look at the old value writes. -/
theorem zicsrWrite_onlyWrites {regs : Nat → Word} {d : DecodeInfo} (h : onlyWrites d = true) (old old' : Word) :
    zicsrWrite regs d old = zicsrWrite regs d old' := by
  unfold onlyWrites at h
  unfold zicsrWrite
  cases hop : d.op
  case csrrs | csrrc | csrrsi | csrrci => rw [hop] at h; simp at h
  all_goals rfl

section Result

variable {st : InOrder} {e : Entry} {r : ExecuteWbPack} {i : DecodeInfo}

theorem archPack_info (regs : Nat → Word) (op : RenameReadregOp) :
    (archPack regs op).toDecodeInfo = op.toDecodeInfo := by
  rw [archPack, packOf_info]

/-- Only loads and stores get an exception on their way to the unit. -/
theorem archPack_hasException (hpack : PackOk e.op.toDecodeRenamePack) (hv : e.op.valid = true)
    (hunit : e.op.opUnit ≠ .lsu) (regs : Nat → Word) : (archPack regs e.op).hasException = false := by
  rw [archPack, packOf_exception (by simp [hunit]), hpack.noException hv]

/-- The CSR instruction: what it reads, and what the unit makes of it. -/
theorem csr_result (hc : Computes st.arch st.csr e r) (hfit : Fits e.op.toDecodeInfo i) (hop : i.op.isCsr = true)
    (hmis : ¬ MisjudgedSource i) : ∃ file : Csrfile, (∀ a, StableCsr a → file.value a = st.csr a) ∧
    (file.read i.csr = none → r.toExceptionInfo = ⟨true, .illegalInstruction, 0⟩) ∧
    ∀ old, file.read i.csr = some old → r.rdValue = old ∧
      (zicsrWrite st.arch.regs i old = none → r.hasException = false ∧ r.csrNewvalueValid = false) ∧
      ∀ new, zicsrWrite st.arch.regs i old = some new →
        (Csrfile.writeCheck i.csr = true →
          r.hasException = false ∧ r.csrNewvalueValid = true ∧ r.csrNewvalue = new) ∧
        (Csrfile.writeCheck i.csr = false → r.toExceptionInfo = ⟨true, .illegalInstruction, e.op.value⟩) := by
  have hop' : e.op.op.isCsr = true := hfit.op ▸ hop
  obtain ⟨hv, -, hunit⟩ := hc.pack.csr_valid hop'
  obtain ⟨file, hfile, rfl⟩ := hc.csr hunit
  have hinfo := archPack_info st.arch.regs e.op
  have hcases := csr_cases file (p := archPack st.arch.regs e.op) (by rw [hinfo]; exact hc.pack.enable)
    (by rw [hinfo]; exact hv) (archPack_hasException hc.pack hv (by rw [hunit]; decide) _)
  have hcsr : (archPack st.arch.regs e.op).csr = i.csr := by rw [hinfo, hfit.csr hop]
  have hvalue : (archPack st.arch.regs e.op).value = e.op.value := by rw [hinfo]
  rw [hcsr, hvalue] at hcases
  have hwrite (old : Word) : unitWrite (archPack st.arch.regs e.op) old = zicsrWrite st.arch.regs i old := by
    have heq := hc.pack.unitWrite_eq hop' st.arch.regs old
    rw [if_neg (fun hm => hmis (hfit.misjudged_iff.mp hm)), hfit.zicsrWrite_eq] at heq
    exact heq
  simp only [hwrite] at hcases
  exact ⟨file, hfile, hcases⟩

/-- The units of the operations that are neither accesses nor CSR instructions. -/
theorem plain_unit (hacc : op.isAccess = false) (hcsr : op.isCsr = false) :
    (Decode.shapeOf op).opUnit ≠ .lsu ∧ (Decode.shapeOf op).opUnit ≠ .csr := by
  cases op <;> first | exact absurd hacc (by decide) | exact absurd hcsr (by decide) | exact ⟨by decide, by decide⟩

theorem ecall_iff : Execute.aluOpOf (Decode.shapeOf op).subOp = .ecall ↔ op = .ecall := by
  cases op <;> simp [Decode.shapeOf, Execute.aluOpOf]

theorem ebreak_iff : Execute.aluOpOf (Decode.shapeOf op).subOp = .ebreak ↔ op = .ebreak := by
  cases op <;> simp [Decode.shapeOf, Execute.aluOpOf]

/-- The pack of an operation that is neither an access nor a CSR instruction. -/
structure Plain (st : InOrder) (p : IssueExecutePack) (i : DecodeInfo) : Prop where
  enable : p.enable = true
  valid : p.valid = true
  hasException : p.hasException = false
  op : p.op = i.op
  shape : Decode.shapeOf p.op = ⟨p.opUnit, p.subOp, p.arg1Src, p.arg2Src⟩
  pc : p.pc = i.pc
  src1 : p.arg1Src = .reg → p.src1Value = sourceReg st.arch.regs i.rs1
  src2 : p.arg2Src = .reg → p.src2Value = sourceReg st.arch.regs i.rs2
  unit : p.opUnit ≠ .lsu ∧ p.opUnit ≠ .csr

/-- An instruction that neither accesses memory nor a CSR is computed from registers alone. -/
theorem plain_pack (hc : Computes st.arch st.csr e r) (hfit : Fits e.op.toDecodeInfo i)
    (hacc : i.op.isAccess = false) (hcsr : i.op.isCsr = false) : Plain st (archPack st.arch.regs e.op) i := by
  have hinfo := archPack_info st.arch.regs e.op
  have hshape := hc.pack.shape hfit.valid
  have hunit := plain_unit hacc hcsr
  rw [← hfit.op, hshape] at hunit
  refine ⟨?_, ?_, archPack_hasException hc.pack hfit.valid hunit.1 _, ?_, ?_, ?_, fun hs => ?_, fun hs => ?_, ?_⟩
  · rw [hinfo]
    exact hc.pack.enable
  · rw [hinfo]
    exact hfit.valid
  · rw [hinfo]
    exact hfit.op
  · rw [hinfo]
    exact hshape
  · rw [hinfo]
    exact hfit.pc
  · rw [hinfo] at hs
    rw [hc.pack.src1Value hfit.valid hs, hfit.rs1 (by rw [← hfit.op, hshape]; exact hs)]
  · rw [hinfo] at hs
    rw [hc.pack.src2Value hfit.valid hs, hfit.rs2 (by rw [← hfit.op, hshape]; exact hs)]
  · rw [hinfo]
    exact hunit

/-- What the units put out for it. -/
theorem Plain.result (h : Plain st p i) (hres : UnitResult p r) :
    (p.opUnit = .alu ∧ r = Execute.alu p) ∨ (p.opUnit = .mul ∧ r = Execute.mul p) ∨
      (p.opUnit = .div ∧ r = Execute.div p) ∨ (p.opUnit = .bru ∧ ∃ mepc, r = Execute.bru mepc p) := by
  unfold UnitResult at hres
  cases hu : p.opUnit with
  | alu => exact .inl ⟨rfl, by simpa only [hu] using hres⟩
  | mul => exact .inr (.inl ⟨rfl, by simpa only [hu] using hres⟩)
  | div => exact .inr (.inr (.inl ⟨rfl, by simpa only [hu] using hres⟩))
  | bru => exact .inr (.inr (.inr ⟨rfl, by simpa only [hu] using hres⟩))
  | lsu => exact absurd hu h.unit.1
  | csr => exact absurd hu h.unit.2

/-- Such an instruction traps only as `ecall` or `ebreak`. -/
theorem Plain.exception (h : Plain st p i) (hres : UnitResult p r) :
    (i.op = .ecall → r.toExceptionInfo = ⟨true, .environmentCallFromMMode, 0⟩) ∧
    (i.op = .ebreak → r.toExceptionInfo = ⟨true, .breakpoint, 0⟩) ∧
    (i.op ≠ .ecall → i.op ≠ .ebreak → r.hasException = false) := by
  have hunit : (Decode.shapeOf i.op).opUnit = p.opUnit := by rw [← h.op, h.shape]
  have hsub : p.subOp = (Decode.shapeOf i.op).subOp := by rw [← h.op, h.shape]
  have hother (hne : p.opUnit ≠ .alu) : i.op ≠ .ecall ∧ i.op ≠ .ebreak := by
    constructor <;> rintro hop <;> rw [hop] at hunit <;> exact hne hunit.symm
  -- only the ALU raises one, for `ecall` and `ebreak`
  obtain ⟨-, rfl⟩ | ⟨hu, rfl⟩ | ⟨hu, rfl⟩ | ⟨hu, mepc, rfl⟩ := h.result hres
  · refine ⟨fun hop => ?_, fun hop => ?_, fun hne hne' => ?_⟩
    · rw [Execute.alu, h.enable, h.hasException, h.valid, hsub, ecall_iff.mpr hop]
      rfl
    · rw [Execute.alu, h.enable, h.hasException, h.valid, hsub, ebreak_iff.mpr hop]
      rfl
    · rw [alu_plain h.enable h.hasException h.valid (by rw [hsub]; exact fun heq => hne (ecall_iff.mp heq))
        (by rw [hsub]; exact fun heq => hne' (ebreak_iff.mp heq))]
      exact h.hasException
  all_goals
    obtain ⟨hne, hne'⟩ := hother (by rw [hu]; decide)
    refine ⟨fun hop => absurd hop hne, fun hop => absurd hop hne', fun _ _ => ?_⟩
  · rw [Execute.mul, h.enable, h.valid]
    exact h.hasException
  · rw [Execute.div, h.enable, h.valid]
    exact h.hasException
  · rw [Execute.bru, h.enable, h.valid]
    exact h.hasException

/-- The exception of an instruction. -/
theorem exception_sound (hc : Computes st.arch st.csr e r) (hfit : Fits e.op.toDecodeInfo i)
    (hmis : ¬ MisjudgedSource i) :
    (∀ cause value, exception st i e.op.value = some (cause, value) → r.toExceptionInfo = ⟨true, cause, value⟩) ∧
      (exception st i e.op.value = none → r.hasException = false) := by
  unfold exception
  cases hacc : i.op.isAccess with
  | true =>
    have hacc' : e.op.op.isAccess = true := hfit.op ▸ hacc
    have hex := hc.result.access hc.pack hfit.valid hacc'
    rw [dataAddr, hfit.addr_eq _ hacc, hfit.op] at hex
    simp only [if_true]
    -- an access faults if it is misaligned
    by_cases hal : (sourceReg st.arch.regs i.rs1 + i.imm).toNat % i.op.accessSize.bytes = 0
    · rw [checkAlign_iff.mpr hal] at hex
      rw [if_pos hal]
      exact ⟨fun _ _ h => (by cases h), fun _ => congrArg (·.hasException) hex⟩
    · have hcheck : Bus.checkAlign (sourceReg st.arch.regs i.rs1 + i.imm) i.op.accessSize = false := by
        rw [← Bool.not_eq_true, checkAlign_iff]
        exact hal
      rw [hcheck] at hex
      rw [if_neg hal]
      refine ⟨fun cause value h => ?_, fun h => by cases h⟩
      cases h
      exact hex
  | false =>
    cases hcsr : i.op.isCsr with
    | true =>
      obtain ⟨file, -, hnone, hsome⟩ := csr_result hc hfit hcsr hmis
      simp only [Bool.false_eq_true, if_false, if_true]
      -- a CSR instruction, if the CSR is missing or written read-only
      cases hitem : csrMapTable i.csr with
      | none =>
        refine ⟨fun cause value h => ?_, fun h => by cases h⟩
        cases h
        exact hnone (by rw [Csrfile.read, hitem]; rfl)
      | some item =>
        obtain ⟨-, hread, hwrite⟩ := hsome (file.readItem i.csr item) (by rw [Csrfile.read, hitem]; rfl)
        have hcheck : Csrfile.writeCheck i.csr = !item.readonly := by rw [Csrfile.writeCheck, hitem]
        have hsome := zicsrWrite_isSome st.arch.regs i 0 (file.readItem i.csr item)
        simp only [hsome]
        cases hw : zicsrWrite st.arch.regs i (file.readItem i.csr item) with
        | none => simpa using (hread hw).1
        | some new =>
          obtain ⟨hok, hfail⟩ := hwrite new hw
          rw [hcheck] at hok hfail
          cases hro : item.readonly with
          | false => simpa using (hok (by rw [hro]; rfl)).1
          | true =>
            refine ⟨fun cause value h => ?_, fun h => by cases h⟩
            cases h
            exact hfail (by rw [hro]; rfl)
    | false =>
      obtain ⟨hecall, hebreak, hplain⟩ := (plain_pack hc hfit hacc hcsr).exception hc.result
      simp only [Bool.false_eq_true, if_false]
      -- and the others only if they are meant to
      cases hop : i.op
      case ecall =>
        refine ⟨fun cause value h => ?_, fun h => by cases h⟩
        cases h
        exact hecall hop
      case ebreak =>
        refine ⟨fun cause value h => ?_, fun h => by cases h⟩
        cases h
        exact hebreak hop
      all_goals exact ⟨fun _ _ h => (by cases h), fun _ => hplain (by rw [hop]; decide) (by rw [hop]; decide)⟩

/-- The operations with a destination, by their unit. -/
theorem alu_dest (hunit : (Decode.shapeOf op).opUnit = .alu) (hdest : Decode.hasDest op = true) :
    op ∈ upperOps ++ immOps ++ regOps := by
  cases op <;> first | decide | exact absurd hunit (by decide) | exact absurd hdest (by decide)

/-- The multiplier and the divider take registers only. -/
theorem muldiv_op (hunit : (Decode.shapeOf op).opUnit = .mul ∨ (Decode.shapeOf op).opUnit = .div) :
    ((Decode.shapeOf op).arg1Src = .reg ∧ (Decode.shapeOf op).arg2Src = .reg) ∧
      ∀ v pc a b, computed op v pc a b = (rv32mValue op a b).getD 0 := by
  cases op <;> first | exact ⟨⟨rfl, rfl⟩, fun _ _ _ _ => rfl⟩ | exact absurd hunit (by decide)

theorem bru_dest (hunit : (Decode.shapeOf op).opUnit = .bru) (hdest : Decode.hasDest op = true) :
    op = .jal ∨ op = .jalr := by
  cases op <;> first | exact .inl rfl | exact .inr rfl | exact absurd hunit (by decide) | exact absurd hdest (by decide)

/-- The immediate that the ALU gets is the one of the specification. -/
theorem instruction_imm (hrow : row ∈ fenceIZero :: baseEncodings)
    (hop : row.op ∈ upperOps ++ immOps ++ regOps) (pc v : Word) :
    (formatOf row.op ∉ [.r, .csr, .sys] ∧ (instruction row pc v).imm = aluImm row.op v) ∨
      (Decode.shapeOf row.op).arg2Src = .reg := by
  show (_ ∧ (row.format.imm v).getD 0 = _) ∨ _
  rw [row_format row hrow]
  cases hop' : row.op <;> first | exact .inl ⟨by decide, rfl⟩ | exact .inr rfl | exact absurd (hop' ▸ hop) (by decide)

/-- The value of an operation that is neither an access nor a CSR instruction. -/
theorem Plain.value {pc v : Word}
    (hrow : row ∈ fenceIZero :: baseEncodings) (h : Plain st p (instruction row pc v)) (hres : UnitResult p r)
    (himm : formatOf row.op ∉ [.r, .csr, .sys] → p.imm = (instruction row pc v).imm)
    (hsrc2 : p.arg2Src = .imm → p.src2Value = p.imm) (hdest : Decode.hasDest row.op = true) :
    r.rdValue = computed row.op v pc (sourceReg st.arch.regs (instruction row pc v).rs1)
      (sourceReg st.arch.regs (instruction row pc v).rs2) := by
  have hop : p.op = row.op := h.op
  have hshape := h.shape
  rw [hop] at hshape
  have hunit : (Decode.shapeOf row.op).opUnit = p.opUnit := by rw [hshape]
  -- ALU, multiplier, divider, and the link of a jump
  obtain ⟨hu, rfl⟩ | ⟨hu, rfl⟩ | ⟨hu, rfl⟩ | ⟨hu, mepc, rfl⟩ := h.result hres
  · have hmem := alu_dest (hunit.trans hu) hdest
    obtain ⟨⟨y, hy⟩, hecall, hebreak⟩ := rv32iValue_some hmem v pc
      (sourceReg st.arch.regs (instruction row pc v).rs1) (sourceReg st.arch.regs (instruction row pc v).rs2)
    have hjump : ¬ (row.op = .jal ∨ row.op = .jalr) := by
      rintro (hj | hj) <;> rw [hj] at hmem <;> exact absurd hmem (by decide)
    rw [hshape] at hecall hebreak
    rw [alu_plain h.enable h.hasException h.valid hecall hebreak, computed, if_neg hjump, hy]
    refine aluValue_eq (v := v) ⟨h.src1, h.src2, hsrc2, h.pc⟩ h.shape ?_ (by rw [hop]; exact hy)
    obtain ⟨hf, hi⟩ | hreg := instruction_imm hrow hmem pc v
    · exact .inl (by rw [himm hf, hi, hop])
    · exact .inr (by rw [hshape] at hreg; exact hreg)
  · obtain ⟨hreg, hcomp⟩ := muldiv_op (.inl (hunit.trans hu))
    rw [hshape] at hreg
    rw [hcomp, ← h.src1 hreg.1, ← h.src2 hreg.2, ← hop, mul_value h.enable h.valid (hu ▸ h.shape), Option.getD_some]
  · obtain ⟨hreg, hcomp⟩ := muldiv_op (.inr (hunit.trans hu))
    rw [hshape] at hreg
    rw [hcomp, ← h.src1 hreg.1, ← h.src2 hreg.2, ← hop, div_value h.enable h.valid (hu ▸ h.shape), Option.getD_some]
  · have hjump := bru_dest (hunit.trans hu) hdest
    have hsub : p.subOp = (Decode.shapeOf row.op).subOp := by rw [hshape]
    have hpc : p.pc = pc := h.pc
    rw [computed, if_pos hjump, Execute.bru, h.enable, h.valid, hpc, hsub]
    obtain hj | hj := hjump <;> rw [hj] <;> rfl

theorem src2Value_imm (hpack : PackOk e.op.toDecodeRenamePack) (hv : e.op.valid = true) (hsrc : e.op.arg2Src = .imm)
    (regs : Nat → Word) : (archPack regs e.op).src2Value = e.op.imm := by
  have hneed : e.op.rs2NeedMap = false := by rw [hpack.needMap.2, hsrc]; rfl
  rw [archPack, packOf_src2, operand2, sourceValue, hv, hneed, hsrc]
  rfl

/-- A memory address lies in the region of the memory slave. -/
theorem memoryOffset_eq {addr : Word} {i : Nat} (h : memoryOffset addr = some i) : ∃ info,
    findSlaveInfo slaveInfoList addr = some info ∧ info.slave = .memory ∧ i = (addr - info.base).toNat := by
  unfold memoryOffset at h
  cases hinfo : findSlaveInfo slaveInfoList addr with
  | none => rw [hinfo] at h; cases h
  | some info =>
    rw [hinfo] at h
    by_cases hslave : info.slave = .memory
    · simp only [if_pos hslave, Option.some.injEq] at h
      exact ⟨info, rfl, hslave, h.symm⟩
    · simp only [if_neg hslave] at h
      cases h

/-- A CSR that does not change by itself reads as the program left it. -/
theorem read_stable {file : Csrfile} {a : Nat} {old : Word} (hfile : ∀ a, StableCsr a → file.value a = st.csr a)
    (ha : StableCsr a) (hread : file.read a = some old) : old = st.csr a := by
  unfold Csrfile.read at hread
  cases hitem : csrMapTable a with
  | none => rw [hitem] at hread; cases hread
  | some item =>
    obtain ⟨m, hm⟩ := Csrfile.mask_of_ne hitem ha.2.2
    rw [hitem, Option.map_some, Option.some.injEq, Csrfile.readItem, hm] at hread
    exact hread.symm.trans (hfile a ha)

/-- What a CSR instruction reads, if it does not raise an exception. -/
theorem csr_read {file : Csrfile} (hnone : file.read i.csr = none → r.toExceptionInfo = ⟨true, .illegalInstruction, 0⟩)
    (hx : r.hasException = false) : ∃ old, file.read i.csr = some old := by
  cases hread : file.read i.csr with
  | some old => exact ⟨old, rfl⟩
  | none => exact absurd (congrArg (·.hasException) (hnone hread)) (by simp [hx])

/-- The value of an instruction that writes a register. -/
theorem value_sound {pc v x : Word} (hrow : row ∈ fenceIZero :: baseEncodings)
    (hc : Computes st.arch st.csr e r) (hfit : Fits e.op.toDecodeInfo (instruction row pc v))
    (hmis : ¬ MisjudgedSource (instruction row pc v)) (hx : r.hasException = false)
    (hdest : Decode.hasDest row.op = true) (hrd : (instruction row pc v).rd ≠ 0)
    (hvalue : value st (instruction row pc v) v = some x) : r.rdValue = x := by
  have hop : e.op.op = row.op := hfit.op
  unfold value at hvalue
  cases hload : row.op.isLoad with
  | true =>
    have hacc : row.op.isAccess = true := by rw [Op.isAccess, hload]; rfl
    have haddr := hfit.addr_eq st.arch.regs hacc
    rw [if_pos (show (instruction row pc v).op.isLoad = true from hload), Option.map_eq_some_iff] at hvalue
    obtain ⟨offset, hoff, rfl⟩ := hvalue
    obtain ⟨info, hinfo, hslave, rfl⟩ := memoryOffset_eq hoff
    rw [← haddr] at hinfo ⊢
    rw [hc.loadedValue hfit.valid (hop ▸ hload) hx hinfo hslave, hop]
    rfl
  | false =>
    rw [if_neg (show ¬ (instruction row pc v).op.isLoad = true by simpa [instruction] using hload)] at hvalue
    cases hcsr : row.op.isCsr with
    | true =>
      -- the old value of the CSR, which no other instruction in flight can change
      have honly : onlyWrites (instruction row pc v) = false := by simp [onlyWrites, hrd]
      rw [if_pos (show (instruction row pc v).op.isCsr = true from hcsr), honly] at hvalue
      simp only [Bool.false_eq_true, if_false, Option.ite_none_right_eq_some, Option.some.injEq] at hvalue
      obtain ⟨hstable, rfl⟩ := hvalue
      obtain ⟨file, hfile, hnone, hsome⟩ := csr_result hc hfit hcsr hmis
      obtain ⟨old, hread⟩ := csr_read hnone hx
      rw [(hsome old hread).1]
      exact read_stable hfile hstable hread
    | false =>
      rw [if_neg (show ¬ (instruction row pc v).op.isCsr = true by simpa [instruction] using hcsr),
        Option.some.injEq] at hvalue
      have hacc : row.op.isAccess = false := by
        have hstore : row.op.isStore = false := by
          cases hop' : row.op <;> rw [hop'] at hdest <;> first | rfl | exact absurd hdest (by decide)
        rw [Op.isAccess, hload, hstore]
        rfl
      have hinfo := archPack_info st.arch.regs e.op
      refine ((plain_pack hc hfit hacc hcsr).value hrow hc.result (fun hf => ?_) (fun hs => ?_) hdest).trans hvalue
      · rw [hinfo]
        exact hfit.imm hf
      · rw [hinfo] at hs ⊢
        exact src2Value_imm hc.pack hfit.valid hs _

/-- The CSR writes of an instruction that retires. -/
theorem csrWrites_sound {v x : Word} (hc : Computes st.arch st.csr e r) (hfit : Fits e.op.toDecodeInfo i)
    (hmis : ¬ MisjudgedSource i) (hs : e.status = .finished r) (hx : r.hasException = false)
    (hvalue : value st i v = some x) : retireCsrRequests ⟨st.csr, [], []⟩ e = csrWrites st i := by
  have hunit : r.opUnit = e.op.opUnit := by
    rw [hc.result.sameOp.info, archPack_info]
  have hshape := hc.pack.shape hfit.valid
  rw [hfit.op] at hshape
  have hunit' : (Decode.shapeOf i.op).opUnit = e.op.opUnit := by rw [hshape]
  simp only [retireCsrRequests, hs]
  unfold csrWrites
  cases hcsr : i.op.isCsr with
  | true =>
    have hmret : (e.op.op == .mret) = false := by
      rw [hfit.op]
      cases hop : i.op <;> rw [hop] at hcsr <;> first | rfl | exact absurd hcsr (by decide)
    obtain ⟨file, hfile, hnone, hsome⟩ := csr_result hc hfit hcsr hmis
    obtain ⟨old, hread⟩ := csr_read hnone hx
    obtain ⟨-, hskip, hwrite⟩ := hsome old hread
    -- a write that depends on the old value has read a stable one
    have hold : zicsrWrite st.arch.regs i (st.csr i.csr) = zicsrWrite st.arch.regs i old := by
      have hload : i.op.isLoad = false := by
        cases hop : i.op <;> rw [hop] at hcsr <;> first | rfl | exact absurd hcsr (by decide)
      unfold value at hvalue
      simp only [hload, hcsr, Bool.false_eq_true, if_false, if_true] at hvalue
      cases honly : onlyWrites i with
      | true => exact zicsrWrite_onlyWrites honly _ _
      | false =>
        simp only [honly, Bool.false_eq_true, if_false, Option.ite_none_right_eq_some] at hvalue
        rw [read_stable hfile hvalue.1 hread]
    rw [hmret, Bool.and_false, if_neg Bool.false_ne_true, List.append_nil, if_pos rfl, hold, hfit.csr hcsr]
    cases hw : zicsrWrite st.arch.regs i old with
    | none => rw [(hskip hw).2]; rfl
    | some new =>
      obtain ⟨hok, hfail⟩ := hwrite new hw
      cases hcheck : Csrfile.writeCheck i.csr with
      | true =>
        obtain ⟨-, hv, hn⟩ := hok hcheck
        rw [hv, hn]
        rfl
      | false => exact absurd (congrArg (·.hasException) (hfail hcheck)) (by simp [hx])
  | false =>
    have hno : r.csrNewvalueValid = false := by
      by_contra hv
      obtain ⟨hu, -⟩ := hc.result.csr_write (by simpa using hv)
      rw [archPack_info, ← hunit'] at hu
      revert hu hcsr
      cases i.op <;> decide
    rw [hno, if_neg Bool.false_ne_true, List.nil_append, if_neg Bool.false_ne_true, hunit, ← hunit', hfit.op]
    cases i.op <;> rfl

/-! ## Steps

Each event of a run is the step of the interpreter on the same instruction. -/

/-- A word without exception at its fetch is decoded as it is. -/
theorem decoded (hpack : PackOk e.op.toDecodeRenamePack) (hexc : e.op.hasException = false) :
    e.op.toDecodeInfo = Decode.decodeWord e.op.pc e.op.value false := by
  obtain ⟨p, -, hp⟩ := hpack
  have hpc : e.op.pc = p.pc := by
    rw [show e.op.pc = (Decode.decodePack p).pc from congrArg (·.pc) hp, decodePack_pc]
  have hvalue : e.op.value = p.value := congrArg (·.value) hp
  have hex : e.op.hasException = p.hasException := congrArg (·.hasException) hp
  rw [hpc, hvalue, ← hexc, hex]
  exact congrArg (·.toDecodeInfo) hp

/-- A word that is in no row and not one of the exceptions is an illegal instruction. -/
theorem illegal_sound (hc : Computes st.arch st.csr e r) (hexc : e.op.hasException = false)
    (hrow : lookup e.op.value = none) (hdev : ¬ Deviates e.op.value) :
    r.toExceptionInfo = ⟨true, .illegalInstruction, 0⟩ := by
  have hopcode : ∀ n ∈ [0x63, 0x03, 0x23, 0x67], (e.op.value.extractLsb' 0 7).toNat ≠ n := by
    intro n hn heq
    exact hdev (.inl (by rw [heq]; exact hn))
  have hv : e.op.valid = false := by
    by_contra hv
    have hinfo := decoded hc.pack hexc
    have hvalid : (Decode.decodeWord e.op.pc e.op.value false).valid = true := by
      rw [← hinfo]
      simpa using hv
    obtain ⟨row, hmem, hm⟩ | hj := opcode_accepted hvalid
    · exact absurd hm (by simpa using List.find?_eq_none.mp hrow row hmem)
    · exact hopcode 0x67 (by decide) hj.1
  -- with none of these opcodes a rejected word goes to the ALU
  have hunit : e.op.opUnit = .alu := by
    have hfield {n : Nat} (hn : n ∈ [0x63, 0x03, 0x23, 0x67]) : opcodeOf e.op.value ≠ BitVec.ofNat 32 n := by
      have hlt : n < 2 ^ 32 := by revert n; decide
      exact fun heq => hopcode n hn ((opcodeOf_iff hlt).mp heq)
    have hbru : opcodeOf e.op.value ≠ 0x63 := hfield (n := 0x63) (by decide)
    rw [(hc.pack.rejected hv hexc).2, Decode.rejectedUnit, if_neg hbru, if_neg]
    rintro (h | h)
    · exact hfield (n := 0x03) (by decide) h
    · exact hfield (n := 0x23) (by decide) h
  have hinfo := archPack_info st.arch.regs e.op
  have hexc' : (archPack st.arch.regs e.op).hasException = false := by
    rw [archPack, packOf_exception (by rw [hv]; rfl), hexc]
  have hres := hc.result
  unfold UnitResult at hres
  rw [hinfo, hunit] at hres
  have hres : r = Execute.alu (archPack st.arch.regs e.op) := hres
  rw [hres, Execute.alu, show (archPack st.arch.regs e.op).enable = true by rw [hinfo]; exact hc.pack.enable, hexc',
    show (archPack st.arch.regs e.op).valid = false by rw [hinfo]; exact hv]
  rfl

variable {ev : Event}

/-- An instruction with an exception takes its trap and nothing else. -/
theorem trap_sound {cause : RiscvException} {value : Word} (hpc : e.op.pc = st.arch.pc)
    (hcase : (∃ mepc, ev = .retire st.arch mepc e ∧ r.hasException = false ∧ (e.op.op = .mret → mepc = st.csr csrMepc)) ∨
      ev = .exception st.arch e (st.csr csrMtvec) (exceptionWrites e.op.pc r.toExceptionInfo) ∧ r.hasException = true)
    (hx : r.toExceptionInfo = ⟨true, cause, value⟩) :
    st.step ev = (Effect.trap cause value).apply st ∧ retiredStores [ev] = [] ∧ ev.isRetire = false := by
  obtain ⟨-, -, hno, -⟩ | ⟨rfl, -⟩ := hcase
  · exact absurd (congrArg (·.hasException) hx) (by simp [hno])
  · rw [hpc, hx]
    exact ⟨rfl, rfl, rfl⟩

/-- The registers after an instruction that retires. -/
theorem retire_regs {x : Word} (hpack : PackOk e.op.toDecodeRenamePack)
    (hs : e.status = .finished r) (hx : r.hasException = false) (hv : e.op.valid = true)
    (hrd : (if e.op.rdEnable then some e.op.rd else none) = row.format.rd e.op.value)
    (hvalue : e.op.rdEnable = true → e.op.rd ≠ 0 → r.rdValue = x) (regs : Nat → Word) :
    (if e.writes then Function.update regs e.op.rd (e.value?.getD 0) else regs) =
      writeReg regs ((row.format.rd e.op.value).map (·, x)) := by
  have hval : e.value? = some r.rdValue := by simp [Entry.value?, Entry.result, hs, hx]
  rw [← hrd, Entry.writes, hpack.needRename_eq, hv, hval]
  cases hen : e.op.rdEnable with
  | false => rfl
  | true =>
    by_cases h0 : e.op.rd = 0
    · simp [writeReg, h0]
    · simp [writeReg, h0, Nat.pos_of_ne_zero h0, hvalue hen h0]

/-- Only an `mret` goes to `mepc`. -/
theorem successor_mepc {mepc mepc' : Word} {regs : Nat → Word} (h : i.op = .mret → mepc = mepc') :
    successor regs mepc i = successor regs mepc' i := by
  unfold successor
  cases hop : i.op
  case mret => rw [h hop]
  all_goals rfl

/-- The event of a word is its effect. -/
theorem effect_sound {x : Effect} (h : EventOk st ev) (he : ev.entry? = some e) (hexc : e.op.hasException = false)
    (heff : effect st e.op.value = some x) :
    st.step ev = x.apply st ∧ retiredStores [ev] = x.stores ∧ ev.isRetire = x.completes := by
  obtain ⟨r, hs, hc, hcase⟩ := h.computes he
  unfold effect at heff
  cases hlookup : lookup e.op.value with
  | none =>
    simp only [hlookup, Option.ite_none_left_eq_some, Option.some.injEq] at heff
    obtain ⟨hdev, rfl⟩ := heff
    exact trap_sound hc.pc hcase (illegal_sound hc hexc hlookup hdev)
  | some row =>
    have hrow := List.mem_of_find?_eq_some hlookup
    have hm : row.Matches e.op.value := by simpa using List.find?_some hlookup
    obtain ⟨hfit, hrd⟩ := fits_instruction hrow hm e.op.pc
    rw [← decoded hc.pack hexc] at hfit hrd
    simp only [hlookup, Option.ite_none_left_eq_some, ← hc.pc] at heff
    obtain ⟨hmis, heff⟩ := heff
    obtain ⟨hraise, hno⟩ := exception_sound hc hfit hmis
    cases hexn : exception st (instruction row e.op.pc e.op.value) e.op.value with
    | some cv =>
      simp only [hexn, Option.some.injEq] at heff
      subst heff
      exact trap_sound hc.pc hcase (hraise _ _ hexn)
    | none =>
      have hx := hno hexn
      simp only [hexn, Option.bind_eq_bind, Option.bind_eq_some_iff, Option.ite_none_right_eq_some,
        Option.some.injEq] at heff
      -- without an exception the entry retires
      obtain ⟨y, hvalue, -, rfl⟩ := heff
      obtain ⟨mepc, rfl, -, hmepc⟩ | ⟨-, hx'⟩ := hcase
      · have hregs := retire_regs hc.pack hs hx hfit.valid hrd (fun hen h0 => by
          have hdest := hfit.rdEnable.symm.trans hen
          exact value_sound hrow hc hfit hmis hx hdest (by rw [← hfit.rd hdest]; exact h0) hvalue) st.arch.regs
        have hstores : archStores st.arch.regs e.op = _ := hc.pack.archStores_eq
        rw [hfit.storeRequests_eq] at hstores
        have hnext : archNext st.arch.regs mepc e.op = _ := hc.pack.archNext_eq mepc
        rw [hfit.successor_eq, successor_mepc fun hop => hmepc (hfit.op.trans hop)] at hnext
        refine ⟨?_, (List.append_nil _).trans hstores, rfl⟩
        simp only [InOrder.step, Event.archAfter, Event.csrWrites, Arch.retire, Effect.apply,
          csrWrites_sound hc hfit hmis hs hx hvalue, hregs, hstores, hnext]
      · rw [hx] at hx'
        cases hx'

end Result

end Isa

end MyRiscvCore
