import MyRiscvCore.Pipeline.Pack

/-!
# MyRiscvCore — decode

`decode.cpp`. Each of the up to four instructions of a cycle is decoded on its own, so the stage is
a pure function of the pack, `decodePack`, and a loop that moves packs from the fetch FIFO to the
rename FIFO. The `switch` on the opcode is split into one function per opcode group; every one of
them starts from the record in which only `enable`, `valid` and `pc` are set.
-/

namespace MyRiscvCore

/-- A decoded operation with a unit and its sub-operation. -/
def DecodeInfo.withOp (d : DecodeInfo) (op : Op) (opUnit : OpUnit) (subOp : SubOp) : DecodeInfo :=
  { d with op := op, opUnit := opUnit, subOp := subOp }

/-- The `default: //invalid` branches. -/
def DecodeInfo.invalid (d : DecodeInfo) : DecodeInfo :=
  { d with valid := false }

namespace Decode

/-- `rd` and `rd_enable`. -/
def withRd (d : DecodeInfo) (inst : Word) : DecodeInfo :=
  { d with rd := (rdOf inst).toNat, rdEnable := true }

/-- `rs1` as a register argument. -/
def withRs1 (d : DecodeInfo) (inst : Word) : DecodeInfo :=
  { d with arg1Src := .reg, rs1 := (rs1Of inst).toNat }

/-- `rs2` as a register argument. -/
def withRs2 (d : DecodeInfo) (inst : Word) : DecodeInfo :=
  { d with arg2Src := .reg, rs2 := (rs2Of inst).toNat }

/-- Neither argument comes from a register or the immediate. -/
def noArgs (d : DecodeInfo) : DecodeInfo :=
  { d with arg1Src := .disable, arg2Src := .disable }

/-- `beq bne blt bge bltu bgeu`. -/
def branch (d : DecodeInfo) (inst : Word) : DecodeInfo :=
  let d := { withRs2 (withRs1 d inst) inst with
    opUnit := .bru, imm := signExtend (immBOf inst) 13 }
  if funct3Of inst = 0x0 then d.withOp .beq .bru (.bru .beq)
  else if funct3Of inst = 0x1 then d.withOp .bne .bru (.bru .bne)
  else if funct3Of inst = 0x4 then d.withOp .blt .bru (.bru .blt)
  else if funct3Of inst = 0x5 then d.withOp .bge .bru (.bru .bge)
  else if funct3Of inst = 0x6 then d.withOp .bltu .bru (.bru .bltu)
  else if funct3Of inst = 0x7 then d.withOp .bgeu .bru (.bru .bgeu)
  else d.invalid

/-- `lb lh lw lbu lhu`. -/
def load (d : DecodeInfo) (inst : Word) : DecodeInfo :=
  let d := { withRd (withRs1 d inst) inst with
    opUnit := .lsu, arg2Src := .disable, imm := signExtend (immIOf inst) 12 }
  if funct3Of inst = 0x0 then d.withOp .lb .lsu (.lsu .lb)
  else if funct3Of inst = 0x1 then d.withOp .lh .lsu (.lsu .lh)
  else if funct3Of inst = 0x2 then d.withOp .lw .lsu (.lsu .lw)
  else if funct3Of inst = 0x4 then d.withOp .lbu .lsu (.lsu .lbu)
  else if funct3Of inst = 0x5 then d.withOp .lhu .lsu (.lsu .lhu)
  else d.invalid

/-- `sb sh sw`. -/
def store (d : DecodeInfo) (inst : Word) : DecodeInfo :=
  let d := { withRs2 (withRs1 d inst) inst with
    opUnit := .lsu, imm := signExtend (immSOf inst) 12 }
  if funct3Of inst = 0x0 then d.withOp .sb .lsu (.lsu .sb)
  else if funct3Of inst = 0x1 then d.withOp .sh .lsu (.lsu .sh)
  else if funct3Of inst = 0x2 then d.withOp .sw .lsu (.lsu .sw)
  else d.invalid

/-- `addi slti sltiu xori ori andi slli srli srai`. -/
def opImm (d : DecodeInfo) (inst : Word) : DecodeInfo :=
  let d := { withRd (withRs1 d inst) inst with
    opUnit := .alu, arg2Src := .imm, imm := signExtend (immIOf inst) 12 }
  if funct3Of inst = 0x0 then d.withOp .addi .alu (.alu .add)
  else if funct3Of inst = 0x2 then d.withOp .slti .alu (.alu .slt)
  else if funct3Of inst = 0x3 then d.withOp .sltiu .alu (.alu .sltu)
  else if funct3Of inst = 0x4 then d.withOp .xori .alu (.alu .xor)
  else if funct3Of inst = 0x6 then d.withOp .ori .alu (.alu .or)
  else if funct3Of inst = 0x7 then d.withOp .andi .alu (.alu .and)
  else if funct3Of inst = 0x1 then
    if funct7Of inst = 0x00 then d.withOp .slli .alu (.alu .sll) else d.invalid
  else if funct3Of inst = 0x5 then
    if funct7Of inst = 0x00 then d.withOp .srli .alu (.alu .srl)
    else if funct7Of inst = 0x20 then d.withOp .srai .alu (.alu .sra)
    else d.invalid
  else d.invalid

/-- The operation `base` under `funct7 = 0` and the M operation `m` under `funct7 = 1`. -/
def baseOrM (d : DecodeInfo) (inst : Word) (base m : DecodeInfo → DecodeInfo) : DecodeInfo :=
  if funct7Of inst = 0x00 then base d
  else if funct7Of inst = 0x01 then m d
  else d.invalid

/-- The operation `base` under `funct7 = 0`, `alt` under `0x20` and the M operation `m` under 1. -/
def baseAltOrM (d : DecodeInfo) (inst : Word) (base alt m : DecodeInfo → DecodeInfo) :
    DecodeInfo :=
  if funct7Of inst = 0x00 then base d
  else if funct7Of inst = 0x20 then alt d
  else if funct7Of inst = 0x01 then m d
  else d.invalid

/-- `add sub sll slt sltu xor srl sra or and` and the M extension. -/
def op (d : DecodeInfo) (inst : Word) : DecodeInfo :=
  let d := { withRd (withRs2 (withRs1 d inst) inst) inst with opUnit := .alu }
  if funct3Of inst = 0x0 then
    baseAltOrM d inst (·.withOp .add .alu (.alu .add)) (·.withOp .sub .alu (.alu .sub))
      (·.withOp .mul .mul (.mul .mul))
  else if funct3Of inst = 0x1 then
    baseOrM d inst (·.withOp .sll .alu (.alu .sll)) (·.withOp .mulh .mul (.mul .mulh))
  else if funct3Of inst = 0x2 then
    baseOrM d inst (·.withOp .slt .alu (.alu .slt)) (·.withOp .mulhsu .mul (.mul .mulhsu))
  else if funct3Of inst = 0x3 then
    baseOrM d inst (·.withOp .sltu .alu (.alu .sltu)) (·.withOp .mulhu .mul (.mul .mulhu))
  else if funct3Of inst = 0x4 then
    baseOrM d inst (·.withOp .xor .alu (.alu .xor)) (·.withOp .div .div (.div .div))
  else if funct3Of inst = 0x5 then
    baseAltOrM d inst (·.withOp .srl .alu (.alu .srl)) (·.withOp .sra .alu (.alu .sra))
      (·.withOp .divu .div (.div .divu))
  else if funct3Of inst = 0x6 then
    baseOrM d inst (·.withOp .or .alu (.alu .or)) (·.withOp .rem .div (.div .rem))
  else if funct3Of inst = 0x7 then
    baseOrM d inst (·.withOp .and .alu (.alu .and)) (·.withOp .remu .div (.div .remu))
  else d.invalid

/-- `fence fence.i`. -/
def miscMem (d : DecodeInfo) (inst : Word) : DecodeInfo :=
  if funct3Of inst = 0x0 then
    if rdOf inst = 0 ∧ rs1Of inst = 0 ∧ (inst >>> 28) &&& 0x0f = 0 then
      { (noArgs d).withOp .fence .alu (.alu .fence) with imm := immIOf inst }
    else d.invalid
  else if funct3Of inst = 0x1 then
    if rdOf inst = 0 ∧ rs1Of inst = 0 ∧ immIOf inst = 0 then
      (noArgs d).withOp .fenceI .alu (.alu .fenceI)
    else d.invalid
  else d.invalid

/-- A CSR instruction with a register argument. -/
def csrReg (d : DecodeInfo) (inst : Word) (op : Op) (csrOp : CsrOp) : DecodeInfo :=
  { (withRd (withRs1 d inst) inst).withOp op .csr (.csr csrOp) with
    arg2Src := .disable, csr := (immIOf inst).toNat }

/-- A CSR instruction with an immediate argument, which is the `rs1` field. -/
def csrImm (d : DecodeInfo) (inst : Word) (op : Op) (csrOp : CsrOp) : DecodeInfo :=
  { (withRd d inst).withOp op .csr (.csr csrOp) with
    arg1Src := .imm, imm := rs1Of inst, arg2Src := .disable, csr := (immIOf inst).toNat }

/-- `ecall ebreak mret csrrw csrrs csrrc csrrwi csrrsi csrrci`. -/
def system (d : DecodeInfo) (inst : Word) : DecodeInfo :=
  if funct3Of inst = 0x0 then
    if rdOf inst = 0 ∧ rs1Of inst = 0 then
      if funct7Of inst = 0x00 then
        if rs2Of inst = 0x00 then (noArgs d).withOp .ecall .alu (.alu .ecall)
        else if rs2Of inst = 0x01 then (noArgs d).withOp .ebreak .alu (.alu .ebreak)
        else d.invalid
      else if funct7Of inst = 0x18 then
        if rs2Of inst = 0x02 then (noArgs d).withOp .mret .bru (.bru .mret) else d.invalid
      else d.invalid
    else d.invalid
  else if funct3Of inst = 0x1 then csrReg d inst .csrrw .csrrw
  else if funct3Of inst = 0x2 then csrReg d inst .csrrs .csrrs
  else if funct3Of inst = 0x3 then csrReg d inst .csrrc .csrrc
  else if funct3Of inst = 0x5 then csrImm d inst .csrrwi .csrrw
  else if funct3Of inst = 0x6 then csrImm d inst .csrrsi .csrrs
  else if funct3Of inst = 0x7 then csrImm d inst .csrrci .csrrc
  else d.invalid

/-- The `switch` on the opcode. -/
def opcode (d : DecodeInfo) (inst : Word) : DecodeInfo :=
  if opcodeOf inst = 0x37 then
    { (noArgs (withRd d inst)).withOp .lui .alu (.alu .lui) with imm := immUOf inst }
  else if opcodeOf inst = 0x17 then
    { (noArgs (withRd d inst)).withOp .auipc .alu (.alu .auipc) with imm := immUOf inst }
  else if opcodeOf inst = 0x6f then
    { (noArgs (withRd d inst)).withOp .jal .bru (.bru .jal) with
      imm := signExtend (immJOf inst) 21 }
  else if opcodeOf inst = 0x67 then
    { (withRd (withRs1 d inst) inst).withOp .jalr .bru (.bru .jalr) with
      arg2Src := .disable, imm := signExtend (immIOf inst) 12 }
  else if opcodeOf inst = 0x63 then branch d inst
  else if opcodeOf inst = 0x03 then load d inst
  else if opcodeOf inst = 0x23 then store d inst
  else if opcodeOf inst = 0x13 then opImm d inst
  else if opcodeOf inst = 0x33 then op d inst
  else if opcodeOf inst = 0x0f then miscMem d inst
  else if opcodeOf inst = 0x73 then system d inst
  else d.invalid

/-- The decoded operation of an instruction word: the `switch`, then the fields derived from the
argument sources and the destination. -/
def decodeWord (pc value : Word) (hasException : Bool) : DecodeInfo :=
  let d := opcode { (default : DecodeInfo) with enable := true, valid := !hasException, pc := pc }
    value
  { d with
    rs1NeedMap := d.arg1Src == .reg && d.rs1 > 0
    rs2NeedMap := d.arg2Src == .reg && d.rs2 > 0
    needRename := d.rdEnable && d.rd > 0
    value := value }

/-- The body of the loop, for an enabled pack (fetch pushes no other). -/
def decodePack (p : FetchDecodePack) : DecodeRenamePack where
  toDecodeInfo := decodeWord p.pc p.value p.hasException
  toExceptionInfo := p.toExceptionInfo
  toPredictInfo := p.toPredictInfo

/-- The loop of `decode::run`: pop, decode, push, for up to `rounds` packs. A full rename FIFO is
counted in every remaining round. -/
def decodeLoop : Nat → Fifo FetchDecodePack → Fifo DecodeRenamePack → PerfCounters →
    Fifo FetchDecodePack × Fifo DecodeRenamePack × PerfCounters
  | 0, fd, dr, perf => (fd, dr, perf)
  | rounds + 1, fd, dr, perf =>
    if !fd.isEmpty && !dr.isFull then
      match fd.pop with
      | none => decodeLoop rounds fd dr perf
      | some (revPack, fd') =>
        let sendPack := if revPack.enable then decodePack revPack else default
        decodeLoop rounds fd' ((dr.push sendPack).getD dr) perf
    else if !fd.isEmpty && dr.isFull then
      decodeLoop rounds fd dr
        { perf with decodeRenameFifoFull := perf.decodeRenameFifoFull + 1 }
    else decodeLoop rounds fd dr perf

/-- `decode::run`, with the `idle` feedback. -/
def run (fd : Fifo FetchDecodePack) (dr : Fifo DecodeRenamePack) (perf : PerfCounters)
    (fb : CommitFeedbackPack) :
    (Fifo FetchDecodePack × Fifo DecodeRenamePack × PerfCounters) × Bool :=
  let idle := fd.isEmpty
  if !fb.flushing then (decodeLoop decodeWidth fd dr perf, idle)
  else ((fd, dr.flush, perf), idle)

end Decode

end MyRiscvCore
