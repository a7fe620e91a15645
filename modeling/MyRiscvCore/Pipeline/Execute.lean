import MyRiscvCore.Pipeline.Issue

/-!
# MyRiscvCore — the execute units and write-back

`execute/alu.cpp`, `bru.cpp`, `csr.cpp`, `div.cpp`, `lsu.cpp`, `mul.cpp` and `wb.cpp`. Every unit
takes one pack from its FIFO per cycle and puts the result on its write-back port; all but the LSU
are pure functions of the pack (and, for the BRU and the CSR unit, of the CSR file). A store that
finds the store buffer full stays in the LSU's hold register and puts out nothing.

What a unit computes and what it does with an invalid pack differ: the ALU turns an invalid pack into
an illegal-instruction exception, the others pass it on as it is.
-/

namespace MyRiscvCore

namespace Execute

/-- The record a unit starts its result from: the fields copied from the pack. -/
def base (p : IssueExecutePack) : ExecuteWbPack where
  toReadregIssueOp := p.toReadregIssueOp
  bruJump := false
  bruNextPc := 0
  rdValue := 0
  csrNewvalue := 0
  csrNewvalueValid := false

/-! ## ALU -/

/-- `sub_op.alu_op` of the union. -/
def aluOpOf : SubOp → AluOp
  | .alu op => op
  | _ => .add

/-- The `rd_value` of an ALU operation. -/
def aluValue (op : AluOp) (p : IssueExecutePack) : Word :=
  let a := p.src1Value
  let b := p.src2Value
  let shamt := (b &&& 0x1f).toNat
  match op with
  | .add => a + b
  | .and => a &&& b
  | .auipc => p.imm + p.pc
  | .ebreak | .ecall | .fence | .fenceI => 0
  | .lui => p.imm
  | .or => a ||| b
  | .sll => a <<< shamt
  | .slt => if a.slt b then 1 else 0
  | .sltu => if a.ult b then 1 else 0
  | .sra => a.sshiftRight shamt
  | .srl => a >>> shamt
  | .sub => a - b
  | .xor => a ^^^ b

/-- `alu::run` on a pack. -/
def alu (p : IssueExecutePack) : ExecuteWbPack :=
  if p.enable && !p.hasException then
    if !p.valid then
      { base p with
        hasException := true, exceptionId := .illegalInstruction, exceptionValue := 0 }
    else
      let r := { base p with rdValue := aluValue (aluOpOf p.subOp) p }
      match aluOpOf p.subOp with
      | .ebreak => { r with
          hasException := true, exceptionId := .breakpoint, exceptionValue := 0 }
      | .ecall => { r with
          hasException := true, exceptionId := .environmentCallFromMMode, exceptionValue := 0 }
      | _ => r
  else base p

/-! ## MUL and DIV -/

/-- `sub_op.mul_op` of the union. -/
def mulOpOf : SubOp → MulOp
  | .mul op => op
  | _ => .mul

/-- `mul::run` on a pack. -/
def mul (p : IssueExecutePack) : ExecuteWbPack :=
  if p.enable && p.valid then
    let sa : BitVec 64 := p.src1Value.signExtend 64
    let sb : BitVec 64 := p.src2Value.signExtend 64
    let ua : BitVec 64 := p.src1Value.setWidth 64
    let ub : BitVec 64 := p.src2Value.setWidth 64
    let value := match mulOpOf p.subOp with
      | .mul => (sa * sb).setWidth 32
      | .mulh => ((sa * sb) >>> 32).setWidth 32
      | .mulhsu => ((sa * ub) >>> 32).setWidth 32
      | .mulhu => ((ua * ub) >>> 32).setWidth 32
    { base p with rdValue := value }
  else base p

/-- `sub_op.div_op` of the union. -/
def divOpOf : SubOp → DivOp
  | .div op => op
  | _ => .div

/-- `div::run` on a pack. -/
def div (p : IssueExecutePack) : ExecuteWbPack :=
  if p.enable && p.valid then
    let a := p.src1Value
    let b := p.src2Value
    let overflow := a == 0x80000000 && b == 0xFFFFFFFF
    let value := match divOpOf p.subOp with
      | .div => if b == 0 then 0xFFFFFFFF else if overflow then 0x80000000 else a.sdiv b
      | .divu => if b == 0 then 0xFFFFFFFF else a / b
      | .rem => if b == 0 then a else if overflow then 0 else a.srem b
      | .remu => if b == 0 then a else a % b
    { base p with rdValue := value }
  else base p

/-! ## BRU -/

/-- `sub_op.bru_op` of the union. -/
def bruOpOf : SubOp → BruOp
  | .bru op => op
  | _ => .beq

/-- Whether a valid branch operation is taken. -/
def bruJump (op : BruOp) (a b : Word) : Bool :=
  match op with
  | .beq => a == b
  | .bge => b.sle a
  | .bgeu => b.ule a
  | .blt => a.slt b
  | .bltu => a.ult b
  | .bne => a != b
  | .jal | .jalr | .mret => true

/-- The target of a valid branch operation. -/
def bruTarget (op : BruOp) (mepc : Word) (p : IssueExecutePack) : Word :=
  match op with
  | .jalr => (p.imm + p.src1Value) &&& ~~~1
  | .mret => mepc
  | _ => p.pc + p.imm

/-- `bru::run` on a pack; `mepc` is `csr_file->read_sys(CSR_MEPC)`. -/
def bru (mepc : Word) (p : IssueExecutePack) : ExecuteWbPack :=
  if p.enable && p.valid then
    let op := bruOpOf p.subOp
    let jump := bruJump op p.src1Value p.src2Value
    { base p with
      bruJump := jump
      bruNextPc := if jump then bruTarget op mepc p else p.pc + 4
      rdValue := if op = .jal ∨ op = .jalr then p.pc + 4 else 0 }
  else { base p with bruNextPc := p.pc + 4 }

/-- The predictor update of `bru::run`. -/
def bruGuess (predictor : BranchPredictor) (checkpointBuffer : Fifo Checkpoint)
    (r : ExecuteWbPack) : BranchPredictor :=
  if r.valid && r.checkpointIdValid then
    predictor.updatePredictionBruGuess (checkpointBuffer.getItem r.checkpointId) r.pc r.value
      r.bruJump (r.predictedJump == r.bruJump)
  else predictor

/-! ## CSR unit -/

/-- `sub_op.csr_op` of the union. -/
def csrOpOf : SubOp → CsrOp
  | .csr op => op
  | _ => .csrrc

/-- The value a CSR instruction writes. -/
def csrNew (op : CsrOp) (old src : Word) : Word :=
  match op with
  | .csrrc => old &&& ~~~src
  | .csrrs => old ||| src
  | .csrrw => src

/-- `csr::run` on a pack. The prediction fields are copied only from an invalid pack; a write is
suppressed when the argument is the register `x0`. -/
def csr (file : Csrfile) (p : IssueExecutePack) : ExecuteWbPack :=
  let r := { base p with toPredictInfo := default }
  if !p.enable then r
  else if p.valid then
    match file.read p.csr with
    | none => { r with
        hasException := true, exceptionId := .illegalInstruction, exceptionValue := 0 }
    | some old =>
      let r := { r with rdValue := old }
      if p.arg1Src == .reg && !p.rs1NeedMap then r
      else if !Csrfile.writeCheck p.csr then
        { r with
          hasException := true, exceptionId := .illegalInstruction, exceptionValue := p.value }
      else
        { r with csrNewvalue := csrNew (csrOpOf p.subOp) old p.src1Value, csrNewvalueValid := true }
  else base p

/-! ## LSU -/

/-- The value a load puts out: the buffered stores laid over the bus value, extended. -/
def loadValue (bus : Bus) (storeBuffer : StoreBuffer) (op : LsuOp) (addr : Word) :
    Except Halt Word := do
  let busValue ← bus.read addr (Issue.lsuSize op)
  let value ← storeBuffer.getFeedbackValue addr (Issue.lsuSize op) busValue
  match op with
  | .lb => return signExtend value 8
  | .lh => return signExtend value 16
  | _ => return value

/-- The data of a store item. -/
def storeData (op : LsuOp) (src2 : Word) : Word :=
  match op with
  | .sb => src2 &&& 0xff
  | .sh => src2 &&& 0xffff
  | _ => src2

/-- The item a store pushes. -/
def storeItem (op : LsuOp) (p : IssueExecutePack) : StoreBufferItem where
  enable := true
  committed := false
  robId := p.robId
  pc := p.pc
  addr := p.lsuAddr
  data := storeData op p.src2Value
  size := Issue.lsuSize op

/-- What the LSU does with a pack: the result, the pack to hold, and the item to push. -/
def lsu (bus : Bus) (storeBuffer : StoreBuffer) (p : IssueExecutePack) :
    Except Halt (ExecuteWbPack × Option IssueExecutePack × List StoreBufferItem) := do
  let op := Issue.lsuOpOf p.subOp
  if p.enable && p.valid && !p.hasException then
    if Issue.isStore op then
      if storeBuffer.isFull then return ({ base p with enable := false }, some p, [])
      else return (base p, none, [storeItem op p])
    else
      let value ← loadValue bus storeBuffer op p.lsuAddr
      return ({ base p with rdValue := value }, none, [])
  else return (base p, none, [])

/-! ## One cycle of the execute stage -/

/-- `assert(fifo->pop(&rev_pack))`, which every unit does if its FIFO is not empty. -/
def takePack (file : SourceFile) (fifo : Fifo IssueExecutePack) :
    Except Halt (Option (IssueExecutePack × Fifo IssueExecutePack)) := do
  if fifo.isEmpty then return none
  else
    assert file fifo.pop.isSome
    return fifo.pop

/-- A unit that takes a pack from its FIFO and answers at once. -/
def runUnit (file : SourceFile) (f : IssueExecutePack → ExecuteWbPack) (fifo : Fifo IssueExecutePack)
    (flushing : Bool) : Except Halt (Fifo IssueExecutePack × ExecuteWbPack) := do
  if flushing then return (fifo, default)
  else
    match ← takePack file fifo with
    | some (p, fifo) => return (fifo, f p)
    | none => return (fifo, default)

/-- What the LSU leaves: its FIFO, its hold register (`busy` and `hold_rev_pack`), its port and the
pushed items. -/
structure LsuOut where
  fifo : Fifo IssueExecutePack
  hold : Option IssueExecutePack
  port : ExecuteWbPack
  pushes : List StoreBufferItem

/-- `lsu::run`. -/
def runLsu (bus : Bus) (storeBuffer : StoreBuffer) (fifo : Fifo IssueExecutePack)
    (hold : Option IssueExecutePack) (flushing : Bool) : Except Halt LsuOut := do
  if flushing then return ⟨fifo, none, default, []⟩
  else
    match hold with
    | some p =>
      let (r, hold, pushes) ← lsu bus storeBuffer p
      return ⟨fifo, hold, r, pushes⟩
    | none =>
      match ← takePack .executeLsu fifo with
      | some (p, fifo) =>
        let (r, hold, pushes) ← lsu bus storeBuffer p
        return ⟨fifo, hold, r, pushes⟩
      | none => return ⟨fifo, none, default, []⟩

/-- What the execute stage leaves: the write-back ports are in channel order. -/
structure Out where
  fifos : UnitFifos
  hold : Option IssueExecutePack
  ports : List ExecuteWbPack
  pushes : List StoreBufferItem
  predictor : BranchPredictor

/-- The eight `run` calls of `main.cpp`, in channel order: two ALUs, BRU, CSR unit, divider, LSU,
two multipliers. -/
def run (fifos : UnitFifos) (hold : Option IssueExecutePack) (csrFile : Csrfile) (bus : Bus)
    (storeBuffer : StoreBuffer) (predictor : BranchPredictor) (checkpointBuffer : Fifo Checkpoint)
    (fb : CommitFeedbackPack) : Except Halt Out := do
  let mepc ← csrFile.readSys csrMepc
  let alu0 ← runUnit .executeAlu alu (fifos .alu 0) fb.flushing
  let alu1 ← runUnit .executeAlu alu (fifos .alu 1) fb.flushing
  let bru0 ← runUnit .executeBru (bru mepc) (fifos .bru 0) fb.flushing
  let csr0 ← runUnit .executeCsr (csr csrFile) (fifos .csr 0) fb.flushing
  let div0 ← runUnit .executeDiv div (fifos .div 0) fb.flushing
  let lsu0 ← runLsu bus storeBuffer (fifos .lsu 0) hold fb.flushing
  let mul0 ← runUnit .executeMul mul (fifos .mul 0) fb.flushing
  let mul1 ← runUnit .executeMul mul (fifos .mul 1) fb.flushing
  return {
    fifos := ((((((((fifos.set .alu 0 alu0.1).set .alu 1 alu1.1).set .bru 0 bru0.1).set .csr 0
      csr0.1).set .div 0 div0.1).set .lsu 0 lsu0.fifo).set .mul 0 mul0.1).set .mul 1 mul1.1)
    hold := lsu0.hold
    ports := [alu0.2, alu1.2, bru0.2, csr0.2, div0.2, lsu0.port, mul0.2, mul1.2]
    pushes := lsu0.pushes
    predictor := bruGuess predictor checkpointBuffer bru0.2 }

end Execute

/-! ## Write-back -/

namespace Wb

/-- `wb::run`: the write-back-to-commit port, the queued register writes and the feedback. -/
def run (ports : List ExecuteWbPack) (fb : CommitFeedbackPack) :
    List ExecuteWbPack × List Regfile.Request × List FeedbackChannel :=
  if !fb.flushing then
    (ports,
      (ports.filter (·.writesRd)).map fun p => .write p.rdPhy p.rdValue true,
      ports.map fun p => if p.writesRd then p.feedback else default)
  else (ports.map fun _ => default, [], ports.map fun _ => default)

end Wb

end MyRiscvCore
