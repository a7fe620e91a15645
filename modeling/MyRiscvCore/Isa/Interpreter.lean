import MyRiscvCore.Properties.Arithmetic
import MyRiscvCore.Properties.Transparency
import MyRiscvCore.Properties.Zicsr

/-!
# MyRiscvCore — the instruction set as an interpreter

What the whole machine is for, as a program: `step` fetches the word at the `pc`, finds its row in the table of
encodings and executes it, one instruction at a time. Nothing of the pipeline is in it. The instructions of RV32IM and
Zicsr are those of the specification; traps and `mret` are entered as the machine does it, which leaves `mstatus` alone
on an exception and does not set `MPIE` on an `mret`.

The interpreter answers nothing where the machine and the specification part (`Deviates`, `MisjudgedSource`, a jump to a
misaligned target), and where a result does not come from the program alone: a load from a device, a CSR that changes by
itself, or a word that was stored to since the last `fence.i`.
-/

namespace MyRiscvCore

namespace Isa

/-! ## Words -/

/-- The row of the table that the word matches. -/
def lookup (v : Word) : Option Encoding :=
  (fenceIZero :: baseEncodings).find? fun e => e.Matches v

/-- The words in which the machine does not do what the specification asks for: it takes a branch, a load or a store
with a reserved `funct3` for an instruction that does nothing, it does not look at the `funct3` of a `jalr`, and it
refuses a `fence.i` with other fields than zero. -/
def Deviates (v : Word) : Prop :=
  (v.extractLsb' 0 7).toNat ∈ [0x63, 0x03, 0x23, 0x67] ∨ fenceI.Matches v

instance (v : Word) : Decidable (Deviates v) := inferInstanceAs (Decidable (_ ∨ _))

/-- The instruction that a row makes of the word. -/
def instruction (e : Encoding) (pc v : Word) : DecodeInfo :=
  { (default : DecodeInfo) with
    valid := true
    pc := pc
    op := e.op
    rd := (e.format.rd v).getD 0
    rs1 := (e.format.rs1 v).getD 0
    rs2 := (e.format.rs2 v).getD 0
    imm := (e.format.imm v).getD 0
    csr := (e.format.csrAddr v).getD 0 }

/-! ## Results -/

/-- The results of the multiplications and divisions, over the numbers that the words stand for. -/
def rv32mValue (op : Op) (a b : Word) : Option Word :=
  match op with
  | .mul => some (BitVec.ofInt 32 (a.toInt * b.toInt))
  | .mulh => some (BitVec.ofInt 32 (a.toInt * b.toInt / 2 ^ 32))
  | .mulhsu => some (BitVec.ofInt 32 (a.toInt * b.toNat / 2 ^ 32))
  | .mulhu => some (BitVec.ofNat 32 (a.toNat * b.toNat / 2 ^ 32))
  | .div => some (if b = 0 then -1 else BitVec.ofInt 32 (a.toInt.tdiv b.toInt))
  | .divu => some (if b = 0 then -1 else BitVec.ofNat 32 (a.toNat / b.toNat))
  | .rem => some (if b = 0 then a else BitVec.ofInt 32 (a.toInt.tmod b.toInt))
  | .remu => some (if b = 0 then a else BitVec.ofNat 32 (a.toNat % b.toNat))
  | _ => none

/-- The result of an instruction that is neither a load nor a CSR instruction, for the values `a` of rs1 and `b` of rs2;
0 if it has none. -/
def computed (op : Op) (v pc a b : Word) : Word :=
  if op = .jal ∨ op = .jalr then pc + 4 else ((rv32iValue op v pc a b).or (rv32mValue op a b)).getD 0

/-- The offset of an address in the memory. -/
def memoryOffset (addr : Word) : Option Nat :=
  match findSlaveInfo slaveInfoList addr with
  | some info => if info.slave = .memory then some (addr - info.base).toNat else none
  | none => none

/-- A CSR instruction that only writes. -/
def onlyWrites (d : DecodeInfo) : Bool :=
  d.rd == 0 && (d.op == .csrrw || d.op == .csrrwi)

/-- What the instruction puts in its destination. -/
def value (st : InOrder) (d : DecodeInfo) (v : Word) : Option Word :=
  let a := sourceReg st.arch.regs d.rs1
  let b := sourceReg st.arch.regs d.rs2
  if d.op.isLoad then (memoryOffset (a + d.imm)).map (loadedValue d.op st.arch.mem)
  else if d.op.isCsr then
    if onlyWrites d then some 0 else if StableCsr d.csr then some (st.csr d.csr) else none
  else some (computed d.op v d.pc a b)

/-- The exception that the instruction raises, with the value for `mtval`. -/
def exception (st : InOrder) (d : DecodeInfo) (v : Word) : Option (RiscvException × Word) :=
  let addr := sourceReg st.arch.regs d.rs1 + d.imm
  if d.op.isAccess then
    if addr.toNat % d.op.accessSize.bytes = 0 then none else some (misalignedCause d.op, addr)
  else if d.op.isCsr then
    match csrMapTable d.csr with
    | none => some (.illegalInstruction, 0)
    | some item =>
      if item.readonly && (zicsrWrite st.arch.regs d 0).isSome then some (.illegalInstruction, v) else none
  else match d.op with
    | .ecall => some (.environmentCallFromMMode, 0)
    | .ebreak => some (.breakpoint, 0)
    | _ => none

/-- What the instruction writes to the CSRs. -/
def csrWrites (st : InOrder) (d : DecodeInfo) : List Csrfile.Request :=
  if d.op.isCsr then ((zicsrWrite st.arch.regs d (st.csr d.csr)).map (.write d.csr)).toList
  else if d.op = .mret then
    [.writeSys csrMstatus (setMie (st.csr csrMstatus) (getMpie (st.csr csrMstatus)))]
  else []

/-! ## Effects -/

/-- What an instruction does: it completes, or it raises an exception. -/
inductive Effect
  | done (dest : Option (Nat × Word)) (stores : List Bus.Request) (csrs : List Csrfile.Request) (next : Word)
  | trap (cause : RiscvException) (value : Word)

/-- `x0` keeps its value. -/
def writeReg (regs : Nat → Word) : Option (Nat × Word) → Nat → Word
  | some (rd, x) => if rd = 0 then regs else Function.update regs rd x
  | none => regs

/-- Trap entry. -/
def enter (st : InOrder) (writes : List Csrfile.Request) : InOrder :=
  ⟨{ st.arch with pc := st.csr csrMtvec }, csrAfter st.csr writes⟩

def Effect.apply (st : InOrder) : Effect → InOrder
  | .done dest stores csrs next =>
    ⟨⟨writeReg st.arch.regs dest, stores.foldl applyStore st.arch.mem, next⟩, csrAfter st.csr csrs⟩
  | .trap cause value => enter st (exceptionWrites st.arch.pc ⟨true, cause, value⟩)

def Effect.stores : Effect → List Bus.Request
  | .done _ stores _ _ => stores
  | .trap _ _ => []

def Effect.completes : Effect → Bool
  | .done _ _ _ _ => true
  | .trap _ _ => false

/-- What the word does in the state. -/
def effect (st : InOrder) (v : Word) : Option Effect :=
  match lookup v with
  | none => if Deviates v then none else some (.trap .illegalInstruction 0)
  | some e =>
    let d := instruction e st.arch.pc v
    if MisjudgedSource d then none
    else match exception st d v with
    | some (cause, value) => some (.trap cause value)
    | none => do
      let x ← value st d v
      let next := successor st.arch.regs (st.csr csrMepc) d
      if next.toNat % 4 = 0 then
        some (.done ((e.format.rd v).map (·, x)) (storeRequests st.arch.regs d) (csrWrites st d) next)
      else none

/-! ## Runs -/

structure State extends InOrder where
  /-- The stores since the last `fence.i`. -/
  unsynced : List Bus.Request

def State.init (env : Env) : State := ⟨InOrder.init env, []⟩

/-- The word at the `pc`. -/
def State.fetch (st : State) : Option Word := do
  let offset ← memoryOffset st.arch.pc
  if st.arch.pc.toNat % 4 = 0 ∧ ∀ r ∈ st.unsynced, ¬ r.Touches st.arch.pc then
    some (st.arch.mem.read offset .word)
  else none

/-- One instruction, or an interrupt that is enabled. -/
def State.step (st : State) : Option RiscvInterrupt → Option State
  | some id =>
    if InterruptEnabled st.csr id then
      some ⟨enter st.toInOrder (interruptWrites st.csr st.arch.pc id), st.unsynced⟩
    else none
  | none => do
    let v ← st.fetch
    let x ← effect st.toInOrder v
    return ⟨x.apply st.toInOrder, if fenceIZero.Matches v then [] else st.unsynced ++ x.stores⟩

/-- The state after this many instructions, with these interrupts between them. -/
def run (env : Env) (inputs : List (Option RiscvInterrupt)) : Option State :=
  inputs.foldlM State.step (State.init env)

end Isa

end MyRiscvCore
