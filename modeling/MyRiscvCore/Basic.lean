import Mathlib.Algebra.Group.Int.Defs
import Mathlib.Algebra.Group.Nat.Defs
import Mathlib.Data.List.Basic
import Mathlib.Logic.Function.Basic

/-!
# MyRiscvCore — words, configuration, and the abort monad

The vocabulary shared by every component and every pipeline stage of the core model:

* `Word` — the 32-bit machine word of `uint32_t` data (pcs, immediates, register values);
* the configuration constants of `config.h` that the modelled code reads;
* the enumerations of `common.h` and `pipeline_common.h`;
* `Halt` — the ways in which a simulated cycle fails to complete. `common.h` redefines `assert` to
  print and `abort()`, in every build, so a violated assertion ends the simulation; a write to the
  character FIFO spins until the terminal side moves, so it may never return.

Identifiers of ring slots and of registers are `Nat`s: the source indexes arrays with them and
guards the uses that matter with assertions, which are kept as assertions here.
-/

namespace MyRiscvCore

/-- The machine word: every `uint32_t` of the source that carries data. -/
abbrev Word := BitVec 32

/-- A byte of memory. -/
abbrev Byte := BitVec 8

/-! ## Configuration (`config.h`) -/

abbrev fetchWidth : Nat := 4
abbrev decodeWidth : Nat := 4
abbrev renameWidth : Nat := 4
abbrev readregWidth : Nat := renameWidth
abbrev issueWidth : Nat := 2
abbrev commitWidth : Nat := 4

abbrev phyRegNum : Nat := 128
abbrev archRegNum : Nat := 32

abbrev fetchDecodeFifoSize : Nat := 256
abbrev decodeRenameFifoSize : Nat := 16
abbrev issueQueueSize : Nat := 16
abbrev robSize : Nat := 64
abbrev checkpointBufferSize : Nat := 256
abbrev storeBufferSize : Nat := 16

/-- `fetch` starts here (`init_pc` of `main.cpp`), and the memory slave is mapped here. -/
abbrev initPc : Word := 0x80000000

/-! ## Aborting -/

/-- The source files whose assertions can end a simulated cycle. -/
inductive SourceFile
  | rat | rob | regfile | csrfile | issueQueue | storeBuffer | checkpointBuffer
  | bus | ras | slaveBase | common
  | commit | rename | issue
  | executeAlu | executeBru | executeCsr | executeDiv | executeLsu | executeMul
  deriving DecidableEq

/-- Why a simulated cycle does not complete. -/
inductive Halt
  /-- An `assert` of this file was violated: the simulator prints and aborts. -/
  | assertion (file : SourceFile)
  /-- `charfifo::filter` waits for the terminal to take or to send a character. -/
  | charfifo
  deriving DecidableEq

/-- `assert(cond)` of `common.h`. -/
def assert (file : SourceFile) (cond : Bool) : Except Halt Unit :=
  if cond then .ok () else .error (.assertion file)

@[simp] theorem assert_true (file : SourceFile) : assert file true = .ok () := rfl

theorem assert_ok {file : SourceFile} {cond : Bool} (h : cond = true) :
    assert file cond = .ok () := by
  rw [h, assert_true]

theorem cond_of_assert {file : SourceFile} {cond : Bool} {x : Unit} (h : assert file cond = .ok x) :
    cond = true := by
  unfold assert at h
  split at h
  · assumption
  · cases h

theorem bind_eq_ok {ε α β : Type} {x : Except ε α} {f : α → Except ε β} {b : β} :
    (x >>= f) = .ok b ↔ ∃ a, x = .ok a ∧ f a = .ok b := by
  cases x with
  | error e =>
    constructor
    · intro h
      cases h
    · rintro ⟨a, h, -⟩
      cases h
  | ok a =>
    constructor
    · intro h
      exact ⟨a, rfl, h⟩
    · rintro ⟨_, ⟨rfl⟩, h⟩
      exact h

/-! ## Enumerations (`common.h`, `pipeline_common.h`) -/

/-- `riscv_exception_t`, the values the core can raise. -/
inductive RiscvException
  | instructionAddressMisaligned | instructionAccessFault | illegalInstruction | breakpoint
  | loadAddressMisaligned | loadAccessFault | storeAmoAddressMisaligned | storeAmoAccessFault
  | environmentCallFromMMode
  deriving DecidableEq, Inhabited

/-- The enumerator's numeric value, as `static_cast<uint32_t>` reads it for `mcause`. -/
def RiscvException.code : RiscvException → Word
  | instructionAddressMisaligned => 0
  | instructionAccessFault => 1
  | illegalInstruction => 2
  | breakpoint => 3
  | loadAddressMisaligned => 4
  | loadAccessFault => 5
  | storeAmoAddressMisaligned => 6
  | storeAmoAccessFault => 7
  | environmentCallFromMMode => 11

/-- `riscv_interrupt_t`, the machine-level sources `interrupt_interface` knows. -/
inductive RiscvInterrupt
  | machineSoftware | machineTimer | machineExternal
  deriving DecidableEq, Inhabited

/-- The enumerator's numeric value. -/
def RiscvInterrupt.code : RiscvInterrupt → Word
  | machineSoftware => 3
  | machineTimer => 7
  | machineExternal => 11

/-- `op_unit_t`. -/
inductive OpUnit
  | alu | mul | div | lsu | bru | csr
  deriving DecidableEq, Inhabited

/-- `arg_src_t`. -/
inductive ArgSrc
  | reg | imm | disable
  deriving DecidableEq, Inhabited

/-- `op_t`. -/
inductive Op
  | add | addi | and | andi | auipc
  | csrrc | csrrci | csrrs | csrrsi | csrrw | csrrwi
  | ebreak | ecall | fence | fenceI | lui | or | ori
  | sll | slli | slt | slti | sltiu | sltu | sra | srai | srl | srli | sub | xor | xori
  | beq | bge | bgeu | blt | bltu | bne | jal | jalr
  | div | divu | rem | remu
  | lb | lbu | lh | lhu | lw | sb | sh | sw
  | mul | mulh | mulhsu | mulhu
  | mret
  deriving DecidableEq, Inhabited

/-- `alu_op_t`. -/
inductive AluOp
  | add | and | auipc | ebreak | ecall | fence | fenceI | lui | or
  | sll | slt | sltu | sra | srl | sub | xor
  deriving DecidableEq, Inhabited

/-- `bru_op_t`. -/
inductive BruOp
  | beq | bge | bgeu | blt | bltu | bne | jal | jalr | mret
  deriving DecidableEq, Inhabited

/-- `div_op_t`. -/
inductive DivOp
  | div | divu | rem | remu
  deriving DecidableEq, Inhabited

/-- `lsu_op_t`. -/
inductive LsuOp
  | lb | lbu | lh | lhu | lw | sb | sh | sw
  deriving DecidableEq, Inhabited

/-- `mul_op_t`. -/
inductive MulOp
  | mul | mulh | mulhsu | mulhu
  deriving DecidableEq, Inhabited

/-- `csr_op_t`. -/
inductive CsrOp
  | csrrc | csrrs | csrrw
  deriving DecidableEq, Inhabited

/-- The `sub_op` union of the packs. A pack starts zeroed, which is `alu_op_t::add`, and `decode`
writes the member of the unit it selects. -/
inductive SubOp
  | alu (op : AluOp) | bru (op : BruOp) | div (op : DivOp) | lsu (op : LsuOp) | mul (op : MulOp)
  | csr (op : CsrOp)
  deriving DecidableEq

instance : Inhabited SubOp := ⟨.alu .add⟩

/-! ## Bit helpers (`common.h`) -/

/-- `is_align`: `access_size` is 1, 2 or 4 at every use. -/
def isAlign (x : Word) (accessSize : Word) : Bool :=
  x &&& (accessSize - 1) == 0

/-- `sign_extend`. -/
def signExtend (imm : Word) (immLength : Nat) : Word :=
  let signBit := imm >>> (immLength - 1)
  (if signBit == 0 then 0 else ((signBit <<< (32 - immLength)) - 1) <<< immLength) ||| imm

/-! ## Performance counters (`main.cpp`) -/

/-- The event counters that `main.cpp` copies into the read-only counter CSRs. -/
structure PerfCounters where
  branchNum : BitVec 64
  branchPredicted : BitVec 64
  branchHit : BitVec 64
  branchMiss : BitVec 64
  fetchDecodeFifoFull : BitVec 64
  decodeRenameFifoFull : BitVec 64
  issueQueueFull : BitVec 64
  issueExecuteFifoFull : BitVec 64
  checkpointBufferFull : BitVec 64
  robFull : BitVec 64
  phyRegfileFull : BitVec 64
  rasFull : BitVec 64
  fetchNotFull : BitVec 64
  deriving DecidableEq

def PerfCounters.reset : PerfCounters := ⟨0, 0, 0, 0, 0, 0, 0, 0, 0, 0, 0, 0, 0⟩

/-- The counters that `reset` of `main.cpp` clears; `fetch_not_full` is not among them. -/
def PerfCounters.resetFrom (p : PerfCounters) : PerfCounters :=
  { reset with fetchNotFull := p.fetchNotFull }

end MyRiscvCore
