import MyRiscvCore.Machine
import MyRiscvCore.Lib.Renaming

/-!
# MyRiscvCore — the in-order machine behind the pipeline

What the core is for: to execute the instructions of the program one after the other. The abstract
machine of this module is an observer of the cycle logs. It holds

* the architectural state (`Arch`): register values, memory and pc, changed by one instruction at a
  time, when that instruction retires;
* the history (`Event`): the retirements and traps so far, each retirement with the state before it;
* the instructions in flight (`Entry`), in program order, with how far each has come.

An instruction's architectural meaning is stated over the values of its registers alone: `archPack`
gives its operands, `archNext` its successor and `archStores` what it writes to memory. Whether the
pipeline really computes from these values is what the refinement has to show.
-/

namespace MyRiscvCore

open Renaming (mapAfter)

/-! ## Meaning of one instruction -/

/-- The value of a source operand: an invalid operation has zero operands; a mapped source is read
from a register; otherwise it is the immediate, or 0 (which covers `x0`). -/
def sourceValue (reg : Nat → Option Word) (valid needMap : Bool) (rs : Nat) (src : ArgSrc)
    (imm : Word) : Option Word :=
  if !valid then some 0
  else if needMap then reg rs
  else if src = .imm then some imm
  else some 0

def operand1 (reg : Nat → Option Word) (op : RenameReadregOp) : Option Word :=
  sourceValue reg op.valid op.rs1NeedMap op.rs1 op.arg1Src op.imm

def operand2 (reg : Nat → Option Word) (op : RenameReadregOp) : Option Word :=
  sourceValue reg op.valid op.rs2NeedMap op.rs2 op.arg2Src op.imm

/-- The pack a unit gets for an operation with these operands. -/
def packOf (op : RenameReadregOp) (src1 src2 : Word) : IssueExecutePack :=
  Issue.sendPack ⟨op, src1, true, src2, true⟩ (src1, true) (src2, true)

/-- The pack of an operation whose operands come from these registers. -/
def archPack (regs : Nat → Word) (op : RenameReadregOp) : IssueExecutePack :=
  packOf op ((operand1 (fun a => some (regs a)) op).getD 0)
    ((operand2 (fun a => some (regs a)) op).getD 0)

def isStoreOp (op : DecodeInfo) : Bool :=
  op.valid && op.opUnit == .lsu && Issue.isStore (Issue.lsuOpOf op.subOp)

def isLoadOp (op : DecodeInfo) : Bool :=
  op.valid && op.opUnit == .lsu && !Issue.isStore (Issue.lsuOpOf op.subOp)

/-- The write of a store with this pack. -/
def storeRequest (p : IssueExecutePack) : Bus.Request where
  addr := p.lsuAddr
  size := Issue.lsuSize (Issue.lsuOpOf p.subOp)
  data := Execute.storeData (Issue.lsuOpOf p.subOp) p.src2Value

/-- What an instruction writes to memory. -/
def archStores (regs : Nat → Word) (op : RenameReadregOp) : List Bus.Request :=
  if isStoreOp op.toDecodeInfo then [storeRequest (archPack regs op)] else []

/-- The architectural successor: the target of a taken branch, `jal`, `jalr` or `mret`, else the next
word. -/
def archNext (regs : Nat → Word) (mepc : Word) (op : RenameReadregOp) : Word :=
  let p := archPack regs op
  let bruOp := Execute.bruOpOf op.subOp
  if op.valid && op.opUnit == .bru && Execute.bruJump bruOp p.src1Value p.src2Value then
    Execute.bruTarget bruOp mepc p
  else op.pc + 4

/-- A write to an address that the memory slave maps changes the memory; any other does not. -/
def applyStore (mem : Memory) (r : Bus.Request) : Memory :=
  match findSlaveInfo slaveInfoList r.addr with
  | some info =>
    if info.slave = .memory then mem.write (r.addr - info.base).toNat r.size r.data else mem
  | none => mem

/-! ## Instructions in flight -/

/-- How far an instruction in flight has come: renamed and waiting for its result; its result is on
a write-back port; it is on the port to commit, and written to the register file; the ROB entry is
finished. -/
inductive Status
  | waiting
  | executed (r : ExecuteWbPack)
  | written (r : ExecuteWbPack)
  | finished (r : ExecuteWbPack)

structure Entry where
  op : RenameReadregOp
  status : Status

namespace Entry

def isWaiting (e : Entry) : Bool :=
  match e.status with
  | .waiting => true
  | _ => false

def result (e : Entry) : Option ExecuteWbPack :=
  match e.status with
  | .waiting => none
  | .executed r | .written r | .finished r => some r

/-- It renames a destination. -/
def writes (e : Entry) : Bool :=
  e.op.valid && e.op.needRename

/-- The result it has put out; an exception puts out none. -/
def value? (e : Entry) : Option Word :=
  e.result.bind fun r => if r.hasException then none else some r.rdValue

/-- Its renaming, if it makes one. -/
def mapping (e : Entry) : List (Nat × Nat) :=
  if e.writes then [(e.op.rd, e.op.rdPhy)] else []

/-- A cycle later: the results of the cycle arrive and move on. -/
def advance (results : List ExecuteWbPack) (e : Entry) : Entry :=
  { e with status := match e.status with
    | .waiting =>
      match results.find? fun r => r.enable && r.robId == e.op.robId with
      | some r => .executed r
      | none => .waiting
    | .executed r => .written r
    | .written r => .finished r
    | .finished r => .finished r }

end Entry

/-- The renamings of a list of instructions, in order. -/
def renamings (es : List Entry) : List (Nat × Nat) :=
  es.flatMap Entry.mapping

/-- The physical register of each architectural one after these instructions. -/
def mapAt (C : Nat → Nat) (es : List Entry) : Nat → Nat :=
  mapAfter C (renamings es)

/-- The youngest of these instructions that writes register `a`. -/
def youngestWriter (es : List Entry) (a : Nat) : Option Entry :=
  es.reverse.find? fun e => e.writes && e.op.rd == a

/-- The value of register `a` after these instructions: the result of the youngest that writes it,
once it is put out, or the committed value. -/
def valueAt (regs : Nat → Word) (es : List Entry) (a : Nat) : Option Word :=
  match youngestWriter es a with
  | some e => e.value?
  | none => some (regs a)

/-! ## The observer -/

/-- The architectural state. -/
structure Arch where
  regs : Nat → Word
  mem : Memory
  pc : Word

/-- The state after an instruction: its result in its destination, its store in memory, and its
successor. -/
def Arch.retire (mepc : Word) (b : Arch) (e : Entry) : Arch where
  regs := if e.writes then Function.update b.regs e.op.rd (e.value?.getD 0) else b.regs
  mem := (archStores b.regs e.op).foldl applyStore b.mem
  pc := archNext b.regs mepc e.op

/-- What the architecture sees, each with the state before it: an instruction retires, with this `mepc`;
an instruction raises an exception, or an interrupt is taken, which goes to the handler and writes the
trap CSRs. -/
inductive Event
  | retire (before : Arch) (mepc : Word) (e : Entry)
  | exception (before : Arch) (e : Entry) (handler : Word) (csrWrites : List Csrfile.Request)
  | interrupt (before : Arch) (handler : Word) (csrWrites : List Csrfile.Request)

def Event.isRetire : Event → Bool
  | .retire _ _ _ => true
  | .exception _ _ _ _ | .interrupt _ _ _ => false

structure Window where
  arch : Arch
  events : List Event
  /-- The writes the store buffer has issued to the bus. -/
  writes : List Bus.Request
  /-- The physical register of the last retired writer of each architectural register. -/
  cmap : Nat → Nat
  flight : List Entry

namespace Window

def init (env : Env) : Window where
  arch := ⟨fun _ => 0, env.memory, initPc⟩
  events := []
  writes := []
  cmap := id
  flight := []

/-- One instruction retires. -/
def retire (mepc : Word) (w : Window) (e : Entry) : Window where
  arch := w.arch.retire mepc e
  events := w.events ++ [.retire w.arch mepc e]
  writes := w.writes
  cmap := mapAfter w.cmap e.mapping
  flight := w.flight.tail

/-- A list of instructions retires. -/
def retireAll (mepc : Word) (w : Window) (es : List Entry) : Window :=
  es.foldl (retire mepc) w

/-- The results of a cycle arrive. -/
def advance (results : List ExecuteWbPack) (w : Window) : Window :=
  { w with flight := w.flight.map (Entry.advance results) }

/-- The instructions at the head of the window retire. -/
def retireN (mepc : Word) (n : Nat) (w : Window) : Window :=
  w.retireAll mepc (w.flight.take n)

/-- The trap whose walk ends with this cycle. -/
def trapEvent (w : Window) (log : CycleLog) : Event :=
  match log.phaseBefore, w.flight with
  | .flush, e :: _ => .exception w.arch e log.fb.exceptionPc log.csrWrites
  | _, _ => .interrupt w.arch log.fb.exceptionPc log.csrWrites

/-- The window after a cycle. In the normal state the results arrive, the head retires and renamed
instructions join; a mispredict empties the window, a trap keeps it for the walk, whose last step
empties it and goes to the handler. A flush drops the results of its cycle. -/
def step (w : Window) (log : CycleLog) : Window :=
  let w := { w with writes := w.writes ++ log.writes }
  let mepc := log.csrFile.value csrMepc
  if log.phaseBefore = .normal then
    if log.fb.flushing then
      let w := w.retireN mepc log.retired.length
      if log.phaseAfter = .normal then { w with flight := [] } else w
    else
      let w := (w.advance log.results).retireN mepc log.retired.length
      { w with flight := w.flight ++ log.renamed.map fun op => ⟨op, .waiting⟩ }
  else if log.phaseAfter = .normal then
    { w with
      arch := { w.arch with pc := log.fb.exceptionPc }
      events := w.events ++ [w.trapEvent log]
      flight := [] }
  else w

/-- The window after the cycles of these logs. -/
def after (env : Env) (logs : List CycleLog) : Window :=
  logs.foldl step (init env)

end Window

end MyRiscvCore
