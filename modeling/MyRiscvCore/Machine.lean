import MyRiscvCore.Pipeline.Decode
import MyRiscvCore.Pipeline.Fetch
import MyRiscvCore.Pipeline.Execute
import MyRiscvCore.Pipeline.Commit

/-!
# MyRiscvCore — the machine and its clock cycle

The static objects of `main.cpp` as one record, the state `init` and `reset` leave, and the body of
the loop in `run`: the stages from commit back to fetch, each reading what the stage behind it left
in the previous cycle, and then the `sync` calls that apply the queued requests.

What a run depends on besides the machine is an `Env`: the memory image, the contents of the
predictor, the external interrupt line, the terminal at the other end of the character FIFO, and
the values of uninitialised locals. Every property of a run is a property for all of them.

A cycle also answers a `CycleLog` of what happened in it; no stage reads it.
-/

namespace MyRiscvCore

structure Machine where
  fetch : FetchState
  fetchDecodeFifo : Fifo FetchDecodePack
  decodeRenameFifo : Fifo DecodeRenamePack
  renameReadregPort : List RenameReadregOp
  readregIssuePort : List ReadregIssueOp
  issue : IssueState
  unitFifos : UnitFifos
  /-- `busy` and `hold_rev_pack` of the LSU. -/
  lsuHold : Option IssueExecutePack
  executeWbPorts : List ExecuteWbPack
  wbCommitPort : List ExecuteWbPack
  commit : CommitState
  rat : Rat
  rob : Rob
  regfile : Regfile
  csrFile : Csrfile
  bus : Bus
  storeBuffer : StoreBuffer
  checkpointBuffer : Fifo Checkpoint
  predictor : BranchPredictor
  interrupts : InterruptInterface
  perf : PerfCounters
  cpuClockCycle : BitVec 64

/-- The number of feedback channels (`EXECUTE_UNIT_NUM`). -/
abbrev executeUnitNum : Nat := 8

/-- What the terminal does between two uses of the character FIFO. -/
structure Terminal where
  typed : List Byte
  taken : Nat

/-- Type characters (those that do not fit are lost) and take some away. -/
def Terminal.act (t : Terminal) (c : Csrfile) : Csrfile :=
  { c with
    sendFifo := c.sendFifo.drop t.taken
    revFifo := (c.revFifo ++ t.typed).take charfifoCapacity }

/-- What a run depends on. The functions of time give the input of each cycle. -/
structure Env where
  memory : Memory
  predictor : BranchPredictor
  /-- The external interrupt line; nothing in the source drives it. -/
  meip : Nat → Bool
  /-- The terminal before a cycle, and before the CSR writes of that cycle. -/
  terminalBefore : Nat → Terminal
  terminalDuring : Nat → Terminal
  /-- The uninitialised locals of a cycle. -/
  uninit : Nat → Checkpoint

/-- The machine after `init` and `reset`. -/
def Machine.reset (env : Env) : Except Halt Machine := do
  let rat ← Rat.reset
  let regfile ← Regfile.reset
  return {
    fetch := Fetch.reset
    fetchDecodeFifo := (Fifo.new fetchDecodeFifoSize fun _ => default).setPopStatusSave true
    decodeRenameFifo := (Fifo.new decodeRenameFifoSize fun _ => default).setPopStatusSave true
    renameReadregPort := List.replicate renameWidth default
    readregIssuePort := List.replicate readregWidth default
    issue := Issue.reset
    unitFifos := fun _ _ => Fifo.new 1 fun _ => default
    lsuHold := none
    executeWbPorts := List.replicate executeUnitNum default
    wbCommitPort := List.replicate executeUnitNum default
    commit := Commit.reset
    rat := rat
    rob := Rob.reset
    regfile := regfile
    csrFile := Csrfile.reset
    bus := { memory := env.memory, clint := Clint.reset }
    storeBuffer := Fifo.new storeBufferSize fun _ => default
    checkpointBuffer := Fifo.new checkpointBufferSize fun _ => default
    predictor := env.predictor
    interrupts := InterruptInterface.reset
    perf := PerfCounters.reset
    cpuClockCycle := 0 }

/-- `reset` of `main.cpp` on a machine in use, as the debugger's command calls it. The memory keeps its
contents. -/
def Machine.resetFrom (m : Machine) : Except Halt Machine := do
  let rat ← Rat.reset
  let regfile ← Regfile.reset
  return {
    fetch := Fetch.reset
    fetchDecodeFifo := m.fetchDecodeFifo.reset
    decodeRenameFifo := m.decodeRenameFifo.reset
    renameReadregPort := List.replicate renameWidth default
    readregIssuePort := List.replicate readregWidth default
    issue := Issue.resetFrom m.issue
    unitFifos := fun unit i => (m.unitFifos unit i).reset
    lsuHold := none
    executeWbPorts := List.replicate executeUnitNum default
    wbCommitPort := List.replicate executeUnitNum default
    commit := Commit.resetFrom m.commit
    rat := rat
    rob := m.rob.resetFrom
    regfile := regfile
    csrFile := m.csrFile.resetFrom
    bus := { m.bus with clint := Clint.reset }
    storeBuffer := m.storeBuffer.reset
    checkpointBuffer := m.checkpointBuffer.reset
    predictor := m.predictor.reset
    interrupts := m.interrupts.resetFrom
    perf := m.perf.resetFrom
    cpuClockCycle := 0 }

/-- The two halves of a 64-bit counter, written to a pair of CSRs. -/
def counterRequests (addr addrh : Nat) (v : BitVec 64) : List Csrfile.Request :=
  [.writeSys addr (v.setWidth 32), .writeSys addrh ((v >>> 32).setWidth 32)]

/-- The `write_sys` calls at the end of the cycle. -/
def sysWrites (cpuClockCycle globalCommitNum : BitVec 64) (p : PerfCounters) :
    List Csrfile.Request :=
  counterRequests csrMcycle csrMcycleh cpuClockCycle ++
  counterRequests csrMinstret csrMinstreth globalCommitNum ++
  counterRequests 0xB03 0xB83 p.branchNum ++
  counterRequests 0xB04 0xB84 p.branchPredicted ++
  counterRequests 0xB05 0xB85 p.branchHit ++
  counterRequests 0xB06 0xB86 p.branchMiss ++
  counterRequests 0xB07 0xB87 p.fetchDecodeFifoFull ++
  counterRequests 0xB08 0xB88 p.decodeRenameFifoFull ++
  counterRequests 0xB09 0xB89 p.issueQueueFull ++
  counterRequests 0xB0A 0xB8A p.issueExecuteFifoFull ++
  counterRequests 0xB0B 0xB8B p.checkpointBufferFull ++
  counterRequests 0xB0C 0xB8C p.robFull ++
  counterRequests 0xB0D 0xB8D p.phyRegfileFull ++
  counterRequests 0xB0E 0xB8E p.rasFull ++
  counterRequests 0xB0F 0xB8F p.fetchNotFull

/-- What happened in a cycle. -/
structure CycleLog where
  /-- The state of commit at the start and at the end. -/
  phaseBefore : CommitPhase
  phaseAfter : CommitPhase
  /-- The CSR file as the stages read it. -/
  csrFile : Csrfile
  /-- The feedback commit gave to the other stages. -/
  fb : CommitFeedbackPack
  /-- The ROB entries retired, oldest first. -/
  retired : List RobItem
  /-- The results the units put on the write-back ports, channel by channel. -/
  results : List ExecuteWbPack
  /-- The operations renamed, oldest first. -/
  renamed : List RenameReadregOp
  /-- The packs handed to the unit FIFOs. -/
  issued : List IssueExecutePack
  /-- The items pushed into the store buffer. -/
  stores : List StoreBufferItem
  /-- The write issued to the bus. -/
  writes : List Bus.Request
  /-- The instruction writes applied to the CSR file, and the trap and `mret` updates. -/
  csrWrites : List Csrfile.Request

/-- One pass of the loop of `run`, cycle number `n`. -/
def cycle (env : Env) (n : Nat) (m : Machine) : Except Halt (Machine × CycleLog) := do
  let rob := { m.rob with committed := false }
  let fetchDecodeFifo := m.fetchDecodeFifo.resetPopStatus
  let decodeRenameFifo := m.decodeRenameFifo.resetPopStatus
  let csrFile := (env.terminalBefore n).act m.csrFile
  let interrupts := m.bus.clint.runPre { m.interrupts with meip := env.meip n }
  -- the stages, from commit back to fetch
  let cm ← Commit.run csrFile interrupts m.wbCommitPort m.commit rob m.checkpointBuffer m.predictor
    m.perf
  let fb := cm.fb
  let wb := Wb.run m.executeWbPorts fb
  let ex ← Execute.run m.unitFifos m.lsuHold csrFile m.bus m.storeBuffer cm.predictor
    cm.checkpointBuffer fb
  let chs : Channels := (ex.ports.map (·.feedback)).zip wb.2.2
  let is ← Issue.run m.issue ex.fifos cm.perf m.readregIssuePort m.regfile m.storeBuffer.isEmpty chs
    fb
  let readregIssuePort ← Readreg.run m.regfile chs m.renameReadregPort m.readregIssuePort is.stall
    fb
  let renameIdle := decodeRenameFifo.isEmpty
  let rn ← Rename.run m.rat (env.uninit n) cm.checkpointBuffer decodeRenameFifo cm.rob is.perf
    m.renameReadregPort is.stall fb
  let (dc, decodeIdle) := Decode.run fetchDecodeFifo rn.fifo rn.perf fb
  let ft ← Fetch.run m.bus m.storeBuffer (env.uninit n)
    { state := m.fetch, fifo := dc.1, checkpointBuffer := cm.checkpointBuffer
      predictor := ex.predictor, perf := dc.2.2 } decodeIdle renameIdle fb
  let (interrupts, mipRequests) ← interrupts.run csrFile
  let clint := m.bus.clint.runPost
  -- the queued requests
  let rat ← m.rat.sync (cm.ratRequests ++ rn.ratRequests)
  let robFifo := rn.rob.fifo.sync cm.robRequests
  let regfile ← m.regfile.sync (cm.regRequests ++ wb.2.1)
  let csrFile ← ((env.terminalDuring n).act csrFile).sync (cm.csrRequests ++ mipRequests)
  let (storeBuffer, writes, dropped) ← m.storeBuffer.run fb
  let bus ← Bus.sync { m.bus with clint := clint } writes
  let storeBuffer := storeBuffer.sync (if dropped then [] else ex.pushes)
  let checkpointBuffer := ft.checkpointBuffer.sync (cm.cpRequests ++ rn.cpRequests)
  let interrupts := interrupts.sync cm.acks
  let cpuClockCycle := m.cpuClockCycle + 1
  let csrFile ← csrFile.sync (sysWrites cpuClockCycle rn.rob.globalCommitNum ft.perf)
  return ({
    fetch := ft.state
    fetchDecodeFifo := ft.fifo
    decodeRenameFifo := dc.2.1
    renameReadregPort := rn.port
    readregIssuePort := readregIssuePort
    issue := is.state
    unitFifos := is.fifos
    lsuHold := ex.hold
    executeWbPorts := ex.ports
    wbCommitPort := wb.1
    commit := cm.state
    rat := rat
    rob := { rn.rob with fifo := robFifo }
    regfile := regfile
    csrFile := csrFile
    bus := bus
    storeBuffer := storeBuffer
    checkpointBuffer := checkpointBuffer
    predictor := ft.predictor
    interrupts := interrupts
    perf := ft.perf
    cpuClockCycle := cpuClockCycle },
  { phaseBefore := m.commit.curState
    phaseAfter := cm.state.curState
    csrFile := (env.terminalBefore n).act m.csrFile
    fb := fb
    retired := cm.retired
    results := ex.ports
    renamed := rn.renamed
    issued := is.issued
    stores := if dropped then [] else ex.pushes
    writes := writes
    csrWrites := cm.csrRequests })

/-- The machine after `n` cycles, with the logs of these cycles. -/
def run (env : Env) : Nat → Except Halt (Machine × List CycleLog)
  | 0 => do return (← Machine.reset env, [])
  | n + 1 => do
    let (m, logs) ← run env n
    let (m', log) ← cycle env n m
    return (m', logs ++ [log])

/-- `get_current_pc` of the debugger. -/
def getCurrentPc (m : Machine) : Word :=
  if !m.rob.fifo.isEmpty then (m.rob.fifo.getItem m.rob.fifo.rptr).pc
  else
    match m.decodeRenameFifo.getFront with
    | some p => if p.enable then p.pc else
      match m.fetchDecodeFifo.getFront with
      | some p => if p.enable then p.pc else m.fetch.pc
      | none => m.fetch.pc
    | none =>
      match m.fetchDecodeFifo.getFront with
      | some p => if p.enable then p.pc else m.fetch.pc
      | none => m.fetch.pc

/-- The value of one register in `socket_cmd_read_archreg`, with its assertions. -/
def readArchreg (m : Machine) (i : Nat) : Except Halt Word :=
  if i = 0 then .ok 0
  else do
    let phyId ← m.rat.getCommitPhyId i
    let v ← m.regfile.read phyId
    assert .common (← m.regfile.readDataValid phyId)
    return v

end MyRiscvCore
