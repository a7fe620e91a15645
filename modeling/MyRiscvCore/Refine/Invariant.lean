import MyRiscvCore.Spec.WindowFacts
import MyRiscvCore.Component.FifoFacts
import MyRiscvCore.Component.RatFacts
import MyRiscvCore.Component.CsrFacts
import MyRiscvCore.Pipeline.DecodeFacts

/-!
# MyRiscvCore — the refinement relation

How a machine represents a window, at a cycle boundary. The relation is cut along the structures of
the machine, so that a change to one of them concerns one part:

* `RobOk`, `RatOk`, `RegOk` — the reorder buffer, alias table and register file hold the window's
  instructions, maps and values;
* `FlightOk` — every instruction in flight names the physical registers of its sources, and its
  result, once there, is what its unit computes from the values of these sources;
* `LocOk` — every waiting instruction is in exactly one place between rename and execute, with
  the operands it has collected so far; loads and stores are in program order; `AwakeOk` says that an
  item of the queue has collected every operand that is there;
* `PortOk` — the results on the way to commit;
* `StoreOk` — the store buffer holds the retired stores not yet written, then the executed stores in
  flight;
* `PathOk`, `CpOk` — the fetched path and the checkpoints of its predicted jumps.

`Normal` collects them for the normal state of commit, `Walk` says what remains of them while a trap
walks the reorder buffer back.
-/

namespace MyRiscvCore

open Renaming (mapAfter live)

/-- The ROB entry of an instruction; `C` is the map before it. -/
def robItemOf (C : Nat → Nat) (e : Entry) : RobItem :=
  let item := Rename.robItem e.op.toDecodeRenamePack e.op.rdPhy
    (if e.writes then some (C e.op.rd) else none)
  match e.status with
  | .finished r => Commit.finishItem item r
  | _ => item

/-- The reorder buffer holds the instructions in flight. -/
structure RobOk (q : Fifo RobItem) (C : Nat → Nat) (flight : List Entry) : Prop where
  wf : q.WF
  size : q.size = robSize
  save : q.popStatusSave = false
  ids : q.ids = flight.map (·.op.robId)
  item : ∀ pre e post, flight = pre ++ e :: post →
    q.buffer e.op.robId = robItemOf (mapAt C pre) e

/-- The value an instruction has written to the register file. -/
def Entry.stored? (e : Entry) : Option Word :=
  match e.status with
  | .written r | .finished r => if r.hasException then none else some r.rdValue
  | _ => none

/-- The register file holds the committed values and those written back since; the data of every
other register are invalid. -/
structure RegOk (f : Regfile) (C : Nat → Nat) (regs : Nat → Word) (flight : List Entry) : Prop where
  committed : ∀ a ∈ archRegs, f.regDataValid (C a) = true ∧ f.regData (C a) = regs a
  inflight : ∀ e ∈ flight, e.writes = true → f.regDataValid e.op.rdPhy = e.stored?.isSome ∧
    ∀ v, e.stored? = some v → f.regData e.op.rdPhy = v
  free : ∀ p < phyRegNum, p ∉ live archRegs C (renamings flight) → f.regDataValid p = false

/-- What fetch guarantees of a pack. -/
structure FetchOk (p : FetchDecodePack) : Prop where
  enable : p.enable = true
  misaligned : p.hasException = !Bus.checkAlign p.pc .word
  exception : p.hasException = true → p.value = 0
  cause : p.hasException = true → p.exceptionId = .instructionAddressMisaligned ∧ p.exceptionValue = p.pc
  predicted : p.predicted = true → Decode.predictable p.value = true ∧ p.checkpointIdValid = true
  unpredicted : p.predicted = false → p.checkpointIdValid = false

/-- A decoded pack of a fetched word. -/
def PackOk (x : DecodeRenamePack) : Prop :=
  ∃ p, FetchOk p ∧ x = Decode.decodePack p

/-- The result a unit puts out for a pack. -/
def UnitResult (p : IssueExecutePack) (r : ExecuteWbPack) : Prop :=
  match p.opUnit with
  | .alu => r = Execute.alu p
  | .mul => r = Execute.mul p
  | .div => r = Execute.div p
  | .bru => ∃ mepc, r = Execute.bru mepc p
  | .csr => ∃ file, r = Execute.csr file p
  | .lsu => ∃ v, r = { Execute.base p with rdValue := v }

/-- What holds of an instruction in flight; `pre` are the older ones. -/
structure EntryOk (C : Nat → Nat) (regs : Nat → Word) (pre : List Entry) (e : Entry) : Prop where
  pack : PackOk e.op.toDecodeRenamePack
  source1 : e.op.valid = true → e.op.rs1NeedMap = true → e.op.rs1Phy = mapAt C pre e.op.rs1
  source2 : e.op.valid = true → e.op.rs2NeedMap = true → e.op.rs2Phy = mapAt C pre e.op.rs2
  result : ∀ r, e.result = some r → ∃ v1 v2, operand1 (valueAt regs pre) e.op = some v1 ∧
    operand2 (valueAt regs pre) e.op = some v2 ∧ UnitResult (packOf e.op v1 v2) r

def FlightOk (C : Nat → Nat) (regs : Nat → Word) (flight : List Entry) : Prop :=
  ∀ pre e post, flight = pre ++ e :: post → EntryOk C regs pre e

/-! ## Where the waiting instructions are

Each entry without a result is in exactly one place. -/

/-- The execute units' FIFOs in channel order. -/
def unitSlots : List (OpUnit × Nat) :=
  [(.alu, 0), (.alu, 1), (.bru, 0), (.csr, 0), (.div, 0), (.lsu, 0), (.mul, 0), (.mul, 1)]

/-- The packs handed to the units and not yet executed. -/
def unitPacks (fifos : UnitFifos) (hold : Option IssueExecutePack) : List IssueExecutePack :=
  hold.toList ++ unitSlots.flatMap fun s => (fifos s.1 s.2).toList

/-- The slots handed to issue and not yet taken into the queue. -/
def untaken (port : List ReadregIssueOp) (s : IssueState) : List ReadregIssueOp :=
  (port.drop (if s.busy then s.lastIndex else 0)).filter (·.enable)

/-- The operands an item has collected are right; what it has not is a mapped register. -/
structure OperandsOk (reg : Nat → Option Word) (i : ReadregIssueOp) : Prop where
  loaded1 : i.src1Loaded = true → operand1 reg i.toRenameReadregOp = some i.src1Value
  loaded2 : i.src2Loaded = true → operand2 reg i.toRenameReadregOp = some i.src2Value
  missing1 : i.src1Loaded = false → i.valid = true ∧ i.rs1NeedMap = true
  missing2 : i.src2Loaded = false → i.valid = true ∧ i.rs2NeedMap = true

def isLsu (op : DecodeInfo) : Bool := op.opUnit == .lsu

/-- The waiting instructions, given the packs handed to the units, the packs of the LSU in order,
the items in queue order, and the renamed operations. -/
structure LocOk (regs : Nat → Word) (flight : List Entry) (packs lsuPacks : List IssueExecutePack)
    (items : List ReadregIssueOp) (renamed : List RenameReadregOp) : Prop where
  conserved : ((flight.filter (·.isWaiting)).map (·.op.robId)).Perm
    (packs.map (·.robId) ++ (items.map (·.robId) ++ renamed.map (·.robId)))
  pack : ∀ p ∈ packs, ∃ pre e post v1 v2, flight = pre ++ e :: post ∧
    operand1 (valueAt regs pre) e.op = some v1 ∧ operand2 (valueAt regs pre) e.op = some v2 ∧
    p = packOf e.op v1 v2
  item : ∀ i ∈ items, ∃ pre e post, flight = pre ++ e :: post ∧ e.op = i.toRenameReadregOp ∧
    OperandsOk (valueAt regs pre) i
  op : ∀ o ∈ renamed, ∃ e ∈ flight, e.op = o
  lsu : lsuPacks.map (·.robId) ++ ((items.filter (isLsu ·.toDecodeInfo)).map (·.robId) ++
      (renamed.filter (isLsu ·.toDecodeInfo)).map (·.robId)) =
    (flight.filter fun e => e.isWaiting && isLsu e.op.toDecodeInfo).map (·.op.robId)
  lsuFirst : ∀ pre e post, flight = pre ++ e :: post → e.isWaiting = true →
    isLsu e.op.toDecodeInfo = true → ∀ x ∈ post, isLsu x.op.toDecodeInfo = true →
    x.isWaiting = true

/-- What an item has not collected is not there. -/
structure Awake (reg : Nat → Option Word) (i : ReadregIssueOp) : Prop where
  missing1 : i.src1Loaded = false → reg i.rs1 = none
  missing2 : i.src2Loaded = false → reg i.rs2 = none

/-- No wake-up is lost: the producer of an operand that an item of the queue has not collected has put
out no result. -/
def AwakeOk (regs : Nat → Word) (flight : List Entry) (queue : List ReadregIssueOp) : Prop :=
  ∀ i ∈ queue, ∃ pre e post, flight = pre ++ e :: post ∧ e.op = i.toRenameReadregOp ∧
    Awake (valueAt regs pre) i

/-- The results on the write-back ports and on the port to commit. -/
structure PortOk (executeWb wbCommit : List ExecuteWbPack) (flight : List Entry) : Prop where
  executed : ∀ r, (r ∈ executeWb ∧ r.enable = true) ↔ ∃ e ∈ flight, e.status = .executed r
  written : ∀ r, (r ∈ wbCommit ∧ r.enable = true) ↔ ∃ e ∈ flight, e.status = .written r

/-- CSR instructions and `mret` are handed to their unit only as the oldest instruction, so they see the
CSR values they will retire with; `value` are these. -/
structure SerialOk (value : Nat → Word) (flight : List Entry) (packs : List IssueExecutePack) : Prop where
  oldest : ∀ pre e post, flight = pre ++ e :: post →
    (e.op.opUnit == .csr || e.op.op == .mret) = true →
    (e.isWaiting = false ∨ e.op.robId ∈ packs.map (·.robId)) → pre = []
  mret : ∀ e ∈ flight, e.op.op = .mret → ∀ r, e.result = some r → r.bruNextPc = value csrMepc
  csr : ∀ e ∈ flight, e.op.opUnit = .csr → ∀ r, e.result = some r →
    ∃ file : Csrfile, (∀ a, StableCsr a → file.value a = value a) ∧
      r = Execute.csr file (packOf e.op r.src1Value r.src2Value)

/-! ## Memory

Committed stores in front, then those in flight, in program order. -/

/-- The store buffer item of an executed store. -/
def Entry.storeItem? (e : Entry) : Option StoreBufferItem :=
  e.result.bind fun r =>
    if isStoreOp r.toDecodeInfo && !r.hasException then
      some {
        enable := true, committed := false, robId := r.robId, pc := r.pc
        addr := r.src1Value + r.imm
        data := Execute.storeData (Issue.lsuOpOf r.subOp) r.src2Value
        size := Issue.lsuSize (Issue.lsuOpOf r.subOp) }
    else none

def StoreBufferItem.request (i : StoreBufferItem) : Bus.Request :=
  ⟨i.addr, i.size, i.data⟩

/-- Memory after the stores of these items. -/
def applyItems (mem : Memory) (items : List StoreBufferItem) : Memory :=
  (items.map (·.request)).foldl applyStore mem

/-- The extension of a loaded value. -/
def loadExtend (op : LsuOp) (value : Word) : Word :=
  match op with
  | .lb => signExtend value 8
  | .lh => signExtend value 16
  | _ => value

/-- The value of a load whose address the memory slave maps. -/
def LoadOk (mem : Memory) (r : ExecuteWbPack) : Prop :=
  ∀ info, findSlaveInfo slaveInfoList (r.src1Value + r.imm) = some info → info.slave = .memory →
    r.rdValue = loadExtend (Issue.lsuOpOf r.subOp)
      (mem.read (r.src1Value + r.imm - info.base).toNat (Issue.lsuSize (Issue.lsuOpOf r.subOp)))

/-- The result `r` of an instruction is what the architecture asks for in state `b` with CSR values `csr`:
its operands are the registers of `b`, a load reads the memory of `b`, and an `mret` or a CSR instruction
sees `csr` (apart from the CSRs that change by themselves). -/
structure Computes (b : Arch) (csr : Nat → Word) (e : Entry) (r : ExecuteWbPack) : Prop where
  pc : e.op.pc = b.pc
  pack : PackOk e.op.toDecodeRenamePack
  result : UnitResult (archPack b.regs e.op) r
  load : isLoadOp e.op.toDecodeInfo = true → r.hasException = false → LoadOk b.mem r
  mret : e.op.op = .mret → r.bruNextPc = csr csrMepc
  csr : e.op.opUnit = .csr → ∃ file : Csrfile, (∀ a, StableCsr a → file.value a = csr a) ∧
    r = Execute.csr file (archPack b.regs e.op)

theorem Computes.congr {b : Arch} {csr csr' : Nat → Word} {e : Entry} {r : ExecuteWbPack}
    (h : Computes b csr e r) (hcsr : ∀ a, StableCsr a → csr a = csr' a) : Computes b csr' e r where
  pc := h.pc
  pack := h.pack
  result := h.result
  load := h.load
  mret hop := (h.mret hop).trans (hcsr _ (by decide))
  csr hop := by
    obtain ⟨file, hfile, hres⟩ := h.csr hop
    exact ⟨file, fun a ha => (hfile a ha).trans (hcsr a ha), hres⟩

/-- An interrupt that is enabled. -/
def InterruptEnabled (csr : Nat → Word) : RiscvInterrupt → Bool
  | .machineExternal => getMie (csr csrMstatus) && getMeie (csr csrMie)
  | .machineSoftware => getMie (csr csrMstatus) && getMsie (csr csrMie)
  | .machineTimer => getMie (csr csrMstatus) && getMtie (csr csrMie)

/-- The requests of the retired stores, in order. -/
def retiredStores (events : List Event) : List Bus.Request :=
  events.flatMap fun
    | .retire before _ e => archStores before.regs e.op
    | .exception _ _ _ _ | .interrupt _ _ _ => []

/-- The store buffer items of these instructions, in order. -/
def storesOf (es : List Entry) : List StoreBufferItem :=
  es.filterMap Entry.storeItem?

/-- The retired stores that are not yet written. -/
structure ComOk (com : List StoreBufferItem) (busMemory : Memory) (w : Window) : Prop where
  committed : ∀ i ∈ com, i.committed = true
  aligned : ∀ i ∈ com, Bus.checkAlign i.addr i.size = true
  memory : applyItems busMemory com = w.arch.mem
  writes : w.writes ++ com.map (·.request) = retiredStores w.events

/-- Every load sees the stores before it. -/
def LoadsOk (mem : Memory) (flight : List Entry) : Prop :=
  ∀ pre e post, flight = pre ++ e :: post → isLoadOp e.op.toDecodeInfo = true →
    ∀ r, e.result = some r → r.hasException = false → LoadOk (applyItems mem (storesOf pre)) r

/-- The store buffer holds first the retired stores not yet written, then the executed stores in
flight. -/
structure StoreOk (sb : StoreBuffer) (busMemory : Memory) (w : Window) : Prop where
  wf : sb.WF
  save : sb.popStatusSave = false
  items : ∃ com, sb.toList = com ++ storesOf w.flight ∧ ComOk com busMemory w
  loads : LoadsOk w.arch.mem w.flight

/-- Where fetch went on after a pack. -/
def pathNext (x : DecodeRenamePack) : Word :=
  if x.predicted && x.predictedJump then x.predictedNextPc else x.pc + 4

/-- Fetch waits for this jump to retire. -/
def waitsFor (x : DecodeRenamePack) : Bool :=
  Fetch.isJump x.value && !x.predicted

/-- The packs from pc `pc` on follow each other up to where fetch stands. -/
def PathOk : Word → List DecodeRenamePack → FetchState → Prop
  | pc, [], f => f.pc = pc ∧ f.jumpWait = false
  | pc, x :: xs, f => x.pc = pc ∧
    if waitsFor x then xs = [] ∧ f.jumpWait = true ∧ f.pc = x.pc + 4
    else PathOk (pathNext x) xs f

/-- The packs not yet renamed, in program order. -/
def frontPacks (m : Machine) : List DecodeRenamePack :=
  m.decodeRenameFifo.toList ++ m.fetchDecodeFifo.toList.map Decode.decodePack

/-- The checkpoint of a renamed jump describes the map after it; `C` is the map before it. -/
structure CheckpointOk (cp : Checkpoint) (C : Nat → Nat) (e : Entry) : Prop where
  visible_iff : ∀ p, cp.ratPhyMapTableVisible p = true ↔ p ∈ mapAt C [e] '' archRegs
  valid_visible : ∀ p ∈ mapAt C [e] '' archRegs, cp.ratPhyMapTableValid p = true
  valid_old : e.writes = true → cp.ratPhyMapTableValid (C e.op.rd) = true
  valid_lt : ∀ p, cp.ratPhyMapTableValid p = true → p < phyRegNum

/-- The checkpoints of the predicted jumps of the path are the newest in the buffer, in order. -/
structure CpOk (q : Fifo Checkpoint) (C : Nat → Nat) (flight : List Entry)
    (front : List DecodeRenamePack) : Prop where
  wf : q.WF
  save : q.popStatusSave = false
  suffix : (((flight.map (·.op.toDecodeRenamePack) ++ front).filter (·.predicted)).map
    (·.checkpointId)) <:+ q.ids
  item : ∀ pre e post, flight = pre ++ e :: post → e.op.predicted = true →
    CheckpointOk (q.buffer e.op.checkpointId) (mapAt C pre) e

/-! ## The relation

Normal operation, or a walk with `j` entries left. -/

/-- What holds of the FIFOs in both states. -/
structure Shape (m : Machine) : Prop where
  fetchDecode : m.fetchDecodeFifo.WF
  fetchDecodeSave : m.fetchDecodeFifo.popStatusSave = true
  decodeRename : m.decodeRenameFifo.WF
  decodeRenameSave : m.decodeRenameFifo.popStatusSave = true
  queue : m.issue.issueQ.WF
  queueSave : m.issue.issueQ.popStatusSave = false
  unit : ∀ u i, (m.unitFifos u i).WF
  unitSave : ∀ u i, (m.unitFifos u i).popStatusSave = false
  unitSize : ∀ u i, (m.unitFifos u i).size = 1
  unitOp : ∀ u i, ∀ p ∈ (m.unitFifos u i).toList, p.opUnit = u
  unitIndex : ∀ u, m.issue.unitIndex u < unitNum u
  holdOp : ∀ p, m.lsuHold = some p → p.opUnit = .lsu
  ports : m.executeWbPorts.length = executeUnitNum

/-- The items of the queue and the slots not yet taken, in program order. -/
def queuedItems (m : Machine) : List ReadregIssueOp :=
  m.issue.issueQ.toList ++ untaken m.readregIssuePort m.issue

/-- The packs handed to the LSU, in order. -/
def lsuPacks (m : Machine) : List IssueExecutePack :=
  m.lsuHold.toList ++ (m.unitFifos .lsu 0).toList

/-- The relation in the normal state of commit. -/
structure Normal (m : Machine) (w : Window) : Prop where
  phase : m.commit.curState = .normal
  shape : Shape m
  rob : RobOk m.rob.fifo w.cmap w.flight
  rat : RatOk m.rat w.cmap (renamings w.flight)
  reg : RegOk m.regfile w.cmap w.arch.regs w.flight
  flight : FlightOk w.cmap w.arch.regs w.flight
  loc : LocOk w.arch.regs w.flight (unitPacks m.unitFifos m.lsuHold) (lsuPacks m) (queuedItems m)
    (m.renameReadregPort.filter (·.enable))
  awake : AwakeOk w.arch.regs w.flight m.issue.issueQ.toList
  port : PortOk m.executeWbPorts m.wbCommitPort w.flight
  serial : SerialOk m.csrFile.value w.flight (unitPacks m.unitFifos m.lsuHold)
  store : StoreOk m.storeBuffer m.bus.memory w
  front : (∀ x ∈ m.decodeRenameFifo.toList, PackOk x) ∧ ∀ p ∈ m.fetchDecodeFifo.toList, FetchOk p
  path : PathOk w.arch.pc (w.flight.map (·.op.toDecodeRenamePack) ++ frontPacks m) m.fetch
  cp : CpOk m.checkpointBuffer w.cmap w.flight (frontPacks m)
  first : m.fetch.waitFirstMemoryResult = true → w.flight = []

/-- The relation while a trap walks the reorder buffer back: `j` of the entries in flight are not yet
walked back, and everything younger than the trapped instruction is gone from the other stages. -/
structure Walk (m : Machine) (w : Window) (j : Nat) : Prop where
  phase : m.commit.curState ≠ .normal
  shape : Shape m
  rob : RobOk m.rob.fifo w.cmap w.flight
  rat : RatOk m.rat w.cmap (renamings (w.flight.take j))
  ids : (w.flight.map (·.op.robId)).head? = some m.commit.robItemId
  restore : 0 < j ∧ (w.flight.map (·.op.robId))[j - 1]? = some m.commit.restoreRobItemId
  committed : ∀ a ∈ archRegs, m.regfile.regDataValid (w.cmap a) = true ∧
    m.regfile.regData (w.cmap a) = w.arch.regs a
  free : ∀ p < phyRegNum, p ∉ live archRegs w.cmap (renamings (w.flight.take j)) →
    m.regfile.regDataValid p = false
  pc : (w.flight.map (·.op.pc)).head? = some w.arch.pc
  exception : m.commit.curState = .flush → ∃ e rest r, w.flight = e :: rest ∧
    e.status = .finished r ∧ r.hasException = true ∧ m.commit.robItem = robItemOf w.cmap e ∧
    Computes w.arch m.csrFile.value e r
  interrupt : m.commit.curState = .interruptFlush → m.commit.interruptPc = w.arch.pc ∧
    InterruptEnabled m.csrFile.value m.commit.interruptId = true
  drained : m.decodeRenameFifo.toList = [] ∧ m.fetchDecodeFifo.toList = [] ∧
    m.issue.issueQ.toList = [] ∧ (∀ u i, (m.unitFifos u i).toList = []) ∧ m.lsuHold = none ∧
    m.issue.busy = false
  ports : (∀ o ∈ m.renameReadregPort, o.enable = false) ∧
    (∀ o ∈ m.readregIssuePort, o.enable = false) ∧ (∀ r ∈ m.executeWbPorts, r.enable = false) ∧
    ∀ r ∈ m.wbCommitPort, r.enable = false
  store : StoreOk m.storeBuffer m.bus.memory { w with flight := [] }
  cp : m.checkpointBuffer.WF ∧ m.checkpointBuffer.popStatusSave = false
  first : m.fetch.waitFirstMemoryResult = false

end MyRiscvCore
