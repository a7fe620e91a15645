import MyRiscvCore.Component.Buffers

/-!
# MyRiscvCore — commit

`commit.cpp`: a state machine with three states. In `normal` it accepts an interrupt if one is
pending and enabled, or retires up to four finished instructions from the head of the ROB; a
retired branch ends the group, an instruction with an exception starts a trap. In `flush` and
`interruptFlush` it walks the ROB back from the tail, one entry per cycle, undoing the renamings
down to the excepting entry (the head, for an interrupt), and then enters the handler.
-/

namespace MyRiscvCore

/-- `state_t`. -/
inductive CommitPhase
  | normal | flush | interruptFlush
  deriving DecidableEq

structure CommitState where
  curState : CommitPhase
  robItem : RobItem
  robItemId : Nat
  restoreRobItemId : Nat
  interruptPc : Word
  interruptId : RiscvInterrupt
  deriving DecidableEq

namespace Commit

def reset : CommitState := ⟨.normal, default, 0, 0, 0, .machineExternal⟩

/-- `commit::reset` on a stage in use; the entries it was looking at stay. -/
def resetFrom (s : CommitState) : CommitState :=
  { s with curState := .normal, interruptPc := 0, interruptId := .machineExternal }

/-- What `commit::run` changes at once, the requests it queues, its feedback, and (for the log) the
entries it retires. -/
structure Ctx where
  state : CommitState
  rob : Rob
  checkpointBuffer : Fifo Checkpoint
  predictor : BranchPredictor
  perf : PerfCounters
  fb : CommitFeedbackPack
  needFlush : Bool
  robRequests : List (Fifo.Request RobItem)
  ratRequests : List Rat.Request
  regRequests : List Regfile.Request
  csrRequests : List Csrfile.Request
  cpRequests : List (Fifo.Request Checkpoint)
  acks : List RiscvInterrupt
  retired : List RobItem

/-- The requests of a retired entry that renamed its destination: free the previous register, whose
data become invalid, and commit the new one. -/
def retireDest (item : RobItem) (c : Ctx) : Ctx :=
  if item.oldPhyRegIdValid then
    { c with
      ratRequests := c.ratRequests ++ [.releaseMap item.oldPhyRegId, .commitMap item.newPhyRegId]
      regRequests := c.regRequests ++ [.write item.oldPhyRegId 0 false] }
  else c

/-- The part common to all retired entries. -/
def retireBase (item : RobItem) (c : Ctx) : Ctx :=
  let c := retireDest item { c with robRequests := c.robRequests ++ [.pop] }
  { c with
    rob := c.rob.countCommit
    csrRequests := c.csrRequests ++
      if item.csrNewvalueValid then [.write item.csrAddr item.csrNewvalue] else []
    retired := c.retired ++ [item] }

/-- The restored checkpoint of a mispredicted jump: only the visible registers stay valid, and
exactly their data are valid. -/
def cleanCheckpoint (cp : Checkpoint) : Checkpoint :=
  { cp with
    ratPhyMapTableValid := fun i =>
      if i < phyRegNum then cp.ratPhyMapTableValid i && cp.ratPhyMapTableVisible i
      else cp.ratPhyMapTableValid i
    phyRegfileDataValid := fun i =>
      if i < phyRegNum then cp.ratPhyMapTableVisible i else cp.phyRegfileDataValid i }

/-- `_cnt` of the loop over the physical registers. -/
def visibleCount (cp : Checkpoint) : Nat :=
  ((List.range phyRegNum).filter cp.ratPhyMapTableVisible).length

/-- The next pc reported for a retired jump. -/
def jumpNextPc (item : RobItem) : Word :=
  if item.bruJump then item.bruNextPc else item.pc + 4

/-- Whether a predicted jump was predicted right. -/
def predictionHit (item : RobItem) : Bool :=
  item.bruJump == item.predictedJump
    && (item.bruNextPc == item.predictedNextPc || !item.predictedJump)

/-- A mispredicted jump: restore its checkpoint and flush. -/
def mispredict (item : RobItem) (c : Ctx) : Except Halt Ctx := do
  let cp := c.checkpointBuffer.getItem item.checkpointId
  let cp ← if item.oldPhyRegIdValid then Rat.cpReleaseMap cp item.oldPhyRegId else pure cp
  assert .commit (visibleCount cp == 31)
  let cp := cleanCheckpoint cp
  return { c with
    perf := { c.perf with branchMiss := c.perf.branchMiss + 1 }
    predictor := c.predictor.updatePrediction item.pc item.instValue item.bruJump item.bruNextPc
      false
    ratRequests := c.ratRequests ++ [.restore cp]
    regRequests := c.regRequests ++ [.restore cp]
    fb := { c.fb with
      enable := true, flush := true, jumpEnable := true, jump := item.bruJump
      nextPc := jumpNextPc item }
    rob := { c.rob with fifo := c.rob.fifo.flush }
    checkpointBuffer := c.checkpointBuffer.flush
    needFlush := true }

/-- `mret`: `MIE` takes the value of `MPIE`. -/
def retireMret (csr : Csrfile) (item : RobItem) (c : Ctx) : Except Halt Ctx :=
  if item.isMret then do
    let mstatus ← csr.readSys csrMstatus
    return { c with
      csrRequests := c.csrRequests ++
        [.writeSys csrMstatus (setMie mstatus (getMpie mstatus))] }
  else .ok c

/-- The branch part of a retired entry; it always ends the group. -/
def retireBranch (csr : Csrfile) (item : RobItem) (c : Ctx) : Except Halt Ctx := do
  let c := { c with perf := { c.perf with branchNum := c.perf.branchNum + 1 } }
  let c ← retireMret csr item c
  if item.predicted then
    let c := { c with perf := { c.perf with branchPredicted := c.perf.branchPredicted + 1 } }
    if predictionHit item then
      return { c with
        perf := { c.perf with branchHit := c.perf.branchHit + 1 }
        predictor := c.predictor.updatePrediction item.pc item.instValue item.bruJump
          item.bruNextPc true
        cpRequests := c.cpRequests ++ [.pop] }
    else if item.checkpointIdValid then mispredict item c
    else .error (.assertion .commit)
  else
    return { c with
      fb := { c.fb with
        enable := true, jumpEnable := true, jump := item.bruJump, nextPc := jumpNextPc item } }

/-- The retire loop, with `robItemId` the entry to look at. -/
def retireLoop (csr : Csrfile) (firstId : Nat) : Nat → Ctx → Except Halt Ctx
  | 0, c => .ok c
  | rounds + 1, c => do
    let fifo := c.rob.fifo
    let id := c.state.robItemId
    let item := fifo.getItem id
    let c := { c with state := { c.state with robItem := item } }
    if !item.finish then return c
    let (nextId, nextValid) ← fifo.getNextId .rob id
    let c := { c with
      fb := { c.fb with
        nextHandleRobId := nextId
        nextHandleRobIdValid := nextValid && nextId != firstId
        committedRobId := c.fb.committedRobId ++ [id] } }
    if item.hasException then
      match fifo.getTailId with
      | none => .error (.assertion .commit)
      | some tailId =>
        return { c with
          state := { c.state with restoreRobItemId := tailId, curState := .flush }
          fb := { c.fb with enable := true, flush := true }
          needFlush := true }
    let c := retireBase item c
    if item.bruOp then retireBranch csr item c
    else
      let c := { c with state := { c.state with robItemId := nextId } }
      if nextValid && nextId != firstId then retireLoop csr firstId rounds c else return c

/-- The ROB entry of a result that arrives from write-back. -/
def finishItem (item : RobItem) (p : ExecuteWbPack) : RobItem :=
  { item with
    finish := true
    toExceptionInfo := p.toExceptionInfo
    toPredictInfo := p.toPredictInfo
    bruOp := p.opUnit == .bru
    bruJump := p.bruJump
    bruNextPc := p.bruNextPc
    csrNewvalue := p.csrNewvalue
    csrNewvalueValid := p.csrNewvalueValid }

/-- The input part of the `normal` state. -/
def finishRequests (fifo : Fifo RobItem) (port : List ExecuteWbPack) :
    List (Fifo.Request RobItem) :=
  (port.filter (·.enable)).map fun p => .setItem p.robId (finishItem (fifo.getItem p.robId) p)

/-- The `normal` state. -/
def runNormal (csr : Csrfile) (ii : InterruptInterface) (port : List ExecuteWbPack) (c : Ctx) :
    Except Halt Ctx := do
  let c ←
    match c.rob.fifo.getFrontId with
    | none => pure c
    | some frontId => do
      let item := c.rob.fifo.getItem frontId
      let c := { c with
        state := { c.state with robItemId := frontId, robItem := item }
        fb := { c.fb with
          enable := true, nextHandleRobId := frontId, nextHandleRobIdValid := true } }
      match ← ii.getCause csr with
      | some cause =>
        match c.rob.fifo.getTailId with
        | none => .error (.assertion .commit)
        | some tailId =>
          pure { c with
            state := { c.state with
              interruptPc := item.pc, interruptId := cause, restoreRobItemId := tailId
              curState := .interruptFlush }
            fb := { c.fb with flush := true }
            needFlush := true }
      | none => retireLoop csr frontId commitWidth c
  if !c.needFlush then
    return { c with robRequests := c.robRequests ++ finishRequests c.rob.fifo port }
  else return c

/-- The end of a walk: empty the ROB and go to the handler. -/
def enterHandler (csr : Csrfile) (c : Ctx) : Except Halt Ctx := do
  let mtvec ← csr.readSys csrMtvec
  return { c with
    rob := { c.rob.countCommit with fifo := c.rob.fifo.flush }
    fb := { c.fb with enable := true, hasException := true, exceptionPc := mtvec, flush := true }
    state := { c.state with curState := .normal } }

/-- The trap CSRs of an exception. `mstatus` is not touched. -/
def exceptionEntry (s : CommitState) : List Csrfile.Request :=
  [.writeSys csrMepc s.robItem.pc,
    .writeSys csrMtval s.robItem.exceptionValue,
    .writeSys csrMcause s.robItem.exceptionId.code]

/-- The trap CSRs of an interrupt. -/
def interruptEntry (csr : Csrfile) (s : CommitState) : Except Halt (List Csrfile.Request) := do
  let mstatus ← csr.readSys csrMstatus
  let mstatus := setMpie mstatus (getMie mstatus)
  let mstatus := setMie mstatus false
  return [.writeSys csrMepc s.interruptPc,
    .writeSys csrMtval 0,
    .writeSys csrMcause (0x80000000 ||| s.interruptId.code),
    .writeSys csrMstatus mstatus]

/-- The `flush` and `interruptFlush` states: undo the renaming of one entry and step back, or
finish. -/
def runWalk (csr : Csrfile) (c : Ctx) : Except Halt Ctx := do
  let id := c.state.restoreRobItemId
  let item := c.rob.fifo.getItem id
  let c := if item.oldPhyRegIdValid then
      { c with
        ratRequests := c.ratRequests ++ [.restoreMap item.newPhyRegId item.oldPhyRegId]
        regRequests := c.regRequests ++ [.write item.newPhyRegId 0 false] }
    else c
  let (prevId, prevValid) ← c.rob.fifo.getPrevId .rob id
  if id != c.state.robItemId && prevValid then
    return { c with
      state := { c.state with restoreRobItemId := prevId }
      fb := { c.fb with enable := true, flush := true } }
  else if c.state.curState = .flush then
    let c := { c with csrRequests := c.csrRequests ++ exceptionEntry c.state }
    enterHandler csr c
  else
    let requests ← interruptEntry csr c.state
    let c := { c with
      csrRequests := c.csrRequests ++ requests, acks := c.acks ++ [c.state.interruptId] }
    enterHandler csr c

/-- `commit::run`. -/
def run (csr : Csrfile) (ii : InterruptInterface) (port : List ExecuteWbPack) (state : CommitState)
    (rob : Rob) (checkpointBuffer : Fifo Checkpoint) (predictor : BranchPredictor)
    (perf : PerfCounters) : Except Halt Ctx :=
  let c : Ctx := {
    state := state, rob := rob, checkpointBuffer := checkpointBuffer, predictor := predictor
    perf := perf, fb := default, needFlush := false, robRequests := [], ratRequests := []
    regRequests := [], csrRequests := [], cpRequests := [], acks := [], retired := [] }
  if state.curState = .normal then runNormal csr ii port c else runWalk csr c

end Commit

end MyRiscvCore
