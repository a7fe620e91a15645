import MyRiscvCore.Component.Buffers

/-!
# MyRiscvCore — rename

`rename.cpp`. Up to four decoded instructions are renamed per cycle. The alias table itself changes
only at the end of the cycle, so dependences inside the group are patched from the operations
already renamed in it: a source takes the newest destination before it, and the previous mapping of
a destination is the newest earlier destination of the same register. `globalCp` follows the table
through the group, so that a predicted jump's checkpoint holds the map right after that jump.
-/

namespace MyRiscvCore

namespace Rename

/-- The locals of `rename::run` and the structures it changes at once. `ops` are the operations
renamed so far, in order. -/
structure Ctx where
  fifo : Fifo DecodeRenamePack
  rob : Rob
  perf : PerfCounters
  ops : List RenameReadregOp
  phyRegReqCnt : Nat
  robReqCnt : Nat
  usedPhyRegCnt : Nat
  globalCp : Checkpoint
  ratRequests : List Rat.Request
  cpRequests : List (Fifo.Request Checkpoint)

/-- The `old_phy_reg_id` feedback: the newest operation of the group before this one that renames
the same destination. -/
def oldPhyFeedback (ops : List RenameReadregOp) (rd : Nat) : Option Nat :=
  (ops.reverse.find? fun p => p.enable && p.valid && p.needRename && rd == p.rd).map (·.rdPhy)

/-- The source feedback: the newest operation of the group before this one whose destination is
`rs`, if `rs` needs mapping. -/
def sourceFeedback (ops : List RenameReadregOp) (needMap : Bool) (rs phy : Nat) : Nat :=
  ops.foldl
    (fun phy p => if p.enable && p.valid && p.rdEnable && (needMap && rs == p.rd) then p.rdPhy
      else phy) phy

/-- `assert(rat->get_phy_id(arch_id, &phy_id))`. -/
def mapped (rat : Rat) (archId : Nat) : Except Halt Nat := do
  match ← rat.getPhyId archId with
  | some phyId => return phyId
  | none => .error (.assertion .rename)

/-- A source register through the table, or 0 where it needs none. -/
def mapSource (rat : Rat) (needMap : Bool) (rs : Nat) : Except Halt Nat :=
  if needMap then mapped rat rs else .ok 0

/-- The destination part: for a valid operation with a destination, the previous mapping, the new
register and the context with the new mapping queued. -/
def renameDest (rat : Rat) (newPhyRegId : List Nat) (revPack : DecodeRenamePack) (c : Ctx) :
    Except Halt (Option Nat × Nat × Ctx) :=
  if revPack.valid && revPack.needRename then do
    let oldPhy ← mapped rat revPack.rd
    let rdPhy := newPhyRegId.getD c.usedPhyRegCnt 0
    let request ← Rat.setMapSync revPack.rd rdPhy
    let globalCp ← Rat.cpSetMap c.globalCp revPack.rd rdPhy
    let oldPhy := (oldPhyFeedback c.ops revPack.rd).getD oldPhy
    return (some oldPhy, rdPhy, { c with
      usedPhyRegCnt := c.usedPhyRegCnt + 1
      globalCp := globalCp
      ratRequests := c.ratRequests ++ [request] })
  else .ok (none, 0, c)

/-- The ROB entry of an operation. -/
def robItem (revPack : DecodeRenamePack) (rdPhy : Nat) (oldPhy : Option Nat) : RobItem :=
  { (default : RobItem) with
    oldPhyRegIdValid := oldPhy.isSome
    oldPhyRegId := oldPhy.getD 0
    newPhyRegId := rdPhy
    finish := false
    pc := revPack.pc
    instValue := revPack.value
    toExceptionInfo := revPack.toExceptionInfo
    isMret := revPack.op == .mret
    csrAddr := revPack.csr }

/-- The checkpoint of a predicted jump: the map after it, and the histories its fetch saved.
`uninit` is the contents of the local `checkpoint_t cp`, which is not initialised. -/
def checkpointOf (uninit : Checkpoint) (checkpointBuffer : Fifo Checkpoint) (globalCp : Checkpoint)
    (checkpointId : Nat) : Checkpoint :=
  let cp := globalCp.clone uninit
  let origin := checkpointBuffer.getItem checkpointId
  { cp with globalHistory := origin.globalHistory, localHistory := origin.localHistory }

/-- The ROB part: the id of the new entry and the ROB with it, both asserted to exist. -/
def pushRob (fifo : Fifo RobItem) (item : RobItem) : Except Halt (Nat × Fifo RobItem) :=
  match fifo.getNewId, fifo.push item with
  | some id, some fifo => .ok (id, fifo)
  | _, _ => .error (.assertion .rename)

/-- Rename one enabled operation, which has been popped. -/
def renameOne (rat : Rat) (uninit : Checkpoint) (checkpointBuffer : Fifo Checkpoint)
    (newPhyRegId : List Nat) (revPack : DecodeRenamePack) (c : Ctx) : Except Halt Ctx := do
  let (oldPhy, rdPhy, c) ← renameDest rat newPhyRegId revPack c
  let (robId, fifo) ← pushRob c.rob.fifo (robItem revPack rdPhy oldPhy)
  -- map source registers
  let rs1Phy ← mapSource rat revPack.rs1NeedMap revPack.rs1
  let rs2Phy ← mapSource rat revPack.rs2NeedMap revPack.rs2
  let op : RenameReadregOp := {
    toDecodeRenamePack := revPack
    robId := robId
    rdPhy := rdPhy
    rs1Phy := if revPack.valid then sourceFeedback c.ops revPack.rs1NeedMap revPack.rs1 rs1Phy
      else rs1Phy
    rs2Phy := if revPack.valid then sourceFeedback c.ops revPack.rs2NeedMap revPack.rs2 rs2Phy
      else rs2Phy }
  let cpRequests :=
    if revPack.valid && revPack.predicted && revPack.checkpointIdValid then
      [Fifo.Request.setItem revPack.checkpointId
        (checkpointOf uninit checkpointBuffer c.globalCp revPack.checkpointId)]
    else []
  return { c with
    rob := { c.rob with fifo := fifo }
    ops := c.ops ++ [op]
    cpRequests := c.cpRequests ++ cpRequests }

/-- The rename loop. -/
def renameLoop (rat : Rat) (uninit : Checkpoint) (checkpointBuffer : Fifo Checkpoint) :
    Nat → Ctx → Except Halt Ctx
  | 0, c => .ok c
  | rounds + 1, c =>
    match c.fifo.pop with
    | none => .ok c
    | some (revPack, fifo) =>
      let c := { c with
        phyRegReqCnt := c.phyRegReqCnt +
          if revPack.enable && revPack.valid && revPack.needRename then 1 else 0
        robReqCnt := c.robReqCnt + if revPack.enable then 1 else 0 }
      let newPhyRegId := rat.getFreePhyId c.phyRegReqCnt
      if newPhyRegId.length ≥ c.phyRegReqCnt && c.rob.getFreeSpace ≥ 1 then do
        let c := { c with fifo := fifo }
        let c ← if revPack.enable then
            renameOne rat uninit checkpointBuffer newPhyRegId revPack c
          else pure { c with ops := c.ops ++ [default] }
        renameLoop rat uninit checkpointBuffer rounds c
      else if newPhyRegId.length < c.phyRegReqCnt then
        -- not enough physical registers
        let perf := { c.perf with phyRegfileFull := c.perf.phyRegfileFull + 1 }
        .ok { c with
          perf := if c.rob.getFreeSpace < c.robReqCnt then { perf with robFull := perf.robFull + 1 }
            else perf }
      else .ok { c with perf := { c.perf with robFull := c.perf.robFull + 1 } }

/-- An array of four operation slots, the unused ones zeroed. -/
def slots {α : Type} [Inhabited α] (ops : List α) : List α :=
  ops ++ List.replicate (renameWidth - ops.length) default

/-- What `rename::run` leaves. -/
structure Out where
  fifo : Fifo DecodeRenamePack
  rob : Rob
  perf : PerfCounters
  port : List RenameReadregOp
  ratRequests : List Rat.Request
  cpRequests : List (Fifo.Request Checkpoint)
  /-- The operations renamed in this cycle. -/
  renamed : List RenameReadregOp

/-- `rename::run`; the `idle` feedback is `fifo.isEmpty` before it. -/
def run (rat : Rat) (uninit : Checkpoint) (checkpointBuffer : Fifo Checkpoint)
    (fifo : Fifo DecodeRenamePack) (rob : Rob) (perf : PerfCounters) (port : List RenameReadregOp)
    (stall : Bool) (fb : CommitFeedbackPack) : Except Halt Out := do
  if !fb.flushing then
    if !stall then
      let c ← renameLoop rat uninit checkpointBuffer renameWidth {
        fifo := fifo, rob := rob, perf := perf, ops := [], phyRegReqCnt := 0, robReqCnt := 0
        usedPhyRegCnt := 0, globalCp := rat.save uninit, ratRequests := [], cpRequests := [] }
      return {
        fifo := c.fifo, rob := c.rob, perf := c.perf, port := slots c.ops
        ratRequests := c.ratRequests, cpRequests := c.cpRequests, renamed := c.ops }
    else return ⟨fifo, rob, perf, port, [], [], []⟩
  else return ⟨fifo, rob, perf, slots [], [], [], []⟩

end Rename

end MyRiscvCore
