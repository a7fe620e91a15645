import MyRiscvCore.Component.Rat

/-!
# MyRiscvCore — branch predictor

`branch_predictor.h` with the return-address stack of `ras.h`. Conditional branches are predicted by
a chooser (`cpht`) between a global-history and a local-history table of 2-bit counters; `jal` is
always predicted, to its computed target; `jalr` is predicted from the return-address stack or from
one of two target caches. Nothing here is architectural: the tables are total functions and no
property of their contents is assumed, so a prediction may be anything the code can answer.

`update_prediction_sync` is called by no stage, so the predictor has no queued requests.
-/

namespace MyRiscvCore

/-! ## Return-address stack (`ras.h`, `stack.h`) -/

structure RasItem where
  addr : Word
  cnt : Word
  deriving DecidableEq

abbrev rasSize : Nat := 256

/-- The stack, top first, and the address of the last pop that removed an item. -/
structure Ras where
  items : List RasItem
  lastAddr : Word
  deriving DecidableEq

namespace Ras

/-- `push_addr`, and whether the stack was full (`ras_full_add`). A run of equal addresses is one
item with a count; a new run on a full stack throws the oldest run away. -/
def pushAddr (r : Ras) (addr : Word) : Ras × Bool :=
  match r.items with
  | top :: rest =>
    if top.addr = addr ∧ top.cnt < 0xFFFFFFFF then
      ({ r with items := { top with cnt := top.cnt + 1 } :: rest }, false)
    else if r.items.length = rasSize then
      ({ r with items := ⟨addr, 1⟩ :: r.items.dropLast }, true)
    else ({ r with items := ⟨addr, 1⟩ :: r.items }, false)
  | [] => ({ r with items := [⟨addr, 1⟩] }, false)

/-- `pop_addr`. -/
def popAddr (r : Ras) : Word × Ras :=
  match r.items with
  | top :: rest =>
    if top.cnt = 1 then (top.addr, ⟨rest, top.addr⟩)
    else (top.addr, { r with items := { top with cnt := top.cnt - 1 } :: rest })
  | [] => (r.lastAddr, r)

end Ras

/-! ## Instruction fields -/

def opcodeOf (inst : Word) : Word := inst &&& 0x7f
def rdOf (inst : Word) : Word := (inst >>> 7) &&& 0x1f
def funct3Of (inst : Word) : Word := (inst >>> 12) &&& 0x07
def rs1Of (inst : Word) : Word := (inst >>> 15) &&& 0x1f
def rs2Of (inst : Word) : Word := (inst >>> 20) &&& 0x1f
def funct7Of (inst : Word) : Word := (inst >>> 25) &&& 0x7f
def immIOf (inst : Word) : Word := (inst >>> 20) &&& 0xfff
def immSOf (inst : Word) : Word :=
  ((inst >>> 7) &&& 0x1f) ||| (((inst >>> 25) &&& 0x7f) <<< 5)
def immBOf (inst : Word) : Word :=
  (((inst >>> 8) &&& 0x0f) <<< 1) ||| (((inst >>> 25) &&& 0x3f) <<< 5) |||
    (((inst >>> 7) &&& 0x01) <<< 11) ||| (((inst >>> 31) &&& 0x01) <<< 12)
def immUOf (inst : Word) : Word := inst &&& ~~~0xfff
def immJOf (inst : Word) : Word :=
  (((inst >>> 12) &&& 0xff) <<< 12) ||| (((inst >>> 20) &&& 0x01) <<< 11) |||
    (((inst >>> 21) &&& 0x3ff) <<< 1) ||| (((inst >>> 31) &&& 0x01) <<< 20)

/-- `rd_is_link`, `rs1_is_link`. -/
def isLink (reg : Word) : Bool := reg == 1 || reg == 5

/-! ## Tables -/

/-- The 12-bit history and address masks of `config.h`. -/
abbrev historyMask : Word := 0xfff

structure BranchPredictor where
  gshareGlobalHistory : Word
  gshareGlobalHistoryRetired : Word
  gsharePht : Word → Word
  localBht : Word → Word
  localBhtRetired : Word → Word
  localPht : Word → Word
  cpht : Word → Word
  mainRas : Ras
  callGlobalHistory : Word
  callTargetCache : Word → Word
  normalGlobalHistory : Word
  normalTargetCache : Word → Word

namespace BranchPredictor

/-- The zero-initialised static object. -/
def zero : BranchPredictor where
  gshareGlobalHistory := 0
  gshareGlobalHistoryRetired := 0
  gsharePht := fun _ => 0
  localBht := fun _ => 0
  localBhtRetired := fun _ => 0
  localPht := fun _ => 0
  cpht := fun _ => 0
  mainRas := ⟨[], 0⟩
  callGlobalHistory := 0
  callTargetCache := fun _ => 0
  normalGlobalHistory := 0
  normalTargetCache := fun _ => 0

/-- `reset`: the tables and histories that it clears. `local_bht_retired` is not among them. -/
def reset (b : BranchPredictor) : BranchPredictor where
  gshareGlobalHistory := 0
  gshareGlobalHistoryRetired := 0
  gsharePht := fun _ => 0
  localBht := fun _ => 0
  localBhtRetired := b.localBhtRetired
  localPht := fun _ => 0
  cpht := fun _ => 0
  mainRas := ⟨[], 0⟩
  callGlobalHistory := 0
  callTargetCache := fun _ => 0
  normalGlobalHistory := 0
  normalTargetCache := fun _ => 0

/-- `pc_p1`: the part of the pc that addresses every table (`*_PC_P2_ADDR_WIDTH` is 0). -/
def pcP1 (pc : Word) : Word := (pc >>> 2) &&& historyMask

def shiftHistory (history : Word) (jump : Bool) : Word :=
  ((history <<< 1) &&& historyMask) ||| (if jump then 1 else 0)

/-- A saturating 2-bit counter moving with the branch's direction. -/
def countDirection (pht : Word → Word) (addr : Word) (jump : Bool) : Word → Word :=
  if jump then
    if pht addr < 3 then Function.update pht addr (pht addr + 1) else pht
  else
    if pht addr > 0 then Function.update pht addr (pht addr - 1) else pht

def gshareGetPrediction (b : BranchPredictor) (pc : Word) : Bool :=
  b.gsharePht (b.gshareGlobalHistory ^^^ pcP1 pc) ≥ 2

def gshareUpdatePrediction (b : BranchPredictor) (pc : Word) (jump hit : Bool) :
    BranchPredictor :=
  let phtAddr := b.gshareGlobalHistoryRetired ^^^ pcP1 pc
  let retired := shiftHistory b.gshareGlobalHistoryRetired jump
  { b with
    gsharePht := countDirection b.gsharePht phtAddr jump
    gshareGlobalHistoryRetired := retired
    gshareGlobalHistory := if hit then b.gshareGlobalHistory else retired }

def localGetPrediction (b : BranchPredictor) (pc : Word) : Bool :=
  b.localPht (b.localBht (pcP1 pc) ^^^ pcP1 pc) ≥ 2

def localUpdatePrediction (b : BranchPredictor) (pc : Word) (jump hit : Bool) :
    BranchPredictor :=
  let phtAddr := b.localBhtRetired (pcP1 pc) ^^^ pcP1 pc
  let retired := Function.update b.localBhtRetired (pcP1 pc)
    (shiftHistory (b.localBhtRetired (pcP1 pc)) jump)
  { b with
    localBhtRetired := retired
    localPht := countDirection b.localPht phtAddr jump
    localBht := if hit then b.localBht
      else Function.update b.localBht (pcP1 pc) (retired (pcP1 pc)) }

def cphtGetPrediction (b : BranchPredictor) (pc : Word) : Bool :=
  b.cpht (b.gshareGlobalHistory ^^^ pcP1 pc) ≤ 1

def cphtUpdatePrediction (b : BranchPredictor) (pc : Word) (hit : Bool) : BranchPredictor :=
  let addr := b.gshareGlobalHistory ^^^ pcP1 pc
  let v := b.cpht addr
  let v' :=
    if v ≤ 1 then
      if hit && v > 0 then v - 1 else if !hit then v + 1 else v
    else
      if hit && v < 3 then v + 1 else if !hit then v - 1 else v
  { b with cpht := Function.update b.cpht addr v' }

def callUpdatePrediction (b : BranchPredictor) (pc : Word) (jump : Bool) (target : Word) :
    BranchPredictor :=
  { b with
    callTargetCache :=
      Function.update b.callTargetCache (b.callGlobalHistory ^^^ pcP1 pc) target
    callGlobalHistory := shiftHistory b.callGlobalHistory jump }

def normalUpdatePrediction (b : BranchPredictor) (pc : Word) (jump : Bool) (target : Word) :
    BranchPredictor :=
  { b with
    normalTargetCache :=
      Function.update b.normalTargetCache (b.normalGlobalHistory ^^^ pcP1 pc) target
    normalGlobalHistory := shiftHistory b.normalGlobalHistory jump }

def callGetPrediction (b : BranchPredictor) (pc : Word) : Word :=
  b.callTargetCache (b.callGlobalHistory ^^^ pcP1 pc)

def normalGetPrediction (b : BranchPredictor) (pc : Word) : Word :=
  b.normalTargetCache (b.normalGlobalHistory ^^^ pcP1 pc)

/-- `save`: the histories a checkpoint keeps. -/
def save (b : BranchPredictor) (cp : Checkpoint) (pc : Word) : Checkpoint :=
  { cp with
    globalHistory := b.gshareGlobalHistory
    localHistory := b.localBht (pcP1 pc) }

/-- What `get_prediction` leaves: the predicted direction and target, or `none` for the answer
`false`; the stack may move in either case. `rasFull` counts `ras_full_add`. -/
structure Prediction where
  answer : Option (Bool × Word)
  predictor : BranchPredictor
  rasFull : Bool

/-- `push_addr(pc + 4)` on the way to the prediction of target `nextPc`. -/
def predictCall (b : BranchPredictor) (pc nextPc : Word) : Prediction :=
  let pushed := b.mainRas.pushAddr (pc + 4)
  ⟨some (true, nextPc), { b with mainRas := pushed.1 }, pushed.2⟩

/-- `get_prediction`. -/
def getPrediction (b : BranchPredictor) (pc inst : Word) : Prediction :=
  let rd := rdOf inst
  let rs1 := rs1Of inst
  let funct3 := funct3Of inst
  if opcodeOf inst = 0x6f then
    let nextPc := pc + signExtend (immJOf inst) 21
    if isLink rd then b.predictCall pc nextPc else ⟨some (true, nextPc), b, false⟩
  else if opcodeOf inst = 0x67 then
    if isLink rd then
      if isLink rs1 then
        if rs1 = rd then b.predictCall pc (b.callGetPrediction pc)
        else
          -- pop, then push: coroutine switch
          let popped := b.mainRas.popAddr
          predictCall { b with mainRas := popped.2 } pc popped.1
      else b.predictCall pc (b.callGetPrediction pc)
    else if isLink rs1 then
      let popped := b.mainRas.popAddr
      ⟨some (true, popped.1), { b with mainRas := popped.2 }, false⟩
    else ⟨some (true, b.normalGetPrediction pc), b, false⟩
  else if opcodeOf inst = 0x63 then
    let jump := if !b.cphtGetPrediction pc then b.localGetPrediction pc
      else b.gshareGetPrediction pc
    let nextPc := if jump then pc + signExtend (immBOf inst) 13 else pc + 4
    if funct3 = 2 ∨ funct3 = 3 then ⟨none, b, false⟩ else ⟨some (jump, nextPc), b, false⟩
  else ⟨none, b, false⟩

/-- `update_prediction_guess`. -/
def updatePredictionGuess (b : BranchPredictor) (pc inst : Word) (jump : Bool) :
    BranchPredictor :=
  if opcodeOf inst = 0x63 then
    { b with
      gshareGlobalHistory := shiftHistory b.gshareGlobalHistory jump
      localBht := Function.update b.localBht (pcP1 pc)
        (shiftHistory (b.localBht (pcP1 pc)) jump) }
  else b

/-- `update_prediction_bru_guess`. -/
def updatePredictionBruGuess (b : BranchPredictor) (cp : Checkpoint) (pc inst : Word)
    (jump hit : Bool) : BranchPredictor :=
  if opcodeOf inst = 0x63 ∧ !hit then
    { b with
      gshareGlobalHistory := shiftHistory cp.globalHistory jump
      localBht := Function.update b.localBht (pcP1 pc) (shiftHistory cp.localHistory jump) }
  else b

/-- `update_prediction`. -/
def updatePrediction (b : BranchPredictor) (pc inst : Word) (jump : Bool) (nextPc : Word)
    (hit : Bool) : BranchPredictor :=
  if opcodeOf inst = 0x63 then
    ((b.gshareUpdatePrediction pc jump hit).localUpdatePrediction pc jump hit).cphtUpdatePrediction
      pc hit
  else if opcodeOf inst = 0x67 then
    if isLink (rdOf inst) then
      if isLink (rs1Of inst) then
        if rs1Of inst = rdOf inst then b.callUpdatePrediction pc jump nextPc else b
      else b.callUpdatePrediction pc jump nextPc
    else if isLink (rs1Of inst) then b
    else b.normalUpdatePrediction pc jump nextPc
  else b

end BranchPredictor

end MyRiscvCore
