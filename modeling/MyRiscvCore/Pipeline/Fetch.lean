import MyRiscvCore.Component.Buffers

/-!
# MyRiscvCore — fetch

`fetch.cpp`. A cycle fetches up to four consecutive words. A jump word ends the group: either it is
predicted, with a checkpoint pushed for it, and fetch goes on at the predicted pc; or it is not
(no prediction for this word, or no room in the checkpoint buffer) and fetch waits until commit
reports the jump (`jump_wait`). Before the group is fetched, the four words are read once for the
trace; these reads abort on a misaligned address in a mapped region.
-/

namespace MyRiscvCore

structure FetchState where
  pc : Word
  jumpWait : Bool
  waitFirstMemoryResult : Bool
  deriving DecidableEq

namespace Fetch

def reset : FetchState := ⟨initPc, false, true⟩

/-- The words after which fetch does not simply go on at `pc + 4`: `jal`, `jalr`, the branches, and
`mret`. -/
def isJump (inst : Word) : Bool :=
  opcodeOf inst == 0x6f || opcodeOf inst == 0x67 || opcodeOf inst == 0x63 || inst == 0x30200073

def isFenceI (inst : Word) : Bool :=
  opcodeOf inst == 0x0f && funct3Of inst == 0x01

/-- What the fetch loop changes. -/
structure Ctx where
  state : FetchState
  fifo : Fifo FetchDecodePack
  checkpointBuffer : Fifo Checkpoint
  predictor : BranchPredictor
  perf : PerfCounters

/-- The pack of a word that is not a predicted jump. -/
def plainPack (pc value : Word) (hasException : Bool) : FetchDecodePack where
  pc := pc
  value := value
  enable := true
  hasException := hasException
  exceptionId := if hasException then .instructionAddressMisaligned else .instructionAccessFault
  exceptionValue := pc
  toPredictInfo := default

/-- The `if(jump)` part: ask the predictor, try to push a checkpoint, and decide where to go on.
`uninit` is the contents of the local `checkpoint_t cp`, which is not initialised. -/
def handleJump (uninit : Checkpoint) (c : Ctx) (pack : FetchDecodePack) : Ctx × FetchDecodePack :=
  let pc := pack.pc
  let prediction := c.predictor.getPrediction pc pack.value
  let perf := if prediction.rasFull then { c.perf with rasFull := c.perf.rasFull + 1 } else c.perf
  let wait : FetchState := { c.state with jumpWait := true, pc := pc + 4 }
  match prediction.answer with
  | some (jump, nextPc) =>
    let cp := prediction.predictor.save uninit pc
    let predictor := prediction.predictor.updatePredictionGuess pc pack.value jump
    match c.checkpointBuffer.push cp with
    | none =>
      ({ c with
          predictor := predictor
          perf := { perf with checkpointBufferFull := perf.checkpointBufferFull + 1 }
          state := wait },
        { pack with checkpointId := c.checkpointBuffer.wptr })
    | some checkpointBuffer =>
      ({ c with
          predictor := predictor, perf := perf, checkpointBuffer := checkpointBuffer
          state := { c.state with pc := if jump then nextPc else pc + 4, jumpWait := false } },
        { pack with
          checkpointIdValid := true, checkpointId := c.checkpointBuffer.wptr
          predicted := true, predictedJump := jump, predictedNextPc := nextPc })
  | none => ({ c with predictor := prediction.predictor, perf := perf, state := wait }, pack)

/-- The word at a pc; at a misaligned pc it is 0 and the bus is not read. -/
def fetchWord (bus : Bus) (pc : Word) : Except Halt Word :=
  if !Bus.checkAlign pc .word then .ok 0 else bus.read32 pc

/-- Push the pack of one fetched word and go on. -/
def fetchOne (uninit : Checkpoint) (pc opcode : Word) (c : Ctx) : Ctx :=
  let pack := plainPack pc opcode (!Bus.checkAlign pc .word)
  let (c, pack) :=
    if isJump opcode then handleJump uninit c pack
    else ({ c with state := { c.state with pc := pc + 4 } }, pack)
  { c with fifo := (c.fifo.push pack).getD c.fifo }

/-- The fetch loop from slot `i` on. `gate` is the condition, other than its slot, that holds a
`fence.i` back. -/
def fetchLoop (bus : Bus) (uninit : Checkpoint) (gate : Bool) (oldPc : Word) :
    Nat → Nat → Ctx → Except Halt Ctx
  | 0, _, c => .ok c
  | rounds + 1, i, c =>
    if !c.fifo.isFull then do
      let curPc := oldPc + BitVec.ofNat 32 (i * 4)
      let opcode ← fetchWord bus curPc
      if isFenceI opcode && (i != 0 || gate) then return c
      let c := fetchOne uninit curPc opcode c
      if isJump opcode then
        return { c with perf := { c.perf with fetchNotFull := c.perf.fetchNotFull + 1 } }
      fetchLoop bus uninit gate oldPc rounds (i + 1) c
    else
      fetchLoop bus uninit gate oldPc rounds (i + 1)
        { c with perf := { c.perf with fetchDecodeFifoFull := c.perf.fetchDecodeFifoFull + 1 } }

/-- `fetch::run`. -/
def run (bus : Bus) (storeBuffer : StoreBuffer) (uninit : Checkpoint) (c : Ctx)
    (decodeIdle renameIdle : Bool) (fb : CommitFeedbackPack) : Except Halt Ctx := do
  let s := c.state
  if s.waitFirstMemoryResult then
    return { c with state := { s with waitFirstMemoryResult := false } }
  else if !fb.flushing then
    if s.jumpWait then
      if fb.jumpEnable then
        return { c with
          state := { s with jumpWait := false, pc := if fb.jump then fb.nextPc else s.pc } }
      else return c
    else
      -- the trace of the fetched words
      (List.range fetchWidth).forM fun i => do
        let _ ← bus.read32 (s.pc + BitVec.ofNat 32 (i * 4))
      let gate := !decodeIdle || !renameIdle || fb.enable || !storeBuffer.isEmpty
      fetchLoop bus uninit gate s.pc fetchWidth 0 c
  else
    let pc := if fb.hasException then fb.exceptionPc
      else if fb.jumpEnable then fb.nextPc else s.pc
    return { c with fifo := c.fifo.flush, state := { s with jumpWait := false, pc := pc } }

end Fetch

end MyRiscvCore
