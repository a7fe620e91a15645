import MyRiscvCore.Pipeline.Rename

/-!
# MyRiscvCore — register read and issue

`readreg.cpp` and `issue.cpp`. An operand enters an instruction's record at one of five moments:
from the register file or from a feedback channel in `readreg`; from either on insertion into the
issue queue; from a channel while it waits there; or from a channel when it is selected. The
channels are those of the execute stage of this cycle and of the write-back stage, one per unit.

`issue::run` selects at most two queue items in a first pass (`select`), sends them to the unit
FIFOs in a second pass (`dispatch`), wakes up the items that stay, takes over the slots handed in
by `readreg` and finally removes the selected items from the queue.
-/

namespace MyRiscvCore

/-- The execute and write-back feedback of a cycle, channel by channel. -/
abbrev Channels := List (FeedbackChannel × FeedbackChannel)

def FeedbackChannel.carries (ch : FeedbackChannel) (phy : Nat) : Bool :=
  ch.enable && phy == ch.phyId

/-- The first channel, in the order execute 0, write-back 0, execute 1, ..., that carries the
register. -/
def firstFeedback (chs : Channels) (phy : Nat) : Option Word :=
  chs.findSome? fun ch =>
    if ch.1.carries phy then some ch.1.value
    else if ch.2.carries phy then some ch.2.value
    else none

/-! ## Register read -/

namespace Readreg

/-- One operand of a valid operation: its value and whether it is loaded. -/
def readOperand (regfile : Regfile) (chs : Channels) (needMap : Bool) (phy : Nat) (src : ArgSrc)
    (imm : Word) : Except Halt (Word × Bool) :=
  if needMap then do
    let value ← regfile.read phy
    if ← regfile.readDataValid phy then return (value, true)
    else
      match firstFeedback chs phy with
      | some value => return (value, true)
      | none => return (0, false)
  else if src = .imm then .ok (imm, true)
  else .ok (0, true)

/-- One slot. An invalid or unused slot passes with its (zero) operands marked loaded. -/
def readOp (regfile : Regfile) (chs : Channels) (op : RenameReadregOp) :
    Except Halt ReadregIssueOp :=
  if op.enable && op.valid then do
    let src1 ← readOperand regfile chs op.rs1NeedMap op.rs1Phy op.arg1Src op.imm
    let src2 ← readOperand regfile chs op.rs2NeedMap op.rs2Phy op.arg2Src op.imm
    return ⟨op, src1.1, src1.2, src2.1, src2.2⟩
  else .ok ⟨op, 0, true, 0, true⟩

/-- `readreg::run`: the new contents of the readreg-to-issue port. -/
def run (regfile : Regfile) (chs : Channels) (renamePort : List RenameReadregOp)
    (issuePort : List ReadregIssueOp) (stall : Bool) (fb : CommitFeedbackPack) :
    Except Halt (List ReadregIssueOp) :=
  if !fb.flushing then
    if !stall then renamePort.mapM (readOp regfile chs) else .ok issuePort
  else .ok (Rename.slots [])

end Readreg

/-! ## Issue -/

/-- The number of units of each kind. -/
def unitNum : OpUnit → Nat
  | .alu => 2
  | .bru => 1
  | .csr => 1
  | .div => 1
  | .lsu => 1
  | .mul => 2

/-- The issue-to-execute FIFOs: `issue_alu_fifo[i]`, `issue_bru_fifo[i]`, ... -/
abbrev UnitFifos := OpUnit → Nat → Fifo IssueExecutePack

/-- Replace the FIFO of one unit. -/
def UnitFifos.set (fifos : UnitFifos) (unit : OpUnit) (i : Nat) (f : Fifo IssueExecutePack) :
    UnitFifos :=
  Function.update fifos unit (Function.update (fifos unit) i f)

theorem UnitFifos.set_self (fifos : UnitFifos) (u : OpUnit) (i : Nat) (f : Fifo IssueExecutePack) :
    fifos.set u i f u i = f := by
  simp [UnitFifos.set]

theorem UnitFifos.set_of_ne (fifos : UnitFifos) {u u' : OpUnit} {i i' : Nat}
    (f : Fifo IssueExecutePack) (h : (u', i') ≠ (u, i)) : fifos.set u i f u' i' = fifos u' i' := by
  unfold UnitFifos.set
  by_cases hu : u' = u
  · subst hu
    rw [Function.update_self, Function.update_of_ne]
    rintro rfl
    exact h rfl
  · rw [Function.update_of_ne hu]

structure IssueState where
  issueQ : Fifo ReadregIssueOp
  busy : Bool
  isInstWaiting : Bool
  instWaitingRobId : Nat
  lastIndex : Nat
  /-- `alu_index`, `bru_index`, ...: where the round-robin dispatch of each unit starts. -/
  unitIndex : OpUnit → Nat

namespace Issue

def reset : IssueState where
  issueQ := Fifo.new issueQueueSize fun _ => default
  busy := false
  isInstWaiting := false
  instWaitingRobId := 0
  lastIndex := 0
  unitIndex := fun _ => 0

/-- `issue::reset` on a stage in use. -/
def resetFrom (s : IssueState) : IssueState :=
  { reset with issueQ := s.issueQ.reset }

/-- CSR instructions and `mret` are sent alone and only as the oldest instruction. -/
def isSerial (item : ReadregIssueOp) : Bool :=
  item.opUnit == .csr || item.op == .mret

/-! ### First pass: selection -/

/-- The locals of the first pass: `items[0..i)` and `item_id_list` (with `i` their length), the
units still free, and whether a load or store, a CSR instruction or an `mret` has been seen. -/
structure SelectState where
  items : List ReadregIssueOp
  itemIdList : List Nat
  available : OpUnit → Nat → Bool
  hasLsuOp : Bool
  hasCsrOp : Bool
  hasMretOp : Bool

/-- An operand is ready if it is loaded or on an execute channel. -/
def sourceReady (chs : Channels) (loaded : Bool) (phy : Nat) : Bool :=
  loaded || chs.any fun ch => ch.1.carries phy

/-- The first free unit of a kind. -/
def findUnit (available : OpUnit → Nat → Bool) (unit : OpUnit) : Option Nat :=
  (List.range (unitNum unit)).find? (available unit)

/-- One round of the first pass. -/
def selectStep (q : Fifo ReadregIssueOp) (chs : Channels) (storeBufferEmpty : Bool)
    (fb : CommitFeedbackPack) (id : Nat) (s : SelectState) :
    Except Halt (SelectState × Bool) := do
  let item ← IssueQueue.getItem q id
  if isSerial item && s.items.length != 0 then return (s, true)
  assert .issue fb.enable
  if isSerial item && fb.nextHandleRobId != item.robId then return (s, true)
  let ready := sourceReady chs item.src1Loaded item.rs1Phy
    && sourceReady chs item.src2Loaded item.rs2Phy
  let fenceTrigger := item.op == .fence
    && (!storeBufferEmpty || s.items.length != 0 || fb.nextHandleRobId != item.robId)
  let s' :=
    match findUnit s.available item.opUnit with
    | some index =>
      if ready && (!s.hasLsuOp || item.opUnit != OpUnit.lsu)
          && (!s.hasCsrOp || item.opUnit != OpUnit.csr) && (!s.hasMretOp || item.op != Op.mret)
          && !fenceTrigger then
        { s with
          items := s.items ++ [item]
          itemIdList := s.itemIdList ++ [id]
          available := Function.update s.available item.opUnit
            (Function.update (s.available item.opUnit) index false) }
      else s
    | none => s
  return ({ s' with
    hasLsuOp := s.hasLsuOp || item.opUnit == OpUnit.lsu
    hasCsrOp := s.hasCsrOp || item.opUnit == OpUnit.csr
    hasMretOp := s.hasMretOp || item.op == Op.mret }, isSerial item || fenceTrigger)

/-- A round selects its item or none. -/
theorem selectStep_ids {q : Fifo ReadregIssueOp} {chs : Channels} {storeBufferEmpty stop : Bool}
    {fb : CommitFeedbackPack} {id : Nat} {s s' : SelectState}
    (h : selectStep q chs storeBufferEmpty fb id s = .ok (s', stop)) :
    s'.itemIdList = s.itemIdList ∨ s'.itemIdList = s.itemIdList ++ [id] := by
  obtain ⟨item, -, h⟩ := bind_eq_ok.mp h
  dsimp only at h
  split at h
  · cases h
    exact .inl rfl
  · obtain ⟨-, -, h⟩ := bind_eq_ok.mp h
    split at h
    · cases h
      exact .inl rfl
    · cases h
      dsimp only
      split
      · split_ifs
        · exact .inr rfl
        · exact .inl rfl
      · exact .inl rfl

/-- The first pass over a non-empty queue. -/
def select (q : Fifo ReadregIssueOp) (chs : Channels) (fifos : UnitFifos)
    (storeBufferEmpty : Bool) (fb : CommitFeedbackPack) (firstId : Nat) :
    Except Halt SelectState :=
  q.doWhileNext .issueQueue firstId (selectStep q chs storeBufferEmpty fb)
    (fun s => s.itemIdList.length < issueWidth) q.size firstId {
      items := [], itemIdList := []
      available := fun unit i => !(fifos unit i).isFull
      hasLsuOp := false, hasCsrOp := false, hasMretOp := false }

/-! ### Second pass: dispatch -/

/-- The feedback of the second pass for an operand that is not loaded: a later execute channel
replaces what an earlier channel gave, a write-back channel only fills in. -/
def selectFeedback (chs : Channels) (loaded needMap : Bool) (phy : Nat) : Option Word :=
  chs.foldl
    (fun found ch =>
      let found := if ch.1.enable && (!loaded && needMap && phy == ch.1.phyId) then
          some ch.1.value else found
      if ch.2.enable && (!loaded && found.isNone && needMap && phy == ch.2.phyId) then
        some ch.2.value else found) none

/-- The access width of a load or store. -/
def lsuSize : LsuOp → AccessSize
  | .lb | .lbu | .sb => .byte
  | .lh | .lhu | .sh => .half
  | .lw | .sw => .word

def isStore : LsuOp → Bool
  | .sb | .sh | .sw => true
  | _ => false

/-- `sub_op.lsu_op` of the union. -/
def lsuOpOf : SubOp → LsuOp
  | .lsu op => op
  | _ => .lb

/-- The exception fields a load or store at `addr` is sent with: misaligned or not, the id and the
address are set. -/
def lsuException (op : LsuOp) (addr : Word) : ExceptionInfo where
  hasException := !Bus.checkAlign addr (lsuSize op)
  exceptionId :=
    if isStore op then
      if !Bus.checkAlign addr (lsuSize op) then .storeAmoAddressMisaligned
      else .storeAmoAccessFault
    else
      if !Bus.checkAlign addr (lsuSize op) then .loadAddressMisaligned else .loadAccessFault
  exceptionValue := addr

/-- The pack sent for an item whose operands are `src1Value` and `src2Value`. -/
def sendPack (item : ReadregIssueOp) (src1 src2 : Word × Bool) : IssueExecutePack :=
  let base : IssueExecutePack := {
    toRenameReadregOp := item.toRenameReadregOp
    src1Value := src1.1, src1Loaded := src1.2, src2Value := src2.1, src2Loaded := src2.2
    lsuAddr := 0 }
  if item.valid && item.opUnit == .lsu then
    let addr := src1.1 + item.imm
    { base with lsuAddr := addr, toExceptionInfo := lsuException (lsuOpOf item.subOp) addr }
  else base

/-- An operand at dispatch: the feedback if there is one, else what the item holds. -/
def dispatchOperand (feedback : Option Word) (value : Word) (loaded : Bool) : Word × Bool :=
  match feedback with
  | some v => (v, true)
  | none => (value, loaded)

/-- Round-robin search for a FIFO that is not full, from `index` on. -/
def roundRobin (fifos : Nat → Fifo IssueExecutePack) (unitCnt start : Nat) :
    Nat → Nat → Option Nat
  | 0, _ => none
  | rounds + 1, index =>
    if !(fifos index).isFull then some index
    else if (index + 1) % unitCnt = start then none
    else roundRobin fifos unitCnt start rounds ((index + 1) % unitCnt)

/-- What the second pass changes; `issued` are the packs sent, in order. -/
structure DispatchState where
  state : IssueState
  fifos : UnitFifos
  perf : PerfCounters
  issued : List IssueExecutePack

/-- The second pass over the selected items. -/
def dispatch (chs : Channels) (fb : CommitFeedbackPack) :
    List ReadregIssueOp → DispatchState → Except Halt DispatchState
  | [], d => .ok d
  | item :: rest, d =>
    if item.enable then do
      if isSerial item then assert .issue fb.enable
      let state := if isSerial item then
          { d.state with isInstWaiting := true, instWaitingRobId := item.robId } else d.state
      let d := { d with state := state }
      let src1 := dispatchOperand
        (selectFeedback chs item.src1Loaded item.rs1NeedMap item.rs1Phy)
        item.src1Value item.src1Loaded
      let src2 := dispatchOperand
        (selectFeedback chs item.src2Loaded item.rs2NeedMap item.rs2Phy)
        item.src2Value item.src2Loaded
      if !(src1.2 && src2.2) then return d
      let pack := sendPack item src1 src2
      let unit := item.opUnit
      let start := d.state.unitIndex unit
      match roundRobin (d.fifos unit) (unitNum unit) start (unitNum unit) start with
      | none =>
        return { d with
          perf := { d.perf with issueExecuteFifoFull := d.perf.issueExecuteFifoFull + 1 } }
      | some index =>
        match (d.fifos unit index).push pack with
        | none => .error (.assertion .issue)
        | some fifo =>
          let d := { d with
            state := { d.state with
              unitIndex := Function.update d.state.unitIndex unit ((index + 1) % unitNum unit) }
            fifos := d.fifos.set unit index fifo
            issued := d.issued ++ [pack] }
          if d.state.isInstWaiting then return d
          dispatch chs fb rest d
    else dispatch chs fb rest d

/-! ### Wake-up and input -/

/-- Fill in an operand that is not loaded from the channels. -/
def captureOperand (chs : Channels) (needMap : Bool) (phy : Nat) (value : Word) (loaded : Bool) :
    Word × Bool :=
  if !loaded && needMap then
    match firstFeedback chs phy with
    | some v => (v, true)
    | none => (value, false)
  else (value, loaded)

/-- A queue item after the feedback of this cycle. -/
def wakeItem (chs : Channels) (item : ReadregIssueOp) : ReadregIssueOp :=
  let src1 := captureOperand chs item.rs1NeedMap item.rs1Phy item.src1Value item.src1Loaded
  let src2 := captureOperand chs item.rs2NeedMap item.rs2Phy item.src2Value item.src2Loaded
  { item with src1Value := src1.1, src1Loaded := src1.2, src2Value := src2.1, src2Loaded := src2.2 }

/-- One round of the wake-up loop: queue a `set_item_sync` request if the item changes. -/
def wakeStep (q : Fifo ReadregIssueOp) (chs : Channels) (itemIdList : List Nat) (id : Nat)
    (requests : List (Nat × ReadregIssueOp)) :
    Except Halt (List (Nat × ReadregIssueOp) × Bool) := do
  if itemIdList.contains id then return (requests, false)
  else
    let item ← IssueQueue.getItem q id
    let item' := wakeItem chs item
    if item' != item then return (requests ++ [(id, item')], false)
    else return (requests, false)

/-- The wake-up loop over the items that are not selected. -/
def wakeUp (q : Fifo ReadregIssueOp) (chs : Channels) (itemIdList : List Nat) :
    Except Halt (List (Nat × ReadregIssueOp)) :=
  match q.getFrontId with
  | none => .ok []
  | some firstId =>
    q.doWhileNext .issueQueue firstId (wakeStep q chs itemIdList) (fun _ => true) q.size firstId []

/-- An operand that is not loaded, from the register file. -/
def regfileOperand (regfile : Regfile) (needMap : Bool) (phy : Nat) (value : Word)
    (loaded : Bool) : Except Halt (Word × Bool) :=
  if !loaded && needMap then do
    if ← regfile.readDataValid phy then return (← regfile.read phy, true)
    else return (value, loaded)
  else .ok (value, loaded)

/-- The record inserted into the queue for a slot. -/
def inputItem (regfile : Regfile) (chs : Channels) (op : ReadregIssueOp) :
    Except Halt ReadregIssueOp :=
  if op.valid then do
    let src1 ← regfileOperand regfile op.rs1NeedMap op.rs1Phy op.src1Value op.src1Loaded
    let src2 ← regfileOperand regfile op.rs2NeedMap op.rs2Phy op.src2Value op.src2Loaded
    return wakeItem chs { op with
      src1Value := src1.1, src1Loaded := src1.2, src2Value := src2.1, src2Loaded := src2.2 }
  else .ok op

/-- The input loop over the slots from `last_index` on: the queue, the new `last_index` and
whether all slots are taken. -/
def input (regfile : Regfile) (chs : Channels) :
    List ReadregIssueOp → Nat → Fifo ReadregIssueOp →
    Except Halt (Fifo ReadregIssueOp × Nat × Bool)
  | [], lastIndex, q => .ok (q, lastIndex, true)
  | op :: rest, lastIndex, q =>
    if !op.enable then input regfile chs rest (lastIndex + 1) q
    else if q.isFull then .ok (q, lastIndex, false)
    else do
      let item ← inputItem regfile chs op
      input regfile chs rest (lastIndex + 1) ((q.push item).getD q)

/-- What `issue::run` leaves; `issued` are the packs sent to the units. -/
structure Out where
  state : IssueState
  fifos : UnitFifos
  perf : PerfCounters
  stall : Bool
  issued : List IssueExecutePack

/-- The flush branch. -/
def flush (state : IssueState) (fifos : UnitFifos) : IssueState × UnitFifos :=
  ({ state with issueQ := state.issueQ.flush, busy := false, isInstWaiting := false },
    fun unit i => (fifos unit i).flush)

/-- The output part: unless a serial instruction is still on its way, select and dispatch. Answers
also the ids of the selected items. -/
def output (state : IssueState) (fifos : UnitFifos) (perf : PerfCounters) (storeBufferEmpty : Bool)
    (chs : Channels) (fb : CommitFeedbackPack) : Except Halt (DispatchState × List Nat) :=
  let instWaitingOk := fb.enable && fb.committedRobId.contains state.instWaitingRobId
  if !state.isInstWaiting || instWaitingOk then
    let d : DispatchState := ⟨{ state with isInstWaiting := false }, fifos, perf, []⟩
    match state.issueQ.getFrontId with
    | none => .ok (d, [])
    | some firstId => do
      let s ← select state.issueQ chs fifos storeBufferEmpty fb firstId
      let d ← dispatch chs fb s.items d
      return (d, s.itemIdList)
  else .ok (⟨state, fifos, perf, []⟩, [])

/-- `issue::run`. -/
def run (state : IssueState) (fifos : UnitFifos) (perf : PerfCounters) (port : List ReadregIssueOp)
    (regfile : Regfile) (storeBufferEmpty : Bool) (chs : Channels) (fb : CommitFeedbackPack) :
    Except Halt Out := do
  if !fb.flushing then
    let (d, itemIdList) ← output state fifos perf storeBufferEmpty chs fb
    -- handle queue
    let wakes ← wakeUp state.issueQ chs itemIdList
    -- handle input
    let lastIndex := if !state.busy then 0 else state.lastIndex
    let (q, lastIndex, finish) ← input regfile chs (port.drop lastIndex) lastIndex state.issueQ
    let perf := if finish then d.perf
      else { d.perf with issueQueueFull := d.perf.issueQueueFull + 1 }
    -- compress queue
    let q ← wakes.foldlM (fun q r => IssueQueue.setItem q r.1 r.2) q
    let q ← IssueQueue.compress q itemIdList
    return {
      state := { d.state with
        issueQ := q, busy := !finish, lastIndex := if finish then 0 else lastIndex }
      fifos := d.fifos
      perf := perf
      stall := !finish
      issued := d.issued }
  else
    let (state, fifos) := flush state fifos
    return ⟨state, fifos, perf, false, []⟩

end Issue

end MyRiscvCore
