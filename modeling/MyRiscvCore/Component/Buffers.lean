import MyRiscvCore.Pipeline.Pack
import MyRiscvCore.Component.Bus

/-!
# MyRiscvCore — reorder buffer, checkpoint buffer, issue queue, and store buffer

The four structures built on the ring FIFO: `rob.h`, `checkpoint_buffer.h`, `issue_queue.h` and
`store_buffer.h`. The first two queue item updates and pops for the end of the cycle and push at
once; the issue queue removes the issued items by `compress`; the store buffer pushes at the end of
the cycle and is otherwise driven by `run`, between the pipeline stages and `bus.sync`.
-/

namespace MyRiscvCore

/-! ## Queued pops and item updates (`rob::sync`, `checkpoint_buffer::sync`) -/

/-- A request queued during the cycle. -/
inductive Fifo.Request (α : Type)
  | pop
  | setItem (id : Nat) (item : α)

def Fifo.apply {α : Type} (q : Fifo α) : Fifo.Request α → Fifo α
  | .pop => q.drop1
  | .setItem id item => q.setItem id item

/-- `sync`: the queued requests, in order. -/
def Fifo.sync {α : Type} (q : Fifo α) (requests : List (Fifo.Request α)) : Fifo α :=
  requests.foldl Fifo.apply q

/-! ## Reorder buffer (`rob.h`) -/

/-- `rob_item_t`. -/
structure RobItem extends ExceptionInfo, PredictInfo where
  newPhyRegId : Nat
  oldPhyRegId : Nat
  oldPhyRegIdValid : Bool
  finish : Bool
  pc : Word
  instValue : Word
  bruOp : Bool
  bruJump : Bool
  bruNextPc : Word
  isMret : Bool
  csrAddr : Nat
  csrNewvalue : Word
  csrNewvalueValid : Bool
  deriving DecidableEq, Inhabited

structure Rob where
  fifo : Fifo RobItem
  committed : Bool
  globalCommitNum : BitVec 64

namespace Rob

def reset : Rob where
  fifo := Fifo.new robSize fun _ => default
  committed := false
  globalCommitNum := 0

/-- `rob::reset` on a buffer in use. -/
def resetFrom (r : Rob) : Rob where
  fifo := r.fifo.reset
  committed := false
  globalCommitNum := 0

/-- `get_free_space`. -/
def getFreeSpace (r : Rob) : Nat :=
  r.fifo.size - r.fifo.getSize

/-- `set_committed(true); add_commit_num(1)`, as every retirement and every trap entry does. The
32-bit `commit_num` that the debugger clears is left out. -/
def countCommit (r : Rob) : Rob :=
  { r with committed := true, globalCommitNum := r.globalCommitNum + 1 }

end Rob

/-! ## Issue queue (`issue_queue.h`) -/

namespace IssueQueue

variable {α : Type}

/-- `get_item`. -/
def getItem (q : Fifo α) (id : Nat) : Except Halt α := do
  assert .issueQueue (q.checkIdValid id)
  return q.getItem id

/-- `set_item`. -/
def setItem (q : Fifo α) (id : Nat) (item : α) : Except Halt (Fifo α) := do
  assert .issueQueue (q.checkIdValid id)
  return q.setItem id item

/-- `next_stage` of `get_next_id_stage`. -/
def nextStage (q : Fifo α) (id : Nat) (stage : Bool) : Bool :=
  decide (id + 1 ≥ q.size) != stage

/-- The locals of `compress`; `rest` is the part of `item_id_list` from index `i` on. -/
structure CompressState (α : Type) where
  q : Fifo α
  curStage : Bool
  newWptr : Nat
  newWstage : Bool
  nextId : Nat
  invalidItemFound : Bool
  rest : List Nat

/-- One round of the loop of `compress`: the first removed item opens a gap, and every kept item
after it moves to the front of the gap. -/
def compressStep (curId : Nat) (s : CompressState α) :
    Except Halt (CompressState α × Bool) := do
  let s ←
    if !s.invalidItemFound then
      if s.rest.head? = some curId then
        pure { s with
          invalidItemFound := true, rest := s.rest.tail,
          nextId := curId, newWptr := curId, newWstage := s.curStage }
      else pure s
    else if s.rest.head? = some curId then
      pure { s with rest := s.rest.tail }
    else do
      let item ← getItem s.q curId
      let q ← setItem s.q s.nextId item
      let (newWptr, _) ← q.getNextId .issueQueue s.nextId
      pure { s with
        q := q, newWptr := newWptr, newWstage := nextStage q s.nextId s.newWstage,
        nextId := newWptr }
  return ({ s with curStage := nextStage s.q curId s.curStage }, false)

/-- `compress`: remove the items of `itemIdList`, which are given in queue order. -/
def compress (q : Fifo α) (itemIdList : List Nat) : Except Halt (Fifo α) :=
  match q.getFrontId with
  | none => .ok q
  | some firstId =>
    if itemIdList.isEmpty then .ok q
    else do
      let s ← q.doWhileNext .issueQueue firstId compressStep (fun _ => true) q.size firstId
        { q := q, curStage := q.rstage, newWptr := firstId, newWstage := q.rstage,
          nextId := firstId, invalidItemFound := false, rest := itemIdList }
      return { s.q with wptr := s.newWptr, wstage := s.newWstage }

end IssueQueue

/-! ## Store buffer (`store_buffer.h`) -/

/-- `store_buffer_item_t`. The size is 1, 2 or 4 bytes. -/
structure StoreBufferItem where
  enable : Bool
  committed : Bool
  robId : Nat
  pc : Word
  addr : Word
  data : Word
  size : AccessSize
  deriving DecidableEq, Inhabited

abbrev StoreBuffer := Fifo StoreBufferItem

namespace StoreBuffer

/-- `get_item`. -/
def getItem (q : StoreBuffer) (id : Nat) : Except Halt StoreBufferItem := do
  assert .storeBuffer (q.checkIdValid id)
  return Fifo.getItem q id

/-- `set_item`. -/
def setItem (q : StoreBuffer) (id : Nat) (item : StoreBufferItem) : Except Halt StoreBuffer := do
  assert .storeBuffer (q.checkIdValid id)
  return Fifo.setItem q id item

/-- `bit_mask`: the mask of the low `std::min(a, b) << 3` bits. -/
def bitMask (a b : Word) : Word :=
  let bitLength := (if b < a then b else a) <<< 3
  if bitLength = 32 then 0xffffffff else ((1 : Word) <<< bitLength.toNat) - 1

/-- What one item of the buffer contributes to a load of `size` bytes at `addr`. -/
def overlay (addr : Word) (size : AccessSize) (result : Word) (item : StoreBufferItem) : Word :=
  let size := BitVec.ofNat 32 size.bytes
  let itemSize := BitVec.ofNat 32 item.size.bytes
  if item.addr ≥ addr ∧ item.addr < addr + size then
    let bitOffset := ((item.addr - addr) <<< 3).toNat
    let mask := bitMask itemSize (addr + size - item.addr)
    (result &&& ~~~(mask <<< bitOffset)) ||| ((item.data &&& mask) <<< bitOffset)
  else if item.addr < addr ∧ item.addr + itemSize > addr then
    let bitOffset := ((addr - item.addr) <<< 3).toNat
    let mask := bitMask size (item.addr + itemSize - addr)
    (result &&& ~~~mask) ||| ((item.data >>> bitOffset) &&& mask)
  else result

/-- One round of `get_feedback_value`. -/
def feedbackStep (q : StoreBuffer) (addr : Word) (size : AccessSize) (id : Nat) (result : Word) :
    Except Halt (Word × Bool) := do
  return (overlay addr size result (← getItem q id), false)

/-- `get_feedback_value`: the bus value with every buffered item laid over it, oldest first. -/
def getFeedbackValue (q : StoreBuffer) (addr : Word) (size : AccessSize) (busValue : Word) :
    Except Halt Word :=
  match q.getFrontId with
  | none => .ok busValue
  | some firstId =>
    q.doWhileNext .storeBuffer firstId (feedbackStep q addr size) (fun _ => true) q.size firstId
      busValue

/-- One round of the search of the flush branch of `run`, with the stage of the current id: break at
an item that is neither committed nor committed in this cycle. -/
def findStep (q : StoreBuffer) (committedRobId : List Nat) (id : Nat)
    (s : Bool × Option (Nat × Bool)) : Except Halt ((Bool × Option (Nat × Bool)) × Bool) := do
  let item ← getItem q id
  if !item.committed && !committedRobId.contains item.robId then
    return ((s.1, some (id, s.1)), true)
  else return ((IssueQueue.nextStage q id s.1, none), false)

/-- The search: the first such item, with its stage. -/
def findUncommitted (q : StoreBuffer) (committedRobId : List Nat) :
    Except Halt (Option (Nat × Bool)) :=
  match q.getFrontId with
  | none => .ok none
  | some firstId => do
    let s ← q.doWhileNext .storeBuffer firstId (findStep q committedRobId) (fun _ => true) q.size
      firstId (q.rstage, none)
    return s.2

/-- One round of the last part of `run`. -/
def markStep (committedRobId : List Nat) (id : Nat) (q : StoreBuffer) :
    Except Halt (StoreBuffer × Bool) := do
  let item ← getItem q id
  let item := if committedRobId.contains item.robId then { item with committed := true } else item
  return (← setItem q id item, false)

/-- The last part of `run`: mark the items whose instruction retires in this cycle. -/
def markCommitted (q : StoreBuffer) (committedRobId : List Nat) : Except Halt StoreBuffer :=
  match q.getFrontId with
  | none => .ok q
  | some firstId =>
    q.doWhileNext .storeBuffer firstId (markStep committedRobId) (fun _ => true) q.size firstId q

/-- The first part of `run`: a flush drops the items from the first uncommitted one on; otherwise the
oldest item goes to the bus if it is committed. The size assertion holds by the type of `size`. -/
def flushOrWrite (q : StoreBuffer) (fb : CommitFeedbackPack) :
    Except Halt (StoreBuffer × List Bus.Request) :=
  if fb.flushing then do
    match ← findUncommitted q fb.committedRobId with
    | some (id, stage) => return ({ q with wptr := id, wstage := stage }, [])
    | none => return (q, [])
  else
    match q.getFront with
    | some item =>
      if item.committed then
        .ok (q.drop1, [{ addr := item.addr, size := item.size, data := item.data }])
      else .ok (q, [])
    | none => .ok (q, [])

/-- `run`: the buffer afterwards, the write handed to the bus, and whether the pushes queued in
this cycle are dropped. -/
def run (q : StoreBuffer) (fb : CommitFeedbackPack) :
    Except Halt (StoreBuffer × List Bus.Request × Bool) := do
  let (q, writes) ← flushOrWrite q fb
  if fb.enable then return (← markCommitted q fb.committedRobId, writes, fb.flushing)
  else return (q, writes, fb.flushing)

/-- `sync`: the queued pushes; the answer of `push` is ignored. -/
def sync (q : StoreBuffer) (pushes : List StoreBufferItem) : StoreBuffer :=
  pushes.foldl (fun q item => (q.push item).getD q) q

end StoreBuffer

end MyRiscvCore
