import MyRiscvCore.Basic

/-!
# MyRiscvCore — the ring FIFO

`component::fifo` (`fifo.h`): a buffer of `size` slots with a write and a read pointer, each
carrying a stage bit that flips on wrap-around, so that equal pointers mean empty when the stages
agree and full when they differ. The two FIFOs between fetch, decode and rename are created with
`set_pop_status_save(true)`: fullness is then judged against the read pointer saved at the start
of the cycle, so a pop made in the cycle does not yet free a slot.

The ROB, the checkpoint buffer, the issue queue and the store buffer derive from it and repeat
verbatim the slot-id helpers `check_id_valid`, `get_next_id`, ... ; they are stated here once, with
the file whose assertion guards them as a parameter.
-/

namespace MyRiscvCore

structure Fifo (α : Type) where
  buffer : Nat → α
  size : Nat
  wptr : Nat
  wstage : Bool
  rptr : Nat
  rstage : Bool
  popStatusSave : Bool
  rptrSaved : Nat
  rstageSaved : Bool

namespace Fifo

variable {α : Type}

/-- The constructor; the buffer's contents are whatever `new T[size]` leaves. -/
def new (size : Nat) (buffer : Nat → α) : Fifo α where
  buffer := buffer
  size := size
  wptr := 0
  wstage := false
  rptr := 0
  rstage := false
  popStatusSave := false
  rptrSaved := 0
  rstageSaved := false

def isEmpty (q : Fifo α) : Bool :=
  q.rptr == q.wptr && q.rstage == q.wstage

def isFull (q : Fifo α) : Bool :=
  if q.popStatusSave then q.rptrSaved == q.wptr && q.rstageSaved != q.wstage
  else q.rptr == q.wptr && q.rstage != q.wstage

def flush (q : Fifo α) : Fifo α :=
  { q with wptr := 0, wstage := false, rptr := 0, rstage := false }

/-- `reset`; the contents of the slots and the saved read pointer stay. -/
def reset (q : Fifo α) : Fifo α :=
  { q with wptr := 0, wstage := false, rptr := 0, rstage := false }

def resetPopStatus (q : Fifo α) : Fifo α :=
  { q with rptrSaved := q.rptr, rstageSaved := q.rstage }

def setPopStatusSave (q : Fifo α) (value : Bool) : Fifo α :=
  resetPopStatus { q with popStatusSave := value }

/-- `push`; `none` is the `false` answer, which changes nothing. -/
def push (q : Fifo α) (element : α) : Option (Fifo α) :=
  if q.isFull then none
  else
    let q := { q with buffer := Function.update q.buffer q.wptr element, wptr := q.wptr + 1 }
    if q.wptr ≥ q.size then some { q with wptr := 0, wstage := !q.wstage } else some q

/-- `pop`; `none` is the `false` answer, which changes nothing. -/
def pop (q : Fifo α) : Option (α × Fifo α) :=
  if q.isEmpty then none
  else
    let element := q.buffer q.rptr
    let q := { q with rptr := q.rptr + 1 }
    if q.rptr ≥ q.size then some (element, { q with rptr := 0, rstage := !q.rstage })
    else some (element, q)

/-- A pop whose element is thrown away and whose answer is ignored, as the `pop()` of `rob` and
`checkpoint_buffer` does in `sync`. -/
def drop1 (q : Fifo α) : Fifo α :=
  match q.pop with
  | some (_, q') => q'
  | none => q

def getFront (q : Fifo α) : Option α :=
  if q.isEmpty then none else some (q.buffer q.rptr)

/-- `get_tail`; the sum is one of `uint32_t`. -/
def getTail (q : Fifo α) : Option α :=
  if q.isEmpty then none else some (q.buffer ((q.wptr + q.size - 1) % 2 ^ 32 % q.size))

/-- `get_size`; the sums are of `uint32_t`. -/
def getSize (q : Fifo α) : Nat :=
  if q.isFull then q.size
  else if q.popStatusSave then (q.wptr + q.size - q.rptrSaved) % 2 ^ 32 % q.size
  else (q.wptr + q.size - q.rptr) % 2 ^ 32 % q.size

/-! ## Slot ids (`rob.h`, `checkpoint_buffer.h`, `issue_queue.h`, `store_buffer.h`) -/

def checkNewIdValid (q : Fifo α) (id : Nat) : Bool :=
  if q.isFull then false
  else if q.wstage == q.rstage then !(id ≥ q.rptr && id < q.wptr)
  else !((id ≥ q.rptr && id < q.size) || id < q.wptr)

def checkIdValid (q : Fifo α) (id : Nat) : Bool :=
  if q.isEmpty then false
  else if q.wstage == q.rstage then id ≥ q.rptr && id < q.wptr
  else (id ≥ q.rptr && id < q.size) || id < q.wptr

def getItem (q : Fifo α) (id : Nat) : α :=
  q.buffer id

def setItem (q : Fifo α) (id : Nat) (item : α) : Fifo α :=
  { q with buffer := Function.update q.buffer id item }

def getNewId (q : Fifo α) : Option Nat :=
  if q.isFull then none else some q.wptr

def getFrontId (q : Fifo α) : Option Nat :=
  if q.isEmpty then none else some q.rptr

def getTailId (q : Fifo α) : Option Nat :=
  if q.isEmpty then none else some ((q.wptr + q.size - 1) % q.size)

/-- `get_prev_id`: the slot before `id` (written to the out parameter in any case) and whether it
is live. -/
def getPrevId (file : SourceFile) (q : Fifo α) (id : Nat) : Except Halt (Nat × Bool) := do
  assert file (q.checkIdValid id)
  let prevId := (id + q.size - 1) % q.size
  return (prevId, q.checkIdValid prevId)

/-- `get_next_id`: the slot after `id` (written to the out parameter in any case) and whether it
is live. -/
def getNextId (file : SourceFile) (q : Fifo α) (id : Nat) : Except Halt (Nat × Bool) := do
  assert file (q.checkIdValid id)
  let nextId := (id + 1) % q.size
  return (nextId, q.checkIdValid nextId)

/-- The traversal `do { body } while(get_next_id(id, &id) && (id != first_id) && more)` that the
issue queue and the store buffer use. `body` answers the new state and whether it `break`s; the
ring has `size` slots, so `size` rounds are enough. -/
def doWhileNext {σ : Type} (file : SourceFile) (q : Fifo α) (firstId : Nat)
    (body : Nat → σ → Except Halt (σ × Bool)) (more : σ → Bool) :
    Nat → Nat → σ → Except Halt σ
  | 0, _, s => .ok s
  | rounds + 1, id, s => do
    let (s, stop) ← body id s
    if stop then return s
    let (nextId, valid) ← q.getNextId file id
    if valid && nextId != firstId && more s then
      doWhileNext file q firstId body more rounds nextId s
    else return s

end Fifo

end MyRiscvCore
