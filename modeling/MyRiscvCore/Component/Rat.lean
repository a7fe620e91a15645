import MyRiscvCore.Component.Fifo

/-!
# MyRiscvCore — register alias table, register file, and checkpoints

`rat.h`, `regfile.h` and the `checkpoint_t` record of `checkpoint_buffer.h`. The alias table maps
each *physical* register to an architectural one and keeps three bitmaps over the physical
registers:

* `valid` — allocated;
* `visible` — the current speculative mapping of its architectural register;
* `commit` — the mapping made by the last retired writer (the bit of a freed register is stale).

The pipeline never changes the table during a cycle: it queues requests, which `sync` applies in
queue order at the end of the cycle. A bitmap is a function to `Bool`. The range assertion inside
the bit accessors (`get_valid`, `set_visible`, ...) is implied at each of their uses, by the loop
bound or by the same assertion at the head of the calling function, and is not repeated.
-/

namespace MyRiscvCore

/-- `checkpoint_t`. `ratPhyMapTable` is used only in the `global_cp` that `rename` works on. -/
structure Checkpoint where
  ratPhyMapTableValid : Nat → Bool
  ratPhyMapTableVisible : Nat → Bool
  phyRegfileDataValid : Nat → Bool
  ratPhyMapTable : Nat → Nat
  globalHistory : Word
  localHistory : Word

instance : Inhabited Checkpoint :=
  ⟨fun _ => false, fun _ => false, fun _ => false, fun _ => 0, 0, 0⟩

/-- `global_cp.clone(cp)`: the two alias bitmaps and the histories. -/
def Checkpoint.clone (globalCp cp : Checkpoint) : Checkpoint :=
  { cp with
    ratPhyMapTableValid := globalCp.ratPhyMapTableValid
    ratPhyMapTableVisible := globalCp.ratPhyMapTableVisible
    globalHistory := globalCp.globalHistory
    localHistory := globalCp.localHistory }

structure Rat where
  phyMapTable : Nat → Nat
  valid : Nat → Bool
  visible : Nat → Bool
  commit : Nat → Bool
  initRat : Bool

namespace Rat

/-- The search loop of `get_phy_id`, `get_commit_phy_id` and `cp_get_phy_id`: how many physical
registers meet the condition, and the last of them. -/
def scanPhyId (cond : Nat → Bool) : Nat × Nat :=
  (List.range phyRegNum).foldl
    (fun found i => if cond i then (found.1 + 1, i) else found) (0, 0)

def archIdInRange (archId : Nat) : Bool :=
  archId > 0 && archId < archRegNum

/-- `init_start`. -/
def initStart : Rat where
  phyMapTable := fun _ => 0
  valid := fun _ => false
  visible := fun _ => false
  commit := fun _ => false
  initRat := true

/-- `init_finish`. -/
def initFinish (r : Rat) : Rat :=
  { r with initRat := false }

/-- `get_phy_id`: the visible mapping of `archId`; `none` is the answer `false`. -/
def getPhyId (r : Rat) (archId : Nat) : Except Halt (Option Nat) := do
  assert .rat (archIdInRange archId)
  let found := scanPhyId fun i => r.valid i && r.visible i && r.phyMapTable i == archId
  assert .rat (found.1 ≤ 1)
  return if found.1 == 1 then some found.2 else none

/-- `get_commit_phy_id`. -/
def getCommitPhyId (r : Rat) (archId : Nat) : Except Halt Nat := do
  assert .rat (archIdInRange archId)
  let found := scanPhyId fun i => r.valid i && r.commit i && r.phyMapTable i == archId
  assert .rat (found.1 == 1)
  return found.2

/-- The loop of `get_free_phy_id`: collect unallocated registers until `num` are found. The bound
is tested after each find, so even `num = 0` collects one. -/
def freeScan (r : Rat) (num : Nat) : List Nat → List Nat → List Nat
  | [], ret => ret
  | i :: rest, ret =>
    if !r.valid i then
      let ret := ret ++ [i]
      if ret.length ≥ num then ret else freeScan r num rest ret
    else freeScan r num rest ret

/-- `get_free_phy_id`: the ids written to the out array; the answer is their number. -/
def getFreePhyId (r : Rat) (num : Nat) : List Nat :=
  r.freeScan num (List.range phyRegNum) []

/-- `set_map`; the returned old id is used by no caller. -/
def setMap (r : Rat) (archId phyId : Nat) : Except Halt Rat := do
  assert .rat (phyId < phyRegNum)
  assert .rat (archIdInRange archId)
  assert .rat (!r.valid phyId)
  let oldPhyId ← r.getPhyId archId
  if !r.initRat then
    assert .rat oldPhyId.isSome
    assert .rat (!r.valid phyId)
  let r := { r with
    phyMapTable := Function.update r.phyMapTable phyId archId
    valid := Function.update r.valid phyId true
    visible := Function.update r.visible phyId true
    commit := Function.update r.commit phyId false }
  match oldPhyId with
  | some old => return { r with visible := Function.update r.visible old false }
  | none => return r

/-- `release_map`. The commit bit of the freed register keeps its value. -/
def releaseMap (r : Rat) (phyId : Nat) : Except Halt Rat := do
  assert .rat (phyId < phyRegNum)
  assert .rat (r.valid phyId)
  assert .rat (!r.visible phyId)
  return { r with
    phyMapTable := Function.update r.phyMapTable phyId 0
    valid := Function.update r.valid phyId false }

/-- `commit_map`. -/
def commitMap (r : Rat) (phyId : Nat) : Except Halt Rat := do
  assert .rat (phyId < phyRegNum)
  assert .rat (r.valid phyId)
  assert .rat (!r.commit phyId)
  return { r with commit := Function.update r.commit phyId true }

/-- `restore_map`: undo one renaming. -/
def restoreMap (r : Rat) (newPhyId oldPhyId : Nat) : Except Halt Rat := do
  assert .rat (newPhyId < phyRegNum)
  assert .rat (oldPhyId < phyRegNum)
  assert .rat (r.valid newPhyId)
  assert .rat (r.valid oldPhyId)
  assert .rat (r.visible newPhyId)
  assert .rat (!r.visible oldPhyId)
  return { r with
    phyMapTable := Function.update r.phyMapTable newPhyId 0
    valid := Function.update (Function.update r.valid newPhyId false) oldPhyId true
    visible := Function.update (Function.update r.visible newPhyId false) oldPhyId true }

/-- `save`. -/
def save (r : Rat) (cp : Checkpoint) : Checkpoint :=
  { cp with
    ratPhyMapTableValid := r.valid
    ratPhyMapTableVisible := r.visible
    ratPhyMapTable := r.phyMapTable }

/-- `restore`: the two bitmaps only. The commit bitmap and the table keep their contents. -/
def restore (r : Rat) (cp : Checkpoint) : Rat :=
  { r with valid := cp.ratPhyMapTableValid, visible := cp.ratPhyMapTableVisible }

/-- `cp_get_phy_id`. -/
def cpGetPhyId (cp : Checkpoint) (archId : Nat) : Except Halt (Option Nat) := do
  assert .rat (archIdInRange archId)
  let found := scanPhyId fun i =>
    cp.ratPhyMapTableValid i && cp.ratPhyMapTableVisible i && cp.ratPhyMapTable i == archId
  assert .rat (found.1 ≤ 1)
  return if found.1 == 1 then some found.2 else none

/-- `cp_set_map`. -/
def cpSetMap (cp : Checkpoint) (archId phyId : Nat) : Except Halt Checkpoint := do
  assert .rat (phyId < phyRegNum)
  assert .rat (archIdInRange archId)
  assert .rat (!cp.ratPhyMapTableValid phyId)
  let oldPhyId ← cpGetPhyId cp archId
  let cp := { cp with
    ratPhyMapTable := Function.update cp.ratPhyMapTable phyId archId
    ratPhyMapTableValid := Function.update cp.ratPhyMapTableValid phyId true
    ratPhyMapTableVisible := Function.update cp.ratPhyMapTableVisible phyId true }
  match oldPhyId with
  | some old =>
    return { cp with ratPhyMapTableVisible := Function.update cp.ratPhyMapTableVisible old false }
  | none => return cp

/-- `cp_release_map`. -/
def cpReleaseMap (cp : Checkpoint) (phyId : Nat) : Except Halt Checkpoint := do
  assert .rat (phyId < phyRegNum)
  assert .rat (cp.ratPhyMapTableValid phyId)
  assert .rat (!cp.ratPhyMapTableVisible phyId)
  return { cp with
    ratPhyMapTableValid := Function.update cp.ratPhyMapTableValid phyId false }

/-! ## Queued requests -/

/-- A request queued during the cycle. -/
inductive Request
  | setMap (archId phyId : Nat)
  | releaseMap (phyId : Nat)
  | commitMap (phyId : Nat)
  | restoreMap (newPhyId oldPhyId : Nat)
  | restore (cp : Checkpoint)

/-- `set_map_sync` checks its arguments already when it queues the request. -/
def setMapSync (archId phyId : Nat) : Except Halt Request := do
  assert .rat (phyId < phyRegNum)
  assert .rat (archIdInRange archId)
  return .setMap archId phyId

def apply (r : Rat) : Request → Except Halt Rat
  | .setMap archId phyId => r.setMap archId phyId
  | .releaseMap phyId => r.releaseMap phyId
  | .commitMap phyId => r.commitMap phyId
  | .restoreMap newPhyId oldPhyId => r.restoreMap newPhyId oldPhyId
  | .restore cp => .ok (r.restore cp)

/-- `sync`: the queued requests, in order. -/
def sync (r : Rat) (requests : List Request) : Except Halt Rat :=
  requests.foldlM apply r

end Rat

/-! ## Register file (`regfile.h`) -/

structure Regfile where
  regData : Nat → Word
  regDataValid : Nat → Bool

namespace Regfile

def write (f : Regfile) (addr : Nat) (value : Word) (valid : Bool) : Except Halt Regfile := do
  assert .regfile (addr < phyRegNum)
  return {
    regData := Function.update f.regData addr value
    regDataValid := Function.update f.regDataValid addr valid }

def read (f : Regfile) (addr : Nat) : Except Halt Word := do
  assert .regfile (addr < phyRegNum)
  return f.regData addr

def readDataValid (f : Regfile) (addr : Nat) : Except Halt Bool := do
  assert .regfile (addr < phyRegNum)
  return f.regDataValid addr

/-- `restore`: the data-valid bits of the checkpoint. -/
def restore (f : Regfile) (cp : Checkpoint) : Regfile :=
  { f with regDataValid := cp.phyRegfileDataValid }

/-- A request queued during the cycle. -/
inductive Request
  | write (addr : Nat) (value : Word) (valid : Bool)
  | restore (cp : Checkpoint)

def apply (f : Regfile) : Request → Except Halt Regfile
  | .write addr value valid => f.write addr value valid
  | .restore cp => .ok (f.restore cp)

/-- `sync`: the queued requests, in order. -/
def sync (f : Regfile) (requests : List Request) : Except Halt Regfile :=
  requests.foldlM apply f

end Regfile

/-! ## Reset (`main.cpp`) -/

/-- The alias table after reset: architectural register `i` in physical register `i`, committed. -/
def Rat.reset : Except Halt Rat := do
  let r ← (List.range' 1 (archRegNum - 1)).foldlM
    (fun r i => do (← r.setMap i i).commitMap i) Rat.initStart
  return r.initFinish

/-- The register file after reset: physical registers 1 to 31 hold a valid 0. -/
def Regfile.reset : Except Halt Regfile :=
  (List.range' 1 (archRegNum - 1)).foldlM (fun f i => f.write i 0 true)
    { regData := fun _ => 0, regDataValid := fun _ => false }

end MyRiscvCore
