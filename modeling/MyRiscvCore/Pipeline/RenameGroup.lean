import MyRiscvCore.Pipeline.Rename
import MyRiscvCore.Pipeline.DecodeFacts
import MyRiscvCore.Component.FifoFacts
import MyRiscvCore.Component.RatFacts

/-!
# MyRiscvCore — renaming a group and renaming one at a time

`rename` reads the alias table of the start of the cycle for up to four instructions and patches what
it reads by three rules: the previous register of a destination, the two sources, and the shadow map
`globalCp`. Here the group is compared with the same instructions renamed one per cycle, each cycle
with its own synchronisation. `Sim` relates the locals of the loop after some instructions with the
state that as many single cycles leave; `Sim.step` adds an instruction on both sides.

The two sides differ in one respect: the source rule is not applied to an instruction that decode
rejected, so its source registers are those of the start of the cycle.
-/

namespace MyRiscvCore

open Rename (oldPhyFeedback sourceFeedback renameLoop renameOne renameDest robItem checkpointOf)

/-- The registers that the entries of the reorder buffer have replaced. -/
def replaced (rob : Fifo RobItem) : List Nat :=
  (rob.toList.filter (·.oldPhyRegIdValid)).map (·.oldPhyRegId)

/-- The renaming invariant in the words of the alias table: each architectural register is mapped by
exactly one visible register, no other register is visible, and the allocated registers are the
visible ones and, apart from them and without repetition, the replaced ones. -/
structure Partition (rat : Rat) (olds : List Nat) : Prop where
  mapped : ∀ a ∈ archRegs, ∃! p, p < phyRegNum ∧ rat.valid p = true ∧ rat.visible p = true ∧
    rat.phyMapTable p = a
  visible : ∀ p < phyRegNum, rat.visible p = true → rat.valid p = true ∧ rat.phyMapTable p ∈ archRegs
  valid_iff : ∀ p < phyRegNum, rat.valid p = true ↔ rat.visible p = true ∨ p ∈ olds
  hidden : ∀ p ∈ olds, p < phyRegNum ∧ rat.visible p = false
  nodup : olds.Nodup
  init : rat.initRat = false

namespace Partition

variable {rat : Rat} {olds : List Nat}

/-- The partition gives a map. -/
theorem current (h : Partition rat olds) :
    ∃ f, Current rat.valid rat.visible rat.phyMapTable f ∧
      ∀ p < phyRegNum, rat.visible p = true ↔ p ∈ f '' archRegs := by
  choose! f hf huniq using h.mapped
  refine ⟨f, ⟨fun a ha => (hf a ha).1, fun a ha i hi => ?_⟩, fun p hp => ⟨fun hv => ?_, ?_⟩⟩
  · rw [Bool.and_eq_true, Bool.and_eq_true, beq_iff_eq]
    constructor
    · rintro ⟨⟨hvalid, hvis⟩, ht⟩
      exact huniq a ha i ⟨hi, hvalid, hvis, ht⟩
    · rintro rfl
      obtain ⟨-, hvalid, hvis, ht⟩ := hf a ha
      exact ⟨⟨hvalid, hvis⟩, ht⟩
  · obtain ⟨hvalid, hmem⟩ := h.visible p hp hv
    exact ⟨_, hmem, (huniq _ hmem p ⟨hp, hvalid, hv, rfl⟩).symm⟩
  · rintro ⟨a, ha, rfl⟩
    exact (hf a ha).2.2.1

/-- The free registers number 97 minus the replaced ones. -/
theorem length_freeList (h : Partition rat olds) : rat.freeList.length + olds.length = 97 := by
  obtain ⟨f, hf, hvis⟩ := h.current
  have hnd : (archList.map f ++ olds).Nodup := by
    refine List.Nodup.append (List.Nodup.map_on ?_ List.nodup_range') h.nodup ?_
    · intro a ha b hb e
      have ha' := (hf.bits (mem_archList.mp ha)).2.2
      rwa [e, (hf.bits (mem_archList.mp hb)).2.2, eq_comm] at ha'
    · intro p hp hold
      obtain ⟨a, ha, rfl⟩ := List.mem_map.mp hp
      have := (h.hidden _ hold).2
      rw [(hf.bits (mem_archList.mp ha)).2.1] at this
      cases this
  -- 31 current registers and the replaced ones are taken, of 128
  have hvalid : ((List.range phyRegNum).filter rat.valid).length = 31 + olds.length := by
    rw [length_filter_eq hnd, List.length_append, List.length_map]
    · rfl
    intro p
    rw [List.mem_append, List.mem_map]
    constructor
    · rintro ⟨hp, hv⟩
      obtain hv | hv := (h.valid_iff p hp).mp hv
      · obtain ⟨a, ha, rfl⟩ := (hvis p hp).mp hv
        exact .inl ⟨a, mem_archList.mpr ha, rfl⟩
      · exact .inr hv
    · rintro (⟨a, ha, rfl⟩ | hold)
      · exact ⟨hf.bound a (mem_archList.mp ha), (hf.bits (mem_archList.mp ha)).1⟩
      · have hlt := (h.hidden p hold).1
        exact ⟨hlt, (h.valid_iff p hlt).mpr (.inr hold)⟩
  have hsum := List.length_eq_length_filter_add (l := List.range phyRegNum) rat.valid
  rw [List.length_range, hvalid, show phyRegNum = 128 from rfl] at hsum
  change 128 = 31 + olds.length + rat.freeList.length at hsum
  omega

end Partition

/-- What rename needs of a pack. -/
structure Renamable (x : DecodeRenamePack) : Prop where
  enable : x.enable = true
  needRename_eq : x.needRename = (x.rdEnable && decide (0 < x.rd))
  rd : x.needRename = true → x.rd ∈ archRegs
  rs1 : x.rs1NeedMap = true → x.rs1 ∈ archRegs
  rs2 : x.rs2NeedMap = true → x.rs2 ∈ archRegs

theorem Renamable.decodePack (p : FetchDecodePack) : Renamable (Decode.decodePack p) := by
  have h := Decode.sound_decodeWord p.pc p.value p.hasException
  have pos {b : Bool} {n : Nat} (hb : (b && decide (n > 0)) = true) : 0 < n :=
    of_decide_eq_true (Bool.and_eq_true_iff.mp hb).2
  exact ⟨h.enable, rfl, fun hn => ⟨pos hn, h.rd⟩, fun hn => ⟨pos hn, h.rs1⟩, fun hn => ⟨pos hn, h.rs2⟩⟩

/-- The pack takes a new register. -/
def renames (x : DecodeRenamePack) : Bool := x.valid && x.needRename

/-- The map after a pack that takes register `p`. -/
def mapWith (f : Nat → Nat) (x : DecodeRenamePack) (p : Nat) : Nat → Nat :=
  if renames x then Function.update f x.rd p else f

/-- The forwarding rules inside the group turn the map `f₀` of the start of the cycle into `f`. -/
structure Forwards (ops : List RenameReadregOp) (f₀ f : Nat → Nat) : Prop where
  old : ∀ a ∈ archRegs, (oldPhyFeedback ops a).getD (f₀ a) = f a
  source : ∀ a ∈ archRegs, sourceFeedback ops true a (f₀ a) = f a

theorem Forwards.nil (f : Nat → Nat) : Forwards [] f f :=
  ⟨fun _ _ => rfl, fun _ _ => rfl⟩

/-- One more operation in front of the next. -/
theorem Forwards.snoc {ops : List RenameReadregOp} {f₀ f : Nat → Nat} (h : Forwards ops f₀ f)
    (op : RenameReadregOp) (hx : Renamable op.toDecodeRenamePack) :
    Forwards (ops ++ [op]) f₀ (mapWith f op.toDecodeRenamePack op.rdPhy) := by
  refine ⟨fun a ha => ?_, fun a ha => ?_⟩
  · unfold oldPhyFeedback mapWith renames
    rw [List.reverse_append, List.reverse_singleton, List.singleton_append, List.find?_cons,
      hx.enable, Bool.true_and]
    -- the last writer of a register wins
    by_cases hw : (op.valid && op.needRename) = true
    · by_cases hrd : a = op.rd
      · simp [hw, hrd]
      · have hne : (a == op.rd) = false := by simpa using hrd
        rw [hw, hne, if_pos rfl, Function.update_of_ne hrd]
        exact h.old a ha
    · rw [Bool.not_eq_true] at hw
      rw [hw, if_neg (by simp)]
      exact h.old a ha
  · unfold sourceFeedback mapWith renames
    rw [List.foldl_append]
    have ih := h.source a ha
    unfold sourceFeedback at ih
    rw [ih, List.foldl_cons, List.foldl_nil, hx.enable, hx.needRename_eq]
    by_cases hrd : a = op.rd
    · subst hrd
      have hpos : 0 < op.rd := ha.1
      cases op.valid <;> cases op.rdEnable <;> simp [hpos]
    · have hne : (a == op.rd) = false := by simpa using hrd
      rw [hne]
      split
      · simp_all
      · split
        · rw [Function.update_of_ne hrd]
        · rfl

theorem sourceFeedback_false (ops : List RenameReadregOp) (rs phy : Nat) :
    sourceFeedback ops false rs phy = phy := by
  unfold sourceFeedback
  simp only [Bool.false_and, Bool.and_false, Bool.false_eq_true, if_false]
  exact List.foldl_fixed ops

/-- The source register that rename reads for a pack. -/
def sourcePhy (f₀ f : Nat → Nat) (valid needMap : Bool) (rs : Nat) : Nat :=
  if needMap then if valid then f rs else f₀ rs else 0

/-- The renamed operation. -/
def opWith (f₀ f : Nat → Nat) (x : DecodeRenamePack) (robId p : Nat) : RenameReadregOp where
  toDecodeRenamePack := x
  robId := robId
  rdPhy := if renames x then p else 0
  rs1Phy := sourcePhy f₀ f x.valid x.rs1NeedMap x.rs1
  rs2Phy := sourcePhy f₀ f x.valid x.rs2NeedMap x.rs2

/-- The entry of the renamed operation. -/
def entryWith (f : Nat → Nat) (x : DecodeRenamePack) (p : Nat) : RobItem :=
  robItem x (if renames x then p else 0) (if renames x then some (f x.rd) else none)

/-- The working checkpoint after a pack. -/
def cpWith (cp : Checkpoint) (f : Nat → Nat) (x : DecodeRenamePack) (p : Nat) : Checkpoint :=
  if renames x then
    { cp with
      ratPhyMapTable := Function.update cp.ratPhyMapTable p x.rd
      ratPhyMapTableValid := Function.update cp.ratPhyMapTableValid p true
      ratPhyMapTableVisible := Function.update (Function.update cp.ratPhyMapTableVisible p true)
        (f x.rd) false }
  else cp

/-- The request for the checkpoint of a pack. -/
def cpRequest (uninit : Checkpoint) (q : Fifo Checkpoint) (cp : Checkpoint) (x : DecodeRenamePack) :
    List (Fifo.Request Checkpoint) :=
  if x.valid && x.predicted && x.checkpointIdValid then
    [.setItem x.checkpointId (checkpointOf uninit q cp x.checkpointId)]
  else []

/-- The locals after one more operation. -/
def ctxWith (uninit : Checkpoint) (q : Fifo Checkpoint) (f₀ f : Nat → Nat) (x : DecodeRenamePack)
    (p : Nat) (c : Rename.Ctx) : Rename.Ctx :=
  { c with
    usedPhyRegCnt := c.usedPhyRegCnt + if renames x then 1 else 0
    globalCp := cpWith c.globalCp f x p
    ratRequests := c.ratRequests ++ if renames x then [.setMap x.rd p] else []
    rob := { c.rob with fifo := c.rob.fifo.pushed (entryWith f x p) }
    ops := c.ops ++ [opWith f₀ f x c.rob.fifo.wptr p]
    cpRequests := c.cpRequests ++ cpRequest uninit q (cpWith c.globalCp f x p) x }

section One

variable {rat : Rat} {f₀ f : Nat → Nat} {x : DecodeRenamePack} {c : Rename.Ctx} {phys : List Nat}
  {p : Nat}

theorem mapped_current (h₀ : Current rat.valid rat.visible rat.phyMapTable f₀) {a : Nat}
    (ha : a ∈ archRegs) : Rename.mapped rat a = .ok (f₀ a) := by
  simp only [Rename.mapped, h₀.getPhyId_eq ha]
  rfl

/-- A source through the table and the forwarding. -/
theorem mapSource_eq (h₀ : Current rat.valid rat.visible rat.phyMapTable f₀)
    (hfw : Forwards c.ops f₀ f) {needMap : Bool} (valid : Bool) {rs : Nat}
    (hrs : needMap = true → rs ∈ archRegs) :
    ∃ phy, Rename.mapSource rat needMap rs = .ok phy ∧
      (if valid then sourceFeedback c.ops needMap rs phy else phy) =
        sourcePhy f₀ f valid needMap rs := by
  cases needMap with
  | false => exact ⟨0, rfl, by simp [sourceFeedback_false, sourcePhy]⟩
  | true =>
    refine ⟨f₀ rs, mapped_current h₀ (hrs rfl), ?_⟩
    rw [hfw.source rs (hrs rfl)]
    rfl

/-- A destination gets the next free register. -/
theorem renameDest_eq (h₀ : Current rat.valid rat.visible rat.phyMapTable f₀)
    (h : Current c.globalCp.ratPhyMapTableValid c.globalCp.ratPhyMapTableVisible
      c.globalCp.ratPhyMapTable f)
    (hfw : Forwards c.ops f₀ f) (hx : Renamable x)
    (hp : renames x = true → phys.getD c.usedPhyRegCnt 0 = p ∧ p < phyRegNum ∧
      c.globalCp.ratPhyMapTableValid p = false) :
    renameDest rat phys x c = .ok (if renames x then some (f x.rd) else none,
      if renames x then p else 0, { c with
        usedPhyRegCnt := c.usedPhyRegCnt + if renames x then 1 else 0
        globalCp := cpWith c.globalCp f x p
        ratRequests := c.ratRequests ++ if renames x then [.setMap x.rd p] else [] }) := by
  unfold renameDest cpWith
  cases hw : renames x with
  | false =>
    rw [renames] at hw
    simp [hw]
  | true =>
    obtain ⟨hget, hlt, hfree⟩ := hp hw
    rw [renames] at hw
    have hrd := hx.rd (Bool.and_eq_true_iff.mp hw).2
    have hsync : Rat.setMapSync x.rd p = .ok (.setMap x.rd p) := by
      simp only [Rat.setMapSync, archIdInRange_iff.mpr hrd, decide_eq_true hlt]
      rfl
    simp only [hw, if_true, mapped_current h₀ hrd, hget, hsync, h.cpSetMap_eq hrd hlt hfree,
      hfw.old _ hrd, bind, Except.bind, pure, Except.pure]

/-- A reorder buffer with room takes the entry at its write pointer. -/
theorem pushRob_eq {q : Fifo RobItem} (hq : q.WF) (hroom : q.isFull = false) (item : RobItem) :
    Rename.pushRob q item = .ok (q.wptr, q.pushed item) := by
  have hnew : q.getNewId = some q.wptr := by simp [Fifo.getNewId, hroom]
  simp only [Rename.pushRob, hnew, hq.push_eq hroom]

/-- `renameOne` in terms of the map `f₀` of the table and the current map `f`. -/
theorem renameOne_eq (h₀ : Current rat.valid rat.visible rat.phyMapTable f₀)
    (h : Current c.globalCp.ratPhyMapTableValid c.globalCp.ratPhyMapTableVisible
      c.globalCp.ratPhyMapTable f)
    (hfw : Forwards c.ops f₀ f) (hx : Renamable x) (hq : c.rob.fifo.WF)
    (hroom : c.rob.fifo.isFull = false) (uninit : Checkpoint) (q : Fifo Checkpoint)
    (hp : renames x = true → phys.getD c.usedPhyRegCnt 0 = p ∧ p < phyRegNum ∧
      c.globalCp.ratPhyMapTableValid p = false) :
    renameOne rat uninit q phys x c = .ok (ctxWith uninit q f₀ f x p c) := by
  obtain ⟨s1, hs1, hv1⟩ := mapSource_eq h₀ hfw x.valid hx.rs1
  obtain ⟨s2, hs2, hv2⟩ := mapSource_eq h₀ hfw x.valid hx.rs2
  unfold renameOne
  simp only [renameDest_eq h₀ h hfw hx hp, pushRob_eq hq hroom, hs1, hs2, hv1, hv2, bind,
    Except.bind, pure, Except.pure]
  rfl

end One

/-- There is room in the reorder buffer exactly if it is not full. -/
theorem Rob.getFreeSpace_pos {r : Rob} (h : r.fifo.WF) :
    1 ≤ r.getFreeSpace ↔ r.fifo.isFull = false := by
  have hpos := h.size_pos
  unfold Rob.getFreeSpace Fifo.getSize
  cases r.fifo.isFull with
  | true => simp
  | false =>
    simp only [Bool.false_eq_true, if_false, iff_true]
    split
    · exact Nat.sub_pos_of_lt (Nat.mod_lt _ hpos)
    · exact Nat.sub_pos_of_lt (Nat.mod_lt _ hpos)

/-- The registers a round is given hold the next free one. -/
theorem getFreePhyId_getD (rat : Rat) {n : Nat} (hn : n < rat.freeList.length) :
    some ((rat.getFreePhyId (n + 1)).getD n 0) = rat.freeList[n]? := by
  rw [rat.getFreePhyId_eq, Nat.max_eq_left (by omega), List.getD_eq_getElem?_getD,
    List.getElem?_take_of_lt (by omega), List.getElem?_eq_getElem hn]
  rfl

section Round

variable {rat : Rat} {f₀ f : Nat → Nat} {x : DecodeRenamePack} {c : Rename.Ctx} {p : Nat}

/-- The locals after a round that took the pack `x`. -/
def roundWith (uninit : Checkpoint) (q : Fifo Checkpoint) (f₀ f : Nat → Nat) (x : DecodeRenamePack)
    (p : Nat) (c : Rename.Ctx) : Rename.Ctx :=
  ctxWith uninit q f₀ f x p { c with
    phyRegReqCnt := c.phyRegReqCnt + if renames x then 1 else 0
    robReqCnt := c.robReqCnt + 1
    fifo := c.fifo.popped }

/-- A round renames the operation at the front, with the operands that the group before it leaves. -/
theorem renameLoop_round (h₀ : Current rat.valid rat.visible rat.phyMapTable f₀)
    (h : Current c.globalCp.ratPhyMapTableValid c.globalCp.ratPhyMapTableVisible
      c.globalCp.ratPhyMapTable f)
    (hfw : Forwards c.ops f₀ f) (hx : Renamable x) (hq : c.rob.fifo.WF)
    (hroom : c.rob.fifo.isFull = false) (uninit : Checkpoint) (q : Fifo Checkpoint)
    (hpop : c.fifo.pop = some (x, c.fifo.popped)) (hreq : c.phyRegReqCnt = c.usedPhyRegCnt)
    (hp : rat.freeList[c.usedPhyRegCnt]? = some p) (hfree : c.globalCp.ratPhyMapTableValid p = false)
    (n : Nat) :
    renameLoop rat uninit q (n + 1) c =
      renameLoop rat uninit q n (roundWith uninit q f₀ f x p c) := by
  have hlt : c.usedPhyRegCnt < rat.freeList.length := (List.getElem?_eq_some_iff.mp hp).1
  have hbound : p < phyRegNum := by
    have := List.mem_of_getElem? hp
    exact List.mem_range.mp (List.mem_filter.mp this).1
  have hcount : (x.enable && x.valid && x.needRename) = renames x := by
    rw [hx.enable, Bool.true_and, renames]
  -- the free list is asked for one more each round
  have henough : c.phyRegReqCnt + (if renames x then 1 else 0) ≤
      (rat.getFreePhyId (c.phyRegReqCnt + if renames x then 1 else 0)).length := by
    rw [rat.getFreePhyId_eq, List.length_take, hreq]
    split <;> omega
  have hone : renameOne rat uninit q
      (rat.getFreePhyId (c.phyRegReqCnt + if renames x then 1 else 0)) x { c with
        phyRegReqCnt := c.phyRegReqCnt + if renames x then 1 else 0
        robReqCnt := c.robReqCnt + 1
        fifo := c.fifo.popped } = .ok (roundWith uninit q f₀ f x p c) := by
    refine renameOne_eq (c := { c with
      phyRegReqCnt := c.phyRegReqCnt + if renames x then 1 else 0
      robReqCnt := c.robReqCnt + 1
      fifo := c.fifo.popped }) h₀ h hfw hx hq hroom uninit q fun hw => ⟨?_, hbound, hfree⟩
    have := getFreePhyId_getD rat hlt
    rw [hp, Option.some_inj] at this
    rwa [if_pos hw, hreq]
  conv_lhs => unfold renameLoop
  rw [hpop]
  simp only [hcount]
  simp only [hx.enable, if_true]
  rw [if_pos (by simp [henough, (Rob.getFreeSpace_pos hq).mpr hroom]), hone]
  rfl

/-- The loop stops at an empty FIFO. -/
theorem renameLoop_empty (uninit : Checkpoint) (q : Fifo Checkpoint) (hpop : c.fifo.pop = none)
    (n : Nat) : renameLoop rat uninit q n c = .ok c := by
  cases n with
  | zero => rfl
  | succ n =>
    unfold renameLoop
    rw [hpop]

/-- The loop stops at a full reorder buffer. -/
theorem renameLoop_full (uninit : Checkpoint) (q : Fifo Checkpoint) (hq : c.rob.fifo.WF)
    (hroom : c.rob.fifo.isFull = true) (hreq : c.phyRegReqCnt < rat.freeList.length) (n : Nat) :
    ∃ k j perf, renameLoop rat uninit q n c =
      .ok { c with phyRegReqCnt := k, robReqCnt := j, perf := perf } := by
  cases n with
  | zero => exact ⟨_, _, _, rfl⟩
  | succ n =>
    unfold renameLoop
    cases c.fifo.pop with
    | none => exact ⟨_, _, _, rfl⟩
    | some y =>
      have hspace : ¬ c.rob.getFreeSpace ≥ 1 := by
        rw [ge_iff_le, Rob.getFreeSpace_pos hq, hroom]
        simp
      obtain ⟨k, hk⟩ : ∃ k, k = c.phyRegReqCnt +
        if y.1.enable && y.1.valid && y.1.needRename then 1 else 0 := ⟨_, rfl⟩
      have henough : ¬ (rat.getFreePhyId k).length < k := by
        rw [rat.getFreePhyId_eq, List.length_take]
        have : k ≤ c.phyRegReqCnt + 1 := by
          rw [hk]
          split <;> omega
        omega
      simp only [← hk]
      rw [if_neg (by simp [hspace]), if_neg henough]
      exact ⟨_, _, _, rfl⟩

end Round

/-! ## One per cycle

The same operations, renamed in cycles of their own. -/

/-- What rename works on across cycles. -/
structure RenameState where
  rat : Rat
  checkpointBuffer : Fifo Checkpoint
  fifo : Fifo DecodeRenamePack
  rob : Rob
  perf : PerfCounters

namespace RenameState

/-- The locals of `rename::run` at the start of a cycle. -/
def start (s : RenameState) (uninit : Checkpoint) : Rename.Ctx where
  fifo := s.fifo
  rob := s.rob
  perf := s.perf
  ops := []
  phyRegReqCnt := 0
  robReqCnt := 0
  usedPhyRegCnt := 0
  globalCp := s.rat.save uninit
  ratRequests := []
  cpRequests := []

/-- A cycle that renames one instruction, with its synchronisation. -/
def single (s : RenameState) (uninit : Checkpoint) :
    Except Halt (RenameState × List RenameReadregOp) := do
  let c ← renameLoop s.rat uninit s.checkpointBuffer 1 (s.start uninit)
  let rat ← s.rat.sync c.ratRequests
  return (⟨rat, s.checkpointBuffer.sync c.cpRequests, c.fifo, c.rob, c.perf⟩, c.ops)

/-- `n` such cycles, each with its own uninitialised local. -/
def singles : Nat → (Nat → Checkpoint) → RenameState →
    Except Halt (RenameState × List RenameReadregOp)
  | 0, _, s => .ok (s, [])
  | n + 1, uninit, s => do
    let (s, ops) ← s.single (uninit 0)
    let (s, more) ← singles n (fun i => uninit (i + 1)) s
    return (s, ops ++ more)

end RenameState

/-- The part of a checkpoint that is initialised. -/
def Checkpoint.bits (cp : Checkpoint) : (Nat → Bool) × (Nat → Bool) × Word × Word :=
  (cp.ratPhyMapTableValid, cp.ratPhyMapTableVisible, cp.globalHistory, cp.localHistory)

/-- The two buffers hold the same checkpoints in the same slots. -/
def SameCheckpoints (q q' : Fifo Checkpoint) : Prop :=
  { q with buffer := q'.buffer } = q' ∧ ∀ id, (q.buffer id).bits = (q'.buffer id).bits

theorem SameCheckpoints.setItem {q q' : Fifo Checkpoint} (h : SameCheckpoints q q') (id : Nat)
    {cp cp' : Checkpoint} (hcp : cp.bits = cp'.bits) :
    SameCheckpoints (q.setItem id cp) (q'.setItem id cp') := by
  refine ⟨?_, fun i => ?_⟩
  · conv_rhs => rw [← h.1]
    rfl
  · by_cases hi : i = id
    · simpa [Fifo.setItem, hi] using hcp
    · simpa [Fifo.setItem, hi] using h.2 i

/-- The two operations agree, in their source registers only if decode accepted them. -/
structure OpAgrees (op op' : RenameReadregOp) : Prop where
  pack : op.toDecodeRenamePack = op'.toDecodeRenamePack
  robId : op.robId = op'.robId
  rdPhy : op.rdPhy = op'.rdPhy
  sources : op.valid = true → op.rs1Phy = op'.rs1Phy ∧ op.rs2Phy = op'.rs2Phy

/-- The operations of a round and of a cycle of its own differ in nothing that is used later. -/
theorem OpAgrees.opWith (f₀ f : Nat → Nat) (x : DecodeRenamePack) (robId p : Nat) :
    OpAgrees (opWith f₀ f x robId p) (opWith f f x robId p) :=
  ⟨rfl, rfl, rfl, fun hv => by
    change x.valid = true at hv
    simp [MyRiscvCore.opWith, sourcePhy, hv]⟩

/-! ## The simulation

The loop of a group against cycles with one operation each, round by round. -/

/-- The locals `c` of the group against the state `t` that one cycle per instruction leaves. -/
structure Sim (rat₀ : Rat) (q₀ : Fifo Checkpoint) (f₀ f : Nat → Nat) (c : Rename.Ctx)
    (t : RenameState) : Prop where
  rat : rat₀.sync c.ratRequests = .ok t.rat
  init : t.rat.initRat = false
  current : Current t.rat.valid t.rat.visible t.rat.phyMapTable f
  cpValid : c.globalCp.ratPhyMapTableValid = t.rat.valid
  cpVisible : c.globalCp.ratPhyMapTableVisible = t.rat.visible
  cpTable : c.globalCp.ratPhyMapTable = t.rat.phyMapTable
  free : t.rat.freeList = rat₀.freeList.drop c.usedPhyRegCnt
  forwards : Forwards c.ops f₀ f
  rob : c.rob = t.rob
  robWF : c.rob.fifo.WF
  robSave : c.rob.fifo.popStatusSave = false
  fifo : c.fifo = t.fifo
  fifoWF : c.fifo.WF
  checkpoints : SameCheckpoints (q₀.sync c.cpRequests) t.checkpointBuffer
  histories : ∀ id, (t.checkpointBuffer.buffer id).globalHistory = (q₀.buffer id).globalHistory ∧
    (t.checkpointBuffer.buffer id).localHistory = (q₀.buffer id).localHistory

theorem Rat.sync_append (r : Rat) (l l' : List Rat.Request) :
    r.sync (l ++ l') = (r.sync l).bind fun r => r.sync l' :=
  List.foldlM_append

theorem Fifo.sync_append {α : Type} (q : Fifo α) (l l' : List (Fifo.Request α)) :
    q.sync (l ++ l') = (q.sync l).sync l' :=
  List.foldl_append

/-- Allocating the first free register leaves the others. -/
theorem Rat.freeList_update {r r' : Rat} {p : Nat} {l : List Nat} (h : r.freeList = p :: l)
    (hv : r'.valid = Function.update r.valid p true) : r'.freeList = l := by
  have hnd := r.nodup_freeList
  rw [h, List.nodup_cons] at hnd
  have hfilter : r'.freeList = r.freeList.filter (· != p) := by
    unfold Rat.freeList
    rw [List.filter_filter, hv]
    refine List.filter_congr fun i _ => ?_
    by_cases hi : i = p
    · simp [hi]
    · simp [hi]
  rw [hfilter, h, List.filter_cons_of_neg (by simp), List.filter_eq_self]
  intro i hi
  have hne : i ≠ p := fun e => hnd.1 (e ▸ hi)
  simpa using hne

section Step

variable {rat₀ : Rat} {q₀ : Fifo Checkpoint} {f₀ f : Nat → Nat} {c : Rename.Ctx} {t : RenameState}
  {x : DecodeRenamePack} {p : Nat}

/-- The table after the request of one pack. -/
theorem Sim.set (h : Sim rat₀ q₀ f₀ f c t) (hx : Renamable x) (hp : t.rat.freeList.head? = some p) :
    ∃ r, t.rat.sync (if renames x then [.setMap x.rd p] else []) = .ok r ∧ r.initRat = false ∧
      Current r.valid r.visible r.phyMapTable (mapWith f x p) ∧
      (cpWith c.globalCp f x p).ratPhyMapTableValid = r.valid ∧
      (cpWith c.globalCp f x p).ratPhyMapTableVisible = r.visible ∧
      (cpWith c.globalCp f x p).ratPhyMapTable = r.phyMapTable ∧
      r.freeList = t.rat.freeList.drop (if renames x then 1 else 0) := by
  unfold mapWith cpWith
  cases hw : renames x with
  | false =>
    exact ⟨t.rat, rfl, h.init, by simpa using h.current, by simpa using h.cpValid,
      by simpa using h.cpVisible, by simpa using h.cpTable, by simp⟩
  | true =>
    obtain ⟨l, hl⟩ := List.head?_eq_some_iff.mp hp
    have hmem : p ∈ t.rat.freeList := by rw [hl]; exact List.mem_cons_self
    obtain ⟨hlt, hfree⟩ := List.mem_filter.mp hmem
    rw [List.mem_range] at hlt
    rw [Bool.not_eq_true'] at hfree
    have hrd := hx.rd (Bool.and_eq_true_iff.mp hw).2
    -- both sides take the same register and hide the same old one
    have hset := h.current.setMap_eq hrd hlt hfree h.init
    obtain ⟨r, hr⟩ : ∃ r, r = { t.rat with
      phyMapTable := Function.update t.rat.phyMapTable p x.rd
      valid := Function.update t.rat.valid p true
      visible := Function.update (Function.update t.rat.visible p true) (f x.rd) false
      commit := Function.update t.rat.commit p false } := ⟨_, rfl⟩
    rw [← hr] at hset
    refine ⟨r, ?_, ?_, ?_, ?_, ?_, ?_, ?_⟩
    · simp only [if_true, Rat.sync, List.foldlM_cons, List.foldlM_nil, Rat.apply, hset]
      rfl
    all_goals subst hr
    · exact h.init
    · simpa using h.current.set hrd hlt hfree
    · simp [h.cpValid]
    · simp [h.cpVisible]
    · simp [h.cpTable]
    · rw [hl]
      exact Rat.freeList_update hl rfl

/-- One more instruction on both sides. -/
theorem Sim.step (h : Sim rat₀ q₀ f₀ f c t)
    (h₀ : Current rat₀.valid rat₀.visible rat₀.phyMapTable f₀) (hx : Renamable x)
    (hpop : c.fifo.pop = some (x, c.fifo.popped)) (hcount : 0 < c.fifo.count)
    (hroom : c.rob.fifo.isFull = false) (hreq : c.phyRegReqCnt = c.usedPhyRegCnt)
    (hfree : c.usedPhyRegCnt < rat₀.freeList.length) (uninit u : Checkpoint) :
    ∃ p t' op', (∀ n, renameLoop rat₀ uninit q₀ (n + 1) c =
        renameLoop rat₀ uninit q₀ n (roundWith uninit q₀ f₀ f x p c)) ∧
      t.single u = .ok (t', [op']) ∧ OpAgrees (opWith f₀ f x c.rob.fifo.wptr p) op' ∧
      Sim rat₀ q₀ f₀ (mapWith f x p) (roundWith uninit q₀ f₀ f x p c) t' := by
  obtain ⟨p, hp⟩ : ∃ p, rat₀.freeList[c.usedPhyRegCnt]? = some p :=
    ⟨_, List.getElem?_eq_getElem hfree⟩
  have hhead : t.rat.freeList.head? = some p := by
    rw [h.free, List.head?_drop, hp]
  have hnot : t.rat.valid p = false := by
    have hmem : p ∈ t.rat.freeList := List.mem_of_head? hhead
    simpa using (List.mem_filter.mp hmem).2
  obtain ⟨r, hsync, hinit, hcur, hv, hvis, htab, hlist⟩ := h.set hx hhead
  have hc : Current c.globalCp.ratPhyMapTableValid c.globalCp.ratPhyMapTableVisible
      c.globalCp.ratPhyMapTable f := by
    rw [h.cpValid, h.cpVisible, h.cpTable]
    exact h.current
  have hlt := h.robWF.count_lt h.robSave hroom
  -- the single cycle starts from the table that the group's requests lead to
  have hwf' : t.rob.fifo.WF := h.rob ▸ h.robWF
  have hroom' : t.rob.fifo.isFull = false := h.rob ▸ hroom
  have hpop' : t.fifo.pop = some (x, t.fifo.popped) := h.fifo ▸ hpop
  have hsingle := renameLoop_round (c := t.start u) h.current (f := f) h.current (.nil f) hx hwf'
    hroom' u t.checkpointBuffer hpop' rfl (List.head?_eq_getElem?.symm.trans hhead) hnot 0
  have hsame : (cpWith (t.rat.save u) f x p).ratPhyMapTableValid = r.valid ∧
      (cpWith (t.rat.save u) f x p).ratPhyMapTableVisible = r.visible := by
    rw [← hv, ← hvis]
    unfold cpWith
    split
    · simp [Rat.save, h.cpValid, h.cpVisible]
    · exact ⟨h.cpValid.symm, h.cpVisible.symm⟩
  refine ⟨p, ⟨r, t.checkpointBuffer.sync (cpRequest u t.checkpointBuffer
    (cpWith (t.rat.save u) f x p) x), t.fifo.popped,
    { t.rob with fifo := t.rob.fifo.pushed (entryWith f x p) }, t.perf⟩,
    opWith f f x t.rob.fifo.wptr p, ?_, ?_, ?_, ?_⟩
  · exact fun n => renameLoop_round h₀ hc h.forwards hx h.robWF hroom uninit q₀ hpop hreq hp
      (by rw [h.cpValid]; exact hnot) n
  · unfold RenameState.single
    rw [hsingle]
    simp only [renameLoop, roundWith, ctxWith, RenameState.start, List.nil_append, bind, Except.bind,
      hsync, pure, Except.pure]
  · rw [h.rob]
    exact .opWith f₀ f x _ p
  · exact {
      rat := by
        change rat₀.sync (c.ratRequests ++ _) = _
        rw [Rat.sync_append, h.rat]
        exact hsync
      init := hinit
      current := hcur
      cpValid := hv
      cpVisible := hvis
      cpTable := htab
      free := by
        change r.freeList = rat₀.freeList.drop (c.usedPhyRegCnt + _)
        rw [hlist, h.free, List.drop_drop]
      forwards := by
        have := h.forwards.snoc (opWith f₀ f x c.rob.fifo.wptr p) hx
        change Forwards (c.ops ++ [_]) f₀ _
        convert this using 1
        unfold mapWith opWith
        split
        · simp
        · rfl
      rob := by
        change ({ c.rob with fifo := _ } : Rob) = _
        rw [h.rob]
      robWF := h.robWF.pushed hlt _
      robSave := h.robSave
      fifo := by
        change c.fifo.popped = _
        rw [h.fifo]
      fifoWF := h.fifoWF.popped hcount
      checkpoints := by
        change SameCheckpoints (q₀.sync (c.cpRequests ++ _)) _
        rw [Fifo.sync_append]
        unfold cpRequest
        split
        · refine h.checkpoints.setItem _ ?_
          simp only [Checkpoint.bits, checkpointOf, Checkpoint.clone, Fifo.getItem, hv, hvis, hsame,
            (h.histories _).1, (h.histories _).2]
        · exact h.checkpoints
      histories := by
        intro id
        unfold cpRequest
        split
        · by_cases hid : id = x.checkpointId
          · subst hid
            simpa [Fifo.sync, Fifo.apply, Fifo.setItem, checkpointOf, Fifo.getItem] using
              h.histories x.checkpointId
          · simpa [Fifo.sync, Fifo.apply, Fifo.setItem, hid] using h.histories id
        · exact h.histories id }

/-- The loop on one side, as many single cycles as it took instructions on the other. -/
theorem Sim.loop (h₀ : Current rat₀.valid rat₀.visible rat₀.phyMapTable f₀) (uninit : Checkpoint)
    (n : Nat) (h : Sim rat₀ q₀ f₀ f c t) (hpacks : ∀ x ∈ c.fifo.toList, Renamable x)
    (hreq : c.phyRegReqCnt = c.usedPhyRegCnt) (hfree : c.usedPhyRegCnt + n < rat₀.freeList.length) (us : Nat → Checkpoint) :
    ∃ c' ops t' ops' f', renameLoop rat₀ uninit q₀ n c = .ok c' ∧ c'.ops = c.ops ++ ops ∧
      t.singles ops.length us = .ok (t', ops') ∧ List.Forall₂ OpAgrees ops ops' ∧
      Sim rat₀ q₀ f₀ f' c' t' ∧
      c.fifo.toList = ops.map (·.toDecodeRenamePack) ++ c'.fifo.toList ∧
      (ops.length < n → c'.fifo.toList = [] ∨ c'.rob.fifo.isFull = true) := by
  induction n generalizing c t f us with
  | zero => exact ⟨c, [], t, [], f, rfl, by simp, rfl, .nil, h, rfl, by simp⟩
  | succ n ih =>
    obtain ⟨hpop, hnil⟩ | ⟨x, hpop, hcount, hlist⟩ := h.fifoWF.pop_cases
    · exact ⟨c, [], t, [], f, renameLoop_empty uninit q₀ hpop _, by simp, rfl, .nil, h, rfl,
        fun _ => .inl hnil⟩
    -- a full reorder buffer stops the group, as it stops a single one
    cases hroom : c.rob.fifo.isFull with
    | true =>
      have hlt : c.phyRegReqCnt < rat₀.freeList.length := by omega
      obtain ⟨k, j, perf, hstop⟩ := renameLoop_full uninit q₀ h.robWF hroom hlt (n + 1)
      exact ⟨_, [], t, [], f, hstop, by simp, rfl, .nil, ⟨h.rat, h.init, h.current, h.cpValid,
        h.cpVisible, h.cpTable, h.free, h.forwards, h.rob, h.robWF, h.robSave, h.fifo, h.fifoWF,
        h.checkpoints, h.histories⟩, rfl, fun _ => .inr hroom⟩
    | false =>
      have hx : Renamable x := hpacks x (by rw [hlist]; exact List.mem_cons_self)
      obtain ⟨p, t', op', hround, hsingle, hsame, hsim⟩ :=
        h.step h₀ hx hpop hcount hroom hreq (by omega) uninit (us 0)
      have hused : (roundWith uninit q₀ f₀ f x p c).usedPhyRegCnt + n < rat₀.freeList.length := by
        change c.usedPhyRegCnt + _ + n < _
        split <;> omega
      obtain ⟨c'', ops, t'', ops', f'', hloop, hops, hsingles, hall, hsim'', hfifo, hstop⟩ :=
        ih hsim (fun y hy => hpacks y (by
          rw [hlist]
          exact List.mem_cons_of_mem _ hy)) (by
          change c.phyRegReqCnt + _ = c.usedPhyRegCnt + _
          rw [hreq]) hused fun i => us (i + 1)
      refine ⟨c'', opWith f₀ f x c.rob.fifo.wptr p :: ops, t'', op' :: ops', f'', ?_, ?_, ?_,
        .cons hsame hall, hsim'', ?_, fun hlt => hstop (by simpa using hlt)⟩
      · rw [hround, hloop]
      · rw [hops]
        exact List.append_assoc ..
      · simp only [List.length_cons, RenameState.singles, hsingle, hsingles, bind, Except.bind, pure,
          Except.pure, List.singleton_append]
      · rw [hlist]
        exact congrArg _ hfifo

end Step

/-- Both begin in the same state. -/
theorem Sim.start {s : RenameState} {f : Nat → Nat}
    (h : Current s.rat.valid s.rat.visible s.rat.phyMapTable f) (hinit : s.rat.initRat = false)
    (hrob : s.rob.fifo.WF) (hsave : s.rob.fifo.popStatusSave = false) (hfifo : s.fifo.WF)
    (uninit : Checkpoint) : Sim s.rat s.checkpointBuffer f f (s.start uninit) s where
  rat := rfl
  init := hinit
  current := h
  cpValid := rfl
  cpVisible := rfl
  cpTable := rfl
  free := rfl
  forwards := .nil f
  rob := rfl
  robWF := hrob
  robSave := hsave
  fifo := rfl
  fifoWF := hfifo
  checkpoints := ⟨rfl, fun _ => rfl⟩
  histories := fun _ => ⟨rfl, rfl⟩

/-- What the synchronised outcome `out` of one cycle and the outcome `t`, `ops` of single cycles have
in common. -/
structure SameRenaming (s : RenameState) (out : Rename.Out) (t : RenameState)
    (ops : List RenameReadregOp) : Prop where
  ops : List.Forall₂ OpAgrees out.renamed ops
  rat : s.rat.sync out.ratRequests = .ok t.rat
  rob : out.rob = t.rob
  checkpoints : SameCheckpoints (s.checkpointBuffer.sync out.cpRequests) t.checkpointBuffer
  fifo : out.fifo = t.fifo

/-- For every table and reorder buffer under the renaming invariant and any decoded instructions in
the FIFO, `rename::run` takes a prefix of them, stopping short of four only at the end of the FIFO or
at a full reorder buffer, and what it leaves after synchronisation is what the same instructions
leave when they are renamed one per cycle: the operations, but for the sources of a rejected one, the
entries, the checkpoints and the table. -/
theorem rename_group (s : RenameState) (hrat : Partition s.rat (replaced s.rob.fifo))
    (hrob : s.rob.fifo.WF) (hsize : s.rob.fifo.size = robSize)
    (hsave : s.rob.fifo.popStatusSave = false) (hfifo : s.fifo.WF)
    (hpacks : ∀ x ∈ s.fifo.toList, ∃ p, x = Decode.decodePack p) (port : List RenameReadregOp)
    (fb : CommitFeedbackPack) (hfb : fb.flushing = false) (uninit : Checkpoint)
    (uninits : Nat → Checkpoint) :
    ∃ out t ops, Rename.run s.rat uninit s.checkpointBuffer s.fifo s.rob s.perf port false fb =
        .ok out ∧ s.singles out.renamed.length uninits = .ok (t, ops) ∧ SameRenaming s out t ops ∧
      s.fifo.toList = out.renamed.map (·.toDecodeRenamePack) ++ out.fifo.toList ∧
      (out.renamed.length < renameWidth → out.fifo.toList = [] ∨ out.rob.fifo.isFull = true) := by
  obtain ⟨f, hf, -⟩ := hrat.current
  have hfree := hrat.length_freeList
  have hold : (replaced s.rob.fifo).length ≤ robSize := by
    unfold replaced
    rw [List.length_map, ← hsize]
    exact ((List.length_filter_le _ _).trans_eq s.rob.fifo.length_toList).trans hrob.count_le
  rw [show robSize = 64 from rfl] at hold
  have hrename : ∀ x ∈ s.fifo.toList, Renamable x := by
    intro x hx
    obtain ⟨p, rfl⟩ := hpacks x hx
    exact .decodePack p
  -- 64 entries hold at most as many registers, so four are free
  have hroom : 0 + renameWidth < s.rat.freeList.length := by
    rw [show renameWidth = 4 from rfl]
    omega
  obtain ⟨c, ops, t, ops', f', hloop, hops, hsingles, hall, hsim, hlist, hstop⟩ :=
    (Sim.start hf hrat.init hrob hsave hfifo uninit).loop hf uninit renameWidth hrename rfl hroom
      uninits
  have hops' : c.ops = ops := hops
  refine ⟨{
      fifo := c.fifo, rob := c.rob, perf := c.perf, port := Rename.slots c.ops
      ratRequests := c.ratRequests, cpRequests := c.cpRequests, renamed := c.ops }, t, ops', ?_, ?_,
    ⟨?_, hsim.rat, hsim.rob, hsim.checkpoints, hsim.fifo⟩, ?_, ?_⟩
  · unfold Rename.run
    rw [hfb]
    change Except.bind (renameLoop s.rat uninit s.checkpointBuffer renameWidth (s.start uninit)) _ = _
    rw [hloop]
    rfl
  · rw [hops']
    exact hsingles
  · rw [hops']
    exact hall
  · rw [hops']
    exact hlist
  · rw [hops']
    exact hstop

/-- After reset, with `addi x1, x0, 1` and a load from `x1` whose `funct3` is reserved. -/
def rejectedLoad : RenameState where
  rat := {
    phyMapTable := id
    valid := fun p => decide (0 < p ∧ p < archRegNum)
    visible := fun p => decide (0 < p ∧ p < archRegNum)
    commit := fun p => decide (0 < p ∧ p < archRegNum)
    initRat := false }
  checkpointBuffer := Fifo.new checkpointBufferSize fun _ => default
  fifo := ((Fifo.new decodeRenameFifoSize fun _ => default).pushed
    (Decode.decodePack { (default : FetchDecodePack) with
      enable := true, value := 0x00100093, pc := 0 })).pushed
    (Decode.decodePack { (default : FetchDecodePack) with
      enable := true, value := 0x0000b003, pc := 4 })
  rob := Rob.reset
  perf := PerfCounters.reset

theorem rejectedLoad_partition : Partition rejectedLoad.rat (replaced rejectedLoad.rob.fifo) where
  mapped := by
    intro a ha
    have hlt : a < phyRegNum := Nat.lt_trans ha.2 (by decide)
    exact ⟨a, ⟨hlt, decide_eq_true ha, decide_eq_true ha, rfl⟩, fun p hp => hp.2.2.2⟩
  visible := by
    intro p _ hv
    have hmem : 0 < p ∧ p < archRegNum := of_decide_eq_true hv
    exact ⟨hv, hmem⟩
  valid_iff := fun p _ => by simp [replaced, rejectedLoad, Rob.reset]
  hidden := by simp [replaced, rejectedLoad, Rob.reset]
  nodup := by simp [replaced, rejectedLoad, Rob.reset]
  init := rfl

theorem rejectedLoad_packs : ∀ x ∈ rejectedLoad.fifo.toList, ∃ p, x = Decode.decodePack p := by
  have hlist : rejectedLoad.fifo.toList = [_, _] := rfl
  rw [hlist]
  simp only [List.mem_cons, List.not_mem_nil, or_false]
  rintro x (rfl | rfl) <;> exact ⟨_, rfl⟩

/-- On a group with a rejected load. -/
theorem rename_group_rejectedLoad : ∃ out t ops,
    Rename.run rejectedLoad.rat default rejectedLoad.checkpointBuffer rejectedLoad.fifo
        rejectedLoad.rob rejectedLoad.perf [] false default = .ok out ∧
      rejectedLoad.singles out.renamed.length (fun _ => default) = .ok (t, ops) ∧
      SameRenaming rejectedLoad out t ops :=
  have ⟨out, t, ops, hout, hops, hsame, _⟩ := rename_group rejectedLoad rejectedLoad_partition
    (.new (by decide) _) rfl rfl
    (.pushed (.pushed (.new (by decide) _) (by decide) _) (by decide) _)
    rejectedLoad_packs [] default rfl default fun _ => default
  ⟨out, t, ops, hout, hops, hsame⟩

/-- The rejected load reads `x1` from register 1 in the group, and from register 0, the one that the
`addi` before it takes, when it is renamed in a cycle of its own. -/
theorem rename_group_sources_differ : Partition rejectedLoad.rat (replaced rejectedLoad.rob.fifo) ∧
    (∀ x ∈ rejectedLoad.fifo.toList, ∃ p, x = Decode.decodePack p) ∧
    (Rename.run rejectedLoad.rat default rejectedLoad.checkpointBuffer rejectedLoad.fifo
        rejectedLoad.rob rejectedLoad.perf [] false default).map
      (fun out => out.renamed.map fun op => (op.rdPhy, op.rs1Phy)) = .ok [(0, 0), (0, 1)] ∧
    (rejectedLoad.singles 2 fun _ => default).map
      (fun r => r.2.map fun op => (op.rdPhy, op.rs1Phy)) = .ok [(0, 0), (0, 0)] :=
  ⟨rejectedLoad_partition, rejectedLoad_packs, rfl, rfl⟩

end MyRiscvCore
