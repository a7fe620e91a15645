import MyRiscvCore.Machine

/-!
# MyRiscvCore — what commit counts, teaches and asserts

Effects of `commit::run` that no stage behind it waits for: `global_commit_num` grows with every retired entry,
and the branch predictor learns from every retired jump that was predicted. Both are functions of the entries
retired in the cycle (`Commit.run_normal`), whatever ended the group. If the cycle flushes, no entry but a
mispredicted jump at the end of the group has taught the predictor anything (`Commit.run_flushing`). A
mispredicted jump that has retired passed the checks on its checkpoint (`Commit.run_missed`).

All of this is read off two inversions: what a round of the retire loop can do (`Commit.retireLoop_cases`), and
what a cycle in the normal state can do (`Commit.run_cases`).
-/

namespace MyRiscvCore

namespace Commit

/-! ## What commit can do

The rounds of the retire loop, as constructors. -/

section Inversion

variable {csr : Csrfile} {c c' : Ctx} {item : RobItem}

/-- The context once the loop has looked at its entry: the entry after it is announced. -/
def looked (firstId : Nat) (c : Ctx) (next : Nat × Bool) : Ctx :=
  { c with
    state := { c.state with robItem := c.rob.fifo.getItem c.state.robItemId }
    fb := { c.fb with
      nextHandleRobId := next.1
      nextHandleRobIdValid := next.2 && next.1 != firstId
      committedRobId := c.fb.committedRobId ++ [c.state.robItemId] } }

/-- The same once the entry has retired. -/
def passed (firstId : Nat) (c : Ctx) (next : Nat × Bool) : Ctx :=
  retireBase (c.rob.fifo.getItem c.state.robItemId) (looked firstId c next)

/-- What a round of the retire loop does. -/
inductive Round (csr : Csrfile) (firstId rounds : Nat) (c c' : Ctx) : Prop
  /-- The entry has not finished. -/
  | wait (h : c' = { c with state := { c.state with robItem := c.rob.fifo.getItem c.state.robItemId } })
  /-- The entry has an exception. -/
  | trap (next : Nat × Bool) (tailId : Nat)
    (h : c' = { looked firstId c next with
      state := { (looked firstId c next).state with restoreRobItemId := tailId, curState := .flush }
      fb := { (looked firstId c next).fb with enable := true, flush := true }
      needFlush := true })
  /-- A jump retires, and ends the group. -/
  | jump (next : Nat × Bool) (hbru : (c.rob.fifo.getItem c.state.robItemId).bruOp = true)
    (h : retireBranch csr (c.rob.fifo.getItem c.state.robItemId) (passed firstId c next) = .ok c')
  /-- Another entry retires, and the loop goes on. -/
  | step (next : Nat × Bool) (hbru : (c.rob.fifo.getItem c.state.robItemId).bruOp = false)
    (h : retireLoop csr firstId rounds { passed firstId c next with
      state := { (passed firstId c next).state with robItemId := next.1 } } = .ok c')
  /-- Another entry retires, and none follows it. -/
  | last (next : Nat × Bool) (hbru : (c.rob.fifo.getItem c.state.robItemId).bruOp = false)
    (h : c' = { passed firstId c next with
      state := { (passed firstId c next).state with robItemId := next.1 } })

/-- A round ends the loop or retires one entry and goes on. -/
theorem retireLoop_cases {firstId rounds : Nat} (h : retireLoop csr firstId (rounds + 1) c = .ok c') :
    Round csr firstId rounds c c' := by
  unfold retireLoop at h
  dsimp only at h
  split at h
  · cases h
    exact .wait rfl
  obtain ⟨⟨nextId, nextValid⟩, -, h⟩ := bind_eq_ok.mp h
  dsimp only at h
  split at h
  · split at h
    · cases h
    next tailId _ =>
      cases h
      exact .trap (nextId, nextValid) tailId rfl
  split at h
  next hbru => exact .jump (nextId, nextValid) hbru h
  next hbru =>
    rw [Bool.not_eq_true] at hbru
    split at h
    · exact .step (nextId, nextValid) hbru h
    · cases h
      exact .last (nextId, nextValid) hbru rfl

/-- What a cycle in the normal state does before it takes the results of write-back. -/
inductive Group (csr : Csrfile) (c c' : Ctx) : Prop
  /-- The ROB is empty. -/
  | empty (h : c' = c)
  /-- An interrupt is accepted. -/
  | interrupt (frontId tailId : Nat) (cause : RiscvInterrupt)
    (h : c' = { c with
      state := { c.state with
        robItemId := frontId, robItem := c.rob.fifo.getItem frontId
        interruptPc := (c.rob.fifo.getItem frontId).pc, interruptId := cause
        restoreRobItemId := tailId, curState := .interruptFlush }
      fb := { c.fb with
        enable := true, nextHandleRobId := frontId, nextHandleRobIdValid := true, flush := true }
      needFlush := true })
  /-- Entries are retired. -/
  | retire (frontId : Nat)
    (h : retireLoop csr frontId commitWidth { c with
      state := { c.state with robItemId := frontId, robItem := c.rob.fifo.getItem frontId }
      fb := { c.fb with enable := true, nextHandleRobId := frontId, nextHandleRobIdValid := true } } = .ok c')

/-- The context in which a cycle starts. -/
def start (state : CommitState) (rob : Rob) (cpb : Fifo Checkpoint) (predictor : BranchPredictor)
    (perf : PerfCounters) : Ctx where
  state := state
  rob := rob
  checkpointBuffer := cpb
  predictor := predictor
  perf := perf
  fb := default
  needFlush := false
  robRequests := []
  ratRequests := []
  regRequests := []
  csrRequests := []
  cpRequests := []
  acks := []
  retired := []

variable {ii : InterruptInterface} {port : List ExecuteWbPack} {state : CommitState} {rob : Rob}
  {cpb : Fifo Checkpoint} {predictor : BranchPredictor} {perf : PerfCounters} {cm : Ctx}

/-- Commit in its normal state is one group. -/
theorem run_cases (hphase : state.curState = .normal)
    (h : run csr ii port state rob cpb predictor perf = .ok cm) :
    ∃ c requests, Group csr (start state rob cpb predictor perf) c ∧ cm = { c with robRequests := requests } := by
  rw [run, if_pos hphase] at h
  -- the results of write-back only add requests
  have hend {c : Ctx} (h : (if (!c.needFlush) = true then
        pure { c with robRequests := c.robRequests ++ finishRequests c.rob.fifo port }
      else pure c : Except Halt Ctx) = .ok cm) : ∃ requests, cm = { c with robRequests := requests } := by
    split at h
    all_goals
      cases h
      exact ⟨_, rfl⟩
  unfold runNormal at h
  dsimp only at h
  split at h
  · obtain ⟨c, hc, h⟩ := bind_eq_ok.mp h
    cases hc
    obtain ⟨requests, hcm⟩ := hend h
    exact ⟨_, requests, .empty rfl, hcm⟩
  next frontId _ =>
    obtain ⟨cause, -, h⟩ := bind_eq_ok.mp h
    split at h
    next cause =>
      split at h
      · cases h
      next tailId _ =>
        obtain ⟨c, hc, h⟩ := bind_eq_ok.mp h
        cases hc
        obtain ⟨requests, hcm⟩ := hend h
        exact ⟨_, requests, .interrupt frontId tailId cause rfl, hcm⟩
    · obtain ⟨c, hc, h⟩ := bind_eq_ok.mp h
      obtain ⟨requests, hcm⟩ := hend h
      exact ⟨c, requests, .retire frontId hc, hcm⟩

/-- A cycle of the walk enables the feedback, teaches the predictor nothing and retires nothing. -/
theorem run_walk (hphase : state.curState ≠ .normal)
    (h : run csr ii port state rob cpb predictor perf = .ok cm) :
    cm.predictor = predictor ∧ cm.retired = [] ∧ cm.fb.enable = true := by
  rw [run, if_neg hphase] at h
  have hend {c : Ctx} (h : enterHandler csr c = .ok cm) :
      cm.predictor = c.predictor ∧ cm.retired = c.retired ∧ cm.fb.enable = true := by
    obtain ⟨mtvec, -, h⟩ := bind_eq_ok.mp h
    cases h
    exact ⟨rfl, rfl, rfl⟩
  unfold runWalk at h
  dsimp only at h
  split at h
  all_goals
    obtain ⟨⟨prevId, prevValid⟩, -, h⟩ := bind_eq_ok.mp h
    dsimp only at h
    split at h
    · cases h
      exact ⟨rfl, rfl, rfl⟩
    split at h
    · exact hend h
    · obtain ⟨requests, -, h⟩ := bind_eq_ok.mp h
      exact hend h

end Inversion

/-- What a retired entry teaches the predictor. -/
def train (b : BranchPredictor) (item : RobItem) : BranchPredictor :=
  if item.bruOp && item.predicted then
    b.updatePrediction item.pc item.instValue item.bruJump item.bruNextPc (predictionHit item)
  else b

/-- A jump that was predicted wrong. -/
structure Missed (item : RobItem) : Prop where
  bruOp : item.bruOp = true
  predicted : item.predicted = true
  wrong : predictionHit item = false

/-- The checks made before the checkpoint of a mispredicted jump is restored: the jump has one, and once the
previous register of its destination is released, exactly 31 registers are visible in it. -/
def Recoverable (cpb : Fifo Checkpoint) (item : RobItem) : Prop :=
  item.checkpointIdValid = true ∧
    ∃ cp, (if item.oldPhyRegIdValid then Rat.cpReleaseMap (cpb.getItem item.checkpointId) item.oldPhyRegId
      else pure (cpb.getItem item.checkpointId)) = .ok cp ∧ visibleCount cp = 31

section Parts

variable {csr : Csrfile} {c c' : Ctx} {item : RobItem}

/-- `mret` only writes CSRs. -/
theorem retireMret_cases (h : retireMret csr item c = .ok c') :
    ∃ requests, c' = { c with csrRequests := requests } := by
  unfold retireMret at h
  split at h
  · obtain ⟨mstatus, -, h⟩ := bind_eq_ok.mp h
    cases h
    exact ⟨_, rfl⟩
  · cases h
    exact ⟨_, rfl⟩

/-- One more instruction retires. -/
theorem retireBase_counted (item : RobItem) (c : Ctx) : (retireBase item c).retired = c.retired ++ [item] ∧
    (retireBase item c).rob.globalCommitNum = c.rob.globalCommitNum + 1 ∧
    (retireBase item c).predictor = c.predictor := by
  unfold retireBase retireDest
  split <;> exact ⟨rfl, rfl, rfl⟩

theorem retireBase_fb (item : RobItem) (c : Ctx) : (retireBase item c).fb = c.fb := by
  unfold retireBase retireDest
  split <;> rfl

theorem retireBase_checkpointBuffer (item : RobItem) (c : Ctx) :
    (retireBase item c).checkpointBuffer = c.checkpointBuffer := by
  unfold retireBase retireDest
  split <;> rfl

/-- The checkpoint of a mispredicted jump passes its check, and commit flushes. -/
theorem mispredict_cases (h : mispredict item c = .ok c') :
    (∃ cp, (if item.oldPhyRegIdValid then
        Rat.cpReleaseMap (c.checkpointBuffer.getItem item.checkpointId) item.oldPhyRegId
      else pure (c.checkpointBuffer.getItem item.checkpointId)) = .ok cp ∧ visibleCount cp = 31) ∧
    c'.retired = c.retired ∧ c'.rob.globalCommitNum = c.rob.globalCommitNum ∧
    c'.predictor = c.predictor.updatePrediction item.pc item.instValue item.bruJump item.bruNextPc false ∧
    c'.fb.enable = true := by
  unfold mispredict at h
  dsimp only at h
  split at h
  all_goals
    rename_i hold
    obtain ⟨cp, hcp, h⟩ := bind_eq_ok.mp h
    obtain ⟨x, hcount, h⟩ := bind_eq_ok.mp h
    cases h
    simp only [hold, if_true, if_false, Bool.false_eq_true]
    refine ⟨⟨cp, hcp, beq_iff_eq.mp (cond_of_assert hcount)⟩, ?_⟩
    simp

/-- The jump part learns from a predicted jump, counts nothing, and flushes for a wrong prediction only; then the
checkpoint passes its checks. -/
structure JumpPart (item : RobItem) (c c' : Ctx) : Prop where
  retired : c'.retired = c.retired
  count : c'.rob.globalCommitNum = c.rob.globalCommitNum
  predictor : c'.predictor = if item.predicted then
    c.predictor.updatePrediction item.pc item.instValue item.bruJump item.bruNextPc (predictionHit item)
    else c.predictor
  enable : c.fb.enable = true → c'.fb.enable = true
  flush : c.fb.flush = false → c'.fb.flush = true → item.predicted = true ∧ predictionHit item = false
  missed : item.predicted = true → predictionHit item = false → Recoverable c.checkpointBuffer item

/-- What a retired jump reports. -/
theorem retireBranch_cases (h : retireBranch csr item c = .ok c') : JumpPart item c c' := by
  obtain ⟨c₁, hmret, h⟩ := bind_eq_ok.mp h
  obtain ⟨requests, rfl⟩ := retireMret_cases hmret
  dsimp only at h
  split at h
  next hp =>
    split at h
    next hhit =>
      cases h
      refine ⟨rfl, rfl, by rw [if_pos hp, hhit], id, fun hc hflush => ?_, fun _ hwrong => ?_⟩
      · exact absurd (hc.symm.trans hflush) Bool.false_ne_true
      · exact absurd (hwrong.symm.trans hhit) Bool.false_ne_true
    next hhit =>
      rw [Bool.not_eq_true] at hhit
      split at h
      next hvalid =>
        obtain ⟨hcp, hr, hn, hb, hen⟩ := mispredict_cases h
        exact ⟨hr, hn, by rw [hb, if_pos hp, hhit], fun _ => hen, fun _ _ => ⟨hp, hhit⟩, fun _ _ => ⟨hvalid, hcp⟩⟩
      · cases h
  next hp =>
    cases h
    refine ⟨rfl, rfl, (if_neg hp).symm, fun _ => rfl, fun hc hflush => ?_, fun hp' => absurd hp' hp⟩
    exact absurd (hc.symm.trans hflush) Bool.false_ne_true

end Parts

/-! ## Groups

What the rounds of one cycle add up to. -/

/-- From `c` to `c'` these entries were retired, counted and learned from. -/
structure Counted (c c' : Ctx) (items : List RobItem) : Prop where
  retired : c'.retired = c.retired ++ items
  count : c'.rob.globalCommitNum = c.rob.globalCommitNum + BitVec.ofNat 64 items.length
  predictor : c'.predictor = items.foldl train c.predictor

section Groups

variable {csr : Csrfile} {c c₁ c' : Ctx} {items items' : List RobItem} {firstId rounds : Nat}

theorem Counted.nil (hretired : c'.retired = c.retired) (hrob : c'.rob.globalCommitNum = c.rob.globalCommitNum)
    (hpredictor : c'.predictor = c.predictor) : Counted c c' [] :=
  ⟨by simp [hretired], by simp [hrob], hpredictor⟩

/-- Groups add up. -/
theorem Counted.trans (h : Counted c c₁ items) (h' : Counted c₁ c' items') : Counted c c' (items ++ items') where
  retired := by rw [h'.retired, h.retired, List.append_assoc]
  count := by
    rw [h'.count, h.count, BitVec.add_assoc, List.length_append, BitVec.ofNat_add]
  predictor := by rw [h'.predictor, h.predictor, List.foldl_append]

/-- An entry that is no jump is counted, and teaches nothing. -/
theorem passed_counted (next : Nat × Bool) (robItemId : Nat)
    (hbru : (c.rob.fifo.getItem c.state.robItemId).bruOp = false) :
    Counted c { passed firstId c next with state := { (passed firstId c next).state with robItemId := robItemId } }
      [c.rob.fifo.getItem c.state.robItemId] := by
  obtain ⟨hr, hn, hp⟩ := retireBase_counted (c.rob.fifo.getItem c.state.robItemId) (looked firstId c next)
  refine ⟨hr, hn, ?_⟩
  rw [List.foldl_cons, List.foldl_nil, train, hbru, Bool.false_and]
  exact hp

/-- A loop retires a list of entries and trains the predictor on each. -/
theorem retireLoop_counted (h : retireLoop csr firstId rounds c = .ok c') : ∃ items, Counted c c' items := by
  induction rounds generalizing c with
  | zero =>
    cases h
    exact ⟨[], .nil rfl rfl rfl⟩
  | succ rounds ih =>
    cases retireLoop_cases h with
    | wait h =>
      rw [h]
      exact ⟨[], .nil rfl rfl rfl⟩
    | trap next tailId h =>
      rw [h]
      exact ⟨[], .nil rfl rfl rfl⟩
    | jump next hbru h =>
      have hj := retireBranch_cases h
      obtain ⟨hr, hn, hp⟩ := retireBase_counted (c.rob.fifo.getItem c.state.robItemId) (looked firstId c next)
      refine ⟨[c.rob.fifo.getItem c.state.robItemId], hj.retired.trans hr, hj.count.trans hn, ?_⟩
      rw [hj.predictor, passed, hp, List.foldl_cons, List.foldl_nil, train, hbru, Bool.true_and]
      rfl
    | step next hbru h =>
      obtain ⟨items, hitems⟩ := ih h
      exact ⟨_, (passed_counted next next.1 hbru).trans hitems⟩
    | last next hbru h =>
      rw [h]
      exact ⟨_, passed_counted next next.1 hbru⟩

/-- A group that ends with a flush has no jump in it, except a mispredicted one at its end. -/
theorem retireLoop_flush (h : retireLoop csr firstId rounds c = .ok c')
    (hc : c.fb.flush = false) (hflush : c'.fb.flush = true) : ∃ (pre : List RobItem) (last : Option RobItem),
      c'.retired = c.retired ++ pre ++ last.toList ∧ (∀ x ∈ pre, x.bruOp = false) ∧ ∀ x ∈ last, Missed x := by
  induction rounds generalizing c with
  | zero =>
    cases h
    exact absurd (hc.symm.trans hflush) Bool.false_ne_true
  | succ rounds ih =>
    have hfb (next : Nat × Bool) : (passed firstId c next).fb.flush = false := by
      rw [passed, retireBase_fb]
      exact hc
    have hret (next : Nat × Bool) : (passed firstId c next).retired =
        c.retired ++ [c.rob.fifo.getItem c.state.robItemId] :=
      (retireBase_counted _ (looked firstId c next)).1
    cases retireLoop_cases h with
    | wait h =>
      rw [h] at hflush
      exact absurd (hc.symm.trans hflush) Bool.false_ne_true
    | trap next tailId h =>
      -- nothing more is retired
      rw [h]
      exact ⟨[], none, by simp [looked], by simp, by simp⟩
    | jump next hbru h =>
      have hj := retireBranch_cases h
      obtain ⟨hp, hwrong⟩ := hj.flush (hfb next) hflush
      refine ⟨[], some (c.rob.fifo.getItem c.state.robItemId), ?_, by simp, ?_⟩
      · rw [hj.retired, hret]
        simp
      · rintro x ⟨⟩
        exact ⟨hbru, hp, hwrong⟩
    | step next hbru h =>
      obtain ⟨pre, last, hpre, hplain, hlast⟩ := ih h (hfb next)
      refine ⟨c.rob.fifo.getItem c.state.robItemId :: pre, last, ?_, ?_, hlast⟩
      · rw [hpre, hret]
        simp
      · intro x hx
        obtain rfl | hx := List.mem_cons.mp hx
        · exact hbru
        · exact hplain x hx
    | last next hbru h =>
      rw [h] at hflush
      exact absurd ((hfb next).symm.trans hflush) Bool.false_ne_true

/-- The retire loop leaves the feedback enabled. -/
theorem retireLoop_enable (h : retireLoop csr firstId rounds c = .ok c') (hc : c.fb.enable = true) :
    c'.fb.enable = true := by
  induction rounds generalizing c with
  | zero =>
    cases h
    exact hc
  | succ rounds ih =>
    have hfb (next : Nat × Bool) : (passed firstId c next).fb.enable = true := by
      rw [passed, retireBase_fb]
      exact hc
    cases retireLoop_cases h with
    | wait h =>
      rw [h]
      exact hc
    | trap next tailId h => rw [h]
    | jump next hbru h => exact (retireBranch_cases h).enable (hfb next)
    | step next hbru h => exact ih h (hfb next)
    | last next hbru h =>
      rw [h]
      exact hfb next

/-- A mispredicted jump of the group passed the checks on its checkpoint. -/
theorem retireLoop_missed (h : retireLoop csr firstId rounds c = .ok c') {item : RobItem}
    (hi : item ∈ c'.retired) (hold : item ∉ c.retired) (hmiss : Missed item) :
    Recoverable c.checkpointBuffer item := by
  induction rounds generalizing c with
  | zero =>
    cases h
    exact absurd hi hold
  | succ rounds ih =>
    have hmem (next : Nat × Bool) (hi : item ∈ (passed firstId c next).retired) :
        item = c.rob.fifo.getItem c.state.robItemId := by
      rw [passed, (retireBase_counted _ _).1] at hi
      exact List.mem_singleton.mp ((List.mem_append.mp hi).resolve_left hold)
    have hcpb (next : Nat × Bool) : (passed firstId c next).checkpointBuffer = c.checkpointBuffer :=
      retireBase_checkpointBuffer _ _
    have hjump : item.bruOp = true := hmiss.bruOp
    -- only the round that retires a jump can retire a missed one
    cases retireLoop_cases h with
    | wait h =>
      rw [h] at hi
      exact absurd hi hold
    | trap next tailId h =>
      rw [h] at hi
      exact absurd hi hold
    | jump next hbru h =>
      have hj := retireBranch_cases h
      rw [hj.retired] at hi
      obtain rfl := hmem next hi
      rw [← hcpb next]
      exact hj.missed hmiss.predicted hmiss.wrong
    | step next hbru h =>
      have hrec := ih h fun hi => by
        rw [hmem next hi, hbru] at hjump
        cases hjump
      change Recoverable (passed firstId c next).checkpointBuffer item at hrec
      rwa [hcpb next] at hrec
    | last next hbru h =>
      rw [h] at hi
      rw [hmem next hi, hbru] at hjump
      cases hjump

end Groups

section Cycles

variable {csr : Csrfile} {ii : InterruptInterface} {port : List ExecuteWbPack} {state : CommitState} {rob : Rob}
  {cpb : Fifo Checkpoint} {predictor : BranchPredictor} {perf : PerfCounters} {cm : Ctx}

/-- A cycle in the normal state counts the entries it retires and learns from them. -/
theorem run_normal (hphase : state.curState = .normal)
    (h : run csr ii port state rob cpb predictor perf = .ok cm) :
    cm.rob.globalCommitNum = rob.globalCommitNum + BitVec.ofNat 64 cm.retired.length ∧
      cm.predictor = cm.retired.foldl train predictor := by
  obtain ⟨c, requests, hgroup, rfl⟩ := run_cases hphase h
  cases hgroup with
  | empty h =>
    rw [h]
    exact ⟨by simp [start], rfl⟩
  | interrupt frontId tailId cause h =>
    rw [h]
    exact ⟨by simp [start], rfl⟩
  | retire frontId h =>
    obtain ⟨items, hitems⟩ := retireLoop_counted h
    obtain rfl : c.retired = items := hitems.retired
    exact ⟨hitems.count, hitems.predictor⟩

/-- A cycle that flushes in the normal state. -/
theorem run_flushing (hphase : state.curState = .normal)
    (h : run csr ii port state rob cpb predictor perf = .ok cm) (hflush : cm.fb.flush = true) :
    ∃ (pre : List RobItem) (last : Option RobItem),
      cm.retired = pre ++ last.toList ∧ (∀ x ∈ pre, x.bruOp = false) ∧ ∀ x ∈ last, Missed x := by
  obtain ⟨c, requests, hgroup, rfl⟩ := run_cases hphase h
  cases hgroup with
  | empty h =>
    rw [h] at hflush
    cases hflush
  | interrupt frontId tailId cause h =>
    rw [h]
    exact ⟨[], none, rfl, by simp, by simp⟩
  | retire frontId h => exact retireLoop_flush h rfl hflush

/-- A feedback that asks for a flush is enabled. -/
theorem run_enable (h : run csr ii port state rob cpb predictor perf = .ok cm) (hflush : cm.fb.flush = true) :
    cm.fb.enable = true := by
  by_cases hphase : state.curState = .normal
  · obtain ⟨c, requests, hgroup, rfl⟩ := run_cases hphase h
    cases hgroup with
    | empty h =>
      rw [h] at hflush
      cases hflush
    | interrupt frontId tailId cause h => rw [h]
    | retire frontId h =>
      have hen := retireLoop_enable h rfl
      exact hen
  · exact (run_walk hphase h).2.2

/-- A mispredicted jump that retires passed the checks on its checkpoint. -/
theorem run_missed (h : run csr ii port state rob cpb predictor perf = .ok cm) {item : RobItem}
    (hi : item ∈ cm.retired) (hmiss : Missed item) : Recoverable cpb item := by
  by_cases hphase : state.curState = .normal
  · obtain ⟨c, requests, hgroup, rfl⟩ := run_cases hphase h
    cases hgroup with
    | empty h =>
      rw [h] at hi
      cases hi
    | interrupt frontId tailId cause h =>
      rw [h] at hi
      cases hi
    | retire frontId h => exact retireLoop_missed h hi List.not_mem_nil hmiss
  · rw [(run_walk hphase h).2.1] at hi
    cases hi

end Cycles

end Commit

end MyRiscvCore
