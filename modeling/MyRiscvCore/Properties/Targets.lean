import MyRiscvCore.Properties.Predictor

/-!
# MyRiscvCore — predicted and computed jump targets

The immediates of `jal` and of the branches are decoded twice, by the predictor at fetch and by decode for the BRU.
`targets_agree`: the two targets are the same, so that commit classifies a predicted `jal` always as a hit and a
predicted branch as one exactly if its direction was right.
-/

namespace MyRiscvCore

/-- A predicted instruction was fetched without an exception. -/
theorem PackOk.decodeWord_eq {x : DecodeRenamePack} (h : PackOk x) (hp : x.predicted = true) :
    x.toDecodeInfo = Decode.decodeWord x.pc x.value false := by
  obtain ⟨p, hf, rfl⟩ := h
  have hpc : (Decode.decodePack p).pc = p.pc := (Decode.sound_decodeWord p.pc p.value p.hasException).pc_eq
  have hex : p.hasException = false := by
    cases hex : p.hasException with
    | false => rfl
    | true =>
      obtain ⟨hpred, -⟩ := hf.predicted hp
      rw [hf.exception hex] at hpred
      exact absurd hpred (by decide)
  rw [hpc, ← hex]
  rfl

section Pack

variable {b : BranchPredictor} {pc inst mepc nextPc : Word} {p : IssueExecutePack} {jump : Bool}

/-- `jal` is predicted to its target. -/
theorem getPrediction_jal (h : opcodeOf inst = 0x6f) :
    (b.getPrediction pc inst).answer = some (true, pc + signExtend (immJOf inst) 21) := by
  unfold BranchPredictor.getPrediction
  dsimp only
  rw [if_pos h]
  split <;> rfl

/-- A branch is predicted to its target or to the next word. -/
theorem getPrediction_branch (h : opcodeOf inst = 0x63)
    (ha : (b.getPrediction pc inst).answer = some (jump, nextPc)) :
    nextPc = if jump then pc + signExtend (immBOf inst) 13 else pc + 4 := by
  have h6f : opcodeOf inst ≠ 0x6f := by rw [h]; decide
  have h67 : opcodeOf inst ≠ 0x67 := by rw [h]; decide
  unfold BranchPredictor.getPrediction at ha
  dsimp only at ha
  rw [if_neg h6f, if_neg h67, if_pos h] at ha
  split at ha
  · cases ha
  · obtain ⟨rfl, rfl⟩ := Prod.mk.inj (Option.some.inj ha)
    rfl

/-- The decoder and the predictor read the offset of `jal` from the same bits. -/
theorem decodeWord_jal (pc : Word) (h : opcodeOf inst = 0x6f) :
    ((Decode.decodeWord pc inst false).enable && (Decode.decodeWord pc inst false).valid) = true ∧
    (Decode.decodeWord pc inst false).pc = pc ∧ (Decode.decodeWord pc inst false).subOp = .bru .jal ∧
    (Decode.decodeWord pc inst false).imm = signExtend (immJOf inst) 21 := by
  have h37 : opcodeOf inst ≠ 0x37 := by rw [h]; decide
  have h17 : opcodeOf inst ≠ 0x17 := by rw [h]; decide
  unfold Decode.decodeWord Decode.opcode
  rw [if_neg h37, if_neg h17, if_pos h]
  exact ⟨rfl, rfl, rfl, rfl⟩

theorem opcode_branch {d : DecodeInfo} (h : opcodeOf inst = 0x63) :
    Decode.opcode d inst = Decode.branch d inst := by
  have h37 : opcodeOf inst ≠ 0x37 := by rw [h]; decide
  have h17 : opcodeOf inst ≠ 0x17 := by rw [h]; decide
  have h6f : opcodeOf inst ≠ 0x6f := by rw [h]; decide
  have h67 : opcodeOf inst ≠ 0x67 := by rw [h]; decide
  rw [Decode.opcode, if_neg h37, if_neg h17, if_neg h6f, if_neg h67, if_pos h]

/-- The same for a branch with a legal `funct3`. -/
theorem decodeWord_branch (pc : Word) (h : opcodeOf inst = 0x63) (hlegal : ¬ (funct3Of inst = 2 ∨ funct3Of inst = 3)) :
    ((Decode.decodeWord pc inst false).enable && (Decode.decodeWord pc inst false).valid) = true ∧
    (Decode.decodeWord pc inst false).pc = pc ∧
    (∃ op, (Decode.decodeWord pc inst false).subOp = .bru op ∧
      ∀ mepc p, Execute.bruTarget op mepc p = p.pc + p.imm) ∧
    (Decode.decodeWord pc inst false).imm = signExtend (immBOf inst) 13 := by
  unfold Decode.decodeWord
  rw [opcode_branch h, Decode.branch]
  obtain hf | hf | hf | hf | hf | hf | hf | hf := Decode.funct3_cases inst
  case inr.inr.inl => exact absurd (.inl hf) hlegal
  case inr.inr.inr.inl => exact absurd (.inr hf) hlegal
  all_goals
    rw [hf]
    exact ⟨rfl, rfl, ⟨_, rfl, fun _ _ => rfl⟩, rfl⟩

/-- A branch word that decodes is legal. -/
theorem legal_of_valid (h : opcodeOf inst = 0x63) (hv : (Decode.decodeWord pc inst false).valid = true) :
    ¬ (funct3Of inst = 2 ∨ funct3Of inst = 3) := by
  unfold Decode.decodeWord at hv
  rw [opcode_branch h, Decode.branch] at hv
  rintro (hf | hf)
  all_goals
    rw [hf] at hv
    cases hv

/-- Every legal branch gets a prediction. -/
theorem exists_answer_branch (b : BranchPredictor) (pc : Word) (h : opcodeOf inst = 0x63)
    (hlegal : ¬ (funct3Of inst = 2 ∨ funct3Of inst = 3)) :
    ∃ jump nextPc, (b.getPrediction pc inst).answer = some (jump, nextPc) := by
  have h6f : opcodeOf inst ≠ 0x6f := by rw [h]; decide
  have h67 : opcodeOf inst ≠ 0x67 := by rw [h]; decide
  unfold BranchPredictor.getPrediction
  dsimp only
  rw [if_neg h6f, if_neg h67, if_pos h, if_neg hlegal]
  exact ⟨_, _, rfl⟩

/-- The BRU takes a `jal` to the target that the predictor computes. -/
theorem bru_jal (mepc : Word) (h : opcodeOf inst = 0x6f) (hp : p.toDecodeInfo = Decode.decodeWord pc inst false) :
    (Execute.bru mepc p).bruJump = true ∧ (Execute.bru mepc p).bruNextPc = pc + signExtend (immJOf inst) 21 := by
  obtain ⟨henable, hpc, hsub, himm⟩ := decodeWord_jal pc h
  rw [← hp] at henable hpc hsub himm
  rw [Execute.bru, if_pos henable]
  dsimp only
  rw [hsub, ← hpc, ← himm]
  exact ⟨rfl, rfl⟩

/-- The BRU takes a legal branch to the target that the predictor computes, or behind it. -/
theorem bru_branch (mepc : Word) (h : opcodeOf inst = 0x63) (hlegal : ¬ (funct3Of inst = 2 ∨ funct3Of inst = 3))
    (hp : p.toDecodeInfo = Decode.decodeWord pc inst false) : (Execute.bru mepc p).bruNextPc =
      if (Execute.bru mepc p).bruJump then pc + signExtend (immBOf inst) 13 else pc + 4 := by
  obtain ⟨henable, hpc, ⟨op, hsub, htarget⟩, himm⟩ := decodeWord_branch pc h hlegal
  rw [← hp] at henable hpc hsub himm
  rw [Execute.bru, if_pos henable]
  dsimp only
  rw [hsub, ← hpc, ← himm]
  show (if _ then Execute.bruTarget op mepc p else _) = _
  rw [htarget]

/-- A hit: the direction is right, and the target if taken. -/
theorem predictionHit_iff {item : RobItem} : Commit.predictionHit item = true ↔
    item.bruJump = item.predictedJump ∧ (item.bruNextPc = item.predictedNextPc ∨ item.predictedJump = false) := by
  simp only [Commit.predictionHit, Bool.and_eq_true, Bool.or_eq_true, beq_iff_eq, Bool.not_eq_true']

/-- The outcome of a predicted `jal` is the predicted one; that of a branch is if its direction is. -/
theorem outcome_of_answer (mepc : Word) (hp : p.toDecodeInfo = Decode.decodeWord pc inst false)
    (ha : (b.getPrediction pc inst).answer = some (jump, nextPc)) :
    (opcodeOf inst = 0x6f → (Execute.bru mepc p).bruJump = jump ∧ (Execute.bru mepc p).bruNextPc = nextPc) ∧
    (opcodeOf inst = 0x63 → (Execute.bru mepc p).bruJump = jump → (Execute.bru mepc p).bruNextPc = nextPc) := by
  constructor
  · intro h
    obtain ⟨hjump, hnext⟩ := bru_jal mepc h hp
    rw [getPrediction_jal h] at ha
    obtain ⟨rfl, rfl⟩ := Prod.mk.inj (Option.some.inj ha)
    exact ⟨hjump, hnext⟩
  · intro h hjump
    have hlegal : ¬ (funct3Of inst = 2 ∨ funct3Of inst = 3) := by
      obtain h' | h' | ⟨-, hlegal⟩ := Decode.predictable_iff.mp (Decode.predictable_of_answer ha)
      · exact absurd (h.symm.trans h') (by decide)
      · exact absurd (h.symm.trans h') (by decide)
      · exact hlegal
    rw [bru_branch mepc h hlegal hp, getPrediction_branch h ha, hjump]

theorem finishItem_bru (mepc : Word) (item : RobItem) (p : IssueExecutePack) :
    (Commit.finishItem item (Execute.bru mepc p)).toPredictInfo = p.toPredictInfo := by
  show (Execute.bru mepc p).toPredictInfo = p.toPredictInfo
  unfold Execute.bru
  split <;> rfl

/-- Commit calls the outcome a hit if it is the predicted one. -/
theorem predictionHit_finishItem {item : RobItem} (hjump : (Execute.bru mepc p).bruJump = p.predictedJump)
    (hnext : (Execute.bru mepc p).bruNextPc = p.predictedNextPc) :
    Commit.predictionHit (Commit.finishItem item (Execute.bru mepc p)) = true := by
  have hinfo := finishItem_bru mepc item p
  rw [predictionHit_iff, hinfo]
  exact ⟨hjump, .inl hnext⟩

end Pack

/-- For every predictor, pc and word, a pack of the word with any operands, and any reorder-buffer entry: `jal` is
always predicted, to where the BRU takes it, and classified as a hit when it carries its prediction; a legal branch is
always predicted, and if the direction is right so is the target and it is a hit. In every run, a retired `jal` that was
predicted is a hit, and a retired branch that was predicted is one exactly if its direction was right. -/
theorem targets_agree :
    (∀ (b : BranchPredictor) (pc inst mepc : Word) (p : IssueExecutePack) (item : RobItem),
      p.toDecodeInfo = Decode.decodeWord pc inst false →
      (opcodeOf inst = 0x6f →
        (b.getPrediction pc inst).answer = some (true, (Execute.bru mepc p).bruNextPc) ∧
        ((b.getPrediction pc inst).answer = some (p.predictedJump, p.predictedNextPc) →
          Commit.predictionHit (Commit.finishItem item (Execute.bru mepc p)) = true)) ∧
      (opcodeOf inst = 0x63 → p.valid = true → ∃ jump nextPc,
        (b.getPrediction pc inst).answer = some (jump, nextPc) ∧
        ((Execute.bru mepc p).bruJump = jump → (Execute.bru mepc p).bruNextPc = nextPc ∧
          ((b.getPrediction pc inst).answer = some (p.predictedJump, p.predictedNextPc) →
            Commit.predictionHit (Commit.finishItem item (Execute.bru mepc p)) = true)))) ∧
    ∀ (env : Env) (n : Nat) (m m' : Machine) (logs : List CycleLog) (log : CycleLog) (x : RobItem),
      run env n = .ok (m, logs) → cycle env n m = .ok (m', log) → x ∈ log.retired → x.predicted = true →
      (opcodeOf x.instValue = 0x6f → x.bruNextPc = x.predictedNextPc ∧ Commit.predictionHit x = true) ∧
      (opcodeOf x.instValue = 0x63 →
        (x.bruJump = x.predictedJump → x.bruNextPc = x.predictedNextPc) ∧
        (Commit.predictionHit x = true ↔ x.bruJump = x.predictedJump)) := by
  refine ⟨fun b pc inst mepc p item hp => ⟨fun h => ?_, fun h hvalid => ?_⟩,
    fun env n m m' logs log x hrun hc hx hpred => ?_⟩
  · refine ⟨by rw [getPrediction_jal h, (bru_jal mepc h hp).2], fun ha => ?_⟩
    obtain ⟨hjump, hnext⟩ := (outcome_of_answer mepc hp ha).1 h
    exact predictionHit_finishItem hjump hnext
  · obtain ⟨jump, nextPc, ha⟩ := exists_answer_branch b pc h (legal_of_valid h (by rw [← hp]; exact hvalid))
    refine ⟨jump, nextPc, ha, fun hjump => ?_⟩
    have hnext := (outcome_of_answer mepc hp ha).2 h hjump
    refine ⟨hnext, fun ha' => ?_⟩
    obtain ⟨hj, hn⟩ := Prod.mk.inj (Option.some.inj (ha.symm.trans ha'))
    exact predictionHit_finishItem (hjump.trans hj) (hnext.trans hn)
  -- what retires was predicted when it was fetched, and executed from the same word
  · obtain ⟨i, hi⟩ := List.mem_iff_getElem?.mp hx
    have houtcome (hop : Fetch.isJump x.instValue = true) : ∃ (b : BranchPredictor) (mepc : Word)
        (p : IssueExecutePack), p.toDecodeInfo = Decode.decodeWord x.pc x.instValue false ∧
          (b.getPrediction x.pc x.instValue).answer = some (x.predictedJump, x.predictedNextPc) ∧
          x.bruJump = (Execute.bru mepc p).bruJump ∧ x.bruNextPc = (Execute.bru mepc p).bruNextPc := by
      obtain ⟨j, s, t, y, hy⟩ := exists_retiredJump hrun hc hi hop
      obtain ⟨-, ha, -⟩ := hy.predicted hpred
      obtain ⟨mepc, v1, v2, hjump, hnext⟩ := hy.outcome
      rw [hy.pc, hy.value, hy.info] at ha
      refine ⟨_, mepc, packOf y v1 v2, ?_, ha, hjump, hnext⟩
      rw [packOf_info, hy.pack.decodeWord_eq (by rw [hy.info]; exact hpred), hy.pc, hy.value]
    constructor
    · intro h
      obtain ⟨b, mepc, p, hp, ha, hjump, hnext⟩ := houtcome (by rw [Fetch.isJump, h]; rfl)
      obtain ⟨hj, hn⟩ := (outcome_of_answer mepc hp ha).1 h
      have hn' := hnext.trans hn
      exact ⟨hn', predictionHit_iff.mpr ⟨hjump.trans hj, .inl hn'⟩⟩
    · intro h
      obtain ⟨b, mepc, p, hp, ha, hjump, hnext⟩ := houtcome (by rw [Fetch.isJump, h]; rfl)
      have htarget (hj : x.bruJump = x.predictedJump) : x.bruNextPc = x.predictedNextPc :=
        hnext.trans ((outcome_of_answer mepc hp ha).2 h (hjump.symm.trans hj))
      exact ⟨htarget, fun hhit => (predictionHit_iff.mp hhit).1,
        fun hj => predictionHit_iff.mpr ⟨hj, .inl (htarget hj)⟩⟩

/-- A `jal` to itself. -/
def jumpSelf : List Word := [0x0000006f]

/-- A `jal` to itself. -/
theorem targets_agree_jumpSelf :
    (∃ p : IssueExecutePack, p.toDecodeInfo = Decode.decodeWord 0x80000000 0x0000006f false ∧
      (BranchPredictor.zero.getPrediction 0x80000000 0x0000006f).answer =
        some (true, (Execute.bru 0 p).bruNextPc)) ∧
    ∃ m logs m' log x, run (Env.ofProgram jumpSelf) 10 = .ok (m, logs) ∧
      cycle (Env.ofProgram jumpSelf) 10 m = .ok (m', log) ∧ x ∈ log.retired ∧ x.predicted = true ∧
      opcodeOf x.instValue = 0x6f ∧ Commit.predictionHit x = true := by
  constructor
  · exact ⟨{ (default : IssueExecutePack) with toDecodeInfo := Decode.decodeWord 0x80000000 0x0000006f false }, rfl,
      ((targets_agree.1 .zero _ _ 0 _ default rfl).1 rfl).1⟩
  · obtain ⟨m, logs, m', log, h, hc, hP⟩ := exists_cycle_ok (show lastCycle (fun log =>
      log.retired.any fun x => x.predicted && opcodeOf x.instValue == 0x6f)
      (run (Env.ofProgram jumpSelf) (10 + 1)) = true by decide +kernel)
    obtain ⟨x, hx, hP⟩ := List.any_eq_true.mp hP
    obtain ⟨hpred, hop⟩ := Bool.and_eq_true_iff.mp hP
    exact ⟨m, logs, m', log, x, h, hc, hx, hpred, beq_iff_eq.mp hop,
      ((targets_agree.2 _ _ _ _ _ _ x h hc hx hpred).1 (beq_iff_eq.mp hop)).2⟩

end MyRiscvCore
