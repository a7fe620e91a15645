import MyRiscvCore.Component.FifoFacts
import MyRiscvCore.Machine

/-!
# MyRiscvCore — the histories a checkpoint keeps

Fetch saves the speculative histories with every jump it predicts, in the entry it pushes for the jump
(`Fetch.run_predicted`). Rename, which fills in the register map later, keeps them (`Rename.run_histories`).
-/

namespace MyRiscvCore

open BranchPredictor (pcP1)

/-- The checkpoint keeps the histories that predict a jump at `pc`. -/
structure Saves (b : BranchPredictor) (pc : Word) (cp : Checkpoint) : Prop where
  shared : cp.globalHistory = b.gshareGlobalHistory
  branch : cp.localHistory = b.localBht (pcP1 pc)

/-- Two checkpoints keep the same histories. -/
def SameHistories (cp cp' : Checkpoint) : Prop :=
  cp.globalHistory = cp'.globalHistory ∧ cp.localHistory = cp'.localHistory

/-- `Saves` looks at the histories only. -/
theorem Saves.congr {b : BranchPredictor} {pc : Word} {cp cp' : Checkpoint} (h : Saves b pc cp)
    (hcp : SameHistories cp' cp) : Saves b pc cp' :=
  ⟨hcp.1.trans h.shared, hcp.2.trans h.branch⟩

theorem BranchPredictor.getPrediction_histories (b : BranchPredictor) (pc inst : Word) :
    (b.getPrediction pc inst).predictor.gshareGlobalHistory = b.gshareGlobalHistory ∧
      (b.getPrediction pc inst).predictor.localBht = b.localBht := by
  unfold BranchPredictor.getPrediction BranchPredictor.predictCall
  dsimp only
  split_ifs <;> exact ⟨rfl, rfl⟩

/-- How fetch, from `c` to `c'`, predicted the jump `p`. -/
structure PredictedBy (c c' : Fetch.Ctx) (p : FetchDecodePack) : Prop where
  id : p.checkpointId = c.checkpointBuffer.wptr
  saves : Saves c.predictor p.pc (c'.checkpointBuffer.buffer p.checkpointId)
  answer : (c.predictor.getPrediction p.pc p.value).answer = some (p.predictedJump, p.predictedNextPc)

namespace Fetch

variable {c c' : Ctx} {bus : Bus} {uninit : Checkpoint}

/-- A push writes at the write pointer. -/
theorem buffer_push {q q' : Fifo Checkpoint} {cp : Checkpoint} (h : q.push cp = some q') : q'.buffer q.wptr = cp := by
  unfold Fifo.push at h
  split at h
  · cases h
  · dsimp only at h
    split at h
    all_goals
      cases h
      exact Function.update_self ..

/-- A predicted jump saves the histories as the predictor saw them. -/
theorem handleJump_predicted {pack : FetchDecodePack} (hpack : pack.predicted = false)
    (h : (handleJump uninit c pack).2.predicted = true) :
    PredictedBy c (handleJump uninit c pack).1 (handleJump uninit c pack).2 := by
  unfold handleJump at h ⊢
  dsimp only at h ⊢
  cases ha : (c.predictor.getPrediction pack.pc pack.value).answer with
  | none =>
    rw [ha] at h
    exact absurd (hpack.symm.trans h) Bool.false_ne_true
  | some x =>
    rw [ha] at h
    dsimp only at h ⊢
    cases hp : c.checkpointBuffer.push
      ((c.predictor.getPrediction pack.pc pack.value).predictor.save uninit pack.pc) with
    | none =>
      rw [hp] at h
      exact absurd (hpack.symm.trans h) Bool.false_ne_true
    | some q =>
      obtain ⟨hglobal, hlocal⟩ := c.predictor.getPrediction_histories pack.pc pack.value
      refine ⟨rfl, ?_, ha⟩
      rw [buffer_push hp]
      exact ⟨hglobal, congrFun hlocal _⟩

/-- A jump ends the group, so that it is predicted with what the group began with. -/
theorem fetchLoop_predicted {gate : Bool} {oldPc : Word} {rounds i : Nat} (hfifo : c.fifo.SaveOk)
    (h : fetchLoop bus uninit gate oldPc rounds i c = .ok c') :
    ∃ new, c'.fifo.toList = c.fifo.toList ++ new ∧ ∀ p ∈ new, p.predicted = true → PredictedBy c c' p := by
  induction rounds generalizing i c with
  | zero =>
    cases h
    exact ⟨[], by simp, by simp⟩
  | succ rounds ih =>
    unfold fetchLoop at h
    split at h
    next hfull =>
      rw [Bool.not_eq_true'] at hfull
      generalize oldPc + BitVec.ofNat 32 (i * 4) = cur at h
      dsimp only at h
      obtain ⟨v, -, h⟩ := bind_eq_ok.mp h
      split at h
      · cases h
        exact ⟨[], by simp, by simp⟩
      obtain ⟨pack, hpack⟩ : ∃ pack, pack = plainPack cur v (!Bus.checkAlign cur .word) := ⟨_, rfl⟩
      have hplain : pack.predicted = false := by rw [hpack]; rfl
      have hpush (p : FetchDecodePack) : (c.fifo.push p).getD c.fifo = c.fifo.pushed p := by
        rw [hfifo.wf.push_eq hfull]
        rfl
      split at h
      -- a jump ends the loop
      next hj =>
        cases h
        have hsame : (handleJump uninit c pack).1.fifo = c.fifo := by
          unfold handleJump
          dsimp only
          split
          · split <;> rfl
          · rfl
        have hone : fetchOne uninit cur v c = { (handleJump uninit c pack).1 with
            fifo := c.fifo.pushed (handleJump uninit c pack).2 } := by
          unfold fetchOne
          simp only [hj, if_true, ← hpack, hsame, hpush]
        rw [hone]
        refine ⟨[_], hfifo.wf.toList_pushed (hfifo.count_lt hfull) _, fun p hp hpred => ?_⟩
        obtain rfl := List.mem_singleton.mp hp
        obtain ⟨hid, hsaves, hanswer⟩ := handleJump_predicted hplain hpred
        exact ⟨hid, hsaves, hanswer⟩
      next hj =>
        rw [Bool.not_eq_true] at hj
        have hone : fetchOne uninit cur v c = { c with
            state := { c.state with pc := cur + 4 }, fifo := c.fifo.pushed pack } := by
          unfold fetchOne
          simp only [hj, Bool.false_eq_true, if_false, ← hpack, hpush]
        rw [hone] at h
        obtain ⟨new, hlist, hnew⟩ := ih (hfifo.pushed hfull _) h
        refine ⟨pack :: new, ?_, fun p hp hpred => ?_⟩
        · rw [hlist, hfifo.wf.toList_pushed (hfifo.count_lt hfull), List.append_assoc]
          rfl
        · obtain rfl | hp := List.mem_cons.mp hp
          · exact absurd (hplain.symm.trans hpred) Bool.false_ne_true
          · obtain ⟨hid, hsaves, hanswer⟩ := hnew p hp hpred
            exact ⟨hid, hsaves, hanswer⟩
    next hfull =>
      obtain ⟨new, hlist, hnew⟩ := ih (c := { c with
        perf := { c.perf with fetchDecodeFifoFull := c.perf.fetchDecodeFifoFull + 1 } }) hfifo h
      refine ⟨new, hlist, fun p hp hpred => ?_⟩
      obtain ⟨hid, hsaves, hanswer⟩ := hnew p hp hpred
      exact ⟨hid, hsaves, hanswer⟩

/-- What fetch saves with the jumps it predicts. -/
theorem run_predicted {sb : StoreBuffer} {decodeIdle renameIdle : Bool} {fb : CommitFeedbackPack}
    (hflush : fb.flushing = false) (hfifo : c.fifo.SaveOk)
    (h : run bus sb uninit c decodeIdle renameIdle fb = .ok c') :
    ∃ new, c'.fifo.toList = c.fifo.toList ++ new ∧ ∀ p ∈ new, p.predicted = true → PredictedBy c c' p := by
  have hstay (hfifo : c'.fifo = c.fifo) :
      ∃ new, c'.fifo.toList = c.fifo.toList ++ new ∧ ∀ p ∈ new, p.predicted = true → PredictedBy c c' p :=
    ⟨[], by simp [hfifo], by simp⟩
  unfold run at h
  dsimp only at h
  rw [hflush] at h
  split at h
  · cases h
    exact hstay rfl
  rw [if_pos (by rfl)] at h
  split at h
  · split at h
    all_goals
      cases h
      exact hstay rfl
  · obtain ⟨-, -, h⟩ := bind_eq_ok.mp h
    exact fetchLoop_predicted hfifo h

end Fetch

namespace Rename

variable {rat : Rat} {uninit : Checkpoint} {q : Fifo Checkpoint}

/-- These requests update checkpoints without their histories. -/
def KeepHistories (q : Fifo Checkpoint) (requests : List (Fifo.Request Checkpoint)) : Prop :=
  ∀ r ∈ requests, ∃ id cp, r = .setItem id cp ∧ SameHistories cp (q.getItem id)

/-- Renaming rewrites the map of a checkpoint, not its histories. -/
theorem renameOne_histories {newPhyRegId : List Nat} {revPack : DecodeRenamePack} {c c' : Ctx}
    (h : renameOne rat uninit q newPhyRegId revPack c = .ok c') (hc : KeepHistories q c.cpRequests) :
    KeepHistories q c'.cpRequests := by
  obtain ⟨⟨oldPhy, rdPhy, c₁⟩, hdest, h⟩ := bind_eq_ok.mp h
  -- the destination part queues nothing for the buffer
  have hc₁ : c₁.cpRequests = c.cpRequests := by
    unfold renameDest at hdest
    split at hdest
    · obtain ⟨_, -, hdest⟩ := bind_eq_ok.mp hdest
      obtain ⟨_, -, hdest⟩ := bind_eq_ok.mp hdest
      obtain ⟨_, -, hdest⟩ := bind_eq_ok.mp hdest
      cases hdest
      rfl
    · cases hdest
      rfl
  dsimp only at h
  obtain ⟨⟨robId, fifo⟩, -, h⟩ := bind_eq_ok.mp h
  obtain ⟨_, -, h⟩ := bind_eq_ok.mp h
  obtain ⟨_, -, h⟩ := bind_eq_ok.mp h
  cases h
  intro r hr
  dsimp only at hr
  rw [hc₁] at hr
  obtain hr | hr := List.mem_append.mp hr
  · exact hc r hr
  · split at hr
    · obtain rfl := List.mem_singleton.mp hr
      exact ⟨_, _, rfl, rfl, rfl⟩
    · cases hr

/-- So does the loop. -/
theorem renameLoop_histories {rounds : Nat} {c c' : Ctx} (h : renameLoop rat uninit q rounds c = .ok c')
    (hc : KeepHistories q c.cpRequests) : KeepHistories q c'.cpRequests := by
  induction rounds generalizing c with
  | zero =>
    cases h
    exact hc
  | succ rounds ih =>
    unfold renameLoop at h
    split at h
    · cases h
      exact hc
    next revPack fifo _ =>
      -- how many registers and entries the group needs does not matter here
      generalize (if (revPack.enable && revPack.valid && revPack.needRename) = true then 1 else 0) = regs at h
      generalize (if revPack.enable = true then 1 else 0) = entries at h
      dsimp only at h
      split at h
      · split at h
        · obtain ⟨c₁, hone, h⟩ := bind_eq_ok.mp h
          exact ih h (renameOne_histories hone hc)
        · obtain ⟨c₁, hone, h⟩ := bind_eq_ok.mp h
          cases hone
          exact ih h hc
      · split at h
        all_goals
          cases h
          exact hc

/-- Rename keeps the histories that fetch saved. -/
theorem run_histories {fifo : Fifo DecodeRenamePack} {rob : Rob} {perf : PerfCounters}
    {port : List RenameReadregOp} {stall : Bool} {fb : CommitFeedbackPack} {out : Out}
    (h : run rat uninit q fifo rob perf port stall fb = .ok out) : KeepHistories q out.cpRequests := by
  have hnil : KeepHistories q [] := fun r hr => absurd hr List.not_mem_nil
  unfold run at h
  split at h
  · split at h
    · obtain ⟨c, hloop, h⟩ := bind_eq_ok.mp h
      cases h
      exact renameLoop_histories hloop hnil
    · cases h
      exact hnil
  · cases h
    exact hnil

end Rename

end MyRiscvCore
