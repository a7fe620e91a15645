import MyRiscvCore.Component.BranchPredictor

/-!
# MyRiscvCore — the tables of the branch predictor stay in bounds

The counters are 32-bit words that are incremented and decremented in place, and the histories that select them are
32-bit words too. `predictor_bounds` says that, whatever is called from the zero-initialised object on, the counters
stay 2-bit ones and the histories 12-bit ones, so that no access leaves its table. The chooser is the delicate one: on
a miss it moves without a test against its ends, and it is the branch taken around that which keeps it inside.
-/

namespace MyRiscvCore

abbrev gsharePhtSize : Nat := 2 ^ 12
abbrev localBhtSize : Nat := 2 ^ 12
abbrev localPhtSize : Nat := 2 ^ 12
abbrev callTargetCacheSize : Nat := 2 ^ 12
abbrev normalTargetCacheSize : Nat := 2 ^ 12

/-- A call of the predictor's interface. -/
inductive PredictorCall
  | reset
  | getPrediction (pc inst : Word)
  | updatePredictionGuess (pc inst : Word) (jump : Bool)
  | save (cp : Checkpoint) (pc : Word)
  | updatePredictionBruGuess (cp : Checkpoint) (pc inst : Word) (jump hit : Bool)
  | updatePrediction (pc inst : Word) (jump : Bool) (nextPc : Word) (hit : Bool)

namespace BranchPredictor

/-- The predictor after a call. -/
def call (b : BranchPredictor) : PredictorCall → BranchPredictor
  | .reset => b.reset
  | .getPrediction pc inst => (b.getPrediction pc inst).predictor
  | .updatePredictionGuess pc inst jump => b.updatePredictionGuess pc inst jump
  | .save _ _ => b
  | .updatePredictionBruGuess cp pc inst jump hit => b.updatePredictionBruGuess cp pc inst jump hit
  | .updatePrediction pc inst jump nextPc hit => b.updatePrediction pc inst jump nextPc hit

/-- The indices of a `jalr`, into the target cache its link registers select. -/
def targetIndices (b : BranchPredictor) (pc inst : Word) : List (Word × Nat) :=
  if isLink (rdOf inst) then
    if isLink (rs1Of inst) then
      if rs1Of inst = rdOf inst then [(b.callGlobalHistory ^^^ pcP1 pc, callTargetCacheSize)] else []
    else [(b.callGlobalHistory ^^^ pcP1 pc, callTargetCacheSize)]
  else if isLink (rs1Of inst) then []
  else [(b.normalGlobalHistory ^^^ pcP1 pc, normalTargetCacheSize)]

/-- The indices of `local_get_prediction`. -/
def localIndices (b : BranchPredictor) (pc : Word) : List (Word × Nat) :=
  [(pcP1 pc, localBhtSize), (b.localBht (pcP1 pc) ^^^ pcP1 pc, localPhtSize)]

/-- The indices a call computes, in order, each with the size of its table. -/
def indices (b : BranchPredictor) : PredictorCall → List (Word × Nat)
  | .reset => []
  | .getPrediction pc inst =>
    if opcodeOf inst = 0x67 then b.targetIndices pc inst
    else if opcodeOf inst = 0x63 then
      -- the chooser, then the table it chooses
      (b.gshareGlobalHistory ^^^ pcP1 pc, gsharePhtSize) ::
        ((if !b.cphtGetPrediction pc then b.localIndices pc
          else [(b.gshareGlobalHistory ^^^ pcP1 pc, gsharePhtSize)]) ++
        -- both predictions once more, for the trace
        (b.gshareGlobalHistory ^^^ pcP1 pc, gsharePhtSize) :: b.localIndices pc)
    else []
  | .updatePredictionGuess pc inst _ => if opcodeOf inst = 0x63 then [(pcP1 pc, localBhtSize)] else []
  | .save _ pc => [(pcP1 pc, localBhtSize)]
  | .updatePredictionBruGuess _ pc inst _ hit =>
    if opcodeOf inst = 0x63 ∧ !hit then [(pcP1 pc, localBhtSize)] else []
  | .updatePrediction pc inst jump _ hit =>
    if opcodeOf inst = 0x63 then
      [(b.gshareGlobalHistoryRetired ^^^ pcP1 pc, gsharePhtSize), (pcP1 pc, localBhtSize),
        (b.localBhtRetired (pcP1 pc) ^^^ pcP1 pc, localPhtSize),
        -- the chooser is addressed after the global history has moved
        ((b.gshareUpdatePrediction pc jump hit).gshareGlobalHistory ^^^ pcP1 pc, gsharePhtSize)]
    else if opcodeOf inst = 0x67 then b.targetIndices pc inst
    else []

/-- Every counter is one of 0..3 and every history has 12 bits. -/
structure Bounded (b : BranchPredictor) : Prop where
  gsharePht : ∀ i, (b.gsharePht i).toNat < 4
  localPht : ∀ i, (b.localPht i).toNat < 4
  cpht : ∀ i, (b.cpht i).toNat < 4
  gshareGlobalHistory : b.gshareGlobalHistory.toNat < 2 ^ 12
  gshareGlobalHistoryRetired : b.gshareGlobalHistoryRetired.toNat < 2 ^ 12
  localBht : ∀ i, (b.localBht i).toNat < 2 ^ 12
  localBhtRetired : ∀ i, (b.localBhtRetired i).toNat < 2 ^ 12
  callGlobalHistory : b.callGlobalHistory.toNat < 2 ^ 12
  normalGlobalHistory : b.normalGlobalHistory.toNat < 2 ^ 12

/-! ## Histories and counters

Every update masks its history and saturates its counter. -/

/-- A masked history has twelve bits. -/
theorem and_historyMask_lt (v : Word) : (v &&& historyMask).toNat < 2 ^ 12 := by
  rw [BitVec.toNat_and]
  exact Nat.and_lt_two_pow _ (by decide)

theorem pcP1_lt (pc : Word) : (pcP1 pc).toNat < 2 ^ 12 := and_historyMask_lt _

/-- A shifted history has 12 bits, whatever it was shifted from. -/
theorem shiftHistory_lt (history : Word) (jump : Bool) : (shiftHistory history jump).toNat < 2 ^ 12 := by
  rw [shiftHistory, BitVec.toNat_or]
  exact Nat.or_lt_two_pow (and_historyMask_lt _) (by cases jump <;> decide)

/-- The index of the shared table. -/
theorem xor_pcP1_lt {history : Word} (h : history.toNat < 2 ^ 12) (pc : Word) :
    (history ^^^ pcP1 pc).toNat < 2 ^ 12 := by
  rw [BitVec.toNat_xor]
  exact Nat.xor_lt_two_pow h (pcP1_lt pc)

/-- A table keeps its bound when an entry within it is stored. -/
theorem update_lt {bound : Nat} {table : Word → Word} (h : ∀ i, (table i).toNat < bound) (addr : Word) {v : Word}
    (hv : v.toNat < bound) (i : Word) : (Function.update table addr v i).toNat < bound :=
  (Function.forall_update_iff table fun _ x => x.toNat < bound).mpr ⟨hv, fun j _ => h j⟩ i

/-- Counters stay below four. -/
theorem countDirection_lt {pht : Word → Word} (h : ∀ i, (pht i).toNat < 4) (addr : Word) (jump : Bool) :
    ∀ i, (countDirection pht addr jump i).toNat < 4 := by
  have haddr := h addr
  unfold countDirection
  split_ifs with hjump hlt hgt
  · exact update_lt h addr (by bv_omega)
  · exact h
  · exact update_lt h addr (by bv_omega)
  · exact h

section Steps

variable {b : BranchPredictor}

/-- The global predictor keeps the bounds. -/
theorem Bounded.gshareUpdatePrediction (h : Bounded b) (pc : Word) (jump hit : Bool) :
    Bounded (b.gshareUpdatePrediction pc jump hit) :=
  { h with
    gsharePht := countDirection_lt h.gsharePht _ jump
    gshareGlobalHistoryRetired := shiftHistory_lt _ jump
    gshareGlobalHistory := by
      cases hit with
      | true => exact h.gshareGlobalHistory
      | false => exact shiftHistory_lt _ jump }

/-- So does the local one. -/
theorem Bounded.localUpdatePrediction (h : Bounded b) (pc : Word) (jump hit : Bool) :
    Bounded (b.localUpdatePrediction pc jump hit) := by
  have hretired := update_lt h.localBhtRetired (pcP1 pc) (shiftHistory_lt (b.localBhtRetired (pcP1 pc)) jump)
  exact { h with
    localPht := countDirection_lt h.localPht _ jump
    localBhtRetired := hretired
    localBht := by
      cases hit with
      | true => exact h.localBht
      | false => exact update_lt h.localBht (pcP1 pc) (hretired (pcP1 pc)) }

/-- The chooser moves up from 0 or 1 and down from 2 or 3 on a miss, and stops at the ends on a hit. -/
theorem Bounded.cphtUpdatePrediction (h : Bounded b) (pc : Word) (hit : Bool) :
    Bounded (b.cphtUpdatePrediction pc hit) := by
  have haddr := h.cpht (b.gshareGlobalHistory ^^^ pcP1 pc)
  refine { h with cpht := update_lt h.cpht _ ?_ }
  generalize b.cpht (b.gshareGlobalHistory ^^^ pcP1 pc) = v at haddr ⊢
  cases hit <;> simp only [Bool.not_true, Bool.not_false, Bool.true_and, Bool.false_and, if_true,
    Bool.false_eq_true, if_false, decide_eq_true_eq] <;> split_ifs <;> bv_omega

theorem Bounded.callUpdatePrediction (h : Bounded b) (pc : Word) (jump : Bool) (target : Word) :
    Bounded (b.callUpdatePrediction pc jump target) :=
  { h with callGlobalHistory := shiftHistory_lt _ jump }

theorem Bounded.normalUpdatePrediction (h : Bounded b) (pc : Word) (jump : Bool) (target : Word) :
    Bounded (b.normalUpdatePrediction pc jump target) :=
  { h with normalGlobalHistory := shiftHistory_lt _ jump }

/-- A prediction moves the return-address stack only. -/
theorem getPrediction_predictor (b : BranchPredictor) (pc inst : Word) :
    ∃ ras, (b.getPrediction pc inst).predictor = { b with mainRas := ras } := by
  unfold getPrediction predictCall
  dsimp only
  split_ifs
  all_goals exact ⟨_, rfl⟩

/-- The speculative update keeps the bounds. -/
theorem Bounded.updatePredictionGuess (h : Bounded b) (pc inst : Word) (jump : Bool) :
    Bounded (b.updatePredictionGuess pc inst jump) := by
  unfold BranchPredictor.updatePredictionGuess
  split_ifs
  · exact { h with
      gshareGlobalHistory := shiftHistory_lt _ jump
      localBht := update_lt h.localBht (pcP1 pc) (shiftHistory_lt _ jump) }
  · exact h

/-- The histories of the checkpoint are masked like any other. -/
theorem Bounded.updatePredictionBruGuess (h : Bounded b) (cp : Checkpoint) (pc inst : Word) (jump hit : Bool) :
    Bounded (b.updatePredictionBruGuess cp pc inst jump hit) := by
  unfold BranchPredictor.updatePredictionBruGuess
  split_ifs
  · exact { h with
      gshareGlobalHistory := shiftHistory_lt _ jump
      localBht := update_lt h.localBht (pcP1 pc) (shiftHistory_lt _ jump) }
  · exact h

/-- The update at commit keeps the bounds. -/
theorem Bounded.updatePrediction (h : Bounded b) (pc inst : Word) (jump : Bool) (nextPc : Word) (hit : Bool) :
    Bounded (b.updatePrediction pc inst jump nextPc hit) := by
  have hcall := h.callUpdatePrediction pc jump nextPc
  unfold BranchPredictor.updatePrediction
  split_ifs
  · exact ((h.gshareUpdatePrediction pc jump hit).localUpdatePrediction pc jump hit).cphtUpdatePrediction pc hit
  · exact hcall
  · exact h
  · exact hcall
  · exact h
  · exact h.normalUpdatePrediction pc jump nextPc
  · exact h

/-- `local_bht_retired` is not reset; it keeps its bound. -/
theorem Bounded.reset (h : Bounded b) : Bounded b.reset where
  gsharePht _ := Nat.zero_lt_succ 3
  localPht _ := Nat.zero_lt_succ 3
  cpht _ := Nat.zero_lt_succ 3
  gshareGlobalHistory := Nat.two_pow_pos 12
  gshareGlobalHistoryRetired := Nat.two_pow_pos 12
  localBht _ := Nat.two_pow_pos 12
  localBhtRetired := h.localBhtRetired
  callGlobalHistory := Nat.two_pow_pos 12
  normalGlobalHistory := Nat.two_pow_pos 12

/-- Every call keeps the bounds. -/
theorem Bounded.call (h : Bounded b) (c : PredictorCall) : Bounded (b.call c) := by
  cases c with
  | reset => exact h.reset
  | getPrediction pc inst =>
    obtain ⟨ras, hras⟩ := b.getPrediction_predictor pc inst
    rw [BranchPredictor.call, hras]
    exact { h with }
  | updatePredictionGuess pc inst jump => exact h.updatePredictionGuess pc inst jump
  | save cp pc => exact h
  | updatePredictionBruGuess cp pc inst jump hit => exact h.updatePredictionBruGuess cp pc inst jump hit
  | updatePrediction pc inst jump nextPc hit => exact h.updatePrediction pc inst jump nextPc hit

/-- Every table is read within its size. -/
theorem Bounded.targetIndices_lt (h : Bounded b) (pc inst : Word) :
    ∀ x ∈ b.targetIndices pc inst, x.1.toNat < x.2 := by
  have hcall := xor_pcP1_lt h.callGlobalHistory pc
  have hnormal := xor_pcP1_lt h.normalGlobalHistory pc
  unfold targetIndices
  split_ifs
  · exact List.forall_mem_singleton.mpr hcall
  · exact List.forall_mem_nil _
  · exact List.forall_mem_singleton.mpr hcall
  · exact List.forall_mem_nil _
  · exact List.forall_mem_singleton.mpr hnormal

theorem localIndex_lt (pc : Word) : ∀ x ∈ [(pcP1 pc, localBhtSize)], x.1.toNat < x.2 :=
  List.forall_mem_singleton.mpr (pcP1_lt pc)

/-- Every index a call computes is one of its table. -/
theorem Bounded.indices_lt (h : Bounded b) (c : PredictorCall) : ∀ x ∈ b.indices c, x.1.toNat < x.2 := by
  cases c with
  | reset => exact List.forall_mem_nil _
  | save cp pc => exact localIndex_lt pc
  | getPrediction pc inst =>
    have hgshare := xor_pcP1_lt h.gshareGlobalHistory pc
    have hlocal : ∀ x ∈ b.localIndices pc, x.1.toNat < x.2 := List.forall_mem_cons.mpr
      ⟨pcP1_lt pc, List.forall_mem_singleton.mpr (xor_pcP1_lt (h.localBht (pcP1 pc)) pc)⟩
    have hboth : ∀ x ∈ (b.gshareGlobalHistory ^^^ pcP1 pc, gsharePhtSize) :: b.localIndices pc, x.1.toNat < x.2 :=
      List.forall_mem_cons.mpr ⟨hgshare, hlocal⟩
    dsimp only [indices]
    split_ifs
    · exact h.targetIndices_lt pc inst
    · exact List.forall_mem_cons.mpr ⟨hgshare, List.forall_mem_append.mpr ⟨hlocal, hboth⟩⟩
    · exact List.forall_mem_cons.mpr ⟨hgshare, List.forall_mem_append.mpr
        ⟨List.forall_mem_singleton.mpr hgshare, hboth⟩⟩
    · exact List.forall_mem_nil _
  | updatePredictionGuess pc inst jump =>
    dsimp only [indices]
    split_ifs
    · exact localIndex_lt pc
    · exact List.forall_mem_nil _
  | updatePredictionBruGuess cp pc inst jump hit =>
    dsimp only [indices]
    split_ifs
    · exact localIndex_lt pc
    · exact List.forall_mem_nil _
  | updatePrediction pc inst jump nextPc hit =>
    have hgshare := xor_pcP1_lt h.gshareGlobalHistoryRetired pc
    have hlocal := xor_pcP1_lt (h.localBhtRetired (pcP1 pc)) pc
    -- the chooser's index uses the history after the update
    have hchooser := xor_pcP1_lt (h.gshareUpdatePrediction pc jump hit).gshareGlobalHistory pc
    dsimp only [indices]
    split_ifs
    · exact List.forall_mem_cons.mpr ⟨hgshare, List.forall_mem_cons.mpr ⟨pcP1_lt pc,
        List.forall_mem_cons.mpr ⟨hlocal, List.forall_mem_singleton.mpr hchooser⟩⟩⟩
    · exact h.targetIndices_lt pc inst
    · exact List.forall_mem_nil _

end Steps

/-- What holds of the zero-initialised object and is kept by every call holds after any calls. -/
theorem Bounded.calls {b : BranchPredictor} (h : Bounded b) (calls : List PredictorCall) :
    Bounded (calls.foldl BranchPredictor.call b) := by
  induction calls generalizing b with
  | nil => exact h
  | cons c calls ih => exact ih (h.call c)

/-- The zero-initialised object is one after a reset, with `local_bht_retired` zero as well. -/
theorem bounded_zero : Bounded zero where
  gsharePht _ := Nat.zero_lt_succ 3
  localPht _ := Nat.zero_lt_succ 3
  cpht _ := Nat.zero_lt_succ 3
  gshareGlobalHistory := Nat.two_pow_pos 12
  gshareGlobalHistoryRetired := Nat.two_pow_pos 12
  localBht _ := Nat.two_pow_pos 12
  localBhtRetired _ := Nat.two_pow_pos 12
  callGlobalHistory := Nat.two_pow_pos 12
  normalGlobalHistory := Nat.two_pow_pos 12

end BranchPredictor

/-- After any calls, and any resets between them, from the zero-initialised object on, the counters and histories are
in bounds, and so is every index the next call computes. The histories of a checkpoint are masked when they are
restored, so it does not matter which checkpoint is passed. -/
theorem predictor_bounds (calls : List PredictorCall) :
    let b := calls.foldl BranchPredictor.call BranchPredictor.zero
    b.Bounded ∧ ∀ c, ∀ x ∈ b.indices c, x.1.toNat < x.2 := by
  have h := BranchPredictor.bounded_zero.calls calls
  exact ⟨h, h.indices_lt⟩

end MyRiscvCore
