import MyRiscvCore.Pipeline.CommitFacts
import MyRiscvCore.Properties.Checkpoints
import MyRiscvCore.Properties.Recovery

/-!
# MyRiscvCore — the histories and the training of the branch predictor

The predictor keeps each history twice: the speculative one moves with every guess at fetch, the retired one
with every retired branch. A flush discards the guesses made for the discarded branches, but the speculative
histories are repaired at one place only: when a conditional branch that was predicted wrong retires, and there
the global history and the entry of that branch alone. `history_recovery` says for every flush when the two agree
after it; for a `jalr` or a trap, exactly if they agreed before.

The histories select the counters a branch is predicted from and, when it retires, those it trains.
`training_entries` says when the two are the same: the history of the prediction has to be the retired one, and for
the chooser, which is selected with the speculative history, that one too.
-/

namespace MyRiscvCore

open BranchPredictor (pcP1 shiftHistory)

/-- The speculative histories are the retired ones. -/
structure HistoriesAgree (b : BranchPredictor) : Prop where
  shared : b.gshareGlobalHistory = b.gshareGlobalHistoryRetired
  branch : ∀ pc, b.localBht (pcP1 pc) = b.localBhtRetired (pcP1 pc)

/-- A retired conditional branch that was predicted wrong. -/
structure BranchMissed (item : RobItem) : Prop extends Commit.Missed item where
  conditional : opcodeOf item.instValue = 0x63

section Training

variable {b : BranchPredictor} {x : RobItem}

/-- What a wrong prediction of a conditional branch leaves. -/
theorem updatePrediction_missed {pc inst nextPc : Word} {jump : Bool} (h : opcodeOf inst = 0x63) :
    HistoriesAgree (b.updatePrediction pc inst jump nextPc false) ↔
      ∀ a, pcP1 a ≠ pcP1 pc → b.localBht (pcP1 a) = b.localBhtRetired (pcP1 a) := by
  have hglobal : (b.updatePrediction pc inst jump nextPc false).gshareGlobalHistory =
      (b.updatePrediction pc inst jump nextPc false).gshareGlobalHistoryRetired := by
    rw [BranchPredictor.updatePrediction, if_pos h]
    rfl
  -- only the history of the missed branch is repaired
  have hspec : (b.updatePrediction pc inst jump nextPc false).localBht = Function.update b.localBht (pcP1 pc)
      (shiftHistory (b.localBhtRetired (pcP1 pc)) jump) := by
    rw [BranchPredictor.updatePrediction, if_pos h]
    show Function.update b.localBht (pcP1 pc) (Function.update b.localBhtRetired (pcP1 pc) _ (pcP1 pc)) = _
    rw [Function.update_self]
    rfl
  have hret : (b.updatePrediction pc inst jump nextPc false).localBhtRetired =
      Function.update b.localBhtRetired (pcP1 pc) (shiftHistory (b.localBhtRetired (pcP1 pc)) jump) := by
    rw [BranchPredictor.updatePrediction, if_pos h]
    rfl
  constructor
  · intro hagree a hne
    have := hagree.branch a
    rwa [hspec, hret, Function.update_of_ne hne, Function.update_of_ne hne] at this
  · refine fun hother => ⟨hglobal, fun a => ?_⟩
    rw [hspec, hret]
    by_cases ha : pcP1 a = pcP1 pc
    · rw [ha, Function.update_self, Function.update_self]
    · rw [Function.update_of_ne ha, Function.update_of_ne ha, hother a ha]

/-- Other jumps do not move the histories of the conditional branches. -/
theorem updatePrediction_histories {pc inst nextPc : Word} {jump hit : Bool} (h : opcodeOf inst ≠ 0x63) :
    HistoriesAgree (b.updatePrediction pc inst jump nextPc hit) ↔ HistoriesAgree b := by
  have hsame {b' : BranchPredictor} (h1 : b'.gshareGlobalHistory = b.gshareGlobalHistory)
      (h2 : b'.gshareGlobalHistoryRetired = b.gshareGlobalHistoryRetired) (h3 : b'.localBht = b.localBht)
      (h4 : b'.localBhtRetired = b.localBhtRetired) : HistoriesAgree b' ↔ HistoriesAgree b := by
    constructor
    · rintro ⟨hg, hl⟩
      exact ⟨by rw [← h1, ← h2, hg], fun pc => by rw [← h3, ← h4, hl]⟩
    · rintro ⟨hg, hl⟩
      exact ⟨by rw [h1, h2, hg], fun pc => by rw [h3, h4, hl]⟩
  unfold BranchPredictor.updatePrediction
  rw [if_neg h]
  split_ifs <;> exact hsame rfl rfl rfl rfl

theorem train_plain (h : x.bruOp = false) : Commit.train b x = b := by
  rw [Commit.train, h]
  rfl

theorem foldl_train_plain {items : List RobItem} (h : ∀ x ∈ items, x.bruOp = false) :
    items.foldl Commit.train b = b := by
  induction items with
  | nil => rfl
  | cons x items ih =>
    rw [List.foldl_cons, train_plain (h x List.mem_cons_self)]
    exact ih fun y hy => h y (List.mem_cons_of_mem _ hy)

theorem Commit.Missed.train_eq (h : Commit.Missed x) :
    Commit.train b x = b.updatePrediction x.pc x.instValue x.bruJump x.bruNextPc false := by
  rw [Commit.train, h.bruOp, h.predicted, h.wrong]
  rfl

end Training

section Recovery

variable {env : Env} {n : Nat} {m m' : Machine} {logs : List CycleLog} {log : CycleLog} {s : Stages}

/-- In a cycle that flushes, no branch executes and none is fetched. -/
theorem FlushStages.predictor (f : FlushStages env n m s) : s.ft.predictor = s.cm.predictor := by
  have hex := f.ran.execute
  rw [execute_flush_spec _ _ _ _ _ _ _ f.flushing] at hex
  rw [f.fetch, ← Except.ok.inj hex]

/-- The histories before a flush that would have the two agree after it. -/
structure Recovers (b : BranchPredictor) (retired : List RobItem) : Prop where
  shared : (∃ x ∈ retired, BranchMissed x) ∨ b.gshareGlobalHistory = b.gshareGlobalHistoryRetired
  branch : ∀ pc, (∃ x ∈ retired, BranchMissed x ∧ pcP1 x.pc = pcP1 pc) ∨
    b.localBht (pcP1 pc) = b.localBhtRetired (pcP1 pc)

/-- Without a missed branch, recovery is agreement of the histories. -/
theorem recovers_of_plain {b : BranchPredictor} {retired : List RobItem} (h : ∀ x ∈ retired, ¬ BranchMissed x) :
    Recovers b retired ↔ HistoriesAgree b := by
  constructor
  · exact fun hr => ⟨hr.shared.resolve_left fun ⟨x, hx, hmiss⟩ => h x hx hmiss,
      fun pc => (hr.branch pc).resolve_left fun ⟨x, hx, hmiss, _⟩ => h x hx hmiss⟩
  · exact fun hr => ⟨.inr hr.shared, fun pc => .inr (hr.branch pc)⟩

/-- After a flush in the normal state. -/
theorem commit_recovers {b : BranchPredictor} {pre : List RobItem} {last : Option RobItem}
    (hpre : ∀ x ∈ pre, x.bruOp = false) (hlast : ∀ x ∈ last, Commit.Missed x) :
    HistoriesAgree ((pre ++ last.toList).foldl Commit.train b) ↔ Recovers b (pre ++ last.toList) := by
  have hno : ∀ x ∈ pre, ¬ BranchMissed x := fun x hx hmiss =>
    absurd ((hpre x hx).symm.trans hmiss.bruOp) Bool.false_ne_true
  rw [List.foldl_append, foldl_train_plain hpre]
  cases last with
  | none =>
    rw [recovers_of_plain (by simpa using hno)]
    rfl
  | some x =>
    have hmiss := hlast x rfl
    rw [Option.toList_some, List.foldl_cons, List.foldl_nil, hmiss.train_eq]
    by_cases hop : opcodeOf x.instValue = 0x63
    · -- the branch repairs the global history and its own entry
      rw [updatePrediction_missed hop]
      have hx : x ∈ pre ++ [x] := by simp
      constructor
      · refine fun hother => ⟨.inl ⟨x, hx, hmiss, hop⟩, fun pc => ?_⟩
        by_cases hpc : pcP1 pc = pcP1 x.pc
        · exact .inl ⟨x, hx, ⟨hmiss, hop⟩, hpc.symm⟩
        · exact .inr (hother pc hpc)
      · refine fun hr pc hpc => (hr.branch pc).resolve_left ?_
        rintro ⟨y, hy, hymiss, hypc⟩
        obtain hy | hy := List.mem_append.mp hy
        · exact hno y hy hymiss
        · obtain rfl := List.mem_singleton.mp hy
          exact hpc hypc.symm
    · rw [updatePrediction_histories hop, recovers_of_plain]
      intro y hy hymiss
      obtain hy | hy := List.mem_append.mp hy
      · exact hno y hy hymiss
      · obtain rfl := List.mem_singleton.mp hy
        exact hop hymiss.conditional

/-- After a cycle that flushes, the speculative histories are the retired ones exactly if they were before it,
apart from what a mispredicted conditional branch that the cycle retires repairs. -/
theorem history_recovery (h : run env n = .ok (m, logs)) (hc : cycle env n m = .ok (m', log))
    (hflush : log.fb.flushing = true) : HistoriesAgree m'.predictor ↔ Recovers m.predictor log.retired := by
  obtain ⟨s, u, hcase, -, rfl, rfl⟩ := (run_refines h).cycle_ok hc
  show HistoriesAgree s.ft.predictor ↔ Recovers m.predictor s.cm.retired
  cases hcase with
  | flow h f => exact absurd (f.flushing.symm.trans hflush) Bool.false_ne_true
  | flush h g =>
    have hfl : s.cm.fb.flush = true := (Bool.and_eq_true_iff.mp hflush).2
    obtain ⟨pre, last, hret, hpre, hlast⟩ := Commit.run_flushing h.phase g.stages.ran.commit hfl
    rw [g.stages.predictor, (Commit.run_normal h.phase g.stages.ran.commit).2, hret]
    exact commit_recovers hpre hlast
  | walk v h =>
    obtain ⟨hpred, hret, -⟩ := Commit.run_walk h.phase v.stages.ran.commit
    rw [v.stages.predictor, hpred, hret, recovers_of_plain (by simp)]

/-- The only branch of a program is mispredicted. -/
theorem history_recovery_branchOnly : ∃ m logs m' log, run (Env.ofProgram branchOnly) 10 = .ok (m, logs) ∧
    cycle (Env.ofProgram branchOnly) 10 m = .ok (m', log) ∧ log.fb.flushing = true ∧
    (HistoriesAgree m'.predictor ↔ Recovers m.predictor log.retired) := by
  obtain ⟨m, logs, m', log, h, hc, hflush⟩ := exists_cycle_ok
    (show lastCycle (·.fb.flushing) (run (Env.ofProgram branchOnly) (10 + 1)) = true by decide +kernel)
  exact ⟨m, logs, m', log, h, hc, hflush, history_recovery h hc hflush⟩

/-- The guess of the discarded branch survives the end of the trap. -/
theorem history_not_recovered : ∃ m logs m' log, run (Env.ofProgram trapOverBranch) 12 = .ok (m, logs) ∧
    cycle (Env.ofProgram trapOverBranch) 12 m = .ok (m', log) ∧ log.fb.flushing = true ∧
    log.phaseBefore = .flush ∧ log.phaseAfter = .normal ∧
    m'.predictor.gshareGlobalHistory = 1 ∧ m'.predictor.gshareGlobalHistoryRetired = 0 ∧
    ¬ HistoriesAgree m'.predictor := by
  obtain ⟨m', logs', h', hP⟩ := exists_run_of (show endsWith (fun m logs =>
    m.predictor.gshareGlobalHistory == 1 && m.predictor.gshareGlobalHistoryRetired == 0 &&
      logs.getLast?.any fun log => log.fb.flushing && log.phaseBefore == .flush && log.phaseAfter == .normal)
    (run (Env.ofProgram trapOverBranch) (12 + 1)) = true by decide +kernel)
  obtain ⟨m, logs, log, h, hc, rfl⟩ := run_succ.mp h'
  rw [List.getLast?_concat] at hP
  simp only [Bool.and_eq_true, beq_iff_eq, Option.any_some] at hP
  obtain ⟨⟨hspec, hret⟩, ⟨hflush, hbefore⟩, hafter⟩ := hP
  refine ⟨m, logs, m', log, h, hc, hflush, hbefore, hafter, hspec, hret, fun hagree => ?_⟩
  have := hagree.shared
  rw [hspec, hret] at this
  exact absurd this (by decide)

end Recovery

/-! ## The entries a branch trains

A branch consults entries at fetch and trains entries at commit. -/

/-- One entry of each table of counters that predicts the direction of conditional branches. -/
structure Entries where
  gshare : Word
  branch : Word
  chooser : Word
  deriving DecidableEq

/-- The entries that predict a branch at `pc`. -/
def consulted (b : BranchPredictor) (pc : Word) : Entries where
  gshare := b.gshareGlobalHistory ^^^ pcP1 pc
  branch := b.localBht (pcP1 pc) ^^^ pcP1 pc
  chooser := b.gshareGlobalHistory ^^^ pcP1 pc

/-- The history that selects the chooser at retirement: the speculative one, which a wrong prediction has just
replaced. -/
def chooserHistory (b : BranchPredictor) (jump hit : Bool) : Word :=
  if hit then b.gshareGlobalHistory else shiftHistory b.gshareGlobalHistoryRetired jump

/-- The entries that a retired branch at `pc` trains. -/
def trained (b : BranchPredictor) (pc : Word) (jump hit : Bool) : Entries where
  gshare := b.gshareGlobalHistoryRetired ^^^ pcP1 pc
  branch := b.localBhtRetired (pcP1 pc) ^^^ pcP1 pc
  chooser := chooserHistory b jump hit ^^^ pcP1 pc

section Entries

variable {b b' : BranchPredictor} {pc inst nextPc : Word} {jump hit : Bool}

/-- The tables predict `jump` from these entries. -/
def PredictsFrom (b : BranchPredictor) (e : Entries) (jump : Bool) : Prop :=
  jump = if b.cpht e.chooser ≤ 1 then decide (b.gsharePht e.gshare ≥ 2) else decide (b.localPht e.branch ≥ 2)

/-- From `b` to `b'`, the counters of these entries move and no others. -/
structure TrainsAt (b b' : BranchPredictor) (e : Entries) (jump : Bool) : Prop where
  gshare : b'.gsharePht = BranchPredictor.countDirection b.gsharePht e.gshare jump
  branch : b'.localPht = BranchPredictor.countDirection b.localPht e.branch jump
  chooser : ∀ a, a ≠ e.chooser → b'.cpht a = b.cpht a

/-- The prediction of a branch is read from the entries it consults. -/
theorem predictsFrom_consulted (h : opcodeOf inst = 0x63)
    (ha : (b.getPrediction pc inst).answer = some (jump, nextPc)) : PredictsFrom b (consulted b pc) jump := by
  have h6f : opcodeOf inst ≠ 0x6f := by rw [h]; decide
  have h67 : opcodeOf inst ≠ 0x67 := by rw [h]; decide
  unfold BranchPredictor.getPrediction at ha
  dsimp only at ha
  rw [if_neg h6f, if_neg h67, if_pos h] at ha
  split at ha
  · cases ha
  · obtain rfl := (Prod.mk.inj (Option.some.inj ha)).1
    unfold PredictsFrom
    by_cases hc : b.cpht (consulted b pc).chooser ≤ 1
    · have hc' : b.cphtGetPrediction pc = true := decide_eq_true hc
      rw [if_pos hc, hc']
      rfl
    · have hc' : b.cphtGetPrediction pc = false := decide_eq_false hc
      rw [if_neg hc, hc']
      rfl

/-- Its training writes to those it trains. -/
theorem trainsAt_trained (h : opcodeOf inst = 0x63) :
    TrainsAt b (b.updatePrediction pc inst jump nextPc hit) (trained b pc jump hit) jump := by
  rw [BranchPredictor.updatePrediction, if_pos h]
  exact ⟨rfl, rfl, fun a ha => Function.update_of_ne ha ..⟩

end Entries

section Training

variable {env : Env} {n i : Nat} {m m' : Machine} {w : Window} {logs : List CycleLog} {log : CycleLog} {x : RobItem}
  {s : Stages} {u : Updates}

/-- The instruction behind a retired jump: its outcome is the BRU's, and it ends the group. -/
theorem CommitSpec.retired_jump {csr : Csrfile} {ii : InterruptInterface} {q : Fifo RobItem}
    {cpb : Fifo Checkpoint} {C : Nat → Nat} {regs : Nat → Word} {port : List ExecuteWbPack} {perf : PerfCounters}
    {cm : Commit.Ctx} {ret rest : List Entry} {stop : Stop}
    (h : CommitSpec csr ii q cpb C port perf cm ret rest stop) (hfl : FlightOk C regs (ret ++ rest))
    (hx : cm.retired[i]? = some x) (hop : Fetch.isJump x.instValue = true) :
    ∃ e, ret[i]? = some e ∧ PackOk e.op.toDecodeRenamePack ∧ e.op.toPredictInfo = x.toPredictInfo ∧
      e.op.pc = x.pc ∧ e.op.value = x.instValue ∧
      (∃ mepc v1 v2, x.bruJump = (Execute.bru mepc (packOf e.op v1 v2)).bruJump ∧
        x.bruNextPc = (Execute.bru mepc (packOf e.op v1 v2)).bruNextPc) ∧
      ∃ items, cm.retired = items ++ [x] ∧ x.bruOp = true ∧ ∀ y ∈ items, y.bruOp = false := by
  rw [h.retired] at hx
  obtain ⟨pre, e, post, hret, rfl, rfl⟩ := getElem?_retiredItems hx
  have hunit (C : Nat → Nat) {e : Entry} (he : e ∈ ret) : (robItemOf C e).bruOp = (e.op.opUnit == .bru) := by
    obtain ⟨pre, post, hsplit⟩ := List.append_of_mem he
    obtain ⟨r, hs, -⟩ := h.finished e he
    have hres := (hfl.retired_entry h.finished hsplit).resultOf (show e.result = some r by simp [Entry.result, hs])
    rw [robItemOf_finished hs, ← hres.info]
    rfl
  have he : e ∈ ret := by rw [hret]; simp
  have hok := hfl.retired_entry h.finished hret
  rw [robItemOf_instValue] at hop
  have hbru : e.op.opUnit = .bru := hok.pack.bru_iff.mpr hop
  -- a jump ends its group
  obtain rfl := h.inner pre e post hret hbru
  obtain ⟨r, hs, -⟩ := h.finished e he
  obtain ⟨v1, v2, -, -, hres⟩ := hok.result r (by simp [Entry.result, hs])
  have hpredict := (hres.resultOf.predict hbru).symm
  unfold UnitResult at hres
  rw [packOf_info, hbru] at hres
  obtain ⟨mepc, rfl⟩ := hres
  refine ⟨e, by rw [hret]; simp, hok.pack, ?_, robItemOf_pc.symm, robItemOf_instValue.symm, ⟨mepc, v1, v2, ?_⟩,
    retiredItems C pre, ?_, ?_, ?_⟩
  · rw [robItemOf_finished hs]
    exact hpredict
  · rw [robItemOf_finished hs]
    exact ⟨rfl, rfl⟩
  · rw [h.retired, hret, retiredItems_append]
    rfl
  · rw [hunit _ he, hbru]
    rfl
  · intro y hy
    obtain ⟨pre', e', post', hpre, rfl⟩ := mem_retiredItems hy
    rw [hunit _ (by rw [hret, hpre]; simp)]
    refine Bool.eq_false_iff.mpr fun hb => ?_
    have := h.inner pre' e' (post' ++ [e]) (by rw [hret, hpre]; simp) (beq_iff_eq.mp hb)
    exact absurd this (by simp)

/-- The jump `x` retires as entry `i` of cycle `n`, whose stages leave `t`. It was fetched in cycle `j`, whose stages
left `s`, and renamed to `y`. -/
structure RetiredJump (env : Env) (n i : Nat) (m : Machine) (x : RobItem) (j : Nat) (s t : Stages)
    (y : RenameReadregOp) : Prop where
  cycle : (fetchCycles env n)[i]? = some j
  fetched : FetchedIn env j s y.toDecodeRenamePack
  pack : PackOk y.toDecodeRenamePack
  pc : y.pc = x.pc
  value : y.value = x.instValue
  info : y.toPredictInfo = x.toPredictInfo
  predicted : x.predicted = true →
    PredictedIn s y.toDecodeRenamePack (m.checkpointBuffer.buffer y.checkpointId)
  outcome : ∃ mepc v1 v2, x.bruJump = (Execute.bru mepc (packOf y v1 v2)).bruJump ∧
    x.bruNextPc = (Execute.bru mepc (packOf y v1 v2)).bruNextPc
  phase : m.commit.curState = .normal
  ran : t.Ran env n m
  group : ∃ items, t.cm.retired = items ++ [x] ∧ x.bruOp = true ∧ ∀ y ∈ items, y.bruOp = false

/-- A retired jump was fetched in some cycle of the run. -/
theorem exists_retiredJump (h : run env n = .ok (m, logs)) (hc : cycle env n m = .ok (m', log))
    (hx : log.retired[i]? = some x) (hop : Fetch.isJump x.instValue = true) :
    ∃ j s t y, RetiredJump env n i m x j s t y := by
  obtain ⟨t, u, hcase, hu, rfl, rfl⟩ := (run_refines h).cycle_ok hc
  have horigins := run_origins h
  generalize Window.after env logs = w at hcase horigins
  -- a cycle that retires a jump is one in the normal state
  obtain ⟨hnormal, hran, ret, rest, stop, hflight, hcm⟩ : Normal m w ∧ t.Ran env n m ∧
      ∃ ret rest stop, w.flight = ret ++ rest ∧ CommitSpec (m.csrAt env n) (m.interruptsAt env n) m.rob.fifo
        m.checkpointBuffer w.cmap m.wbCommitPort m.perf t.cm ret rest stop := by
    cases hcase with
    | flow h f => exact ⟨h, f.ran, f.ret, f.rest, f.stop, f.flight, f.commit⟩
    | flush h g => exact ⟨h, g.stages.ran, g.ret, g.rest, g.stop, g.flight, g.commit⟩
    | walk v h =>
      rw [show (t.log env n m u).retired = t.cm.retired from rfl, v.commit.retired] at hx
      cases hx
  have hfl := hnormal.flight
  rw [hflight] at hfl
  obtain ⟨e, he, hpack, hinfo, hpc, hvalue, houtcome, hgroup⟩ := hcm.retired_jump hfl hx hop
  have hpath : (inFlight m w)[i]? = some e.op.toDecodeRenamePack := by
    have hi := (List.getElem?_eq_some_iff.mp he).1
    rw [inFlight, hflight, List.map_append, List.append_assoc,
      List.getElem?_append_left (by rw [List.length_map]; exact hi), List.getElem?_map, he]
    rfl
  obtain ⟨j, hj, s, hfetched, hpredicted⟩ := (horigins hnormal.phase).origin i _ hpath
  exact ⟨j, s, t, e.op, hj, hfetched, hpack, hpc, hvalue, hinfo, fun hp => hpredicted (by rw [hinfo, hp]), houtcome,
    hnormal.phase, hran, hgroup⟩

/-- The histories with which the branch `x` trains the entries that predicted it: those of its prediction, which
its checkpoint keeps, are the retired ones, and they select the chooser. -/
structure TrainsConsulted (m : Machine) (x : RobItem) : Prop where
  shared : (m.checkpointBuffer.getItem x.checkpointId).globalHistory = m.predictor.gshareGlobalHistoryRetired
  branch : (m.checkpointBuffer.getItem x.checkpointId).localHistory = m.predictor.localBhtRetired (pcP1 x.pc)
  chooser : (m.checkpointBuffer.getItem x.checkpointId).globalHistory =
    chooserHistory m.predictor x.bruJump (Commit.predictionHit x)

theorem consulted_eq_trained {b b' : BranchPredictor} {pc : Word} {jump hit : Bool} :
    consulted b pc = trained b' pc jump hit ↔ b.gshareGlobalHistory = b'.gshareGlobalHistoryRetired ∧
      b.localBht (pcP1 pc) = b'.localBhtRetired (pcP1 pc) ∧ b.gshareGlobalHistory = chooserHistory b' jump hit := by
  simp only [consulted, trained, Entries.mk.injEq, BitVec.xor_left_inj]

/-- A conditional branch that was predicted and retires was predicted from the entries `consulted` in the cycle of
its fetch and moves the counters `trained`; the two are the same exactly if the histories are. -/
theorem training_entries (h : run env n = .ok (m, logs)) (hc : cycle env n m = .ok (m', log))
    (hx : log.retired[i]? = some x) (hop : opcodeOf x.instValue = 0x63) (hpred : x.predicted = true) :
    ∃ (j : Nat) (s t : Stages), (fetchCycles env n)[i]? = some j ∧
      (∃ y, FetchedIn env j s y ∧ y.pc = x.pc ∧ y.value = x.instValue ∧ y.checkpointId = x.checkpointId) ∧
      PredictsFrom s.ex.predictor (consulted s.ex.predictor x.pc) x.predictedJump ∧
      t.Ran env n m ∧
      TrainsAt m.predictor t.cm.predictor (trained m.predictor x.pc x.bruJump (Commit.predictionHit x)) x.bruJump ∧
      (consulted s.ex.predictor x.pc = trained m.predictor x.pc x.bruJump (Commit.predictionHit x) ↔
        TrainsConsulted m x) := by
  have hjump : Fetch.isJump x.instValue = true := by
    rw [Fetch.isJump, hop]
    rfl
  obtain ⟨j, s, t, y, hy⟩ := exists_retiredJump h hc hx hjump
  obtain ⟨-, hanswer, hsaves⟩ := hy.predicted hpred
  have hid : y.checkpointId = x.checkpointId := by rw [hy.info]
  rw [hy.pc] at hanswer hsaves
  rw [hy.value, hy.info] at hanswer
  rw [hid] at hsaves
  -- the others of the group do not train
  obtain ⟨items, hitems, hbru, hplain⟩ := hy.group
  refine ⟨j, s, t, hy.cycle, ⟨_, hy.fetched, hy.pc, hy.value, hid⟩, predictsFrom_consulted hop hanswer, hy.ran, ?_, ?_⟩
  · rw [(Commit.run_normal hy.phase hy.ran.commit).2, hitems, List.foldl_append, foldl_train_plain hplain]
    show TrainsAt m.predictor (Commit.train m.predictor x) _ _
    rw [Commit.train, hbru, hpred]
    exact trainsAt_trained hop
  · rw [consulted_eq_trained, ← hsaves.shared, ← hsaves.branch]
    constructor
    · rintro ⟨h1, h2, h3⟩
      exact ⟨h1, h2, h3⟩
    · rintro ⟨h1, h2, h3⟩
      exact ⟨h1, h2, h3⟩

/-- The branch that retires in cycle 10. -/
theorem training_entries_branchOnly : ∃ m logs m' log x, run (Env.ofProgram branchOnly) 10 = .ok (m, logs) ∧
    cycle (Env.ofProgram branchOnly) 10 m = .ok (m', log) ∧ log.retired[0]? = some x ∧
    opcodeOf x.instValue = 0x63 ∧ x.predicted = true ∧
    ∃ (j : Nat) (s t : Stages), (fetchCycles (Env.ofProgram branchOnly) 10)[0]? = some j ∧
      (∃ y, FetchedIn (Env.ofProgram branchOnly) j s y ∧ y.pc = x.pc ∧ y.value = x.instValue ∧
        y.checkpointId = x.checkpointId) ∧
      PredictsFrom s.ex.predictor (consulted s.ex.predictor x.pc) x.predictedJump ∧
      t.Ran (Env.ofProgram branchOnly) 10 m ∧
      TrainsAt m.predictor t.cm.predictor (trained m.predictor x.pc x.bruJump (Commit.predictionHit x)) x.bruJump ∧
      (consulted s.ex.predictor x.pc = trained m.predictor x.pc x.bruJump (Commit.predictionHit x) ↔
        TrainsConsulted m x) := by
  obtain ⟨m, logs, m', log, h, hc, hP⟩ := exists_cycle_ok (show lastCycle (fun log =>
    log.retired[0]?.any fun x => opcodeOf x.instValue == 0x63 && x.predicted)
    (run (Env.ofProgram branchOnly) (10 + 1)) = true by decide +kernel)
  obtain ⟨x, hx, hP⟩ := (Option.any_eq_true _ _).mp hP
  obtain ⟨hop, hpred⟩ := Bool.and_eq_true_iff.mp hP
  exact ⟨m, logs, m', log, x, h, hc, hx, beq_iff_eq.mp hop, hpred, training_entries h hc hx (beq_iff_eq.mp hop) hpred⟩

/-- The branch is fetched with an empty history and predicted wrong, so that when it retires, the history that
selects the chooser has it in it already. No trap is taken and the checkpoint buffer never holds more than the
entry of the branch. -/
theorem chooser_not_consulted : ∃ m logs m' log x j s, run (Env.ofProgram branchOnly) 10 = .ok (m, logs) ∧
    cycle (Env.ofProgram branchOnly) 10 m = .ok (m', log) ∧ log.retired[0]? = some x ∧
    opcodeOf x.instValue = 0x63 ∧ x.predicted = true ∧ (∀ l ∈ logs ++ [log], l.phaseAfter = .normal) ∧
    (∀ k ≤ 11, ∀ m logs, run (Env.ofProgram branchOnly) k = .ok (m, logs) → m.checkpointBuffer.count ≤ 1) ∧
    (fetchCycles (Env.ofProgram branchOnly) 10)[0]? = some j ∧
    (∃ y, FetchedIn (Env.ofProgram branchOnly) j s y ∧ y.pc = x.pc ∧ y.value = x.instValue) ∧
    consulted s.ex.predictor x.pc ≠ trained m.predictor x.pc x.bruJump (Commit.predictionHit x) := by
  obtain ⟨m', logs', h', hP⟩ := exists_run_of (show endsWith (fun _ logs => (logs.all (·.phaseAfter == .normal)) &&
    logs.getLast?.any fun log => log.retired[0]?.any fun x => x.pc == 0x80000000 && x.instValue == 0x00000463 &&
      x.predicted && x.bruJump && !Commit.predictionHit x)
    (run (Env.ofProgram branchOnly) (10 + 1)) = true by decide +kernel)
  obtain ⟨m, logs, log, h, hc, rfl⟩ := run_succ.mp h'
  rw [List.getLast?_concat, Option.any_some, Bool.and_eq_true, List.all_eq_true] at hP
  obtain ⟨x, hx, hP'⟩ := (Option.any_eq_true _ _).mp hP.2
  simp only [Bool.and_eq_true, beq_iff_eq, Bool.not_eq_true'] at hP'
  obtain ⟨⟨⟨⟨hpc, hvalue⟩, hpred⟩, hjump⟩, hhit⟩ := hP'
  -- at its fetch the history was empty, as at the cycle it retires in
  obtain ⟨m₀, logs₀, h₀, hQ⟩ := exists_run_of (show endsWith (fun m logs => m.commit.curState == .normal &&
    m.predictor.gshareGlobalHistoryRetired == 0 &&
    (inFlight m (Window.after (Env.ofProgram branchOnly) logs))[0]?.any fun y => y.pc == 0x80000000 &&
      y.value == 0x00000463 && y.predicted && (m.checkpointBuffer.getItem y.checkpointId).globalHistory == 0)
    (run (Env.ofProgram branchOnly) 10) = true by decide +kernel)
  cases h.symm.trans h₀
  rw [Bool.and_eq_true, Bool.and_eq_true, beq_iff_eq, beq_iff_eq] at hQ
  obtain ⟨⟨hphase, hretired⟩, hQ⟩ := hQ
  obtain ⟨y, hy, hQ⟩ := (Option.any_eq_true _ _).mp hQ
  simp only [Bool.and_eq_true, beq_iff_eq] at hQ
  obtain ⟨⟨⟨hypc, hyvalue⟩, hypred⟩, hhistory⟩ := hQ
  obtain ⟨j, hj, s, hfetched, hpredicted⟩ := (run_origins h hphase).origin 0 y hy
  have hcp : s.ex.predictor.gshareGlobalHistory = 0 := (hpredicted hypred).saves.shared.symm.trans hhistory
  refine ⟨m, logs, m', log, x, j, s, h, hc, hx, by rw [hvalue]; decide, hpred,
    fun l hl => beq_iff_eq.mp (hP.1 l hl), fun k hk m logs hrun => ?_, hj,
    ⟨y, hfetched, hypc.trans hpc.symm, hyvalue.trans hvalue.symm⟩, fun heq => ?_⟩
  · have hall : ((List.range 12).all fun k => endsWith (fun m _ => decide (m.checkpointBuffer.count ≤ 1))
        (run (Env.ofProgram branchOnly) k)) = true := by decide +kernel
    obtain ⟨m₁, logs₁, h₁, hle⟩ := exists_run_of (List.all_eq_true.mp hall k (List.mem_range.mpr (by omega)))
    cases hrun.symm.trans h₁
    exact of_decide_eq_true hle
  · obtain ⟨-, -, hchooser⟩ := consulted_eq_trained.mp heq
    rw [hcp, chooserHistory, hhit, if_neg Bool.false_ne_true, hretired, hjump] at hchooser
    exact absurd hchooser (by decide)

end Training

end MyRiscvCore
