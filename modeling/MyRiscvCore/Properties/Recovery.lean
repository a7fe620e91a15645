import MyRiscvCore.Properties.Renaming

/-!
# MyRiscvCore — recovery of the register map

What a mispredict and a trap leave of the speculative map:

* `mispredict_recovery` — after a mispredicted jump the map is the one that held right after the jump was
  renamed, though the checkpoint holds two bitmaps only;
* `trap_walk` — the walk of a trap undoes the entries of the reorder buffer one per cycle, youngest first,
  and ends with the committed map.

The map after an instruction is a fact about an earlier cycle, the one that renamed it. `run_renamed` finds
this cycle for every instruction in flight.
-/

namespace MyRiscvCore

open Renaming (mapAfter live)

/-- The instructions of these operations, just renamed. -/
def newEntries (ops : List RenameReadregOp) : List Entry :=
  ops.map fun op => ⟨op, .waiting⟩

section Origin

variable {env : Env} {n : Nat} {m : Machine} {w : Window} {s : Stages} {u : Updates}
  {logs : List CycleLog}

/-- One log a cycle. -/
theorem run_length (h : run env n = .ok (m, logs)) : logs.length = n := by
  induction n generalizing m logs with
  | zero => rw [(run_zero h).2, List.length_nil]
  | succ n ih =>
    obtain ⟨m₀, logs₀, log, hrun, -, rfl⟩ := run_succ.mp h
    rw [List.length_append, ih hrun]
    rfl

/-- Every instruction in flight after a cycle was in flight before it, with the same map before it, or it
has been renamed in the cycle. -/
theorem CycleCase.flight_origin (h : CycleCase env n m w s) (hu : s.Synced env n m u)
    {pre post : List Entry} {e : Entry} (hf : (w.step (s.log env n m u)).flight = pre ++ e :: post) :
    (∃ pre₀ e₀ post₀, w.flight = pre₀ ++ e₀ :: post₀ ∧ e.op = e₀.op ∧
      mapAt (w.step (s.log env n m u)).cmap pre = mapAt w.cmap pre₀ ∧
      ∀ op ∈ s.rn.renamed, op.robId ≠ e.op.robId) ∨
    Normal m w ∧ ∃ before after, s.rn.renamed = before ++ e.op :: after ∧
      mapAt (w.step (s.log env n m u)).cmap pre =
        mapAt (mapAt w.cmap w.flight) (newEntries before) := by
  cases h with
  | flow h f =>
    rw [f.step_eq h u] at hf ⊢
    rw [f.window_flight] at hf
    rw [f.window_cmap]
    -- in flight before, or renamed in this cycle
    obtain ⟨post', hold, -⟩ | ⟨pre', rfl, hnew⟩ := split_append hf
    · obtain ⟨pre₀, e₀, post₀, hrest, rfl, rfl, -⟩ := split_advance hold
      refine .inl ⟨f.ret ++ pre₀, e₀, post₀, by rw [f.flight, hrest, List.append_assoc], rfl, ?_,
        fun op hop hid => ?_⟩
      · rw [mapAt_advance, mapAt_append]
      · obtain ⟨cp, hg⟩ := f.group
        rw [hg.ops] at hop
        obtain ⟨x, hx, rfl⟩ := List.mem_map.mp hop
        have hnd := hg.rob.nodup
        rw [List.map_append, List.nodup_append] at hnd
        have he : e₀ ∈ f.rest := by rw [hrest]; simp
        exact hnd.2.2 _ (List.mem_map_of_mem (f.mem_rest he)) _ (List.mem_map_of_mem hx) hid.symm
    · refine .inr ⟨h, pre'.map (·.op), post.map (·.op), ?_, ?_⟩
      · obtain ⟨cp, hg⟩ := f.group
        rw [hg.ops, hnew, List.map_append, List.map_cons]
      · have hentries : newEntries (pre'.map (·.op)) = pre' := by
          rw [newEntries, List.map_map]
          refine (List.map_congr_left fun x hx => ?_).trans (List.map_id _)
          obtain ⟨op, status⟩ := x
          have hs : status = .waiting := f.waiting _ (by rw [hnew]; exact List.mem_append_left _ hx)
          subst hs
          rfl
        rw [hentries, mapAt_append, mapAt_advance, f.flight, mapAt_append]
  | flush h g =>
    rw [g.step_eq h (g.updated h hu)] at hf ⊢
    have hkept : g.kept = pre ++ e :: post := hf
    have hst : g.stop ≠ .miss := by
      intro hst
      rw [NormalFlush.kept, if_pos hst] at hkept
      cases pre <;> cases hkept
    rw [NormalFlush.kept, if_neg hst] at hkept
    refine .inl ⟨g.ret ++ pre, e, post, by rw [g.flight, hkept, List.append_assoc], rfl, ?_, ?_⟩
    · show mapAt (w.retireAll _ g.ret).cmap pre = _
      rw [Window.cmap_retireAll, mapAt_append]
    · rw [g.stages.rename]
      simp
  | walk v h =>
    by_cases hpre : v.pre = []
    · rw [v.step_last h (v.updated h hu) hpre] at hf
      cases pre <;> cases hf
    · rw [v.step_eq h (v.updated h hu) hpre] at hf ⊢
      refine .inl ⟨pre, e, post, hf, rfl, rfl, ?_⟩
      rw [v.stages.rename]
      simp

/-- Cycle `k` has renamed `op`, and `M` is the register map right after it: the visible map before that
cycle, changed by the operations of its group up to `op`. -/
def RenamedIn (env : Env) (k : Nat) (op : RenameReadregOp) (M : Nat → Nat) : Prop :=
  ∃ m logs m' log before after V, run env k = .ok (m, logs) ∧ cycle env k m = .ok (m', log) ∧
    log.renamed = before ++ op :: after ∧ (∀ a ∈ archRegs, m.rat.getPhyId a = .ok (some (V a))) ∧
    M = mapAt V (newEntries (before ++ [op]))

/-- Every instruction in flight has been renamed in a cycle, after which no cycle has renamed another one
with its ROB id. -/
theorem run_renamed (h : run env n = .ok (m, logs)) {pre post : List Entry} {e : Entry}
    (hf : (Window.after env logs).flight = pre ++ e :: post) :
    ∃ k < n, RenamedIn env k e.op (mapAt (Window.after env logs).cmap (pre ++ [e])) ∧
      ∀ i log, k < i → logs[i]? = some log → ∀ op ∈ log.renamed, op.robId ≠ e.op.robId := by
  refine (run_induction (P := fun n _ logs => ∀ pre e post,
    (Window.after env logs).flight = pre ++ e :: post →
      ∃ k < n, RenamedIn env k e.op (mapAt (Window.after env logs).cmap (pre ++ [e])) ∧
        ∀ i log, k < i → logs[i]? = some log → ∀ op ∈ log.renamed, op.robId ≠ e.op.robId)
    (fun m _ _ pre e post hf => ?_) (fun n m logs s u hrun ih hcase hu pre e post hf => ?_) h).2
      pre e post hf
  · cases pre <;> cases hf
  · rw [Window.after_snoc] at hf ⊢
    have hlen := run_length hrun
    -- the new log is the last one
    have hlast {i : Nat} {log : CycleLog} (hi : n ≤ i)
        (hlog : (logs ++ [s.log env n m u])[i]? = some log) : i = n ∧ log = s.log env n m u := by
      rw [List.getElem?_append_right (by rw [hlen]; exact hi), List.getElem?_singleton] at hlog
      split_ifs at hlog with h0
      exact ⟨by omega, (Option.some.inj hlog).symm⟩
    obtain ⟨pre₀, e₀, post₀, hf₀, hop, hmap, hids⟩ | ⟨hn, before, after, hren, hmap⟩ :=
      hcase.flight_origin hu hf
    · obtain ⟨k, hk, hin, hlater⟩ := ih pre₀ e₀ post₀ hf₀
      refine ⟨k, Nat.lt_succ_of_lt hk, ?_, fun i log hi hlog op hmem => ?_⟩
      · have hentry : e.mapping = e₀.mapping := by
          unfold Entry.mapping Entry.writes
          rw [hop]
        rw [mapAt_append, hmap, mapAt_cons, hentry, hop]
        rw [mapAt_append, mapAt_cons] at hin
        exact hin
      · rw [hop]
        by_cases hin : i < n
        · rw [List.getElem?_append_left (by rw [hlen]; exact hin)] at hlog
          exact hlater i log hi hlog op hmem
        · obtain ⟨-, rfl⟩ := hlast (Nat.le_of_not_lt hin) hlog
          rw [← hop]
          exact hids op hmem
    · refine ⟨n, Nat.lt_succ_self n, ⟨m, logs, _, _, before, after, _, hrun,
        cycle_ok_iff.mpr ⟨s, u, hcase.ran, hu, rfl, rfl⟩, hren, fun a ha => hn.rat.getPhyId_eq ha, ?_⟩,
        fun i log hi hlog => ?_⟩
      · rw [mapAt_append, hmap, newEntries, newEntries, List.map_append, mapAt_append]
        rfl
      · obtain ⟨rfl, -⟩ := hlast (Nat.le_of_lt hi) hlog
        exact absurd hi (lt_irrefl i)

end Origin

/-! ## Mispredicts

The restored table is the one at the jump's rename. -/

section Mispredict

variable {env : Env} {n : Nat} {m m' : Machine} {w : Window} {s : Stages} {u : Updates}
  {logs : List CycleLog} {log : CycleLog} {item : RobItem} {C : Nat → Nat} {regs : Nat → Word}
  {ret rest : List Entry}

theorem retiredItems_append (C : Nat → Nat) (es fs : List Entry) :
    retiredItems C (es ++ fs) = retiredItems C es ++ retiredItems (mapAt C es) fs := by
  induction es generalizing C with
  | nil => rfl
  | cons e es ih => simp [retiredItems, ih, mapAt_cons]

theorem getElem?_retiredItems {i : Nat} (h : (retiredItems C ret)[i]? = some item) :
    ∃ pre e post, ret = pre ++ e :: post ∧ pre.length = i ∧ item = robItemOf (mapAt C pre) e := by
  induction ret generalizing C i with
  | nil => cases h
  | cons e ret ih =>
    cases i with
    | zero =>
      cases h
      exact ⟨[], e, ret, rfl, rfl, rfl⟩
    | succ i =>
      obtain ⟨pre, x, post, rfl, hlen, rfl⟩ := ih (List.getElem?_cons_succ.symm.trans h)
      exact ⟨e :: pre, x, post, rfl, by rw [List.length_cons, hlen], by rw [mapAt_cons]⟩

/-- A retired item is the record of an entry, under the map at that entry. -/
theorem mem_retiredItems (h : item ∈ retiredItems C ret) :
    ∃ pre e post, ret = pre ++ e :: post ∧ item = robItemOf (mapAt C pre) e := by
  obtain ⟨i, hi⟩ := List.mem_iff_getElem?.mp h
  obtain ⟨pre, e, post, hret, -, hitem⟩ := getElem?_retiredItems hi
  exact ⟨pre, e, post, hret, hitem⟩

/-- The entry of a retired instruction, in the words of the instruction and its result. -/
theorem robItemOf_retired {pre : List Entry} {e : Entry} {r : ExecuteWbPack} (hs : e.status = .finished r)
    (hok : EntryOk C regs pre e) (hbru : (robItemOf C e).bruOp = true) :
    e.op.opUnit = .bru ∧ (robItemOf C e).predicted = e.op.predicted ∧
      Commit.predictionHit (robItemOf C e) =
        (r.bruJump == e.op.predictedJump &&
          (r.bruNextPc == e.op.predictedNextPc || !e.op.predictedJump)) := by
  have hres := hok.resultOf (show e.result = some r by simp [Entry.result, hs])
  rw [robItemOf_finished hs] at hbru ⊢
  have hunit : e.op.opUnit = .bru := by
    rw [← hres.info]
    exact eq_of_beq hbru
  have hpred := hres.predict hunit
  refine ⟨hunit, congrArg PredictInfo.predicted hpred, ?_⟩
  show (r.bruJump == r.predictedJump && (r.bruNextPc == r.predictedNextPc || !r.predictedJump)) = _
  rw [hpred]

/-- A retired jump that was predicted wrong ends its group with a mispredict. -/
theorem CommitSpec.stop_miss {csr : Csrfile} {ii : InterruptInterface} {q : Fifo RobItem}
    {cpb : Fifo Checkpoint} {port : List ExecuteWbPack} {perf : PerfCounters} {cm : Commit.Ctx}
    {stop : Stop} (h : CommitSpec csr ii q cpb C port perf cm ret rest stop)
    (hfl : FlightOk C regs (ret ++ rest)) (hitem : item ∈ cm.retired) (hbru : item.bruOp = true)
    (hpred : item.predicted = true) (hmiss : Commit.predictionHit item = false) :
    stop = .miss ∧ ∃ pre e, ret = pre ++ [e] ∧ item = robItemOf (mapAt C pre) e := by
  rw [h.retired] at hitem
  obtain ⟨pre, e, post, hret, rfl⟩ := mem_retiredItems hitem
  have he : e ∈ ret := by rw [hret]; simp
  obtain ⟨r, hs, hx⟩ := h.finished e he
  have hok : EntryOk (mapAt C pre) (regsAfter regs pre) [] e :=
    hfl.retired_entry h.finished hret
  obtain ⟨hunit, hpred', hhit⟩ := robItemOf_retired hs hok hbru
  rw [hpred'] at hpred
  rw [hhit] at hmiss
  obtain rfl := h.inner pre e post hret hunit
  have hlast {x : Entry} {rx : ExecuteWbPack} (hx : JumpLast ret x rx) : x = e ∧ rx = r := by
    have hl := hx.last
    rw [hret, List.getLast?_concat] at hl
    cases hl
    have hst := hx.status
    rw [hs] at hst
    cases hst
    exact ⟨rfl, rfl⟩
  refine ⟨?_, pre, e, hret, rfl⟩
  -- the other ways to end a group contradict the miss
  cases hstop : stop with
  | miss => rfl
  | group => exact absurd hunit (h.group (.inl hstop) e he)
  | exception => exact absurd hunit (h.group (.inr hstop) e he)
  | interrupt =>
    rw [(h.interrupt hstop).1] at he
    cases he
  | hit =>
    obtain ⟨x, rx, hjl, -, hjump, hnext⟩ := h.hit hstop
    obtain ⟨rfl, rfl⟩ := hlast hjl
    rw [hjump, beq_self_eq_true, Bool.true_and] at hmiss
    obtain hnext | hnext := hnext <;> simp [hnext] at hmiss
  | jump =>
    obtain ⟨x, rx, hjl, hp, -⟩ := h.jump (.inl hstop)
    obtain ⟨rfl, rfl⟩ := hlast hjl
    rw [hp, hstop] at hpred
    cases hpred

/-- A cycle that retires a mispredicted jump. -/
theorem Refines.mispredict_cycle (h : Refines m w) (hc : cycle env n m = .ok (m', log))
    (hitem : item ∈ log.retired) (hbru : item.bruOp = true) (hpred : item.predicted = true)
    (hmiss : Commit.predictionHit item = false) :
    ∃ pre e post, w.flight = pre ++ e :: post ∧ m.rob.fifo.getItem e.op.robId = item ∧
      e.op.robId ∈ m.rob.fifo.ids ∧ Normal m' (w.step log) ∧ (w.step log).flight = [] ∧
      (w.step log).cmap = mapAt w.cmap (pre ++ [e]) := by
  obtain ⟨s, u, hcase, hu, rfl, rfl⟩ := h.cycle_ok hc
  cases hcase with
  | flow h f =>
    have hfl := h.flight
    rw [f.flight] at hfl
    obtain ⟨hstop, -⟩ := f.commit.stop_miss hfl hitem hbru hpred hmiss
    exact absurd hstop (Stop.flows_ne f.flows).1
  -- the jump is the last that retires, and what is behind it is dropped
  | flush h g =>
    obtain ⟨hstop, pre, e, hret, hx⟩ := g.commit.stop_miss (g.flight_retired h) hitem hbru hpred hmiss
    have hf : w.flight = pre ++ e :: g.rest := by
      rw [g.flight, hret, List.append_assoc, List.singleton_append]
    refine ⟨pre, e, g.rest, hf, ?_, ?_, g.miss h hu hstop, ?_, ?_⟩
    · rw [hx]
      exact h.rob.item pre e g.rest hf
    · rw [h.rob.ids, hf]
      simp
    · rw [g.step_eq h (g.updated h hu)]
      exact if_pos hstop
    · rw [g.step_eq h (g.updated h hu), ← hret]
      exact Window.cmap_retireAll
  | walk v _ =>
    have hnil : (s.log env n m u).retired = [] := v.commit.retired
    rw [hnil] at hitem
    cases hitem

/-- After a mispredicted jump, the map is the one right after the jump was renamed, every other register is
free, and the data that are valid are those of the mapped registers, each the result of its committed
producer. -/
theorem mispredict_recovery (h : run env n = .ok (m, logs)) (hc : cycle env n m = .ok (m', log))
    (hitem : item ∈ log.retired) (hbru : item.bruOp = true) (hpred : item.predicted = true)
    (hmiss : Commit.predictionHit item = false) :
    ∃ op k M, m.rob.fifo.getItem op.robId = item ∧ op.robId ∈ m.rob.fifo.ids ∧
      k < n ∧ RenamedIn env k op M ∧
      (∀ i log, k < i → logs[i]? = some log → ∀ x ∈ log.renamed, x.robId ≠ op.robId) ∧
      (∀ a ∈ archRegs, m'.rat.getPhyId a = .ok (some (M a)) ∧
        m'.regfile.regData (M a) = lastWritten (Window.after env (logs ++ [log])).events a) ∧
      ∀ p < phyRegNum, (m'.rat.visible p = true ↔ p ∈ M '' archRegs) ∧
        (m'.rat.valid p = true ↔ p ∈ M '' archRegs) ∧
        (m'.regfile.regDataValid p = true ↔ p ∈ M '' archRegs) := by
  obtain ⟨pre, e, post, hf, hgot, hmem, hn, hempty, hcmap⟩ :=
    (run_refines h).mispredict_cycle hc hitem hbru hpred hmiss
  obtain ⟨k, hk, hin, hlater⟩ := run_renamed h hf
  have hin' := run_inOrder (run_succ.mpr ⟨m, logs, log, h, hc, rfl⟩)
  rw [← hcmap] at hin
  rw [Window.after_snoc] at hin' ⊢
  have hrat := hn.rat
  have hreg := hn.reg
  rw [hempty] at hrat hreg
  refine ⟨e.op, k, _, hgot, hmem, hk, hin, hlater, fun a ha => ⟨hrat.getPhyId_eq ha, ?_⟩,
    fun p hp => ⟨hrat.visible_iff p, ?_, ?_⟩⟩
  · rw [(hreg.committed a ha).2, ← hin'.arch, InOrder.regs_after]
  · rw [hrat.valid_iff]
    simp [live]
  · constructor
    -- a register outside the map has been freed
    · intro hv
      by_contra hnot
      rw [hreg.free p hp (by simpa [live] using hnot)] at hv
      cases hv
    · rintro ⟨a, ha, rfl⟩
      exact (hreg.committed a ha).1

/-- A branch that is taken, and that the initial predictor expects not to be. -/
def takenBranch : List Word := [0x00000463]

/-- A taken branch that was predicted not taken. -/
theorem mispredict_recovery_takenBranch : ∃ m logs m' log item,
    run (Env.ofProgram takenBranch) 10 = .ok (m, logs) ∧
    cycle (Env.ofProgram takenBranch) 10 m = .ok (m', log) ∧ item ∈ log.retired ∧
    ∃ op k M, m.rob.fifo.getItem op.robId = item ∧ RenamedIn (Env.ofProgram takenBranch) k op M ∧
      ∀ a ∈ archRegs, m'.rat.getPhyId a = .ok (some (M a)) := by
  obtain ⟨m, logs, m', log, h, hc, hany⟩ := exists_cycle_ok (show lastCycle
    (fun log => log.retired.any fun item => item.bruOp && item.predicted && !Commit.predictionHit item)
    (run (Env.ofProgram takenBranch) 11) = true by decide +kernel)
  obtain ⟨item, hitem, hcond⟩ := List.any_eq_true.mp hany
  rw [Bool.and_eq_true, Bool.and_eq_true, Bool.not_eq_true'] at hcond
  obtain ⟨op, k, M, hgot, -, -, hin, -, hmap, -⟩ :=
    mispredict_recovery h hc hitem hcond.1.1 hcond.1.2 hcond.2
  exact ⟨m, logs, m', log, item, h, hc, hitem, op, k, M, hgot, hin, fun a ha => (hmap a ha).1⟩

end Mispredict

/-! ## Traps

The walk undoes the renamings one by one. -/

section Walk

variable {env : Env} {n : Nat} {m m' : Machine} {w : Window} {j : Nat} {logs : List CycleLog}
  {log : CycleLog}

/-- The effect of undoing an entry on the alias table. -/
def undoEntry (item : RobItem) (r : Rat) : Except Halt Rat :=
  if item.oldPhyRegIdValid then r.restoreMap item.newPhyRegId item.oldPhyRegId else .ok r

/-- The speculative map is the committed one, every other register is free and its data are invalid. -/
structure Recovered (m : Machine) : Prop where
  map : ∀ a ∈ archRegs, ∃ p, m.rat.getPhyId a = .ok (some p) ∧ m.rat.getCommitPhyId a = .ok p
  valid : ∀ p < phyRegNum, m.rat.valid p = true ↔ m.rat.visible p = true
  data : ∀ p < phyRegNum, m.regfile.regDataValid p = true ↔ m.rat.visible p = true

/-- An empty machine in a normal state has recovered. -/
theorem Normal.recovered (h : Normal m w) (hf : w.flight = []) : Recovered m := by
  have hrat := h.rat
  have hreg := h.reg
  rw [hf] at hrat hreg
  constructor
  case map => exact fun a ha => ⟨w.cmap a, hrat.getPhyId_eq ha, hrat.getCommitPhyId_eq ha⟩
  case valid =>
    intro p _
    rw [hrat.valid_iff, hrat.visible_iff]
    simp [live]
  case data =>
    intro p hp
    rw [hrat.visible_iff]
    constructor
    · intro hv
      by_contra hnot
      rw [hreg.free p hp (by simpa [live] using hnot)] at hv
      cases hv
    · rintro ⟨a, ha, rfl⟩
      exact (hreg.committed a ha).1

/-- One cycle of a walk with `j + 1` entries left. -/
theorem Walk.cycle_ok (h : Walk m w (j + 1)) (env : Env) (n : Nat) :
    ∃ m' log item, cycle env n m = .ok (m', log) ∧ m.rob.fifo.toList[j]? = some item ∧
      undoEntry item m.rat = .ok m'.rat ∧
      (0 < j → Walk m' (w.step log) j ∧ m'.rob.fifo = m.rob.fifo) ∧
      (j = 0 → Normal m' (w.step log) ∧ (w.step log).flight = []) := by
  obtain ⟨s, v, hj⟩ := h.walkStages env n
  obtain rfl : j = v.pre.length := Nat.succ.inj hj
  obtain ⟨u, hu⟩ := v.exists_synced h
  refine ⟨_, _, robItemOf (mapAt w.cmap v.pre) v.e, cycle_ok_iff.mpr ⟨s, u, v.stages.ran, hu, rfl, rfl⟩,
    ?_, ?_, fun hpos => ?_, fun h0 => ?_⟩
  · rw [Fifo.toList, h.rob.ids, v.flight, List.getElem?_map, List.getElem?_map,
      List.getElem?_append_right (le_refl _), Nat.sub_self]
    exact congrArg some (h.rob.item v.pre v.e v.post v.flight)
  · have hsync := hu.rat
    rw [v.stages.rename, List.append_nil, v.commit.rat, undoRatRequests] at hsync
    show undoEntry _ m.rat = .ok u.rat
    rw [undoEntry, robItemOf_old, robItemOf_new, ← hsync]
    -- an entry without a destination undoes nothing
    cases hw : v.e.writes with
    | false => rfl
    | true =>
      rw [robItemOf_oldPhyRegId hw]
      show _ = (m.rat.apply (.restoreMap _ _) >>= pure)
      exact (bind_pure _).symm
  · have hpre : v.pre ≠ [] := List.length_pos_iff.mp hpos
    obtain ⟨pre', x, hpre'⟩ := (List.eq_nil_or_concat v.pre).resolve_left hpre
    refine ⟨v.step h hu hpre, ?_⟩
    rw [v.rob_eq]
    exact (v.commit.step pre' x (by rw [hpre', List.concat_eq_append])).2.1
  · have hpre : v.pre = [] := List.eq_nil_of_length_eq_zero h0
    refine ⟨v.last h hu hpre, ?_⟩
    rw [v.step_last h (v.updated h hu) hpre]

/-- The cycles of a walk before its last one. -/
theorem Walk.run_ok {k : Nat} (hrun : run env n = .ok (m, logs)) (h : Walk m (Window.after env logs) k)
    {i : Nat} (hi : i < k) : ∃ m' logs', run env (n + i) = .ok (m', logs') ∧
      Walk m' (Window.after env logs') (k - i) ∧ m'.rob.fifo = m.rob.fifo := by
  induction i with
  | zero => exact ⟨m, logs, hrun, h, rfl⟩
  | succ i ih =>
    obtain ⟨m₁, logs₁, hrun₁, hwalk, hrob⟩ := ih (by omega)
    rw [show k - i = (k - (i + 1)) + 1 by omega] at hwalk
    obtain ⟨m₂, log, item, hc, -, -, hnext, -⟩ := hwalk.cycle_ok env (n + i)
    obtain ⟨hwalk', hrob'⟩ := hnext (by omega)
    refine ⟨m₂, logs₁ ++ [log], run_succ.mpr ⟨m₁, logs₁, log, hrun₁, hc, rfl⟩, ?_, hrob'.trans hrob⟩
    rw [Window.after_snoc]
    exact hwalk'

/-- A trap: the cycle that detects it leaves the excepting entry (the oldest one, for an interrupt) and the
younger ones in the reorder buffer. -/
theorem Refines.trap_cycle (h : Refines m w) (hc : cycle env n m = .ok (m', log))
    (hnormal : log.phaseBefore = .normal) (htrap : log.phaseAfter ≠ .normal) :
    ∃ k, Walk m' (w.step log) k ∧ k = (w.step log).flight.length := by
  obtain ⟨s, u, hcase, hu, rfl, rfl⟩ := h.cycle_ok hc
  cases hcase with
  | flow h f =>
    refine absurd ?_ htrap
    show s.cm.state.curState = .normal
    rw [f.commit.phase]
    obtain ⟨-, hexc, hint⟩ := Stop.flows_ne f.flows
    cases hst : f.stop with
    | exception => exact absurd hst hexc
    | interrupt => exact absurd hst hint
    | _ => rfl
  | flush h g =>
    have hst : g.stop ≠ .miss := by
      intro hst
      refine htrap ?_
      show s.cm.state.curState = .normal
      rw [g.commit.phase, hst]
    refine ⟨_, g.trap h hu hst, ?_⟩
    rw [g.step_eq h (g.updated h hu)]
    exact congrArg List.length (if_neg hst).symm
  | walk v h => exact absurd hnormal h.phase

end Walk

/-- The walk of a trap: it takes as many cycles as entries are left, undoes these one by one, youngest
first, and leaves the committed map and an empty reorder buffer. -/
theorem trap_walk {env : Env} {n : Nat} {m m₀ : Machine} {logs : List CycleLog} {log : CycleLog}
    (h : run env n = .ok (m, logs)) (hc : cycle env n m = .ok (m₀, log))
    (hnormal : log.phaseBefore = .normal) (htrap : log.phaseAfter ≠ .normal) :
    0 < m₀.rob.fifo.count ∧ m₀.rob.fifo.count ≤ robSize ∧
    (log.phaseAfter = .flush → ∃ item, m₀.rob.fifo.toList.head? = some item ∧ item.hasException = true) ∧
    (∀ i < m₀.rob.fifo.count, ∃ m₁ logs₁ m₂ logs₂ item,
      run env (n + 1 + i) = .ok (m₁, logs₁) ∧ run env (n + 1 + i + 1) = .ok (m₂, logs₂) ∧
      m₁.commit.curState ≠ .normal ∧ m₁.rob.fifo = m₀.rob.fifo ∧
      m₀.rob.fifo.toList[m₀.rob.fifo.count - 1 - i]? = some item ∧
      undoEntry item m₁.rat = .ok m₂.rat) ∧
    ∃ m' logs', run env (n + 1 + m₀.rob.fifo.count) = .ok (m', logs') ∧
      m'.commit.curState = .normal ∧ m'.rob.fifo.toList = [] ∧ Recovered m' := by
  obtain ⟨k, hwalk, hk⟩ := (run_refines h).trap_cycle hc hnormal htrap
  have hrun : run env (n + 1) = .ok (m₀, logs ++ [log]) := run_succ.mpr ⟨m, logs, log, h, hc, rfl⟩
  rw [← Window.after_snoc] at hwalk hk
  have hcount : m₀.rob.fifo.count = k := by rw [hwalk.rob.count_eq, hk]
  have hphase : m₀.commit.curState = log.phaseAfter := by
    obtain ⟨s, u, -, -, rfl, rfl⟩ := cycle_ok_iff.mp hc
    rfl
  rw [hcount]
  refine ⟨hwalk.restore.1, ?_, fun hflush => ?_, fun i hi => ?_, ?_⟩
  · rw [← hcount, ← hwalk.rob.size]
    exact hwalk.rob.wf.count_le
  · obtain ⟨e, rest, r, hf, hs, hx, -⟩ := hwalk.exception (hphase.trans hflush)
    refine ⟨robItemOf (Window.after env (logs ++ [log])).cmap e, ?_, ?_⟩
    · rw [Fifo.toList, hwalk.rob.ids, hf]
      exact congrArg some (hwalk.rob.item [] e rest hf)
    · rw [robItemOf_finished hs]
      exact hx
  -- cycle `i` of the walk undoes the entry `i` from the end
  · obtain ⟨m₁, logs₁, hrun₁, hwalk₁, hrob⟩ := hwalk.run_ok hrun hi
    rw [show k - i = k - 1 - i + 1 by omega] at hwalk₁
    obtain ⟨m₂, log₂, item, hc₂, hitem, hundo, -, -⟩ := hwalk₁.cycle_ok env (n + 1 + i)
    rw [hrob] at hitem
    exact ⟨m₁, logs₁, m₂, _, item, hrun₁, run_succ.mpr ⟨m₁, logs₁, log₂, hrun₁, hc₂, rfl⟩, hwalk₁.phase,
      hrob, hitem, hundo⟩
  -- the last one leaves the machine empty
  · have hpos := hwalk.restore.1
    obtain ⟨m₁, logs₁, hrun₁, hwalk₁, -⟩ := hwalk.run_ok hrun (Nat.sub_lt hpos Nat.one_pos)
    rw [show k - (k - 1) = 0 + 1 by omega] at hwalk₁
    obtain ⟨m₂, log₂, item, hc₂, -, -, -, hlast⟩ := hwalk₁.cycle_ok env (n + 1 + (k - 1))
    obtain ⟨hn, hempty⟩ := hlast rfl
    refine ⟨m₂, logs₁ ++ [log₂], ?_, hn.phase, ?_, hn.recovered hempty⟩
    · rw [show n + 1 + k = n + 1 + (k - 1) + 1 by omega]
      exact run_succ.mpr ⟨m₁, logs₁, log₂, hrun₁, hc₂, rfl⟩
    · rw [Fifo.toList, hn.rob.ids, hempty]
      rfl

/-- A trap over two writes to one register. -/
theorem trap_walk_doubleWrite : ∃ m logs m₀ log,
    run (Env.ofProgram doubleWrite) 11 = .ok (m, logs) ∧
    cycle (Env.ofProgram doubleWrite) 11 m = .ok (m₀, log) ∧ log.phaseAfter = .flush ∧
    ∃ m' logs', run (Env.ofProgram doubleWrite) (11 + 1 + m₀.rob.fifo.count) = .ok (m', logs') ∧
      Recovered m' := by
  obtain ⟨m, logs, m₀, log, h, hc, hphase⟩ := exists_cycle_ok (show lastCycle
    (fun log => decide (log.phaseBefore = .normal ∧ log.phaseAfter = .flush))
    (run (Env.ofProgram doubleWrite) 12) = true by decide +kernel)
  obtain ⟨hbefore, hafter⟩ := of_decide_eq_true hphase
  obtain ⟨-, -, -, -, m', logs', hrun, -, -, hrec⟩ :=
    trap_walk h hc hbefore (by rw [hafter]; decide)
  exact ⟨m, logs, m₀, log, h, hc, hafter, m', logs', hrun, hrec⟩

end MyRiscvCore
