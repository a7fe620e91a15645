import MyRiscvCore.Refine.FlowNormal
import MyRiscvCore.Refine.WalkStep

/-!
# MyRiscvCore — runs

`Refines` is the relation in either state of commit. A cycle is of one of three kinds (`CycleCase`), each
of which keeps the relation, and it fails in two ways only: fetch aborts on a misaligned address, or a CSR
write waits for the terminal (`Refines.cycle_cases`). So the relation holds at every cycle boundary of every
run (`run_refines`).
-/

namespace MyRiscvCore

/-- The machine represents the window. -/
def Refines (m : Machine) (w : Window) : Prop :=
  Normal m w ∨ ∃ j, Walk m w j

theorem Refines.shape {m : Machine} {w : Window} (h : Refines m w) : Shape m := by
  obtain h | ⟨j, h⟩ := h
  · exact h.shape
  · exact h.shape

theorem Refines.storeBuffer_wf {m : Machine} {w : Window} (h : Refines m w) : m.storeBuffer.WF := by
  obtain h | ⟨j, h⟩ := h
  · exact h.store.wf
  · exact h.store.wf

/-- What a cycle from a machine that represents the window is. -/
inductive CycleCase (env : Env) (n : Nat) (m : Machine) (w : Window) (s : Stages) : Prop
  | flow (h : Normal m w) (f : FlowStages env n m w s)
  | flush (h : Normal m w) (g : NormalFlush env n m w s)
  | walk (v : WalkStages env n m w s) (h : Walk m w (v.pre.length + 1))

section Cycle

variable {env : Env} {n : Nat} {m m' : Machine} {w : Window} {s : Stages} {u : Updates} {log : CycleLog}

theorem CycleCase.ran (h : CycleCase env n m w s) : s.Ran env n m := by
  cases h with
  | flow _ f => exact f.ran
  | flush _ g => exact g.stages.ran
  | walk v _ => exact v.stages.ran

/-- Every kind of cycle keeps the relation. -/
theorem CycleCase.refines (h : CycleCase env n m w s) (hu : s.Synced env n m u) :
    Refines (s.machine env n m u) (w.step (s.log env n m u)) := by
  cases h with
  | flow h f => exact .inl (f.normal h hu)
  | flush h g =>
    by_cases hst : g.stop = .miss
    · exact .inl (g.miss h hu hst)
    · exact .inr ⟨_, g.trap h hu hst⟩
  | walk v h =>
    by_cases hpre : v.pre = []
    · exact .inl (v.last h hu hpre)
    · exact .inr ⟨_, v.step h hu hpre⟩

/-- The requests are served, unless a write waits for the terminal. -/
theorem CycleCase.exists_synced (h : CycleCase env n m w s) :
    (∃ u, s.Synced env n m u) ∨
      (Stages.csrBefore env n m).sync (s.csrRequests env n m) = .error .charfifo ∧
        cycle env n m = .error .charfifo := by
  cases h with
  | flow h f => exact f.exists_synced h
  | flush h g => exact g.exists_synced h
  | walk v h => exact .inl (v.exists_synced h)

/-- A cycle from a related state is one of three, unless a fetch asserts. -/
theorem Refines.cycleCase (h : Refines m w) (env : Env) (n : Nat) :
    (∃ s, CycleCase env n m w s) ∨
      ∃ s : Stages, s.RanBack env n m ∧ s.fetchRun env n m = .error (.assertion .slaveBase) := by
  obtain h | ⟨j, h⟩ := h
  · obtain ⟨cm, ret, rest, stop, hrun, hflight, hcm⟩ := commit_normal_spec h.retireHyp (m.csrAt env n)
      (m.interruptsAt env n) m.wbCommitPort h.phase
      (show ({ m.rob with committed := false } : Rob).fifo = m.rob.fifo from rfl) m.predictor m.perf
    cases hst : stop.flows with
    | true =>
      obtain ⟨s, ⟨f⟩⟩ | herr := h.flowStages hrun hflight hcm hst
      · exact .inl ⟨s, .flow h f⟩
      · exact .inr herr
    | false =>
      obtain ⟨s, ⟨g⟩⟩ := h.normalFlush hrun hflight hcm hst
      exact .inl ⟨s, .flush h g⟩
  · obtain ⟨s, v, rfl⟩ := h.walkStages env n
    exact .inl ⟨s, .walk v h⟩

/-- A cycle is one of the three kinds, or it fails in one of two ways. -/
theorem Refines.cycle_cases (h : Refines m w) (env : Env) (n : Nat) :
    (∃ s u, CycleCase env n m w s ∧ s.Synced env n m u ∧
        cycle env n m = .ok (s.machine env n m u, s.log env n m u)) ∨
      cycle env n m = .error (.assertion .slaveBase) ∨ cycle env n m = .error .charfifo := by
  obtain ⟨s, hs⟩ | ⟨s, hback, herr⟩ := h.cycleCase env n
  · obtain ⟨u, hu⟩ | ⟨-, herr⟩ := hs.exists_synced
    · exact .inl ⟨s, u, hs, hu, cycle_ok_iff.mpr ⟨s, u, hs.ran, hu, rfl, rfl⟩⟩
    · exact .inr (.inr herr)
  · exact .inr (.inl (cycle_error_fetch hback herr))

/-- The kind of a cycle that answers. -/
theorem Refines.cycle_ok (h : Refines m w) (hc : cycle env n m = .ok (m', log)) :
    ∃ s u, CycleCase env n m w s ∧ s.Synced env n m u ∧ m' = s.machine env n m u ∧
      log = s.log env n m u := by
  obtain ⟨s, u, hs, hu, hok⟩ | herr | herr := h.cycle_cases env n
  · cases hok.symm.trans hc
    exact ⟨s, u, hs, hu, rfl, rfl⟩
  · rw [herr] at hc
    cases hc
  · rw [herr] at hc
    cases hc

theorem Refines.exists_ranBack (h : Refines m w) (env : Env) (n : Nat) : ∃ s : Stages, s.RanBack env n m := by
  obtain ⟨s, hs⟩ | ⟨s, hs, -⟩ := h.cycleCase env n
  · exact ⟨s, hs.ran.toRanBack⟩
  · exact ⟨s, hs⟩

/-- What commit does in the normal state, whether or not fetch aborts afterwards. -/
theorem Stages.RanBack.commitSpec (hs : s.RanBack env n m) (h : Normal m w) :
    ∃ ret rest stop, w.flight = ret ++ rest ∧
      CommitSpec (m.csrAt env n) (m.interruptsAt env n) m.rob.fifo m.checkpointBuffer w.cmap m.wbCommitPort m.perf
        s.cm ret rest stop := by
  obtain ⟨cm, ret, rest, stop, hrun, hflight, hcm⟩ := commit_normal_spec h.retireHyp (m.csrAt env n)
    (m.interruptsAt env n) m.wbCommitPort h.phase
    (show ({ m.rob with committed := false } : Rob).fifo = m.rob.fifo from rfl) m.predictor m.perf
  obtain rfl : cm = s.cm := Except.ok.inj (hrun.symm.trans hs.commit)
  exact ⟨ret, rest, stop, hflight, hcm⟩

/-- The stages in a walk. -/
theorem Stages.RanBack.walkStages (hs : s.RanBack env n m) {j : Nat} (h : Walk m w j) :
    ∃ s', s'.cm = s.cm ∧ Nonempty (WalkStages env n m w s') := by
  obtain ⟨s', v, -⟩ := h.walkStages env n
  refine ⟨s', ?_, ⟨v⟩⟩
  rw [hs.unique v.stages.ran.toRanBack]

end Cycle

/-! ## Reset

The machine after reset refines the initial window. -/

/-- The machine after reset represents the initial window. -/
theorem reset_normal (env : Env) : ∃ m, Machine.reset env = .ok m ∧ Normal m (Window.init env) ∧
    m.perf = PerfCounters.reset := by
  obtain ⟨rat, hratRun, hrat⟩ := Rat.reset_ok
  obtain ⟨regfile, hregRun, hdata, hvalid⟩ := Regfile.reset_ok
  unfold Machine.reset
  rw [hratRun, hregRun]
  refine ⟨_, rfl, ?_, rfl⟩
  refine Normal.empty rfl rfl ?_ ?_ ?_ ?_ hrat ?_ ?_ ⟨rfl, rfl⟩ ⟨Fifo.WF.new (by decide) _, rfl⟩
  · -- the FIFOs are empty
    have hsaved {α : Type} (size : Nat) (buffer : Nat → α) (h : 0 < size) :
        ((Fifo.new size buffer).setPopStatusSave true).WF := by
      have hwf := Fifo.WF.new h buffer
      exact ⟨hwf.rptr_lt, hwf.wptr_lt, hwf.stage⟩
    exact {
      fetchDecode := hsaved _ _ (by decide)
      fetchDecodeSave := rfl
      decodeRename := hsaved _ _ (by decide)
      decodeRenameSave := rfl
      queue := Fifo.WF.new (by decide) _
      queueSave := rfl
      unit := fun _ _ => Fifo.WF.new (by decide) _
      unitSave := fun _ _ => rfl
      unitSize := fun _ _ => rfl
      unitOp := fun _ _ p hp => absurd hp List.not_mem_nil
      unitIndex := fun u => show 0 < unitNum u by cases u <;> decide
      holdOp := fun p hp => by cases hp
      ports := List.length_replicate }
  · exact ⟨rfl, rfl, rfl, fun _ _ => rfl, rfl, rfl⟩
  · have hport {α : Type} [Inhabited α] {enable : α → Bool} (h : enable default = false) (k : Nat) :
        ∀ o ∈ List.replicate k (default : α), enable o = false := by
      intro o ho
      rw [List.eq_of_mem_replicate ho, h]
    exact ⟨hport rfl _, hport rfl _, hport rfl _, hport rfl _⟩
  · exact ⟨Fifo.WF.new (by decide) _, rfl, rfl, rfl, by simp⟩
  · refine ⟨fun a ha => ⟨(hvalid _).mpr ha, hdata _⟩, by simp, fun p _ hnot => ?_⟩
    rw [← Bool.not_eq_true, hvalid]
    exact fun hp => hnot (Renaming.mem_live.mpr (.inl ⟨p, hp, rfl⟩))
  · exact ⟨Fifo.WF.new (by decide) _, rfl, ⟨[], rfl, by simp, by simp, rfl, rfl⟩,
      fun pre e post hf => absurd (show [] = pre ++ e :: post from hf) (by simp)⟩

/-! ## Runs

Every run refines, by induction on its cycles. -/

section Run

variable {env : Env} {n : Nat} {m m' : Machine} {logs : List CycleLog}

/-- A run of no cycles is the reset. -/
theorem run_zero (h : run env 0 = .ok (m, logs)) : Machine.reset env = .ok m ∧ logs = [] := by
  obtain ⟨m₀, hm₀, h⟩ := bind_eq_ok.mp h
  cases h
  exact ⟨hm₀, rfl⟩

/-- The last cycle of a run. -/
theorem run_succ : run env (n + 1) = .ok (m, logs) ↔ ∃ m₀ logs₀ log,
    run env n = .ok (m₀, logs₀) ∧ cycle env n m₀ = .ok (m, log) ∧ logs = logs₀ ++ [log] := by
  rw [run]
  simp only [bind_eq_ok]
  constructor
  · rintro ⟨⟨m₀, logs₀⟩, hrun, ⟨m', log⟩, hc, h⟩
    cases h
    exact ⟨m₀, logs₀, log, hrun, hc, rfl⟩
  · rintro ⟨m₀, logs₀, log, hrun, hc, rfl⟩
    exact ⟨(m₀, logs₀), hrun, (m, log), hc, rfl⟩

/-- One more cycle. -/
theorem Window.after_snoc (env : Env) (logs : List CycleLog) (log : CycleLog) :
    Window.after env (logs ++ [log]) = (Window.after env logs).step log := by
  simp [Window.after]

/-- What holds after reset and is kept by every cycle holds at every cycle boundary; the machine
represents the window of the logs. -/
theorem run_induction {P : Nat → Machine → List CycleLog → Prop}
    (hreset : ∀ m, Machine.reset env = .ok m → Normal m (Window.init env) → P 0 m [])
    (hcycle : ∀ n m logs s u, run env n = .ok (m, logs) → P n m logs →
      CycleCase env n m (Window.after env logs) s → s.Synced env n m u →
      P (n + 1) (s.machine env n m u) (logs ++ [s.log env n m u]))
    (h : run env n = .ok (m, logs)) : Refines m (Window.after env logs) ∧ P n m logs := by
  induction n generalizing m logs with
  | zero =>
    obtain ⟨hm, rfl⟩ := run_zero h
    obtain ⟨m₀, hm₀, hnormal, -⟩ := reset_normal env
    cases hm₀.symm.trans hm
    exact ⟨.inl hnormal, hreset m hm hnormal⟩
  | succ n ih =>
    obtain ⟨m₀, logs₀, log, hrun, hc, rfl⟩ := run_succ.mp h
    obtain ⟨href, hP⟩ := ih hrun
    obtain ⟨s, u, hcase, hu, rfl, rfl⟩ := href.cycle_ok hc
    rw [Window.after_snoc]
    exact ⟨hcase.refines hu, hcycle n m₀ logs₀ s u hrun hP hcase hu⟩

/-- At every cycle boundary, the machine represents the window of the logs. -/
theorem run_refines (h : run env n = .ok (m, logs)) : Refines m (Window.after env logs) :=
  (run_induction (P := fun _ _ _ => True) (fun _ _ _ => trivial) (fun _ _ _ _ _ _ _ _ _ => trivial) h).1

/-- The logs of a run only grow. -/
theorem run_logs {n' : Nat} {logs' : List CycleLog} (h : run env n = .ok (m, logs)) (hle : n ≤ n')
    (h' : run env n' = .ok (m', logs')) : logs <+: logs' := by
  induction n' generalizing m' logs' with
  | zero =>
    obtain rfl : n = 0 := Nat.le_zero.mp hle
    cases h.symm.trans h'
    exact List.prefix_refl _
  | succ k ih =>
    obtain rfl | hlt := hle.eq_or_lt
    · cases h.symm.trans h'
      exact List.prefix_refl _
    · obtain ⟨m₀, logs₀, log, hrun, -, rfl⟩ := run_succ.mp h'
      exact (ih (Nat.lt_succ_iff.mp hlt) hrun).trans (List.prefix_append _ _)

/-- A run answers at every earlier cycle. -/
theorem exists_run_le {k : Nat} (h : run env n = .ok (m, logs)) (hk : k ≤ n) :
    ∃ m₀ logs₀, run env k = .ok (m₀, logs₀) := by
  induction n, hk using Nat.le_induction generalizing m logs with
  | base => exact ⟨m, logs, h⟩
  | succ n _ ih =>
    obtain ⟨m₀, logs₀, -, hrun, -⟩ := run_succ.mp h
    exact ih hrun

/-- A run that fails does so in one of its cycles. -/
theorem exists_cycle_of_run_error {err : Halt} (h : run env n = .error err) :
    ∃ k < n, ∃ m logs, run env k = .ok (m, logs) ∧ cycle env k m = .error err := by
  induction n with
  | zero =>
    obtain ⟨m₀, hm₀, -⟩ := reset_normal env
    rw [run, hm₀] at h
    cases h
  | succ n ih =>
    rw [run] at h
    -- the run failed before, or fails in this cycle
    cases hrun : run env n with
    | error e =>
      rw [hrun] at h
      cases h
      obtain ⟨k, hk, hfail⟩ := ih hrun
      exact ⟨k, hk.trans (Nat.lt_succ_self n), hfail⟩
    | ok x =>
      obtain ⟨m₀, logs₀⟩ := x
      rw [hrun] at h
      refine ⟨n, Nat.lt_succ_self n, m₀, logs₀, hrun, ?_⟩
      cases hc : cycle env n m₀ with
      | ok y =>
        simp only [bind, Except.bind, hc] at h
        cases h
      | error e =>
        simp only [bind, Except.bind, hc] at h
        cases h
        rfl

/-- A run does not recover from a cycle that fails. -/
theorem run_error_of_cycle {k : Nat} {err : Halt} (h : run env k = .ok (m, logs)) (hc : cycle env k m = .error err)
    (hk : k < n) : run env n = .error err := by
  induction n, hk using Nat.le_induction with
  | base => simp only [run, h, bind, Except.bind, hc]
  | succ n _ ih => simp only [run, ih, bind, Except.bind]

/-- A run fails in two ways only. -/
theorem run_error {err : Halt} (h : run env n = .error err) :
    err = .assertion .slaveBase ∨ err = .charfifo := by
  obtain ⟨k, -, m₀, logs₀, hrun, hc⟩ := exists_cycle_of_run_error h
  obtain ⟨s, u, -, -, hok⟩ | herr | herr := (run_refines hrun).cycle_cases env k
  · cases hok.symm.trans hc
  · cases herr.symm.trans hc
    exact .inl rfl
  · cases herr.symm.trans hc
    exact .inr rfl

end Run

/-- The instructions between fetch and retirement, oldest first: those in the reorder buffer and those not yet
renamed. -/
def inFlight (m : Machine) (w : Window) : List DecodeRenamePack :=
  w.flight.map (·.op.toDecodeRenamePack) ++ frontPacks m

section InFlight

variable {env : Env} {n : Nat} {m : Machine} {w : Window} {s : Stages}

theorem reset_inFlight (h : Machine.reset env = .ok m) : inFlight m (Window.init env) = [] := by
  obtain ⟨rat, -, h⟩ := bind_eq_ok.mp h
  obtain ⟨regfile, -, h⟩ := bind_eq_ok.mp h
  cases h
  rfl

theorem FlowStages.inFlight_before (f : FlowStages env n m w s) : inFlight m w =
    f.ret.map (·.op.toDecodeRenamePack) ++ (f.rest.map (·.op.toDecodeRenamePack) ++ frontPacks m) := by
  rw [inFlight, f.flight, List.map_append, List.append_assoc]

/-- What retires leaves at the front, and what fetch has pushed comes at the back. -/
theorem FlowStages.inFlight_after (f : FlowStages env n m w s) (h : Normal m w) (u : Updates) :
    inFlight (s.machine env n m u) (w.step (s.log env n m u)) =
      f.rest.map (·.op.toDecodeRenamePack) ++ frontPacks m ++ f.fetched.map Decode.decodePack := by
  rw [inFlight, f.step_eq h u, f.window_flight]
  exact f.path_packs

/-- A flush leaves nothing that is not yet renamed. -/
theorem FlushStages.inFlight_after (f : FlushStages env n m s) (u : Updates) (w : Window) :
    inFlight (s.machine env n m u) w = w.flight.map (·.op.toDecodeRenamePack) := by
  obtain ⟨hdr, hfd, -⟩ := f.drained u
  rw [inFlight, frontPacks, hdr, hfd, List.map_nil, List.append_nil, List.append_nil]

end InFlight

end MyRiscvCore
