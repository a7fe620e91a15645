import MyRiscvCore.Refine.Dispatch
import MyRiscvCore.Properties.Memory

/-!
# MyRiscvCore — what is handed to the execute units

* `operands_correct` — the register operands of a pack in a unit are the results of the youngest older
  instructions that write these registers, or the committed values;
* `serialization` — a CSR instruction or `mret` is sent alone: as the oldest instruction, and nothing younger
  before it has retired. So the CSR file takes the writes of the retired instructions one after the other, and
  every CSR instruction and `mret` sees those before it.
-/

namespace MyRiscvCore

/-- The value of register `a` after the instructions `pre` in flight, once it is there: 0 for `x0`, the result
of the youngest of them that writes it, or the result of the last retired writer. -/
def operandValue (events : List Event) (pre : List Entry) (a : Nat) : Option Word :=
  if a = 0 then some 0 else valueAt (lastWritten events) pre a

section Operands

variable {env : Env} {n : Nat} {m : Machine} {w : Window} {logs : List CycleLog} {s : Stages} {u : Updates}

theorem InOrderOk.regs_eq {csr : Nat → Word} (h : InOrderOk env csr w) : w.arch.regs = lastWritten w.events :=
  funext fun a => by rw [← InOrder.regs_after env w.events a, h.arch]

/-- While a trap walks, the units have nothing to do. -/
theorem Walk.unitPacks_nil {j : Nat} (h : Walk m w j) : unitPacks m.unitFifos m.lsuHold = [] := by
  obtain ⟨-, -, -, hfifos, hhold, -⟩ := h.drained
  rw [unitPacks, hhold]
  exact List.flatMap_eq_nil_iff.mpr fun x _ => hfifos x.1 x.2

/-- What issue sends is in the FIFO of a unit after the cycle. -/
theorem CycleCase.issued_mem (h : CycleCase env n m w s) {p : IssueExecutePack}
    (hp : p ∈ (s.log env n m u).issued) :
    p ∈ unitPacks (s.machine env n m u).unitFifos (s.machine env n m u).lsuHold := by
  have hp : p ∈ s.is.issued := hp
  cases h with
  | flow h f =>
    refine f.packs_perm.mem_iff.mpr (List.mem_append_right _ ?_)
    rwa [← f.issue.issued]
  | flush h g =>
    rw [g.stages.issue] at hp
    exact absurd hp List.not_mem_nil
  | walk v h =>
    rw [v.stages.issue] at hp
    exact absurd hp List.not_mem_nil

/-- Every pack in a unit is that of an instruction in flight, and its register operands are the values that
the older instructions leave. What issue sends in a cycle is such a pack after it; and the data of a register
whose new producer has put out nothing are not valid. -/
theorem operands_correct (h : run env n = .ok (m, logs)) :
    (∀ p ∈ unitPacks m.unitFifos m.lsuHold, ∃ pre e post,
      (Window.after env logs).flight = pre ++ e :: post ∧ p.robId = e.op.robId ∧
      p.toDecodeInfo = e.op.toDecodeInfo ∧
      (p.valid = true →
        (p.arg1Src = .reg →
          operandValue (Window.after env logs).events pre p.rs1 = some p.src1Value) ∧
        (p.arg2Src = .reg →
          operandValue (Window.after env logs).events pre p.rs2 = some p.src2Value))) ∧
    (∀ m' log, cycle env n m = .ok (m', log) →
      ∀ p ∈ log.issued, p ∈ unitPacks m'.unitFifos m'.lsuHold) ∧
    (m.commit.curState = .normal → ∀ e ∈ (Window.after env logs).flight, e.writes = true →
      e.value? = none → m.regfile.regDataValid e.op.rdPhy = false) := by
  have href := run_refines h
  refine ⟨fun p hp => ?_, fun m' log hc p hp => ?_, fun hphase e he hw hnone => ?_⟩
  · obtain href | ⟨j, href⟩ := href
    · obtain ⟨pre, e, post, v1, v2, hf, h1, h2, rfl⟩ := href.loc.pack p hp
      have hpack := (href.flight pre e post hf).pack
      rw [(run_inOrder h).regs_eq] at h1 h2
      refine ⟨pre, e, post, hf, packOf_robId .., packOf_info .., ?_⟩
      rw [packOf_info, packOf_src1, packOf_src2]
      refine fun hv => ⟨fun hsrc => ?_, fun hsrc => ?_⟩
      · rw [← h1, hpack.operand1_reg hv hsrc]
        rfl
      · rw [← h2, hpack.operand2_reg hv hsrc]
        rfl
    · rw [href.unitPacks_nil] at hp
      exact absurd hp List.not_mem_nil
  · obtain ⟨s, u, hcase, -, rfl, rfl⟩ := href.cycle_ok hc
    exact hcase.issued_mem hp
  · obtain href | ⟨j, href⟩ := href
    · rw [(href.reg.inflight e he hw).1]
      -- what is in the register file has been put out
      cases hs : e.status with
      | written r => simpa [Entry.value?, Entry.result, Entry.stored?, hs] using hnone
      | finished r => simpa [Entry.value?, Entry.result, Entry.stored?, hs] using hnone
      | waiting => simp [Entry.stored?, hs]
      | executed r => simp [Entry.stored?, hs]
    · exact absurd hphase href.phase

theorem operands_correct_doubleWrite : ∃ m logs, run (Env.ofProgram doubleWrite) 8 = .ok (m, logs) ∧
    ∃ p ∈ unitPacks m.unitFifos m.lsuHold, p.arg1Src = .reg ∧ p.rs1 = 1 ∧
    ∃ pre e post, (Window.after (Env.ofProgram doubleWrite) logs).flight = pre ++ e :: post ∧
      operandValue (Window.after (Env.ofProgram doubleWrite) logs).events pre p.rs1 = some p.src1Value := by
  obtain ⟨m, logs, h, hany⟩ := exists_run_of (show endsWith (fun m _ =>
    (unitPacks m.unitFifos m.lsuHold).any fun p => p.valid && p.arg1Src == .reg && p.rs1 == 1)
    (run (Env.ofProgram doubleWrite) 8) = true by decide +kernel)
  obtain ⟨p, hp, hcond⟩ := List.any_eq_true.mp hany
  simp only [Bool.and_eq_true, beq_iff_eq] at hcond
  obtain ⟨⟨hv, hsrc⟩, hrs⟩ := hcond
  obtain ⟨pre, e, post, hf, -, -, hops⟩ := (operands_correct h).1 p hp
  exact ⟨m, logs, h, p, hp, hsrc, hrs, pre, e, post, hf, (hops hv).1 hsrc⟩

end Operands

/-- The CSR writes of the events, in program order. -/
def programCsrWrites (env : Env) (events : List Event) : List Csrfile.Request :=
  overHistory (fun before ev => ev.csrWrites (InOrder.after env before).csr) events

theorem programCsrWrites_snoc (env : Env) (events : List Event) (ev : Event) :
    programCsrWrites env (events ++ [ev]) =
      programCsrWrites env events ++ ev.csrWrites (InOrder.after env events).csr :=
  overHistory_snoc _ events ev

theorem InOrder.csr_after (env : Env) (events : List Event) :
    (InOrder.after env events).csr = csrAfter Csrfile.reset.value (programCsrWrites env events) := by
  induction events using List.reverseRecOn with
  | nil => rfl
  | append_singleton events ev ih =>
    rw [InOrder.after_snoc, programCsrWrites_snoc, csrAfter_append, ← ih]
    rfl

section Csr

variable {env : Env} {n : Nat} {m : Machine} {w : Window} {logs : List CycleLog} {s : Stages} {u : Updates}
  {ret rest : List Entry} {file : Csrfile}

/-- The instructions that retire in a cycle write the CSRs in program order. -/
theorem Normal.retire_csrWrites (h : Normal m w) (hin : InOrderOk env m.csrFile.value w)
    (hfile : file.value = m.csrFile.value) (hf : w.flight = ret ++ rest) (hret : Retired ret) (mepc : Word) :
    programCsrWrites env (w.retireAll mepc ret).events =
      programCsrWrites env w.events ++ ret.flatMap (retireCsrRequests file) := by
  induction ret using List.reverseRecOn generalizing rest with
  | nil => exact (List.append_nil _).symm
  | append_singleton pre e ih =>
    have hsplit : w.flight = pre ++ e :: rest := by rw [hf, List.append_assoc, List.singleton_append]
    have hprev := ih hsplit fun x hx => hret x (List.mem_append_left _ hx)
    rw [Window.retireAll_snoc, Window.retire, programCsrWrites_snoc, hprev, List.append_assoc,
      List.flatMap_append, List.flatMap_singleton]
    congr 2
    refine retireCsrRequests_congr fun hop => ?_
    -- an `mret` sees the CSRs of the start of the cycle
    obtain ⟨r, hs, -⟩ := hret e (by simp)
    obtain rfl : pre = [] := h.serial.oldest pre e rest hsplit (by simp [hop])
      (.inl (by rw [Entry.isWaiting, hs]))
    rw [hfile]
    exact (hin.csr _ (by decide)).symm

/-- The CSR writes of a cycle are those of its events. -/
theorem CycleCase.csrWrites (h : CycleCase env n m w s) (hin : InOrderOk env m.csrFile.value w)
    (hu : s.Synced env n m u) : programCsrWrites env (w.step (s.log env n m u)).events =
      programCsrWrites env w.events ++ (s.log env n m u).csrWrites := by
  show _ = _ ++ s.cm.csrRequests
  cases h with
  | flow h f =>
    rw [f.step_eq h u, f.commit.csrRequests, ← h.retire_csrWrites hin (Machine.csrAt_value env n m) f.flight
      f.retired (m.csrFile.value csrMepc)]
    exact congrArg _ (Window.retireAll_congr
      (show (Window.advance s.ex.ports { w with writes := w.writes ++ u.writes }).arch = w.arch from rfl) rfl
      _ _).2
  | flush h g =>
    rw [g.step_eq h (g.updated h hu), g.commit.csrRequests,
      ← h.retire_csrWrites hin (Machine.csrAt_value env n m) g.flight g.retired (m.csrFile.value csrMepc)]
    rfl
  | walk v h =>
    by_cases hpre : v.pre = []
    · obtain ⟨-, -, hwrites⟩ := v.trapEvent_ok (u := u) h hpre hin.arch hin.csr
      rw [v.step_last h (v.updated h hu) hpre, ← hwrites]
      exact programCsrWrites_snoc env w.events _
    · obtain ⟨pre', x, hpre'⟩ := (List.eq_nil_or_concat v.pre).resolve_left hpre
      rw [v.step_eq h (v.updated h hu) hpre,
        (v.commit.step pre' x (by rw [hpre', List.concat_eq_append])).2.2.2.1, List.append_nil]

theorem run_csrWrites (h : run env n = .ok (m, logs)) :
    logs.flatMap (·.csrWrites) = programCsrWrites env (Window.after env logs).events := by
  refine (run_induction (P := fun _ _ logs =>
    logs.flatMap (·.csrWrites) = programCsrWrites env (Window.after env logs).events)
    (fun _ _ _ => rfl) (fun n m logs s u hrun hP hcase hu => ?_) h).2
  rw [List.flatMap_append, List.flatMap_singleton, hP, Window.after_snoc, hcase.csrWrites (run_inOrder hrun) hu]

/-- Only CSR instructions and `mret` write CSRs. -/
theorem Computes.csrWrites_serial {b : Arch} {csr : Nat → Word} {e : Entry} {r : ExecuteWbPack}
    (h : Computes b csr e r) (hs : e.status = .finished r) (hw : retireCsrRequests file e ≠ []) :
    e.isSerial = true := by
  by_contra hser
  rw [Bool.not_eq_true, Entry.isSerial, Bool.or_eq_false_iff] at hser
  refine hw ?_
  have hno : r.csrNewvalueValid = false := by
    by_contra hv
    obtain ⟨hunit, -⟩ := h.result.csr_write (by simpa using hv)
    rw [archPack, packOf_info] at hunit
    simp [hunit] at hser
  simp [retireCsrRequests, hs, hno, hser.2]

/-- A result is that of a pack in a unit; a CSR instruction and an `mret` see the CSR file of the cycle. -/
theorem CycleCase.serial_results (h : CycleCase env n m w s) {r : ExecuteWbPack}
    (hr : r ∈ (s.log env n m u).results) (hen : r.enable = true) :
    ∃ p ∈ unitPacks m.unitFifos m.lsuHold, r.robId = p.robId ∧ r.toDecodeInfo = p.toDecodeInfo ∧
      (r.opUnit = .csr → r = Execute.csr (m.csrAt env n) p) ∧
      (r.op = .mret → r = Execute.bru (m.csrFile.value csrMepc) p) := by
  have hr : r ∈ s.ex.ports := hr
  -- a flush executes nothing
  have hnone (hst : FlushStages env n m s) : False := by
    rw [hst.ports] at hr
    rw [List.eq_of_mem_replicate hr] at hen
    cases hen
  cases h with
  | flush h g => exact (hnone g.stages).elim
  | walk v h => exact (hnone v.stages).elim
  | flow h f =>
    obtain ⟨p, hp⟩ := (f.execute.ports r).mp ⟨hr, hen⟩
    have hmem : p ∈ unitPacks m.unitFifos m.lsuHold :=
      f.execute.perm.mem_iff.mpr (List.mem_append_left _ (List.mem_map_of_mem hp))
    have hdone : DoneOk (m.csrAt env n) m.bus m.storeBuffer p r := f.execute.result _ hp
    have hsame := hdone.unitResult.sameOp
    refine ⟨p, hmem, hsame.robId, hsame.info, fun hunit => ?_, fun hop => ?_⟩
    · rw [hsame.info] at hunit
      rw [DoneOk, hunit] at hdone
      exact hdone
    · obtain ⟨pre, e, post, v1, v2, hf, -, -, rfl⟩ := h.loc.pack p hmem
      rw [hsame.info, packOf_info] at hop
      have hbru := ((h.flight pre e post hf).pack.mret_iff.mp hop).1
      rw [DoneOk, packOf_info, hbru] at hdone
      exact hdone

/-- What serialization means in the state after `n` cycles. -/
structure Serialized (env : Env) (n : Nat) (m : Machine) (logs : List CycleLog) : Prop where
  /-- A pack in a unit has no serial instruction before it in flight, and nothing at all if it is serial. -/
  sent : ∀ p ∈ unitPacks m.unitFifos m.lsuHold, ∃ pre e post,
    (Window.after env logs).flight = pre ++ e :: post ∧ p.robId = e.op.robId ∧
    p.toDecodeInfo = e.op.toDecodeInfo ∧ (∀ x ∈ pre, x.isSerial = false) ∧ (e.isSerial = true → pre = [])
  /-- What issue sends in the next cycle is such a pack after it. -/
  issued : ∀ m' log, cycle env n m = .ok (m', log) →
    ∀ p ∈ log.issued, p ∈ unitPacks m'.unitFifos m'.lsuHold
  /-- The CSR writes so far are those of the history, in program order. -/
  writes : logs.flatMap (·.csrWrites) = programCsrWrites env (Window.after env logs).events
  /-- Of the retired instructions only the serial ones write. -/
  writers : ∀ pre b mepc e post, (Window.after env logs).events = pre ++ .retire b mepc e :: post →
    Event.csrWrites (InOrder.after env pre).csr (.retire b mepc e) ≠ [] → e.isSerial = true
  /-- The CSRs that do not change by themselves have the values these writes leave. -/
  values : ∀ a, StableCsr a → m.csrFile.value a =
    csrAfter Csrfile.reset.value (programCsrWrites env (Window.after env logs).events) a
  /-- In a cycle the CSR file takes the writes of that cycle, `mip` and the counters. -/
  file : ∀ m' log, cycle env n m = .ok (m', log) → ∃ file mip,
    ((env.terminalDuring n).act (m.csrAt env n)).sync (log.csrWrites ++ [.writeSys csrMip mip]) = .ok file ∧
    file.sync (sysWrites m'.cpuClockCycle m'.rob.globalCommitNum m'.perf) = .ok m'.csrFile
  /-- A CSR instruction and an `mret` execute on the CSR file of the cycle. -/
  results : ∀ m' log, cycle env n m = .ok (m', log) → ∀ r ∈ log.results, r.enable = true →
    ∃ p ∈ unitPacks m.unitFifos m.lsuHold, r.robId = p.robId ∧ r.toDecodeInfo = p.toDecodeInfo ∧
      (r.opUnit = .csr → r = Execute.csr (m.csrAt env n) p) ∧
      (r.op = .mret → r = Execute.bru (m.csrFile.value csrMepc) p)

/-- CSR instructions and `mret` are executed one at a time, after all older instructions have retired and
before any younger one is sent. -/
theorem serialization (h : run env n = .ok (m, logs)) : Serialized env n m logs := by
  have href := run_refines h
  have hin := run_inOrder h
  refine ⟨fun p hp => ?_, fun m' log hc p hp => ?_, run_csrWrites h, fun pre b mepc e post hev hw => ?_,
    fun a ha => ?_, fun m' log hc => ?_, fun m' log hc r hr hen => ?_⟩
  · obtain href | ⟨j, href⟩ := href
    · obtain ⟨pre, e, post, v1, v2, hf, -, -, rfl⟩ := href.loc.pack p hp
      have hid : e.op.robId ∈ (unitPacks m.unitFifos m.lsuHold).map (·.robId) :=
        List.mem_map.mpr ⟨_, hp, packOf_robId ..⟩
      exact ⟨pre, e, post, hf, packOf_robId .., packOf_info ..,
        (run_dispatchOk h href.phase).alone pre e post hf hid,
        fun hser => href.serial.oldest pre e post hf hser (.inr hid)⟩
    · rw [href.unitPacks_nil] at hp
      exact absurd hp List.not_mem_nil
  · obtain ⟨s, u, hcase, -, rfl, rfl⟩ := href.cycle_ok hc
    exact hcase.issued_mem hp
  · obtain ⟨-, -, r, hs, -, hcomp⟩ := hin.events pre _ post hev
    exact hcomp.csrWrites_serial hs hw
  · rw [hin.csr a ha, InOrder.csr_after]
  · obtain ⟨s, u, -, hu, rfl, rfl⟩ := href.cycle_ok hc
    exact ⟨u.csrFile, _, hu.csrFile, hu.counted⟩
  · obtain ⟨s, u, hcase, -, rfl, rfl⟩ := href.cycle_ok hc
    exact hcase.serial_results hr hen

/-- `mscratch` is written and read back. -/
def csrWriteRead : List Word := [0x3402d073, 0x340020f3]

/-- When the read is sent, the write has been applied. -/
theorem serialization_csrWriteRead : ∃ m logs, run (Env.ofProgram csrWriteRead) 11 = .ok (m, logs) ∧
    (∃ p ∈ unitPacks m.unitFifos m.lsuHold, p.opUnit = .csr) ∧ m.csrFile.value csrMscratch = 5 ∧
    Serialized (Env.ofProgram csrWriteRead) 11 m logs := by
  obtain ⟨m, logs, h, hP⟩ := exists_run_of (show endsWith (fun m _ =>
    (unitPacks m.unitFifos m.lsuHold).any (fun p => p.opUnit == .csr) && m.csrFile.value csrMscratch == 5)
    (run (Env.ofProgram csrWriteRead) 11) = true by decide +kernel)
  obtain ⟨hany, hvalue⟩ := Bool.and_eq_true_iff.mp hP
  obtain ⟨p, hp, hunit⟩ := List.any_eq_true.mp hany
  exact ⟨m, logs, h, ⟨p, hp, eq_of_beq hunit⟩, eq_of_beq hvalue, serialization h⟩

end Csr

end MyRiscvCore
