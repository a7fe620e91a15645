import MyRiscvCore.Component.CsrFacts

/-!
# MyRiscvCore — a cycle in two halves

A cycle runs the stages and then applies what they queued. `Stages` is what the stages left and `Updates`
what became of the queued requests; `Stages.Ran` and `Stages.Synced` say so, call by call. A cycle answers
`Stages.machine` and `Stages.log` exactly when both hold (`cycle_ok_iff`), and otherwise with the error of
the first call that failed (`cycle_error_fetch`, `cycle_error_csr`).
-/

namespace MyRiscvCore

/-- The CSR file as the stages of cycle `n` read it. -/
def Machine.csrAt (env : Env) (n : Nat) (m : Machine) : Csrfile :=
  (env.terminalBefore n).act m.csrFile

/-- The interrupt lines of cycle `n`. -/
def Machine.interruptsAt (env : Env) (n : Nat) (m : Machine) : InterruptInterface :=
  m.bus.clint.runPre { m.interrupts with meip := env.meip n }

@[simp] theorem Terminal.act_value (t : Terminal) (c : Csrfile) : (t.act c).value = c.value := rfl

@[simp] theorem Machine.csrAt_value (env : Env) (n : Nat) (m : Machine) :
    (m.csrAt env n).value = m.csrFile.value := rfl

/-- The `mip` that `interrupt_interface::run` queues. -/
def InterruptInterface.mip (ii : InterruptInterface) (csr : Csrfile) : Word :=
  setbit 0x888 (setbit 0x888 (setbit 0x888 (csr.value csrMip) 11 ii.meip) 3 ii.msip) 7 ii.mtip

/-- The interface without its acknowledgements. -/
def InterruptInterface.unacked (ii : InterruptInterface) : InterruptInterface :=
  { ii with meiAck := false, msiAck := false, mtiAck := false }

theorem InterruptInterface.run_eq (ii : InterruptInterface) (csr : Csrfile) :
    ii.run csr = .ok (ii.unacked, [.writeSys csrMip (ii.mip csr)]) := rfl

/-! ## The halves

A cycle up to fetch, which may assert, and from fetch on. -/

/-- What the stages of a cycle leave. -/
structure Stages where
  cm : Commit.Ctx
  ex : Execute.Out
  is : Issue.Out
  readreg : List ReadregIssueOp
  rn : Rename.Out
  dc : (Fifo FetchDecodePack × Fifo DecodeRenamePack × PerfCounters) × Bool
  ft : Fetch.Ctx

/-- What the queued requests leave; `counted` is the CSR file with the counters of the cycle. -/
structure Updates where
  rat : Rat
  regfile : Regfile
  csrFile : Csrfile
  storeBuffer : StoreBuffer
  writes : List Bus.Request
  dropped : Bool
  bus : Bus
  counted : Csrfile

namespace Stages

variable (env : Env) (n : Nat) (m : Machine) (s : Stages) (u : Updates)

/-- The feedback channels of the cycle. -/
def channels : Channels :=
  (s.ex.ports.map (·.feedback)).zip (Wb.run m.executeWbPorts s.cm.fb).2.2

/-- The stages up to decode left `s`. -/
structure RanBack : Prop where
  commit : Commit.run (m.csrAt env n) (m.interruptsAt env n) m.wbCommitPort m.commit
    { m.rob with committed := false } m.checkpointBuffer m.predictor m.perf = .ok s.cm
  execute : Execute.run m.unitFifos m.lsuHold (m.csrAt env n) m.bus m.storeBuffer s.cm.predictor
    s.cm.checkpointBuffer s.cm.fb = .ok s.ex
  issue : Issue.run m.issue s.ex.fifos s.cm.perf m.readregIssuePort m.regfile m.storeBuffer.isEmpty
    (s.channels m) s.cm.fb = .ok s.is
  readreg : Readreg.run m.regfile (s.channels m) m.renameReadregPort m.readregIssuePort s.is.stall
    s.cm.fb = .ok s.readreg
  rename : Rename.run m.rat (env.uninit n) s.cm.checkpointBuffer m.decodeRenameFifo.resetPopStatus
    s.cm.rob s.is.perf m.renameReadregPort s.is.stall s.cm.fb = .ok s.rn
  decode : Decode.run m.fetchDecodeFifo.resetPopStatus s.rn.fifo s.rn.perf s.cm.fb = s.dc

/-- The call of fetch. -/
def fetchRun : Except Halt Fetch.Ctx :=
  Fetch.run m.bus m.storeBuffer (env.uninit n)
    { state := m.fetch, fifo := s.dc.1.1, checkpointBuffer := s.cm.checkpointBuffer
      predictor := s.ex.predictor, perf := s.dc.1.2.2 }
    s.dc.2 m.decodeRenameFifo.resetPopStatus.isEmpty s.cm.fb

/-- The stages left `s`. -/
structure Ran : Prop extends RanBack env n m s where
  fetch : s.fetchRun env n m = .ok s.ft

/-- The stages of a cycle are determined. -/
theorem RanBack.unique {env : Env} {n : Nat} {m : Machine} {s s' : Stages} (h : s.RanBack env n m)
    (h' : s'.RanBack env n m) : s' = { s with ft := s'.ft } := by
  obtain ⟨hcm, hex, his, hrr, hrn, hdc⟩ := h
  obtain ⟨hcm', hex', his', hrr', hrn', hdc'⟩ := h'
  cases s
  cases s'
  simp only [Stages.channels] at *
  obtain rfl := Except.ok.inj (hcm.symm.trans hcm')
  obtain rfl := Except.ok.inj (hex.symm.trans hex')
  obtain rfl := Except.ok.inj (his.symm.trans his')
  obtain rfl := Except.ok.inj (hrr.symm.trans hrr')
  obtain rfl := Except.ok.inj (hrn.symm.trans hrn')
  obtain rfl := hdc.symm.trans hdc'
  rfl

theorem RanBack.fetchRun_eq {env : Env} {n : Nat} {m : Machine} {s s' : Stages} (h : s.RanBack env n m)
    (h' : s'.RanBack env n m) : s'.fetchRun env n m = s.fetchRun env n m := by
  rw [h.unique h']
  rfl

theorem Ran.unique {env : Env} {n : Nat} {m : Machine} {s s' : Stages} (h : s.Ran env n m)
    (h' : s'.Ran env n m) : s' = s := by
  have hft := h'.fetch
  rw [h.toRanBack.fetchRun_eq h'.toRanBack, h.fetch] at hft
  rw [h.toRanBack.unique h'.toRanBack, ← Except.ok.inj hft]

/-- The CSR requests of the stages and of the interrupt interface. -/
def csrRequests : List Csrfile.Request :=
  s.cm.csrRequests ++ [.writeSys csrMip ((m.interruptsAt env n).mip (m.csrAt env n))]

/-- The CSR file that gets the requests. -/
def csrBefore : Csrfile := (env.terminalDuring n).act (m.csrAt env n)

/-- The queued requests left `u`. -/
structure Synced : Prop where
  rat : m.rat.sync (s.cm.ratRequests ++ s.rn.ratRequests) = .ok u.rat
  regfile : m.regfile.sync (s.cm.regRequests ++ (Wb.run m.executeWbPorts s.cm.fb).2.1) = .ok u.regfile
  csrFile : (csrBefore env n m).sync (s.csrRequests env n m) = .ok u.csrFile
  store : m.storeBuffer.run s.cm.fb = .ok (u.storeBuffer, u.writes, u.dropped)
  bus : Bus.sync { m.bus with clint := m.bus.clint.runPost } u.writes = .ok u.bus
  counted : u.csrFile.sync (sysWrites (m.cpuClockCycle + 1) s.rn.rob.globalCommitNum s.ft.perf) =
    .ok u.counted

/-- The machine after the cycle. -/
def machine : Machine where
  fetch := s.ft.state
  fetchDecodeFifo := s.ft.fifo
  decodeRenameFifo := s.dc.1.2.1
  renameReadregPort := s.rn.port
  readregIssuePort := s.readreg
  issue := s.is.state
  unitFifos := s.is.fifos
  lsuHold := s.ex.hold
  executeWbPorts := s.ex.ports
  wbCommitPort := (Wb.run m.executeWbPorts s.cm.fb).1
  commit := s.cm.state
  rat := u.rat
  rob := { s.rn.rob with fifo := s.rn.rob.fifo.sync s.cm.robRequests }
  regfile := u.regfile
  csrFile := u.counted
  bus := u.bus
  storeBuffer := u.storeBuffer.sync (if u.dropped then [] else s.ex.pushes)
  checkpointBuffer := s.ft.checkpointBuffer.sync (s.cm.cpRequests ++ s.rn.cpRequests)
  predictor := s.ft.predictor
  interrupts := (m.interruptsAt env n).unacked.sync s.cm.acks
  perf := s.ft.perf
  cpuClockCycle := m.cpuClockCycle + 1

/-- The log of the cycle. -/
def log : CycleLog where
  phaseBefore := m.commit.curState
  phaseAfter := s.cm.state.curState
  csrFile := m.csrAt env n
  fb := s.cm.fb
  retired := s.cm.retired
  results := s.ex.ports
  renamed := s.rn.renamed
  issued := s.is.issued
  stores := if u.dropped then [] else s.ex.pushes
  writes := u.writes
  csrWrites := s.cm.csrRequests

end Stages

/-- Apart from `mip` and the counters, the CSRs change by the requests of commit alone. -/
theorem Stages.Synced.value {env : Env} {n : Nat} {m : Machine} {s : Stages} {u : Updates}
    (h : s.Synced env n m u) {a : Nat} (hmip : a ≠ csrMip) (hcnt : a ∉ counterAddrs) :
    u.counted.value a =
      Renaming.mapAfter m.csrFile.value (s.cm.csrRequests.map fun r => (r.addr, r.stored)) a := by
  have hcounted : ∀ r ∈ sysWrites (m.cpuClockCycle + 1) s.rn.rob.globalCommitNum s.ft.perf,
      r.addr ≠ a := by
    rintro r hr rfl
    exact hcnt (sysWrites_addr_mem hr)
  rw [Csrfile.sync_value_of_notMem h.counted hcounted, Csrfile.sync_value h.csrFile,
    Stages.csrRequests, List.map_append, Renaming.mapAfter_append, Renaming.mapAfter_of_notMem]
  · rfl
  · intro x hx
    obtain rfl := List.mem_singleton.mp hx
    exact fun hx => hmip hx.symm

section Cycle

variable {env : Env} {n : Nat} {m m' : Machine} {log : CycleLog} {s : Stages} {u : Updates}

/-- A cycle, for stages that ran. -/
theorem cycle_eq (h : s.Ran env n m) : cycle env n m = (do
    let rat ← m.rat.sync (s.cm.ratRequests ++ s.rn.ratRequests)
    let regfile ← m.regfile.sync (s.cm.regRequests ++ (Wb.run m.executeWbPorts s.cm.fb).2.1)
    let csrFile ← (Stages.csrBefore env n m).sync (s.csrRequests env n m)
    let store ← m.storeBuffer.run s.cm.fb
    let bus ← Bus.sync { m.bus with clint := m.bus.clint.runPost } store.2.1
    let counted ← csrFile.sync
      (sysWrites (m.cpuClockCycle + 1) s.rn.rob.globalCommitNum s.ft.perf)
    let u : Updates := ⟨rat, regfile, csrFile, store.1, store.2.1, store.2.2, bus, counted⟩
    return (s.machine env n m u, s.log env n m u)) := by
  obtain ⟨⟨hcm, hex, his, hrr, hrn, hdc⟩, hft⟩ := h
  unfold cycle
  simp only [Machine.csrAt, Machine.interruptsAt, Stages.channels, Stages.fetchRun] at *
  simp only [hcm, hex, his, hrr, hrn, hdc, hft, InterruptInterface.run_eq, bind, Except.bind,
    Stages.csrBefore, Stages.csrRequests, Stages.machine, Stages.log, Machine.csrAt,
    Machine.interruptsAt]

/-- A cycle answers exactly when its stages ran and its requests were applied. -/
theorem cycle_ok_iff : cycle env n m = .ok (m', log) ↔
    ∃ (s : Stages) (u : Updates), s.Ran env n m ∧ s.Synced env n m u ∧
      m' = s.machine env n m u ∧ log = s.log env n m u := by
  constructor
  · intro h
    unfold cycle at h
    simp only [bind_eq_ok] at h
    obtain ⟨cm, hcm, ex, hex, is, his, rr, hrr, rn, hrn, ft, hft, ii, hii, h⟩ := h
    have hran : Stages.Ran env n m ⟨cm, ex, is, rr, rn, _, ft⟩ := ⟨⟨hcm, hex, his, hrr, hrn, rfl⟩, hft⟩
    cases hii
    obtain ⟨rat, hrat, reg, hreg, csr, hcsr, sb, hsb, bus, hbus, counted, hcounted, h⟩ := h
    cases h
    exact ⟨_, ⟨rat, reg, csr, sb.1, sb.2.1, sb.2.2, bus, counted⟩, hran,
      ⟨hrat, hreg, hcsr, hsb, hbus, hcounted⟩, rfl, rfl⟩
  · rintro ⟨s, u, hran, hu, rfl, rfl⟩
    rw [cycle_eq hran, hu.rat, hu.regfile, hu.csrFile, hu.store]
    simp only [bind, Except.bind, hu.bus, hu.counted]
    rfl

/-- A cycle whose fetch fails. -/
theorem cycle_error_fetch {err : Halt} (h : s.RanBack env n m)
    (hft : s.fetchRun env n m = .error err) : cycle env n m = .error err := by
  obtain ⟨hcm, hex, his, hrr, hrn, hdc⟩ := h
  unfold cycle
  simp only [Machine.csrAt, Machine.interruptsAt, Stages.channels, Stages.fetchRun] at *
  simp only [hcm, hex, his, hrr, hrn, hdc, hft, bind, Except.bind]

/-- A cycle whose CSR requests fail. -/
theorem cycle_error_csr {err : Halt} {rat : Rat} {regfile : Regfile} (h : s.Ran env n m)
    (hrat : m.rat.sync (s.cm.ratRequests ++ s.rn.ratRequests) = .ok rat)
    (hreg : m.regfile.sync (s.cm.regRequests ++ (Wb.run m.executeWbPorts s.cm.fb).2.1) = .ok regfile)
    (hcsr : (Stages.csrBefore env n m).sync (s.csrRequests env n m) = .error err) :
    cycle env n m = .error err := by
  rw [cycle_eq h, hrat, hreg, hcsr]
  rfl

end Cycle

end MyRiscvCore
