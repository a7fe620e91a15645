import MyRiscvCore.Refine.FlowStep

/-!
# MyRiscvCore — a cycle with a flush

In a cycle in which commit flushes, every other stage drops what it holds (`FlushStages`). Commit flushes
for a mispredicted jump, which leaves an empty window (`Normal.miss`), for an exception or interrupt, which
starts a walk (`Normal.trap`), and in every cycle of a walk.
-/

namespace MyRiscvCore

open Renaming (mapAfter live)

/-- Where fetch goes on after a flush. -/
def CommitFeedbackPack.flushPc (fb : CommitFeedbackPack) (pc : Word) : Word :=
  if fb.hasException then fb.exceptionPc else if fb.jumpEnable then fb.nextPc else pc

/-- What the stages of a cycle with a flush leave. -/
structure FlushStages (env : Env) (n : Nat) (m : Machine) (s : Stages) : Prop where
  ran : s.Ran env n m
  flushing : s.cm.fb.flushing = true
  hold : s.ex.hold = none
  ports : s.ex.ports = List.replicate executeUnitNum default
  pushes : s.ex.pushes = []
  issue : s.is = ⟨{ m.issue with issueQ := m.issue.issueQ.flush, busy := false, isInstWaiting := false },
    fun unit i => (m.unitFifos unit i).flush, s.cm.perf, false, []⟩
  readreg : s.readreg = Rename.slots []
  rename : s.rn = ⟨m.decodeRenameFifo.resetPopStatus, s.cm.rob, s.cm.perf, Rename.slots [], [], [], []⟩
  decode : s.dc.1 = (m.fetchDecodeFifo.resetPopStatus, m.decodeRenameFifo.resetPopStatus.flush, s.cm.perf)
  fetch : s.ft = {
    state := { m.fetch with jumpWait := false, pc := s.cm.fb.flushPc m.fetch.pc }
    fifo := m.fetchDecodeFifo.resetPopStatus.flush
    checkpointBuffer := s.cm.checkpointBuffer
    predictor := s.ex.predictor
    perf := s.cm.perf }

section Stages

variable {env : Env} {n : Nat} {m : Machine} {s : Stages}

/-- A commit that flushes is followed by the other stages, each of which drops what it holds. -/
theorem exists_flushStages {cm : Commit.Ctx}
    (hrun : Commit.run (m.csrAt env n) (m.interruptsAt env n) m.wbCommitPort m.commit
      { m.rob with committed := false } m.checkpointBuffer m.predictor m.perf = .ok cm)
    (hfb : cm.fb.flushing = true) (hfirst : m.fetch.waitFirstMemoryResult = false) :
    ∃ s, s.cm = cm ∧ FlushStages env n m s := by
  have hex := execute_flush_spec m.unitFifos m.lsuHold (m.csrAt env n) m.bus m.storeBuffer
    cm.predictor cm.checkpointBuffer hfb
  -- every stage drops what it holds
  refine ⟨{
    cm := cm
    ex := ⟨m.unitFifos, none, List.replicate executeUnitNum default, [], cm.predictor⟩
    is := ⟨{ m.issue with issueQ := m.issue.issueQ.flush, busy := false, isInstWaiting := false },
      fun unit i => (m.unitFifos unit i).flush, cm.perf, false, []⟩
    readreg := Rename.slots []
    rn := ⟨m.decodeRenameFifo.resetPopStatus, cm.rob, cm.perf, Rename.slots [], [], [], []⟩
    dc := ((m.fetchDecodeFifo.resetPopStatus, m.decodeRenameFifo.resetPopStatus.flush, cm.perf),
      m.fetchDecodeFifo.resetPopStatus.isEmpty)
    ft := {
      state := { m.fetch with jumpWait := false, pc := cm.fb.flushPc m.fetch.pc }
      fifo := m.fetchDecodeFifo.resetPopStatus.flush
      checkpointBuffer := cm.checkpointBuffer
      predictor := cm.predictor
      perf := cm.perf } }, rfl, ⟨⟨hrun, hex, ?_, ?_, ?_, ?_⟩, ?_⟩, hfb, rfl, rfl, rfl, rfl, rfl, rfl, rfl,
      rfl⟩
  · simp only [Issue.run, hfb]
    rfl
  · simp only [Readreg.run, hfb]
    rfl
  · simp only [Rename.run, hfb]
    rfl
  · simp only [Decode.run, hfb]
    rfl
  · simp only [Stages.fetchRun, Fetch.run, hfb, hfirst]
    rfl

end Stages

namespace FlushStages

variable {env : Env} {n : Nat} {m : Machine} {s : Stages} {u : Updates}

/-- Queues keep their form in a flush. -/
theorem shape (f : FlushStages env n m s) (h : Shape m) (u : Updates) :
    Shape (s.machine env n m u) := by
  constructor
  case fetchDecode =>
    simp only [Stages.machine, f.fetch]
    exact (h.fetchDecode.resetPopStatus h.fetchDecodeSave).wf.flush
  case fetchDecodeSave =>
    simp only [Stages.machine, f.fetch]
    exact h.fetchDecodeSave
  case decodeRename =>
    simp only [Stages.machine, f.decode]
    exact (h.decodeRename.resetPopStatus h.decodeRenameSave).wf.flush
  case decodeRenameSave =>
    simp only [Stages.machine, f.decode]
    exact h.decodeRenameSave
  case queue =>
    simp only [Stages.machine, f.issue]
    exact h.queue.flush
  case queueSave =>
    simp only [Stages.machine, f.issue]
    exact h.queueSave
  case unit =>
    simp only [Stages.machine, f.issue]
    exact fun u i => (h.unit u i).flush
  case unitSave =>
    simp only [Stages.machine, f.issue]
    exact h.unitSave
  case unitSize =>
    simp only [Stages.machine, f.issue]
    exact h.unitSize
  case unitOp =>
    simp only [Stages.machine, f.issue, Fifo.toList_flush]
    exact fun _ _ _ hp => absurd hp List.not_mem_nil
  case unitIndex =>
    simp only [Stages.machine, f.issue]
    exact h.unitIndex
  case holdOp =>
    simp only [Stages.machine, f.hold]
    exact fun _ hp => by cases hp
  case ports =>
    simp only [Stages.machine, f.ports, List.length_replicate]

/-- Nothing is left between fetch and the units. -/
theorem drained (f : FlushStages env n m s) (u : Updates) :
    (s.machine env n m u).decodeRenameFifo.toList = [] ∧
      (s.machine env n m u).fetchDecodeFifo.toList = [] ∧
      (s.machine env n m u).issue.issueQ.toList = [] ∧
      (∀ v i, ((s.machine env n m u).unitFifos v i).toList = []) ∧
      (s.machine env n m u).lsuHold = none ∧ (s.machine env n m u).issue.busy = false := by
  simp only [Stages.machine, f.fetch, f.decode, f.issue, f.hold, Fifo.toList_flush]
  exact ⟨trivial, trivial, trivial, fun _ _ => trivial, trivial, trivial⟩

/-- The slots of an empty port are disabled. -/
theorem enable_slots {α : Type} [Inhabited α] {enable : α → Bool} (h : enable default = false) :
    ∀ o ∈ Rename.slots ([] : List α), enable o = false := by
  intro o ho
  rw [Rename.slots, List.nil_append] at ho
  rw [List.eq_of_mem_replicate ho, h]

/-- Nothing is left on the ports. -/
theorem idle (f : FlushStages env n m s) (u : Updates) :
    (∀ o ∈ (s.machine env n m u).renameReadregPort, o.enable = false) ∧
      (∀ o ∈ (s.machine env n m u).readregIssuePort, o.enable = false) ∧
      (∀ r ∈ (s.machine env n m u).executeWbPorts, r.enable = false) ∧
      ∀ r ∈ (s.machine env n m u).wbCommitPort, r.enable = false := by
  refine ⟨?_, ?_, fun r hr => ?_, fun r hr => ?_⟩
  · simp only [Stages.machine, f.rename]
    exact enable_slots rfl
  · simp only [Stages.machine, f.readreg]
    exact enable_slots rfl
  · simp only [Stages.machine, f.ports] at hr
    rw [List.eq_of_mem_replicate hr]
    rfl
  · simp only [Stages.machine, Wb.run, f.flushing, Bool.not_true, Bool.false_eq_true, if_false] at hr
    obtain ⟨x, -, rfl⟩ := List.mem_map.mp hr
    rfl

end FlushStages

/-! ## An empty window

After a flush that drops everything the relation holds of an empty window, whatever the components still contain. -/

theorem FlightOk.nil {C : Nat → Nat} {regs : Nat → Word} : FlightOk C regs [] :=
  fun pre e post hf => absurd hf (by simp)

theorem LocOk.nil {regs : Nat → Word} : LocOk regs [] [] [] [] [] where
  conserved := by simp
  pack := by simp
  item := by simp
  op := by simp
  lsu := by simp
  lsuFirst := by simp

theorem CpOk.nil {q : Fifo Checkpoint} {C : Nat → Nat} (hwf : q.WF) (hsave : q.popStatusSave = false) :
    CpOk q C [] [] where
  wf := hwf
  save := hsave
  suffix := List.nil_suffix
  item := by simp

/-- Flushing the reorder buffer. -/
theorem RobOk.flush {q : Fifo RobItem} {C : Nat → Nat} {flight : List Entry} (h : RobOk q C flight)
    (C' : Nat → Nat) : RobOk q.flush C' [] where
  wf := h.wf.flush
  size := h.size
  save := h.save
  ids := by simp
  item := by simp

/-- The pops of a cycle find a flushed buffer empty. -/
theorem Fifo.flush_sync_pop {α : Type} (q : Fifo α) (k : Nat) :
    q.flush.sync (List.replicate k .pop) = q.flush := by
  induction k with
  | zero => rfl
  | succ k ih =>
    rw [List.replicate_succ]
    exact ih

/-- A machine that holds no instruction represents an empty window. -/
theorem Normal.empty {m : Machine} {w : Window} (hflight : w.flight = [])
    (hphase : m.commit.curState = .normal) (hshape : Shape m)
    (hdrained : m.decodeRenameFifo.toList = [] ∧ m.fetchDecodeFifo.toList = [] ∧
      m.issue.issueQ.toList = [] ∧ (∀ u i, (m.unitFifos u i).toList = []) ∧ m.lsuHold = none ∧
      m.issue.busy = false)
    (hidle : (∀ o ∈ m.renameReadregPort, o.enable = false) ∧
      (∀ o ∈ m.readregIssuePort, o.enable = false) ∧ (∀ r ∈ m.executeWbPorts, r.enable = false) ∧
      ∀ r ∈ m.wbCommitPort, r.enable = false)
    (hrob : RobOk m.rob.fifo w.cmap []) (hrat : RatOk m.rat w.cmap [])
    (hreg : RegOk m.regfile w.cmap w.arch.regs []) (hstore : StoreOk m.storeBuffer m.bus.memory w)
    (hfetch : m.fetch.pc = w.arch.pc ∧ m.fetch.jumpWait = false)
    (hcp : m.checkpointBuffer.WF ∧ m.checkpointBuffer.popStatusSave = false) : Normal m w := by
  obtain ⟨hdr, hfd, hq, hunit, hhold, -⟩ := hdrained
  obtain ⟨hrr, hri, hex, hwb⟩ := hidle
  -- nothing waits anywhere
  have hunits : unitPacks m.unitFifos m.lsuHold = [] := by
    simp only [unitPacks, hhold, hunit]
    rfl
  have hqueued : queuedItems m = [] := by
    rw [queuedItems, hq, untaken, List.nil_append, List.filter_eq_nil_iff]
    intro o ho
    rw [hri o (List.mem_of_mem_drop ho)]
    exact Bool.false_ne_true
  have hlsu : lsuPacks m = [] := by
    rw [lsuPacks, hhold, hunit]
    rfl
  have hren : m.renameReadregPort.filter (·.enable) = [] := by
    rw [List.filter_eq_nil_iff]
    intro o ho
    rw [hrr o ho]
    exact Bool.false_ne_true
  have hfront : frontPacks m = [] := by
    rw [frontPacks, hdr, hfd]
    rfl
  have hport {ports : List ExecuteWbPack} (hp : ∀ r ∈ ports, r.enable = false) (st : ExecuteWbPack → Status)
      (r : ExecuteWbPack) : (r ∈ ports ∧ r.enable = true) ↔ ∃ e ∈ ([] : List Entry), e.status = st r := by
    constructor
    · rintro ⟨hr, hen⟩
      rw [hp r hr] at hen
      cases hen
    · rintro ⟨e, he, -⟩
      exact absurd he List.not_mem_nil
  constructor
  case phase => exact hphase
  case shape => exact hshape
  case rob => rwa [hflight]
  case rat => rwa [hflight]
  case reg => rwa [hflight]
  case flight =>
    rw [hflight]
    exact FlightOk.nil
  case loc =>
    rw [hflight, hunits, hlsu, hqueued, hren]
    exact LocOk.nil
  case awake =>
    rw [hq]
    exact fun i hi => absurd hi List.not_mem_nil
  case port =>
    rw [hflight]
    exact ⟨hport hex .executed, hport hwb .written⟩
  case serial =>
    rw [hflight]
    exact ⟨fun pre e post hf => absurd hf (by simp), fun e he => absurd he List.not_mem_nil,
      fun e he => absurd he List.not_mem_nil⟩
  case store => exact hstore
  case front =>
    rw [hdr, hfd]
    exact ⟨fun x hx => absurd hx List.not_mem_nil, fun x hx => absurd hx List.not_mem_nil⟩
  case path =>
    rw [hflight, hfront]
    exact hfetch
  case cp =>
    rw [hflight, hfront]
    exact CpOk.nil hcp.1 hcp.2
  case first => exact fun _ => hflight

/-- The checkpoint buffer is as commit leaves it. -/
theorem FlushStages.checkpointBuffer_eq {env : Env} {n : Nat} {m : Machine} {s : Stages} {u : Updates}
    (f : FlushStages env n m s) (hcpr : s.cm.cpRequests = []) :
    (s.machine env n m u).checkpointBuffer = s.cm.checkpointBuffer := by
  show s.ft.checkpointBuffer.sync (s.cm.cpRequests ++ s.rn.cpRequests) = _
  rw [f.fetch, hcpr, f.rename]
  rfl

/-- After a flush that leaves the reorder buffer empty, the relation holds of an empty window. -/
theorem FlushStages.normal {env : Env} {n : Nat} {m : Machine} {s : Stages} {u : Updates} {w : Window}
    (f : FlushStages env n m s) (hshape : Shape m) (hflight : w.flight = [])
    (hphase : s.cm.state.curState = .normal)
    (hrob : RobOk (s.machine env n m u).rob.fifo w.cmap []) (hrat : RatOk u.rat w.cmap [])
    (hreg : RegOk u.regfile w.cmap w.arch.regs [])
    (hstore : StoreOk (s.machine env n m u).storeBuffer u.bus.memory w)
    (hpc : s.cm.fb.flushPc m.fetch.pc = w.arch.pc)
    (hcp : s.cm.checkpointBuffer.WF ∧ s.cm.checkpointBuffer.popStatusSave = false)
    (hcpr : s.cm.cpRequests = []) : Normal (s.machine env n m u) w := by
  refine Normal.empty hflight hphase (f.shape hshape u) (f.drained u) (f.idle u) hrob hrat hreg hstore ?_
    (by rwa [f.checkpointBuffer_eq hcpr])
  show s.ft.state.pc = w.arch.pc ∧ s.ft.state.jumpWait = false
  rw [f.fetch]
  exact ⟨hpc, rfl⟩

/-- Whether an interrupt is enabled depends on two CSRs. -/
theorem interruptEnabled_congr {v v' : Nat → Word} {cause : RiscvInterrupt}
    (hstatus : v csrMstatus = v' csrMstatus) (hmie : v csrMie = v' csrMie) :
    InterruptEnabled v cause = InterruptEnabled v' cause := by
  cases cause <;> simp only [InterruptEnabled, hstatus, hmie]

/-- Only an enabled interrupt is taken. -/
theorem InterruptInterface.getCause_enabled {ii : InterruptInterface} {csr : Csrfile}
    {cause : RiscvInterrupt} (h : ii.getCause csr = .ok (some cause)) :
    InterruptEnabled csr.value cause = true := by
  have heq : ii.getCause csr = if !getMie (csr.value csrMstatus) then .ok none
      else if ii.meip && getMeie (csr.value csrMie) then .ok (some .machineExternal)
      else if ii.msip && getMsie (csr.value csrMie) then .ok (some .machineSoftware)
      else if ii.mtip && getMtie (csr.value csrMie) then .ok (some .machineTimer)
      else .ok none := rfl
  rw [heq] at h
  split_ifs at h <;> cases h <;> simp_all [InterruptEnabled]

/-! ## A flush in the normal state

A mispredict drops the younger instructions at once; a trap keeps them for the walk. -/

/-- A cycle in the normal state in which commit flushes: `ret` retired and `rest` did not. -/
structure NormalFlush (env : Env) (n : Nat) (m : Machine) (w : Window) (s : Stages) where
  ret : List Entry
  rest : List Entry
  stop : Stop
  stages : FlushStages env n m s
  flight : w.flight = ret ++ rest
  commit : CommitSpec (m.csrAt env n) (m.interruptsAt env n) m.rob.fifo m.checkpointBuffer w.cmap
    m.wbCommitPort m.perf s.cm ret rest stop
  flushes : stop.flows = false

section Exists

variable {env : Env} {n : Nat} {m : Machine} {w : Window} {cm : Commit.Ctx} {ret rest : List Entry}
  {stop : Stop}

/-- There is no flush without an instruction in flight. -/
theorem CommitSpec.flight_ne {csr : Csrfile} {ii : InterruptInterface} {q : Fifo RobItem}
    {cpb : Fifo Checkpoint} {C : Nat → Nat} {port : List ExecuteWbPack} {perf : PerfCounters}
    (h : CommitSpec csr ii q cpb C port perf cm ret rest stop) (hst : stop.flows = false) :
    ret ++ rest ≠ [] := by
  intro hnil
  have hfl := h.flushing
  rw [hst, CommitFeedbackPack.flushing, h.enable, hnil] at hfl
  cases hfl

/-- The stages of such a cycle. -/
theorem Normal.normalFlush (h : Normal m w)
    (hrun : Commit.run (m.csrAt env n) (m.interruptsAt env n) m.wbCommitPort m.commit
      { m.rob with committed := false } m.checkpointBuffer m.predictor m.perf = .ok cm)
    (hflight : w.flight = ret ++ rest)
    (hcm : CommitSpec (m.csrAt env n) (m.interruptsAt env n) m.rob.fifo m.checkpointBuffer w.cmap
      m.wbCommitPort m.perf cm ret rest stop) (hst : stop.flows = false) :
    ∃ s, Nonempty (NormalFlush env n m w s) := by
  have hfirst : m.fetch.waitFirstMemoryResult = false := by
    rw [← Bool.not_eq_true]
    intro hf
    exact hcm.flight_ne hst (hflight.symm.trans (h.first hf))
  obtain ⟨s, rfl, hs⟩ := exists_flushStages hrun (by rw [hcm.flushing, hst]; rfl) hfirst
  exact ⟨s, ⟨ret, rest, stop, hs, hflight, hcm, hst⟩⟩

end Exists

namespace NormalFlush

variable {env : Env} {n : Nat} {m : Machine} {w : Window} {s : Stages} {u : Updates}

variable (g : NormalFlush env n m w s)

include g

/-- What stays in the reorder buffer: a mispredict empties it at once, a trap walks it back. -/
def kept (g : NormalFlush env n m w s) : List Entry :=
  if g.stop = .miss then [] else g.rest

/-- What is kept was in flight. -/
theorem mem_kept {e : Entry} (he : e ∈ g.kept) : e ∈ w.flight := by
  rw [g.flight]
  unfold kept at he
  split at he
  · exact absurd he List.not_mem_nil
  · exact List.mem_append_right _ he

theorem retired : Retired g.ret := g.commit.finished

/-- Only a jump that retires can have been mispredicted. -/
theorem not_miss (hret : g.ret = []) : g.stop ≠ .miss := by
  intro hst
  obtain ⟨_, _, hlast, -⟩ := g.commit.jump (.inr hst)
  have hnil := hlast.last
  rw [hret] at hnil
  cases hnil

/-- The alias table, restored from the checkpoint or as it was. -/
theorem rat_sync (h : Normal m w) :
    ∃ rat, m.rat.sync (s.cm.ratRequests ++ s.rn.ratRequests) = .ok rat ∧
      RatOk rat (mapAt w.cmap g.ret) (renamings g.kept) := by
  have hrat := h.rat
  rw [g.flight] at hrat
  obtain ⟨r₁, h₁, hr₁⟩ := hrat.sync_retire
  obtain ⟨cps, hnil, hcp, hreq, -⟩ := g.commit.restored
  rw [g.stages.rename, List.append_nil, hreq, Rat.sync_append, h₁, kept]
  by_cases hst : g.stop = .miss
  · obtain ⟨cp, rfl, hclean⟩ := hcp hst
    rw [if_pos hst]
    exact ⟨r₁.restore cp, rfl, hr₁.restore_ok hclean.valid_iff hclean.visible_iff⟩
  · rw [if_neg hst, hnil hst]
    exact ⟨r₁, rfl, hr₁⟩

/-- The register file. -/
theorem regfile_sync (h : Normal m w) :
    ∃ regfile, m.regfile.sync (s.cm.regRequests ++ (Wb.run m.executeWbPorts s.cm.fb).2.1) =
        .ok regfile ∧
      RegOk regfile (mapAt w.cmap g.ret) (regsAfter w.arch.regs g.ret) g.kept := by
  have hreg := h.reg
  have hok := h.rat.ok
  have hb := h.rat.bound
  rw [g.flight] at hreg hok hb
  obtain ⟨f₁, h₁, hf₁⟩ := hreg.sync_retire hok hb g.retired
  obtain ⟨cps, hnil, hcp, -, hreq⟩ := g.commit.restored
  have hwb : (Wb.run m.executeWbPorts s.cm.fb).2.1 = [] := by simp [Wb.run, g.stages.flushing]
  rw [hwb, List.append_nil, hreq, Regfile.sync_append, h₁, kept]
  by_cases hst : g.stop = .miss
  · obtain ⟨cp, rfl, hclean⟩ := hcp hst
    rw [if_pos hst]
    refine ⟨f₁.restore cp, rfl, hf₁.restore hclean fun a ha => hb _ ((live_retire hok).2 ?_)⟩
    exact Renaming.mem_live.mpr (.inl ⟨a, ha, rfl⟩)
  · rw [if_neg hst, hnil hst]
    exact ⟨f₁, rfl, hf₁⟩

theorem csr_known (h : Normal m w) :
    ∀ r ∈ s.csrRequests env n m, r.Known := by
  intro r hr
  rw [Stages.csrRequests, g.commit.csrRequests, List.mem_append] at hr
  have hfl := h.flight
  rw [g.flight] at hfl
  obtain hr | hr := hr
  · exact hfl.csr_known _ r hr
  · obtain rfl := List.mem_singleton.mp hr
    rfl

/-- The store buffer keeps the stores that have retired. -/
theorem store_sync (h : Normal m w) (mepc : Word) :
    ∃ q, m.storeBuffer.run s.cm.fb = .ok (q, [], true) ∧
      StoreOk q m.bus.memory { w.retireAll mepc g.ret with flight := [] } := by
  obtain ⟨extra, hids, hextra, hhead⟩ := g.commit.committed
  refine h.store.flushed g.flight g.retired h.flight h.nodup g.stages.flushing hids (fun e he hid => ?_)
    mepc
  by_cases hst : g.stop = .exception
  · -- the excepting instruction is marked as well, but it has put no store into the buffer
    obtain ⟨x, rest', r, hrest, hs, hex, -⟩ := g.commit.exception hst
    have hx := hhead _ hid
    rw [hrest, List.map_cons, List.head?_cons, Option.some.injEq] at hx
    have hmem {y : Entry} (hy : y ∈ g.rest) : y ∈ w.flight := by
      rw [g.flight]
      exact List.mem_append_right _ hy
    obtain rfl := h.rob.eq_of_robId_eq (hmem (by rw [hrest]; simp)) (hmem he) hx
    simp [Entry.storeItem?, Entry.result, hs, hex]
  · rw [hextra hst] at hid
    exact absurd hid List.not_mem_nil

/-- What the queued requests leave. -/
structure Updated (g : NormalFlush env n m w s) (u : Updates) : Prop where
  synced : s.Synced env n m u
  rat : RatOk u.rat (mapAt w.cmap g.ret) (renamings g.kept)
  reg : RegOk u.regfile (mapAt w.cmap g.ret) (regsAfter w.arch.regs g.ret) g.kept
  dropped : u.dropped = true
  writes : u.writes = []
  store : StoreOk u.storeBuffer u.bus.memory
    { w.retireAll (m.csrFile.value csrMepc) g.ret with flight := [] }

/-- The components after the cycle. -/
theorem updated (h : Normal m w) (hu : s.Synced env n m u) :
    g.Updated u := by
  obtain ⟨rat, h₁, hrat⟩ := g.rat_sync h
  obtain ⟨regfile, h₂, hreg⟩ := g.regfile_sync h
  obtain ⟨q, h₃, hstore⟩ := g.store_sync h (m.csrFile.value csrMepc)
  obtain ⟨rat', regfile', csrFile', q', writes', dropped', bus', counted'⟩ := u
  cases h₁.symm.trans hu.rat
  cases h₂.symm.trans hu.regfile
  cases h₃.symm.trans hu.store
  have hbus : bus' = { m.bus with clint := m.bus.clint.runPost } := by
    cases hu.bus
    rfl
  subst hbus
  exact ⟨hu, hrat, hreg, rfl, rfl, hstore⟩

/-- The only abort is that of a write to the terminal FIFO. -/
theorem exists_synced (h : Normal m w) :
    (∃ u, s.Synced env n m u) ∨
      (Stages.csrBefore env n m).sync (s.csrRequests env n m) = .error .charfifo ∧
        cycle env n m = .error .charfifo := by
  obtain ⟨rat, h₁, -⟩ := g.rat_sync h
  obtain ⟨regfile, h₂, -⟩ := g.regfile_sync h
  obtain ⟨q, h₃, -⟩ := g.store_sync h 0
  obtain ⟨csr, h₅⟩ | h₅ := (Stages.csrBefore env n m).sync_cases (g.csr_known h)
  · obtain ⟨counted, h₆⟩ := sysWrites_ok csr (m.cpuClockCycle + 1) s.rn.rob.globalCommitNum s.ft.perf
    exact .inl ⟨⟨rat, regfile, csr, q, [], true, _, counted⟩, h₁, h₂, h₅, h₃, rfl, h₆⟩
  · exact .inr ⟨h₅, cycle_error_csr g.stages.ran h₁ h₂ h₅⟩

/-- The window after the cycle. -/
def window (g : NormalFlush env n m w s) : Window :=
  { w.retireAll (m.csrFile.value csrMepc) g.ret with flight := g.kept }

/-- The observer sees the same flush. -/
theorem step_eq (h : Normal m w) (hu : g.Updated u) :
    w.step (s.log env n m u) = g.window := by
  have hphase : (s.log env n m u).phaseBefore = .normal := h.phase
  have hfb : (s.log env n m u).fb.flushing = true := g.stages.flushing
  have hafter : (s.log env n m u).phaseAfter = .normal ↔ g.stop = .miss := by
    have hst := g.flushes
    rw [show (s.log env n m u).phaseAfter = s.cm.state.curState from rfl, g.commit.phase]
    cases hstop : g.stop <;> simp_all [Stop.flows]
  have htake : w.flight.take s.cm.retired.length = g.ret := by
    rw [g.flight, g.commit.retired, length_retiredItems, List.take_left' rfl]
  have hw : { w with writes := w.writes ++ (s.log env n m u).writes } = w := by
    rw [show (s.log env n m u).writes = u.writes from rfl, hu.writes, List.append_nil]
  have hret : w.retireN ((s.log env n m u).csrFile.value csrMepc) (s.log env n m u).retired.length =
      w.retireAll (m.csrFile.value csrMepc) g.ret := by
    rw [Window.retireN, show (s.log env n m u).retired = s.cm.retired from rfl, htake]
    rfl
  unfold Window.step
  simp only [hphase, hfb, if_true, hw, hret, window, kept]
  by_cases hst : g.stop = .miss
  · rw [if_pos hst, if_pos (hafter.mpr hst)]
  · rw [if_neg hst, if_neg fun hn => hst (hafter.mp hn)]
    exact congrArg (fun fl => { w.retireAll _ g.ret with flight := fl })
      (Window.flight_retireAll g.flight)

/-- The reorder buffer holds what is kept. -/
theorem rob_kept (h : Normal m w) (u : Updates) :
    RobOk (s.machine env n m u).rob.fifo (mapAt w.cmap g.ret) g.kept := by
  show RobOk (s.rn.rob.fifo.sync s.cm.robRequests) _ _
  rw [g.stages.rename, g.commit.robRequests, g.flushes, if_neg Bool.false_ne_true, List.append_nil,
    g.commit.rob, kept]
  have hrob := h.rob
  by_cases hst : g.stop = .miss
  · rw [if_pos hst, if_pos hst, Fifo.flush_sync_pop]
    exact hrob.flush _
  · rw [if_neg hst, if_neg hst]
    rw [g.flight] at hrob
    exact hrob.sync_pop

theorem storeBuffer_eq (hu : g.Updated u) :
    (s.machine env n m u).storeBuffer = u.storeBuffer := by
  show u.storeBuffer.sync (if u.dropped then [] else s.ex.pushes) = u.storeBuffer
  rw [hu.dropped]
  rfl

theorem checkpointBuffer_eq : (s.machine env n m u).checkpointBuffer =
    if g.stop = .miss then m.checkpointBuffer.flush else m.checkpointBuffer := by
  have hhit : g.stop ≠ .hit := by
    intro hhit
    exact absurd g.flushes (by rw [hhit]; decide)
  rw [g.stages.checkpointBuffer_eq (by rw [g.commit.cpRequests, if_neg hhit]), g.commit.cpb]

theorem flight_retired (h : Normal m w) :
    FlightOk w.cmap w.arch.regs (g.ret ++ g.rest) := by
  rw [← g.flight]
  exact h.flight

theorem mret_retired (h : Normal m w) :
    ∀ e ∈ g.ret, e.op.op = .mret → ∀ r, e.result = some r → r.bruNextPc = m.csrFile.value csrMepc :=
  fun e he => h.serial.mret e (by rw [g.flight]; exact List.mem_append_left _ he)

/-- A mispredicted jump leaves an empty window at its architectural successor. -/
theorem miss (h : Normal m w) (hu : s.Synced env n m u)
    (hst : g.stop = .miss) : Normal (s.machine env n m u) (w.step (s.log env n m u)) := by
  have hup := g.updated h hu
  -- a mispredict keeps nothing
  have hkept : g.kept = [] := if_pos hst
  rw [g.step_eq h hup]
  have hcmap : g.window.cmap = mapAt w.cmap g.ret := Window.cmap_retireAll
  have hregs : g.window.arch.regs = regsAfter w.arch.regs g.ret := Window.regs_retireAll
  have hrob := g.rob_kept h u
  have hrat := hup.rat
  have hreg := hup.reg
  rw [hkept] at hrob hrat hreg
  refine g.stages.normal h.shape hkept ?_ (by rwa [hcmap]) (by rwa [hcmap]) (by rwa [hcmap, hregs]) ?_ ?_
    ?_ ?_
  · rw [g.commit.phase, hst]
  · rw [g.storeBuffer_eq hup, window, hkept]
    exact hup.store
  · obtain ⟨pre, e, hret, -, -, -, hen, hnext, -⟩ :=
      g.commit.reported (g.flight_retired h) (.inr hst) (g.mret_retired h)
    rw [CommitFeedbackPack.flushPc, g.commit.noException, hen]
    show s.cm.fb.nextPc = (w.retireAll _ g.ret).arch.pc
    rw [hnext, hret, Window.retireAll, List.foldl_append]
    show _ = archNext (w.retireAll _ pre).arch.regs _ e.op
    rw [Window.regs_retireAll]
  · rw [g.commit.cpb, if_pos hst]
    exact ⟨h.cp.wf.flush, h.cp.save⟩
  · rw [g.commit.cpRequests, if_neg (by rw [hst]; decide)]

/-- An exception or interrupt starts a walk over all entries that stay. -/
theorem trap (h : Normal m w) (hu : s.Synced env n m u)
    (hst : g.stop ≠ .miss) :
    Walk (s.machine env n m u) (w.step (s.log env n m u)) g.rest.length := by
  have hup := g.updated h hu
  have hkept : g.kept = g.rest := if_neg hst
  have htrap : g.stop = .exception ∨ g.stop = .interrupt := by
    have hfl := g.flushes
    cases hstop : g.stop <;> simp_all [Stop.flows]
  have hjump : g.stop ≠ .jump := by
    intro hj
    simp [hj] at htrap
  obtain ⟨hhead, hlast⟩ := g.commit.trap htrap
  have hne : g.rest ≠ [] := by
    rintro hnil
    rw [hnil] at hhead
    cases hhead
  rw [g.step_eq h hup]
  have hcmap : g.window.cmap = mapAt w.cmap g.ret := Window.cmap_retireAll
  have hregs : g.window.arch.regs = regsAfter w.arch.regs g.ret := Window.regs_retireAll
  have hflight : g.window.flight = g.rest := hkept
  have hreg := hup.reg
  rw [hkept] at hreg
  have hfol := g.commit.followed (g.flight_retired h) hjump hst (g.mret_retired h)
  have hpath : PathOk g.window.arch.pc (g.rest.map (·.op.toDecodeRenamePack) ++ frontPacks m) m.fetch := by
    have hp := h.path
    rw [g.flight, List.map_append, List.append_assoc] at hp
    exact hp.retire hfol
  -- without a retirement, no instruction changes a CSR
  have hcsr (hret : g.ret = []) (a : Nat) (ha : StableCsr a) :
      m.csrFile.value a = (s.machine env n m u).csrFile.value a := by
    show _ = u.counted.value a
    rw [hu.value ha.1 ha.2.1, g.commit.csrRequests, hret]
    rfl
  constructor
  case phase =>
    show s.cm.state.curState ≠ .normal
    rw [g.commit.phase]
    obtain hst | hst := htrap <;> simp [hst]
  case shape => exact g.stages.shape h.shape u
  case rob =>
    rw [hcmap, hflight, ← hkept]
    exact g.rob_kept h u
  case rat =>
    rw [hcmap, hflight, List.take_length, ← hkept]
    exact hup.rat
  case ids =>
    rw [hflight]
    exact hhead
  case restore =>
    rw [hflight]
    refine ⟨List.length_pos_iff.mpr hne, ?_⟩
    rw [List.getLast?_eq_getElem?, List.length_map] at hlast
    exact hlast
  case committed =>
    rw [hcmap, hregs]
    exact hreg.committed
  case free =>
    rw [hcmap, hflight, List.take_length]
    exact hreg.free
  case pc =>
    rw [hflight]
    obtain ⟨x, rest', hrest⟩ := List.exists_cons_of_ne_nil hne
    rw [hrest] at hpath ⊢
    exact congrArg some hpath.1
  case exception =>
    intro hphase
    have hex : g.stop = .exception := by
      obtain hst | hst := htrap
      · exact hst
      · rw [show (s.machine env n m u).commit = s.cm.state from rfl, g.commit.phase, hst] at hphase
        cases hphase
    obtain ⟨e, rest', r, hrest, hs, hx, hitem⟩ := g.commit.exception hex
    refine ⟨e, rest', r, hflight.trans hrest, hs, hx, by rw [hcmap]; exact hitem, ?_⟩
    have hr : e.result = some r := by simp [Entry.result, hs]
    exact h.computes (g.flight.trans (by rw [hrest])) g.retired hfol hr hcsr
  case interrupt =>
    intro hphase
    have hint : g.stop = .interrupt := by
      obtain hst | hst := htrap
      · rw [show (s.machine env n m u).commit = s.cm.state from rfl, g.commit.phase, hst] at hphase
        cases hphase
      · exact hst
    obtain ⟨hret, ⟨cause, hcause, hid⟩, e, rest', hrest, hpc⟩ := g.commit.interrupt hint
    rw [hrest] at hpath
    refine ⟨hpc.trans hpath.1, ?_⟩
    rw [show (s.machine env n m u).commit = s.cm.state from rfl, hid]
    rw [← interruptEnabled_congr (hcsr hret _ (by decide)) (hcsr hret _ (by decide))]
    exact InterruptInterface.getCause_enabled hcause
  case drained => exact g.stages.drained u
  case ports => exact g.stages.idle u
  case store =>
    rw [g.storeBuffer_eq hup]
    exact hup.store
  case cp =>
    rw [g.checkpointBuffer_eq, if_neg hst]
    exact ⟨h.cp.wf, h.cp.save⟩
  case first =>
    show s.ft.state.waitFirstMemoryResult = false
    rw [g.stages.fetch, ← Bool.not_eq_true]
    intro hf
    have hnil := h.first hf
    rw [g.flight, List.append_eq_nil_iff] at hnil
    exact hne hnil.2

end NormalFlush

end MyRiscvCore
