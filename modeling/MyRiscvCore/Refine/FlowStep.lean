import MyRiscvCore.Refine.MoveStep
import MyRiscvCore.Refine.CheckpointStep
import MyRiscvCore.Refine.FrontStep
import MyRiscvCore.Refine.Stages

/-!
# MyRiscvCore — a cycle without a flush

The stages of a cycle in which commit does not flush, gathered in one structure (`FlowStages`), with what
each of them did; then the requests they queued are applied (`FlowCycle`), and the relation holds again
(`FlowCycle.normal`).
-/

namespace MyRiscvCore

open Renaming (mapAfter live)

section Hypotheses

variable {m : Machine} {w : Window}

theorem Normal.nodup (h : Normal m w) : (w.flight.map (·.op.robId)).Nodup :=
  h.rob.nodup

/-- The entries compute what their operands say. -/
theorem Normal.entry (h : Normal m w) {e : Entry} (he : e ∈ w.flight) :
    ∃ pre, EntryOk w.cmap w.arch.regs pre e := by
  obtain ⟨pre, post, hf⟩ := List.append_of_mem he
  exact ⟨pre, h.flight pre e post hf⟩

/-- What the retire loop relies on. -/
theorem Normal.retireHyp (h : Normal m w) :
    RetireHyp m.rob.fifo m.checkpointBuffer w.cmap w.flight where
  rob := h.rob
  maps := h.rat.ok
  bound := h.rat.bound
  unit := by
    intro e he r hs
    obtain ⟨pre, hok⟩ := h.entry he
    have := (hok.resultOf (r := r) (by simp [Entry.result, hs])).info
    exact congrArg DecodeInfo.opUnit this
  predict := by
    intro e he r hs hbru
    obtain ⟨pre, hok⟩ := h.entry he
    exact (hok.resultOf (r := r) (by simp [Entry.result, hs])).predict hbru
  cpValid := by
    intro e he hp
    obtain ⟨pre, hok⟩ := h.entry he
    exact (hok.pack.predicted hp).2.1
  cp := h.cp.item

theorem Normal.pack_enable (h : Normal m w) :
    ∀ p ∈ unitPacks m.unitFifos m.lsuHold, p.enable = true := by
  intro p hp
  obtain ⟨pre, e, post, v1, v2, hf, -, -, rfl⟩ := h.loc.pack p hp
  have hen := (h.flight pre e post hf).pack.enable
  exact (congrArg DecodeInfo.enable (packOf_info e.op v1 v2)).trans hen

theorem Normal.lsu_mem {p : IssueExecutePack} (hp : p ∈ lsuPacks m) :
    p ∈ unitPacks m.unitFifos m.lsuHold := by
  rw [lsuPacks, List.mem_append] at hp
  rw [unitPacks, List.mem_append]
  obtain hp | hp := hp
  · exact .inl hp
  · exact .inr (List.mem_flatMap.mpr ⟨(.lsu, 0), by decide, hp⟩)

/-- Packs on the way to the LSU are loads and stores. -/
theorem Normal.lsu_unit (h : Normal m w) {p : IssueExecutePack} (hp : p ∈ lsuPacks m) : p.opUnit = .lsu := by
  rw [lsuPacks, List.mem_append] at hp
  obtain hp | hp := hp
  · exact h.shape.holdOp _ (Option.mem_toList.mp hp)
  · exact h.shape.unitOp .lsu 0 _ hp

/-- The items of the store buffer are aligned. -/
theorem Normal.aligned (h : Normal m w) :
    ∀ i ∈ m.storeBuffer.toList, Bus.checkAlign i.addr i.size = true := by
  intro i hi
  obtain ⟨com, hlist, hcom⟩ := h.store.items
  rw [hlist, List.mem_append] at hi
  obtain hi | hi := hi
  · exact hcom.aligned i hi
  · exact (h.flight.storesOf_mem (List.Subset.refl _) hi).2.1

/-- A load that the LSU executes is aligned. -/
theorem Normal.loads (h : Normal m w) {p : IssueExecutePack} (hp : p ∈ lsuPacks m)
    (hgo : (p.enable && p.valid && !p.hasException) = true) (bus : Bus) :
    ∃ v, Execute.loadValue bus m.storeBuffer (Issue.lsuOpOf p.subOp) p.lsuAddr = .ok v := by
  obtain ⟨pre, e, post, v1, v2, hf, -, -, rfl⟩ := h.loc.pack p (Normal.lsu_mem hp)
  have hunit : e.op.opUnit = .lsu := by
    have := h.lsu_unit hp
    rwa [packOf_info] at this
  rw [Bool.and_eq_true, Bool.and_eq_true, Bool.not_eq_true', packOf_info] at hgo
  obtain ⟨haddr, hex⟩ := packOf_lsu e.op v1 v2 (by rw [hgo.1.2, hunit]; rfl)
  rw [hgo.2, eq_comm, Bool.not_eq_false'] at hex
  have hsub : (packOf e.op v1 v2).subOp = e.op.subOp :=
    congrArg DecodeInfo.subOp (packOf_info e.op v1 v2)
  rw [haddr, hsub]
  obtain ⟨v, hv, -⟩ := loadValue_spec bus h.store.wf hex h.aligned
  exact ⟨v, hv⟩

/-- An instruction with a result, when all older ones have retired, has computed in the state they leave.
A serial one gets its result only as the oldest, so it has seen the CSR values of this cycle. -/
theorem Normal.computes (h : Normal m w) {pre post : List Entry} {e : Entry} {r : ExecuteWbPack}
    (hf : w.flight = pre ++ e :: post) (hpre : Retired pre)
    (hfol : Followed w.arch.regs (m.csrFile.value csrMepc) pre) (hr : e.result = some r)
    {csr : Nat → Word} (hcsr : pre = [] → ∀ a, StableCsr a → m.csrFile.value a = csr a) :
    Computes (w.retireAll (m.csrFile.value csrMepc) pre).arch csr e r := by
  have he : e ∈ w.flight := by rw [hf]; simp
  have hok : EntryOk (mapAt w.cmap pre) (regsAfter w.arch.regs pre) [] e :=
    EntryOk.retire hpre (by rw [List.append_nil]; exact h.flight pre e post hf)
  obtain ⟨v1, v2, h1, h2, hunit⟩ := hok.result r hr
  have hpack := archPack_eq h1 h2
  have hdone : e.isWaiting = false := by rw [Entry.isWaiting_eq_result, hr]; rfl
  -- what reads CSRs is the oldest, so it reads the committed ones
  have hserial (hser : (e.op.opUnit == .csr || e.op.op == .mret) = true) :
      ∀ a, StableCsr a → m.csrFile.value a = csr a :=
    hcsr (h.serial.oldest pre e post hf hser (.inl hdone))
  have hregs : (w.retireAll (m.csrFile.value csrMepc) pre).arch.regs = regsAfter w.arch.regs pre :=
    Window.regs_retireAll
  constructor
  case pc =>
    have hpath := h.path
    rw [hf, List.map_append, List.append_assoc] at hpath
    exact (hpath.retire hfol).1
  case pack => exact hok.pack
  case result =>
    rw [hregs, hpack]
    exact hunit
  case load =>
    intro hload hx
    obtain ⟨com, -, hcom⟩ := h.store.items
    have hfl := h.flight
    rw [hf] at hfl
    rw [hcom.mem_retireAll _ hpre hfl]
    exact h.store.loads pre e post hf hload r hr hx
  case mret =>
    intro hop
    exact (h.serial.mret e he hop r hr).trans (hserial (by simp [hop]) _ (by decide))
  case csr =>
    intro hop
    obtain ⟨file, hfile, hres⟩ := h.serial.csr e he hop r hr
    refine ⟨file, fun a ha => (hfile a ha).trans (hserial (by simp [hop]) a ha), ?_⟩
    have hsame := hunit.sameOp
    rw [hsame.src1, hsame.src2, packOf_src1, packOf_src2] at hres
    rw [hregs, hpack]
    exact hres

variable {csr : Csrfile} {ex : Execute.Out} {done : List (IssueExecutePack × ExecuteWbPack)}

/-- The results of the cycle are those of waiting instructions. -/
theorem Normal.executedOk (h : Normal m w)
    (hex : ExecSpec csr m.bus m.storeBuffer m.unitFifos m.lsuHold ex done) :
    ExecutedOk w.arch.regs w.flight done ex.ports
      ((unitPacks ex.fifos ex.hold).map (·.robId) ++ ((queuedItems m).map (·.robId) ++
        (m.renameReadregPort.filter (·.enable)).map (·.robId))) :=
  h.loc.executedOk h.nodup hex.perm (fun x hx => (hex.result x hx).unitResult) hex.ports

/-- And they are right for whoever reads them. -/
theorem Normal.readHyp (h : Normal m w)
    (hex : ExecSpec csr m.bus m.storeBuffer m.unitFifos m.lsuHold ex done) :
    ReadHyp m.regfile (channels ex.ports m.executeWbPorts) w.cmap w.arch.regs w.flight ex.ports where
  reg := h.reg
  maps := h.rat.ok
  bound := h.rat.bound
  channels := channelsOk (h.port.advance (h.executedOk hex)) ((h.executedOk hex).flightOk h.flight)
    (hex.length.trans h.shape.ports.symm)
  flight := h.flight

end Hypotheses

/-! ## The stages

The stages of a cycle without flush, run one after the other; none of them aborts. -/

/-- What the stages of a cycle without a flush did: `ret` retired and `rest` stayed, `done` executed, `sel`
was sent to the units, `taken` entered the queue as `items` and `left` did not, `news` were renamed,
`moved` decoded and `fetched` fetched. -/
structure FlowStages (env : Env) (n : Nat) (m : Machine) (w : Window) (s : Stages) where
  ret : List Entry
  rest : List Entry
  stop : Stop
  done : List (IssueExecutePack × ExecuteWbPack)
  sel : List ReadregIssueOp
  keep : List ReadregIssueOp
  taken : List ReadregIssueOp
  items : List ReadregIssueOp
  left : List ReadregIssueOp
  news : List Entry
  moved : List FetchDecodePack
  fetched : List FetchDecodePack
  ran : s.Ran env n m
  flight : w.flight = ret ++ rest
  commit : CommitSpec (m.csrAt env n) (m.interruptsAt env n) m.rob.fifo m.checkpointBuffer w.cmap
    m.wbCommitPort m.perf s.cm ret rest stop
  flows : stop.flows = true
  execute : ExecSpec (m.csrAt env n) m.bus m.storeBuffer m.unitFifos m.lsuHold s.ex done
  issue : IssueSpec m.issue s.ex.fifos s.cm.perf m.readregIssuePort m.regfile m.storeBuffer.isEmpty
    (channels s.ex.ports m.executeWbPorts) s.cm.fb sel keep taken items left s.is
  readregStall : s.is.stall = true → s.readreg = m.readregIssuePort
  readreg : s.is.stall = false → List.Forall₂
    (fun x y => Readreg.readOp m.regfile (channels s.ex.ports m.executeWbPorts) x = .ok y)
    (m.renameReadregPort.filter (·.enable)) (s.readreg.filter (·.enable))
  rename : RenameSpec m.rat w.cmap w.arch.regs w.flight m.decodeRenameFifo.resetPopStatus s.cm.rob
    s.is.perf m.renameReadregPort s.is.stall news s.rn
  decode : DecodeSpec m.fetchDecodeFifo.resetPopStatus s.rn.fifo s.rn.perf s.dc.1 moved
  fetch : FetchFlow ⟨m.fetch, s.dc.1.1, s.cm.checkpointBuffer, s.ex.predictor, s.dc.1.2.2⟩ s.ft s.cm.fb
    fetched

theorem Stop.flows_ne {stop : Stop} (h : stop.flows = true) :
    stop ≠ .miss ∧ stop ≠ .exception ∧ stop ≠ .interrupt := by
  cases stop <;> simp_all [Stop.flows]

section Stages

variable {env : Env} {n : Nat} {m : Machine} {w : Window} {cm : Commit.Ctx} {ret rest : List Entry}
  {stop : Stop}

theorem Stages.channels_flow {s : Stages} (hfb : s.cm.fb.flushing = false) :
    s.channels m = MyRiscvCore.channels s.ex.ports m.executeWbPorts := by
  simp [Stages.channels, Wb.run, hfb, MyRiscvCore.channels]

/-- No jump is reported if nothing retires. -/
theorem CommitSpec.jumpEnable_nil {csr : Csrfile} {ii : InterruptInterface} {q : Fifo RobItem}
    {cpb : Fifo Checkpoint} {C : Nat → Nat} {port : List ExecuteWbPack} {perf : PerfCounters}
    (h : CommitSpec csr ii q cpb C port perf cm [] rest stop) : cm.fb.jumpEnable = false := by
  by_cases hst : stop = .jump ∨ stop = .miss
  · obtain ⟨e, r, hl, -⟩ := h.jump hst
    cases hl.last
  · exact h.noJump (fun h => hst (.inl h)) fun h => hst (.inr h)

/-- In the normal state, the units run. -/
theorem Normal.execute_flow (h : Normal m w) (env : Env) (n : ℕ) (hfb : cm.fb.flushing = false) :
    ∃ ex done, Execute.run m.unitFifos m.lsuHold (m.csrAt env n) m.bus m.storeBuffer cm.predictor
        cm.checkpointBuffer cm.fb = .ok ex ∧
      ExecSpec (m.csrAt env n) m.bus m.storeBuffer m.unitFifos m.lsuHold ex done ∧ UnitsOk ex.fifos := by
  obtain ⟨ex, done, hrun, hex⟩ := execute_flow_spec h.shape.unit h.shape.unitSave h.shape.unitOp h.shape.holdOp
    h.pack_enable (fun p hp hgo _ => h.loads hp hgo m.bus) cm.predictor cm.checkpointBuffer hfb
  exact ⟨ex, done, hrun, hex, hex.wf, hex.save, fun u i p hp => h.shape.unitOp u i p (hex.sub u i p hp),
    fun u i => (hex.size u i).trans (h.shape.unitSize u i)⟩

/-- In the normal state, a commit that does not flush is followed by the other stages, or fetch aborts on
a misaligned address. -/
theorem Normal.flowStages (h : Normal m w)
    (hrun : Commit.run (m.csrAt env n) (m.interruptsAt env n) m.wbCommitPort m.commit
      { m.rob with committed := false } m.checkpointBuffer m.predictor m.perf = .ok cm)
    (hflight : w.flight = ret ++ rest)
    (hcm : CommitSpec (m.csrAt env n) (m.interruptsAt env n) m.rob.fifo m.checkpointBuffer w.cmap
      m.wbCommitPort m.perf cm ret rest stop) (hflows : stop.flows = true) :
    (∃ s, Nonempty (FlowStages env n m w s)) ∨
      ∃ s : Stages, s.RanBack env n m ∧ s.fetchRun env n m = .error (.assertion .slaveBase) := by
  have hfb : cm.fb.flushing = false := by rw [hcm.flushing, hflows]; rfl
  obtain ⟨hmiss, -, -⟩ := Stop.flows_ne hflows
  -- from commit back to fetch, as the source runs the stages
  obtain ⟨ex, done, hexRun, hex, hunits⟩ := h.execute_flow env n hfb
  obtain ⟨is, sel, keep, taken, items, left, hisRun, his⟩ := h.issue_flow (h.readHyp hex) hunits hfb
    (fun hne => by rw [hcm.enable, ← hflight]; simpa using hne) cm.perf m.storeBuffer.isEmpty
  obtain ⟨port, hrrRun, hstall, hgo⟩ := h.readreg_flow (h.readHyp hex) hfb is.stall
  have hcmRob : RobOk cm.rob.fifo w.cmap w.flight := by
    rw [hcm.rob, if_neg hmiss]
    exact h.rob
  obtain ⟨rn, news, hrnRun, hrn⟩ : ∃ rn news, _ ∧ RenameSpec m.rat w.cmap w.arch.regs w.flight
      m.decodeRenameFifo.resetPopStatus cm.rob is.perf m.renameReadregPort is.stall news rn :=
    rename_flow_spec h.rat (env.uninit n) cm.checkpointBuffer
      (h.shape.decodeRename.resetPopStatus h.shape.decodeRenameSave) h.front.1 hcmRob is.perf
      m.renameReadregPort is.stall hfb
  obtain ⟨moved, hdc⟩ := decodeLoop_spec decodeWidth rn.perf
    (h.shape.fetchDecode.resetPopStatus h.shape.fetchDecodeSave) hrn.fifo
    (fun p hp => (h.front.2 p hp).enable)
  obtain ⟨dc, hdcEq⟩ : ∃ dc, dc = Decode.run m.fetchDecodeFifo.resetPopStatus rn.fifo rn.perf cm.fb :=
    ⟨_, rfl⟩
  have hdc1 : dc.1 = Decode.decodeLoop decodeWidth m.fetchDecodeFifo.resetPopStatus rn.fifo rn.perf := by
    rw [hdcEq, Decode.run, hfb]
    rfl
  rw [← hdc1] at hdc
  have hcpb : cm.checkpointBuffer = m.checkpointBuffer := by rw [hcm.cpb, if_neg hmiss]
  have hft := fetch_flow_spec (c := ⟨m.fetch, dc.1.1, cm.checkpointBuffer, ex.predictor, dc.1.2.2⟩)
    m.bus m.storeBuffer (env.uninit n) dc.2 m.decodeRenameFifo.resetPopStatus.isEmpty hfb hdc.fetchDecode
    (by rw [hcpb]; exact h.cp.wf) (by rw [hcpb]; exact h.cp.save) (fun hfirst => by
      have hret : ret = [] := (List.append_eq_nil_iff.mp (hflight.symm.trans (h.first hfirst))).1
      subst hret
      exact hcm.jumpEnable_nil)
  have hback (ft : Fetch.Ctx) : Stages.RanBack env n m ⟨cm, ex, is, port, rn, dc, ft⟩ := by
    have hch := Stages.channels_flow (m := m) (s := ⟨cm, ex, is, port, rn, dc, ft⟩) hfb
    exact ⟨hrun, hexRun, by rw [hch]; exact hisRun, by rw [hch]; exact hrrRun, hrnRun, hdcEq.symm⟩
  obtain ⟨ft, fetched, hftRun, hft⟩ | hftErr := hft
  · exact .inl ⟨⟨cm, ex, is, port, rn, dc, ft⟩, ⟨{
      ret, rest, stop, done, sel, keep, taken, items, left, news, moved, fetched
      ran := ⟨hback ft, hftRun⟩
      flight := hflight
      commit := hcm
      flows := hflows
      execute := hex
      issue := his
      readregStall := hstall
      readreg := hgo
      rename := hrn
      decode := hdc
      fetch := hft }⟩⟩
  · exact .inr ⟨⟨cm, ex, is, port, rn, dc, ⟨m.fetch, dc.1.1, cm.checkpointBuffer, ex.predictor, dc.1.2.2⟩⟩,
      hback _, hftErr⟩

end Stages

/-! ## CSR requests of retired instructions

The CSR file knows every address that a retired instruction writes. -/

section CsrRequests

variable {C : Nat → Nat} {regs : Nat → Word} {ret rest : List Entry}

/-- Only the CSR unit asks for a CSR write, and only for a register an instruction may write. -/
theorem UnitResult.csr_write {p : IssueExecutePack} {r : ExecuteWbPack} (h : UnitResult p r)
    (hv : r.csrNewvalueValid = true) : p.opUnit = .csr ∧ Csrfile.writeCheck p.csr = true := by
  unfold UnitResult at h
  cases hu : p.opUnit with
  | alu =>
    rw [hu] at h
    subst h
    unfold Execute.alu at hv
    split_ifs at hv
    · cases hv
    · revert hv
      dsimp only
      split <;> exact fun hv => by cases hv
    · cases hv
  | mul =>
    rw [hu] at h
    subst h
    unfold Execute.mul at hv
    split_ifs at hv <;> cases hv
  | div =>
    rw [hu] at h
    subst h
    unfold Execute.div at hv
    split_ifs at hv <;> cases hv
  | bru =>
    rw [hu] at h
    obtain ⟨mepc, rfl⟩ := h
    unfold Execute.bru at hv
    split_ifs at hv <;> cases hv
  -- the other units leave the flag cleared
  | csr =>
    rw [hu] at h
    obtain ⟨file, rfl⟩ := h
    refine ⟨rfl, ?_⟩
    unfold Execute.csr at hv
    cases hread : file.read p.csr with
    | none =>
      simp only [hread] at hv
      split_ifs at hv <;> cases hv
    | some old =>
      simp only [hread] at hv
      split_ifs at hv with _ _ _ hw
      · cases hv
      · cases hv
      · cases hv
      · simpa using hw
      · cases hv
  | lsu =>
    rw [hu] at h
    obtain ⟨v, rfl⟩ := h
    cases hv

/-- Only a CSR instruction with a writable address writes. -/
theorem EntryOk.csr_write {pre : List Entry} {e : Entry} {r : ExecuteWbPack}
    (h : EntryOk C regs pre e) (hr : e.result = some r) (hv : r.csrNewvalueValid = true) :
    e.op.opUnit = .csr ∧ Csrfile.writeCheck e.op.csr = true := by
  obtain ⟨v1, v2, -, -, hu⟩ := h.result r hr
  have := hu.csr_write hv
  rwa [packOf_info] at this

/-- The CSR requests of retired instructions are for registers that exist. -/
theorem FlightOk.csr_known (h : FlightOk C regs (ret ++ rest)) (csr : Csrfile) :
    ∀ r ∈ ret.flatMap (retireCsrRequests csr), r.Known := by
  intro q hq
  obtain ⟨e, he, hq⟩ := List.mem_flatMap.mp hq
  obtain ⟨pre, post, hf⟩ := List.append_of_mem (List.mem_append_left rest he)
  unfold retireCsrRequests at hq
  split at hq
  · rename_i r hs
    rw [List.mem_append] at hq
    obtain hq | hq := hq
    · split_ifs at hq with hv
      · obtain rfl := List.mem_singleton.mp hq
        exact ((h pre e post hf).csr_write (by simp [Entry.result, hs]) hv).2
      · cases hq
    · split_ifs at hq
      · obtain rfl := List.mem_singleton.mp hq
        rfl
      · cases hq
  · cases hq

end CsrRequests

/-! ## The queued requests

The requests of the stages are carried out at the end of the cycle; none of them aborts. -/

namespace FlowStages

variable {env : Env} {n : Nat} {m : Machine} {w : Window} {s : Stages}

variable (f : FlowStages env n m w s)

include f

theorem flushing : s.cm.fb.flushing = false := by
  rw [f.commit.flushing, f.flows]
  rfl

theorem retired : Retired f.ret := f.commit.finished

theorem group : ∃ cp, GroupOk m.rat w.cmap w.arch.regs w.flight f.news
    s.rn.renamed s.rn.rob.fifo cp s.rn.ratRequests s.rn.cpRequests := f.rename.group

/-- The renamings after the cycle. -/
theorem maps :
    Renaming.Ok archRegs w.cmap (renamings (w.flight ++ f.news)) ∧
      ∀ p ∈ live archRegs w.cmap (renamings (w.flight ++ f.news)), p < phyRegNum := by
  obtain ⟨cp, hg⟩ := f.group
  exact ⟨hg.map.ok, hg.map.bound⟩

/-- The renamings that are left, with those of the new instructions. -/
theorem maps_after :
    Renaming.Ok archRegs (mapAt w.cmap f.ret) (renamings (f.rest ++ f.news)) ∧
      ∀ p ∈ live archRegs (mapAt w.cmap f.ret) (renamings (f.rest ++ f.news)), p < phyRegNum := by
  obtain ⟨hok, hb⟩ := f.maps
  rw [f.flight, List.append_assoc] at hok hb
  obtain ⟨hok', hsub⟩ := live_retire hok
  exact ⟨hok', fun p hp => hb p (hsub hp)⟩

/-- Without a miss commit only frees and publishes registers. -/
theorem commit_requests :
    s.cm.ratRequests = retireRatRequests w.cmap f.ret ∧
      s.cm.regRequests = retireRegRequests w.cmap f.ret := by
  obtain ⟨cps, hnil, -, hrat, hreg⟩ := f.commit.restored
  rw [hnil (Stop.flows_ne f.flows).1] at hrat hreg
  simpa using And.intro hrat hreg

/-- The alias table. -/
theorem rat_sync (h : Normal m w) :
    ∃ rat, m.rat.sync (s.cm.ratRequests ++ s.rn.ratRequests) = .ok rat ∧
      RatOk rat (mapAt w.cmap f.ret) (renamings (f.rest ++ f.news)) := by
  obtain ⟨cp, hg⟩ := f.group
  have hrat := h.rat
  rw [f.flight] at hrat
  obtain ⟨r₁, h₁, hr₁⟩ := hrat.sync_retire
  obtain ⟨hok, hb⟩ := f.maps_after
  rw [renamings_append] at hok hb ⊢
  obtain ⟨r₂, h₂, hr₂⟩ := hr₁.sync_setMap hok fun x hx =>
    hb x.2 (Renaming.mem_live.mpr (.inr ⟨x, List.mem_append_right _ hx, rfl⟩))
  refine ⟨r₂, ?_, hr₂⟩
  rw [Rat.sync_append, f.commit_requests.1, h₁, hg.ratRequests]
  exact h₂

/-- The renamings that are left. -/
theorem maps_rest :
    Renaming.Ok archRegs (mapAt w.cmap f.ret) (renamings f.rest) ∧
      ∀ p ∈ live archRegs (mapAt w.cmap f.ret) (renamings f.rest), p < phyRegNum := by
  obtain ⟨hok, hb⟩ := f.maps_after
  rw [renamings_append] at hok hb
  refine ⟨hok.of_append, fun p hp => hb p ?_⟩
  rw [Renaming.mem_live] at hp ⊢
  obtain hp | ⟨x, hx, rfl⟩ := hp
  · exact .inl hp
  · exact .inr ⟨x, List.mem_append_left _ hx, rfl⟩

theorem mem_rest {e : Entry} (he : e ∈ f.rest) : e ∈ w.flight := by
  rw [f.flight]
  exact List.mem_append_right _ he

/-- The register file. -/
theorem regfile_sync (h : Normal m w) :
    ∃ regfile, m.regfile.sync (s.cm.regRequests ++ (Wb.run m.executeWbPorts s.cm.fb).2.1) =
        .ok regfile ∧
      RegOk regfile (mapAt w.cmap f.ret) (regsAfter w.arch.regs f.ret)
        (f.rest.map (Entry.advance s.ex.ports) ++ f.news) := by
  have hreg := h.reg
  have hok := h.rat.ok
  have hb := h.rat.bound
  rw [f.flight] at hreg hok hb
  -- first the requests of commit, then those of write-back
  obtain ⟨f₁, h₁, hf₁⟩ := hreg.sync_retire hok hb f.retired
  have hports : ∀ r, (r ∈ m.executeWbPorts ∧ r.enable = true) ↔
      ∃ e ∈ f.rest, e.status = .executed r := by
    intro r
    rw [h.port.executed, f.flight]
    exact f.retired.exists_status fun r => by simp
  obtain ⟨f₂, h₂, hf₂⟩ : ∃ f₂, _ ∧ RegOk f₂ _ _ (f.rest.map (Entry.advance s.ex.ports)) :=
    hf₁.sync_writeBack f.maps_rest.1 f.maps_rest.2 hports fun e he r hr => by
      obtain ⟨pre, hok⟩ := h.entry (f.mem_rest he)
      exact ⟨(hok.resultOf hr).rdPhy, hok.writesRd hr⟩
  obtain ⟨cp, hg⟩ := f.group
  obtain ⟨hok', hb'⟩ := f.maps_after
  refine ⟨f₂, ?_, hf₂.append ?_ ?_ hg.waiting⟩
  · have hwb : (Wb.run m.executeWbPorts s.cm.fb).2.1 =
        (m.executeWbPorts.filter (·.writesRd)).map fun p => .write p.rdPhy p.rdValue true := by
      simp [Wb.run, f.flushing]
    rw [f.commit_requests.2, hwb, Regfile.sync_append, h₁]
    exact h₂
  · rw [renamings_append, renamings_advance, ← renamings_append]
    exact hok'
  · intro e he hw
    refine hb' e.op.rdPhy (Renaming.mem_live.mpr (.inr ⟨(e.op.rd, e.op.rdPhy), ?_, rfl⟩))
    exact mem_renamings.mpr ⟨e, List.mem_append_right _ he, hw, rfl⟩

/-- The CSR file. -/
theorem csr_known (h : Normal m w) :
    ∀ r ∈ s.csrRequests env n m, r.Known := by
  intro r hr
  rw [Stages.csrRequests, f.commit.csrRequests, List.mem_append] at hr
  have hfl := h.flight
  rw [f.flight] at hfl
  obtain hr | hr := hr
  · exact hfl.csr_known _ r hr
  · obtain rfl := List.mem_singleton.mp hr
    rfl

theorem executedOk (h : Normal m w) :
    ExecutedOk w.arch.regs w.flight f.done s.ex.ports
      ((unitPacks s.ex.fifos s.ex.hold).map (·.robId) ++ ((queuedItems m).map (·.robId) ++
        (m.renameReadregPort.filter (·.enable)).map (·.robId))) :=
  h.executedOk f.execute

/-- The store buffer has room for what the LSU pushes. -/
theorem pushes_fit (h : Normal m w) :
    m.storeBuffer.count + s.ex.pushes.length ≤ m.storeBuffer.size := by
  have hle := h.store.wf.count_le
  obtain ⟨⟨p, r⟩, -, -, hstep, -⟩ | ⟨hnil, -⟩ := f.execute.pushes
  · dsimp only at hstep
    generalize s.ex.pushes = pushes at hstep ⊢
    cases hstep with
    | pass _ => exact hle
    | store _ _ hf => exact h.store.wf.count_lt h.store.save hf
    | load _ _ _ => exact hle
  · rw [hnil]
    exact hle

/-- Commit marks the stores that retire, and none while the reorder buffer is empty. -/
theorem committed_ids :
    s.cm.fb.committedRobId = f.ret.map (·.op.robId) ∧
      (s.cm.fb.enable = false → s.cm.fb.committedRobId = []) := by
  obtain ⟨extra, hids, hextra, -⟩ := f.commit.committed
  rw [hextra (Stop.flows_ne f.flows).2.1, List.append_nil] at hids
  refine ⟨hids, fun hen => ?_⟩
  rw [f.commit.enable, Bool.not_eq_false', List.isEmpty_iff, List.append_eq_nil_iff] at hen
  rw [hids, hen.1]
  rfl

/-- The store buffer and the bus. -/
theorem store_sync (h : Normal m w) (mepc : Word) :
    ∃ q writes bus, m.storeBuffer.run s.cm.fb = .ok (q, writes, false) ∧
      Bus.sync { m.bus with clint := m.bus.clint.runPost } writes = .ok bus ∧
      StoreOk (q.sync s.ex.pushes) bus.memory
        (({ w with writes := w.writes ++ writes }.advance s.ex.ports).retireAll mepc f.ret) := by
  obtain ⟨com, hlist, hcom⟩ := h.store.items
  obtain ⟨hids, hen⟩ := f.committed_ids
  exact h.store.flow f.flight f.retired h.flight h.nodup f.flushing hen hids
    (h.loc.storesOf_advance (f.executedOk h) h.flight f.execute.lsu f.execute.pushes)
    (h.loc.loadsOk_advance (f.executedOk h) h.flight f.execute.lsu f.execute.pushes h.store.wf hlist
      hcom.memory h.aligned h.store.loads) (f.pushes_fit h) mepc m.bus.clint.runPost

/-- What the queued requests of a cycle without a flush leave. -/
structure Updated (f : FlowStages env n m w s) (u : Updates) : Prop where
  synced : s.Synced env n m u
  rat : RatOk u.rat (mapAt w.cmap f.ret) (renamings (f.rest ++ f.news))
  reg : RegOk u.regfile (mapAt w.cmap f.ret) (regsAfter w.arch.regs f.ret)
    (f.rest.map (Entry.advance s.ex.ports) ++ f.news)
  dropped : u.dropped = false
  store : StoreOk (u.storeBuffer.sync s.ex.pushes) u.bus.memory
    (({ w with writes := w.writes ++ u.writes }.advance s.ex.ports).retireAll
      (m.csrFile.value csrMepc) f.ret)

/-- The components after the cycle. -/
theorem updated (h : Normal m w) {u : Updates}
    (hu : s.Synced env n m u) : f.Updated u := by
  obtain ⟨rat, h₁, hrat⟩ := f.rat_sync h
  obtain ⟨regfile, h₂, hreg⟩ := f.regfile_sync h
  obtain ⟨q, writes, bus, h₃, h₄, hstore⟩ := f.store_sync h (m.csrFile.value csrMepc)
  obtain ⟨rat', regfile', csrFile', q', writes', dropped', bus', counted'⟩ := u
  cases h₁.symm.trans hu.rat
  cases h₂.symm.trans hu.regfile
  cases h₃.symm.trans hu.store
  cases h₄.symm.trans hu.bus
  exact ⟨hu, hrat, hreg, rfl, hstore⟩

/-- The requests are applied, or a CSR write waits for the terminal. -/
theorem exists_synced (h : Normal m w) :
    (∃ u, s.Synced env n m u) ∨
      (Stages.csrBefore env n m).sync (s.csrRequests env n m) = .error .charfifo ∧
        cycle env n m = .error .charfifo := by
  obtain ⟨rat, h₁, -⟩ := f.rat_sync h
  obtain ⟨regfile, h₂, -⟩ := f.regfile_sync h
  obtain ⟨q, writes, bus, h₃, h₄, -⟩ := f.store_sync h 0
  obtain ⟨csr, h₅⟩ | h₅ := (Stages.csrBefore env n m).sync_cases (f.csr_known h)
  · obtain ⟨counted, h₆⟩ := sysWrites_ok csr (m.cpuClockCycle + 1) s.rn.rob.globalCommitNum s.ft.perf
    exact .inl ⟨⟨rat, regfile, csr, q, writes, false, bus, counted⟩, h₁, h₂, h₅, h₃, h₄, h₆⟩
  · exact .inr ⟨h₅, cycle_error_csr f.ran h₁ h₂ h₅⟩

end FlowStages

end MyRiscvCore
