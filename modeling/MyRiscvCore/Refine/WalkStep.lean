import MyRiscvCore.Refine.FlushStep

/-!
# MyRiscvCore — a cycle of the walk

While a trap walks the reorder buffer back, each cycle undoes the renaming of one entry, youngest first
(`WalkStages`). The last one, for the entry at the head, also writes the trap CSRs and goes to the handler;
it leaves an empty window (`WalkStages.last`).
-/

namespace MyRiscvCore

open Renaming (mapAfter live)

/-! ## Commit

The walk goes from the youngest instruction to the oldest and undoes one renaming each cycle. -/

/-- The rename-table requests that undo an entry; `C` is the map before it. -/
def undoRatRequests (C : Nat → Nat) (e : Entry) : List Rat.Request :=
  if e.writes then [.restoreMap e.op.rdPhy (C e.op.rd)] else []

/-- The register-file requests that undo an entry. -/
def undoRegRequests (e : Entry) : List Regfile.Request :=
  if e.writes then [.write e.op.rdPhy 0 false] else []

/-- The trap CSRs that the last cycle of a walk writes. -/
def trapRequests (csr : Csrfile) (c : CommitState) : List Csrfile.Request :=
  if c.curState = .flush then Commit.exceptionEntry c
  else [.writeSys csrMepc c.interruptPc, .writeSys csrMtval 0,
    .writeSys csrMcause (0x80000000 ||| c.interruptId.code),
    .writeSys csrMstatus (setMie (setMpie (csr.value csrMstatus) (getMie (csr.value csrMstatus))) false)]

/-- The interrupts that the last cycle of a walk acknowledges. -/
def trapAcks (c : CommitState) : List RiscvInterrupt :=
  if c.curState = .flush then [] else [c.interruptId]

/-- What commit does in a cycle of the walk that undoes `e`, with `pre` before it. -/
structure WalkSpec (csr : Csrfile) (m : Machine) (C : Nat → Nat) (pre : List Entry) (e : Entry)
    (cm : Commit.Ctx) : Prop where
  rat : cm.ratRequests = undoRatRequests (mapAt C pre) e
  reg : cm.regRequests = undoRegRequests e
  flushing : cm.fb.flushing = true
  committed : cm.fb.committedRobId = []
  noJump : cm.fb.jumpEnable = false
  robRequests : cm.robRequests = []
  cpRequests : cm.cpRequests = []
  cpb : cm.checkpointBuffer = m.checkpointBuffer
  perf : cm.perf = m.perf
  retired : cm.retired = []
  step : ∀ pre' x, pre = pre' ++ [x] →
    cm.state = { m.commit with restoreRobItemId := x.op.robId } ∧ cm.rob.fifo = m.rob.fifo ∧
      cm.rob.globalCommitNum = m.rob.globalCommitNum ∧ cm.csrRequests = [] ∧ cm.acks = [] ∧
      cm.fb.hasException = false
  last : pre = [] → cm.state = { m.commit with curState := .normal } ∧
    cm.rob.fifo = m.rob.fifo.flush ∧ cm.rob.globalCommitNum = m.rob.globalCommitNum + 1 ∧
      cm.csrRequests = trapRequests csr m.commit ∧ cm.acks = trapAcks m.commit ∧
      cm.fb.hasException = true ∧ cm.fb.exceptionPc = csr.value csrMtvec

section Commit

variable {m : Machine} {w : Window} {j : Nat}

/-- The entry that a cycle of the walk undoes. -/
theorem Walk.entry (h : Walk m w j) : ∃ pre e post, w.flight = pre ++ e :: post ∧
    j = pre.length + 1 ∧ m.commit.restoreRobItemId = e.op.robId := by
  obtain ⟨hj, hid⟩ := h.restore
  rw [List.getElem?_map, Option.map_eq_some_iff] at hid
  obtain ⟨e, he, hid⟩ := hid
  obtain ⟨hlt, rfl⟩ := List.getElem?_eq_some_iff.mp he
  refine ⟨w.flight.take (j - 1), w.flight[j - 1], w.flight.drop (j - 1 + 1), ?_, ?_, hid.symm⟩
  · rw [← List.drop_eq_getElem_cons hlt, List.take_append_drop]
  · rw [List.length_take, Nat.min_eq_left (Nat.le_of_lt hlt)]
    omega

variable {pre post : List Entry} {e : Entry}

/-- Undoing the renaming of an entry. -/
def undoCtx (C : Nat → Nat) (e : Entry) (c : Commit.Ctx) : Commit.Ctx :=
  { c with
    ratRequests := c.ratRequests ++ undoRatRequests C e
    regRequests := c.regRequests ++ undoRegRequests e }

theorem undo_eq (C : Nat → Nat) (e : Entry) (c : Commit.Ctx) :
    (if (robItemOf C e).oldPhyRegIdValid then
      { c with
        ratRequests := c.ratRequests ++
          [.restoreMap (robItemOf C e).newPhyRegId (robItemOf C e).oldPhyRegId]
        regRequests := c.regRequests ++ [.write (robItemOf C e).newPhyRegId 0 false] }
    else c) = undoCtx C e c := by
  rw [robItemOf_old, robItemOf_new]
  cases hw : e.writes with
  | false => simp [undoCtx, undoRatRequests, undoRegRequests, hw]
  | true => simp [undoCtx, undoRatRequests, undoRegRequests, hw, robItemOf_oldPhyRegId hw]

/-- One cycle of the walk, for the entry that it stands at. -/
theorem runWalk_eq {csr : Csrfile} {C : Nat → Nat} {c : Commit.Ctx} {prevId : Nat} {prevValid : Bool}
    (hitem : c.rob.fifo.getItem c.state.restoreRobItemId = robItemOf C e)
    (hprev : c.rob.fifo.getPrevId .rob c.state.restoreRobItemId = .ok (prevId, prevValid)) :
    Commit.runWalk csr c =
      if c.state.restoreRobItemId != c.state.robItemId && prevValid then
        .ok { undoCtx C e c with
          state := { c.state with restoreRobItemId := prevId }
          fb := { c.fb with enable := true, flush := true } }
      else Commit.enterHandler csr { undoCtx C e c with
        csrRequests := c.csrRequests ++ trapRequests csr c.state
        acks := c.acks ++ trapAcks c.state } := by
  unfold Commit.runWalk
  dsimp only
  rw [hitem, undo_eq]
  have hrob : (undoCtx C e c).rob = c.rob := rfl
  have hstate : (undoCtx C e c).state = c.state := rfl
  rw [hrob, hstate, hprev]
  simp only [bind, Except.bind]
  split_ifs with h1 h2
  · rfl
  · simp [trapRequests, trapAcks, h2, undoCtx]
  · simp only [trapRequests, trapAcks, if_neg h2]
    rfl

/-- One entry of the walk. -/
theorem Walk.commit_spec (h : Walk m w j) (hf : w.flight = pre ++ e :: post)
    (hid : m.commit.restoreRobItemId = e.op.robId) (csr : Csrfile) (ii : InterruptInterface) :
    ∃ cm, Commit.run csr ii m.wbCommitPort m.commit { m.rob with committed := false }
        m.checkpointBuffer m.predictor m.perf = .ok cm ∧ WalkSpec csr m w.cmap pre e cm := by
  have hitem : m.rob.fifo.getItem m.commit.restoreRobItemId = robItemOf (mapAt w.cmap pre) e := by
    rw [hid]
    exact h.rob.item pre e post hf
  obtain ⟨hslot, hlt⟩ := h.rob.slot hf
  unfold Commit.run
  rw [if_neg h.phase]
  obtain rfl | ⟨pre', x, rfl⟩ := List.eq_nil_or_concat pre
  · -- the head: the walk ends
    have hhead : m.commit.restoreRobItemId = m.commit.robItemId := by
      have hids := h.ids
      rw [hf] at hids
      exact hid.trans (Option.some.inj hids)
    have hmem : m.commit.restoreRobItemId ∈ m.rob.fifo.ids := by
      rw [h.rob.ids, hf, hid]
      simp
    rw [runWalk_eq hitem (Fifo.getPrevId_ok h.rob.wf .rob hmem)]
    dsimp only
    rw [hhead, bne_self_eq_false, Bool.false_and, if_neg Bool.false_ne_true]
    refine ⟨_, rfl, ?_⟩
    constructor
    case step => simp
    case last => exact fun _ => ⟨rfl, rfl, rfl, List.nil_append _, List.nil_append _, rfl, rfl⟩
    all_goals rfl
  · -- an entry above it: step back
    rw [List.concat_eq_append] at hf hitem hslot hlt ⊢
    have hx : w.flight = pre' ++ x :: e :: post := by rw [hf]; simp
    have hxid := (h.rob.slot hx).1
    rw [List.length_append, List.length_singleton] at hslot hlt
    have hprev := h.rob.wf.getPrevId_eq .rob hlt
    rw [← hslot, ← hxid, ← hid] at hprev
    have hne : m.commit.restoreRobItemId ≠ m.commit.robItemId := by
      have hnd := h.rob.nodup
      have hids := h.ids
      rw [hx] at hids hnd
      intro heq
      rw [← heq, hid] at hids
      obtain _ | ⟨y, pre''⟩ := pre'
      · simp_all
      · simp_all
    rw [runWalk_eq hitem hprev]
    dsimp only
    rw [bne_iff_ne.mpr hne, Bool.true_and, if_pos rfl]
    refine ⟨_, rfl, ?_⟩
    constructor
    case step =>
      intro pre'' y hy
      obtain ⟨-, hxy⟩ := List.append_inj' hy rfl
      rw [List.singleton_inj.mp hxy]
      exact ⟨rfl, rfl, rfl, rfl, rfl, rfl⟩
    case last => simp
    all_goals rfl

end Commit

/-- A cycle of the walk: it undoes `e`, with `pre` before and `post` after it. -/
structure WalkStages (env : Env) (n : Nat) (m : Machine) (w : Window) (s : Stages) where
  pre : List Entry
  e : Entry
  post : List Entry
  stages : FlushStages env n m s
  flight : w.flight = pre ++ e :: post
  commit : WalkSpec (m.csrAt env n) m w.cmap pre e s.cm

theorem Walk.walkStages {m : Machine} {w : Window} {j : Nat} (h : Walk m w j) (env : Env) (n : Nat) :
    ∃ s, ∃ v : WalkStages env n m w s, j = v.pre.length + 1 := by
  obtain ⟨pre, e, post, hf, hj, hid⟩ := h.entry
  obtain ⟨cm, hrun, hspec⟩ := h.commit_spec hf hid (m.csrAt env n) (m.interruptsAt env n)
  obtain ⟨s, rfl, hs⟩ := exists_flushStages hrun hspec.flushing h.first
  exact ⟨s, ⟨pre, e, post, hs, hf, hspec⟩, hj⟩

namespace WalkStages

variable {env : Env} {n : Nat} {m : Machine} {w : Window} {s : Stages} {u : Updates}

variable (v : WalkStages env n m w s)

include v

/-- What is left to undo after this cycle. -/
theorem take_eq :
    w.flight.take (v.pre.length + 1) = v.pre ++ [v.e] ∧ w.flight.take v.pre.length = v.pre := by
  rw [v.flight]
  constructor
  · rw [List.take_append, Nat.add_sub_cancel_left, List.take_of_length_le (Nat.le_succ _)]
    rfl
  · exact List.take_left' rfl

/-- The alias table forgets the renaming of the entry. -/
theorem rat_sync (h : Walk m w (v.pre.length + 1)) :
    ∃ rat, m.rat.sync (s.cm.ratRequests ++ s.rn.ratRequests) = .ok rat ∧
      RatOk rat w.cmap (renamings v.pre) := by
  have hrat := h.rat
  rw [v.take_eq.1, renamings_append] at hrat
  rw [v.stages.rename, List.append_nil, v.commit.rat, undoRatRequests]
  cases hw : v.e.writes with
  | false =>
    rw [renamings_cons, Entry.mapping_of_not_writes hw, renamings_nil, List.append_nil,
      List.append_nil] at hrat
    exact ⟨m.rat, rfl, hrat⟩
  | true =>
    rw [renamings_cons, Entry.mapping_of_writes hw, renamings_nil, List.append_nil] at hrat
    obtain ⟨rat, hrun, hok⟩ := hrat.restoreMap_ok
    exact ⟨rat, (List.foldlM_cons).trans (by simpa [mapAt, Rat.apply] using hrun), hok⟩

/-- The register file keeps the committed values. -/
theorem regfile_sync (h : Walk m w (v.pre.length + 1)) :
    ∃ regfile, m.regfile.sync (s.cm.regRequests ++ (Wb.run m.executeWbPorts s.cm.fb).2.1) =
        .ok regfile ∧
      (∀ a ∈ archRegs, regfile.regDataValid (w.cmap a) = true ∧
        regfile.regData (w.cmap a) = w.arch.regs a) ∧
      ∀ p < phyRegNum, p ∉ live archRegs w.cmap (renamings v.pre) → regfile.regDataValid p = false := by
  have hwb : (Wb.run m.executeWbPorts s.cm.fb).2.1 = [] := by simp [Wb.run, v.stages.flushing]
  have hrat := h.rat
  have hfree := h.free
  rw [v.take_eq.1, renamings_append] at hrat hfree
  rw [hwb, List.append_nil, v.commit.reg, undoRegRequests]
  cases hw : v.e.writes with
  | false =>
    rw [renamings_cons, Entry.mapping_of_not_writes hw, renamings_nil, List.append_nil,
      List.append_nil] at hfree
    exact ⟨m.regfile, rfl, h.committed, hfree⟩
  | true =>
    rw [renamings_cons, Entry.mapping_of_writes hw, renamings_nil, List.append_nil] at hrat hfree
    have hlast : (v.e.op.rd, v.e.op.rdPhy) ∈ renamings v.pre ++ [(v.e.op.rd, v.e.op.rdPhy)] := by simp
    have hlt : v.e.op.rdPhy < phyRegNum := hrat.bound _ (Renaming.mem_live.mpr (.inr ⟨_, hlast, rfl⟩))
    refine ⟨_, m.regfile.sync_write [(v.e.op.rdPhy, 0, false)] (by simpa using hlt), ?_, ?_⟩
    -- the undone register is not a committed one
    · intro a ha
      have hne : w.cmap a ≠ v.e.op.rdPhy := hrat.ok.fresh _ hlast a ha
      simpa [Renaming.mapAfter_cons, hne] using h.committed a ha
    · intro p hp hnot
      by_cases hpe : p = v.e.op.rdPhy
      · simp [Renaming.mapAfter_cons, hpe]
      · have hnot' : p ∉ live archRegs w.cmap (renamings v.pre ++ [(v.e.op.rd, v.e.op.rdPhy)]) := by
          rw [Renaming.live_snoc]
          rintro (hp' | hp')
          · exact hpe hp'
          · exact hnot hp'
        simpa [Renaming.mapAfter_cons, hpe] using hfree p hp hnot'

/-- The store buffer drops what is not committed. -/
theorem store_sync (h : Walk m w (v.pre.length + 1)) :
    ∃ q, m.storeBuffer.run s.cm.fb = .ok (q, [], true) ∧
      StoreOk q m.bus.memory { w with flight := [] } := by
  have hflight : ({ w with flight := [] } : Window).flight = [] ++ [] := rfl
  exact h.store.flushed hflight (fun _ he => absurd he List.not_mem_nil) FlightOk.nil List.nodup_nil
    v.stages.flushing (v.commit.committed.trans rfl) (fun _ he => absurd he List.not_mem_nil) 0

omit v in
theorem trapRequests_plain (csr : Csrfile) (c : CommitState) :
    ∀ r ∈ trapRequests csr c, r.Known ∧ r.Plain := by
  intro r hr
  unfold trapRequests Commit.exceptionEntry at hr
  split_ifs at hr
  · simp only [List.mem_cons, List.not_mem_nil, or_false] at hr
    obtain rfl | rfl | rfl := hr <;> exact ⟨rfl, _, _, rfl, rfl⟩
  · simp only [List.mem_cons, List.not_mem_nil, or_false] at hr
    obtain rfl | rfl | rfl | rfl := hr <;> exact ⟨rfl, _, _, rfl, rfl⟩

/-- The trap is entered with the last step. -/
theorem csrRequests_eq :
    s.cm.csrRequests = if v.pre = [] then trapRequests (m.csrAt env n) m.commit else [] := by
  obtain hpre | ⟨pre', x, hpre⟩ := List.eq_nil_or_concat v.pre
  · rw [if_pos hpre]
    exact (v.commit.last hpre).2.2.2.1
  · rw [List.concat_eq_append] at hpre
    rw [if_neg (by rw [hpre]; simp)]
    exact (v.commit.step pre' x hpre).2.2.2.1

/-- Its CSR writes are to known registers. -/
theorem csr_plain : ∀ r ∈ s.csrRequests env n m, r.Known ∧ r.Plain := by
  intro r hr
  rw [Stages.csrRequests, v.csrRequests_eq, List.mem_append] at hr
  obtain hr | hr := hr
  · split_ifs at hr
    · exact trapRequests_plain _ _ r hr
    · cases hr
  · obtain rfl := List.mem_singleton.mp hr
    exact ⟨rfl, _, _, rfl, rfl⟩

/-- What the queued requests leave. -/
structure Updated (v : WalkStages env n m w s) (u : Updates) : Prop where
  synced : s.Synced env n m u
  rat : RatOk u.rat w.cmap (renamings v.pre)
  committed : ∀ a ∈ archRegs, u.regfile.regDataValid (w.cmap a) = true ∧
    u.regfile.regData (w.cmap a) = w.arch.regs a
  free : ∀ p < phyRegNum, p ∉ live archRegs w.cmap (renamings v.pre) → u.regfile.regDataValid p = false
  dropped : u.dropped = true
  writes : u.writes = []
  store : StoreOk u.storeBuffer u.bus.memory { w with flight := [] }

/-- The components after the cycle. -/
theorem updated (h : Walk m w (v.pre.length + 1))
    (hu : s.Synced env n m u) : v.Updated u := by
  obtain ⟨rat, h₁, hrat⟩ := v.rat_sync h
  obtain ⟨regfile, h₂, hcom, hfree⟩ := v.regfile_sync h
  obtain ⟨q, h₃, hstore⟩ := v.store_sync h
  obtain ⟨rat', regfile', csrFile', q', writes', dropped', bus', counted'⟩ := u
  cases h₁.symm.trans hu.rat
  cases h₂.symm.trans hu.regfile
  cases h₃.symm.trans hu.store
  have hbus : bus' = { m.bus with clint := m.bus.clint.runPost } := by
    cases hu.bus
    rfl
  subst hbus
  exact ⟨hu, hrat, hcom, hfree, rfl, rfl, hstore⟩

/-- A cycle of the walk always succeeds. -/
theorem exists_synced (h : Walk m w (v.pre.length + 1)) :
    ∃ u, s.Synced env n m u := by
  obtain ⟨rat, h₁, -⟩ := v.rat_sync h
  obtain ⟨regfile, h₂, -⟩ := v.regfile_sync h
  obtain ⟨q, h₃, -⟩ := v.store_sync h
  obtain ⟨csr, h₅⟩ := (Stages.csrBefore env n m).sync_plain v.csr_plain
  obtain ⟨counted, h₆⟩ := sysWrites_ok csr (m.cpuClockCycle + 1) s.rn.rob.globalCommitNum s.ft.perf
  exact ⟨⟨rat, regfile, csr, q, [], true, _, counted⟩, h₁, h₂, h₅, h₃, rfl, h₆⟩

theorem storeBuffer_eq (hu : v.Updated u) :
    (s.machine env n m u).storeBuffer = u.storeBuffer := by
  show u.storeBuffer.sync (if u.dropped then [] else s.ex.pushes) = u.storeBuffer
  rw [hu.dropped]
  rfl

theorem rob_eq (u : Updates) :
    (s.machine env n m u).rob.fifo = s.cm.rob.fifo := by
  show s.rn.rob.fifo.sync s.cm.robRequests = _
  rw [v.stages.rename, v.commit.robRequests]
  rfl

theorem checkpointBuffer_eq (u : Updates) :
    (s.machine env n m u).checkpointBuffer = m.checkpointBuffer := by
  rw [v.stages.checkpointBuffer_eq v.commit.cpRequests, v.commit.cpb]

/-- The walk writes nothing to memory. -/
theorem writes_eq (hu : v.Updated u) :
    { w with writes := w.writes ++ (s.log env n m u).writes } = w := by
  rw [show (s.log env n m u).writes = u.writes from rfl, hu.writes, List.append_nil]

/-- Above the head, the window does not change. -/
theorem step_eq {j : Nat} (h : Walk m w j) (hu : v.Updated u)
    (hpre : v.pre ≠ []) : w.step (s.log env n m u) = w := by
  obtain ⟨pre', x, hpre'⟩ := (List.eq_nil_or_concat v.pre).resolve_left hpre
  rw [List.concat_eq_append] at hpre'
  have hbefore : (s.log env n m u).phaseBefore ≠ .normal := h.phase
  have hafter : (s.log env n m u).phaseAfter ≠ .normal := by
    show s.cm.state.curState ≠ .normal
    rw [(v.commit.step pre' x hpre').1]
    exact h.phase
  unfold Window.step
  simp only [v.writes_eq hu]
  rw [if_neg hbefore, if_neg hafter]

/-- At the head, the window becomes empty and goes to the handler. -/
theorem step_last {j : Nat} (h : Walk m w j) (hu : v.Updated u)
    (hpre : v.pre = []) : w.step (s.log env n m u) =
      { w with
        arch := { w.arch with pc := m.csrFile.value csrMtvec }
        events := w.events ++ [w.trapEvent (s.log env n m u)]
        flight := [] } := by
  obtain ⟨hstate, -, -, -, -, -, hpc⟩ := v.commit.last hpre
  have hbefore : (s.log env n m u).phaseBefore ≠ .normal := h.phase
  have hafter : (s.log env n m u).phaseAfter = .normal := by
    show s.cm.state.curState = .normal
    rw [hstate]
  have hpc' : (s.log env n m u).fb.exceptionPc = m.csrFile.value csrMtvec := hpc
  have hwrites : (s.log env n m u).writes = [] := hu.writes
  unfold Window.step
  simp only [v.writes_eq hu]
  rw [if_neg hbefore, if_pos hafter, hpc', hwrites, List.append_nil]

/-- Above the head, the walk goes on with the entry before. -/
theorem step (h : Walk m w (v.pre.length + 1)) (hu : s.Synced env n m u)
    (hpre : v.pre ≠ []) :
    Walk (s.machine env n m u) (w.step (s.log env n m u)) v.pre.length := by
  have hup := v.updated h hu
  rw [v.step_eq h hup hpre]
  obtain ⟨pre', x, hpre'⟩ := (List.eq_nil_or_concat v.pre).resolve_left hpre
  rw [List.concat_eq_append] at hpre'
  obtain ⟨hstate, hrob, -, hcsr, -, -⟩ := v.commit.step pre' x hpre'
  have hvalue {a : Nat} (ha : StableCsr a) :
      (s.machine env n m u).csrFile.value a = m.csrFile.value a := by
    show u.counted.value a = _
    rw [hu.value ha.1 ha.2.1, hcsr]
    rfl
  have hcommit : (s.machine env n m u).commit = { m.commit with restoreRobItemId := x.op.robId } :=
    hstate
  constructor
  case phase =>
    rw [hcommit]
    exact h.phase
  case shape => exact v.stages.shape h.shape u
  case rob =>
    rw [v.rob_eq, hrob]
    exact h.rob
  case rat =>
    rw [v.take_eq.2]
    exact hup.rat
  case ids =>
    rw [hcommit]
    exact h.ids
  case restore =>
    rw [hcommit]
    refine ⟨List.length_pos_iff.mpr hpre, ?_⟩
    rw [v.flight, hpre']
    simp
  case committed => exact hup.committed
  case free =>
    rw [v.take_eq.2]
    exact hup.free
  case pc => exact h.pc
  -- the walk goes on, with the trap that began it
  case exception =>
    rw [hcommit]
    intro hph
    obtain ⟨e, rest, r, hf, hs, hx, hitem, hcomp⟩ := h.exception hph
    exact ⟨e, rest, r, hf, hs, hx, hitem, hcomp.congr fun a ha => (hvalue ha).symm⟩
  case interrupt =>
    rw [hcommit]
    intro hph
    obtain ⟨hpc, hen⟩ := h.interrupt hph
    refine ⟨hpc, ?_⟩
    rw [interruptEnabled_congr (hvalue (by decide)) (hvalue (by decide))]
    exact hen
  case drained => exact v.stages.drained u
  case ports => exact v.stages.idle u
  case store =>
    rw [v.storeBuffer_eq hup]
    exact hup.store
  case cp =>
    rw [v.checkpointBuffer_eq]
    exact h.cp
  case first =>
    show s.ft.state.waitFirstMemoryResult = false
    rw [v.stages.fetch]
    exact h.first

omit v in
/-- A trap stores nothing. -/
theorem retiredStores_snoc_trap (events : List Event) (w : Window) (log : CycleLog) :
    retiredStores (events ++ [w.trapEvent log]) = retiredStores events := by
  unfold Window.trapEvent
  split <;> simp [retiredStores]

/-- At the head, the relation holds of the empty window at the handler. -/
theorem last (h : Walk m w (v.pre.length + 1)) (hu : s.Synced env n m u)
    (hpre : v.pre = []) : Normal (s.machine env n m u) (w.step (s.log env n m u)) := by
  have hup := v.updated h hu
  rw [v.step_last h hup hpre]
  obtain ⟨hstate, hrob, -, -, -, hex, hpc⟩ := v.commit.last hpre
  have hrat := hup.rat
  have hfree := hup.free
  rw [hpre] at hrat hfree
  refine v.stages.normal h.shape rfl ?_ ?_ hrat ⟨hup.committed, by simp, hfree⟩ ?_ ?_ ?_
    v.commit.cpRequests
  · rw [hstate]
  · rw [v.rob_eq, hrob]
    exact h.rob.flush _
  · rw [v.storeBuffer_eq hup]
    obtain ⟨com, hlist, hcom⟩ := hup.store.items
    refine ⟨hup.store.wf, hup.store.save, ⟨com, hlist, hcom.committed, hcom.aligned, hcom.memory, ?_⟩,
      hup.store.loads⟩
    rw [hcom.writes, retiredStores_snoc_trap]
  · rw [CommitFeedbackPack.flushPc, hex]
    exact hpc
  · rw [v.commit.cpb]
    exact h.cp

end WalkStages

end MyRiscvCore
