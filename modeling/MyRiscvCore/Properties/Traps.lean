import MyRiscvCore.Properties.Dispatch
import MyRiscvCore.Properties.Fate
import MyRiscvCore.Properties.Recovery

/-!
# MyRiscvCore — precise traps and the interrupt-enable stack

An exception or interrupt is detected in one cycle, walked back over the reorder buffer in the next ones, and
enters the handler in the last of them.

* `precise_traps` — at the handler, all that is older than the trap has happened once, nothing of the trapping
  instruction or a younger one has, and the trap CSRs say where to resume. `mepc` keeps a word address: of a
  misaligned pc it loses the two low bits.
* `interrupt_stacking` — of the three branches that should stack the interrupt enable, only the interrupt entry
  does: the exception entry leaves `mstatus` alone, and `mret` does not set `MPIE`.
-/

namespace MyRiscvCore

section Walk

variable {env : Env} {n : Nat} {m m' : Machine} {w : Window} {j : Nat} {logs : List CycleLog} {log : CycleLog}

/-- One cycle of a walk: the window stays, until the last cycle adds the trap and empties it. -/
theorem Walk.cycle_window (h : Walk m w (j + 1)) (hc : cycle env n m = .ok (m', log)) :
    (0 < j → Walk m' w j ∧ w.step log = w ∧ m'.commit.curState = m.commit.curState ∧
      m'.commit.interruptId = m.commit.interruptId ∧
      ∀ a, StableCsr a → m'.csrFile.value a = m.csrFile.value a) ∧
    (j = 0 → ∃ ev, WalkEvent w m.commit m.csrFile.value ev ∧ (w.step log).events = w.events ++ [ev] ∧
      (w.step log).flight = []) := by
  obtain ⟨s, v, hj⟩ := h.walkStages env n
  obtain rfl : j = v.pre.length := Nat.succ.inj hj
  obtain ⟨u, hu⟩ := v.exists_synced h
  obtain ⟨rfl, rfl⟩ : m' = s.machine env n m u ∧ log = s.log env n m u := by
    have hsame := Except.ok.inj (hc.symm.trans (cycle_ok_iff.mpr ⟨s, u, v.stages.ran, hu, rfl, rfl⟩))
    exact Prod.mk.inj hsame
  refine ⟨fun hpos => ?_, fun h0 => ?_⟩
  -- within the walk nothing is shown and no stable CSR changes
  · have hpre : v.pre ≠ [] := List.length_pos_iff.mp hpos
    obtain ⟨pre', x, hpre'⟩ := (List.eq_nil_or_concat v.pre).resolve_left hpre
    obtain ⟨hstate, -, -, hreq, -⟩ := v.commit.step pre' x (by rw [hpre', List.concat_eq_append])
    have hstep := v.step_eq h (v.updated h hu) hpre
    have hwalk := v.step h hu hpre
    rw [hstep] at hwalk
    refine ⟨hwalk, hstep, congrArg (·.curState) hstate, congrArg (·.interruptId) hstate,
      fun a ha => ?_⟩
    rw [show (s.machine env n m u).csrFile.value a = csrAfter m.csrFile.value s.cm.csrRequests a from
      hu.value ha.1 ha.2.1, hreq]
    rfl
  · have hpre : v.pre = [] := List.eq_nil_of_length_eq_zero h0
    refine ⟨_, v.walkEvent h hpre u, ?_, ?_⟩ <;> rw [v.step_last h (v.updated h hu) hpre]

theorem WalkEvent.congr {c c' : CommitState} {csr csr' : Nat → Word} {ev : Event} (h : WalkEvent w c csr ev)
    (hphase : c.curState = c'.curState) (hid : c.interruptId = c'.interruptId)
    (hcsr : ∀ a, StableCsr a → csr a = csr' a) : WalkEvent w c' csr' ev := by
  obtain ⟨e, rest, hf, hpc, hev⟩ := h
  refine ⟨e, rest, hf, hpc, ?_⟩
  have hmtvec := hcsr csrMtvec (by decide)
  have hmstatus := hcsr csrMstatus (by decide)
  rw [← hphase, ← hid]
  refine hev.imp ?_ ?_
  · rintro ⟨hst, r, hs, hx, hcomp, rfl⟩
    exact ⟨hst, r, hs, hx, hcomp.congr hcsr, by rw [hmtvec]⟩
  · rintro ⟨hst, rfl⟩
    exact ⟨hst, by rw [hmtvec, interruptWrites, interruptWrites, hmstatus]⟩

/-- The cycles of a walk. -/
theorem Walk.run_window (hrun : run env n = .ok (m, logs)) (h : Walk m (Window.after env logs) (j + 1)) :
    ∃ m' logs' ev, run env (n + (j + 1)) = .ok (m', logs') ∧
      WalkEvent (Window.after env logs) m.commit m.csrFile.value ev ∧
      (Window.after env logs').events = (Window.after env logs).events ++ [ev] ∧
      (Window.after env logs').flight = [] := by
  induction j generalizing n m logs with
  | zero =>
    obtain ⟨m', log, -, hc, -⟩ := h.cycle_ok env n
    obtain ⟨ev, hev, hlast⟩ := (h.cycle_window hc).2 rfl
    refine ⟨m', logs ++ [log], ev, run_succ.mpr ⟨m, logs, log, hrun, hc, rfl⟩, hev, ?_⟩
    rw [Window.after_snoc]
    exact hlast
  | succ j ih =>
    obtain ⟨m₁, log, -, hc, -⟩ := h.cycle_ok env n
    obtain ⟨hwalk, hstep, hphase, hid, hcsr⟩ := (h.cycle_window hc).1 (Nat.succ_pos j)
    have hwin : Window.after env (logs ++ [log]) = Window.after env logs := by rw [Window.after_snoc, hstep]
    obtain ⟨m', logs', ev, hrun', hev, hlast⟩ := ih (run_succ.mpr ⟨m, logs, log, hrun, hc, rfl⟩) (hwin ▸ hwalk)
    rw [hwin] at hev hlast
    refine ⟨m', logs', ev, ?_, hev.congr hphase hid hcsr, hlast⟩
    rw [← hrun']
    congr 1
    omega

end Walk

/-! ## Precise traps

When the walk ends, exactly the events before the trap have taken effect. -/

/-- At the handler of a trap that came after `events`, with the instruction at `pc` next. -/
structure PreciseTrap (env : Env) (events : List Event) (pc cause value : Word) (writes : List Csrfile.Request)
    (m : Machine) (logs : List CycleLog) : Prop where
  /-- The trap CSRs. -/
  mepc : m.csrFile.value csrMepc = pc &&& 0xFFFFFFFC
  mcause : m.csrFile.value csrMcause = cause
  mtval : m.csrFile.value csrMtval = value
  /-- The registers have the results of the instructions before the trap and of no others. -/
  regs : ∀ a ∈ archRegs, readArchreg m a = .ok (lastWritten events a)
  /-- The CSR file has got their writes, once and in program order, and then those of the trap. -/
  csrWrites : logs.flatMap (·.csrWrites) = programCsrWrites env events ++ writes
  csr : ∀ a, StableCsr a → m.csrFile.value a =
    csrAfter (csrAfter Csrfile.reset.value (programCsrWrites env events)) writes a
  /-- The bus has got their stores, or the store buffer holds them to be written. -/
  stores : logs.flatMap (·.writes) ++ m.storeBuffer.toList.map (fun i => ⟨i.addr, i.size, i.data⟩) =
    programStores events
  committed : ∀ i ∈ m.storeBuffer.toList, i.committed = true
  /-- Nothing is left of the trapping instruction and the younger ones. -/
  rob : m.rob.fifo.toList = []
  flight : (Window.after env logs).flight = []
  /-- The handler is next. -/
  handler : getCurrentPc m = csrAfter Csrfile.reset.value (programCsrWrites env events) csrMtvec
  /-- Going on at `mepc` instead is going on where the trap came. -/
  resume : pc &&& 3 = 0 → { (Window.after env logs).arch with pc := m.csrFile.value csrMepc } =
    (InOrder.after env events).arch

section Traps

variable {env : Env} {n : Nat} {m m₀ m' : Machine} {logs logs' : List CycleLog} {log : CycleLog}
  {events : List Event} {ev : Event} {pc cause value : Word} {writes : List Csrfile.Request}

/-- The CSRs after an interrupt. -/
theorem csrAfter_interruptWrites (csr csr' : Nat → Word) (pc : Word) (id : RiscvInterrupt) :
    csrAfter csr (interruptWrites csr' pc id) = Function.update (Function.update (Function.update
      (Function.update csr csrMepc (pc &&& 0xFFFFFFFC)) csrMtval 0) csrMcause (0x80000000 ||| id.code)) csrMstatus
      (setMie (setMpie (csr' csrMstatus) (getMie (csr' csrMstatus))) false &&& 0x88) := by
  have hall (v : Word) : v &&& 0xFFFFFFFF = v := BitVec.and_allOnes
  rw [show csrAfter csr (interruptWrites csr' pc id) = Function.update (Function.update (Function.update
    (Function.update csr csrMepc (pc &&& 0xFFFFFFFC)) csrMtval (0 &&& 0xFFFFFFFF)) csrMcause
    ((0x80000000 ||| id.code) &&& 0xFFFFFFFF)) csrMstatus
    (setMie (setMpie (csr' csrMstatus) (getMie (csr' csrMstatus))) false &&& 0x88) from rfl, hall, hall]

/-- A state with nothing in flight whose last event is a trap. -/
theorem preciseTrap_of_events (h : run env n = .ok (m, logs))
    (hevents : (Window.after env logs).events = events ++ [ev]) (hflight : (Window.after env logs).flight = [])
    (harch : ∀ b, ev.archAfter b = { b with pc := (InOrder.after env events).csr csrMtvec })
    (hwrites : ev.csrWrites (InOrder.after env events).csr = writes)
    (hstores : ev.stores (lastWritten events) = []) (hpc : pc = (InOrder.after env events).arch.pc)
    (hvalues : ∀ csr, csrAfter csr writes csrMepc = pc &&& 0xFFFFFFFC ∧ csrAfter csr writes csrMcause = cause ∧
      csrAfter csr writes csrMtval = value) :
    PreciseTrap env events pc cause value writes m logs := by
  have href := run_refines h
  have hin := run_inOrder h
  have hcsr (a : Nat) (ha : StableCsr a) : m.csrFile.value a =
      csrAfter (InOrder.after env events).csr writes a := by
    rw [hin.csr a ha, hevents, InOrder.after_snoc, ← hwrites]
    rfl
  have harch' : (Window.after env logs).arch =
      { (InOrder.after env events).arch with pc := (InOrder.after env events).csr csrMtvec } := by
    rw [← hin.arch, hevents, InOrder.after_snoc, ← harch]
    rfl
  have hrob : RobOk m.rob.fifo (Window.after env logs).cmap [] := by
    rw [← hflight]
    obtain href | ⟨j, href⟩ := href
    · exact href.rob
    · exact href.rob
  -- nothing in flight, so the store buffer holds committed stores only
  have hcom : ComOk m.storeBuffer.toList m.bus.memory (Window.after env logs) := by
    obtain href | ⟨j, href⟩ := href
    · obtain ⟨com, hlist, hcom⟩ := href.store.items
      rw [hflight, show storesOf ([] : List Entry) = [] from rfl, List.append_nil] at hlist
      rwa [hlist]
    · obtain ⟨com, hlist, hcom⟩ := href.store.items
      rw [show storesOf ([] : List Entry) = [] from rfl, List.append_nil] at hlist
      rw [hlist]
      exact ⟨hcom.committed, hcom.aligned, hcom.memory, hcom.writes⟩
  have hmepc : m.csrFile.value csrMepc = pc &&& 0xFFFFFFFC := (hcsr _ (by decide)).trans (hvalues _).1
  constructor
  case mepc => exact hmepc
  case mcause => exact (hcsr _ (by decide)).trans (hvalues _).2.1
  case mtval => exact (hcsr _ (by decide)).trans (hvalues _).2.2
  case regs =>
    intro a ha
    rw [href.readArchreg_eq ha, harch', ← InOrder.regs_after env]
  case csrWrites => rw [run_csrWrites h, hevents, programCsrWrites_snoc, hwrites]
  case csr =>
    intro a ha
    rw [hcsr a ha, InOrder.csr_after]
  case stores =>
    have hsnoc := programStores_snoc events ev
    rw [hstores, List.append_nil, ← hevents, ← (programStores_eq hin.events).1, ← hcom.writes,
      Window.writes_after] at hsnoc
    exact hsnoc
  case committed => exact hcom.committed
  case rob => rw [Fifo.toList, hrob.ids]; rfl
  case flight => exact hflight
  case handler => rw [href.getCurrentPc_eq, harch', InOrder.csr_after]
  case resume =>
    intro halign
    rw [hmepc, mepc_of_aligned halign, harch', hpc]

/-- The cycle that accepts an interrupt notes which one it is. -/
theorem Refines.interrupt_cycle {w : Window} (h : Refines m w) (hc : cycle env n m = .ok (m₀, log))
    (hnormal : log.phaseBefore = .normal) (hint : log.phaseAfter = .interruptFlush) :
    (m.interruptsAt env n).getCause (m.csrAt env n) = .ok (some m₀.commit.interruptId) := by
  obtain ⟨s, u, hcase, hu, rfl, rfl⟩ := h.cycle_ok hc
  have hspec {ret rest : List Entry} {stop : Stop} (hcm : CommitSpec (m.csrAt env n) (m.interruptsAt env n)
      m.rob.fifo m.checkpointBuffer w.cmap m.wbCommitPort m.perf s.cm ret rest stop) :
      (m.interruptsAt env n).getCause (m.csrAt env n) = .ok (some s.cm.state.interruptId) := by
    have hstop : stop = .interrupt := by
      have hphase := hcm.phase.symm.trans hint
      cases stop <;> first | rfl | cases hphase
    obtain ⟨-, ⟨cause, hcause, hid⟩, -⟩ := hcm.interrupt hstop
    rw [hcause, hid]
  cases hcase with
  | flow h f => exact hspec f.commit
  | flush h g => exact hspec g.commit
  | walk v h => exact absurd hnormal h.phase

/-- A trap is precise. The cycle that detects it retires what is older; some cycles later the machine is at the
handler, and the registers, the CSRs and the memory have the effects of the instructions up to the trap, once
each, and of no others. -/
theorem precise_traps (h : run env n = .ok (m, logs)) (hc : cycle env n m = .ok (m₀, log))
    (hnormal : log.phaseBefore = .normal) (htrap : log.phaseAfter ≠ .normal) :
    ∀ events, events = (Window.after env (logs ++ [log])).events →
    ∃ e rest k m' logs', (Window.after env (logs ++ [log])).flight = e :: rest ∧ e.op.pc = nextPc events ∧
      k ≤ robSize ∧ run env (n + 1 + k) = .ok (m', logs') ∧
      (log.phaseAfter = .flush → ∃ r, e.status = .finished r ∧ r.hasException = true ∧
        Computes (InOrder.after env events).arch (InOrder.after env events).csr e r ∧
        PreciseTrap env events e.op.pc r.exceptionId.code r.exceptionValue
          (exceptionWrites e.op.pc r.toExceptionInfo) m' logs') ∧
      (log.phaseAfter = .interruptFlush → ∃ id, (m.interruptsAt env n).getCause (m.csrAt env n) = .ok (some id) ∧
        PreciseTrap env events e.op.pc (0x80000000 ||| id.code) 0
          (interruptWrites (InOrder.after env events).csr e.op.pc id) m' logs') := by
  rintro events rfl
  obtain ⟨k, hwalk, hk⟩ := (run_refines h).trap_cycle hc hnormal htrap
  have hrun : run env (n + 1) = .ok (m₀, logs ++ [log]) := run_succ.mpr ⟨m, logs, log, h, hc, rfl⟩
  rw [← Window.after_snoc] at hwalk hk
  obtain ⟨k, rfl⟩ : ∃ j, k = j + 1 := Nat.exists_eq_succ_of_ne_zero (Nat.pos_iff_ne_zero.mp hwalk.restore.1)
  have hin := run_inOrder hrun
  -- at the end of the walk the trap is the only new event
  obtain ⟨m', logs', ev, hrun', hev, hevents, hflight⟩ := hwalk.run_window hrun
  have hphase : m₀.commit.curState = log.phaseAfter := by
    obtain ⟨s, u, -, -, rfl, rfl⟩ := cycle_ok_iff.mp hc
    rfl
  obtain ⟨e, rest, hf, hpc, hev⟩ := hev.congr rfl rfl hin.csr
  rw [← hin.arch] at hev hpc
  refine ⟨e, rest, k + 1, m', logs', hf, ?_, ?_, hrun', fun hflush => ?_, fun hint => ?_⟩
  · rw [hpc, hin.arch, hin.pc_eq]
  · rw [hk, ← hwalk.rob.count_eq, ← hwalk.rob.size]
    exact hwalk.rob.wf.count_le
  · obtain ⟨-, r, hs, hx, hcomp, rfl⟩ | ⟨hst, -⟩ := hev
    · refine ⟨r, hs, hx, hcomp, preciseTrap_of_events hrun' hevents hflight (fun _ => rfl) rfl rfl hpc fun csr => ?_⟩
      rw [csrAfter_exceptionWrites]
      exact ⟨rfl, rfl, rfl⟩
    · rw [hphase, hflush] at hst
      cases hst
  · obtain ⟨hst, -⟩ | ⟨-, rfl⟩ := hev
    · rw [hphase, hint] at hst
      cases hst
    · refine ⟨m₀.commit.interruptId, ?_, preciseTrap_of_events hrun' hevents hflight (fun _ => rfl) rfl rfl hpc
        fun csr => ?_⟩
      · exact (run_refines h).interrupt_cycle hc hnormal hint
      · rw [csrAfter_interruptWrites]
        exact ⟨rfl, rfl, rfl⟩

/-- The zero word after two additions traps; both have their effect. -/
theorem precise_traps_doubleWrite : ∃ m logs m₀ log, run (Env.ofProgram doubleWrite) 11 = .ok (m, logs) ∧
    cycle (Env.ofProgram doubleWrite) 11 m = .ok (m₀, log) ∧ log.phaseAfter = .flush ∧
    ∃ (events : List Event) (e : Entry) (r : ExecuteWbPack) (k : Nat) (m' : Machine) (logs' : List CycleLog),
      events = (Window.after (Env.ofProgram doubleWrite) (logs ++ [log])).events ∧
      run (Env.ofProgram doubleWrite) (11 + 1 + k) = .ok (m', logs') ∧
      PreciseTrap (Env.ofProgram doubleWrite) events e.op.pc r.exceptionId.code r.exceptionValue
        (exceptionWrites e.op.pc r.toExceptionInfo) m' logs' := by
  obtain ⟨m, logs, m₀, log, h, hc, hphase⟩ := exists_cycle_ok (show lastCycle
    (fun log => decide (log.phaseBefore = .normal ∧ log.phaseAfter = .flush))
    (run (Env.ofProgram doubleWrite) 12) = true by decide +kernel)
  obtain ⟨hbefore, hafter⟩ := of_decide_eq_true hphase
  obtain ⟨e, rest, k, m', logs', -, -, -, hrun, hexc, -⟩ :=
    precise_traps h hc hbefore (by rw [hafter]; decide) _ rfl
  obtain ⟨r, -, -, -, hprecise⟩ := hexc hafter
  exact ⟨m, logs, m₀, log, h, hc, hafter, _, e, r, k, m', logs', rfl, hrun, hprecise⟩

/-- A jump to address 2. -/
def jumpMisaligned : List Word := [0x00200067]

/-- `mepc` has lost the low bits of the pc of the trapping instruction. -/
theorem jumpMisaligned_mepc : ∃ m logs pre b e handler writes,
    run (Env.ofProgram jumpMisaligned) 49 = .ok (m, logs) ∧
    (Window.after (Env.ofProgram jumpMisaligned) logs).events = pre ++ [.exception b e handler writes] ∧
    e.op.pc = 2 ∧ m.csrFile.value csrMepc = 0 := by
  obtain ⟨m, logs, h, hP⟩ := exists_run_of (show endsWith (fun m logs =>
    m.csrFile.value csrMepc == 0 && (Window.after (Env.ofProgram jumpMisaligned) logs).events.getLast?.any fun ev =>
      match ev with
      | .exception _ e _ _ => e.op.pc == 2
      | _ => false) (run (Env.ofProgram jumpMisaligned) 49) = true by decide +kernel)
  obtain ⟨hmepc, hany⟩ := Bool.and_eq_true_iff.mp hP
  obtain ⟨ev, hev, hpc⟩ := (Option.any_eq_true _ _).mp hany
  obtain ⟨pre, hpre⟩ := List.getLast?_eq_some_iff.mp hev
  cases ev with
  | exception b e handler writes =>
    exact ⟨m, logs, pre, b, e, handler, writes, h, hpre, eq_of_beq hpc, eq_of_beq hmepc⟩
  | retire b mepc e => cases hpc
  | interrupt b handler writes => cases hpc

end Traps

/-- `mstatus` after these events. -/
def mstatusAfter (env : Env) (events : List Event) : Word := (InOrder.after env events).csr csrMstatus

/-- What an event should make of `mstatus`: a trap moves `MIE` to `MPIE` and clears it, an `mret` moves it back
and sets `MPIE`. -/
def Stacks (before after : Word) : Event → Prop
  | .retire _ _ e => e.op.op = .mret → getMie after = getMpie before ∧ getMpie after = true
  | .exception _ _ _ _ | .interrupt _ _ _ => getMpie after = getMie before ∧ getMie after = false

/-- When it does: an exception leaves `mstatus`, and an `mret` leaves `MPIE`. -/
def StacksWhen (before : Word) : Event → Prop
  | .retire _ _ e => e.op.op = .mret → getMpie before = true
  | .exception _ _ _ _ => getMie before = false ∧ getMpie before = false
  | .interrupt _ _ _ => True

section Stack

variable {env : Env} {n : Nat} {m : Machine} {logs : List CycleLog} {pre post body : List Event} {ev t x : Event}
  {b : Arch} {mepc handler : Word} {e : Entry} {writes : List Csrfile.Request}

theorem mstatusAfter_snoc (env : Env) (events : List Event) (ev : Event) : mstatusAfter env (events ++ [ev]) =
    csrAfter (InOrder.after env events).csr (ev.csrWrites (InOrder.after env events).csr) csrMstatus := by
  rw [mstatusAfter, InOrder.after_snoc]
  rfl

/-- An exception leaves `mstatus` alone. -/
theorem mstatusAfter_exception (hok : EventOk (InOrder.after env pre) (.exception b e handler writes)) :
    mstatusAfter env (pre ++ [.exception b e handler writes]) = mstatusAfter env pre := by
  obtain ⟨-, -, r, -, -, -, rfl⟩ := hok
  rw [mstatusAfter_snoc, Event.csrWrites, csrAfter_exceptionWrites]
  rfl

/-- An interrupt was enabled, and saves and clears the enable bit. -/
theorem mstatusAfter_interrupt (hok : EventOk (InOrder.after env pre) (.interrupt b handler writes)) :
    getMie (mstatusAfter env pre) = true ∧
      getMie (mstatusAfter env (pre ++ [.interrupt b handler writes])) = false ∧
      getMpie (mstatusAfter env (pre ++ [.interrupt b handler writes])) = getMie (mstatusAfter env pre) := by
  obtain ⟨-, -, id, hen, rfl⟩ := hok
  have hmie : getMie (mstatusAfter env pre) = true := by
    cases id <;> exact (Bool.and_eq_true_iff.mp hen).1
  rw [mstatusAfter_snoc, Event.csrWrites, csrAfter_interruptWrites, Function.update_self]
  refine ⟨hmie, ?_, ?_⟩
  · rw [getMie_stored, getMie_setMie]
  · rw [getMpie_stored, getMpie_setMie, getMpie_setMpie]
    rfl

/-- `mret` restores it. -/
theorem mstatusAfter_mret (hok : EventOk (InOrder.after env pre) (.retire b mepc e)) (hop : e.op.op = .mret) :
    getMie (mstatusAfter env (pre ++ [.retire b mepc e])) = getMpie (mstatusAfter env pre) ∧
      getMpie (mstatusAfter env (pre ++ [.retire b mepc e])) = getMpie (mstatusAfter env pre) := by
  obtain ⟨-, -, r, hs, -, hcomp⟩ := hok
  have hunit : e.op.opUnit = .bru := (hcomp.pack.mret_iff.mp hop).1
  have hinfo : r.opUnit = .bru := by
    rw [hcomp.result.sameOp.info, archPack, packOf_info, hunit]
  have hno : r.csrNewvalueValid = false := by
    by_contra hv
    have hcsr := (hcomp.result.csr_write (by simpa using hv)).1
    rw [archPack, packOf_info, hunit] at hcsr
    cases hcsr
  have hwrites : Event.csrWrites (InOrder.after env pre).csr (.retire b mepc e) =
      [.writeSys csrMstatus (setMie (mstatusAfter env pre) (getMpie (mstatusAfter env pre)))] := by
    simp [Event.csrWrites, retireCsrRequests, hs, hno, hinfo, hop, mstatusAfter]
  rw [mstatusAfter_snoc, hwrites]
  show getMie (setMie _ _ &&& 0x88) = _ ∧ getMpie (setMie _ _ &&& 0x88) = _
  rw [getMie_stored, getMie_setMie, getMpie_stored, getMpie_setMie]
  exact ⟨rfl, rfl⟩

/-- Where a predicate of prefixes changes from false to true. -/
theorem exists_rise {α : Type} {P : List α → Bool} {l : List α} (h0 : P [] = false) (h1 : P l = true) :
    ∃ l₁ a l₂, l = l₁ ++ a :: l₂ ∧ P l₁ = false ∧ P (l₁ ++ [a]) = true := by
  induction l using List.reverseRecOn with
  | nil => rw [h0] at h1; cases h1
  | append_singleton l a ih =>
    cases hl : P l with
    | false => exact ⟨l, a, [], rfl, hl, h1⟩
    | true =>
      obtain ⟨l₁, a', l₂, rfl, hrise⟩ := ih hl
      exact ⟨l₁, a', l₂ ++ [a], by simp, hrise⟩

/-- An event that does not write `mstatus` leaves it. -/
theorem mstatusAfter_of_notMem (h : ∀ r ∈ ev.csrWrites (InOrder.after env pre).csr, r.addr ≠ csrMstatus) :
    mstatusAfter env (pre ++ [ev]) = mstatusAfter env pre := by
  rw [mstatusAfter_snoc]
  refine Renaming.mapAfter_of_notMem fun y hy => ?_
  obtain ⟨r, hr, rfl⟩ := List.mem_map.mp hy
  exact h r hr

/-- The events do what they should exactly when the condition holds. -/
theorem stacks_iff (hok : EventOk (InOrder.after env pre) ev) :
    Stacks (mstatusAfter env pre) (mstatusAfter env (pre ++ [ev])) ev ↔ StacksWhen (mstatusAfter env pre) ev := by
  cases ev with
  | retire b mepc e =>
    refine forall_congr' fun hop => ?_
    obtain ⟨hmie, hmpie⟩ := mstatusAfter_mret hok hop
    rw [hmie, hmpie]
    exact and_iff_right rfl
  | exception b e handler writes =>
    rw [Stacks, StacksWhen, mstatusAfter_exception hok]
    constructor
    · rintro ⟨hmpie, hmie⟩
      exact ⟨hmie, hmpie.trans hmie⟩
    · rintro ⟨hmie, hmpie⟩
      exact ⟨hmpie.trans hmie.symm, hmie⟩
  | interrupt b handler writes =>
    obtain ⟨-, hmie, hmpie⟩ := mstatusAfter_interrupt hok
    exact iff_of_true ⟨hmpie, hmie⟩ trivial

/-- The handler of a trap: it runs up to `body`, with no further trap and no write to `mstatus`. -/
def Undisturbed (env : Env) (pre body : List Event) : Prop :=
  ∀ body₁ ev body₂, body = body₁ ++ ev :: body₂ → ev.isRetire = true ∧
    ∀ r ∈ ev.csrWrites (InOrder.after env (pre ++ body₁)).csr, r.addr ≠ csrMstatus

/-- Nothing in between touches `mstatus`. -/
theorem Undisturbed.mstatusAfter_eq (h : Undisturbed env pre body) :
    mstatusAfter env (pre ++ body) = mstatusAfter env pre := by
  induction body using List.reverseRecOn with
  | nil => rw [List.append_nil]
  | append_singleton body ev ih =>
    have hlast := (h body ev [] rfl).2
    rw [← List.append_assoc, mstatusAfter_of_notMem hlast]
    exact ih fun body₁ x body₂ hsplit => h body₁ x (body₂ ++ [ev]) (by rw [hsplit]; simp)

/-- The interrupt enable is stacked by an interrupt, by an exception with `MIE` and `MPIE` clear and by an `mret`
with `MPIE` set, and by no other of these events. A trap that is stacked is undone by the `mret` of its handler,
and no interrupt is taken before an instruction of the handler sets `MIE`. -/
theorem interrupt_stacking (h : run env n = .ok (m, logs)) :
    m.csrFile.value csrMstatus = mstatusAfter env (Window.after env logs).events ∧
    (∀ pre ev post, (Window.after env logs).events = pre ++ ev :: post →
      (Stacks (mstatusAfter env pre) (mstatusAfter env (pre ++ [ev])) ev ↔
        StacksWhen (mstatusAfter env pre) ev)) ∧
    ∀ pre t body x post, (Window.after env logs).events = pre ++ t :: (body ++ x :: post) → t.isRetire = false →
      StacksWhen (mstatusAfter env pre) t →
      ((∃ b mepc e, x = .retire b mepc e ∧ e.op.op = .mret) → Undisturbed env (pre ++ [t]) body →
        getMie (mstatusAfter env (pre ++ t :: (body ++ [x]))) = getMie (mstatusAfter env pre)) ∧
      ((∃ b handler writes, x = .interrupt b handler writes) → ∃ body₁ e body₂, body = body₁ ++ e :: body₂ ∧
        e.isRetire = true ∧ getMie (mstatusAfter env (pre ++ t :: body₁)) = false ∧
        getMie (mstatusAfter env (pre ++ t :: (body₁ ++ [e]))) = true) := by
  have hin := run_inOrder h
  refine ⟨hin.csr _ (by decide), fun pre ev post hev => stacks_iff (hin.events pre ev post hev),
    fun pre t body x post hev ht hwhen => ?_⟩
  have hsplit (body : List Event) : pre ++ t :: body = (pre ++ [t]) ++ body := by simp
  -- the trap has cleared `MIE`, and `MPIE` has its old value
  obtain ⟨hmpie, hmie⟩ : getMpie (mstatusAfter env (pre ++ [t])) = getMie (mstatusAfter env pre) ∧
      getMie (mstatusAfter env (pre ++ [t])) = false := by
    have hst := (stacks_iff (hin.events pre t _ hev)).mpr hwhen
    cases t with
    | retire b mepc e => cases ht
    | exception b e handler writes => exact hst
    | interrupt b handler writes => exact hst
  have hokx : EventOk (InOrder.after env (pre ++ t :: body)) x :=
    hin.events (pre ++ t :: body) x post (by rw [hev]; simp)
  refine ⟨?_, ?_⟩
  · rintro ⟨b, mepc, e, rfl, hop⟩ hbody
    rw [show pre ++ t :: (body ++ [.retire b mepc e]) = (pre ++ t :: body) ++ [.retire b mepc e] by simp,
      (mstatusAfter_mret hokx hop).1, hsplit, hbody.mstatusAfter_eq, hmpie]
  · rintro ⟨b, handler, writes, rfl⟩
    obtain ⟨body₁, e, body₂, rfl, hlow, hhigh⟩ := exists_rise
      (P := fun l => getMie (mstatusAfter env (pre ++ t :: l))) hmie (mstatusAfter_interrupt hokx).1
    refine ⟨body₁, e, body₂, rfl, ?_, hlow, hhigh⟩
    have hoke : EventOk (InOrder.after env (pre ++ t :: body₁)) e :=
      hin.events (pre ++ t :: body₁) e (body₂ ++ .interrupt b handler writes :: post) (by rw [hev]; simp)
    rw [show pre ++ t :: (body₁ ++ [e]) = (pre ++ t :: body₁) ++ [e] by simp] at hhigh
    -- a trap does not set `MIE`
    cases e with
    | retire b mepc e => rfl
    | exception b e handler writes =>
      rw [mstatusAfter_exception hoke, hlow] at hhigh
      cases hhigh
    | interrupt b handler writes =>
      rw [(mstatusAfter_interrupt hoke).2.1] at hhigh
      cases hhigh

/-- The load of `faulty` traps with `MIE` and `MPIE` clear. -/
theorem interrupt_stacking_faulty : ∃ m logs pre b e handler writes post,
    run (Env.ofProgram faulty) 19 = .ok (m, logs) ∧
    (Window.after (Env.ofProgram faulty) logs).events = pre ++ .exception b e handler writes :: post ∧
    Stacks (mstatusAfter (Env.ofProgram faulty) pre)
      (mstatusAfter (Env.ofProgram faulty) (pre ++ [.exception b e handler writes]))
      (.exception b e handler writes) := by
  obtain ⟨m, logs, pre, ev, post, h, hevents, hP⟩ := exists_event (show eventAt (fun pre ev =>
    match ev with
    | .exception _ _ _ _ => !getMie (mstatusAfter (Env.ofProgram faulty) pre) &&
        !getMpie (mstatusAfter (Env.ofProgram faulty) pre)
    | _ => false) (Env.ofProgram faulty) 1 (run (Env.ofProgram faulty) 19) = true by decide +kernel)
  cases ev with
  | exception b e handler writes =>
    simp only [Bool.and_eq_true, Bool.not_eq_true'] at hP
    exact ⟨m, logs, pre, b, e, handler, writes, post, h, hevents,
      ((interrupt_stacking h).2.1 pre _ post hevents).mpr hP⟩
  | retire b mepc e => cases hP
  | interrupt b handler writes => cases hP

/-- `MIE` is set, and `ecall` traps. -/
def ecallEnabled : List Word := [0x30046073, 0x00000073, 0x0000100f]

/-- At the handler `MIE` is still set. -/
theorem ecallEnabled_unmasked : ∃ m logs pre b e handler writes,
    run (Env.ofProgram ecallEnabled) 16 = .ok (m, logs) ∧
    (Window.after (Env.ofProgram ecallEnabled) logs).events = pre ++ [.exception b e handler writes] ∧
    e.op.op = .ecall ∧ getMie (mstatusAfter (Env.ofProgram ecallEnabled) pre) = true ∧
    getMie (m.csrFile.value csrMstatus) = true ∧ getMpie (m.csrFile.value csrMstatus) = false := by
  obtain ⟨m, logs, h, hP⟩ := exists_run_of (show endsWith (fun m logs =>
    let events := (Window.after (Env.ofProgram ecallEnabled) logs).events
    getMie (mstatusAfter (Env.ofProgram ecallEnabled) events.dropLast) && getMie (m.csrFile.value csrMstatus) &&
      !getMpie (m.csrFile.value csrMstatus) && events.getLast?.any fun ev =>
        match ev with
        | .exception _ e _ _ => e.op.op == .ecall
        | _ => false) (run (Env.ofProgram ecallEnabled) 16) = true by decide +kernel)
  simp only [Bool.and_eq_true, Bool.not_eq_true'] at hP
  obtain ⟨⟨⟨hbefore, hmie⟩, hmpie⟩, hany⟩ := hP
  obtain ⟨ev, hev, hop⟩ := (Option.any_eq_true _ _).mp hany
  obtain ⟨pre, hpre⟩ := List.getLast?_eq_some_iff.mp hev
  rw [hpre, List.dropLast_concat] at hbefore
  cases ev with
  | exception b e handler writes =>
    exact ⟨m, logs, pre, b, e, handler, writes, h, hpre, eq_of_beq hop, hbefore, hmie, hmpie⟩
  | retire b mepc e => cases hop
  | interrupt b handler writes => cases hop

end Stack

end MyRiscvCore
