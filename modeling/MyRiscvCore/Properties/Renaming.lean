import MyRiscvCore.Pipeline.RenameGroup
import MyRiscvCore.Refine.InOrder

/-!
# MyRiscvCore — the register map over a run

What the relation says about the alias table and the register file, in their own words:

* `renaming_partition` — the allocated registers are the 31 visible ones and those that the entries of the
  reorder buffer have replaced, so rename never runs out of registers;
* `committed_state` — the debugger finds the architectural registers and the architectural pc at every
  cycle boundary.
-/

namespace MyRiscvCore

open Renaming (mapAfter live olds)

/-! ## Programs to run

Concrete runs are found by evaluation; these lemmas turn the result into a run. -/

/-- A memory image that starts with these words. -/
def Memory.ofWords (words : List Word) : Memory := fun i =>
  ((words.getD (i / 4) 0) >>> (8 * (i % 4))).setWidth 8

/-- This program, with the zero-initialised predictor of `main.cpp`, no external interrupt and a silent
terminal. -/
def Env.ofProgram (words : List Word) : Env where
  memory := Memory.ofWords words
  predictor := ⟨0, 0, fun _ => 0, fun _ => 0, fun _ => 0, fun _ => 0, fun _ => 0, ⟨[], 0⟩, 0, fun _ => 0, 0,
    fun _ => 0⟩
  meip := fun _ => false
  terminalBefore := fun _ => ⟨[], 0⟩
  terminalDuring := fun _ => ⟨[], 0⟩
  uninit := fun _ => default

/-- The run answers, and this holds at its end. -/
def endsWith (P : Machine → List CycleLog → Bool) : Except Halt (Machine × List CycleLog) → Bool
  | .ok (m, logs) => P m logs
  | .error _ => false

theorem exists_run_of {env : Env} {n : Nat} {P : Machine → List CycleLog → Bool}
    (h : endsWith P (run env n) = true) : ∃ m logs, run env n = .ok (m, logs) ∧ P m logs = true := by
  cases hrun : run env n with
  | error err =>
    rw [hrun] at h
    cases h
  | ok x =>
    rw [hrun] at h
    exact ⟨x.1, x.2, rfl, h⟩

/-- The run answers, and this holds of its last cycle. -/
def lastCycle (P : CycleLog → Bool) : Except Halt (Machine × List CycleLog) → Bool :=
  endsWith fun _ logs => logs.getLast?.any P

theorem exists_cycle_ok {env : Env} {n : Nat} {P : CycleLog → Bool}
    (h : lastCycle P (run env (n + 1)) = true) :
    ∃ m logs m' log, run env n = .ok (m, logs) ∧ cycle env n m = .ok (m', log) ∧ P log = true := by
  obtain ⟨m', logs', hrun, hP⟩ := exists_run_of h
  obtain ⟨m, logs, log, hrun', hc, rfl⟩ := run_succ.mp hrun
  rw [List.getLast?_concat] at hP
  exact ⟨m, logs, m', log, hrun', hc, hP⟩

/-- The run answers, and this holds of its event `k` and the events before it. -/
def eventAt (P : List Event → Event → Bool) (env : Env) (k : Nat) :
    Except Halt (Machine × List CycleLog) → Bool :=
  endsWith fun _ logs =>
    let events := (Window.after env logs).events
    events[k]?.any (P (events.take k))

theorem exists_event {env : Env} {n k : Nat} {P : List Event → Event → Bool}
    (h : eventAt P env k (run env n) = true) :
    ∃ m logs pre ev post, run env n = .ok (m, logs) ∧
      (Window.after env logs).events = pre ++ ev :: post ∧ P pre ev = true := by
  obtain ⟨m, logs, hrun, hany⟩ := exists_run_of h
  obtain ⟨ev, hget, hP⟩ := (Option.any_eq_true _ _).mp hany
  refine ⟨m, logs, _, ev, (Window.after env logs).events.drop (k + 1), hrun, ?_, hP⟩
  obtain ⟨hk, rfl⟩ := List.getElem?_eq_some_iff.mp hget
  rw [← List.drop_eq_getElem_cons hk, List.take_append_drop]

/-- The ROB entries whose renaming stands: all, and during a walk those not yet walked back. -/
def standingEntries (m : Machine) : List RobItem :=
  let ids := m.rob.fifo.ids
  let ids := if m.commit.curState = .normal then ids
    else ids.take (ids.idxOf m.commit.restoreRobItemId + 1)
  ids.map m.rob.fifo.getItem

/-- The registers that these entries have replaced. -/
def replacedBy (items : List RobItem) : List Nat :=
  (items.filter (·.oldPhyRegIdValid)).map (·.oldPhyRegId)

section Partition

variable {m : Machine} {w : Window} {q : Fifo RobItem} {C : Nat → Nat} {flight es : List Entry} {r : Rat}
  {l : List (Nat × Nat)} {j : Nat}

/-- What the entries will free is what their renamings replaced. -/
theorem replacedBy_retiredItems (C : Nat → Nat) (es : List Entry) :
    replacedBy (retiredItems C es) = olds C (renamings es) := by
  induction es generalizing C with
  | nil => rfl
  | cons e es ih =>
    cases hw : e.writes with
    | false =>
      have hmap := Entry.mapping_of_not_writes hw
      rw [retiredItems, renamings_cons, hmap, replacedBy,
        List.filter_cons_of_neg (by rw [robItemOf_old, hw]; decide)]
      exact ih C
    | true =>
      have hmap := Entry.mapping_of_writes hw
      rw [retiredItems, renamings_cons, hmap, replacedBy,
        List.filter_cons_of_pos (by rw [robItemOf_old, hw]), List.map_cons, robItemOf_oldPhyRegId hw]
      exact congrArg _ (ih _)

/-- The entries of some consecutive instructions in flight. -/
theorem RobOk.items_eq (h : RobOk q C flight) (pre : List Entry) {post : List Entry}
    (hf : flight = pre ++ es ++ post) :
    (es.map (·.op.robId)).map q.getItem = retiredItems (mapAt C pre) es := by
  induction es generalizing pre with
  | nil => rfl
  | cons e es ih =>
    have hitem := h.item pre e (es ++ post) (by rw [hf]; simp)
    rw [List.map_cons, List.map_cons, retiredItems]
    refine congrArg₂ _ hitem ?_
    rw [ih (pre ++ [e]) (by rw [hf]; simp), mapAt_append, mapAt_cons, mapAt_nil]

/-- The entries of the oldest instructions in flight. -/
theorem RobOk.items_take (h : RobOk q C flight) (j : Nat) :
    (q.ids.take j).map q.getItem = retiredItems C (flight.take j) := by
  rw [h.ids, ← List.map_take]
  exact h.items_eq [] (List.take_append_drop j flight).symm

/-- The invariant of the table, counted. -/
theorem RatOk.partition (h : RatOk r C l) : Partition r (olds C l) where
  mapped a ha := by
    refine ⟨mapAfter C l a, ?_, fun p ⟨hp, hvalid, hvis, ht⟩ => ?_⟩
    · have hcur := (h.mapped_iff ha (mapAfter C l a)).mpr rfl
      rw [Bool.and_eq_true, Bool.and_eq_true, beq_iff_eq] at hcur
      exact ⟨h.mapAfter_lt ha, hcur.1.1, hcur.1.2, hcur.2⟩
    · exact (h.mapped_iff ha p).mp (by rw [hvalid, hvis, ht]; simp)
  visible p _ hv := by
    obtain ⟨a, ha, rfl⟩ := (h.visible_iff p).mp hv
    refine ⟨(h.valid_iff _).mpr (Renaming.mapAfter_mem_live ha), ?_⟩
    rw [h.table_mapAfter ha]
    exact ha
  valid_iff p _ := by
    rw [h.valid_iff, h.visible_iff, h.ok.live_eq]
    rfl
  hidden p hp := by
    refine ⟨h.bound p (h.ok.olds_subset_live p hp), ?_⟩
    rw [← Bool.not_eq_true, h.visible_iff]
    exact h.ok.olds_notMem_visible p hp
  nodup := h.ok.nodup_olds
  init := h.init

/-- For every state of the relation. -/
theorem Refines.partition (h : Refines m w) :
    Partition m.rat (replacedBy (standingEntries m)) := by
  obtain h | ⟨j, h⟩ := h
  · have hitems : standingEntries m = retiredItems w.cmap w.flight := by
      have htake := h.rob.items_take w.flight.length
      rw [List.take_length, ← h.rob.count_eq, ← Fifo.length_ids, List.take_length] at htake
      rw [standingEntries, if_pos h.phase]
      exact htake
    rw [hitems, replacedBy_retiredItems]
    exact h.rat.partition
  · have hitems : standingEntries m = retiredItems w.cmap (w.flight.take j) := by
      obtain ⟨hj, hid⟩ := h.restore
      rw [← h.rob.ids] at hid
      obtain ⟨hlt, hid⟩ := List.getElem?_eq_some_iff.mp hid
      rw [standingEntries, if_neg h.phase, ← hid, h.rob.wf.nodup_ids.idxOf_getElem _ hlt,
        Nat.sub_add_cancel hj]
      exact h.rob.items_take j
    rw [hitems, replacedBy_retiredItems]
    exact h.rat.partition

end Partition

section Cycle

variable {env : Env} {n : Nat} {m : Machine} {w : Window} {s : Stages} {logs : List CycleLog}

theorem FlushStages.phyFull (g : FlushStages env n m s)
    (hcm : s.cm.perf.phyRegfileFull = m.perf.phyRegfileFull) (u : Updates) :
    (s.machine env n m u).perf.phyRegfileFull = m.perf.phyRegfileFull := by
  rw [← hcm]
  show s.ft.perf.phyRegfileFull = _
  rw [g.fetch]

/-- No cycle counts a rename that stops for want of a register. -/
theorem CycleCase.phyFull (h : CycleCase env n m w s) (u : Updates) :
    (s.machine env n m u).perf.phyRegfileFull = m.perf.phyRegfileFull := by
  cases h with
  | flow _ f =>
    calc s.ft.perf.phyRegfileFull = s.dc.1.2.2.phyRegfileFull := f.fetch.perf
      _ = s.rn.perf.phyRegfileFull := f.decode.perf
      _ = s.is.perf.phyRegfileFull := f.rename.perf
      _ = s.cm.perf.phyRegfileFull := f.issue.perf
      _ = m.perf.phyRegfileFull := f.commit.phyFull
  | flush _ g => exact g.stages.phyFull g.commit.phyFull u
  | walk v _ => exact v.stages.phyFull (congrArg _ v.commit.perf) u

/-- So rename never runs out of registers. -/
theorem run_phyFull (h : run env n = .ok (m, logs)) : m.perf.phyRegfileFull = 0 := by
  refine (run_induction (P := fun _ m _ => m.perf.phyRegfileFull = 0) (fun m hm _ => ?_)
    (fun n m logs s u _ hP hcase _ => (hcase.phyFull u).trans hP) h).2
  obtain ⟨m₀, hm₀, -, hperf⟩ := reset_normal env
  cases hm₀.symm.trans hm
  rw [hperf]
  rfl

end Cycle

/-- The renaming invariant holds at every cycle boundary; the free registers number 97 minus the replaced
ones, rename never stops for want of a register, and no assertion of `rat.h` fires. -/
theorem renaming_partition (env : Env) (n : Nat) : run env n ≠ .error (.assertion .rat) ∧
    ∀ m logs, run env n = .ok (m, logs) →
      Partition m.rat (replacedBy (standingEntries m)) ∧
      m.rat.freeList.length + (replacedBy (standingEntries m)).length = 97 ∧
      m.perf.phyRegfileFull = 0 := by
  refine ⟨fun herr => ?_, fun m logs h => ?_⟩
  · obtain h | h := run_error herr <;> cases h
  · have hpart := (run_refines h).partition
    exact ⟨hpart, hpart.length_freeList, run_phyFull h⟩

/-- A program that writes the same register twice, and then words that decode rejects. -/
def doubleWrite : List Word := [0x00500093, 0x00108093]

theorem renaming_partition_doubleWrite : ∃ m logs, run (Env.ofProgram doubleWrite) 10 = .ok (m, logs) ∧
    Partition m.rat (replacedBy (standingEntries m)) ∧
    m.rat.freeList.length + (replacedBy (standingEntries m)).length = 97 ∧
    m.perf.phyRegfileFull = 0 := by
  obtain ⟨m, logs, h, -⟩ := exists_run_of
    (show endsWith (fun _ _ => true) (run (Env.ofProgram doubleWrite) 10) = true by decide +kernel)
  exact ⟨m, logs, h, (renaming_partition _ _).2 m logs h⟩

/-- What an event writes to a register. -/
def Event.written? (a : Nat) : Event → Option Word
  | .retire _ _ e => if e.writes && e.op.rd == a then some (e.value?.getD 0) else none
  | .exception _ _ _ _ | .interrupt _ _ _ => none

/-- The value of a register after these events: the result of the last retired instruction that wrote it,
or 0. -/
def lastWritten (events : List Event) (a : Nat) : Word :=
  (events.reverse.findSome? (Event.written? a)).getD 0

/-- Where the architecture goes on after these events. -/
def nextPc (events : List Event) : Word :=
  match events.getLast? with
  | none => initPc
  | some (.retire before mepc e) => archNext before.regs mepc e.op
  | some (.exception _ _ handler _) | some (.interrupt _ handler _) => handler

theorem lastWritten_snoc (events : List Event) (ev : Event) (a : Nat) :
    lastWritten (events ++ [ev]) a = (ev.written? a).getD (lastWritten events a) := by
  rw [lastWritten, List.reverse_append, List.reverse_singleton, List.singleton_append,
    List.findSome?_cons]
  cases ev.written? a <;> rfl

/-- A register holds the last value written to it. -/
theorem InOrder.regs_after (env : Env) (events : List Event) (a : Nat) :
    (InOrder.after env events).arch.regs a = lastWritten events a := by
  induction events using List.reverseRecOn with
  | nil => rfl
  | append_singleton events ev ih =>
    rw [InOrder.after_snoc, lastWritten_snoc, ← ih]
    cases ev with
    | retire b mepc e =>
      show (Arch.retire mepc _ e).regs a = _
      rw [Arch.retire, Event.written?]
      cases hw : e.writes with
      | false => rfl
      | true =>
        by_cases ha : a = e.op.rd
        · subst ha
          simp
        · have hne : (e.op.rd == a) = false := beq_eq_false_iff_ne.mpr fun h => ha h.symm
          rw [hne, if_pos rfl]
          exact Function.update_of_ne ha _ _
    | exception => rfl
    | interrupt => rfl

/-- The program counter is the successor of the last event. -/
theorem InOrderOk.pc_eq {env : Env} {csr : Nat → Word} {w : Window} (h : InOrderOk env csr w) :
    w.arch.pc = nextPc w.events := by
  rw [← h.arch, nextPc]
  obtain hnil | ⟨pre, ev, hev⟩ := List.eq_nil_or_concat w.events
  · rw [hnil]
    rfl
  · rw [List.concat_eq_append] at hev
    have hok := h.events pre ev [] hev
    rw [hev, InOrder.after_snoc, List.getLast?_concat]
    cases ev with
    | retire b mepc e =>
      rw [hok.1]
      rfl
    | exception => rfl
    | interrupt => rfl

section Debugger

variable {m : Machine} {w : Window} {q : Fifo RobItem} {C : Nat → Nat} {flight : List Entry}

/-- The front of the reorder buffer is the oldest instruction. -/
theorem RobOk.head_pc (h : RobOk q C flight) {e : Entry} {rest : List Entry} (hf : flight = e :: rest) :
    q.isEmpty = false ∧ (q.getItem q.rptr).pc = e.op.pc := by
  have hpos : 0 < q.count := by rw [h.count_eq, hf]; simp
  have hid : q.rptr = e.op.robId := by
    have hids := h.ids
    rw [h.wf.ids_popped hpos, hf, List.map_cons] at hids
    exact (List.cons.inj hids).1
  refine ⟨h.wf.isEmpty_eq_false.mpr hpos, ?_⟩
  rw [hid]
  exact (congrArg RobItem.pc (h.item [] e rest hf)).trans robItemOf_pc

theorem getCurrentPc_flight {e : Entry} {rest : List Entry} (h : RobOk m.rob.fifo C flight)
    (hf : flight = e :: rest) : getCurrentPc m = e.op.pc := by
  obtain ⟨hne, hpc⟩ := h.head_pc hf
  rw [getCurrentPc, hne, hpc]
  rfl

/-- With an empty reorder buffer, the oldest instruction is the one at the head of the front end. -/
theorem getCurrentPc_front (h : Normal m w) (hf : w.flight = []) : getCurrentPc m = w.arch.pc := by
  have hempty : m.rob.fifo.isEmpty = true :=
    h.rob.wf.isEmpty_iff.mpr (by rw [h.rob.count_eq, hf]; rfl)
  have hpath := h.path
  rw [hf, List.map_nil, List.nil_append, frontPacks] at hpath
  rw [getCurrentPc, hempty, h.shape.decodeRename.getFront_eq, h.shape.fetchDecode.getFront_eq]
  cases hdr : m.decodeRenameFifo.toList with
  | cons x xs =>
    rw [hdr] at hpath
    obtain ⟨p, -, rfl⟩ := h.front.1 x (by rw [hdr]; exact List.mem_cons_self)
    have hen := (Renamable.decodePack p).enable
    simp only [List.head?_cons, hen, Bool.not_true, Bool.false_eq_true, if_false, if_true]
    exact hpath.1
  | nil =>
    cases hfd : m.fetchDecodeFifo.toList with
    | cons p ps =>
      rw [hdr, hfd] at hpath
      have hen := (h.front.2 p (by rw [hfd]; exact List.mem_cons_self)).enable
      simp only [List.head?_nil, List.head?_cons, hen, Bool.not_true, Bool.false_eq_true, if_false,
        if_true]
      exact (decodePack_pc p).symm.trans hpath.1
    | nil =>
      rw [hdr, hfd] at hpath
      exact hpath.1

/-- The debugger shows the program counter of the program. -/
theorem Refines.getCurrentPc_eq (h : Refines m w) : getCurrentPc m = w.arch.pc := by
  obtain h | ⟨j, h⟩ := h
  · cases hf : w.flight with
    | nil => exact getCurrentPc_front h hf
    | cons e rest =>
      have hpath := h.path
      rw [hf] at hpath
      rw [getCurrentPc_flight h.rob hf]
      exact hpath.1
  · have hpc := h.pc
    cases hf : w.flight with
    | nil =>
      rw [hf] at hpc
      cases hpc
    | cons e rest =>
      rw [hf] at hpc
      rw [getCurrentPc_flight h.rob hf]
      exact Option.some.inj hpc

/-- The committed map and the values behind it. -/
theorem Refines.committed (h : Refines m w) : ∃ l, RatOk m.rat w.cmap l ∧
    ∀ a ∈ archRegs, m.regfile.regDataValid (w.cmap a) = true ∧
      m.regfile.regData (w.cmap a) = w.arch.regs a := by
  obtain h | ⟨j, h⟩ := h
  · exact ⟨_, h.rat, h.reg.committed⟩
  · exact ⟨_, h.rat, h.committed⟩

/-- The debugger finds the architectural value of a register. -/
theorem Refines.readArchreg_eq (h : Refines m w) {a : Nat} (ha : a ∈ archRegs) :
    readArchreg m a = .ok (w.arch.regs a) := by
  obtain ⟨l, hrat, hreg⟩ := h.committed
  obtain ⟨hvalid, hdata⟩ := hreg a ha
  have hlt : w.cmap a < phyRegNum := hrat.bound _ (Renaming.mem_live.mpr (.inl ⟨a, ha, rfl⟩))
  have ha0 : a ≠ 0 := fun h0 => absurd ha.1 (by rw [h0]; exact lt_irrefl 0)
  rw [readArchreg, if_neg ha0, hrat.getCommitPhyId_eq ha, ← hdata]
  simp only [bind, Except.bind, Regfile.read_eq hlt, Regfile.readDataValid_eq hlt, hvalid, assert_true]
  rfl

end Debugger

/-- At every cycle boundary each architectural register has exactly one committed physical register, which
holds the result of the last retired instruction that wrote it, so that the debugger reads this result; and
the debugger's pc is where the architecture goes on. -/
theorem committed_state {env : Env} {n : Nat} {m : Machine} {logs : List CycleLog}
    (h : run env n = .ok (m, logs)) :
    (∀ a ∈ archRegs, ∃ p,
      (∀ i, (m.rat.valid i = true ∧ m.rat.commit i = true ∧ m.rat.phyMapTable i = a) ↔ i = p) ∧
      p < phyRegNum ∧ m.rat.getCommitPhyId a = .ok p ∧ m.regfile.regDataValid p = true ∧
      m.regfile.regData p = lastWritten (Window.after env logs).events a ∧
      readArchreg m a = .ok (lastWritten (Window.after env logs).events a)) ∧
    getCurrentPc m = nextPc (Window.after env logs).events := by
  have href := run_refines h
  have hin := run_inOrder h
  refine ⟨fun a ha => ?_, by rw [href.getCurrentPc_eq, hin.pc_eq]⟩
  obtain ⟨l, hrat, hreg⟩ := href.committed
  obtain ⟨hvalid, hdata⟩ := hreg a ha
  rw [← InOrder.regs_after env, hin.arch]
  have hlt : (Window.after env logs).cmap a < phyRegNum :=
    hrat.bound _ (Renaming.mem_live.mpr (.inl ⟨a, ha, rfl⟩))
  refine ⟨(Window.after env logs).cmap a, fun i => ?_, hlt, hrat.getCommitPhyId_eq ha, hvalid, hdata,
    href.readArchreg_eq ha⟩
  rw [← hrat.committed_iff ha i, Bool.and_eq_true, Bool.and_eq_true, beq_iff_eq, and_assoc]

theorem committed_state_doubleWrite : ∃ m logs, run (Env.ofProgram doubleWrite) 13 = .ok (m, logs) ∧
    readArchreg m 1 = .ok (lastWritten (Window.after (Env.ofProgram doubleWrite) logs).events 1) ∧
    getCurrentPc m = nextPc (Window.after (Env.ofProgram doubleWrite) logs).events := by
  obtain ⟨m, logs, h, -⟩ := exists_run_of
    (show endsWith (fun _ _ => true) (run (Env.ofProgram doubleWrite) 13) = true by decide +kernel)
  obtain ⟨hregs, hpc⟩ := committed_state h
  obtain ⟨-, -, -, -, -, -, hread⟩ := hregs 1 ⟨by decide, by decide⟩
  exact ⟨m, logs, h, hread, hpc⟩

end MyRiscvCore
