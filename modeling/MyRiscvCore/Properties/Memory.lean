import MyRiscvCore.Pipeline.DecodeExact
import MyRiscvCore.Properties.ControlFlow

/-!
# MyRiscvCore — memory over a run

The stores of a run in program order are a list that the history alone determines (`programStores`):

* `stores_in_order` — the bus gets a prefix of this list, the committed items of the store buffer are the
  rest of it, and the buffer drops no push;
* `loads_sequential` — a retired load reads the initial memory after all stores before it and no others.
-/

namespace MyRiscvCore

/-- What an instruction writes to memory, from the architectural registers. -/
def storeRequests (regs : Nat → Word) (d : DecodeInfo) : List Bus.Request :=
  let addr := sourceReg regs d.rs1 + d.imm
  let data := sourceReg regs d.rs2
  if !d.valid then []
  else
    match d.op with
    | .sb => [⟨addr, .byte, data &&& 0xff⟩]
    | .sh => [⟨addr, .half, data &&& 0xffff⟩]
    | .sw => [⟨addr, .word, data⟩]
    | _ => []

/-- What an event writes to memory. -/
def Event.stores (regs : Nat → Word) : Event → List Bus.Request
  | .retire _ _ e => storeRequests regs e.op.toDecodeInfo
  | .exception _ _ _ _ | .interrupt _ _ _ => []

/-- The stores of the retired instructions, in program order. -/
def programStores (events : List Event) : List Bus.Request :=
  overHistory (fun before ev => ev.stores (lastWritten before)) events

theorem programStores_snoc (events : List Event) (ev : Event) :
    programStores (events ++ [ev]) = programStores events ++ ev.stores (lastWritten events) :=
  overHistory_snoc _ events ev

section Stores

variable {op : RenameReadregOp} {regs : Nat → Word} {env : Env} {csr : Nat → Word} {w : Window}

theorem PackOk.archStores_eq (h : PackOk op.toDecodeRenamePack) :
    archStores regs op = storeRequests regs op.toDecodeInfo := by
  cases hv : op.valid with
  | false => simp [archStores, isStoreOp, storeRequests, hv]
  | true =>
    have hshape := h.shape hv
    unfold archStores isStoreOp storeRequests
    cases hop : op.op <;> rw [hop] at hshape <;>
      simp only [Decode.shapeOf, Decode.Shape.mk.injEq] at hshape <;>
      obtain ⟨hunit, hsub, ha1, ha2⟩ := hshape
    case sb | sh | sw =>
      have hlsu : (op.valid && op.opUnit == .lsu) = true := by rw [hv, ← hunit]; rfl
      have hinfo : (archPack regs op).subOp = op.subOp := by rw [archPack, packOf_info]
      have hsrc1 : (archPack regs op).src1Value = _ := h.src1Value hv ha1.symm
      have haddr : (archPack regs op).lsuAddr = sourceReg regs op.rs1 + op.imm := by
        rw [← hsrc1, archPack, packOf_src1]
        exact (packOf_lsu _ _ _ hlsu).1
      rw [storeRequest, haddr, hinfo, h.src2Value hv ha2.symm, hv, ← hunit, ← hsub]
      rfl
    all_goals
      rw [← hunit, ← hsub]
      simp [Issue.lsuOpOf, Issue.isStore]

theorem programStores_eq {events : List Event}
    (h : ∀ pre ev post, events = pre ++ ev :: post → EventOk (InOrder.after env pre) ev) :
    retiredStores events = programStores events ∧
      (InOrder.after env events).arch.mem = (programStores events).foldl applyStore env.memory := by
  induction events using List.reverseRecOn with
  | nil => exact ⟨rfl, rfl⟩
  | append_singleton events ev ih =>
    obtain ⟨hstores, hmem⟩ := ih fun pre x post hf => h pre x (post ++ [ev]) (by rw [hf]; simp)
    have hev := h events ev [] rfl
    rw [programStores_snoc, InOrder.after_snoc, List.foldl_append, ← hmem, ← hstores, retiredStores,
      List.flatMap_append, List.flatMap_singleton]
    cases ev with
    | retire b mepc e =>
      obtain ⟨rfl, -, r, -, -, hcomp⟩ := hev
      have hregs : lastWritten events = (InOrder.after env events).arch.regs :=
        funext fun a => (InOrder.regs_after env events a).symm
      rw [Event.stores, hregs, ← hcomp.pack.archStores_eq]
      exact ⟨rfl, rfl⟩
    | exception => exact ⟨rfl, rfl⟩
    | interrupt => exact ⟨rfl, rfl⟩

end Stores

/-! ## What reaches the bus

The writes are a prefix of the stores, in order. -/

section Writes

variable {env : Env} {n : Nat} {m m' : Machine} {w : Window} {s : Stages} {u : Updates}
  {logs : List CycleLog} {log : CycleLog}

theorem Window.writes_step (w : Window) (log : CycleLog) :
    (w.step log).writes = w.writes ++ log.writes := by
  unfold Window.step
  dsimp only
  split_ifs <;> first | rfl | exact Window.writes_retireAll

theorem Window.writes_after (env : Env) (logs : List CycleLog) :
    (Window.after env logs).writes = logs.flatMap (·.writes) := by
  induction logs using List.reverseRecOn with
  | nil => rfl
  | append_singleton logs log ih =>
    rw [Window.after_snoc, Window.writes_step, ih, List.flatMap_append, List.flatMap_singleton]

/-- The store buffer, whether a trap walks or not. -/
theorem Refines.store_items (h : Refines m w) : ∃ com unc, m.storeBuffer.toList = com ++ unc ∧
    ComOk com m.bus.memory w ∧ ∀ i ∈ unc, i.committed = false := by
  obtain h | ⟨j, h⟩ := h
  · obtain ⟨com, hlist, hcom⟩ := h.store.items
    exact ⟨com, _, hlist, hcom, fun i hi => (h.flight.storesOf_mem (List.Subset.refl _) hi).1⟩
  · obtain ⟨com, hlist, hcom⟩ := h.store.items
    exact ⟨com, [], hlist, ⟨hcom.committed, hcom.aligned, hcom.memory, hcom.writes⟩, by simp⟩

/-- No cycle drops a push for want of room. -/
theorem CycleCase.pushes_kept (h : CycleCase env n m w s) (hu : s.Synced env n m u) :
    (s.machine env n m u).storeBuffer.toList =
      u.storeBuffer.toList ++ (s.log env n m u).stores := by
  -- a flush drops what was executed in its cycle
  have hnone (hd : u.dropped = true) : (s.machine env n m u).storeBuffer.toList =
      u.storeBuffer.toList ++ (s.log env n m u).stores := by
    show (u.storeBuffer.sync (if u.dropped then [] else s.ex.pushes)).toList =
      _ ++ if u.dropped then [] else s.ex.pushes
    rw [hd, if_pos rfl, List.append_nil]
    rfl
  cases h with
  | flush h g => exact hnone (g.updated h hu).dropped
  | walk v h => exact hnone (v.updated h hu).dropped
  | flow h f =>
    have hd := (f.updated h hu).dropped
    obtain ⟨q, gone, stay, hrun, hwf, hsize, hsave, hsplit, -, hlist, -⟩ :=
      StoreBuffer.run_flow_spec h.store.wf f.flushing f.committed_ids.2
    have hq := hrun.symm.trans hu.store
    simp only [Except.ok.injEq, Prod.mk.injEq] at hq
    obtain ⟨rfl, -, -⟩ := hq
    have hfit : u.storeBuffer.count + s.ex.pushes.length ≤ u.storeBuffer.size := by
      have hle := f.pushes_fit h
      rw [← Fifo.length_toList, hsplit, List.length_append] at hle
      rw [hsize, ← Fifo.length_toList, hlist, List.length_map]
      omega
    show (u.storeBuffer.sync (if u.dropped then [] else s.ex.pushes)).toList =
      _ ++ if u.dropped then [] else s.ex.pushes
    rw [hd, if_neg Bool.false_ne_true]
    exact (StoreBuffer.sync_spec hwf (hsave.trans h.store.save) hfit).2.2

/-- Only retired stores reach the bus, in program order and once: what the bus has got, followed by the
committed items of the buffer, which are its oldest ones, is the list of the retired stores; and every item
that the LSU pushes is in the buffer after the cycle. -/
theorem stores_in_order (h : run env n = .ok (m, logs)) :
    (∃ com unc, m.storeBuffer.toList = com ++ unc ∧ (∀ i ∈ com, i.committed = true) ∧
      (∀ i ∈ unc, i.committed = false) ∧
      logs.flatMap (·.writes) ++ com.map (fun i => ⟨i.addr, i.size, i.data⟩) =
        programStores (Window.after env logs).events) ∧
    ∀ m' log, cycle env n m = .ok (m', log) → ∃ q dropped,
      m.storeBuffer.run log.fb = .ok (q, log.writes, dropped) ∧
      m'.storeBuffer.toList = q.toList ++ log.stores := by
  have href := run_refines h
  refine ⟨?_, fun m' log hc => ?_⟩
  · obtain ⟨com, unc, hlist, hcom, hunc⟩ := href.store_items
    refine ⟨com, unc, hlist, hcom.committed, hunc, ?_⟩
    rw [← (programStores_eq (run_inOrder h).events).1, ← hcom.writes, Window.writes_after]
    rfl
  · obtain ⟨s, u, hcase, hu, rfl, rfl⟩ := href.cycle_ok hc
    exact ⟨u.storeBuffer, u.dropped, hu.store, hcase.pushes_kept hu⟩

/-- A store of a word, a store of one of its bytes and a load of the word. -/
def storeLoad : List Word := [0x800000b7, 0x00500113, 0x0410a023, 0x042080a3, 0x0400a183]

theorem stores_in_order_storeLoad : ∃ m logs, run (Env.ofProgram storeLoad) 20 = .ok (m, logs) ∧
    ∃ com unc, m.storeBuffer.toList = com ++ unc ∧
      logs.flatMap (·.writes) ++ com.map (fun i => ⟨i.addr, i.size, i.data⟩) =
        programStores (Window.after (Env.ofProgram storeLoad) logs).events := by
  obtain ⟨m, logs, h, -⟩ := exists_run_of
    (show endsWith (fun _ _ => true) (run (Env.ofProgram storeLoad) 20) = true by decide +kernel)
  obtain ⟨⟨com, unc, hlist, -, -, hwrites⟩, -⟩ := stores_in_order h
  exact ⟨m, logs, h, com, unc, hlist, hwrites⟩

end Writes

/-- The value of a load, from the bytes at its address. -/
def loadedValue (op : Op) (mem : Memory) (i : Nat) : Word :=
  match op with
  | .lb => (mem i).signExtend 32
  | .lbu => (mem i).setWidth 32
  | .lh => (mem (i + 1) ++ mem i).signExtend 32
  | .lhu => (mem (i + 1) ++ mem i).setWidth 32
  | _ => mem (i + 3) ++ mem (i + 2) ++ mem (i + 1) ++ mem i

/-- The loads. -/
def Op.isLoad (op : Op) : Bool := op ∈ [Op.lb, .lbu, .lh, .lhu, .lw]

theorem Op.load_shape {op : Op} (h : op.isLoad = true) : ∃ lsuOp,
    Decode.shapeOf op = ⟨.lsu, .lsu lsuOp, .reg, .disable⟩ ∧ Issue.isStore lsuOp = false ∧
    Decode.hasDest op = true ∧
    ∀ mem i, loadExtend lsuOp (Memory.read mem i (Issue.lsuSize lsuOp)) = loadedValue op mem i := by
  cases op <;> cases h
  case lb => exact ⟨.lb, rfl, rfl, rfl, fun mem i => signExtend_eq (mem i) (by decide) (by decide)⟩
  case lh =>
    exact ⟨.lh, rfl, rfl, rfl, fun mem i => signExtend_eq (mem (i + 1) ++ mem i) (by decide) (by decide)⟩
  case lbu => exact ⟨.lbu, rfl, rfl, rfl, fun _ _ => rfl⟩
  case lhu => exact ⟨.lhu, rfl, rfl, rfl, fun _ _ => rfl⟩
  case lw => exact ⟨.lw, rfl, rfl, rfl, fun _ _ => rfl⟩

/-- The result of a load without exception, when the memory slave answers it. -/
theorem Computes.loadedValue {b : Arch} {csr : Nat → Word} {e : Entry} {r : ExecuteWbPack} {info : SlaveInfo}
    (h : Computes b csr e r) (hvalid : e.op.valid = true) (hload : e.op.op.isLoad = true)
    (hexc : r.hasException = false)
    (hinfo : findSlaveInfo slaveInfoList (sourceReg b.regs e.op.rs1 + e.op.imm) = some info)
    (hslave : info.slave = .memory) :
    r.rdValue = loadedValue e.op.op b.mem (sourceReg b.regs e.op.rs1 + e.op.imm - info.base).toNat := by
  obtain ⟨lsuOp, hshape, hstore, -, hvalue⟩ := Op.load_shape hload
  obtain ⟨hunit, hsub, ha1, -⟩ := (Decode.Shape.mk.injEq ..).mp (hshape.symm.trans (h.pack.shape hvalid))
  have hpack : (archPack b.regs e.op).toDecodeInfo = e.op.toDecodeInfo := by rw [archPack, packOf_info]
  have hres := h.result
  rw [UnitResult, hpack, ← hunit] at hres
  obtain ⟨v, hr⟩ := hres
  have haddr : r.src1Value + r.imm = sourceReg b.regs e.op.rs1 + e.op.imm := by
    rw [← h.pack.src1Value hvalid ha1.symm, hr]
    exact congrArg (_ + DecodeInfo.imm ·) hpack
  have hsubr : Issue.lsuOpOf r.subOp = lsuOp := by
    rw [hr]
    show Issue.lsuOpOf (archPack b.regs e.op).subOp = lsuOp
    rw [hpack, ← hsub]
    rfl
  have hisLoad : isLoadOp e.op.toDecodeInfo = true := by
    rw [isLoadOp, hvalid, ← hunit, ← hsub, Issue.lsuOpOf, hstore]
    rfl
  have hok := h.load hisLoad hexc info (by rw [haddr]; exact hinfo) hslave
  rw [hok, haddr, hsubr, hvalue]

/-- A retired load that the memory slave answers: its result is the extension of the bytes that the initial
memory has at its address after all the stores before it and no others. -/
theorem loads_sequential {env : Env} {n : Nat} {m : Machine} {logs : List CycleLog} {pre post : List Event}
    {b : Arch} {mepc : Word} {e : Entry} {info : SlaveInfo} (h : run env n = .ok (m, logs))
    (hev : (Window.after env logs).events = pre ++ .retire b mepc e :: post)
    (hvalid : e.op.valid = true) (hload : e.op.op.isLoad = true)
    (hinfo : findSlaveInfo slaveInfoList (sourceReg (lastWritten pre) e.op.rs1 + e.op.imm) = some info)
    (hslave : info.slave = .memory) :
    e.value? = some (loadedValue e.op.op ((programStores pre).foldl applyStore env.memory)
        (sourceReg (lastWritten pre) e.op.rs1 + e.op.imm - info.base).toNat) ∧
      (e.op.rd ≠ 0 → some (lastWritten (pre ++ [.retire b mepc e]) e.op.rd) = e.value?) := by
  have hin := run_inOrder h
  obtain ⟨-, -, r, hfin, hexc, hcomp⟩ := hin.events pre _ _ hev
  have hregs : lastWritten pre = (InOrder.after env pre).arch.regs :=
    funext fun a => (InOrder.regs_after env pre a).symm
  have hmem : (InOrder.after env pre).arch.mem = (programStores pre).foldl applyStore env.memory :=
    (programStores_eq fun pre' ev post' hpre => hin.events pre' ev (post' ++ .retire b mepc e :: post)
      (by rw [hev, hpre, List.append_assoc, List.cons_append])).2
  have hvalue : e.value? = some r.rdValue := by simp [Entry.value?, Entry.result, hfin, hexc]
  rw [hregs] at hinfo
  refine ⟨?_, fun hrd => ?_⟩
  · rw [hvalue, ← hmem, hregs, hcomp.loadedValue hvalid hload hexc hinfo hslave]
  · obtain ⟨-, -, -, hdest, -⟩ := Op.load_shape hload
    have hwrites : e.writes = true := hcomp.pack.writes hvalid hdest hrd
    rw [lastWritten_snoc, Event.written?, hwrites, hvalue]
    simp

/-- The load of a word that the store buffer or the memory has from two stores. -/
theorem loads_sequential_storeLoad : ∃ m logs pre b mepc e post, ∃ info : SlaveInfo,
    run (Env.ofProgram storeLoad) 20 = .ok (m, logs) ∧
    (Window.after (Env.ofProgram storeLoad) logs).events = pre ++ .retire b mepc e :: post ∧
    e.op.op.isLoad = true ∧ info.slave = .memory ∧
    e.value? = some (loadedValue e.op.op
      ((programStores pre).foldl applyStore (Env.ofProgram storeLoad).memory)
      (sourceReg (lastWritten pre) e.op.rs1 + e.op.imm - info.base).toNat) := by
  let P (pre : List Event) : Event → Bool
    | .retire _ _ e => e.op.valid && e.op.op.isLoad &&
      (findSlaveInfo slaveInfoList (sourceReg (lastWritten pre) e.op.rs1 + e.op.imm)).any
        (·.slave == .memory)
    | _ => false
  obtain ⟨m, logs, pre, ev, post, h, hev, hP⟩ :=
    exists_event (show eventAt P (Env.ofProgram storeLoad) 4 (run (Env.ofProgram storeLoad) 20) = true by
      decide +kernel)
  obtain ⟨b, mepc, e, rfl⟩ | hno : (∃ b mepc e, ev = .retire b mepc e) ∨ P pre ev = false := by
    cases ev <;> simp [P]
  · obtain ⟨⟨hvalid, hload⟩, hslave⟩ := (Bool.and_eq_true_iff.mp hP).imp_left Bool.and_eq_true_iff.mp
    obtain ⟨info, hinfo, hmem⟩ := (Option.any_eq_true _ _).mp hslave
    have hmem : info.slave = .memory := eq_of_beq hmem
    exact ⟨m, logs, pre, b, mepc, e, post, info, h, hev, hload, hmem,
      (loads_sequential h hev hvalid hload hinfo hmem).1⟩
  · exact absurd hP (by rw [hno]; decide)

end MyRiscvCore
