import MyRiscvCore.Properties.Renaming

/-!
# MyRiscvCore — architectural control flow

The retired instructions follow each other as the program says (`control_flow`): prediction, stalls and
flushes change when an instruction retires, never which one is next. The successor of an instruction is
stated on its operation alone (`successor`), and the events are tied to what the logs show (`run_trace`).
-/

namespace MyRiscvCore

/-- A retirement or a trap, as a cycle log shows it. -/
inductive Shown
  | retired (item : RobItem)
  | trap (handler : Word)

/-- The retirements of a cycle, and the trap whose walk ends with it. -/
def CycleLog.shown (log : CycleLog) : List Shown :=
  log.retired.map .retired ++ if log.fb.hasException then [.trap log.fb.exceptionPc] else []

/-- An event, and what a log shows of it. -/
def Event.ShownAs : Event → Shown → Prop
  | .retire _ _ e, .retired item => ∃ C, item = robItemOf C e
  | .exception _ _ handler _, .trap handler' | .interrupt _ handler _, .trap handler' =>
    handler = handler'
  | _, _ => False

section Trace

variable {env : Env} {n : Nat} {m : Machine} {w : Window} {s : Stages} {u : Updates}
  {logs : List CycleLog}

/-- The events of a group that retires, and the ROB entries that the log shows. -/
theorem retireEvents_shown (mepc : Word) (b : Arch) (es : List Entry) (C : Nat → Nat) :
    List.Forall₂ Event.ShownAs (retireEvents mepc b es) ((retiredItems C es).map .retired) := by
  induction es generalizing b C with
  | nil => exact .nil
  | cons e es ih => exact .cons ⟨C, rfl⟩ (ih (b.retire mepc e) (Renaming.mapAfter C e.mapping))

/-- The new events of a cycle are those that its log shows. -/
theorem CycleCase.shown (h : CycleCase env n m w s) (hu : s.Synced env n m u) :
    ∃ evs, (w.step (s.log env n m u)).events = w.events ++ evs ∧
      List.Forall₂ Event.ShownAs evs (s.log env n m u).shown := by
  cases h with
  | flow h f =>
    refine ⟨_, f.step_events h u, ?_⟩
    have hexc : (s.log env n m u).fb.hasException = false := f.commit.noException
    have hret : (s.log env n m u).retired = retiredItems w.cmap f.ret := f.commit.retired
    rw [CycleLog.shown, hexc, hret, if_neg Bool.false_ne_true, List.append_nil]
    exact retireEvents_shown _ _ _ _
  | flush h g =>
    refine ⟨_, g.step_events h hu, ?_⟩
    have hexc : (s.log env n m u).fb.hasException = false := g.commit.noException
    have hret : (s.log env n m u).retired = retiredItems w.cmap g.ret := g.commit.retired
    rw [CycleLog.shown, hexc, hret, if_neg Bool.false_ne_true, List.append_nil]
    exact retireEvents_shown _ _ _ _
  | walk v h =>
    have hret : (s.log env n m u).retired = [] := v.commit.retired
    rw [CycleLog.shown, hret, List.map_nil, List.nil_append]
    -- the trap is shown at the end of its walk
    by_cases hpre : v.pre = []
    · have hexc : (s.log env n m u).fb.hasException = true := (v.commit.last hpre).2.2.2.2.2.1
      refine ⟨[w.trapEvent (s.log env n m u)], by rw [v.step_last h (v.updated h hu) hpre], ?_⟩
      rw [hexc, if_pos rfl]
      refine .cons ?_ .nil
      unfold Window.trapEvent
      split <;> rfl
    · obtain ⟨pre', x, hpre'⟩ := (List.eq_nil_or_concat v.pre).resolve_left hpre
      have hexc : (s.log env n m u).fb.hasException = false :=
        (v.commit.step pre' x (by rw [hpre', List.concat_eq_append])).2.2.2.2.2
      refine ⟨[], by rw [v.step_eq h (v.updated h hu) hpre, List.append_nil], ?_⟩
      rw [hexc, if_neg Bool.false_ne_true]
      exact .nil

/-- The events of a run are the retirements and traps that its logs show, in order. -/
theorem run_trace (h : run env n = .ok (m, logs)) :
    List.Forall₂ Event.ShownAs (Window.after env logs).events (logs.flatMap CycleLog.shown) := by
  refine (run_induction (P := fun _ _ logs =>
    List.Forall₂ Event.ShownAs (Window.after env logs).events (logs.flatMap CycleLog.shown))
    (fun _ _ _ => .nil) (fun n m logs s u _ hP hcase hu => ?_) h).2
  obtain ⟨evs, hevs, hall⟩ := hcase.shown hu
  rw [Window.after_snoc, hevs, List.flatMap_append, List.flatMap_singleton]
  exact List.rel_append hP hall

end Trace

/-- A source register as an instruction reads it. -/
def sourceReg (regs : Nat → Word) (a : Nat) : Word := if a = 0 then 0 else regs a

/-- Whether a conditional branch is taken. -/
def branchTaken (op : Op) (a b : Word) : Bool :=
  match op with
  | .beq => a == b
  | .bne => a != b
  | .blt => a.slt b
  | .bge => !a.slt b
  | .bltu => a.ult b
  | .bgeu => !a.ult b
  | _ => false

/-- The successor of an instruction, from the architectural registers and `mepc`. -/
def successor (regs : Nat → Word) (mepc : Word) (d : DecodeInfo) : Word :=
  if !d.valid then d.pc + 4
  else
    match d.op with
    | .jal => d.pc + d.imm
    | .jalr => (sourceReg regs d.rs1 + d.imm) &&& ~~~1
    | .mret => mepc
    | op => if branchTaken op (sourceReg regs d.rs1) (sourceReg regs d.rs2) then d.pc + d.imm else d.pc + 4

section Successor

variable {op : RenameReadregOp} {regs : Nat → Word}

theorem PackOk.shaped (h : PackOk op.toDecodeRenamePack) : Decode.Shaped op.toDecodeInfo := by
  obtain ⟨p, -, hp⟩ := h
  have hd : Decode.decodeWord p.pc p.value p.hasException = op.toDecodeInfo :=
    congrArg DecodeRenamePack.toDecodeInfo hp.symm
  rw [← hd]
  exact Decode.shaped_decodeWord p.pc p.value p.hasException

theorem PackOk.shape (h : PackOk op.toDecodeRenamePack) (hv : op.valid = true) :
    Decode.shapeOf op.op = ⟨op.opUnit, op.subOp, op.arg1Src, op.arg2Src⟩ := (h.shaped hv).1

/-- A valid operation with a destination other than `x0` renames it. -/
theorem PackOk.writes {status : Status} (h : PackOk op.toDecodeRenamePack) (hv : op.valid = true)
    (hdest : Decode.hasDest op.op = true) (hrd : op.rd ≠ 0) : (⟨op, status⟩ : Entry).writes = true := by
  have hen := (h.shaped hv).2 hdest
  obtain ⟨p, -, hp⟩ := h
  have hneed : op.needRename = (op.rdEnable && decide (op.rd > 0)) := by
    rw [hp]
    rfl
  rw [Entry.writes, hneed, hv, hen, decide_eq_true (Nat.pos_of_ne_zero hrd)]
  rfl

theorem PackOk.needMap (h : PackOk op.toDecodeRenamePack) :
    op.rs1NeedMap = (op.arg1Src == .reg && decide (0 < op.rs1)) ∧
      op.rs2NeedMap = (op.arg2Src == .reg && decide (0 < op.rs2)) := by
  obtain ⟨p, -, hp⟩ := h
  rw [hp]
  exact ⟨rfl, rfl⟩

/-- The value of a register source. -/
theorem sourceValue_reg {reg : Nat → Option Word} {needMap : Bool} {rs : Nat} {imm : Word}
    (h : needMap = decide (0 < rs)) :
    sourceValue reg true needMap rs .reg imm = if rs = 0 then some 0 else reg rs := by
  rw [h, sourceValue]
  by_cases h0 : rs = 0
  · simp [h0]
  · simp [h0, Nat.pos_of_ne_zero h0]

theorem PackOk.operand1_reg {reg : Nat → Option Word} (h : PackOk op.toDecodeRenamePack)
    (hv : op.valid = true) (hsrc : op.arg1Src = .reg) :
    operand1 reg op = if op.rs1 = 0 then some 0 else reg op.rs1 := by
  have hneed := h.needMap.1
  rw [hsrc] at hneed
  rw [operand1, hv, hsrc]
  exact sourceValue_reg hneed

theorem PackOk.operand2_reg {reg : Nat → Option Word} (h : PackOk op.toDecodeRenamePack)
    (hv : op.valid = true) (hsrc : op.arg2Src = .reg) :
    operand2 reg op = if op.rs2 = 0 then some 0 else reg op.rs2 := by
  have hneed := h.needMap.2
  rw [hsrc] at hneed
  rw [operand2, hv, hsrc]
  exact sourceValue_reg hneed

theorem PackOk.src1Value (h : PackOk op.toDecodeRenamePack) (hv : op.valid = true)
    (hsrc : op.arg1Src = .reg) : (archPack regs op).src1Value = sourceReg regs op.rs1 := by
  rw [archPack, packOf_src1, h.operand1_reg hv hsrc, sourceReg]
  split_ifs <;> rfl

theorem PackOk.src2Value (h : PackOk op.toDecodeRenamePack) (hv : op.valid = true)
    (hsrc : op.arg2Src = .reg) : (archPack regs op).src2Value = sourceReg regs op.rs2 := by
  rw [archPack, packOf_src2, h.operand2_reg hv hsrc, sourceReg]
  split_ifs <;> rfl

theorem archNext_bru (hv : op.valid = true) (hunit : op.opUnit = .bru) (mepc : Word) :
    archNext regs mepc op =
      if Execute.bruJump (Execute.bruOpOf op.subOp) (archPack regs op).src1Value
          (archPack regs op).src2Value then
        Execute.bruTarget (Execute.bruOpOf op.subOp) mepc (archPack regs op)
      else op.pc + 4 := by
  simp [archNext, hv, hunit]

/-- What the BRU computes for an instruction is its architectural successor. -/
theorem PackOk.archNext_eq (h : PackOk op.toDecodeRenamePack) (mepc : Word) :
    archNext regs mepc op = successor regs mepc op.toDecodeInfo := by
  cases hv : op.valid with
  | false => simp [archNext, successor, hv]
  | true =>
    have hshape := h.shape hv
    have hsrc1 (ha : .reg = op.arg1Src) : (archPack regs op).src1Value = sourceReg regs op.rs1 :=
      h.src1Value hv ha.symm
    have hsrc2 (ha : .reg = op.arg2Src) : (archPack regs op).src2Value = sourceReg regs op.rs2 :=
      h.src2Value hv ha.symm
    have hpc : (archPack regs op).pc = op.pc := by rw [archPack, packOf_info]
    have himm : (archPack regs op).imm = op.imm := by rw [archPack, packOf_info]
    unfold successor
    -- branches, jumps, and the rest, which fall through
    cases hop : op.op <;> rw [hop] at hshape <;>
      simp only [Decode.shapeOf, Decode.Shape.mk.injEq] at hshape <;>
      obtain ⟨hunit, hsub, ha1, ha2⟩ := hshape
    case beq | bne | blt | bge | bltu | bgeu =>
      rw [archNext_bru hv hunit.symm, ← hsub, hsrc1 ha1, hsrc2 ha2]
      simp only [Execute.bruOpOf, Execute.bruJump, Execute.bruTarget, branchTaken, hpc, himm, hv,
        Bool.not_true, Bool.false_eq_true, if_false, BitVec.sle_eq_not_slt, BitVec.ule_eq_not_ult]
      rfl
    case jal | jalr | mret =>
      rw [archNext_bru hv hunit.symm, ← hsub]
      simp [Execute.bruOpOf, Execute.bruJump, Execute.bruTarget, hpc, himm, hv, ← hsrc1, ← ha1,
        BitVec.add_comm]
    all_goals
      rw [archNext_plain (by rw [← hunit]; decide)]
      simp [hv, branchTaken]

/-- Only an `mret` looks at `mepc`. -/
theorem successor_congr {d : DecodeInfo} {mepc mepc' : Word} (h : d.op = .mret → mepc = mepc') :
    successor regs mepc d = successor regs mepc' d := by
  unfold successor
  cases hop : d.op with
  | mret => rw [h hop]
  | _ => rfl

end Successor

section ControlFlow

variable {env : Env} {n : Nat} {m : Machine} {logs : List CycleLog}

/-- Every retired instruction is where the events before it lead. -/
theorem InOrderOk.retired_pc {csr : Nat → Word} {w : Window} (h : InOrderOk env csr w) {pre post : List Event}
    {b : Arch} {mepc : Word} {e : Entry} (hev : w.events = pre ++ .retire b mepc e :: post) :
    e.op.pc = (InOrder.after env pre).arch.pc := by
  obtain ⟨-, -, r, -, -, hcomp⟩ := h.events pre _ post hev
  exact hcomp.pc

/-- The retired instructions of a run, which are those that its logs show: each follows the architectural
successor of the one before it, and the first after a trap is at the `mtvec` of that moment. -/
theorem control_flow (h : run env n = .ok (m, logs)) :
    List.Forall₂ Event.ShownAs (Window.after env logs).events (logs.flatMap CycleLog.shown) ∧
    (∀ pre b mepc e b' mepc' e' post,
      (Window.after env logs).events = pre ++ .retire b mepc e :: .retire b' mepc' e' :: post →
      e'.op.pc = successor (lastWritten pre) ((InOrder.after env pre).csr csrMepc) e.op.toDecodeInfo) ∧
    (∀ pre ev b mepc e post, (Window.after env logs).events = pre ++ ev :: .retire b mepc e :: post →
      (∀ b' mepc' e', ev ≠ .retire b' mepc' e') → e.op.pc = (InOrder.after env pre).csr csrMtvec) ∧
    ∀ a, StableCsr a →
      m.csrFile.value a = (InOrder.after env (Window.after env logs).events).csr a := by
  have hin := run_inOrder h
  refine ⟨run_trace h, fun pre b mepc e b' mepc' e' post hev => ?_,
    fun pre ev b mepc e post hev htrap => ?_, hin.csr⟩
  · obtain ⟨-, hmepc, r, -, -, hcomp⟩ := hin.events pre _ _ hev
    have hregs : lastWritten pre = (InOrder.after env pre).arch.regs :=
      funext fun a => (InOrder.regs_after env pre a).symm
    rw [hin.retired_pc
        (show _ = (pre ++ [.retire b mepc e]) ++ .retire b' mepc' e' :: post by rw [hev]; simp),
      InOrder.after_snoc, hregs, ← successor_congr hmepc, ← hcomp.pack.archNext_eq]
    rfl
  -- after a trap the handler is next
  · have hok := hin.events pre _ _ hev
    rw [hin.retired_pc (show _ = (pre ++ [ev]) ++ .retire b mepc e :: post by rw [hev]; simp),
      InOrder.after_snoc]
    cases ev with
    | retire b' mepc' e' => exact absurd rfl (htrap b' mepc' e')
    | exception => exact hok.2.1
    | interrupt => exact hok.2.1

/-- `lui x1, 0x80000`, `csrrw x0, mtvec, x1`, `ecall` and `fence.i`: the handler is the program itself. -/
def trapLoop : List Word := [0x800000b7, 0x30509073, 0x00000073, 0x0000100f]

/-- The first two instructions retire, the third traps and the first retires again. -/
theorem control_flow_trapLoop : ∃ m logs b mepc e b' mepc' e' ev b'' mepc'' e'' post,
    run (Env.ofProgram trapLoop) 30 = .ok (m, logs) ∧ (Window.after (Env.ofProgram trapLoop) logs).events =
      .retire b mepc e :: .retire b' mepc' e' :: ev :: .retire b'' mepc'' e'' :: post ∧
    List.Forall₂ Event.ShownAs (Window.after (Env.ofProgram trapLoop) logs).events (logs.flatMap CycleLog.shown) ∧
    e'.op.pc = successor (lastWritten []) ((InOrder.after (Env.ofProgram trapLoop) []).csr csrMepc) e.op.toDecodeInfo ∧
    e''.op.pc = (InOrder.after (Env.ofProgram trapLoop) [.retire b mepc e, .retire b' mepc' e']).csr csrMtvec ∧
    e''.op.pc = 0x80000000 ∧ ∀ a, StableCsr a → m.csrFile.value a =
      (InOrder.after (Env.ofProgram trapLoop) (Window.after (Env.ofProgram trapLoop) logs).events).csr a := by
  obtain ⟨m, logs, h, hP⟩ := exists_run_of (show endsWith (fun _ logs =>
    ((Window.after (Env.ofProgram trapLoop) logs).events.map Event.isRetire).take 4 == [true, true, false, true] &&
      ((Window.after (Env.ofProgram trapLoop) logs).events[3]?.bind Event.entry?).any fun e => e.op.pc == 0x80000000)
    (run (Env.ofProgram trapLoop) 30) = true by decide +kernel)
  obtain ⟨hshown, hnext, htrap, hcsr⟩ := control_flow h
  obtain ⟨hkinds, hpc⟩ := Bool.and_eq_true_iff.mp hP
  obtain ⟨ev₀, ev₁, ev₂, ev₃, post, hev⟩ : ∃ ev₀ ev₁ ev₂ ev₃ post,
      (Window.after (Env.ofProgram trapLoop) logs).events = ev₀ :: ev₁ :: ev₂ :: ev₃ :: post := by
    generalize (Window.after (Env.ofProgram trapLoop) logs).events = events at hkinds
    obtain _ | ⟨ev₀, _ | ⟨ev₁, _ | ⟨ev₂, _ | ⟨ev₃, post⟩⟩⟩⟩ := events
    case cons.cons.cons.cons => exact ⟨ev₀, ev₁, ev₂, ev₃, post, rfl⟩
    all_goals simp at hkinds
  rw [hev] at hkinds hpc
  simp only [List.map_cons, List.take_succ_cons, List.take_zero, beq_iff_eq, List.cons.injEq, and_true] at hkinds
  obtain ⟨h₀, h₁, h₂, h₃⟩ := hkinds
  cases ev₀ with
  | exception | interrupt => cases h₀
  | retire b mepc e =>
  cases ev₁ with
  | exception | interrupt => cases h₁
  | retire b' mepc' e' =>
  cases ev₃ with
  | exception | interrupt => cases h₃
  | retire b'' mepc'' e'' =>
  refine ⟨m, logs, b, mepc, e, b', mepc', e', ev₂, b'', mepc'', e'', post, h, hev, hshown,
    hnext [] b mepc e b' mepc' e' _ hev, htrap [.retire b mepc e, .retire b' mepc' e'] ev₂ b'' mepc'' e'' post hev ?_,
    beq_iff_eq.mp hpc, hcsr⟩
  rintro b mepc e rfl
  cases h₂

end ControlFlow

end MyRiscvCore
