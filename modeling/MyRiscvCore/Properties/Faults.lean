import MyRiscvCore.Properties.Fate

/-!
# MyRiscvCore — instructions that fault

What becomes of an instruction that the architecture wants to trap, once it is the oldest one and no interrupt
comes first.

* A word that decode rejects goes to the unit of its opcode, and only the ALU turns an invalid pack into an
  illegal-instruction exception: a rejected load, store or branch retires without effect
  (`undecodable_traps`).
* A misaligned load or store traps before it touches the bus or the store buffer (`misaligned_access`).
* The access-fault causes are chosen at issue, but the flag is the misalignment alone, so that an aligned
  access to an unmapped address retires (`unmapped_access`).
-/

namespace MyRiscvCore

/-- An interrupt was taken in place of the instruction. -/
def Preempted (evs : List Event) : Prop := ∃ b handler writes, evs = [.interrupt b handler writes]

/-- The operation ended with a trap of its own, which leaves `m₁`. -/
structure TrapsWith (m m₁ : Machine) (op : RenameReadregOp) (cause : RiscvException) (value : Word)
    (evs : List Event) : Prop where
  event : ∃ b e handler writes, evs = [.exception b e handler writes] ∧ e.op = op
  state : Trapped m m₁ op.pc cause value

/-- The events begin with the retirement of the operation. -/
def Retires (op : RenameReadregOp) (evs : List Event) : Prop :=
  ∃ b mepc r rest, evs = .retire b mepc ⟨op, .finished r⟩ :: rest

section Fate

variable {env : Env} {events evs : List Event} {op : RenameReadregOp} {m m₁ : Machine}

/-- Only a decoded load or store is sent with another exception than it was fetched with. -/
theorem packOf_exception {v1 v2 : Word} (h : (op.valid && op.opUnit == .lsu) = false) :
    (packOf op v1 v2).toExceptionInfo = op.toExceptionInfo := by
  unfold packOf Issue.sendPack
  rw [if_neg (by rw [h]; exact Bool.false_ne_true)]

theorem PackOk.pc_aligned (h : PackOk op.toDecodeRenamePack) (hexc : op.hasException = false) :
    op.pc &&& 0xFFFFFFFC = op.pc := by
  obtain ⟨p, hf, hp⟩ := h
  have hpc : op.pc = p.pc := by
    rw [show op.pc = (Decode.decodePack p).pc from congrArg (·.pc) hp, decodePack_pc]
  have hex : op.hasException = p.hasException := congrArg (·.hasException) hp
  rw [hexc, hf.misaligned, ← hpc] at hex
  have hcheck : Bus.checkAlign op.pc .word = true := by simpa using hex.symm
  exact mepc_of_aligned (eq_of_beq hcheck)

/-- A decoded instruction was fetched without an exception. -/
theorem PackOk.noException (h : PackOk op.toDecodeRenamePack) (hv : op.valid = true) : op.hasException = false := by
  obtain ⟨p, hf, hp⟩ := h
  have hex : op.hasException = p.hasException := congrArg (·.hasException) hp
  have hval : op.valid = (Decode.decodeWord p.pc p.value p.hasException).valid := congrArg (·.valid) hp
  cases hx : p.hasException with
  | false => rw [hex, hx]
  | true =>
    rw [hx, hf.exception hx, hv] at hval
    cases hval

/-- What retires has not trapped. -/
theorem Retires.not_traps (h : Retires op evs) (cause : RiscvException) (value : Word) :
    ¬ TrapsWith m m₁ op cause value evs := by
  obtain ⟨b, mepc, r, rest, rfl⟩ := h
  rintro ⟨⟨b', e, handler, writes, heq, -⟩, -⟩
  cases (List.cons.inj heq).1

/-- A fate other than an interrupt is decided by the result of the instruction. -/
theorem Fate.cases (h : Fate env events op m m₁ evs) (hexc : op.hasException = false) :
    Preempted evs ∨ ∃ r, Computes (InOrder.after env events).arch (InOrder.after env events).csr ⟨op, .finished r⟩ r ∧
      ((r.hasException = true ∧ TrapsWith m m₁ op r.exceptionId r.exceptionValue evs) ∨
        (r.hasException = false ∧ Retires op evs)) := by
  cases h with
  | interrupt b handler writes => exact .inl ⟨b, handler, writes, rfl⟩
  | @trap r b handler writes hx hr ht =>
    rw [PackOk.pc_aligned hr.pack hexc] at ht
    exact .inr ⟨r, hr, .inl ⟨hx, ⟨b, _, handler, writes, rfl, rfl⟩, ht⟩⟩
  | @retire r b mepc evs hx hr => exact .inr ⟨r, hr, .inr ⟨hx, b, mepc, r, evs, rfl⟩⟩

end Fate

/-! ## Undecodable words

Such a word goes to some unit, which may not raise the exception. -/

section Undecodable

variable {env : Env} {n : Nat} {m m' : Machine} {logs logs' : List CycleLog} {e : Entry} {rest : List Entry}
  {op : RenameReadregOp} {regs : Nat → Word} {r : ExecuteWbPack}

theorem PackOk.rejected (h : PackOk op.toDecodeRenamePack) (hv : op.valid = false) (hexc : op.hasException = false) :
    op.op = .add ∧ op.opUnit = Decode.rejectedUnit op.value := by
  obtain ⟨p, hf, hp⟩ := h
  have hex : op.hasException = p.hasException := congrArg (·.hasException) hp
  have hinfo : op.toDecodeInfo = Decode.decodeWord p.pc p.value false := by
    rw [show op.toDecodeInfo = Decode.decodeWord p.pc p.value p.hasException from congrArg (·.toDecodeInfo) hp,
      ← hex, hexc]
  have hvalue : op.value = p.value := congrArg (·.value) hp
  rw [hvalue]
  rw [hinfo] at hv ⊢
  exact Decode.rejected_decodeWord p.pc p.value hv

/-- The result of an invalid pack: the ALU raises an exception, the BRU and the LSU pass it on. -/
theorem UnitResult.invalid (h : UnitResult (archPack regs op) r) (hen : op.enable = true) (hv : op.valid = false)
    (hexc : op.hasException = false) :
    (op.opUnit = .alu → r.hasException = true ∧ r.exceptionId = .illegalInstruction) ∧
      (op.opUnit = .bru ∨ op.opUnit = .lsu → r.hasException = false) := by
  have hinfo : (archPack regs op).toDecodeInfo = op.toDecodeInfo := by rw [archPack, packOf_info]
  have hunit : (archPack regs op).opUnit = op.opUnit := congrArg (·.opUnit) hinfo
  have hen' : (archPack regs op).enable = true := (congrArg (·.enable) hinfo).trans hen
  have hv' : (archPack regs op).valid = false := (congrArg (·.valid) hinfo).trans hv
  have hexc' : (archPack regs op).hasException = false := by
    rw [archPack, packOf_exception (by rw [hv]; rfl), hexc]
  unfold UnitResult at h
  refine ⟨fun hu => ?_, ?_⟩
  · rw [hunit, hu] at h
    have h : r = Execute.alu (archPack regs op) := h
    rw [h, Execute.alu, hen', hexc', hv']
    exact ⟨rfl, rfl⟩
  · rintro (hu | hu)
    · rw [hunit, hu] at h
      obtain ⟨mepc, h⟩ : ∃ mepc, r = Execute.bru mepc (archPack regs op) := h
      rw [h, Execute.bru, hen', hv']
      exact hexc'
    · rw [hunit, hu] at h
      obtain ⟨v, h⟩ : ∃ v, r = { Execute.base (archPack regs op) with rdValue := v } := h
      rw [h]
      exact hexc'

/-- A word that decode rejects traps exactly if its opcode is not that of a load, a store or a branch. With one of
these three it retires. -/
theorem undecodable_traps {k : Nat} (h : run env n = .ok (m, logs))
    (hf : (Window.after env logs).flight = e :: rest) (hv : e.op.valid = false) (hexc : e.op.hasException = false)
    (hk : robSize + 9 ≤ k) (h' : run env (n + k) = .ok (m', logs')) :
    ∃ j ≤ k, ∃ m₁ logs₁ evs, run env (n + j) = .ok (m₁, logs₁) ∧
      (Window.after env logs₁).events = (Window.after env logs).events ++ evs ∧
      (Preempted evs ∨
        (((∃ value, TrapsWith m m₁ e.op .illegalInstruction value evs) ↔
            opcodeOf e.op.value ≠ 0x63 ∧ opcodeOf e.op.value ≠ 0x03 ∧ opcodeOf e.op.value ≠ 0x23) ∧
          (Retires e.op evs ↔
            opcodeOf e.op.value = 0x63 ∨ opcodeOf e.op.value = 0x03 ∨ opcodeOf e.op.value = 0x23))) := by
  have hpack := run_packOk h e (by rw [hf]; exact List.mem_cons_self)
  obtain ⟨hadd, hunit⟩ := hpack.rejected hv hexc
  obtain ⟨j, hj, m₁, logs₁, evs, h₁, hevents, hfate⟩ := oldest_fate h hf (by rw [hadd]; decide) hk h'
  refine ⟨j, hj, m₁, logs₁, evs, h₁, hevents, ?_⟩
  obtain hpre | ⟨r, hr, hend⟩ := hfate.cases hexc
  · exact .inl hpre
  obtain ⟨halu, hother⟩ := hr.result.invalid hpack.enable hv hexc
  -- the unit that the opcode leads to decides
  rw [hunit, Decode.rejectedUnit] at halu hother
  by_cases hop : opcodeOf e.op.value = 0x63 ∨ opcodeOf e.op.value = 0x03 ∨ opcodeOf e.op.value = 0x23
  · have hx : r.hasException = false := by
      refine hother ?_
      split_ifs with h63 hlsu
      · exact .inl rfl
      · exact .inr rfl
      · exact absurd (hop.resolve_left h63) hlsu
    obtain ⟨hx', -⟩ | ⟨-, hret⟩ := hend
    · cases hx.symm.trans hx'
    · refine .inr ⟨iff_of_false (fun ht => hret.not_traps _ _ ht.choose_spec) ?_, iff_of_true hret hop⟩
      rwa [← not_or, ← not_or, not_not]
  · rw [not_or, not_or] at hop
    rw [if_neg hop.1, if_neg (not_or.mpr hop.2)] at halu
    obtain ⟨hx, hid⟩ := halu rfl
    obtain ⟨-, ht⟩ | ⟨hx', -⟩ := hend
    · rw [hid] at ht
      refine .inr ⟨iff_of_true ⟨_, ht⟩ hop, iff_of_false (fun hret => hret.not_traps _ _ ht) ?_⟩
      rwa [not_or, not_or]
    · cases hx.symm.trans hx'

/-- The zero words at the handler trap. -/
theorem undecodable_traps_faulty : ∃ m logs e rest m' logs',
    run (Env.ofProgram faulty) 19 = .ok (m, logs) ∧
    (Window.after (Env.ofProgram faulty) logs).flight = e :: rest ∧ e.op.value = 0 ∧
    run (Env.ofProgram faulty) (19 + 73) = .ok (m', logs') ∧
    ∃ j ≤ 73, ∃ m₁ logs₁ evs, run (Env.ofProgram faulty) (19 + j) = .ok (m₁, logs₁) ∧
      (Window.after (Env.ofProgram faulty) logs₁).events = (Window.after (Env.ofProgram faulty) logs).events ++ evs ∧
      (Preempted evs ∨ ∃ value, TrapsWith m m₁ e.op .illegalInstruction value evs) := by
  obtain ⟨m', logs', h'⟩ := run_faulty (show 19 + 73 ≤ 92 by decide)
  obtain ⟨m, logs, e, rest, h, hf, hP⟩ := exists_oldest (show oldestIs (Env.ofProgram faulty)
    (fun e => e.op.value == 0 && !e.op.valid && !e.op.hasException) (run (Env.ofProgram faulty) 19) = true by
      decide +kernel)
  simp only [Bool.and_eq_true, beq_iff_eq, Bool.not_eq_true'] at hP
  obtain ⟨j, hj, m₁, logs₁, evs, h₁, hevents, hend⟩ := undecodable_traps h hf hP.1.2 hP.2 (by decide) h'
  refine ⟨m, logs, e, rest, m', logs', h, hf, hP.1.1, h', j, hj, m₁, logs₁, evs, h₁, hevents, ?_⟩
  exact hend.imp_right fun hend => hend.1.mpr (by rw [hP.1.1]; decide)

/-- A word with the opcode of a load and no such load. -/
def badLoad : List Word := [0x00003003, 0x0000100f]

/-- The rejected load retires. -/
theorem undecodable_retires : ∃ m logs pre b mepc e post, run (Env.ofProgram badLoad) 11 = .ok (m, logs) ∧
    (Window.after (Env.ofProgram badLoad) logs).events = pre ++ .retire b mepc e :: post ∧
    e.op.value = 0x00003003 ∧ e.op.valid = false ∧ e.op.hasException = false := by
  obtain ⟨m, logs, pre, ev, post, h, hevents, hP⟩ := exists_event (show eventAt (fun _ ev =>
    match ev with
    | .retire _ _ e => e.op.value == 0x00003003 && !e.op.valid && !e.op.hasException
    | _ => false) (Env.ofProgram badLoad) 0 (run (Env.ofProgram badLoad) 11) = true by decide +kernel)
  cases ev with
  | retire b mepc e =>
    simp only [Bool.and_eq_true, beq_iff_eq, Bool.not_eq_true'] at hP
    exact ⟨m, logs, pre, b, mepc, e, post, h, hevents, hP.1.1, hP.1.2, hP.2⟩
  | exception b e handler writes => cases hP
  | interrupt b handler writes => cases hP

end Undecodable

/-- The stores. -/
def Op.isStore (op : Op) : Bool := op ∈ [Op.sb, .sh, .sw]

def Op.isAccess (op : Op) : Bool := op.isLoad || op.isStore

/-- How many bytes a load or store moves. -/
def Op.accessSize : Op → AccessSize
  | .lb | .lbu | .sb => .byte
  | .lh | .lhu | .sh => .half
  | _ => .word

/-- The address of a load or store. -/
def dataAddr (regs : Nat → Word) (op : RenameReadregOp) : Word := sourceReg regs op.rs1 + op.imm

def misalignedCause (op : Op) : RiscvException :=
  if op.isStore then .storeAmoAddressMisaligned else .loadAddressMisaligned

def accessFaultCause (op : Op) : RiscvException :=
  if op.isStore then .storeAmoAccessFault else .loadAccessFault

/-- A slave of the bus answers this address. -/
def Mapped (addr : Word) : Prop := (findSlaveInfo slaveInfoList addr).isSome = true

instance (addr : Word) : Decidable (Mapped addr) := inferInstanceAs (Decidable (_ = true))

theorem Op.access_shape {op : Op} (h : op.isAccess = true) : ∃ lsuOp arg2,
    Decode.shapeOf op = ⟨.lsu, .lsu lsuOp, .reg, arg2⟩ ∧ Issue.isStore lsuOp = op.isStore ∧
      Issue.lsuSize lsuOp = op.accessSize := by
  cases op <;> cases h <;> exact ⟨_, _, rfl, rfl, rfl⟩

section Access

variable {env : Env} {n : Nat} {m m' : Machine} {logs logs' : List CycleLog} {e : Entry} {rest : List Entry}
  {op : RenameReadregOp} {regs : Nat → Word} {r : ExecuteWbPack} {v1 v2 : Word}

/-- The exception fields that a load or store is sent with. -/
theorem PackOk.access_pack (h : PackOk op.toDecodeRenamePack) (v1 v2 : Word) (hv : op.valid = true)
    (hacc : op.op.isAccess = true) :
    op.opUnit = .lsu ∧ op.arg1Src = .reg ∧ Issue.isStore (Issue.lsuOpOf op.subOp) = op.op.isStore ∧
      Issue.lsuSize (Issue.lsuOpOf op.subOp) = op.op.accessSize ∧ (packOf op v1 v2).lsuAddr = v1 + op.imm ∧
      (packOf op v1 v2).toExceptionInfo =
        { hasException := !Bus.checkAlign (v1 + op.imm) op.op.accessSize
          exceptionId := if Bus.checkAlign (v1 + op.imm) op.op.accessSize then accessFaultCause op.op
            else misalignedCause op.op
          exceptionValue := v1 + op.imm } := by
  obtain ⟨lsuOp, arg2, hshape, hstore, hsize⟩ := Op.access_shape hacc
  obtain ⟨hunit, hsub, ha1, -⟩ := (Decode.Shape.mk.injEq ..).mp (hshape.symm.trans (h.shape hv))
  have hop : Issue.lsuOpOf op.subOp = lsuOp := by
    rw [← hsub]
    rfl
  refine ⟨hunit.symm, ha1.symm, by rw [hop, hstore], by rw [hop, hsize], ?_⟩
  unfold packOf Issue.sendPack
  rw [if_pos (by rw [hv, ← hunit]; rfl)]
  refine ⟨rfl, ?_⟩
  show Issue.lsuException (Issue.lsuOpOf op.subOp) (v1 + op.imm) = _
  rw [hop, Issue.lsuException, hsize, hstore, accessFaultCause, misalignedCause]
  cases Bus.checkAlign (v1 + op.imm) op.op.accessSize <;> cases op.op.isStore <;> rfl

/-- The exception fields of the result. -/
theorem UnitResult.access (h : UnitResult (archPack regs op) r) (hpack : PackOk op.toDecodeRenamePack)
    (hv : op.valid = true) (hacc : op.op.isAccess = true) :
    r.toExceptionInfo =
      { hasException := !Bus.checkAlign (dataAddr regs op) op.op.accessSize
        exceptionId := if Bus.checkAlign (dataAddr regs op) op.op.accessSize then accessFaultCause op.op
          else misalignedCause op.op
        exceptionValue := dataAddr regs op } := by
  obtain ⟨hunit, ha1, -, -, -, hexc⟩ := hpack.access_pack _ _ hv hacc
  have hinfo : (archPack regs op).opUnit = .lsu := by rw [archPack, packOf_info, hunit]
  unfold UnitResult at h
  rw [hinfo] at h
  obtain ⟨v, h⟩ : ∃ v, r = { Execute.base (archPack regs op) with rdValue := v } := h
  have hsrc : (archPack regs op).src1Value = sourceReg regs op.rs1 := hpack.src1Value hv ha1
  rw [archPack, packOf_src1] at hsrc
  rw [h]
  show (archPack regs op).toExceptionInfo = _
  rw [archPack, hexc, hsrc, dataAddr]

/-- How the stay of a load or store at the head of the reorder buffer ends: it traps if and only if it is
misaligned. -/
theorem oldest_access {k : Nat} (h : run env n = .ok (m, logs))
    (hf : (Window.after env logs).flight = e :: rest) (hv : e.op.valid = true) (hacc : e.op.op.isAccess = true)
    (hk : robSize + 9 ≤ k) (h' : run env (n + k) = .ok (m', logs')) :
    ∃ j ≤ k, ∃ m₁ logs₁ evs, run env (n + j) = .ok (m₁, logs₁) ∧
      (Window.after env logs₁).events = (Window.after env logs).events ++ evs ∧
      (Preempted evs ∨
        if Bus.checkAlign (dataAddr (lastWritten (Window.after env logs).events) e.op) e.op.op.accessSize then
          Retires e.op evs
        else TrapsWith m m₁ e.op (misalignedCause e.op.op)
          (dataAddr (lastWritten (Window.after env logs).events) e.op) evs) := by
  have hpack := run_packOk h e (by rw [hf]; exact List.mem_cons_self)
  obtain ⟨j, hj, m₁, logs₁, evs, h₁, hevents, hfate⟩ := oldest_fate h hf
    (by intro hop; rw [hop] at hacc; cases hacc) hk h'
  refine ⟨j, hj, m₁, logs₁, evs, h₁, hevents, ?_⟩
  -- an interrupt may come first; otherwise its own event does
  obtain hpre | ⟨r, hr, hend⟩ := hfate.cases (hpack.noException hv)
  · exact .inl hpre
  refine .inr ?_
  have hregs : (InOrder.after env (Window.after env logs).events).arch.regs =
      lastWritten (Window.after env logs).events := funext fun a => InOrder.regs_after env _ a
  have hexc := hr.result.access hpack hv hacc
  rw [hregs] at hexc
  split_ifs with halign
  · rw [halign] at hexc
    obtain ⟨hx, -⟩ | ⟨-, hret⟩ := hend
    · rw [hexc] at hx
      cases hx
    · exact hret
  · rw [Bool.not_eq_true] at halign
    rw [halign] at hexc
    obtain ⟨-, ht⟩ | ⟨hx, -⟩ := hend
    · rwa [hexc] at ht
    · rw [hexc] at hx
      cases hx

/-- The items of the store buffer are aligned, also while a trap is walked back. -/
theorem Refines.aligned {w : Window} (h : Refines m w) :
    ∀ i ∈ m.storeBuffer.toList, Bus.checkAlign i.addr i.size = true := by
  obtain h | ⟨j, h⟩ := h
  · exact h.aligned
  · intro i hi
    obtain ⟨com, hlist, hcom⟩ := h.store.items
    rw [hlist, show storesOf ([] : List Entry) = [] from rfl, List.append_nil] at hi
    exact hcom.aligned i hi

/-- What the LSU has in hand belongs to an instruction in flight. -/
theorem Refines.lsu_pack {w : Window} (h : Refines m w) {p : IssueExecutePack} (hp : p ∈ lsuPacks m) :
    ∃ (e : Entry) (v1 v2 : Word), PackOk e.op.toDecodeRenamePack ∧ p = packOf e.op v1 v2 := by
  obtain h | ⟨j, h⟩ := h
  · obtain ⟨pre, e, post, v1, v2, hf, -, -, rfl⟩ := h.loc.pack p (Normal.lsu_mem hp)
    exact ⟨e, v1, v2, (h.flight pre e post hf).pack, rfl⟩
  · obtain ⟨-, -, -, hunits, hhold, -⟩ := h.drained
    rw [lsuPacks, hhold, hunits] at hp
    cases hp

/-- A misaligned load or store traps when it is the oldest instruction, with its address in `mtval`. Before
that it neither reads the bus nor enters the store buffer, and no other load or store traps. -/
theorem misaligned_access (h : run env n = .ok (m, logs)) :
    (∀ e rest k m' logs', (Window.after env logs).flight = e :: rest → e.op.valid = true →
      e.op.op.isAccess = true →
      (dataAddr (lastWritten (Window.after env logs).events) e.op).toNat % e.op.op.accessSize.bytes ≠ 0 →
      robSize + 9 ≤ k → run env (n + k) = .ok (m', logs') →
      ∃ j ≤ k, ∃ m₁ logs₁ evs, run env (n + j) = .ok (m₁, logs₁) ∧
        (Window.after env logs₁).events = (Window.after env logs).events ++ evs ∧
        (Preempted evs ∨ TrapsWith m m₁ e.op (misalignedCause e.op.op)
          (dataAddr (lastWritten (Window.after env logs).events) e.op) evs)) ∧
    (∀ p ∈ lsuPacks m, p.valid = true → p.op.isAccess = true →
      (p.src1Value + p.imm).toNat % p.op.accessSize.bytes ≠ 0 →
      ∀ bus storeBuffer, Execute.lsu bus storeBuffer p = .ok (Execute.base p, none, [])) ∧
    (∀ i ∈ m.storeBuffer.toList, i.addr.toNat % i.size.bytes = 0) ∧
    ∀ pre b e handler writes post, (Window.after env logs).events = pre ++ .exception b e handler writes :: post →
      e.op.valid = true → e.op.op.isAccess = true →
      (dataAddr (lastWritten pre) e.op).toNat % e.op.op.accessSize.bytes ≠ 0 := by
  refine ⟨fun e rest k m' logs' hf hv hacc hmis hk h' => ?_, fun p hp hv hacc hmis bus storeBuffer => ?_,
    fun i hi => checkAlign_iff.mp ((run_refines h).aligned i hi),
    fun pre b e handler writes post hevents hv hacc halign => ?_⟩
  · obtain ⟨j, hj, m₁, logs₁, evs, h₁, hevents, hend⟩ := oldest_access h hf hv hacc hk h'
    rw [if_neg (checkAlign_iff.not.mpr hmis)] at hend
    exact ⟨j, hj, m₁, logs₁, evs, h₁, hevents, hend⟩
  -- in the unit: issue has set the exception, so nothing is accessed
  · obtain ⟨e, v1, v2, hpack, rfl⟩ := (run_refines h).lsu_pack hp
    rw [packOf_info] at hv hacc
    rw [packOf_src1, packOf_info] at hmis
    obtain ⟨-, -, -, -, -, hexc⟩ := hpack.access_pack v1 v2 hv hacc
    have hx : (packOf e.op v1 v2).hasException = true := by
      rw [hexc, Bool.eq_false_iff.mpr (checkAlign_iff.not.mpr hmis)]
      rfl
    rw [Execute.lsu, hx, Bool.not_true, Bool.and_false]
    rfl
  -- conversely, a trapped access was misaligned
  · obtain ⟨-, -, r, -, hx, hr, -⟩ := (run_inOrder h).events _ _ _ hevents
    have hregs : (InOrder.after env pre).arch.regs = lastWritten pre := funext fun a => InOrder.regs_after env _ a
    have hexc := hr.result.access hr.pack hv hacc
    rw [hregs, checkAlign_iff.mpr halign] at hexc
    rw [hexc] at hx
    cases hx

/-- The load from address 1 traps. -/
theorem misaligned_access_faulty : ∃ m logs e rest m' logs',
    run (Env.ofProgram faulty) 11 = .ok (m, logs) ∧
    (Window.after (Env.ofProgram faulty) logs).flight = e :: rest ∧ e.op.op = .lw ∧
    run (Env.ofProgram faulty) (11 + 73) = .ok (m', logs') ∧
    ∃ j ≤ 73, ∃ m₁ logs₁ evs, run (Env.ofProgram faulty) (11 + j) = .ok (m₁, logs₁) ∧
      (Window.after (Env.ofProgram faulty) logs₁).events = (Window.after (Env.ofProgram faulty) logs).events ++ evs ∧
      (Preempted evs ∨ TrapsWith m m₁ e.op (misalignedCause e.op.op)
        (dataAddr (lastWritten (Window.after (Env.ofProgram faulty) logs).events) e.op) evs) := by
  obtain ⟨m', logs', h'⟩ := run_faulty (show 11 + 73 ≤ 92 by decide)
  obtain ⟨m, logs, h, hP⟩ := exists_run_of (show endsWith (fun _ logs =>
    (Window.after (Env.ofProgram faulty) logs).flight.head?.any fun e => e.op.op == .lw && e.op.valid &&
      (dataAddr (lastWritten (Window.after (Env.ofProgram faulty) logs).events) e.op).toNat % 4 != 0)
    (run (Env.ofProgram faulty) 11) = true by decide +kernel)
  obtain ⟨e, he, hP⟩ := (Option.any_eq_true _ _).mp hP
  obtain ⟨rest, hf⟩ := List.head?_eq_some_iff.mp he
  simp only [Bool.and_eq_true, beq_iff_eq, bne_iff_ne] at hP
  obtain ⟨⟨hop, hv⟩, hmis⟩ := hP
  exact ⟨m, logs, e, rest, m', logs', h, hf, hop, h', (misaligned_access h).1 e rest 73 m' logs' hf hv
    (by rw [hop]; rfl) (by rw [hop]; exact hmis) (by decide) h'⟩

theorem Mapped.region {addr : Word} (h : Mapped addr) :
    (2147483648 ≤ addr.toNat ∧ addr.toNat < 2148532224) ∨ (536870912 ≤ addr.toNat ∧ addr.toNat < 536936448) := by
  obtain ⟨info, hinfo⟩ := Option.isSome_iff_exists.mp h
  have hmem := List.mem_of_find?_eq_some hinfo
  have hin := List.find?_some hinfo
  simp only [Bool.and_eq_true, decide_eq_true_eq] at hin
  obtain rfl | rfl : info = ⟨0x80000000, 1048576, .memory⟩ ∨ info = ⟨0x20000000, 0x10000, .clint⟩ := by
    simpa [slaveInfoList] using hmem
  · exact .inl hin
  · exact .inr hin

theorem mapped_of_region {addr : Word} (h : (2147483648 ≤ addr.toNat ∧ addr.toNat < 2148532224) ∨
    (536870912 ≤ addr.toNat ∧ addr.toNat < 536936448)) : Mapped addr := by
  unfold Mapped findSlaveInfo
  rw [List.find?_isSome]
  obtain h | h := h
  · exact ⟨⟨0x80000000, 1048576, .memory⟩, by simp [slaveInfoList],
      by simp only [Bool.and_eq_true, decide_eq_true_eq]; exact h⟩
  · exact ⟨⟨0x20000000, 0x10000, .clint⟩, by simp [slaveInfoList],
      by simp only [Bool.and_eq_true, decide_eq_true_eq]; exact h⟩

/-- A buffered store to an unmapped address covers no byte of a load from a mapped one: the regions begin and end
at multiples of a word. -/
theorem overlay_unmapped {addr : Word} {size : AccessSize} {i : StoreBufferItem} (hmap : Mapped addr)
    (ha : Bus.checkAlign addr size = true) (hi : Bus.checkAlign i.addr i.size = true) (hun : ¬ Mapped i.addr)
    (v : Word) : StoreBuffer.overlay addr size v i = v := by
  rw [checkAlign_iff] at ha hi
  have hreg := hmap.region
  have hout := mt mapped_of_region hun
  refine BitVec.eq_of_getLsbD_eq fun j hj => ?_
  rw [StoreBuffer.getLsbD_overlay (by omega) v hj, if_neg]
  rintro ⟨hlo, hhi, hjs⟩
  generalize j / 8 = b at *
  cases size <;> cases hs : i.size <;> simp only [hs, AccessSize.bytes] at * <;> omega

/-- What a load from a mapped address reads does not depend on buffered stores to unmapped ones. -/
theorem loadValue_mapped (bus : Bus) {sb sb' : StoreBuffer} (lsuOp : LsuOp) {addr : Word} (hsb : sb.WF)
    (hsb' : sb'.WF) (hal : ∀ i ∈ sb.toList, Bus.checkAlign i.addr i.size = true)
    (hal' : ∀ i ∈ sb'.toList, Bus.checkAlign i.addr i.size = true)
    (hsame : sb'.toList.filter (Mapped ·.addr) = sb.toList.filter (Mapped ·.addr)) (hmap : Mapped addr)
    (ha : Bus.checkAlign addr (Issue.lsuSize lsuOp) = true) :
    Execute.loadValue bus sb' lsuOp addr = Execute.loadValue bus sb lsuOp addr := by
  have hfold (items : List StoreBufferItem) (v : Word)
      (hitems : ∀ i ∈ items, Bus.checkAlign i.addr i.size = true) :
      items.foldl (StoreBuffer.overlay addr (Issue.lsuSize lsuOp)) v =
        (items.filter (Mapped ·.addr)).foldl (StoreBuffer.overlay addr (Issue.lsuSize lsuOp)) v := by
    induction items generalizing v with
    | nil => rfl
    | cons i items ih =>
      have hrest := fun v => ih v fun x hx => hitems x (List.mem_cons_of_mem _ hx)
      by_cases hi : Mapped i.addr
      · rw [List.filter_cons_of_pos (by simpa using hi), List.foldl_cons, List.foldl_cons, hrest]
      · rw [List.filter_cons_of_neg (by simpa using hi), List.foldl_cons, hrest,
          overlay_unmapped hmap ha (hitems i List.mem_cons_self) hi]
  simp only [Execute.loadValue, StoreBuffer.getFeedbackValue_eq hsb, StoreBuffer.getFeedbackValue_eq hsb',
    hfold _ _ hal, hfold _ _ hal', hsame]

/-- The access fault that the architecture asks for: a trap, and no trace of the access in the store buffer. -/
def AccessFaults (m m₁ : Machine) (op : RenameReadregOp) (addr : Word) (evs : List Event) : Prop :=
  TrapsWith m m₁ op (accessFaultCause op.op) addr evs ∧
    ∀ i ∈ m₁.storeBuffer.toList, i.robId = op.robId → i.committed = true

/-- No access fault is ever raised: an aligned load or store that is the oldest instruction retires, also if its
address is unmapped. A load from a mapped address is not disturbed by buffered stores to unmapped ones. -/
theorem unmapped_access (h : run env n = .ok (m, logs)) :
    (∀ e rest k m' logs', (Window.after env logs).flight = e :: rest → e.op.valid = true →
      e.op.op.isAccess = true → robSize + 9 ≤ k → run env (n + k) = .ok (m', logs') →
      ∀ addr, addr = dataAddr (lastWritten (Window.after env logs).events) e.op →
      addr.toNat % e.op.op.accessSize.bytes = 0 → ¬ Mapped addr →
      ∃ j ≤ k, ∃ m₁ logs₁ evs, run env (n + j) = .ok (m₁, logs₁) ∧
        (Window.after env logs₁).events = (Window.after env logs).events ++ evs ∧
        (Preempted evs ∨ (Retires e.op evs ∧ ¬ AccessFaults m m₁ e.op addr evs))) ∧
    ∀ p ∈ lsuPacks m, p.valid = true → p.op.isLoad = true → Mapped (p.src1Value + p.imm) →
      (p.src1Value + p.imm).toNat % p.op.accessSize.bytes = 0 →
      ∀ (bus : Bus) (sb : StoreBuffer), sb.WF → (∀ i ∈ sb.toList, i.addr.toNat % i.size.bytes = 0) →
        sb.toList.filter (Mapped ·.addr) = m.storeBuffer.toList.filter (Mapped ·.addr) →
        Execute.lsu bus sb p = Execute.lsu bus m.storeBuffer p := by
  refine ⟨fun e rest k m' logs' hf hv hacc hk h' addr haddr halign hun => ?_,
    fun p hp hv hload hmap halign bus sb hsb hal hsame => ?_⟩
  · obtain ⟨j, hj, m₁, logs₁, evs, h₁, hevents, hend⟩ := oldest_access h hf hv hacc hk h'
    refine ⟨j, hj, m₁, logs₁, evs, h₁, hevents, hend.imp_right fun hend => ?_⟩
    rw [← haddr, if_pos (checkAlign_iff.mpr halign)] at hend
    exact ⟨hend, fun hfault => hend.not_traps _ _ hfault.1⟩
  · have hwf := (run_refines h).storeBuffer_wf
    have hali := (run_refines h).aligned
    obtain ⟨e, v1, v2, hpack, rfl⟩ := (run_refines h).lsu_pack hp
    rw [packOf_info] at hv hload
    rw [packOf_src1, packOf_info] at hmap halign
    obtain ⟨-, -, hstore, hsize, haddr, -⟩ := hpack.access_pack v1 v2 hv
      (by rw [Op.isAccess, hload]; rfl)
    have hnot : e.op.op.isStore = false := by
      cases hop : e.op.op <;> rw [hop] at hload <;> first | rfl | cases hload
    have hsub : (packOf e.op v1 v2).subOp = e.op.subOp := congrArg DecodeInfo.subOp (packOf_info e.op v1 v2)
    -- stores to unmapped addresses do not reach a mapped load
    have hvalue := loadValue_mapped bus (Issue.lsuOpOf e.op.subOp) hwf hsb hali
      (fun i hi => checkAlign_iff.mpr (hal i hi)) hsame hmap (by rw [hsize]; exact checkAlign_iff.mpr halign)
    unfold Execute.lsu
    simp only [hsub, hstore, hnot, haddr, hvalue, Bool.false_eq_true, if_false]

/-- A store to address 0, where nothing is mapped, and a load from it. -/
def unmappedStore : List Word := [0x00500093, 0x00102023, 0x00002103, 0x0000100f]

/-- The store retires. -/
theorem unmapped_access_store : ∃ m logs e rest m' logs',
    run (Env.ofProgram unmappedStore) 11 = .ok (m, logs) ∧
    (Window.after (Env.ofProgram unmappedStore) logs).flight = e :: rest ∧ e.op.op = .sw ∧
    dataAddr (lastWritten (Window.after (Env.ofProgram unmappedStore) logs).events) e.op = 0 ∧
    run (Env.ofProgram unmappedStore) (11 + 73) = .ok (m', logs') ∧
    ∃ j ≤ 73, ∃ m₁ logs₁ evs, run (Env.ofProgram unmappedStore) (11 + j) = .ok (m₁, logs₁) ∧
      (Window.after (Env.ofProgram unmappedStore) logs₁).events =
        (Window.after (Env.ofProgram unmappedStore) logs).events ++ evs ∧
      (Preempted evs ∨ (Retires e.op evs ∧ ¬ AccessFaults m m₁ e.op 0 evs)) := by
  obtain ⟨m', logs', h', -⟩ := exists_run_of
    (show endsWith (fun _ _ => true) (run (Env.ofProgram unmappedStore) (11 + 73)) = true by decide +kernel)
  obtain ⟨m, logs, h, hP⟩ := exists_run_of (show endsWith (fun _ logs =>
    (Window.after (Env.ofProgram unmappedStore) logs).flight.head?.any fun e => e.op.op == .sw && e.op.valid &&
      dataAddr (lastWritten (Window.after (Env.ofProgram unmappedStore) logs).events) e.op == 0)
    (run (Env.ofProgram unmappedStore) 11) = true by decide +kernel)
  obtain ⟨e, he, hP⟩ := (Option.any_eq_true _ _).mp hP
  obtain ⟨rest, hf⟩ := List.head?_eq_some_iff.mp he
  simp only [Bool.and_eq_true, beq_iff_eq] at hP
  obtain ⟨⟨hop, hv⟩, haddr⟩ := hP
  exact ⟨m, logs, e, rest, m', logs', h, hf, hop, haddr, h', (unmapped_access h).1 e rest 73 m' logs' hf hv
    (by rw [hop]; rfl) (by decide) h' 0 haddr.symm (by simp) (by decide)⟩

/-- The load retires with the value of the store, which is still buffered; the bus would have answered 0. -/
theorem unmapped_access_retires : ∃ m logs pre b mepc e post, run (Env.ofProgram unmappedStore) 13 = .ok (m, logs) ∧
    (Window.after (Env.ofProgram unmappedStore) logs).events = pre ++ .retire b mepc e :: post ∧
    e.op.valid = true ∧ e.op.op = .lw ∧ dataAddr (lastWritten pre) e.op = 0 ∧ ¬ Mapped 0 ∧ e.value? = some 5 ∧
    m.bus.read 0 .word = .ok 0 := by
  obtain ⟨m, logs, pre, ev, post, h, hevents, hP⟩ := exists_event (show eventAt (fun pre ev =>
    match ev with
    | .retire _ _ e => e.op.valid && e.op.op == .lw && dataAddr (lastWritten pre) e.op == 0 && e.value? == some 5
    | _ => false) (Env.ofProgram unmappedStore) 2 (run (Env.ofProgram unmappedStore) 13) = true by decide +kernel)
  cases ev with
  | retire b mepc e =>
    simp only [Bool.and_eq_true, beq_iff_eq] at hP
    exact ⟨m, logs, pre, b, mepc, e, post, h, hevents, hP.1.1.1, hP.1.1.2, hP.1.2, by decide, hP.2, rfl⟩
  | exception b e handler writes => cases hP
  | interrupt b handler writes => cases hP

end Access

end MyRiscvCore
