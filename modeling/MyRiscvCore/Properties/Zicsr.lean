import MyRiscvCore.Properties.Faults

/-!
# MyRiscvCore — CSR instructions

What a CSR instruction should do is a function of the registers and of the CSR file that its unit reads
(`zicsrEffect`): the old value goes to `rd`, the write depends on the operation and on its source field, and an
unmapped CSR or a write to a read-only one is illegal.

The CSR unit infers whether a write is due from `arg1_src` and `rs1_need_map`. It takes `x0` as the source of
`csrrw` for no write, and the immediate 0 of `csrrsi` and `csrrci` for a write. `zicsr_semantics` says that these
are the only instructions that do something else.
-/

namespace MyRiscvCore

/-- The CSR instructions. -/
def Op.isCsr (op : Op) : Bool := op ∈ [Op.csrrw, .csrrs, .csrrc, .csrrwi, .csrrsi, .csrrci]

/-- The value that a CSR instruction writes over `old`, if it writes. -/
def zicsrWrite (regs : Nat → Word) (d : DecodeInfo) (old : Word) : Option Word :=
  match d.op with
  | .csrrw => some (sourceReg regs d.rs1)
  | .csrrs => if d.rs1 = 0 then none else some (old ||| sourceReg regs d.rs1)
  | .csrrc => if d.rs1 = 0 then none else some (old &&& ~~~sourceReg regs d.rs1)
  | .csrrwi => some d.imm
  | .csrrsi => if d.imm = 0 then none else some (old ||| d.imm)
  | .csrrci => if d.imm = 0 then none else some (old &&& ~~~d.imm)
  | _ => none

/-- The effect of a CSR instruction that retires: the value for `rd`, and the value written. -/
structure CsrEffect where
  old : Word
  new : Option Word

/-- The effect of a CSR instruction that reads `old` and writes what `write` says; `none` if it is illegal. -/
def csrEffect (old : Option Word) (writable : Bool) (write : Word → Option Word) : Option CsrEffect :=
  match old with
  | none => none
  | some old =>
    match write old with
    | none => some ⟨old, none⟩
    | some new => if writable then some ⟨old, some new⟩ else none

/-- The effect a CSR instruction should have. -/
def zicsrEffect (regs : Nat → Word) (file : Csrfile) (d : DecodeInfo) : Option CsrEffect :=
  csrEffect (file.read d.csr) (Csrfile.writeCheck d.csr) (zicsrWrite regs d)

/-- The source fields that the CSR unit takes for the opposite of what they are. -/
def MisjudgedSource (d : DecodeInfo) : Prop :=
  d.op = .csrrw ∧ d.rs1 = 0 ∨ (d.op = .csrrsi ∨ d.op = .csrrci) ∧ d.imm = 0

instance (d : DecodeInfo) : Decidable (MisjudgedSource d) := inferInstanceAs (Decidable (_ ∨ _))

/-- The instructions that the CSR unit gets wrong. -/
def Misjudged (d : DecodeInfo) : Prop := (csrMapTable d.csr).isSome = true ∧ MisjudgedSource d

instance (d : DecodeInfo) : Decidable (Misjudged d) := inferInstanceAs (Decidable (_ ∧ _))

/-! ## What the CSR unit computes

It decides from `arg1_src` and `rs1_need_map` whether to write. -/

/-- The effect of a result of the CSR unit. -/
def ExecuteWbPack.effect (r : ExecuteWbPack) : Option CsrEffect :=
  if r.hasException then none else some ⟨r.rdValue, if r.csrNewvalueValid then some r.csrNewvalue else none⟩

/-- The value that the CSR unit writes for a pack. -/
def unitWrite (p : IssueExecutePack) (old : Word) : Option Word :=
  if p.arg1Src == .reg && !p.rs1NeedMap then none
  else some (Execute.csrNew (Execute.csrOpOf p.subOp) old p.src1Value)

section Unit

variable {op : RenameReadregOp} {regs : Nat → Word} {p : IssueExecutePack}

theorem Execute.csr_effect (file : Csrfile) (hen : p.enable = true) (hv : p.valid = true) (hexc : p.hasException = false) :
    (Execute.csr file p).effect = csrEffect (file.read p.csr) (Csrfile.writeCheck p.csr) (unitWrite p) ∧
      ((Execute.csr file p).hasException = true → (Execute.csr file p).exceptionId = .illegalInstruction) ∧
      ∀ old, file.read p.csr = some old → (Execute.csr file p).rdValue = old := by
  rw [Execute.csr, hen, hv]
  simp only [Bool.not_true, Bool.false_eq_true, if_false, if_true]
  cases file.read p.csr with
  | none => exact ⟨rfl, fun _ => rfl, fun _ h => by cases h⟩
  | some old =>
    have hbase : (Execute.base p).hasException = false := hexc
    simp only [csrEffect, unitWrite]
    split_ifs with hsrc hwrite hwrite
    all_goals simp_all [ExecuteWbPack.effect, Execute.base]

theorem Op.csr_shape {o : Op} (h : o.isCsr = true) : ∃ csrOp arg1,
    Decode.shapeOf o = ⟨.csr, .csr csrOp, arg1, .disable⟩ ∧ Decode.hasDest o = true := by
  cases o <;> cases h <;> exact ⟨_, _, rfl, rfl⟩

/-- A CSR instruction was decoded, and goes to the CSR unit. -/
theorem PackOk.csr_valid (h : PackOk op.toDecodeRenamePack) (hop : op.op.isCsr = true) :
    op.valid = true ∧ op.hasException = false ∧ op.opUnit = .csr := by
  have hv : op.valid = true := by
    by_contra hv
    rw [Bool.not_eq_true] at hv
    cases hexc : op.hasException with
    | false =>
      rw [(h.rejected hv hexc).1] at hop
      cases hop
    | true =>
      obtain ⟨p, hf, hp⟩ := h
      have hex : op.hasException = p.hasException := congrArg (·.hasException) hp
      have hinfo : op.op = (Decode.decodeWord p.pc p.value p.hasException).op := congrArg (·.op) hp
      rw [hf.exception (hex.symm.trans hexc)] at hinfo
      rw [hinfo] at hop
      cases hop
  obtain ⟨csrOp, arg1, hshape, -⟩ := Op.csr_shape hop
  exact ⟨hv, h.noException hv, (congrArg Decode.Shape.opUnit (hshape.symm.trans (h.shape hv))).symm⟩

/-- The operand of an immediate form. -/
theorem PackOk.src1Value_imm (h : PackOk op.toDecodeRenamePack) (hv : op.valid = true)
    (hsrc : op.arg1Src = .imm) : (archPack regs op).src1Value = op.imm := by
  have hneed : op.rs1NeedMap = false := by rw [h.needMap.1, hsrc]; rfl
  rw [archPack, packOf_src1, operand1, sourceValue, hv, hneed, hsrc]
  rfl

/-- The unit's write is the right one, or there is one where none is due, or none where one is. -/
theorem PackOk.unitWrite_eq (h : PackOk op.toDecodeRenamePack) (hop : op.op.isCsr = true) (regs : Nat → Word)
    (old : Word) :
    if MisjudgedSource op.toDecodeInfo then
      (unitWrite (archPack regs op) old).isSome ≠ (zicsrWrite regs op.toDecodeInfo old).isSome
    else unitWrite (archPack regs op) old = zicsrWrite regs op.toDecodeInfo old := by
  have hv := (h.csr_valid hop).1
  have hshape := h.shape hv
  have hinfo : (archPack regs op).toDecodeInfo = op.toDecodeInfo := by rw [archPack, packOf_info]
  have hreg (harg : op.arg1Src = .reg) : (archPack regs op).src1Value = sourceReg regs op.rs1 ∧
      op.rs1NeedMap = decide (0 < op.rs1) := by
    refine ⟨h.src1Value hv harg, ?_⟩
    rw [h.needMap.1, harg]
    rfl
  have himm (harg : op.arg1Src = .imm) : (archPack regs op).src1Value = op.imm := h.src1Value_imm hv harg
  rw [unitWrite, hinfo]
  cases hopc : op.op <;> rw [hopc] at hop hshape <;> cases hop <;>
    obtain ⟨-, hsub, harg, -⟩ := (Decode.Shape.mk.injEq ..).mp hshape <;>
    simp only [MisjudgedSource, zicsrWrite, hopc, ← hsub, ← harg]
  -- a register is not mapped if it is `x0`
  case csrrw | csrrs | csrrc =>
    obtain ⟨hsrc, hneed⟩ := hreg harg.symm
    by_cases h0 : op.rs1 = 0 <;>
      simp [hsrc, hneed, h0, Nat.pos_iff_ne_zero, Execute.csrNew, Execute.csrOpOf]
  -- an immediate is always written
  case csrrwi | csrrsi | csrrci =>
    by_cases h0 : op.imm = 0 <;> simp [himm harg.symm, h0, Execute.csrNew, Execute.csrOpOf]

/-- Two effects on the same file differ if one writes and the other does not. -/
theorem csrEffect_ne {old : Word} {writable : Bool} {write write' : Word → Option Word}
    (h : (write old).isSome ≠ (write' old).isSome) :
    csrEffect (some old) writable write ≠ csrEffect (some old) writable write' := by
  unfold csrEffect
  cases hw : write old <;> cases hw' : write' old <;> simp [hw, hw'] at h ⊢

/-- The unit on a CSR instruction whose operands come from `regs`. -/
theorem PackOk.csr_result (h : PackOk op.toDecodeRenamePack) (hop : op.op.isCsr = true) (regs : Nat → Word)
    (file : Csrfile) :
    (Execute.csr file (archPack regs op)).effect =
      csrEffect (file.read op.csr) (Csrfile.writeCheck op.csr) (unitWrite (archPack regs op)) ∧
    ((Execute.csr file (archPack regs op)).hasException = true →
      (Execute.csr file (archPack regs op)).exceptionId = .illegalInstruction) ∧
    ∀ old, file.read op.csr = some old → (Execute.csr file (archPack regs op)).rdValue = old := by
  obtain ⟨hv, hexc, hunit⟩ := h.csr_valid hop
  have hinfo : (archPack regs op).toDecodeInfo = op.toDecodeInfo := by rw [archPack, packOf_info]
  have hex : (archPack regs op).hasException = false := by
    rw [archPack, packOf_exception (by rw [hunit, hv]; rfl), hexc]
  have hres := Execute.csr_effect file (by rw [hinfo]; exact h.enable) (by rw [hinfo]; exact hv) hex
  rwa [show (archPack regs op).csr = op.csr from congrArg DecodeInfo.csr hinfo] at hres

/-- The unit has the right effect exactly on the instructions it does not misjudge. -/
theorem PackOk.csr_effect (h : PackOk op.toDecodeRenamePack) (hop : op.op.isCsr = true) (file : Csrfile) :
    (Execute.csr file (archPack regs op)).effect = zicsrEffect regs file op.toDecodeInfo ↔
      ¬ Misjudged op.toDecodeInfo := by
  rw [(h.csr_result hop regs file).1, zicsrEffect, Misjudged]
  have hread : (file.read op.csr).isSome = (csrMapTable op.csr).isSome := Option.isSome_map
  cases hold : file.read op.csr with
  | none =>
    rw [hold] at hread
    exact iff_of_true rfl fun hmis => absurd (hread.trans hmis.1) Bool.false_ne_true
  | some old =>
    rw [hold] at hread
    have hw := h.unitWrite_eq hop regs old
    split_ifs at hw with hmis
    · exact iff_of_false (csrEffect_ne hw) (not_not_intro ⟨hread.symm, hmis⟩)
    · refine iff_of_true ?_ fun h => hmis h.2
      simp only [csrEffect, hw]

end Unit

/-- The result of a CSR instruction was put out in one of these cycles, and computed from the CSR file of that
cycle. -/
def ReadsCsrFile (logs : List CycleLog) (e : Entry) : Prop :=
  e.op.opUnit = .csr → ∀ r, e.result = some r →
    ∃ log ∈ logs, r ∈ log.results ∧ r = Execute.csr log.csrFile (packOf e.op r.src1Value r.src2Value)

section Reads

variable {env : Env} {n : Nat} {m : Machine} {w : Window} {logs : List CycleLog} {s : Stages} {u : Updates}
  {e : Entry}

theorem ReadsCsrFile.snoc (h : ReadsCsrFile logs e) (log : CycleLog) : ReadsCsrFile (logs ++ [log]) e := by
  intro hunit r hr
  obtain ⟨x, hx, hrest⟩ := h hunit r hr
  exact ⟨x, List.mem_append_left _ hx, hrest⟩

theorem FlowStages.readsCsrFile (f : FlowStages env n m w s) (h : Normal m w) (he : e ∈ w.flight)
    (hold : ReadsCsrFile logs e) : ReadsCsrFile (logs ++ [s.log env n m u]) (e.advance s.ex.ports) := by
  intro hunit r hr
  obtain hr | ⟨y, hy, rfl, v1, v2, hpk⟩ := (f.executedOk h).result_cases he hr
  · exact hold.snoc _ hunit r hr
  · have hd := f.execute.result y hy
    have hsame := hd.unitResult.sameOp
    rw [DoneOk, show y.1.opUnit = .csr by rw [hpk, packOf_info]; exact hunit] at hd
    refine ⟨s.log env n m u, by simp, ((f.execute.ports y.2).mpr ⟨y.1, hy⟩).1, ?_⟩
    rw [Entry.op_advance, hsame.src1, hsame.src2, hpk, packOf_src1, packOf_src2, ← hpk]
    exact hd

/-- An event of a cycle ends an instruction that was in flight. -/
theorem CycleCase.event_entry (h : CycleCase env n m w s) (hu : s.Synced env n m u) {ev : Event}
    (hev : ev ∈ (w.step (s.log env n m u)).events) (he : ev.entry? = some e) : ev ∈ w.events ∨ e ∈ w.flight := by
  -- a new event is of an entry that was in flight
  have hretire {mepc : Word} {es : List Entry} (hsub : ∀ x ∈ es, x ∈ w.flight)
      (hmem : ev ∈ w.events ++ retireEvents mepc w.arch es) : ev ∈ w.events ∨ e ∈ w.flight := by
    refine (List.mem_append.mp hmem).imp_right fun hmem => ?_
    obtain ⟨b', x, rfl, hx⟩ := exists_of_mem_retireEvents hmem
    cases he
    exact hsub e hx
  cases h with
  | flow h f => exact hretire (fun x hx => by rw [f.flight]; exact List.mem_append_left _ hx) (f.step_events h u ▸ hev)
  | flush h g =>
    exact hretire (fun x hx => by rw [g.flight]; exact List.mem_append_left _ hx) (g.step_events h hu ▸ hev)
  | walk v h =>
    by_cases hpre : v.pre = []
    · rw [v.step_last h (v.updated h hu) hpre] at hev
      refine (List.mem_append.mp hev).imp_right fun hmem => ?_
      rw [List.mem_singleton.mp hmem] at he
      unfold Window.trapEvent at he
      split at he
      case h_1 hflight =>
        cases he
        rw [hflight]
        exact List.mem_cons_self
      case h_2 => cases he
    · rw [v.step_eq h (v.updated h hu) hpre] at hev
      exact .inl hev

theorem run_readsCsrFile (h : run env n = .ok (m, logs)) :
    (∀ e ∈ (Window.after env logs).flight, ReadsCsrFile logs e) ∧
      ∀ ev ∈ (Window.after env logs).events, ∀ e, ev.entry? = some e → ReadsCsrFile logs e := by
  refine (run_induction (P := fun _ _ logs => (∀ e ∈ (Window.after env logs).flight, ReadsCsrFile logs e) ∧
    ∀ ev ∈ (Window.after env logs).events, ∀ e, ev.entry? = some e → ReadsCsrFile logs e)
    (fun _ _ _ => ⟨fun e he => absurd he List.not_mem_nil, fun ev hev => absurd hev List.not_mem_nil⟩)
    (fun n m logs s u _ hP hcase hu => ⟨?_, fun ev hev e he => ?_⟩) h).2
  · rw [Window.after_snoc]
    cases hcase with
    -- a result that arrives was computed in this cycle, from the CSR file in its log
    | flow h f =>
      rw [f.step_eq h u]
      intro e he
      obtain he | he := List.mem_append.mp he
      · obtain ⟨x, hx, rfl⟩ := List.mem_map.mp he
        exact f.readsCsrFile h (f.mem_rest hx) (hP.1 x (f.mem_rest hx))
      · intro _ r hr
        rw [Entry.result, f.waiting e he] at hr
        cases hr
    | flush h g =>
      rw [g.step_eq h (g.updated h hu)]
      exact fun e he => (hP.1 e (g.mem_kept he)).snoc _
    | walk v h =>
      by_cases hpre : v.pre = []
      · rw [v.step_last h (v.updated h hu) hpre]
        exact fun e he => absurd he List.not_mem_nil
      · rw [v.step_eq h (v.updated h hu) hpre]
        exact fun e he => (hP.1 e he).snoc _
  · rw [Window.after_snoc] at hev
    obtain hold | hflight := hcase.event_entry hu hev he
    · exact (hP.2 ev hold e he).snoc _
    · exact (hP.1 e hflight).snoc _

end Reads

/-- The events `evs`, which follow `events` and leave `m₁`, begin with the operation `op`, which has this effect:
without one it is illegal and changes nothing but the trap CSRs; else `rd` receives the old value, and the
new value is the only CSR write, which the CSR file of `m₁` has taken. -/
def HasEffect (env : Env) (events : List Event) (op : RenameReadregOp) (m m₁ : Machine) (evs : List Event) :
    Option CsrEffect → Prop
  | none => ∃ value, TrapsWith m m₁ op .illegalInstruction value evs
  | some x => ∃ b mepc r rest, evs = .retire b mepc ⟨op, .finished r⟩ :: rest ∧ r.rdValue = x.old ∧
      (∀ a, lastWritten (events ++ [.retire b mepc ⟨op, .finished r⟩]) a =
        if op.rd ≠ 0 ∧ a = op.rd then x.old else lastWritten events a) ∧
      Event.csrWrites (InOrder.after env events).csr (.retire b mepc ⟨op, .finished r⟩) =
        (x.new.map (.write op.csr)).toList ∧
      ∀ a, StableCsr a → m₁.csrFile.value a = csrAfter m.csrFile.value (x.new.map (.write op.csr)).toList a

section Zicsr

variable {env : Env} {n : Nat} {m m' m₁ : Machine} {logs logs' : List CycleLog} {e : Entry} {rest : List Entry}
  {events evs : List Event} {op : RenameReadregOp} {r : ExecuteWbPack}

/-- A CSR instruction writes its result to `rd`. -/
theorem PackOk.csr_lastWritten (h : PackOk op.toDecodeRenamePack) (hop : op.op.isCsr = true)
    (hx : r.hasException = false) (events : List Event) (b : Arch) (mepc : Word) (a : Nat) :
    lastWritten (events ++ [.retire b mepc ⟨op, .finished r⟩]) a =
      if op.rd ≠ 0 ∧ a = op.rd then r.rdValue else lastWritten events a := by
  have hvalue : (⟨op, .finished r⟩ : Entry).value? = some r.rdValue := by simp [Entry.value?, Entry.result, hx]
  obtain ⟨-, -, -, hdest⟩ := Op.csr_shape hop
  rw [lastWritten_snoc, Event.written?, hvalue]
  by_cases hrd : op.rd = 0
  · have hwrites : (⟨op, .finished r⟩ : Entry).writes = false := by simp [Entry.writes, h.needRename_eq, hrd]
    simp [hwrites, hrd]
  · have hwrites : (⟨op, .finished r⟩ : Entry).writes = true := h.writes (h.csr_valid hop).1 hdest hrd
    by_cases ha : a = op.rd
    · simp [hwrites, hrd, ha]
    · simp [hwrites, ha, Ne.symm ha]

/-- What happens to a CSR instruction is decided by the effect of its result. -/
theorem Fate.hasEffect_iff (h : Fate env events op m m₁ evs) (hop : op.op.isCsr = true)
    (hin : ∀ a, StableCsr a → m.csrFile.value a = (InOrder.after env events).csr a) :
    Preempted evs ∨ ∃ ev rest r, evs = ev :: rest ∧ ev.entry? = some ⟨op, .finished r⟩ ∧
      Computes (InOrder.after env events).arch (InOrder.after env events).csr ⟨op, .finished r⟩ r ∧
      ∀ x, HasEffect env events op m m₁ evs x ↔ r.effect = x := by
  cases h with
  | interrupt b handler writes => exact .inl ⟨b, handler, writes, rfl⟩
  | @trap r b handler writes hx hr ht =>
    obtain ⟨hv, hexc, hunit⟩ := hr.pack.csr_valid hop
    rw [hr.pack.pc_aligned hexc] at ht
    refine .inr ⟨_, [], r, rfl, rfl, hr, fun x => ?_⟩
    rw [ExecuteWbPack.effect, hx]
    cases x with
    | none =>
      obtain ⟨file, -, hfile⟩ := hr.csr hunit
      have hid : r.exceptionId = .illegalInstruction := by
        rw [hfile] at hx ⊢
        exact (hr.pack.csr_result hop _ file).2.1 hx
      exact iff_of_true ⟨r.exceptionValue, ⟨b, _, handler, writes, rfl, rfl⟩, hid ▸ ht⟩ rfl
    | some x =>
      refine iff_of_false (fun ⟨b', mepc, r', rest, hevs, _⟩ => ?_) (by simp)
      cases (List.cons.inj hevs).1
  | @retire r b mepc rest hx hr hcsr =>
    refine .inr ⟨_, rest, r, rfl, rfl, hr, fun x => ?_⟩
    rw [ExecuteWbPack.effect, hx]
    cases x with
    | none =>
      refine iff_of_false (fun ⟨value, ht⟩ => ?_) (by simp)
      obtain ⟨b', e', handler, writes, hevs, -⟩ := ht.event
      cases (List.cons.inj hevs).1
    | some x =>
      have hregs := hr.pack.csr_lastWritten hop hx events b mepc
      have hwrites : Event.csrWrites (InOrder.after env events).csr (.retire b mepc ⟨op, .finished r⟩) =
          ((if r.csrNewvalueValid then some r.csrNewvalue else none).map (.write op.csr)).toList := by
        have hmret : op.op ≠ .mret := fun h => by rw [h] at hop; cases hop
        rw [Event.csrWrites, retireCsrRequests]
        cases hvalid : r.csrNewvalueValid <;> simp [hmret, hvalid]
      constructor
      · rintro ⟨b', mepc', r', rest', hevs, hold, -, hnew, -⟩
        cases (List.cons.inj hevs).1
        -- the effect is determined by the event
        have hinj : Function.Injective fun y : Option Word => (y.map (Csrfile.Request.write op.csr)).toList := by
          intro y z
          cases y <;> cases z <;> simp
        rw [hold, hinj (hwrites.symm.trans hnew)]
        rfl
      · intro hx'
        cases Option.some.inj hx'
        refine ⟨b, mepc, r, rest, rfl, rfl, hregs, hwrites, fun a ha => ?_⟩
        rw [hcsr a ha, InOrder.after_snoc, ← hwrites]
        exact (csrAfter_congr (hin a ha) _).symm

/-- An instruction sees the CSR file of the cycle that executes it. That of a CSR that does not change by itself is
the value of the boundary at which the instruction is the oldest. -/
theorem PackOk.read_eq {file file' : Csrfile} {regs : Nat → Word} (hpack : PackOk op.toDecodeRenamePack)
    (hop : op.op.isCsr = true) (h : Execute.csr file (archPack regs op) = Execute.csr file' (archPack regs op)) :
    file.read op.csr = file'.read op.csr := by
  have hsome : (file.read op.csr).isSome = (file'.read op.csr).isSome :=
    Option.isSome_map.trans Option.isSome_map.symm
  cases hold : file.read op.csr with
  | none =>
    rw [hold] at hsome
    exact (Option.isNone_iff_eq_none.mp (Option.isSome_eq_false_iff.mp hsome.symm)).symm
  | some old =>
    rw [hold] at hsome
    obtain ⟨old', hold'⟩ := Option.isSome_iff_exists.mp hsome.symm
    rw [hold', ← (hpack.csr_result hop regs file).2.2 old hold, h, (hpack.csr_result hop regs file').2.2 old' hold']

/-- A CSR instruction that is the oldest ends within a bounded number of cycles, unless an interrupt is taken in
its place. The effect is the right one for the CSR file its unit has read in a cycle `log`, exactly if the
instruction is not one of the misjudged ones. -/
theorem zicsr_semantics {k : Nat} (h : run env n = .ok (m, logs))
    (hf : (Window.after env logs).flight = e :: rest) (hop : e.op.op.isCsr = true)
    (hk : robSize + 9 ≤ k) (h' : run env (n + k) = .ok (m', logs')) :
    ∃ j ≤ k, ∃ m₁ logs₁ evs, run env (n + j) = .ok (m₁, logs₁) ∧
      (Window.after env logs₁).events = (Window.after env logs).events ++ evs ∧
      (Preempted evs ∨ ∃ ev evs' r, evs = ev :: evs' ∧ ev.entry? = some ⟨e.op, .finished r⟩ ∧
        ∃ log ∈ logs₁, r ∈ log.results ∧
          (StableCsr e.op.csr → log.csrFile.read e.op.csr = m.csrFile.read e.op.csr) ∧
          (HasEffect env (Window.after env logs).events e.op m m₁ evs
            (zicsrEffect (lastWritten (Window.after env logs).events) log.csrFile e.op.toDecodeInfo) ↔
              ¬ Misjudged e.op.toDecodeInfo)) := by
  obtain ⟨j, hj, m₁, logs₁, evs, h₁, hevents, hfate⟩ := oldest_fate h hf
    (by intro hfence; rw [hfence] at hop; cases hop) hk h'
  refine ⟨j, hj, m₁, logs₁, evs, h₁, hevents, ?_⟩
  obtain hpre | ⟨ev, evs', r, rfl, hentry, hr, heffect⟩ := hfate.hasEffect_iff hop (run_inOrder h).csr
  · exact .inl hpre
  refine .inr ⟨ev, evs', r, rfl, hentry, ?_⟩
  have hunit := (hr.pack.csr_valid hop).2.2
  -- the cycle it was executed in, and the CSR file of that cycle
  obtain ⟨log, hlog, hmem, hread⟩ := (run_readsCsrFile h₁).2 ev (by rw [hevents]; simp) _ hentry hunit r rfl
  obtain ⟨file, hstable, hfile⟩ := hr.csr hunit
  have hsame := hr.result.sameOp
  have hpk : packOf e.op r.src1Value r.src2Value = archPack (InOrder.after env (Window.after env logs).events).arch.regs
      e.op := by
    rw [hsame.src1, hsame.src2, archPack, packOf_src1, packOf_src2]
  rw [hpk] at hread
  refine ⟨log, hlog, hmem, fun ha => ?_, ?_⟩
  · rw [hr.pack.read_eq hop (hread.symm.trans hfile)]
    exact ha.read_eq ((hstable _ ha).trans ((run_inOrder h).csr _ ha).symm)
  · rw [heffect, ← hr.pack.csr_effect hop log.csrFile, hread,
      show lastWritten (Window.after env logs).events = _ from
        funext fun a => (InOrder.regs_after env (Window.after env logs).events a).symm]

/-- The CSR write of `faulty`. -/
theorem zicsr_semantics_faulty : ∃ m logs e rest m' logs',
    run (Env.ofProgram faulty) 4 = .ok (m, logs) ∧
    (Window.after (Env.ofProgram faulty) logs).flight = e :: rest ∧ e.op.op = .csrrwi ∧
    run (Env.ofProgram faulty) (4 + 73) = .ok (m', logs') ∧
    ∃ j ≤ 73, ∃ m₁ logs₁ evs, run (Env.ofProgram faulty) (4 + j) = .ok (m₁, logs₁) ∧
      (Window.after (Env.ofProgram faulty) logs₁).events = (Window.after (Env.ofProgram faulty) logs).events ++ evs ∧
      (Preempted evs ∨ ∃ ev evs' r, evs = ev :: evs' ∧ ev.entry? = some ⟨e.op, .finished r⟩ ∧
        ∃ log ∈ logs₁, r ∈ log.results ∧
          (StableCsr e.op.csr → log.csrFile.read e.op.csr = m.csrFile.read e.op.csr) ∧
          (HasEffect (Env.ofProgram faulty) (Window.after (Env.ofProgram faulty) logs).events e.op m m₁ evs
            (zicsrEffect (lastWritten (Window.after (Env.ofProgram faulty) logs).events) log.csrFile
              e.op.toDecodeInfo) ↔ ¬ Misjudged e.op.toDecodeInfo)) := by
  obtain ⟨m', logs', h'⟩ := run_faulty (show 4 + 73 ≤ 92 by decide)
  obtain ⟨m, logs, e, rest, h, hf, hP⟩ := exists_oldest (show oldestIs (Env.ofProgram faulty)
    (fun e => e.op.op == .csrrwi) (run (Env.ofProgram faulty) 4) = true by decide +kernel)
  have hop : e.op.op = .csrrwi := eq_of_beq hP
  exact ⟨m, logs, e, rest, m', logs', h, hf, hop, h', zicsr_semantics h hf (by rw [hop]; rfl) (by decide) h'⟩

/-- `mscratch` is set to 5 and then to `x0`. -/
def clearMscratch : List Word := [0x3402d073, 0x340010f3]

/-- The `csrrw` from `x0` retires and writes nothing. -/
theorem clearMscratch_keeps : ∃ m logs pre b mepc e post,
    run (Env.ofProgram clearMscratch) 15 = .ok (m, logs) ∧
    (Window.after (Env.ofProgram clearMscratch) logs).events = pre ++ .retire b mepc e :: post ∧
    e.op.op = .csrrw ∧ e.op.rs1 = 0 ∧ e.op.csr = csrMscratch ∧
    Event.csrWrites (InOrder.after (Env.ofProgram clearMscratch) pre).csr (.retire b mepc e) = [] ∧
    m.csrFile.value csrMscratch = 5 := by
  obtain ⟨m, logs, pre, ev, post, h, hevents, hP⟩ := exists_event (show eventAt (fun _ ev =>
    match ev with
    | .retire _ _ e => e.op.op == .csrrw && e.op.rs1 == 0 && e.op.csr == csrMscratch &&
        e.result.all fun r => !r.csrNewvalueValid
    | _ => false) (Env.ofProgram clearMscratch) 1 (run (Env.ofProgram clearMscratch) 15) = true by decide +kernel)
  obtain ⟨m₀, logs₀, h₀, hvalue⟩ := exists_run_of (show endsWith (fun m _ => m.csrFile.value csrMscratch == 5)
    (run (Env.ofProgram clearMscratch) 15) = true by decide +kernel)
  cases h.symm.trans h₀
  cases ev with
  | retire b mepc e =>
    simp only [Bool.and_eq_true, beq_iff_eq] at hP
    refine ⟨m, logs, pre, b, mepc, e, post, h, hevents, hP.1.1.1, hP.1.1.2, hP.1.2, ?_, eq_of_beq hvalue⟩
    obtain ⟨-, -, r, hs, -⟩ := (run_inOrder h).events pre _ post hevents
    have hno : r.csrNewvalueValid = false := by simpa [Entry.result, hs] using hP.2
    simp [Event.csrWrites, retireCsrRequests, hs, hno, hP.1.1.1]
  | exception b e handler writes => cases hP
  | interrupt b handler writes => cases hP

end Zicsr

end MyRiscvCore
