import MyRiscvCore.Pipeline.Decode
import MyRiscvCore.Pipeline.DecodeFields
import MyRiscvCore.Pipeline.Fetch
import MyRiscvCore.Pipeline.Execute
import MyRiscvCore.Spec.Encoding

/-!
# MyRiscvCore — facts about decoded operations

The `switch` of decode is gone through once: by `outcome_opcode` it either accepts a word as one of a row of the
table of encodings or rejects it. What the later stages rely on is read off the outcome:

* register numbers are in range, and `mret` is known by its operation as well as by its sub-operation
  (`sound_decodeWord`);
* an operation goes to the BRU exactly if fetch took its word for a jump (`opUnit_bru_iff`), and a word the
  predictor answers for decodes (`valid_of_predictable`);
* a valid operation has the unit, the arguments and the destination of its kind (`shaped_decodeWord`), and a
  rejected word goes to the unit that its opcode selects (`rejected_decodeWord`).
-/

namespace MyRiscvCore

variable {inst : Word} {e : Encoding} {d : DecodeInfo} {value : Word}

namespace Decode

/-! ## Outcomes -/

/-- The rows of the table, with `fence.i` in the form that the decoder accepts. -/
abbrev rows : List Encoding := fenceIZero :: baseEncodings

/-- The argument sources that the decoder sets for a row. -/
def sources (e : Encoding) : ArgSrc × ArgSrc :=
  match e.format with
  | .r | .s | .b => (.reg, .reg)
  | .i => (.reg, if e.opUnit = .alu then .imm else .disable)
  | .csr => (.reg, .disable)
  | .csrImm => (.imm, .disable)
  | .u | .j | .fence | .sys => (.disable, .disable)

/-- The unit that the opcode of a rejected word selects. -/
def rejectedUnit (inst : Word) : OpUnit :=
  if opcodeOf inst = 0x63 then .bru
  else if opcodeOf inst = 0x03 ∨ opcodeOf inst = 0x23 then .lsu
  else .alu

/-- The record that the `switch` begins with. -/
def start (pc : Word) (v : Bool) : DecodeInfo :=
  { (default : DecodeInfo) with enable := true, valid := v, pc := pc }

/-- A record on the way through the `switch`: no operation is chosen yet. -/
structure Base (pc : Word) (v : Bool) (d : DecodeInfo) : Prop where
  enable : d.enable = true
  pc_eq : d.pc = pc
  rd : d.rd < archRegNum
  rs1 : d.rs1 < archRegNum
  rs2 : d.rs2 < archRegNum
  op : d.op = .add
  subOp : d.subOp = .alu .add
  valid : d.valid = v

/-- The record holds the operands of the word, as the format places them. -/
structure Operands (pc : Word) (v : Bool) (f : Format) (src : ArgSrc × ArgSrc) (inst : Word) (d : DecodeInfo) : Prop
    extends Base pc v d where
  arg1Src : d.arg1Src = src.1
  arg2Src : d.arg2Src = src.2
  rdPlace : (if d.rdEnable then some d.rd else none) = f.rd inst
  rs1Place : (if d.arg1Src = .reg then some d.rs1 else none) = f.rs1 inst
  rs2Place : (if d.arg2Src = .reg then some d.rs2 else none) = f.rs2 inst
  csrPlace : ∀ a, f.csrAddr inst = some a → d.csr = a
  immPlace : ∀ x, f.imm inst = some x → d.imm = x

/-- What the `switch` makes of a word. -/
inductive Outcome (pc : Word) (v : Bool) (inst : Word) : DecodeInfo → Prop
  /-- The word is one of the row; of a `jalr` only the opcode is looked at. -/
  | accepted {d : DecodeInfo} (e : Encoding) (he : e ∈ rows)
    (hm : e.Matches inst ∨ e.op = .jalr ∧ (inst.extractLsb' 0 7).toNat = 0x67)
    (ho : Operands pc v e.format (sources e) inst d) : Outcome pc v inst (d.withOp e.op e.opUnit e.subOp)
  | rejected {d : DecodeInfo} (hb : Base pc v d) (hunit : d.opUnit = rejectedUnit inst) :
    Outcome pc v inst d.invalid

section Switch

variable {pc : Word} {v : Bool} {inst : Word}

/-- Five bits are a register number. -/
theorem toNat_and_lt (x : Word) : (x &&& 0x1f).toNat < archRegNum := by
  rw [BitVec.toNat_and]
  exact Nat.lt_of_le_of_lt Nat.and_le_right (by decide)

theorem base_start : Base pc v (start pc v) :=
  ⟨rfl, rfl, Nat.zero_lt_succ _, Nat.zero_lt_succ _, Nat.zero_lt_succ _, rfl, rfl, rfl⟩

/-- Both branches of a comparison, each with what it knows. -/
theorem Outcome.ite {c : Prop} [Decidable c] {x y : DecodeInfo} (hx : c → Outcome pc v inst x)
    (hy : ¬ c → Outcome pc v inst y) : Outcome pc v inst (if c then x else y) := by
  split_ifs with h
  · exact hx h
  · exact hy h

/-- A row that fixes the opcode and `funct3`. -/
theorem matches_two {o n : Nat} (he : e.fixed = [opc o, f3 n]) (hb : o < 2 ^ 32 ∧ n < 2 ^ 32)
    (ho : opcodeOf inst = BitVec.ofNat 32 o) (hf : funct3Of inst = BitVec.ofNat 32 n) : e.Matches inst := by
  rw [Encoding.Matches, he]
  exact List.forall_mem_cons.mpr
    ⟨(opcodeOf_iff hb.1).mp ho, List.forall_mem_singleton.mpr ((funct3Of_iff hb.2).mp hf)⟩

/-- A row that fixes `funct7` as well. -/
theorem matches_three {o n k : Nat} (he : e.fixed = [opc o, f3 n, f7 k])
    (hb : o < 2 ^ 32 ∧ n < 2 ^ 32 ∧ k < 2 ^ 32) (ho : opcodeOf inst = BitVec.ofNat 32 o)
    (hf : funct3Of inst = BitVec.ofNat 32 n) (h7 : funct7Of inst = BitVec.ofNat 32 k) : e.Matches inst := by
  rw [Encoding.Matches, he]
  exact List.forall_mem_cons.mpr ⟨(opcodeOf_iff hb.1).mp ho, List.forall_mem_cons.mpr
    ⟨(funct3Of_iff hb.2.1).mp hf, List.forall_mem_singleton.mpr ((funct7Of_iff hb.2.2).mp h7)⟩⟩

/-! ### The opcode groups

The operands are the same for all operations of a group, and its rows differ in the bits that are compared: a
`leaf` is a comparison that succeeds. -/

/-- Conditional branches. -/
theorem outcome_branch (ho : opcodeOf inst = 0x63) : Outcome pc v inst (branch (start pc v) inst) := by
  have hops : Operands pc v .b (.reg, .reg) inst { withRs2 (withRs1 (start pc v) inst) inst with
      opUnit := .bru, imm := signExtend (immBOf inst) 13 } :=
    ⟨⟨rfl, rfl, Nat.zero_lt_succ _, toNat_and_lt _, toNat_and_lt _, rfl, rfl, rfl⟩, rfl, rfl, rfl,
      congrArg some (rs1Of_toNat inst), congrArg some (rs2Of_toNat inst), by simp [Format.csrAddr],
      fun _ h => (signExtend_immB inst).trans (Option.some.inj h)⟩
  have leaf {op : Op} {bruOp : BruOp} {n : Nat} (hf : funct3Of inst = BitVec.ofNat 32 n)
      (he : branchRow op bruOp n ∈ rows) (hb : 0x63 < 2 ^ 32 ∧ n < 2 ^ 32) :=
    Outcome.accepted (branchRow op bruOp n) he (.inl (matches_two rfl hb ho hf)) hops
  refine .ite (leaf (n := 0) · ?_ ?_) fun _ => .ite (leaf (n := 1) · ?_ ?_) fun _ => .ite (leaf (n := 4) · ?_ ?_)
    fun _ => .ite (leaf (n := 5) · ?_ ?_) fun _ => .ite (leaf (n := 6) · ?_ ?_) fun _ =>
    .ite (leaf (n := 7) · ?_ ?_) fun _ => .rejected hops.toBase (by rw [rejectedUnit, ho]; rfl)
  all_goals decide

/-- Loads. -/
theorem outcome_load (ho : opcodeOf inst = 0x03) : Outcome pc v inst (load (start pc v) inst) := by
  have hops : Operands pc v .i (.reg, .disable) inst { withRd (withRs1 (start pc v) inst) inst with
      opUnit := .lsu, arg2Src := .disable, imm := signExtend (immIOf inst) 12 } :=
    ⟨⟨rfl, rfl, toNat_and_lt _, toNat_and_lt _, Nat.zero_lt_succ _, rfl, rfl, rfl⟩, rfl, rfl,
      congrArg some (rdOf_toNat inst), congrArg some (rs1Of_toNat inst), rfl, by simp [Format.csrAddr],
      fun _ h => (signExtend_immI inst).trans (Option.some.inj h)⟩
  have leaf {op : Op} {lsuOp : LsuOp} {n : Nat} (hf : funct3Of inst = BitVec.ofNat 32 n)
      (he : loadRow op lsuOp n ∈ rows) (hb : 0x03 < 2 ^ 32 ∧ n < 2 ^ 32) :=
    Outcome.accepted (loadRow op lsuOp n) he (.inl (matches_two rfl hb ho hf)) hops
  refine .ite (leaf (n := 0) · ?_ ?_) fun _ => .ite (leaf (n := 1) · ?_ ?_) fun _ => .ite (leaf (n := 2) · ?_ ?_)
    fun _ => .ite (leaf (n := 4) · ?_ ?_) fun _ => .ite (leaf (n := 5) · ?_ ?_) fun _ =>
    .rejected hops.toBase (by rw [rejectedUnit, ho]; rfl)
  all_goals decide

/-- Stores. -/
theorem outcome_store (ho : opcodeOf inst = 0x23) : Outcome pc v inst (store (start pc v) inst) := by
  have hops : Operands pc v .s (.reg, .reg) inst { withRs2 (withRs1 (start pc v) inst) inst with
      opUnit := .lsu, imm := signExtend (immSOf inst) 12 } :=
    ⟨⟨rfl, rfl, Nat.zero_lt_succ _, toNat_and_lt _, toNat_and_lt _, rfl, rfl, rfl⟩, rfl, rfl, rfl,
      congrArg some (rs1Of_toNat inst), congrArg some (rs2Of_toNat inst), by simp [Format.csrAddr],
      fun _ h => (signExtend_immS inst).trans (Option.some.inj h)⟩
  have leaf {op : Op} {lsuOp : LsuOp} {n : Nat} (hf : funct3Of inst = BitVec.ofNat 32 n)
      (he : storeRow op lsuOp n ∈ rows) (hb : 0x23 < 2 ^ 32 ∧ n < 2 ^ 32) :=
    Outcome.accepted (storeRow op lsuOp n) he (.inl (matches_two rfl hb ho hf)) hops
  refine .ite (leaf (n := 0) · ?_ ?_) fun _ => .ite (leaf (n := 1) · ?_ ?_) fun _ => .ite (leaf (n := 2) · ?_ ?_)
    fun _ => .rejected hops.toBase (by rw [rejectedUnit, ho]; rfl)
  all_goals decide

/-- Operations with an immediate. -/
theorem outcome_opImm (ho : opcodeOf inst = 0x13) : Outcome pc v inst (opImm (start pc v) inst) := by
  have hops : Operands pc v .i (.reg, .imm) inst { withRd (withRs1 (start pc v) inst) inst with
      opUnit := .alu, arg2Src := .imm, imm := signExtend (immIOf inst) 12 } :=
    ⟨⟨rfl, rfl, toNat_and_lt _, toNat_and_lt _, Nat.zero_lt_succ _, rfl, rfl, rfl⟩, rfl, rfl,
      congrArg some (rdOf_toNat inst), congrArg some (rs1Of_toNat inst), rfl, by simp [Format.csrAddr],
      fun _ h => (signExtend_immI inst).trans (Option.some.inj h)⟩
  have leaf {op : Op} {aluOp : AluOp} {n : Nat} (hf : funct3Of inst = BitVec.ofNat 32 n)
      (he : immRow op aluOp n ∈ rows) (hb : 0x13 < 2 ^ 32 ∧ n < 2 ^ 32) :=
    Outcome.accepted (immRow op aluOp n) he (.inl (matches_two rfl hb ho hf)) hops
  -- the shifts compare `funct7` as well
  have shift {op : Op} {aluOp : AluOp} {n k : Nat} (hf : funct3Of inst = BitVec.ofNat 32 n)
      (h7 : funct7Of inst = BitVec.ofNat 32 k) (he : shiftRow op aluOp n k ∈ rows)
      (hb : 0x13 < 2 ^ 32 ∧ n < 2 ^ 32 ∧ k < 2 ^ 32) :=
    Outcome.accepted (shiftRow op aluOp n k) he (.inl (matches_three rfl hb ho hf h7)) hops
  have hrej := Outcome.rejected hops.toBase (by rw [rejectedUnit, ho]; rfl)
  refine .ite (leaf (n := 0) · ?_ ?_) fun _ => .ite (leaf (n := 2) · ?_ ?_) fun _ => .ite (leaf (n := 3) · ?_ ?_)
    fun _ => .ite (leaf (n := 4) · ?_ ?_) fun _ => .ite (leaf (n := 6) · ?_ ?_) fun _ =>
    .ite (leaf (n := 7) · ?_ ?_) fun _ =>
    .ite (fun hf => .ite (shift (n := 1) (k := 0) hf · ?_ ?_) fun _ => hrej) fun _ =>
    .ite (fun hf => .ite (shift (n := 5) (k := 0) hf · ?_ ?_) fun _ =>
      .ite (shift (n := 5) (k := 0x20) hf · ?_ ?_) fun _ => hrej) fun _ => hrej
  all_goals decide

/-- Operations on two registers. -/
theorem outcome_op (ho : opcodeOf inst = 0x33) : Outcome pc v inst (op (start pc v) inst) := by
  have hops : Operands pc v .r (.reg, .reg) inst
      { withRd (withRs2 (withRs1 (start pc v) inst) inst) inst with opUnit := .alu } :=
    ⟨⟨rfl, rfl, toNat_and_lt _, toNat_and_lt _, toNat_and_lt _, rfl, rfl, rfl⟩, rfl, rfl,
      congrArg some (rdOf_toNat inst), congrArg some (rs1Of_toNat inst), congrArg some (rs2Of_toNat inst),
      by simp [Format.csrAddr], by simp [Format.imm]⟩
  have hrej := Outcome.rejected hops.toBase (by rw [rejectedUnit, ho]; rfl)
  have leaf {op : Op} {u : OpUnit} {sub : SubOp} {n k : Nat} (hf : funct3Of inst = BitVec.ofNat 32 n)
      (he : opRow op u sub n k ∈ rows ∧ n < 2 ^ 32 ∧ k < 2 ^ 32) (h7 : funct7Of inst = BitVec.ofNat 32 k) :=
    Outcome.accepted (opRow op u sub n k) he.1
      (.inl (matches_three rfl ⟨show 0x33 < 2 ^ 32 by decide, he.2⟩ ho hf h7)) hops
  -- `funct7` separates the base operation, its alternative and the one of M
  have two {op₁ op₂ : Op} {u₁ u₂ : OpUnit} {s₁ s₂ : SubOp} {n : Nat}
      (h₁ : opRow op₁ u₁ s₁ n 0 ∈ rows ∧ n < 2 ^ 32 ∧ 0 < 2 ^ 32)
      (h₂ : opRow op₂ u₂ s₂ n 1 ∈ rows ∧ n < 2 ^ 32 ∧ 1 < 2 ^ 32) (hf : funct3Of inst = BitVec.ofNat 32 n) :
      Outcome pc v inst (baseOrM _ inst (·.withOp op₁ u₁ s₁) (·.withOp op₂ u₂ s₂)) :=
    .ite (leaf hf h₁) fun _ => .ite (leaf hf h₂) fun _ => hrej
  have three {op₁ op₂ op₃ : Op} {u₁ u₂ u₃ : OpUnit} {s₁ s₂ s₃ : SubOp} {n : Nat}
      (h₁ : opRow op₁ u₁ s₁ n 0 ∈ rows ∧ n < 2 ^ 32 ∧ 0 < 2 ^ 32)
      (h₂ : opRow op₂ u₂ s₂ n 0x20 ∈ rows ∧ n < 2 ^ 32 ∧ 0x20 < 2 ^ 32)
      (h₃ : opRow op₃ u₃ s₃ n 1 ∈ rows ∧ n < 2 ^ 32 ∧ 1 < 2 ^ 32) (hf : funct3Of inst = BitVec.ofNat 32 n) :
      Outcome pc v inst (baseAltOrM _ inst (·.withOp op₁ u₁ s₁) (·.withOp op₂ u₂ s₂) (·.withOp op₃ u₃ s₃)) :=
    .ite (leaf hf h₁) fun _ => .ite (leaf hf h₂) fun _ => .ite (leaf hf h₃) fun _ => hrej
  refine .ite (three (n := 0) ?_ ?_ ?_) fun _ => .ite (two (n := 1) ?_ ?_) fun _ => .ite (two (n := 2) ?_ ?_)
    fun _ => .ite (two (n := 3) ?_ ?_) fun _ => .ite (two (n := 4) ?_ ?_) fun _ => .ite (three (n := 5) ?_ ?_ ?_)
    fun _ => .ite (two (n := 6) ?_ ?_) fun _ => .ite (two (n := 7) ?_ ?_) fun _ => hrej
  all_goals decide

/-- The operations without operands. -/
theorem operands_noArgs : Operands pc v .sys (.disable, .disable) inst (noArgs (start pc v)) :=
  ⟨⟨rfl, rfl, Nat.zero_lt_succ _, Nat.zero_lt_succ _, Nat.zero_lt_succ _, rfl, rfl, rfl⟩, rfl, rfl, rfl, rfl, rfl,
    by simp [Format.csrAddr], by simp [Format.imm]⟩

/-- Fences. -/
theorem outcome_miscMem (ho : opcodeOf inst = 0x0f) : Outcome pc v inst (miscMem (start pc v) inst) := by
  have hopc := (opcodeOf_iff (by decide)).mp ho
  have hrej : Outcome pc v inst (start pc v).invalid := .rejected base_start (by rw [rejectedUnit, ho]; rfl)
  refine .ite (fun hf => .ite (fun hz => ?fence) fun _ => hrej) fun _ =>
    .ite (fun hf => .ite (fun hz => ?fenceI) fun _ => hrej) fun _ => hrej
  case fence =>
    have hfm := (fmOf_iff (by decide)).mp hz.2.2
    have hops : Operands pc v .fence (.disable, .disable) inst { noArgs (start pc v) with imm := immIOf inst } :=
      ⟨⟨rfl, rfl, Nat.zero_lt_succ _, Nat.zero_lt_succ _, Nat.zero_lt_succ _, rfl, rfl, rfl⟩, rfl, rfl, rfl, rfl, rfl,
        by simp [Format.csrAddr], fun _ h => (fence_imm hfm).trans (Option.some.inj h)⟩
    refine .accepted ⟨.fence, .alu, .alu .fence, .fence, [opc 0x0f, f3 0, ⟨28, 4, 0⟩] ++ noRegs⟩ (by decide)
      (.inl ?_) hops
    simp [Encoding.Matches, opc, f3, noRegs, hopc, (funct3Of_iff (by decide)).mp hf, (rdOf_iff (by decide)).mp hz.1,
      (rs1Of_iff (by decide)).mp hz.2.1, hfm, -BitVec.extractLsb'_toNat]
  case fenceI =>
    refine .accepted fenceIZero (by decide) (.inl ?_) operands_noArgs
    simp [Encoding.Matches, fenceIZero, opc, f3, noRegs, hopc, (funct3Of_iff (by decide)).mp hf,
      (rdOf_iff (by decide)).mp hz.1, (rs1Of_iff (by decide)).mp hz.2.1, (immIOf_iff (by decide)).mp hz.2.2,
      -BitVec.extractLsb'_toNat]

/-- System and CSR instructions. -/
theorem outcome_system (ho : opcodeOf inst = 0x73) : Outcome pc v inst (system (start pc v) inst) := by
  have hrej : Outcome pc v inst (start pc v).invalid := .rejected base_start (by rw [rejectedUnit, ho]; rfl)
  -- the code compares `funct7` and `rs2`, the listing fixes the twelve bits they make up
  have sys {op : Op} {u : OpUnit} {sub : SubOp} {n k l : Nat} (hf : funct3Of inst = 0)
      (hregs : rdOf inst = 0 ∧ rs1Of inst = 0) (h7 : funct7Of inst = BitVec.ofNat 32 k)
      (hr2 : rs2Of inst = BitVec.ofNat 32 l)
      (he : sysRow op u sub n ∈ rows ∧ n = k * 32 + l ∧ k < 2 ^ 32 ∧ l < 2 ^ 32) :
      Outcome pc v inst ((noArgs (start pc v)).withOp op u sub) := by
    have h12 : (inst.extractLsb' 20 12).toNat = n := by
      rw [extract_imm12, (funct7Of_iff he.2.2.1).mp h7, (rs2Of_iff he.2.2.2).mp hr2, he.2.1]
    refine .accepted (sysRow op u sub n) he.1 (.inl ?_) operands_noArgs
    simp [Encoding.Matches, sysRow, opc, f3, noRegs, (opcodeOf_iff (k := 0x73) (by decide)).mp ho,
      (funct3Of_iff (by decide)).mp hf, (rdOf_iff (by decide)).mp hregs.1, (rs1Of_iff (by decide)).mp hregs.2, h12,
      -BitVec.extractLsb'_toNat]
  have reg {op : Op} {csrOp : CsrOp} {n : Nat} (hf : funct3Of inst = BitVec.ofNat 32 n)
      (he : csrRow op csrOp .csr n ∈ rows) (hb : 0x73 < 2 ^ 32 ∧ n < 2 ^ 32) :
      Outcome pc v inst (csrReg (start pc v) inst op csrOp) := by
    have hops : Operands pc v .csr (.reg, .disable) inst { withRd (withRs1 (start pc v) inst) inst with
        arg2Src := .disable, csr := (immIOf inst).toNat } :=
      ⟨⟨rfl, rfl, toNat_and_lt _, toNat_and_lt _, Nat.zero_lt_succ _, rfl, rfl, rfl⟩, rfl, rfl,
        congrArg some (rdOf_toNat inst), congrArg some (rs1Of_toNat inst), rfl,
        fun _ h => (immIOf_toNat inst).trans (Option.some.inj h), by simp [Format.imm]⟩
    exact .accepted (csrRow op csrOp .csr n) he (.inl (matches_two rfl hb ho hf)) hops
  have imm {op : Op} {csrOp : CsrOp} {n : Nat} (hf : funct3Of inst = BitVec.ofNat 32 n)
      (he : csrRow op csrOp .csrImm n ∈ rows) (hb : 0x73 < 2 ^ 32 ∧ n < 2 ^ 32) :
      Outcome pc v inst (csrImm (start pc v) inst op csrOp) := by
    have hops : Operands pc v .csrImm (.imm, .disable) inst { withRd (start pc v) inst with
        arg1Src := .imm, imm := rs1Of inst, arg2Src := .disable, csr := (immIOf inst).toNat } :=
      ⟨⟨rfl, rfl, toNat_and_lt _, Nat.zero_lt_succ _, Nat.zero_lt_succ _, rfl, rfl, rfl⟩, rfl, rfl,
        congrArg some (rdOf_toNat inst), rfl, rfl, fun _ h => (immIOf_toNat inst).trans (Option.some.inj h),
        fun _ h => (rs1Of_eq inst).trans (Option.some.inj h)⟩
    exact .accepted (csrRow op csrOp .csrImm n) he (.inl (matches_two rfl hb ho hf)) hops
  refine .ite (fun hf => .ite (fun hregs =>
      .ite (fun h7 => .ite (sys (n := 0) (k := 0) (l := 0) hf hregs h7 · ?_) fun _ =>
        .ite (sys (n := 1) (k := 0) (l := 1) hf hregs h7 · ?_) fun _ => hrej) fun _ =>
      .ite (fun h7 => .ite (sys (n := 0x302) (k := 0x18) (l := 2) hf hregs h7 · ?_) fun _ => hrej) fun _ => hrej)
      fun _ => hrej) fun _ => .ite (reg (n := 1) · ?_ ?_) fun _ => .ite (reg (n := 2) · ?_ ?_) fun _ =>
    .ite (reg (n := 3) · ?_ ?_) fun _ => .ite (imm (n := 5) · ?_ ?_) fun _ => .ite (imm (n := 6) · ?_ ?_)
    fun _ => .ite (imm (n := 7) · ?_ ?_) fun _ => hrej
  all_goals decide

/-- The `switch` accepts a word as one of a row or rejects it. -/
theorem outcome_opcode (pc : Word) (v : Bool) (inst : Word) : Outcome pc v inst (opcode (start pc v) inst) := by
  -- `lui` and `auipc`
  have upper {op : Op} {aluOp : AluOp} {o : Nat} (ho : opcodeOf inst = BitVec.ofNat 32 o)
      (he : ⟨op, .alu, .alu aluOp, .u, [opc o]⟩ ∈ rows) (hb : o < 2 ^ 32) :
      Outcome pc v inst
        { (noArgs (withRd (start pc v) inst)).withOp op .alu (.alu aluOp) with imm := immUOf inst } := by
    have hops : Operands pc v .u (.disable, .disable) inst
        { noArgs (withRd (start pc v) inst) with imm := immUOf inst } :=
      ⟨⟨rfl, rfl, toNat_and_lt _, Nat.zero_lt_succ _, Nat.zero_lt_succ _, rfl, rfl, rfl⟩, rfl, rfl,
        congrArg some (rdOf_toNat inst), rfl, rfl, by simp [Format.csrAddr],
        fun _ h => (immUOf_eq inst).trans (Option.some.inj h)⟩
    exact .accepted ⟨op, .alu, .alu aluOp, .u, [opc o]⟩ he
      (.inl (List.forall_mem_singleton.mpr ((opcodeOf_iff hb).mp ho))) hops
  refine .ite (upper (o := 0x37) · ?_ ?_) fun _ => .ite (upper (o := 0x17) · ?_ ?_) fun _ => .ite (fun ho => ?jal)
    fun _ => .ite (fun ho => ?jalr) fun _ => .ite outcome_branch fun h63 => .ite outcome_load fun h03 =>
    .ite outcome_store fun h23 => .ite outcome_opImm fun _ => .ite outcome_op fun _ => .ite outcome_miscMem fun _ =>
    .ite outcome_system fun _ => .rejected base_start ?other
  case jal =>
    have hops : Operands pc v .j (.disable, .disable) inst
        { noArgs (withRd (start pc v) inst) with imm := signExtend (immJOf inst) 21 } :=
      ⟨⟨rfl, rfl, toNat_and_lt _, Nat.zero_lt_succ _, Nat.zero_lt_succ _, rfl, rfl, rfl⟩, rfl, rfl,
        congrArg some (rdOf_toNat inst), rfl, rfl, by simp [Format.csrAddr],
        fun _ h => (signExtend_immJ inst).trans (Option.some.inj h)⟩
    exact .accepted ⟨.jal, .bru, .bru .jal, .j, [opc 0x6f]⟩ (by decide)
      (.inl (List.forall_mem_singleton.mpr ((opcodeOf_iff (by decide)).mp ho))) hops
  case jalr =>
    have hops : Operands pc v .i (.reg, .disable) inst { withRd (withRs1 (start pc v) inst) inst with
        arg2Src := .disable, imm := signExtend (immIOf inst) 12 } :=
      ⟨⟨rfl, rfl, toNat_and_lt _, toNat_and_lt _, Nat.zero_lt_succ _, rfl, rfl, rfl⟩, rfl, rfl,
        congrArg some (rdOf_toNat inst), congrArg some (rs1Of_toNat inst), rfl, by simp [Format.csrAddr],
        fun _ h => (signExtend_immI inst).trans (Option.some.inj h)⟩
    exact .accepted ⟨.jalr, .bru, .bru .jalr, .i, [opc 0x67, f3 0]⟩ (by decide)
      (.inr ⟨rfl, (opcodeOf_iff (by decide)).mp ho⟩) hops
  case other =>
    rw [rejectedUnit, if_neg h63, if_neg (not_or.mpr ⟨h03, h23⟩)]
    rfl
  all_goals decide

end Switch

/-! ## Decoded words

Each fact is one about the rows, which is decided, and one about rejected words, which keep the operation of the
zeroed pack. -/

/-- A decoded operation. -/
structure Sound (pc : Word) (v : Bool) (d : DecodeInfo) : Prop where
  enable : d.enable = true
  pc_eq : d.pc = pc
  rd : d.rd < archRegNum
  rs1 : d.rs1 < archRegNum
  rs2 : d.rs2 < archRegNum
  mret : d.op = .mret ↔ d.opUnit = .bru ∧ Execute.bruOpOf d.subOp = .mret
  valid : d.op = .mret → d.valid = v

/-- Decoded operations are sound. -/
theorem Outcome.sound {pc : Word} {v : Bool} (h : Outcome pc v inst d) :
    Sound pc v d := by
  have table : ∀ e ∈ rows, e.op = .mret ↔ e.opUnit = .bru ∧ Execute.bruOpOf e.subOp = .mret := by decide
  cases h with
  | accepted e he _ ho => exact ⟨ho.enable, ho.pc_eq, ho.rd, ho.rs1, ho.rs2, table e he, fun _ => ho.valid⟩
  | rejected hb _ =>
    exact ⟨hb.enable, hb.pc_eq, hb.rd, hb.rs1, hb.rs2, by simp [DecodeInfo.invalid, hb.op, hb.subOp, Execute.bruOpOf],
      by simp [DecodeInfo.invalid, hb.op]⟩

/-- So is the decoded word. -/
theorem sound_decodeWord (pc value : Word) (hasException : Bool) :
    Sound pc (!hasException) (decodeWord pc value hasException) := by
  have h := (outcome_opcode pc (!hasException) value).sound
  exact ⟨h.enable, h.pc_eq, h.rd, h.rs1, h.rs2, h.mret, h.valid⟩

/-- The unit, sub-operation and argument sources of a valid operation. -/
structure Shape where
  opUnit : OpUnit
  subOp : SubOp
  arg1Src : ArgSrc
  arg2Src : ArgSrc
  deriving DecidableEq

def shapeOf : Op → Shape
  | .lui => ⟨.alu, .alu .lui, .disable, .disable⟩
  | .auipc => ⟨.alu, .alu .auipc, .disable, .disable⟩
  | .addi => ⟨.alu, .alu .add, .reg, .imm⟩
  | .slti => ⟨.alu, .alu .slt, .reg, .imm⟩
  | .sltiu => ⟨.alu, .alu .sltu, .reg, .imm⟩
  | .xori => ⟨.alu, .alu .xor, .reg, .imm⟩
  | .ori => ⟨.alu, .alu .or, .reg, .imm⟩
  | .andi => ⟨.alu, .alu .and, .reg, .imm⟩
  | .slli => ⟨.alu, .alu .sll, .reg, .imm⟩
  | .srli => ⟨.alu, .alu .srl, .reg, .imm⟩
  | .srai => ⟨.alu, .alu .sra, .reg, .imm⟩
  | .add => ⟨.alu, .alu .add, .reg, .reg⟩
  | .sub => ⟨.alu, .alu .sub, .reg, .reg⟩
  | .sll => ⟨.alu, .alu .sll, .reg, .reg⟩
  | .slt => ⟨.alu, .alu .slt, .reg, .reg⟩
  | .sltu => ⟨.alu, .alu .sltu, .reg, .reg⟩
  | .xor => ⟨.alu, .alu .xor, .reg, .reg⟩
  | .srl => ⟨.alu, .alu .srl, .reg, .reg⟩
  | .sra => ⟨.alu, .alu .sra, .reg, .reg⟩
  | .or => ⟨.alu, .alu .or, .reg, .reg⟩
  | .and => ⟨.alu, .alu .and, .reg, .reg⟩
  | .fence => ⟨.alu, .alu .fence, .disable, .disable⟩
  | .fenceI => ⟨.alu, .alu .fenceI, .disable, .disable⟩
  | .ecall => ⟨.alu, .alu .ecall, .disable, .disable⟩
  | .ebreak => ⟨.alu, .alu .ebreak, .disable, .disable⟩
  | .mul => ⟨.mul, .mul .mul, .reg, .reg⟩
  | .mulh => ⟨.mul, .mul .mulh, .reg, .reg⟩
  | .mulhsu => ⟨.mul, .mul .mulhsu, .reg, .reg⟩
  | .mulhu => ⟨.mul, .mul .mulhu, .reg, .reg⟩
  | .div => ⟨.div, .div .div, .reg, .reg⟩
  | .divu => ⟨.div, .div .divu, .reg, .reg⟩
  | .rem => ⟨.div, .div .rem, .reg, .reg⟩
  | .remu => ⟨.div, .div .remu, .reg, .reg⟩
  | .lb => ⟨.lsu, .lsu .lb, .reg, .disable⟩
  | .lh => ⟨.lsu, .lsu .lh, .reg, .disable⟩
  | .lw => ⟨.lsu, .lsu .lw, .reg, .disable⟩
  | .lbu => ⟨.lsu, .lsu .lbu, .reg, .disable⟩
  | .lhu => ⟨.lsu, .lsu .lhu, .reg, .disable⟩
  | .sb => ⟨.lsu, .lsu .sb, .reg, .reg⟩
  | .sh => ⟨.lsu, .lsu .sh, .reg, .reg⟩
  | .sw => ⟨.lsu, .lsu .sw, .reg, .reg⟩
  | .beq => ⟨.bru, .bru .beq, .reg, .reg⟩
  | .bne => ⟨.bru, .bru .bne, .reg, .reg⟩
  | .blt => ⟨.bru, .bru .blt, .reg, .reg⟩
  | .bge => ⟨.bru, .bru .bge, .reg, .reg⟩
  | .bltu => ⟨.bru, .bru .bltu, .reg, .reg⟩
  | .bgeu => ⟨.bru, .bru .bgeu, .reg, .reg⟩
  | .jal => ⟨.bru, .bru .jal, .disable, .disable⟩
  | .jalr => ⟨.bru, .bru .jalr, .reg, .disable⟩
  | .mret => ⟨.bru, .bru .mret, .disable, .disable⟩
  | .csrrw => ⟨.csr, .csr .csrrw, .reg, .disable⟩
  | .csrrs => ⟨.csr, .csr .csrrs, .reg, .disable⟩
  | .csrrc => ⟨.csr, .csr .csrrc, .reg, .disable⟩
  | .csrrwi => ⟨.csr, .csr .csrrw, .imm, .disable⟩
  | .csrrsi => ⟨.csr, .csr .csrrs, .imm, .disable⟩
  | .csrrci => ⟨.csr, .csr .csrrc, .imm, .disable⟩

/-- The operations with a destination. -/
def hasDest : Op → Bool
  | .sb | .sh | .sw | .beq | .bne | .blt | .bge | .bltu | .bgeu | .fence | .fenceI | .ecall | .ebreak
  | .mret => false
  | _ => true

/-- A valid operation has the unit, the arguments and the destination of its kind. -/
def Shaped (d : DecodeInfo) : Prop :=
  d.valid = true → shapeOf d.op = ⟨d.opUnit, d.subOp, d.arg1Src, d.arg2Src⟩ ∧
    (hasDest d.op = true → d.rdEnable = true)

/-- The format alone says whether there is a destination. -/
theorem isSome_rd (f : Format) (inst : Word) : (f.rd inst).isSome = (f.rd 0).isSome := by
  cases f <;> rfl

/-- The destination is enabled exactly if the format has one. -/
theorem Operands.isSome_rd {pc : Word} {v : Bool} {f : Format} {src : ArgSrc × ArgSrc}
    (h : Operands pc v f src inst d) : d.rdEnable = (f.rd 0).isSome := by
  rw [← Decode.isSome_rd f inst, ← h.rdPlace]
  cases d.rdEnable <;> rfl

/-- Every decoded word has the shape of its operation. -/
theorem shaped_decodeWord (pc value : Word) (hasException : Bool) :
    Shaped (decodeWord pc value hasException) := by
  have table : ∀ e ∈ rows, shapeOf e.op = ⟨e.opUnit, e.subOp, (sources e).1, (sources e).2⟩ ∧
      (hasDest e.op = true → (e.format.rd 0).isSome = true) := by decide
  have h : ∀ d, Outcome pc (!hasException) value d → Shaped d := by
    rintro _ (⟨e, he, _, ho⟩ | _) hv
    · refine ⟨(table e he).1.trans ?_, fun hd => ho.isSome_rd.trans ((table e he).2 hd)⟩
      rw [← ho.arg1Src, ← ho.arg2Src]
      rfl
    · cases hv
  have hd := h _ (outcome_opcode pc (!hasException) value)
  exact hd

/-- A valid store has no destination. -/
def StoreOnly (d : DecodeInfo) : Prop :=
  d.valid = true → Issue.isStore (Issue.lsuOpOf d.subOp) = true → d.rdEnable = false

/-- The decoder gives no store a destination. -/
theorem storeOnly_decodeWord (pc value : Word) (hasException : Bool) :
    StoreOnly (decodeWord pc value hasException) := by
  have table : ∀ e ∈ rows, Issue.isStore (Issue.lsuOpOf e.subOp) = true → (e.format.rd 0).isSome = false := by decide
  have h : ∀ d, Outcome pc (!hasException) value d → StoreOnly d := by
    rintro _ (⟨e, he, _, ho⟩ | _) hv hs
    · exact ho.isSome_rd.trans (table e he hs)
    · cases hv
  have hd := h _ (outcome_opcode pc (!hasException) value)
  exact hd

/-- A rejected word keeps the operation of the zeroed pack and goes to this unit. -/
def Rejected (unit : OpUnit) (d : DecodeInfo) : Prop :=
  d.valid = false → d.op = .add ∧ d.opUnit = unit

/-- The unit of a rejected word is known from its opcode. -/
theorem rejected_decodeWord (pc value : Word) : Rejected (rejectedUnit value) (decodeWord pc value false) := by
  have h : ∀ d, Outcome pc true value d → Rejected (rejectedUnit value) d := by
    rintro _ (⟨e, _, _, ho⟩ | ⟨hb, hunit⟩) hv
    · exact absurd (ho.valid.symm.trans hv) (by decide)
    · exact ⟨hb.op, hunit⟩
  have hd := h _ (outcome_opcode pc true value)
  exact hd

/-! ## Jumps

Fetch sees a jump by its opcode and compares the whole word with that of `mret`; decode looks at the fields. -/

/-- What fetch takes for a jump. -/
theorem isJump_iff : Fetch.isJump inst = true ↔
    opcodeOf inst = 0x6f ∨ opcodeOf inst = 0x67 ∨ opcodeOf inst = 0x63 ∨ inst = 0x30200073 := by
  simp [Fetch.isJump, or_assoc]

/-- The fields that the listing fixes determine the word of `mret`. -/
theorem eq_mret (h : (sysRow .mret .bru (.bru .mret) 0x302).Matches inst) : inst = 0x30200073 := by
  simp [Encoding.Matches, sysRow, opc, f3, noRegs, Nat.shiftRight_eq_div_pow] at h
  refine BitVec.eq_of_toNat_eq ?_
  rw [show (0x30200073 : Word).toNat = 0x30200073 from rfl]
  omega

/-- The rows of the BRU are those of a jump. -/
theorem isJump_of_bru (he : e ∈ rows) (hu : e.opUnit = .bru)
    (hm : e.Matches inst ∨ e.op = .jalr ∧ (inst.extractLsb' 0 7).toNat = 0x67) : Fetch.isJump inst = true := by
  have table : ∀ e ∈ rows, e.opUnit = .bru → opc 0x6f ∈ e.fixed ∨ opc 0x67 ∈ e.fixed ∨ opc 0x63 ∈ e.fixed ∨
      e = sysRow .mret .bru (.bru .mret) 0x302 := by decide
  rw [isJump_iff]
  obtain hm | hm := hm
  · obtain h | h | h | rfl := table e he hu
    · exact .inl ((opcodeOf_iff (by decide)).mpr (hm _ h))
    · exact .inr (.inl ((opcodeOf_iff (by decide)).mpr (hm _ h)))
    · exact .inr (.inr (.inl ((opcodeOf_iff (by decide)).mpr (hm _ h))))
    · exact .inr (.inr (.inr (eq_mret hm)))
  · exact .inr (.inl ((opcodeOf_iff (by decide)).mpr hm.2))

/-- Also a rejected branch goes to the BRU. -/
theorem opUnit_branch (d : DecodeInfo) (inst : Word) : (branch d inst).opUnit = .bru := by
  unfold branch
  split_ifs <;> rfl

/-- An operation goes to the BRU exactly if fetch takes its word for a jump. -/
theorem opUnit_bru_iff (pc value : Word) (hasException : Bool) :
    (decodeWord pc value hasException).opUnit = .bru ↔ Fetch.isJump value = true := by
  constructor
  · have h : ∀ d, Outcome pc (!hasException) value d → d.opUnit = .bru → Fetch.isJump value = true := by
      rintro _ (⟨e, he, hm, _⟩ | ⟨_, hunit⟩) hu
      · exact isJump_of_bru he hu hm
      · -- of the rejected words only those with the opcode of a branch go to the BRU
        refine isJump_iff.mpr (.inr (.inr (.inl ?_)))
        by_contra h63
        replace hu := hunit.symm.trans hu
        rw [rejectedUnit, if_neg h63] at hu
        split_ifs at hu
    have hd := h _ (outcome_opcode pc (!hasException) value)
    exact hd
  · intro h
    unfold decodeWord opcode
    obtain h | h | h | rfl := isJump_iff.mp h
    · rw [h]
      rfl
    · rw [h]
      rfl
    · rw [h]
      exact opUnit_branch _ value
    · rfl

/-! ## Predicted words

The predictor answers by opcode and `funct3`, before the word is decoded. -/

/-- The words `get_prediction` answers for. -/
def predictable (value : Word) : Bool :=
  opcodeOf value == 0x6f || opcodeOf value == 0x67 ||
    (opcodeOf value == 0x63 && !(funct3Of value == 2 || funct3Of value == 3))

theorem predictable_iff : predictable value = true ↔ opcodeOf value = 0x6f ∨
    opcodeOf value = 0x67 ∨ (opcodeOf value = 0x63 ∧ ¬ (funct3Of value = 2 ∨ funct3Of value = 3)) := by
  simp [predictable, or_assoc]

/-- There is no answer for other words. -/
theorem predictable_of_answer {b : BranchPredictor} {pc value : Word} {x : Bool × Word}
    (h : (b.getPrediction pc value).answer = some x) : predictable value = true := by
  rw [predictable_iff]
  by_contra hne
  rw [not_or, not_or] at hne
  unfold BranchPredictor.getPrediction at h
  rw [if_neg hne.1, if_neg hne.2.1] at h
  by_cases h63 : opcodeOf value = 0x63
  · have hf : funct3Of value = 2 ∨ funct3Of value = 3 := by
      by_contra hf
      exact hne.2.2 ⟨h63, hf⟩
    rw [if_pos h63, if_pos hf] at h
    exact absurd h (by simp)
  · rw [if_neg h63] at h
    exact absurd h (by simp)

/-- What it answers for is a jump. -/
theorem isJump_of_predictable (h : predictable value = true) :
    Fetch.isJump value = true := by
  rw [isJump_iff]
  obtain h | h | h := predictable_iff.mp h
  · exact .inl h
  · exact .inr (.inl h)
  · exact .inr (.inr (.inl h.1))

theorem funct3_cases (inst : Word) : funct3Of inst = 0 ∨ funct3Of inst = 1 ∨ funct3Of inst = 2 ∨
    funct3Of inst = 3 ∨ funct3Of inst = 4 ∨ funct3Of inst = 5 ∨ funct3Of inst = 6 ∨
    funct3Of inst = 7 := by
  have hlt : (funct3Of inst).toNat < 8 := by
    unfold funct3Of
    rw [BitVec.toNat_and]
    exact Nat.lt_of_le_of_lt Nat.and_le_right (by decide)
  have hword : funct3Of inst = BitVec.ofNat 32 (funct3Of inst).toNat := by simp
  generalize (funct3Of inst).toNat = n at hlt hword
  interval_cases n <;> simp_all

/-- The two unused values of `funct3` are the only ones that decode rejects. -/
theorem valid_branch (h : ¬ (funct3Of inst = 2 ∨ funct3Of inst = 3)) : (branch d inst).valid = d.valid := by
  rw [not_or] at h
  obtain h' | h' | h' | h' | h' | h' | h' | h' := funct3_cases inst
  case inr.inr.inl => exact absurd h' h.1
  case inr.inr.inr.inl => exact absurd h' h.2
  all_goals
    unfold branch
    rw [h']
    rfl

/-- What it answers for decodes. -/
theorem valid_of_predictable (pc : Word) (h : predictable value = true) :
    (decodeWord pc value false).valid = true := by
  unfold decodeWord opcode
  obtain h | h | ⟨h, hf⟩ := predictable_iff.mp h <;> rw [h]
  · rfl
  · rfl
  · exact valid_branch hf

end Decode

end MyRiscvCore
