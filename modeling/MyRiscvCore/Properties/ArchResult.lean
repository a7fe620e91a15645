import MyRiscvCore.Properties.FetchedWords

/-!
# MyRiscvCore — one instruction in two runs

What an instruction carries because of where it is in the pipeline, its ring and register ids and its prediction, does
not change what it computes. `SameDecoded`, `SamePack` and `SameResult` say that two operations, packs or results agree
apart from these, and every unit computes the same from the same packs (`SamePack.alu`, ..., `SamePack.csr`). So the
results of one instruction in two runs agree if the architectural states do (`Computes.sameResult`).
-/

namespace MyRiscvCore

structure SameDecoded (x x' : DecodeRenamePack) : Prop where
  info : x'.toDecodeInfo = x.toDecodeInfo
  hasException : x'.hasException = x.hasException
  exception : x.hasException = true → x'.toExceptionInfo = x.toExceptionInfo

structure SamePack (p p' : IssueExecutePack) : Prop
    extends SameDecoded p.toDecodeRenamePack p'.toDecodeRenamePack where
  src1Value : p'.src1Value = p.src1Value
  src2Value : p'.src2Value = p.src2Value
  lsuAddr : p'.lsuAddr = p.lsuAddr

/-- The next pc is not part of it, and the values only if they are written. -/
structure SameResult (r r' : ExecuteWbPack) : Prop
    extends SameDecoded r.toDecodeRenamePack r'.toDecodeRenamePack where
  src1Value : r'.src1Value = r.src1Value
  src2Value : r'.src2Value = r.src2Value
  rdValue : (r.valid && r.needRename && !r.hasException) = true → r'.rdValue = r.rdValue
  csrNewvalue : r.hasException = false → r'.csrNewvalue = r.csrNewvalue
  csrNewvalueValid : r'.csrNewvalueValid = r.csrNewvalueValid

/-- Two packs of one word at one pc. -/
theorem PackOk.sameDecoded {x x' : DecodeRenamePack} (h : PackOk x) (h' : PackOk x') (hpc : x'.pc = x.pc)
    (hvalue : x'.value = x.value) : SameDecoded x x' := by
  obtain ⟨p, hp, rfl⟩ := h
  obtain ⟨p', hp', rfl⟩ := h'
  rw [decodePack_pc, decodePack_pc] at hpc
  change p'.value = p.value at hvalue
  have hexc : p'.hasException = p.hasException := by rw [hp.misaligned, hp'.misaligned, hpc]
  refine ⟨?_, hexc, fun hx => ?_⟩
  · show Decode.decodeWord p'.pc p'.value p'.hasException = Decode.decodeWord p.pc p.value p.hasException
    rw [hpc, hvalue, hexc]
  · obtain ⟨hid, hv⟩ := hp.cause hx
    obtain ⟨hid', hv'⟩ := hp'.cause (hexc.trans hx)
    exact (ExceptionInfo.mk.injEq ..).mpr ⟨hexc, hid'.trans hid.symm, by rw [hv, hv', hpc]⟩

/-! ## The units

No unit looks at anything but the operands and the decoded fields. -/

/-- The operation reads the CSR that it names. -/
def DecodeInfo.readsCsr (d : DecodeInfo) : Bool :=
  d.valid && d.opUnit == .csr && (d.needRename || Execute.csrOpOf d.subOp != .csrrw)

/-- `csrrw` does not depend on the old value. -/
theorem csrNew_eq {op : CsrOp} {old old' src : Word} (h : op ≠ .csrrw → old' = old) :
    Execute.csrNew op old' src = Execute.csrNew op old src := by
  cases op with
  | csrrw => rfl
  | csrrc | csrrs => rw [h (by decide)]

namespace SamePack

variable {p p' : IssueExecutePack} (h : SamePack p p')

include h

theorem predict (q q' : PredictInfo) : SamePack { p with toPredictInfo := q } { p' with toPredictInfo := q' } :=
  ⟨⟨h.info, h.hasException, h.exception⟩, h.src1Value, h.src2Value, h.lsuAddr⟩

/-- What a unit puts out, by the fields that it does not copy. -/
theorem result (jump jump' valid : Bool) (next next' : Word) {rd rd' csr csr' : Word}
    (hrd : (p.valid && p.needRename && !p.hasException) = true → rd' = rd)
    (hcsr : p.hasException = false → csr' = csr) :
    SameResult ⟨p.toReadregIssueOp, jump, next, rd, csr, valid⟩ ⟨p'.toReadregIssueOp, jump', next', rd', csr', valid⟩ :=
  ⟨⟨h.info, h.hasException, h.exception⟩, h.src1Value, h.src2Value, hrd, hcsr, rfl⟩

/-- What a unit puts out, if it is one value. -/
theorem value (jump jump' : Bool) (next next' rd : Word) :
    SameResult ⟨p.toReadregIssueOp, jump, next, rd, 0, false⟩ ⟨p'.toReadregIssueOp, jump', next', rd, 0, false⟩ :=
  h.result jump jump' false next next' (fun _ => rfl) (fun _ => rfl)

/-- An exception of a unit. -/
theorem trap {x : ExceptionInfo} (hx : x.hasException = true) (q q' : PredictInfo) (rd rd' : Word) :
    SameResult { Execute.base p with toExceptionInfo := x, toPredictInfo := q, rdValue := rd }
      { Execute.base p' with toExceptionInfo := x, toPredictInfo := q', rdValue := rd' } where
  info := h.info
  hasException := rfl
  exception _ := rfl
  src1Value := h.src1Value
  src2Value := h.src2Value
  rdValue hshow := by
    change (p.valid && p.needRename && !x.hasException) = true at hshow
    rw [hx] at hshow
    exact absurd hshow (by simp)
  csrNewvalue _ := rfl
  csrNewvalueValid := rfl

theorem aluValue (op : AluOp) : Execute.aluValue op p' = Execute.aluValue op p := by
  unfold Execute.aluValue
  rw [h.info, h.src1Value, h.src2Value]

/-- The ALU. -/
theorem alu : SameResult (Execute.alu p) (Execute.alu p') := by
  unfold Execute.alu
  rw [h.info, h.hasException, h.aluValue]
  by_cases hen : (p.enable && !p.hasException) = true
  · rw [if_pos hen, if_pos hen]
    by_cases hv : (!p.valid) = true
    · rw [if_pos hv, if_pos hv]
      exact h.trap rfl _ _ _ _
    · rw [if_neg hv, if_neg hv]
      cases Execute.aluOpOf p.subOp
      case ebreak | ecall => exact h.trap rfl _ _ _ _
      all_goals exact h.value _ _ _ _ _
  · rw [if_neg hen, if_neg hen]
    exact h.value _ _ _ _ _

/-- The multiplier. -/
theorem mul : SameResult (Execute.mul p) (Execute.mul p') := by
  unfold Execute.mul
  rw [h.info, h.src1Value, h.src2Value]
  by_cases hen : (p.enable && p.valid) = true
  · rw [if_pos hen, if_pos hen]
    exact h.value _ _ _ _ _
  · rw [if_neg hen, if_neg hen]
    exact h.value _ _ _ _ _

/-- The divider. -/
theorem div : SameResult (Execute.div p) (Execute.div p') := by
  unfold Execute.div
  rw [h.info, h.src1Value, h.src2Value]
  by_cases hen : (p.enable && p.valid) = true
  · rw [if_pos hen, if_pos hen]
    exact h.value _ _ _ _ _
  · rw [if_neg hen, if_neg hen]
    exact h.value _ _ _ _ _

/-- The branch unit, whatever `mepc` is. -/
theorem bru (mepc mepc' : Word) : SameResult (Execute.bru mepc p) (Execute.bru mepc' p') := by
  unfold Execute.bru
  rw [h.info]
  by_cases hen : (p.enable && p.valid) = true
  · rw [if_pos hen, if_pos hen]
    exact h.value _ _ _ _ _
  · rw [if_neg hen, if_neg hen]
    exact h.value _ _ _ _ _

/-- The answers of two CSR files only have to agree if the instruction has no exception and reads. -/
theorem csr (hunit : p.opUnit = .csr) {file file' : Csrfile}
    (hread : (Execute.csr file p).hasException = false → (Execute.csr file' p').hasException = false →
      p.readsCsr = true → file'.read p.csr = file.read p.csr) :
    SameResult (Execute.csr file p) (Execute.csr file' p') := by
  unfold Execute.csr at hread ⊢
  dsimp only at hread ⊢
  rw [h.info] at hread ⊢
  by_cases hen : (!p.enable) = true
  · rw [if_pos hen, if_pos hen]
    exact (h.predict _ _).value _ _ _ _ _
  rw [if_neg hen, if_neg hen] at hread ⊢
  by_cases hv : p.valid = true
  swap
  · rw [if_neg hv, if_neg hv]
    exact h.value _ _ _ _ _
  rw [if_pos hv, if_pos hv] at hread ⊢
  -- which CSRs there are does not depend on their values
  cases hitem : csrMapTable p.csr with
  | none =>
    have hnone (c : Csrfile) : c.read p.csr = none := by rw [Csrfile.read, hitem]; rfl
    rw [hnone, hnone]
    exact h.trap rfl _ _ _ _
  | some item =>
    have hsome (c : Csrfile) : c.read p.csr = some (c.readItem p.csr item) := by rw [Csrfile.read, hitem]; rfl
    rw [hsome, hsome] at hread ⊢
    dsimp only at hread ⊢
    -- the value is written, or a new one is computed from it
    have hold (hq : p.hasException = false → p'.hasException = false → p.readsCsr = true →
          some (file'.readItem p.csr item) = some (file.readItem p.csr item))
        (hr : (p.needRename || Execute.csrOpOf p.subOp != .csrrw) = true) (hx : p.hasException = false) :
        file'.readItem p.csr item = file.readItem p.csr item := by
      refine Option.some.inj (hq hx (h.hasException.trans hx) ?_)
      rw [DecodeInfo.readsCsr, hv, hunit, hr]
      rfl
    have hwritten {q : Prop} (hq : (p.needRename || Execute.csrOpOf p.subOp != .csrrw) = true →
        p.hasException = false → q) (hshow : (p.valid && p.needRename && !p.hasException) = true) : q := by
      simp only [Bool.and_eq_true, Bool.not_eq_true'] at hshow
      exact hq (by rw [hshow.1.2]; rfl) hshow.2
    by_cases hx0 : (p.arg1Src == .reg && !p.rs1NeedMap) = true
    · rw [if_pos hx0, if_pos hx0] at hread
      rw [if_pos hx0, if_pos hx0]
      exact (h.predict _ _).result _ _ _ _ _ (hwritten (hold hread)) (fun _ => rfl)
    rw [if_neg hx0, if_neg hx0] at hread ⊢
    by_cases hw : (!Csrfile.writeCheck p.csr) = true
    · rw [if_pos hw, if_pos hw]
      exact h.trap rfl _ _ _ _
    · rw [if_neg hw, if_neg hw] at hread
      rw [if_neg hw, if_neg hw, h.src1Value]
      refine (h.predict _ _).result _ _ _ _ _ (hwritten (hold hread)) fun hx => csrNew_eq fun hop => ?_
      exact hold hread (by simp [hop]) hx

/-- Loads from one memory. -/
theorem load {mem : Memory} {v v' : Word} (hload : LoadOk mem { Execute.base p with rdValue := v })
    (hload' : LoadOk mem { Execute.base p' with rdValue := v' }) (hbacked : MemoryBacked (p.src1Value + p.imm)) :
    v' = v := by
  obtain ⟨info, hinfo, hslave⟩ := hbacked
  have hv := hload info hinfo hslave
  unfold LoadOk at hload'
  dsimp only [Execute.base] at hv hload'
  rw [h.info, h.src1Value] at hload'
  exact (hload' info hinfo hslave).trans hv.symm

end SamePack

namespace SameDecoded

variable {op op' : RenameReadregOp} (h : SameDecoded op.toDecodeRenamePack op'.toDecodeRenamePack) (regs : Nat → Word)

include h

theorem archPack : SamePack (archPack regs op) (MyRiscvCore.archPack regs op') := by
  unfold MyRiscvCore.archPack operand1 operand2 packOf Issue.sendPack
  dsimp only
  rw [h.info]
  by_cases hlsu : (op.valid && op.opUnit == .lsu) = true
  · rw [if_pos hlsu, if_pos hlsu]
    exact ⟨⟨rfl, rfl, fun _ => rfl⟩, rfl, rfl, rfl⟩
  · rw [if_neg hlsu, if_neg hlsu]
    exact ⟨⟨h.info, h.hasException, h.exception⟩, rfl, rfl, rfl⟩

/-- The stores of an instruction. -/
theorem archStores : archStores regs op' = MyRiscvCore.archStores regs op := by
  have hp := h.archPack regs
  rw [MyRiscvCore.archStores, MyRiscvCore.archStores, storeRequest, storeRequest, h.info, hp.info, hp.src2Value,
    hp.lsuAddr]

/-- The successor depends on `mepc` for `mret` only. -/
theorem archNext (hpack : PackOk op.toDecodeRenamePack) {mepc mepc' : Word} (hmepc : op.op = .mret → mepc' = mepc) :
    archNext regs mepc' op' = MyRiscvCore.archNext regs mepc op := by
  have hp := h.archPack regs
  unfold MyRiscvCore.archNext
  dsimp only
  rw [h.info, hp.src1Value, hp.src2Value]
  by_cases hbru : op.opUnit = .bru
  · have htarget : Execute.bruTarget (Execute.bruOpOf op.subOp) mepc' (MyRiscvCore.archPack regs op') =
        Execute.bruTarget (Execute.bruOpOf op.subOp) mepc (MyRiscvCore.archPack regs op) := by
      unfold Execute.bruTarget
      rw [hp.info, hp.src1Value]
      cases hop : Execute.bruOpOf op.subOp
      case mret => exact hmepc (hpack.mret_iff.mpr ⟨hbru, hop⟩)
      all_goals rfl
    rw [htarget]
  · simp [hbru]

end SameDecoded

theorem PackOk.store_needRename {op : RenameReadregOp} (h : PackOk op.toDecodeRenamePack) (hv : op.valid = true)
    (hstore : Issue.isStore (Issue.lsuOpOf op.subOp) = true) : op.needRename = false := by
  rw [h.needRename_eq]
  obtain ⟨p, -, hp⟩ := h
  have hinfo : op.toDecodeInfo = Decode.decodeWord p.pc p.value p.hasException :=
    congrArg DecodeRenamePack.toDecodeInfo hp
  have hrd : op.rdEnable = false := by
    have hs := Decode.storeOnly_decodeWord p.pc p.value p.hasException
    rw [← hinfo] at hs
    exact hs hv hstore
  rw [hrd]
  rfl

/-- The results of one instruction in two runs whose architectural states agree. If neither is an exception, a load has
to be one of the memory, and a CSR that is read must not change by itself. -/
theorem Computes.sameResult {b : Arch} {csr csr' : Nat → Word} {e e' : Entry} {r r' : ExecuteWbPack}
    (h : Computes b csr e r) (h' : Computes b csr' e' r') (hcsr : ∀ a, StableCsr a → csr' a = csr a)
    (hop : SameDecoded e.op.toDecodeRenamePack e'.op.toDecodeRenamePack)
    (hload : r.hasException = false → r'.hasException = false → isLoadOp e.op.toDecodeInfo = true →
      MemoryBacked (archPack b.regs e.op).lsuAddr)
    (hread : r.hasException = false → r'.hasException = false → e.op.readsCsr = true → StableCsr e.op.csr) :
    SameResult r r' := by
  have hp := hop.archPack b.regs
  have hinfo : (archPack b.regs e.op).toDecodeInfo = e.op.toDecodeInfo := by rw [archPack, packOf_info]
  have hres := h.result
  have hres' := h'.result
  unfold UnitResult at hres hres'
  rw [hp.info] at hres'
  rw [hinfo] at hres hres'
  cases hunit : e.op.opUnit with
  | alu =>
    rw [hunit] at hres hres'
    rw [hres, hres']
    exact hp.alu
  | mul =>
    rw [hunit] at hres hres'
    rw [hres, hres']
    exact hp.mul
  | div =>
    rw [hunit] at hres hres'
    rw [hres, hres']
    exact hp.div
  | bru =>
    rw [hunit] at hres hres'
    obtain ⟨mepc, rfl⟩ := hres
    obtain ⟨mepc', rfl⟩ := hres'
    exact hp.bru mepc mepc'
  | csr =>
    obtain ⟨file, hfile, rfl⟩ := h.csr hunit
    obtain ⟨file', hfile', rfl⟩ := h'.csr (by rw [hop.info, hunit])
    refine hp.csr (by rw [hinfo, hunit]) fun hx hx' hreads => ?_
    rw [hinfo] at hreads ⊢
    have hstable := hread hx hx' hreads
    exact hstable.read_eq (by rw [hfile _ hstable, hfile' _ hstable, hcsr _ hstable])
  | lsu =>
    rw [hunit] at hres hres'
    obtain ⟨v, rfl⟩ := hres
    obtain ⟨v', rfl⟩ := hres'
    refine hp.result _ _ _ _ _ (fun hshow => ?_) (fun _ => rfl)
    simp only [Bool.and_eq_true, Bool.not_eq_true', hinfo] at hshow
    obtain ⟨⟨hv, hneed⟩, hx⟩ := hshow
    have hx' := hp.hasException.trans hx
    -- a store has no destination
    have hstore : Issue.isStore (Issue.lsuOpOf e.op.subOp) = false := by
      by_contra hstore
      rw [h.pack.store_needRename hv (by simpa using hstore)] at hneed
      cases hneed
    have hlsu : (e.op.valid && e.op.opUnit == .lsu) = true := by
      rw [hv, hunit]
      rfl
    have hisLoad : isLoadOp e.op.toDecodeInfo = true := by rw [isLoadOp, hlsu, hstore]; rfl
    have haddr : (archPack b.regs e.op).lsuAddr = (archPack b.regs e.op).src1Value + (archPack b.regs e.op).imm := by
      rw [hinfo, archPack, packOf_src1]
      exact (packOf_lsu _ _ _ hlsu).1
    have hbacked := hload hx hx' hisLoad
    rw [haddr] at hbacked
    exact hp.load (h.load hisLoad hx) (h'.load (by rw [hop.info, hisLoad]) hx') hbacked

end MyRiscvCore
