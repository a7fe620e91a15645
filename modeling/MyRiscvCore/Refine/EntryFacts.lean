import MyRiscvCore.Refine.ExecuteStep

/-!
# MyRiscvCore — instructions in flight and their results

What `PackOk` gives for a decoded pack (`PackOk.rd_mem`, `PackOk.bru_iff`, ...), and what `EntryOk` gives
for the result of an instruction in flight: it carries the instruction's operation, reorder-buffer id
and destination (`EntryOk.sameOp`).
-/

namespace MyRiscvCore

/-! ## Decoded packs

What decode guarantees of a pack, in the terms of the later stages. -/

namespace PackOk

variable {x : DecodeRenamePack}

/-- The facts about the decoder, for the pack. -/
theorem sound (h : PackOk x) : ∃ v, Decode.Sound x.pc v x.toDecodeInfo := by
  obtain ⟨p, -, rfl⟩ := h
  have hs := Decode.sound_decodeWord p.pc p.value p.hasException
  have hpc : (Decode.decodePack p).pc = p.pc := hs.pc_eq
  exact ⟨!p.hasException, hpc ▸ hs⟩

theorem enable (h : PackOk x) : x.enable = true :=
  h.sound.choose_spec.enable

/-- Only a destination other than `x0` is renamed. -/
theorem needRename_eq (h : PackOk x) : x.needRename = (x.rdEnable && decide (0 < x.rd)) := by
  obtain ⟨p, -, rfl⟩ := h
  rfl

theorem rdEnable (h : PackOk x) (hn : x.needRename = true) : x.rdEnable = true := by
  obtain ⟨p, -, rfl⟩ := h
  exact (Bool.and_eq_true_iff.mp hn).1

/-- Renamed registers are architectural. -/
theorem rd_mem (h : PackOk x) (hn : x.needRename = true) : x.rd ∈ archRegs := by
  have hlt := h.sound.choose_spec.rd
  obtain ⟨p, -, rfl⟩ := h
  exact ⟨of_decide_eq_true (Bool.and_eq_true_iff.mp hn).2, hlt⟩

/-- So are the mapped sources. -/
theorem rs1_mem (h : PackOk x) (hn : x.rs1NeedMap = true) : x.rs1 ∈ archRegs := by
  have hlt := h.sound.choose_spec.rs1
  obtain ⟨p, -, rfl⟩ := h
  exact ⟨of_decide_eq_true (Bool.and_eq_true_iff.mp hn).2, hlt⟩

theorem rs2_mem (h : PackOk x) (hn : x.rs2NeedMap = true) : x.rs2 ∈ archRegs := by
  have hlt := h.sound.choose_spec.rs2
  obtain ⟨p, -, rfl⟩ := h
  exact ⟨of_decide_eq_true (Bool.and_eq_true_iff.mp hn).2, hlt⟩

/-- Fetch and decode agree on what a jump is. -/
theorem bru_iff (h : PackOk x) : x.opUnit = .bru ↔ Fetch.isJump x.value = true := by
  obtain ⟨p, -, rfl⟩ := h
  exact Decode.opUnit_bru_iff p.pc p.value p.hasException

/-- A predicted word decodes, is a jump and has a checkpoint. -/
theorem predicted (h : PackOk x) (hp : x.predicted = true) :
    x.valid = true ∧ x.checkpointIdValid = true ∧ Fetch.isJump x.value = true := by
  obtain ⟨p, hf, rfl⟩ := h
  obtain ⟨hpred, hcp⟩ := hf.predicted hp
  refine ⟨?_, hcp, Decode.isJump_of_predictable hpred⟩
  have hex : p.hasException = false := by
    cases hex : p.hasException with
    | false => rfl
    | true =>
      rw [hf.exception hex] at hpred
      exact absurd hpred (by decide)
  have := Decode.valid_of_predictable p.pc hpred
  rwa [← hex] at this

/-- Commit knows `mret` by its operation, the unit by its sub-operation. -/
theorem mret_iff (h : PackOk x) :
    x.op = .mret ↔ x.opUnit = .bru ∧ Execute.bruOpOf x.subOp = .mret :=
  h.sound.choose_spec.mret

/-- An operation is only called `mret` if it is valid. -/
theorem mret_valid (h : PackOk x) (hop : x.op = .mret) : x.valid = true := by
  have hbru := (h.mret_iff.mp hop).1
  rw [h.bru_iff] at hbru
  obtain ⟨p, hf, rfl⟩ := h
  have hex : p.hasException = false := by
    cases hex : p.hasException with
    | false => rfl
    | true =>
      have hz : (Decode.decodePack p).value = 0 := hf.exception hex
      rw [hz] at hbru
      exact absurd hbru (by decide)
  calc (Decode.decodePack p).valid = !p.hasException :=
        (Decode.sound_decodeWord p.pc p.value p.hasException).valid hop
    _ = true := by rw [hex]; rfl

end PackOk

/-! ## Packs for the units

A pack is the operation with its operand values; nothing else of it changes. -/

section PackOf

variable (op : RenameReadregOp) (v1 v2 : Word)

@[simp] theorem packOf_info : (packOf op v1 v2).toDecodeInfo = op.toDecodeInfo := by
  unfold packOf Issue.sendPack
  split <;> rfl

@[simp] theorem packOf_predict : (packOf op v1 v2).toPredictInfo = op.toPredictInfo := by
  unfold packOf Issue.sendPack
  split <;> rfl

@[simp] theorem packOf_robId : (packOf op v1 v2).robId = op.robId := by
  unfold packOf Issue.sendPack
  split <;> rfl

@[simp] theorem packOf_rdPhy : (packOf op v1 v2).rdPhy = op.rdPhy := by
  unfold packOf Issue.sendPack
  split <;> rfl

@[simp] theorem packOf_src1 : (packOf op v1 v2).src1Value = v1 := by
  unfold packOf Issue.sendPack
  split <;> rfl

@[simp] theorem packOf_src2 : (packOf op v1 v2).src2Value = v2 := by
  unfold packOf Issue.sendPack
  split <;> rfl

/-- The operand values determine the pack, and the pack the operand values. -/
theorem packOf_lsu (h : (op.valid && op.opUnit == .lsu) = true) :
    (packOf op v1 v2).lsuAddr = v1 + op.imm ∧
    (packOf op v1 v2).hasException =
      !Bus.checkAlign (v1 + op.imm) (Issue.lsuSize (Issue.lsuOpOf op.subOp)) := by
  unfold packOf Issue.sendPack
  rw [if_pos h]
  exact ⟨rfl, rfl⟩

end PackOf

/-- Only the step of a result from the write-back port to the register file stores a value. -/
theorem Entry.stored_advance {e : Entry} {rs : List ExecuteWbPack}
    (h : ∀ r, e.status = .executed r → r.hasException = true) :
    (e.advance rs).stored? = e.stored? := by
  unfold Entry.stored? Entry.advance
  cases hs : e.status with
  | waiting => cases hf : rs.find? fun r => r.enable && r.robId == e.op.robId <;> rfl
  | executed r => simp [h r hs]
  | written r => rfl
  | finished r => rfl

/-- What a result keeps of the instruction it belongs to. -/
structure ResultOf (op : RenameReadregOp) (r : ExecuteWbPack) : Prop where
  info : r.toDecodeInfo = op.toDecodeInfo
  robId : r.robId = op.robId
  rdPhy : r.rdPhy = op.rdPhy
  predict : op.opUnit = .bru → r.toPredictInfo = op.toPredictInfo

/-- A unit passes on the operation that it got. -/
theorem UnitResult.resultOf {op : RenameReadregOp} {v1 v2 : Word} {r : ExecuteWbPack}
    (h : UnitResult (packOf op v1 v2) r) : ResultOf op r where
  info := h.sameOp.info.trans (packOf_info op v1 v2)
  robId := h.sameOp.robId.trans (packOf_robId op v1 v2)
  rdPhy := h.sameOp.rdPhy.trans (packOf_rdPhy op v1 v2)
  predict := fun hb => by
    rw [h.sameOp.predict (by rw [packOf_info]; exact hb)]
    exact packOf_predict op v1 v2

namespace EntryOk

variable {C : Nat → Nat} {regs : Nat → Word} {pre : List Entry} {e : Entry} {r : ExecuteWbPack}

/-- The result in an entry is one of its own operation. -/
theorem resultOf (h : EntryOk C regs pre e) (hr : e.result = some r) : ResultOf e.op r := by
  obtain ⟨v1, v2, -, -, hu⟩ := h.result r hr
  exact hu.resultOf

/-- When the result of an instruction is written to the register file. -/
theorem writesRd (h : EntryOk C regs pre e) (hr : e.result = some r) :
    r.writesRd = (e.writes && !r.hasException) := by
  have hinfo := (h.resultOf hr).info
  have hen : r.enable = true := (congrArg DecodeInfo.enable hinfo).trans h.pack.enable
  have hvalid : r.valid = e.op.valid := congrArg DecodeInfo.valid hinfo
  have hren : r.needRename = e.op.needRename := congrArg DecodeInfo.needRename hinfo
  have hrd : r.rdEnable = e.op.rdEnable := congrArg DecodeInfo.rdEnable hinfo
  unfold ExecuteWbPack.writesRd Entry.writes
  rw [hen, hvalid, hren, hrd]
  cases hn : e.op.needRename with
  | false => simp
  | true => simp [h.pack.rdEnable hn]

end EntryOk

end MyRiscvCore
