import MyRiscvCore.Pipeline.DecodeFacts
import Mathlib.Tactic.FinCases

/-!
# MyRiscvCore — the decoder against the table of encodings

The decoder marks a word valid exactly if a row of the table matches it, but for the opcode of `jalr`, whose
`funct3` it does not look at; and it reads the operands as the row places them (`decodeWord_exact`). That an
accepted word is one of a row is `Decode.outcome_opcode`. The other direction needs that the rows are disjoint
(`row_unique`) and that none of their words is rejected (`valid_opcode`).
-/

namespace MyRiscvCore

open Decode (rows)

/-! ## Rows

A row matches by slices, the decoder compares fields; the first three lemmas translate. -/

/-- The decoder accepts the words of a row and reads them as it says. -/
def Encoding.Decoded (e : Encoding) : Prop :=
  ∀ pc v, e.Matches v →
    (Decode.decodeWord pc v false).valid = true ∧ e.Agrees v (Decode.decodeWord pc v false)

section Fields

variable {e : Encoding} {v : Word} {o n k : Nat} {l : List FixedBits}

/-- The opcode of a matching word. -/
theorem Encoding.Matches.opcode (h : e.Matches v) (he : e.fixed = opc o :: l) : opcodeOf v = BitVec.ofNat 32 o := by
  have ho : (v.extractLsb' 0 7).toNat = o := h (opc o) (by simp [he])
  exact (opcodeOf_iff (by omega)).mpr ho

theorem Encoding.Matches.funct3 (h : e.Matches v) (he : e.fixed = opc o :: f3 n :: l) :
    funct3Of v = BitVec.ofNat 32 n := by
  have hn : (v.extractLsb' 12 3).toNat = n := h (f3 n) (by simp [he])
  exact (funct3Of_iff (by omega)).mpr hn

theorem Encoding.Matches.funct7 (h : e.Matches v) (he : e.fixed = opc o :: f3 n :: f7 k :: l) :
    funct7Of v = BitVec.ofNat 32 k := by
  have hk : (v.extractLsb' 25 7).toNat = k := h (f7 k) (by simp [he])
  exact (funct7Of_iff (by omega)).mpr hk

/-- `rd` and `rs1` of the words without operands. -/
theorem Encoding.Matches.noRegs (h : e.Matches v) (he : noRegs ⊆ e.fixed) : rdOf v = 0 ∧ rs1Of v = 0 :=
  ⟨(rdOf_iff (by decide)).mpr (h ⟨7, 5, 0⟩ (he (by decide))),
    (rs1Of_iff (by decide)).mpr (h ⟨15, 5, 0⟩ (he (by decide)))⟩

/-- The decoder takes the upper twelve bits of a system instruction as `funct7` and `rs2`. -/
theorem Encoding.Matches.sys {op : Op} {opUnit : OpUnit} {subOp : SubOp} (h : (sysRow op opUnit subOp n).Matches v) :
    funct7Of v = BitVec.ofNat 32 (n / 32) ∧ rs2Of v = BitVec.ofNat 32 (n % 32) := by
  have hn : (v.extractLsb' 20 12).toNat = n := h ⟨20, 12, n⟩ (by simp [sysRow])
  have h5 := (v.extractLsb' 20 5).isLt
  have h7 := (v.extractLsb' 25 7).isLt
  rw [extract_imm12] at hn
  exact ⟨(funct7Of_iff (by omega)).mpr (by omega), (rs2Of_iff (by omega)).mpr (by omega)⟩

end Fields

/-- No word matches two rows: some field is fixed by both, to different values. -/
theorem row_unique {e e' : Encoding} (he : e ∈ rows) (he' : e' ∈ rows) {v : Word} (hm : e.Matches v)
    (hm' : e'.Matches v ∨ e'.op = .jalr ∧ (v.extractLsb' 0 7).toNat = 0x67) : e = e' := by
  have table : ∀ e ∈ rows, ∀ e' ∈ rows, e = e' ∨
      (∃ b ∈ e.fixed, ∃ b' ∈ e'.fixed, b.lo = b'.lo ∧ b.width = b'.width ∧ b.value ≠ b'.value) ∧
      (e'.op = .jalr → ∃ b ∈ e.fixed, b.lo = 0 ∧ b.width = 7 ∧ b.value ≠ 0x67) := by
    decide +kernel
  -- `jalr` is accepted by its opcode alone, which no other row has
  by_contra hne
  obtain ⟨⟨b, hb, b', hb', hlo, hwidth, hvalue⟩, hjalr⟩ := (table e he e' he').resolve_left hne
  obtain hm' | ⟨hop, ho⟩ := hm'
  · rw [← hm b hb, ← hm' b' hb', hlo, hwidth] at hvalue
    exact hvalue rfl
  · obtain ⟨b, hb, hlo, hwidth, hvalue⟩ := hjalr hop
    rw [← hm b hb, hlo, hwidth] at hvalue
    exact hvalue ho

/-- The decoder rejects no word of a row. -/
theorem valid_opcode {e : Encoding} (he : e ∈ rows) {v : Word} (hm : e.Matches v) (d : DecodeInfo) :
    (Decode.opcode d v).valid = d.valid := by
  unfold Decode.opcode Decode.branch Decode.load Decode.store Decode.opImm Decode.op Decode.baseOrM Decode.baseAltOrM
    Decode.miscMem Decode.system
  -- the fields that a row fixes lead to its leaf of the `switch`
  have fenceI (hm : fenceIZero.Matches v) : immIOf v = 0 := (immIOf_iff (by decide)).mpr (hm ⟨20, 12, 0⟩ (by decide))
  have fence (hf : ⟨28, 4, 0⟩ ∈ e.fixed) : (v >>> 28) &&& 0x0f = 0 := (fmOf_iff (by decide)).mpr (hm ⟨28, 4, 0⟩ hf)
  fin_cases he
  all_goals first
    | (rw [hm.opcode rfl, hm.funct3 rfl, hm.funct7 rfl]; rfl)
    | (rw [hm.opcode rfl, hm.funct3 rfl, hm.sys.1, hm.sys.2, (hm.noRegs (by decide)).1, (hm.noRegs (by decide)).2]; rfl)
    | (rw [hm.opcode rfl, hm.funct3 rfl, fenceI hm, (hm.noRegs (by decide)).1, (hm.noRegs (by decide)).2]; rfl)
    | (rw [hm.opcode rfl, hm.funct3 rfl, fence (by decide), (hm.noRegs (by decide)).1, (hm.noRegs (by decide)).2]; rfl)
    | (rw [hm.opcode rfl, hm.funct3 rfl]; rfl)
    | (rw [hm.opcode rfl]; rfl)

/-- Every row is decoded as it says, `fence.i` with its reserved fields zero. -/
theorem encodings_decoded {e : Encoding} (he : e ∈ rows) : e.Decoded := by
  intro pc v hm
  have hv : (Decode.opcode (Decode.start pc true) v).valid = true := valid_opcode he hm _
  refine ⟨hv, ?_⟩
  -- the word is accepted, and the row it is accepted as is this one
  have h : ∀ d, Decode.Outcome pc true v d → d.valid = true → e.Agrees v d := by
    rintro _ (⟨e', he', hm', ho⟩ | _) hv
    · obtain rfl := row_unique he he' hm hm'
      exact ⟨rfl, rfl, rfl, ho.rdPlace, ho.rs1Place, ho.rs2Place, ho.csrPlace, ho.immPlace⟩
    · cases hv
  have hd := h _ (Decode.outcome_opcode pc true v) hv
  exact ⟨hd.op, hd.opUnit, hd.subOp, hd.rd, hd.rs1, hd.rs2, hd.csr, hd.imm⟩

/-- The word is one of the table. -/
def Encoded (v : Word) : Prop := ∃ e ∈ fenceIZero :: baseEncodings, e.Matches v

/-- The word is a `jalr` with a `funct3` that no instruction has. -/
def LooseJalr (v : Word) : Prop :=
  (v.extractLsb' 0 7).toNat = 0x67 ∧ (v.extractLsb' 12 3).toNat ≠ 0

instance (v : Word) : Decidable (LooseJalr v) := inferInstanceAs (Decidable (_ ∧ _))

/-- The decoder accepts the words of the table and, without looking at `funct3`, every word with the opcode of
`jalr`. -/
theorem opcode_accepted {pc v : Word} {hasException : Bool} (h : (Decode.decodeWord pc v hasException).valid = true) :
    Encoded v ∨ LooseJalr v := by
  have accepted : ∀ d, Decode.Outcome pc (!hasException) v d → d.valid = true → Encoded v ∨ LooseJalr v := by
    rintro _ (⟨e, he, hm, _⟩ | _) hv
    · have table : ∀ e ∈ rows, e.op = .jalr → e.fixed = [opc 0x67, f3 0] := by decide
      obtain hm | ⟨hop, ho⟩ := hm
      · exact .inl ⟨e, he, hm⟩
      · by_cases h3 : (v.extractLsb' 12 3).toNat = 0
        · refine .inl ⟨e, he, ?_⟩
          rw [Encoding.Matches, table e he hop]
          exact List.forall_mem_cons.mpr ⟨ho, List.forall_mem_singleton.mpr h3⟩
        · exact .inr ⟨ho, h3⟩
    · cases hv
  exact accepted _ (Decode.outcome_opcode pc (!hasException) v) h

/-! ## The decoder and the table

Both directions together. -/

/-- Outside the `jalr` opcode with a reserved `funct3`, the decoder marks a word valid exactly when
it is in the table, with `fence.i` in the form whose reserved fields are zero; and the operation,
unit, registers, CSR address and immediate it then puts out are those of the row. -/
theorem decodeWord_exact (pc v : Word) (hv : ¬ LooseJalr v) :
    ((Decode.decodeWord pc v false).valid = true ↔ Encoded v) ∧
      ∀ e ∈ fenceIZero :: baseEncodings, e.Matches v →
        e.Agrees v (Decode.decodeWord pc v false) := by
  refine ⟨⟨fun h => ?_, fun ⟨e, he, hm⟩ => (encodings_decoded he pc v hm).1⟩,
    fun e he hm => (encodings_decoded he pc v hm).2⟩
  exact (opcode_accepted h).resolve_right hv

/-- `addi x1, x0, 5`. -/
theorem decodeWord_exact_addi : ¬ LooseJalr 0x00500093 ∧
    (immRow .addi .add 0).Agrees 0x00500093 (Decode.decodeWord 0 0x00500093 false) :=
  ⟨by decide, (decodeWord_exact 0 0x00500093 (by decide)).2 _ (by decide) (by decide)⟩

/-- The listing of `fence.i` matches `0x0010100f`, whose immediate field is 1, and the decoder
rejects it; no listing, of whichever form, matches `0x00001067`, and the decoder takes it as a
`jalr`. -/
theorem decodeWord_not_exact :
    (fenceI.Matches 0x0010100f ∧ (Decode.decodeWord 0 0x0010100f false).valid = false) ∧
      (∀ e ∈ fenceI :: baseEncodings, ¬ e.Matches 0x00001067) ∧
        (Decode.decodeWord 0 0x00001067 false).valid = true := by
  decide

end MyRiscvCore
