import MyRiscvCore.Refine.RetireStep
import MyRiscvCore.Refine.FrontStep

/-!
# MyRiscvCore — the path behind retired instructions

Where the architecture goes on after a retired instruction (`archNext`) is where fetch went on, unless
the instruction is a jump that was predicted wrong or not at all. In these cases commit reports the
successor (`EntryOk.archNext_bru`), and fetch goes there.
-/

namespace MyRiscvCore

section Next

variable {C : Nat → Nat} {regs : Nat → Word} {e : Entry} {r : ExecuteWbPack} {mepc : Word}

/-- The operands of the oldest instruction are the committed values. -/
theorem archPack_eq {op : RenameReadregOp} {v1 v2 : Word}
    (h1 : operand1 (valueAt regs []) op = some v1) (h2 : operand2 (valueAt regs []) op = some v2) :
    archPack regs op = packOf op v1 v2 := by
  have hval : valueAt regs [] = fun a => some (regs a) := rfl
  rw [hval] at h1 h2
  simp [archPack, h1, h2]

theorem archNext_plain {op : RenameReadregOp} (h : op.opUnit ≠ .bru) :
    archNext regs mepc op = op.pc + 4 := by
  have hne : (op.opUnit == .bru) = false := by simpa using h
  simp [archNext, hne]

/-- The successor of a jump is the one its result reports. -/
theorem EntryOk.archNext_bru (h : EntryOk C regs [] e) (hr : e.result = some r)
    (hbru : e.op.opUnit = .bru) (hmret : e.op.op = .mret → r.bruNextPc = mepc) :
    archNext regs mepc e.op = if r.bruJump then r.bruNextPc else e.op.pc + 4 := by
  obtain ⟨v1, v2, h1, h2, hu⟩ := h.result r hr
  have hinfo := packOf_info e.op v1 v2
  unfold archNext
  simp only [archPack_eq h1 h2]
  generalize packOf e.op v1 v2 = p at hu hinfo ⊢
  have hunit : p.opUnit = .bru := (congrArg DecodeInfo.opUnit hinfo).trans hbru
  have hen : p.enable = true := (congrArg DecodeInfo.enable hinfo).trans h.pack.enable
  have hval : p.valid = e.op.valid := congrArg DecodeInfo.valid hinfo
  have hsub : p.subOp = e.op.subOp := congrArg DecodeInfo.subOp hinfo
  rw [UnitResult, hunit] at hu
  obtain ⟨m, rfl⟩ := hu
  rw [hbru, ← hsub]
  cases hv : e.op.valid with
  | false => simp [Execute.bru, hen, hval, hv, Execute.base]
  | true =>
    simp only [Execute.bru, hen, hval, hv, Bool.and_self, if_true, beq_self_eq_true, Bool.true_and]
      at hmret ⊢
    cases hj : Execute.bruJump (Execute.bruOpOf p.subOp) p.src1Value p.src2Value with
    | false => simp
    | true =>
      simp only [hj, if_true] at hmret ⊢
      -- only the target of `mret` depends on `mepc`
      cases hop : Execute.bruOpOf p.subOp with
      | mret =>
        have := hmret (h.pack.mret_iff.mpr ⟨hbru, hsub ▸ hop⟩)
        rw [hop] at this
        rw [this]
        rfl
      | _ => rfl

end Next

section Path

variable {regs : Nat → Word} {mepc : Word} {ret : List Entry} {f : FetchState}

/-- Fetch followed these instructions as the architecture does. -/
def Followed (regs : Nat → Word) (mepc : Word) (ret : List Entry) : Prop :=
  ∀ pre e post, ret = pre ++ e :: post → waitsFor e.op.toDecodeRenamePack = false ∧
    archNext (regsAfter regs pre) mepc e.op = pathNext e.op.toDecodeRenamePack

theorem Followed.of_append {xs ys : List Entry} (h : Followed regs mepc (xs ++ ys)) :
    Followed regs mepc xs := fun pre e post hf =>
  h pre e (post ++ ys) (by rw [hf, List.append_assoc, List.cons_append])

/-- The path goes on from the last that retires. -/
theorem PathOk.retire {w : Window} {ys : List DecodeRenamePack}
    (h : PathOk w.arch.pc (ret.map (·.op.toDecodeRenamePack) ++ ys) f)
    (hfol : Followed w.arch.regs mepc ret) : PathOk (w.retireAll mepc ret).arch.pc ys f := by
  induction ret generalizing w with
  | nil => exact h
  | cons e ret ih =>
    obtain ⟨-, hrest⟩ := h
    obtain ⟨hwait, hnext⟩ := hfol [] e ret rfl
    rw [if_neg (by simp [hwait])] at hrest
    refine ih ?_ fun pre x post hx => hfol (e :: pre) x post (by rw [hx]; rfl)
    rw [show (w.retire mepc e).arch.pc = archNext w.arch.regs mepc e.op from rfl]
    exact (show archNext w.arch.regs mepc e.op = _ from hnext) ▸ hrest

/-- An instruction that is no jump is followed. -/
theorem PackOk.follow_plain {x : DecodeRenamePack} (h : PackOk x) (hbru : x.opUnit ≠ .bru) :
    waitsFor x = false ∧ pathNext x = x.pc + 4 := by
  have hj : Fetch.isJump x.value = false := by
    rw [← Bool.not_eq_true, ← h.bru_iff]
    exact hbru
  have hp : x.predicted = false := by
    rw [← Bool.not_eq_true]
    intro hp
    rw [(h.predicted hp).2.2] at hj
    exact absurd hj (by simp)
  exact ⟨by simp [waitsFor, hj], by simp [pathNext, hp]⟩

/-- An instruction that retires is the oldest when it does. -/
theorem FlightOk.retired_entry {C : Nat → Nat} {rest pre post : List Entry} {e : Entry}
    (h : FlightOk C regs (ret ++ rest)) (hret : Retired ret) (hf : ret = pre ++ e :: post) :
    EntryOk (mapAt C pre) (regsAfter regs pre) [] e := by
  refine EntryOk.retire (fun x hx => hret x (by rw [hf]; exact List.mem_append_left _ hx)) ?_
  rw [List.append_nil]
  exact h pre e (post ++ rest) (by rw [hf]; simp)

section Stop

variable {C : Nat → Nat} {rest : List Entry} {csr : Csrfile} {ii : InterruptInterface}
  {q : Fifo RobItem} {cpb : Fifo Checkpoint} {port : List ExecuteWbPack} {perf : PerfCounters}
  {cm : Commit.Ctx} {stop : Stop}

/-- All retired instructions but a jump at the end are followed. -/
theorem CommitSpec.followed_plain (h : CommitSpec csr ii q cpb C port perf cm ret rest stop)
    (hfl : FlightOk C regs (ret ++ rest)) {pre post : List Entry} {e : Entry}
    (hf : ret = pre ++ e :: post) (hbru : e.op.opUnit ≠ .bru) :
    waitsFor e.op.toDecodeRenamePack = false ∧
      archNext (regsAfter regs pre) mepc e.op = pathNext e.op.toDecodeRenamePack := by
  obtain ⟨hwait, hnext⟩ := (hfl.retired_entry h.finished hf).pack.follow_plain hbru
  exact ⟨hwait, (archNext_plain hbru).trans hnext.symm⟩

/-- A jump that was predicted right is followed. -/
theorem CommitSpec.followed_hit (h : CommitSpec csr ii q cpb C port perf cm ret rest .hit)
    (hfl : FlightOk C regs (ret ++ rest))
    (hmret : ∀ e ∈ ret, e.op.op = .mret → ∀ r, e.result = some r → r.bruNextPc = mepc) :
    Followed regs mepc ret := by
  intro pre e post hf
  by_cases hbru : e.op.opUnit = .bru
  swap
  · exact h.followed_plain hfl hf hbru
  -- it ends the group, so it is the jump that was hit
  obtain rfl := h.inner pre e post hf hbru
  obtain ⟨x, r, hlast, hpred, hjump, hnext⟩ := h.hit rfl
  obtain rfl : x = e := by simpa [hf] using hlast.last.symm
  have hr : x.result = some r := by simp [Entry.result, hlast.status]
  have harch := (hfl.retired_entry h.finished hf).archNext_bru hr hbru
    (fun hop => hmret x (by rw [hf]; simp) hop r hr)
  refine ⟨by simp [waitsFor, hpred], harch.trans ?_⟩
  rw [pathNext, hpred, Bool.true_and, hjump]
  cases hj : x.op.predictedJump with
  | false => simp
  | true =>
    obtain hnext | hnext := hnext
    · simp [hnext]
    · rw [hj] at hnext
      exact absurd hnext (by simp)

/-- A group that no jump ends is followed. -/
theorem CommitSpec.followed (h : CommitSpec csr ii q cpb C port perf cm ret rest stop)
    (hfl : FlightOk C regs (ret ++ rest)) (hj : stop ≠ .jump) (hm : stop ≠ .miss)
    (hmret : ∀ e ∈ ret, e.op.op = .mret → ∀ r, e.result = some r → r.bruNextPc = mepc) :
    Followed regs mepc ret := by
  cases stop with
  | jump => exact absurd rfl hj
  | miss => exact absurd rfl hm
  | hit => exact h.followed_hit hfl hmret
  | interrupt =>
    intro pre e post hf
    rw [(h.interrupt rfl).1] at hf
    simp at hf
  | group =>
    intro pre e post hf
    exact h.followed_plain hfl hf (h.group (.inl rfl) e (by rw [hf]; simp))
  | exception =>
    intro pre e post hf
    exact h.followed_plain hfl hf (h.group (.inr rfl) e (by rw [hf]; simp))

/-- A jump that was not predicted, or predicted wrong, is the last that retires, and commit reports its
successor. -/
theorem CommitSpec.reported (h : CommitSpec csr ii q cpb C port perf cm ret rest stop)
    (hfl : FlightOk C regs (ret ++ rest)) (hst : stop = .jump ∨ stop = .miss)
    (hmret : ∀ e ∈ ret, e.op.op = .mret → ∀ r, e.result = some r → r.bruNextPc = mepc) :
    ∃ pre e, ret = pre ++ [e] ∧ Followed regs mepc pre ∧ e.op.opUnit = .bru ∧
      e.op.predicted = (stop = .miss : Bool) ∧ cm.fb.jumpEnable = true ∧
      cm.fb.nextPc = archNext (regsAfter regs pre) mepc e.op ∧
      (cm.fb.jump = false → cm.fb.nextPc = e.op.pc + 4) := by
  obtain ⟨e, r, hlast, hpred, hen, hjump, hnext⟩ := h.jump hst
  obtain ⟨pre, hf⟩ := List.getLast?_eq_some_iff.mp hlast.last
  have hr : e.result = some r := by simp [Entry.result, hlast.status]
  have harch := (hfl.retired_entry h.finished hf).archNext_bru hr hlast.unit
    (fun hop => hmret e (by rw [hf]; simp) hop r hr)
  refine ⟨pre, e, hf, ?_, hlast.unit, hpred, hen, hnext.trans harch.symm, fun hj => ?_⟩
  · intro pre' x post hx
    have hf' : ret = pre' ++ x :: (post ++ [e]) := by rw [hf, hx]; simp
    refine h.followed_plain hfl hf' fun hbru => ?_
    simpa using h.inner pre' x (post ++ [e]) hf' hbru
  · rw [hnext, ← hjump, hj]
    rfl

/-- Whatever ends the group, the instructions before one that retires are followed. -/
theorem CommitSpec.followed_before (h : CommitSpec csr ii q cpb C port perf cm ret rest stop)
    (hfl : FlightOk C regs (ret ++ rest))
    (hmret : ∀ e ∈ ret, e.op.op = .mret → ∀ r, e.result = some r → r.bruNextPc = mepc)
    {pre post : List Entry} {e : Entry} (hf : ret = pre ++ e :: post) : Followed regs mepc pre := by
  by_cases hst : stop = .jump ∨ stop = .miss
  · obtain ⟨pre', x, hret, hfol, -⟩ := h.reported hfl hst hmret
    rw [hret] at hf
    obtain rfl | ⟨post', y, rfl⟩ := List.eq_nil_or_concat post
    · obtain ⟨rfl, -⟩ := List.append_inj' hf rfl
      exact hfol
    · have hf' : pre' ++ [x] = (pre ++ e :: post') ++ [y] := by
        rw [hf, List.concat_eq_append, List.append_assoc, List.cons_append]
      obtain ⟨rfl, -⟩ := List.append_inj' hf' rfl
      exact hfol.of_append
  · rw [not_or] at hst
    have hfol := h.followed hfl hst.1 hst.2 hmret
    rw [hf] at hfol
    exact hfol.of_append

end Stop

end Path

end MyRiscvCore
