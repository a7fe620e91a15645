import MyRiscvCore.Refine.Invariant

/-!
# MyRiscvCore — what the execute stage does in a cycle

Outside a flush every unit takes the pack at the head of its FIFO (the LSU the one it holds, if any)
and puts out its result, except for a store that finds the store buffer full. `ExecSpec` says which
packs are done, with which results, and what is left.
-/

namespace MyRiscvCore

variable {fifo : Fifo IssueExecutePack} {bus : Bus}
  {sb : StoreBuffer} {p : IssueExecutePack} {hold : Option IssueExecutePack}

namespace Execute

/-- What is not empty can be popped, so that the assertion holds. -/
theorem takePack_eq (h : fifo.WF) (file : SourceFile) :
    takePack file fifo = .ok fifo.pop := by
  unfold takePack
  cases he : fifo.isEmpty with
  | true =>
    rw [Fifo.pop_eq_none he]
    rfl
  | false =>
    rw [h.pop_eq he]
    rfl

/-- Outside a flush a unit answers for the pack at the head of its FIFO. -/
theorem runUnit_eq (h : fifo.WF) (file : SourceFile)
    (f : IssueExecutePack → ExecuteWbPack) :
    runUnit file f fifo false = .ok (fifo.drop1, (fifo.toList.head?.map f).getD default) := by
  simp only [runUnit, takePack_eq h, Fifo.drop1, Bool.false_eq_true, if_false]
  by_cases hc : 0 < fifo.count
  · rw [h.pop_eq (h.isEmpty_eq_false.mpr hc), h.toList_popped hc]
    rfl
  · have hz : fifo.count = 0 := by omega
    rw [Fifo.pop_eq_none (h.isEmpty_iff.mpr hz), Fifo.toList_eq_nil hz]
    rfl

/-- What the LSU does with the pack it looks at: put out a result, or hold it. -/
inductive LsuStep (bus : Bus) (sb : StoreBuffer) (p : IssueExecutePack) :
    ExecuteWbPack → Option IssueExecutePack → List StoreBufferItem → Prop
  /-- An invalid operation or an exception passes. -/
  | pass (h : (p.enable && p.valid && !p.hasException) = false) : LsuStep bus sb p (base p) none []
  | hold (h : (p.enable && p.valid && !p.hasException) = true)
      (hs : Issue.isStore (Issue.lsuOpOf p.subOp) = true) (hf : sb.isFull = true) :
      LsuStep bus sb p { base p with enable := false } (some p) []
  | store (h : (p.enable && p.valid && !p.hasException) = true)
      (hs : Issue.isStore (Issue.lsuOpOf p.subOp) = true) (hf : sb.isFull = false) :
      LsuStep bus sb p (base p) none [storeItem (Issue.lsuOpOf p.subOp) p]
  | load (h : (p.enable && p.valid && !p.hasException) = true)
      (hs : Issue.isStore (Issue.lsuOpOf p.subOp) = false) {v : Word}
      (hv : loadValue bus sb (Issue.lsuOpOf p.subOp) p.lsuAddr = .ok v) :
      LsuStep bus sb p { base p with rdValue := v } none []

/-- The two steps of the LSU for one pack. -/
theorem lsu_step (bus : Bus) (sb : StoreBuffer)
    (hload : (p.enable && p.valid && !p.hasException) = true →
      Issue.isStore (Issue.lsuOpOf p.subOp) = false →
      ∃ v, loadValue bus sb (Issue.lsuOpOf p.subOp) p.lsuAddr = .ok v) :
    ∃ r hold pushes, lsu bus sb p = .ok (r, hold, pushes) ∧ LsuStep bus sb p r hold pushes := by
  unfold lsu
  cases h : p.enable && p.valid && !p.hasException with
  | false => exact ⟨_, _, _, rfl, .pass h⟩
  | true =>
    cases hs : Issue.isStore (Issue.lsuOpOf p.subOp) with
    | true =>
      cases hf : sb.isFull with
      | true =>
        refine ⟨_, _, _, ?_, .hold h hs hf⟩
        simp only [hs, if_true]
        rfl
      | false =>
        refine ⟨_, _, _, ?_, .store h hs hf⟩
        simp only [hs, if_true, Bool.false_eq_true, if_false]
        rfl
    | false =>
      obtain ⟨v, hv⟩ := hload h hs
      refine ⟨_, _, _, ?_, .load h hs hv⟩
      simp only [hs, if_true, Bool.false_eq_true, if_false, hv]
      rfl

end Execute

/-- A result carries its operation; an exception or the prediction fields of a CSR instruction aside. -/
structure SameOp (p : ReadregIssueOp) (r : ExecuteWbPack) : Prop where
  info : r.toDecodeInfo = p.toDecodeInfo
  robId : r.robId = p.robId
  rdPhy : r.rdPhy = p.rdPhy
  src1 : r.src1Value = p.src1Value
  src2 : r.src2Value = p.src2Value
  predict : p.opUnit = .bru → r.toPredictInfo = p.toPredictInfo

theorem SameOp.base (p : IssueExecutePack) : SameOp p.toReadregIssueOp (Execute.base p) :=
  ⟨rfl, rfl, rfl, rfl, rfl, fun _ => rfl⟩

/-- Every unit copies the operation into its result. -/
theorem UnitResult.sameOp {r : ExecuteWbPack} (h : UnitResult p r) :
    SameOp p.toReadregIssueOp r := by
  unfold UnitResult at h
  -- every unit copies the operation into its result
  cases hu : p.opUnit <;> simp only [hu] at h
  case alu =>
    subst h
    unfold Execute.alu
    split_ifs
    · exact ⟨rfl, rfl, rfl, rfl, rfl, fun _ => rfl⟩
    · cases Execute.aluOpOf p.subOp <;> exact ⟨rfl, rfl, rfl, rfl, rfl, fun _ => rfl⟩
    · exact .base p
  case mul =>
    subst h
    unfold Execute.mul
    split_ifs
    · exact ⟨rfl, rfl, rfl, rfl, rfl, fun _ => rfl⟩
    · exact .base p
  case div =>
    subst h
    unfold Execute.div
    split_ifs
    · exact ⟨rfl, rfl, rfl, rfl, rfl, fun _ => rfl⟩
    · exact .base p
  case lsu =>
    obtain ⟨v, rfl⟩ := h
    exact ⟨rfl, rfl, rfl, rfl, rfl, fun _ => rfl⟩
  case bru =>
    obtain ⟨mepc, rfl⟩ := h
    unfold Execute.bru
    split_ifs <;> exact ⟨rfl, rfl, rfl, rfl, rfl, fun _ => rfl⟩
  case csr =>
    obtain ⟨file, rfl⟩ := h
    have hne : p.opUnit ≠ .bru := by simp [hu]
    unfold Execute.csr
    cases file.read p.csr <;> simp only <;> split_ifs <;>
      exact ⟨rfl, rfl, rfl, rfl, rfl, fun h => absurd h hne⟩

/-! ## One cycle

Each unit takes the pack at the front of its FIFO; the LSU needs a second cycle and holds the pack in between. -/

/-- The result of a pack that is done in this cycle. -/
def DoneOk (csr : Csrfile) (bus : Bus) (sb : StoreBuffer) (p : IssueExecutePack)
    (r : ExecuteWbPack) : Prop :=
  match p.opUnit with
  | .alu => r = Execute.alu p
  | .mul => r = Execute.mul p
  | .div => r = Execute.div p
  | .bru => r = Execute.bru (csr.value csrMepc) p
  | .csr => r = Execute.csr csr p
  | .lsu => ∃ pushes, Execute.LsuStep bus sb p r none pushes

/-- What a unit puts out is a result of the pack. -/
theorem DoneOk.unitResult {csr : Csrfile}
    {r : ExecuteWbPack} (h : DoneOk csr bus sb p r) : UnitResult p r := by
  unfold DoneOk at h
  unfold UnitResult
  cases hu : p.opUnit <;> simp only [hu] at h ⊢
  case bru => exact ⟨_, h⟩
  case csr => exact ⟨_, h⟩
  case lsu =>
    obtain ⟨pushes, h⟩ := h
    cases h with
    | pass => exact ⟨0, rfl⟩
    | store => exact ⟨0, rfl⟩
    | load _ _ _ => exact ⟨_, rfl⟩
  all_goals exact h

/-- What the execute stage does outside a flush: the packs `done` get their results, the others
stay. -/
structure ExecSpec (csr : Csrfile) (bus : Bus) (sb : StoreBuffer) (fifos : UnitFifos)
    (hold : Option IssueExecutePack) (ex : Execute.Out)
    (done : List (IssueExecutePack × ExecuteWbPack)) : Prop where
  perm : (unitPacks fifos hold).Perm (done.map Prod.fst ++ unitPacks ex.fifos ex.hold)
  enabled : ex.ports.filter (·.enable) = done.map Prod.snd
  length : ex.ports.length = executeUnitNum
  result : ∀ x ∈ done, DoneOk csr bus sb x.1 x.2
  lsu : hold.toList ++ (fifos .lsu 0).toList =
    ((done.map Prod.fst).filter (isLsu ·.toDecodeInfo)) ++
      (ex.hold.toList ++ (ex.fifos .lsu 0).toList)
  pushes : (∃ x ∈ done, x.1.opUnit = .lsu ∧ Execute.LsuStep bus sb x.1 x.2 none ex.pushes ∧
      ∀ y ∈ done, y.1.opUnit = .lsu → y = x) ∨
    (ex.pushes = [] ∧ ∀ x ∈ done, x.1.opUnit ≠ .lsu)
  wf : ∀ u i, (ex.fifos u i).WF
  save : ∀ u i, (ex.fifos u i).popStatusSave = false
  sub : ∀ u i, ∀ p ∈ (ex.fifos u i).toList, p ∈ (fifos u i).toList
  size : ∀ u i, (ex.fifos u i).size = (fifos u i).size
  holdOp : ∀ p, ex.hold = some p → p.opUnit = .lsu
  tail : ∀ s ∈ unitSlots, s.1 ≠ .lsu → (ex.fifos s.1 s.2).toList = (fifos s.1 s.2).toList.tail
  head : ∀ p ps, hold.toList ++ (fifos .lsu 0).toList = p :: ps →
    p ∈ done.map Prod.fst ∨ sb.isFull = true ∧ ex.hold = some p

theorem ExecSpec.ports {csr : Csrfile} {fifos : UnitFifos}
    {ex : Execute.Out} {done : List (IssueExecutePack × ExecuteWbPack)}
    (h : ExecSpec csr bus sb fifos hold ex done) (r : ExecuteWbPack) :
    (r ∈ ex.ports ∧ r.enable = true) ↔ ∃ p, (p, r) ∈ done := by
  have hmem : r ∈ ex.ports.filter (·.enable) ↔ r ∈ done.map Prod.snd := by rw [h.enabled]
  simpa using hmem

namespace Execute

/-- The pack a unit finishes, with its result. -/
def slotDone (f : IssueExecutePack → ExecuteWbPack) (fifo : Fifo IssueExecutePack) :
    List (IssueExecutePack × ExecuteWbPack) :=
  (fifo.toList.head?.map fun p => (p, f p)).toList

/-- One single-cycle unit. -/
theorem slotDone_spec {f : IssueExecutePack → ExecuteWbPack}
    (hf : ∀ p ∈ fifo.toList, (f p).enable = true) :
    fifo.toList = (slotDone f fifo).map Prod.fst ++ fifo.toList.tail ∧
    [(fifo.toList.head?.map f).getD default].filter (·.enable) = (slotDone f fifo).map Prod.snd ∧
    ∀ x ∈ slotDone f fifo, x.1 ∈ fifo.toList ∧ x.2 = f x.1 := by
  unfold slotDone
  cases hl : fifo.toList with
  | nil => exact ⟨rfl, rfl, by simp⟩
  | cons p ps =>
    have hen : (f p).enable = true := hf p (by rw [hl]; exact List.mem_cons_self)
    exact ⟨rfl, List.filter_cons_of_pos hen, by simp⟩

/-- The LSU does not abort. -/
theorem runLsu_spec (h : fifo.WF)
    (hload : ∀ p ∈ hold.toList ++ fifo.toList, (p.enable && p.valid && !p.hasException) = true →
      Issue.isStore (Issue.lsuOpOf p.subOp) = false →
      ∃ v, loadValue bus sb (Issue.lsuOpOf p.subOp) p.lsuAddr = .ok v) :
    ∃ out, runLsu bus sb fifo hold false = .ok out ∧ (out.fifo = fifo ∨ out.fifo = fifo.drop1) ∧
      ((hold.toList ++ fifo.toList = [] ∧ out = ⟨fifo, none, default, []⟩) ∨
        ∃ p, hold.toList ++ fifo.toList = p :: out.fifo.toList ∧
          LsuStep bus sb p out.port out.hold out.pushes) := by
  cases hold with
  -- a store that found the buffer full is tried again
  | some p =>
    obtain ⟨r, hold', pushes, heq, hstep⟩ := lsu_step bus sb
      (hload p (by simp))
    refine ⟨⟨fifo, hold', r, pushes⟩, ?_, .inl rfl, .inr ⟨p, rfl, hstep⟩⟩
    simp only [runLsu, heq]
    rfl
  | none =>
    by_cases hc : 0 < fifo.count
    · have hlist := h.toList_popped hc
      obtain ⟨r, hold', pushes, heq, hstep⟩ := lsu_step bus sb
        (hload (fifo.buffer fifo.rptr) (by simp [hlist]))
      refine ⟨⟨fifo.popped, hold', r, pushes⟩, ?_, .inr (h.drop1_eq hc).symm,
        .inr ⟨_, by simpa using hlist, hstep⟩⟩
      simp only [runLsu, takePack_eq h, h.pop_eq (h.isEmpty_eq_false.mpr hc), bind, Except.bind, heq]
      rfl
    · have hz : fifo.count = 0 := by omega
      refine ⟨⟨fifo, none, default, []⟩, ?_, .inl rfl, .inl ⟨?_, rfl⟩⟩
      · simp only [runLsu, takePack_eq h, Fifo.pop_eq_none (h.isEmpty_iff.mpr hz)]
        rfl
      · simp [Fifo.toList_eq_nil hz]

/-- A FIFO stays well-formed and gets no new pack. -/
structure Kept (old new : Fifo IssueExecutePack) : Prop where
  wf : new.WF
  save : new.popStatusSave = false
  sub : ∀ p ∈ new.toList, p ∈ old.toList
  size : new.size = old.size

theorem Kept.drop1 {f : Fifo IssueExecutePack} (hwf : f.WF) (hsave : f.popStatusSave = false) :
    Kept f f.drop1 where
  wf := hwf.drop1
  save := by rw [Fifo.popStatusSave_drop1, hsave]
  sub := fun p hp => by
    rw [hwf.toList_drop1] at hp
    exact List.mem_of_mem_tail hp
  size := f.size_drop1

theorem Kept.set {old new : UnitFifos} (h : ∀ u i, Kept (old u i) (new u i)) {u₀ : OpUnit} {i₀ : Nat}
    {f : Fifo IssueExecutePack} (hf : Kept (old u₀ i₀) f) :
    ∀ u i, Kept (old u i) (new.set u₀ i₀ f u i) := by
  intro u i
  unfold UnitFifos.set
  by_cases hu : u = u₀
  · subst hu
    rw [Function.update_self]
    by_cases hi : i = i₀
    · subst hi
      rwa [Function.update_self]
    · rw [Function.update_of_ne hi]
      exact h u i
  · rw [Function.update_of_ne hu]
    exact h u i

/-- The pack the LSU finishes, with its result. -/
def lsuDone (packs : List IssueExecutePack) (out : LsuOut) :
    List (IssueExecutePack × ExecuteWbPack) :=
  if out.hold.isNone then (packs.head?.map fun p => (p, out.port)).toList else []

/-- It finishes one pack at most. -/
theorem lsuDone_unique {packs : List IssueExecutePack} {out : LsuOut}
    {x y : IssueExecutePack × ExecuteWbPack} (hx : x ∈ lsuDone packs out)
    (hy : y ∈ lsuDone packs out) : x = y := by
  unfold lsuDone at hx hy
  split at hx
  · rename_i h
    rw [if_pos h] at hy
    rw [Option.mem_toList] at hx hy
    exact Option.some.inj (hx.symm.trans hy)
  · cases hx

/-- Which is the one that it held. -/
theorem lsuDone_spec {out : LsuOut}
    (hen : ∀ p ∈ hold.toList ++ fifo.toList, p.enable = true)
    (h : (hold.toList ++ fifo.toList = [] ∧ out = ⟨fifo, none, default, []⟩) ∨
      ∃ p, hold.toList ++ fifo.toList = p :: out.fifo.toList ∧
        LsuStep bus sb p out.port out.hold out.pushes) :
    hold.toList ++ fifo.toList = (lsuDone (hold.toList ++ fifo.toList) out).map Prod.fst ++
      (out.hold.toList ++ out.fifo.toList) ∧
    [out.port].filter (·.enable) = (lsuDone (hold.toList ++ fifo.toList) out).map Prod.snd ∧
    (∀ x ∈ lsuDone (hold.toList ++ fifo.toList) out, x.1 ∈ hold.toList ++ fifo.toList ∧
      LsuStep bus sb x.1 x.2 none out.pushes) ∧
    (lsuDone (hold.toList ++ fifo.toList) out = [] → out.pushes = []) ∧
    (∀ p, out.hold = some p → p ∈ hold.toList ++ fifo.toList) ∧
    ∀ p ps, hold.toList ++ fifo.toList = p :: ps →
      p ∈ (lsuDone (hold.toList ++ fifo.toList) out).map Prod.fst ∨ sb.isFull = true ∧ out.hold = some p := by
  obtain ⟨hnil, rfl⟩ | ⟨p, hcons, hstep⟩ := h
  · rw [hnil]
    have hf : fifo.toList = [] := (List.append_eq_nil_iff.mp hnil).2
    exact ⟨by simp [lsuDone, hf], rfl, by simp [lsuDone], by simp, by simp, by simp⟩
  · have hpen : p.enable = true := hen p (by rw [hcons]; simp)
    rw [hcons]
    obtain ⟨rest, held, port, pushes⟩ := out
    -- a pack that is not held is done
    have hdone : LsuStep bus sb p port none pushes → port.enable = true →
        [port].filter (·.enable) =
          (lsuDone (p :: rest.toList) ⟨rest, none, port, pushes⟩).map Prod.snd ∧
        ∀ x ∈ lsuDone (p :: rest.toList) ⟨rest, none, port, pushes⟩, x.1 ∈ p :: rest.toList ∧
          LsuStep bus sb x.1 x.2 none pushes := by
      intro hs he
      have hd : lsuDone (p :: rest.toList) ⟨rest, none, port, pushes⟩ = [(p, port)] := rfl
      rw [hd]
      refine ⟨List.filter_cons_of_pos he, fun x hx => ?_⟩
      rw [List.mem_singleton] at hx
      subst hx
      exact ⟨List.mem_cons_self, hs⟩
    have hfirst {port : ExecuteWbPack} {held : Option IssueExecutePack} {pushes : List StoreBufferItem}
        (p' : IssueExecutePack) (ps : List IssueExecutePack) (hp' : p :: rest.toList = p' :: ps) :
        p' ∈ (lsuDone (p :: rest.toList) ⟨rest, none, port, pushes⟩).map Prod.fst ∨
          sb.isFull = true ∧ held = some p' := by
      obtain ⟨rfl, -⟩ := List.cons.inj hp'
      exact .inl (by simp [lsuDone])
    cases hstep with
    | pass h =>
      obtain ⟨h1, h2⟩ := hdone (.pass h) hpen
      exact ⟨rfl, h1, h2, by simp [lsuDone], by simp, hfirst⟩
    | store h hs hf =>
      obtain ⟨h1, h2⟩ := hdone (.store h hs hf) hpen
      exact ⟨rfl, h1, h2, by simp [lsuDone], by simp, hfirst⟩
    | load h hs hv =>
      obtain ⟨h1, h2⟩ := hdone (.load h hs hv) hpen
      exact ⟨rfl, h1, h2, by simp [lsuDone], by simp, hfirst⟩
    | hold h hs hf =>
      exact ⟨rfl, rfl, by simp [lsuDone], by simp, by simp,
        fun p' ps hp' => .inr ⟨hf, by rw [(List.cons.inj hp').1]⟩⟩

end Execute

section Flow

variable {csr : Csrfile} {bus : Bus} {sb : StoreBuffer} {fifos : UnitFifos}
  {hold : Option IssueExecutePack}

/-- The execute stage outside a flush. -/
theorem execute_flow_spec (hwf : ∀ u i, (fifos u i).WF)
    (hsave : ∀ u i, (fifos u i).popStatusSave = false)
    (hop : ∀ u i, ∀ p ∈ (fifos u i).toList, p.opUnit = u)
    (hholdOp : ∀ p, hold = some p → p.opUnit = .lsu)
    (henable : ∀ p ∈ unitPacks fifos hold, p.enable = true)
    (hload : ∀ p ∈ hold.toList ++ (fifos .lsu 0).toList,
      (p.enable && p.valid && !p.hasException) = true →
      Issue.isStore (Issue.lsuOpOf p.subOp) = false →
      ∃ v, Execute.loadValue bus sb (Issue.lsuOpOf p.subOp) p.lsuAddr = .ok v)
    (predictor : BranchPredictor) (cpb : Fifo Checkpoint) {fb : CommitFeedbackPack}
    (hfb : fb.flushing = false) :
    ∃ ex done, Execute.run fifos hold csr bus sb predictor cpb fb = .ok ex ∧
      ExecSpec csr bus sb fifos hold ex done := by
  have hslots : ∀ s ∈ unitSlots, ∀ p ∈ (fifos s.1 s.2).toList, p.enable = true := by
    intro s hs p hp
    exact henable p (List.mem_append_right _ (List.mem_flatMap.mpr ⟨s, hs, hp⟩))
  have hlsuEn : ∀ p ∈ hold.toList ++ (fifos .lsu 0).toList, p.enable = true := by
    intro p hp
    rw [List.mem_append] at hp
    obtain hp | hp := hp
    · exact henable p (List.mem_append_left _ hp)
    · exact hslots (.lsu, 0) (by decide) p hp
  have hlsuOp : ∀ p ∈ hold.toList ++ (fifos .lsu 0).toList, p.opUnit = .lsu := by
    intro p hp
    rw [List.mem_append] at hp
    obtain hp | hp := hp
    · exact hholdOp p (by simpa using hp)
    · exact hop .lsu 0 p hp
  -- the result of a unit is enabled, since it carries the pack's operation
  have hen : ∀ {u i} (f : IssueExecutePack → ExecuteWbPack), (u, i) ∈ unitSlots →
      (∀ p, p.opUnit = u → UnitResult p (f p)) → ∀ p ∈ (fifos u i).toList, (f p).enable = true := by
    intro u i f hs hf p hp
    have hinfo := (hf p (hop u i p hp)).sameOp.info
    calc (f p).enable = p.enable := congrArg DecodeInfo.enable hinfo
      _ = true := hslots (u, i) hs p hp
  have halu : ∀ p : IssueExecutePack, p.opUnit = .alu → UnitResult p (Execute.alu p) :=
    fun p h => by simp [UnitResult, h]
  have hbru : ∀ p : IssueExecutePack, p.opUnit = .bru →
      UnitResult p (Execute.bru (csr.value csrMepc) p) := fun p h => by
    simp only [UnitResult, h]
    exact ⟨_, rfl⟩
  have hcsr : ∀ p : IssueExecutePack, p.opUnit = .csr → UnitResult p (Execute.csr csr p) :=
    fun p h => by
      simp only [UnitResult, h]
      exact ⟨_, rfl⟩
  have hdiv : ∀ p : IssueExecutePack, p.opUnit = .div → UnitResult p (Execute.div p) :=
    fun p h => by simp [UnitResult, h]
  have hmul : ∀ p : IssueExecutePack, p.opUnit = .mul → UnitResult p (Execute.mul p) :=
    fun p h => by simp [UnitResult, h]
  obtain ⟨a1, a2, a3⟩ := Execute.slotDone_spec (hen _ (i := 0) (by decide) halu)
  obtain ⟨b1, b2, b3⟩ := Execute.slotDone_spec (hen _ (i := 1) (by decide) halu)
  obtain ⟨c1, c2, c3⟩ := Execute.slotDone_spec (hen _ (i := 0) (by decide) hbru)
  obtain ⟨d1, d2, d3⟩ := Execute.slotDone_spec (hen _ (i := 0) (by decide) hcsr)
  obtain ⟨e1, e2, e3⟩ := Execute.slotDone_spec (hen _ (i := 0) (by decide) hdiv)
  obtain ⟨f1, f2, f3⟩ := Execute.slotDone_spec (hen _ (i := 0) (by decide) hmul)
  obtain ⟨g1, g2, g3⟩ := Execute.slotDone_spec (hen _ (i := 1) (by decide) hmul)
  obtain ⟨out, hout, hfifo, hcase⟩ := Execute.runLsu_spec (hwf .lsu 0) hload
  obtain ⟨l1, l2, l3, l4, l5, l6⟩ := Execute.lsuDone_spec hlsuEn hcase
  have hmepc : csr.readSys csrMepc = .ok (csr.value csrMepc) := rfl
  have htail : ∀ u i, ((fifos u i).drop1).toList = (fifos u i).toList.tail := fun u i =>
    (hwf u i).toList_drop1
  obtain ⟨F, hF⟩ : ∃ F : UnitFifos, F = ((((((((fifos.set .alu 0 (fifos .alu 0).drop1).set .alu 1
    (fifos .alu 1).drop1).set .bru 0 (fifos .bru 0).drop1).set .csr 0 (fifos .csr 0).drop1).set .div 0
    (fifos .div 0).drop1).set .lsu 0 out.fifo).set .mul 0 (fifos .mul 0).drop1).set .mul 1
    (fifos .mul 1).drop1) := ⟨_, rfl⟩
  have hslot : (F .alu 0 = (fifos .alu 0).drop1 ∧ F .alu 1 = (fifos .alu 1).drop1 ∧
      F .bru 0 = (fifos .bru 0).drop1 ∧ F .csr 0 = (fifos .csr 0).drop1 ∧
      F .div 0 = (fifos .div 0).drop1 ∧ F .lsu 0 = out.fifo ∧ F .mul 0 = (fifos .mul 0).drop1 ∧
      F .mul 1 = (fifos .mul 1).drop1) := by
    subst hF
    simp [UnitFifos.set]
  obtain ⟨s0, s1, s2, s3, s4, s5, s6, s7⟩ := hslot
  have hkeep : ∀ u i, Execute.Kept (fifos u i) (F u i) := by
    have hdrop : ∀ u i, Execute.Kept (fifos u i) (fifos u i).drop1 := fun u i =>
      .drop1 (hwf u i) (hsave u i)
    have hsame : ∀ u i, Execute.Kept (fifos u i) (fifos u i) := fun u i =>
      ⟨hwf u i, hsave u i, fun _ hp => hp, rfl⟩
    have hl : Execute.Kept (fifos .lsu 0) out.fifo := by
      obtain h | h := hfifo <;> rw [h]
      · exact hsame _ _
      · exact hdrop _ _
    rw [hF]
    exact .set (.set (.set (.set (.set (.set (.set (.set hsame (hdrop _ _)) (hdrop _ _)) (hdrop _ _))
      (hdrop _ _)) (hdrop _ _)) hl) (hdrop _ _)) (hdrop _ _)
  obtain ⟨ex, hex⟩ : ∃ ex : Execute.Out, ex = {
      fifos := F, hold := out.hold
      ports := [((fifos .alu 0).toList.head?.map Execute.alu).getD default,
        ((fifos .alu 1).toList.head?.map Execute.alu).getD default,
        ((fifos .bru 0).toList.head?.map (Execute.bru (csr.value csrMepc))).getD default,
        ((fifos .csr 0).toList.head?.map (Execute.csr csr)).getD default,
        ((fifos .div 0).toList.head?.map Execute.div).getD default, out.port,
        ((fifos .mul 0).toList.head?.map Execute.mul).getD default,
        ((fifos .mul 1).toList.head?.map Execute.mul).getD default]
      pushes := out.pushes
      predictor := Execute.bruGuess predictor cpb
        (((fifos .bru 0).toList.head?.map (Execute.bru (csr.value csrMepc))).getD default) } :=
    ⟨_, rfl⟩
  refine ⟨ex, Execute.slotDone Execute.alu (fifos .alu 0) ++
    (Execute.slotDone Execute.alu (fifos .alu 1) ++
    (Execute.slotDone (Execute.bru (csr.value csrMepc)) (fifos .bru 0) ++
    (Execute.slotDone (Execute.csr csr) (fifos .csr 0) ++
    (Execute.slotDone Execute.div (fifos .div 0) ++
    (Execute.lsuDone (hold.toList ++ (fifos .lsu 0).toList) out ++
    (Execute.slotDone Execute.mul (fifos .mul 0) ++
    Execute.slotDone Execute.mul (fifos .mul 1))))))), ?_, ?_⟩
  · simp only [Execute.run, hmepc, hfb, Execute.runUnit_eq (hwf _ _), hout, hex, hF]
    rfl
  · -- only the LSU finishes loads and stores
    have hnone : ∀ {f : IssueExecutePack → ExecuteWbPack} (u : OpUnit) (i : Nat),
        (∀ x ∈ Execute.slotDone f (fifos u i), x.1 ∈ (fifos u i).toList ∧ x.2 = f x.1) → u ≠ .lsu →
        ((Execute.slotDone f (fifos u i)).map Prod.fst).filter (isLsu ·.toDecodeInfo) = [] := by
      intro f u i h3 hu
      rw [List.filter_eq_nil_iff]
      intro p hp
      obtain ⟨x, hx, rfl⟩ := List.mem_map.mp hp
      simpa [isLsu, hop u i _ (h3 x hx).1] using hu
    subst hex
    constructor
    case perm =>
      rw [List.perm_iff_count]
      intro x
      have ha := congrArg (List.count x) a1
      have hb := congrArg (List.count x) b1
      have hc := congrArg (List.count x) c1
      have hd := congrArg (List.count x) d1
      have he := congrArg (List.count x) e1
      have hf := congrArg (List.count x) f1
      have hg := congrArg (List.count x) g1
      have hl := congrArg (List.count x) l1
      simp only [List.count_append] at ha hb hc hd he hf hg hl
      simp only [unitPacks, unitSlots, List.flatMap_cons, List.flatMap_nil, List.append_nil,
        List.map_append, List.count_append, s0, s1, s2, s3, s4, s5, s6, s7, htail]
      omega
    case enabled =>
      simp only [List.map_append, ← a2, ← b2, ← c2, ← d2, ← e2, ← f2, ← g2, ← l2, ← List.filter_append]
      rfl
    case length => rfl
    case result =>
      intro x hx
      simp only [List.mem_append] at hx
      obtain hx | hx | hx | hx | hx | hx | hx | hx := hx
      · simp only [DoneOk, hop _ _ _ (a3 x hx).1, (a3 x hx).2]
      · simp only [DoneOk, hop _ _ _ (b3 x hx).1, (b3 x hx).2]
      · simp only [DoneOk, hop _ _ _ (c3 x hx).1, (c3 x hx).2]
      · simp only [DoneOk, hop _ _ _ (d3 x hx).1, (d3 x hx).2]
      · simp only [DoneOk, hop _ _ _ (e3 x hx).1, (e3 x hx).2]
      · simp only [DoneOk, hlsuOp _ (l3 x hx).1]
        exact ⟨_, (l3 x hx).2⟩
      · simp only [DoneOk, hop _ _ _ (f3 x hx).1, (f3 x hx).2]
      · simp only [DoneOk, hop _ _ _ (g3 x hx).1, (g3 x hx).2]
    case lsu =>
      have hfilter : ((Execute.lsuDone (hold.toList ++ (fifos .lsu 0).toList) out).map
          Prod.fst).filter (isLsu ·.toDecodeInfo) =
          (Execute.lsuDone (hold.toList ++ (fifos .lsu 0).toList) out).map Prod.fst :=
        List.filter_eq_self.mpr fun p hp => by
          obtain ⟨x, hx, rfl⟩ := List.mem_map.mp hp
          simp [isLsu, hlsuOp _ (l3 x hx).1]
      simp only [List.map_append, List.filter_append, hnone _ _ a3 (by decide),
        hnone _ _ b3 (by decide), hnone _ _ c3 (by decide), hnone _ _ d3 (by decide),
        hnone _ _ e3 (by decide), hnone _ _ f3 (by decide), hnone _ _ g3 (by decide), hfilter,
        List.nil_append, List.append_nil, s5]
      exact l1
    case pushes =>
      have hlsu : ∀ {f : IssueExecutePack → ExecuteWbPack} (u : OpUnit) (i : Nat)
          (x : IssueExecutePack × ExecuteWbPack),
          (∀ x ∈ Execute.slotDone f (fifos u i), x.1 ∈ (fifos u i).toList ∧ x.2 = f x.1) →
          u ≠ .lsu → x.1.opUnit = .lsu → ¬ x ∈ Execute.slotDone f (fifos u i) :=
        fun u i x h3 hu hx hmem => hu ((hop u i _ (h3 x hmem).1).symm.trans hx)
      by_cases hd : Execute.lsuDone (hold.toList ++ (fifos .lsu 0).toList) out = []
      · refine .inr ⟨l4 hd, fun x hx hu => ?_⟩
        simp only [hd, List.mem_append, List.not_mem_nil, false_or] at hx
        obtain hx | hx | hx | hx | hx | hx | hx := hx
        · exact hlsu _ _ x a3 (by decide) hu hx
        · exact hlsu _ _ x b3 (by decide) hu hx
        · exact hlsu _ _ x c3 (by decide) hu hx
        · exact hlsu _ _ x d3 (by decide) hu hx
        · exact hlsu _ _ x e3 (by decide) hu hx
        · exact hlsu _ _ x f3 (by decide) hu hx
        · exact hlsu _ _ x g3 (by decide) hu hx
      · obtain ⟨x, hx⟩ := List.exists_mem_of_ne_nil _ hd
        refine .inl ⟨x, by simp [hx], hlsuOp _ (l3 x hx).1, (l3 x hx).2, fun y hy hu => ?_⟩
        simp only [List.mem_append] at hy
        obtain hy | hy | hy | hy | hy | hy | hy | hy := hy
        · exact (hlsu _ _ y a3 (by decide) hu hy).elim
        · exact (hlsu _ _ y b3 (by decide) hu hy).elim
        · exact (hlsu _ _ y c3 (by decide) hu hy).elim
        · exact (hlsu _ _ y d3 (by decide) hu hy).elim
        · exact (hlsu _ _ y e3 (by decide) hu hy).elim
        · exact Execute.lsuDone_unique hy hx
        · exact (hlsu _ _ y f3 (by decide) hu hy).elim
        · exact (hlsu _ _ y g3 (by decide) hu hy).elim
    case wf => exact fun u i => (hkeep u i).wf
    case save => exact fun u i => (hkeep u i).save
    case sub => exact fun u i => (hkeep u i).sub
    case size => exact fun u i => (hkeep u i).size
    case holdOp => exact fun p hp => hlsuOp p (l5 p hp)
    case tail =>
      simp only [unitSlots, List.mem_cons, List.not_mem_nil, or_false, forall_eq_or_imp, forall_eq, s0, s1, s2,
        s3, s4, s6, s7, htail]
      simp
    case head =>
      intro p ps hcons
      obtain hp | hp := l6 p ps hcons
      · refine .inl ?_
        simp only [List.map_append, List.mem_append]
        exact .inr (.inr (.inr (.inr (.inr (.inl hp)))))
      · exact .inr hp

end Flow

/-- The execute stage in a flush: no unit takes a pack, and the LSU forgets the one it holds. -/
theorem execute_flush_spec (fifos : UnitFifos) (hold : Option IssueExecutePack) (csr : Csrfile)
    (bus : Bus) (sb : StoreBuffer) (predictor : BranchPredictor) (cpb : Fifo Checkpoint)
    {fb : CommitFeedbackPack} (hfb : fb.flushing = true) :
    Execute.run fifos hold csr bus sb predictor cpb fb = .ok {
      fifos := fifos, hold := none, ports := List.replicate executeUnitNum default, pushes := []
      predictor := predictor } := by
  have hset : ∀ (u : OpUnit) (i : Nat), fifos.set u i (fifos u i) = fifos := fun u i => by
    simp [UnitFifos.set]
  have hmepc : csr.readSys csrMepc = .ok (csr.value csrMepc) := rfl
  simp only [Execute.run, hmepc, hfb, Execute.runUnit, Execute.runLsu, if_true, bind, Except.bind,
    pure, Except.pure, hset]
  rfl

end MyRiscvCore
