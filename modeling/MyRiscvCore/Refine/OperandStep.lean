import MyRiscvCore.Refine.AdvanceStep

/-!
# MyRiscvCore — where operands come from

In a cycle the value of a source register can be in the register file, on an execute channel or on a
write-back channel. `Lookup` says that what is found there is the value of the youngest older writer,
and that a value which is found nowhere has not been put out. Each of the five places of the source that
collect an operand (`readOperand`, `regfileOperand`, `captureOperand`, `selectFeedback`) is then right.
-/

namespace MyRiscvCore

/-! ## Channels

The channels carry the results of this and of the last cycle. -/

/-- The channels of a cycle. -/
def channels (executePorts executeWb : List ExecuteWbPack) : Channels :=
  (executePorts.map (·.feedback)).zip
    (executeWb.map fun p => if p.writesRd then p.feedback else default)

/-- A channel carries a register exactly if its result writes it. -/
theorem feedback_carries {r : ExecuteWbPack} {p : Nat} :
    r.feedback.carries p = true ↔ r.writesRd = true ∧ r.rdPhy = p := by
  rw [FeedbackChannel.carries, Bool.and_eq_true, beq_iff_eq, eq_comm (a := p)]
  exact Iff.rfl

theorem wbFeedback_carries {r : ExecuteWbPack} {p : Nat} :
    (if r.writesRd then r.feedback else default : FeedbackChannel).carries p = true ↔
      r.writesRd = true ∧ r.rdPhy = p := by
  cases hw : r.writesRd with
  | true => simp [feedback_carries, hw]
  | false =>
    have hoff : (default : FeedbackChannel).carries p = false := rfl
    simp [hoff]

/-- The channels carry the results that arrive in this cycle and those that arrived in the one
before. -/
structure ChannelsOk (chs : Channels) (flight : List Entry) : Prop where
  exec : ∀ p v, (∃ ch ∈ chs, ch.1.carries p = true ∧ ch.1.value = v) ↔ ∃ e ∈ flight, ∃ r,
    e.writes = true ∧ e.op.rdPhy = p ∧ e.status = .executed r ∧ r.hasException = false ∧ r.rdValue = v
  wb : ∀ p v, (∃ ch ∈ chs, ch.2.carries p = true ∧ ch.2.value = v) ↔ ∃ e ∈ flight, ∃ r,
    e.writes = true ∧ e.op.rdPhy = p ∧ e.status = .written r ∧ r.hasException = false ∧ r.rdValue = v

/-- Every value on a channel is that of an instruction in flight. -/
theorem channelsOk {C : Nat → Nat} {regs : Nat → Word} {flight : List Entry}
    {executePorts executeWb : List ExecuteWbPack} (hport : PortOk executePorts executeWb flight)
    (hfl : FlightOk C regs flight) (hlen : executePorts.length = executeWb.length) :
    ChannelsOk (channels executePorts executeWb) flight := by
  -- a result is forwarded if it is written, to the register of its entry
  have hcarry {e : Entry} {r : ExecuteWbPack} {p : Nat} (he : e ∈ flight) (hr : e.result = some r) :
      (r.writesRd = true ∧ r.rdPhy = p) ↔ e.writes = true ∧ e.op.rdPhy = p ∧ r.hasException = false := by
    obtain ⟨pre, post, rfl⟩ := List.append_of_mem he
    have hok := hfl pre e post rfl
    rw [hok.writesRd hr, (hok.resultOf hr).rdPhy, Bool.and_eq_true, Bool.not_eq_true', and_assoc]
    exact and_congr_right' and_comm
  have hfst : (channels executePorts executeWb).map Prod.fst = executePorts.map (·.feedback) :=
    List.map_fst_zip (by simp [hlen])
  have hsnd : (channels executePorts executeWb).map Prod.snd =
      executeWb.map fun p => if p.writesRd then p.feedback else default :=
    List.map_snd_zip (by simp [hlen])
  have henable : ∀ {r : ExecuteWbPack}, r.writesRd = true → r.enable = true := by
    intro r hw
    simp only [ExecuteWbPack.writesRd, Bool.and_eq_true] at hw
    exact hw.1.1.1.1
  constructor
  · intro p v
    constructor
    · rintro ⟨ch, hch, hc, hv⟩
      have hmem : ch.1 ∈ (channels executePorts executeWb).map Prod.fst := List.mem_map_of_mem hch
      rw [hfst] at hmem
      obtain ⟨r, hr, heq⟩ := List.mem_map.mp hmem
      rw [← heq, feedback_carries] at hc
      obtain ⟨e, he, hs⟩ := (hport.executed r).mp ⟨hr, henable hc.1⟩
      obtain ⟨hw, hp, hex⟩ := (hcarry he (by simp [Entry.result, hs])).mp hc
      exact ⟨e, he, r, hw, hp, hs, hex, by rw [← hv, ← heq]; rfl⟩
    · rintro ⟨e, he, r, hw, hp, hs, hex, hv⟩
      obtain ⟨hr, -⟩ := (hport.executed r).mpr ⟨e, he, hs⟩
      have hmem : r.feedback ∈ (channels executePorts executeWb).map Prod.fst := by
        rw [hfst]
        exact List.mem_map_of_mem hr
      obtain ⟨ch, hch, heq⟩ := List.mem_map.mp hmem
      refine ⟨ch, hch, ?_, by rw [heq, ← hv]; rfl⟩
      rw [heq, feedback_carries]
      exact (hcarry he (by simp [Entry.result, hs])).mpr ⟨hw, hp, hex⟩
  · intro p v
    constructor
    · rintro ⟨ch, hch, hc, hv⟩
      have hmem : ch.2 ∈ (channels executePorts executeWb).map Prod.snd := List.mem_map_of_mem hch
      rw [hsnd] at hmem
      obtain ⟨r, hr, heq⟩ := List.mem_map.mp hmem
      rw [← heq, wbFeedback_carries] at hc
      obtain ⟨e, he, hs⟩ := (hport.written r).mp ⟨hr, henable hc.1⟩
      obtain ⟨hw, hp, hex⟩ := (hcarry he (by simp [Entry.result, hs])).mp hc
      exact ⟨e, he, r, hw, hp, hs, hex, by rw [← hv, ← heq, if_pos hc.1]; rfl⟩
    · rintro ⟨e, he, r, hw, hp, hs, hex, hv⟩
      obtain ⟨hr, -⟩ := (hport.written r).mpr ⟨e, he, hs⟩
      have hc := (hcarry he (by simp [Entry.result, hs])).mpr ⟨hw, hp, hex⟩
      have hmem : r.feedback ∈ (channels executePorts executeWb).map Prod.snd := by
        rw [hsnd]
        exact List.mem_map.mpr ⟨r, hr, by rw [if_pos hc.1]⟩
      obtain ⟨ch, hch, heq⟩ := List.mem_map.mp hmem
      refine ⟨ch, hch, ?_, by rw [heq, ← hv]; rfl⟩
      rw [heq, feedback_carries]
      exact hc

/-! ## Lookup

A physical register is found on the channels, in the register file, or it is not computed yet. -/

/-- What the register file and the channels say about physical register `p` is right: `before` is the
value at the start of the cycle, if it was there, and `after` the one with the results of the cycle. -/
structure Lookup (f : Regfile) (chs : Channels) (p : Nat) (before after : Option Word) : Prop where
  lt : p < phyRegNum
  mono : ∀ v, before = some v → after = some v
  reg : f.regDataValid p = true → before = some (f.regData p)
  exec : ∀ ch ∈ chs, ch.1.carries p = true → after = some ch.1.value
  wb : ∀ ch ∈ chs, ch.2.carries p = true → after = some ch.2.value
  complete : f.regDataValid p = false →
    (∀ ch ∈ chs, ch.1.carries p = false ∧ ch.2.carries p = false) → after = none

/-- The three places agree with the value of the window. -/
theorem lookup {f : Regfile} {C : Nat → Nat} {regs : Nat → Word} {rs : List ExecuteWbPack}
    {chs : Channels} {pre post : List Entry} (hreg : RegOk f C regs (pre ++ post))
    (hok : Renaming.Ok archRegs C (renamings (pre ++ post)))
    (hlt : ∀ p ∈ Renaming.live archRegs C (renamings (pre ++ post)), p < phyRegNum)
    (hch : ChannelsOk chs ((pre ++ post).map (Entry.advance rs))) {a : Nat} (ha : a ∈ archRegs) :
    Lookup f chs (mapAt C pre a) (valueAt regs pre a)
      (valueAt regs (pre.map (Entry.advance rs)) a) := by
  have hsub : ∀ x ∈ renamings pre, x ∈ renamings (pre ++ post) := fun x hx => by
    rw [renamings_append]
    exact List.mem_append_left _ hx
  have hlive : mapAt C pre a ∈ Renaming.live archRegs C (renamings (pre ++ post)) := by
    obtain hl | ⟨x, hx, hl⟩ := Renaming.mem_live.mp
      (Renaming.mapAfter_mem_live (C := C) (l := renamings pre) ha)
    · exact Renaming.mem_live.mpr (.inl hl)
    · exact Renaming.mem_live.mpr (.inr ⟨x, hsub x hx, hl⟩)
  have hokA : Renaming.Ok archRegs C
      (renamings (pre.map (Entry.advance rs) ++ post.map (Entry.advance rs))) := by
    rwa [← List.map_append, renamings_advance]
  -- a channel that carries the register carries the value of its writer
  have hcarried : ∀ e ∈ (pre ++ post).map (Entry.advance rs), ∀ r, e.writes = true →
      e.op.rdPhy = mapAt C pre a → e.result = some r → r.hasException = false →
      valueAt regs (pre.map (Entry.advance rs)) a = some r.rdValue := by
    intro e he r hw hp hr hex
    rw [valueAt_of_rdPhy hokA ha (by rwa [← List.map_append]) hw (by rw [mapAt_advance, hp])]
    simp [Entry.value?, hr, hex]
  refine ⟨hlt _ hlive, fun v hv => valueAt_advance rs hv, ?_, ?_, ?_, ?_⟩
  · intro hv
    obtain ⟨hnone, hC⟩ | ⟨x, hx, hxp⟩ := youngest_cases C pre a
    · rw [hC, (hreg.committed a ha).2, valueAt, hnone]
    · obtain ⟨hmem, hw, -⟩ := mem_of_youngestWriter hx
      obtain ⟨hvalid, hdata⟩ := hreg.inflight x (List.mem_append_left _ hmem) hw
      rw [hxp, hvalid] at hv
      obtain ⟨v, hs⟩ := Option.isSome_iff_exists.mp hv
      rw [hxp, hdata v hs, valueAt, hx]
      simp only
      unfold Entry.stored? at hs
      unfold Entry.value? Entry.result
      cases hst : x.status <;> simp only [hst] at hs ⊢
      · simp at hs
      · simp at hs
      · simpa using hs
      · simpa using hs
  · intro ch hmem hc
    obtain ⟨e, he, r, hw, hp, hs, hex, hv⟩ := (hch.exec _ _).mp ⟨ch, hmem, hc, rfl⟩
    rw [← hv]
    exact hcarried e he r hw hp (by simp [Entry.result, hs]) hex
  · intro ch hmem hc
    obtain ⟨e, he, r, hw, hp, hs, hex, hv⟩ := (hch.wb _ _).mp ⟨ch, hmem, hc, rfl⟩
    rw [← hv]
    exact hcarried e he r hw hp (by simp [Entry.result, hs]) hex
  · intro hinv hnone
    obtain ⟨-, hC⟩ | ⟨x, hx, hxp⟩ := youngest_cases C pre a
    · rw [hC, (hreg.committed a ha).1] at hinv
      exact absurd hinv (by simp)
    · -- the youngest writer has put out nothing: else its result is in one of the three places
      obtain ⟨hmem, hw, -⟩ := mem_of_youngestWriter hx
      obtain ⟨hvalid, -⟩ := hreg.inflight x (List.mem_append_left _ hmem) hw
      rw [hxp, hvalid] at hinv
      have hmemA : x.advance rs ∈ (pre ++ post).map (Entry.advance rs) :=
        List.mem_map.mpr ⟨x, List.mem_append_left _ hmem, rfl⟩
      have hnoexec : ∀ r, (x.advance rs).status = .executed r → r.hasException = true := by
        intro r hs
        cases hex : r.hasException with
        | true => rfl
        | false =>
          obtain ⟨ch, hch', hc, -⟩ := (hch.exec _ _).mpr ⟨_, hmemA, r, hw, rfl, hs, hex, rfl⟩
          rw [Entry.op_advance, ← hxp, (hnone ch hch').1] at hc
          exact absurd hc (by simp)
      have hnowb : ∀ r, (x.advance rs).status = .written r → r.hasException = true := by
        intro r hs
        cases hex : r.hasException with
        | true => rfl
        | false =>
          obtain ⟨ch, hch', hc, -⟩ := (hch.wb _ _).mpr ⟨_, hmemA, r, hw, rfl, hs, hex, rfl⟩
          rw [Entry.op_advance, ← hxp, (hnone ch hch').2] at hc
          exact absurd hc (by simp)
      rw [valueAt, youngestWriter_advance, hx]
      simp only [Option.map_some, Entry.value?, Option.bind_eq_none_iff]
      intro r hr
      suffices hex : r.hasException = true by simp [hex]
      cases hst : x.status with
      | waiting =>
        cases hf : rs.find? fun r => r.enable && r.robId == x.op.robId with
        | none => simp [Entry.result, Entry.advance, hst, hf] at hr
        | some r' =>
          obtain rfl : r' = r := by simpa [Entry.result, Entry.advance, hst, hf] using hr
          exact hnoexec r' (by simp [Entry.advance, hst, hf])
      | executed r' =>
        obtain rfl : r' = r := by simpa [Entry.result, Entry.advance, hst] using hr
        exact hnowb r' (by simp [Entry.advance, hst])
      | written r' =>
        obtain rfl : r' = r := by simpa [Entry.result, Entry.advance, hst] using hr
        simpa [Entry.stored?, hst] using hinv
      | finished r' =>
        obtain rfl : r' = r := by simpa [Entry.result, Entry.advance, hst] using hr
        simpa [Entry.stored?, hst] using hinv

section Operand

variable {f : Regfile} {chs : Channels} {p : Nat} {before after : Option Word} {needMap loaded : Bool}
  {value v : Word}

/-- The first channel that carries the register has its value. -/
theorem Lookup.firstFeedback_some (h : Lookup f chs p before after)
    (hf : firstFeedback chs p = some v) : after = some v := by
  obtain ⟨ch, hch, hv⟩ := List.exists_of_findSome?_eq_some hf
  split_ifs at hv with h1 h2
  · rw [h.exec ch hch h1, ← hv]
  · rw [h.wb ch hch h2, ← hv]

theorem firstFeedback_none (hf : firstFeedback chs p = none) :
    ∀ ch ∈ chs, ch.1.carries p = false ∧ ch.2.carries p = false := by
  intro ch hch
  have hv := List.findSome?_eq_none_iff.mp hf ch hch
  split_ifs at hv with h1 h2
  exact ⟨by simpa using h1, by simpa using h2⟩

/-- A value that is not computed is not marked valid. -/
theorem Lookup.before_eq_none (h : Lookup f chs p before after) (hb : before = none) :
    f.regDataValid p = false := by
  cases hv : f.regDataValid p with
  | false => rfl
  | true =>
    rw [h.reg hv] at hb
    cases hb

theorem Regfile.read_eq (hp : p < phyRegNum) : f.read p = .ok (f.regData p) := by
  simp only [Regfile.read, assert_ok (decide_eq_true hp)]
  rfl

theorem Regfile.readDataValid_eq (hp : p < phyRegNum) :
    f.readDataValid p = .ok (f.regDataValid p) := by
  simp only [Regfile.readDataValid, assert_ok (decide_eq_true hp)]
  rfl

/-- Register read: the value if it is there. -/
theorem readOperand_mapped (h : Lookup f chs p before after) (src : ArgSrc) (imm : Word) :
    ∃ x, Readreg.readOperand f chs true p src imm = .ok x ∧ (x.2 = true → after = some x.1) ∧
      (x.2 = false → after = none) := by
  simp only [Readreg.readOperand, if_true, Regfile.read_eq h.lt, Regfile.readDataValid_eq h.lt, bind,
    Except.bind]
  cases hv : f.regDataValid p with
  | true => exact ⟨(f.regData p, true), rfl, fun _ => h.mono _ (h.reg hv), by simp⟩
  | false =>
    cases hf : firstFeedback chs p with
    | some v => exact ⟨(v, true), rfl, fun _ => h.firstFeedback_some hf, by simp⟩
    | none => exact ⟨(0, false), rfl, by simp, fun _ => h.complete hv (firstFeedback_none hf)⟩

/-- Insertion into the queue, the register-file part. -/
theorem regfileOperand_spec (value : Word) (loaded : Bool) (hloaded : loaded = true → before = some value)
    (hmissing : loaded = false → needMap = true ∧ Lookup f chs p before after) :
    ∃ x, Issue.regfileOperand f needMap p value loaded = .ok x ∧ (x.2 = true → before = some x.1) ∧
      (x.2 = false → loaded = false ∧ f.regDataValid p = false) := by
  unfold Issue.regfileOperand
  cases loaded with
  | true => exact ⟨(value, true), by simp, hloaded, by simp⟩
  | false =>
    obtain ⟨rfl, hl⟩ := hmissing rfl
    simp only [Bool.not_false, Bool.and_self, if_true, Regfile.readDataValid_eq hl.lt,
      Regfile.read_eq hl.lt, bind, Except.bind]
    cases hv : f.regDataValid p with
    | true => exact ⟨(f.regData p, true), rfl, fun _ => hl.reg hv, by simp⟩
    | false => exact ⟨(value, false), rfl, by simp, fun _ => ⟨trivial, rfl⟩⟩

/-- Insertion and wake-up, the channel part: a loaded operand is kept, a missing one is taken from the channels
if it is there. -/
theorem captureOperand_spec (value : Word) (loaded : Bool) (hloaded : loaded = true → after = some value)
    (hmissing : loaded = false → needMap = true ∧ Lookup f chs p before after ∧ f.regDataValid p = false) :
    ((Issue.captureOperand chs needMap p value loaded).2 = true →
      after = some (Issue.captureOperand chs needMap p value loaded).1) ∧
    ((Issue.captureOperand chs needMap p value loaded).2 = false → loaded = false ∧ after = none) := by
  unfold Issue.captureOperand
  cases loaded with
  | true => exact ⟨hloaded, by simp⟩
  | false =>
    obtain ⟨rfl, hl, hv⟩ := hmissing rfl
    simp only [Bool.not_false, Bool.and_self, if_true]
    cases hf : firstFeedback chs p with
    | some v => exact ⟨fun _ => hl.firstFeedback_some hf, by simp⟩
    | none => exact ⟨by simp, fun _ => ⟨trivial, hl.complete hv (firstFeedback_none hf)⟩⟩

/-- The fold of `selectFeedback`, from what earlier channels gave on. -/
theorem Lookup.foldl_select (h : Lookup f chs p before after) {l : Channels} (hl : ∀ ch ∈ l, ch ∈ chs)
    (found : Option Word) (hfound : ∀ v, found = some v → after = some v) :
    let res := l.foldl (fun found (ch : FeedbackChannel × FeedbackChannel) =>
      let found := if ch.1.enable && (!false && true && p == ch.1.phyId) then
          some ch.1.value else found
      if ch.2.enable && (!false && found.isNone && true && p == ch.2.phyId) then
        some ch.2.value else found) found
    (∀ v, res = some v → after = some v) ∧
      ((found.isSome = true ∨ ∃ ch ∈ l, ch.1.carries p = true) → res.isSome = true) := by
  induction l generalizing found with
  | nil => exact ⟨hfound, by simp⟩
  | cons ch l ih =>
    have hch := hl ch List.mem_cons_self
    have hl' : ∀ c ∈ l, c ∈ chs := fun c hc => hl c (List.mem_cons_of_mem _ hc)
    simp only [Bool.not_false, Bool.true_and, Bool.and_true, List.foldl_cons] at ih ⊢
    -- the execute channel overrides, write-back only fills in
    by_cases h1 : (ch.1.enable && p == ch.1.phyId) = true
    · simp only [h1, if_true, Option.isNone_some, Bool.false_and, Bool.and_false, Bool.false_eq_true,
        if_false]
      obtain ⟨ih1, ih2⟩ := ih hl' (some ch.1.value) fun v hv => by
        rw [h.exec ch hch h1]
        exact hv
      exact ⟨ih1, fun _ => ih2 (.inl rfl)⟩
    · simp only [h1, Bool.false_eq_true, if_false]
      by_cases h2 : (ch.2.enable && (found.isNone && p == ch.2.phyId)) = true
      · simp only [h2, if_true]
        obtain ⟨ih1, ih2⟩ := ih hl' (some ch.2.value) fun v hv => by
          have hc : ch.2.carries p = true := by
            simp only [Bool.and_eq_true] at h2
            simp only [FeedbackChannel.carries, Bool.and_eq_true]
            exact ⟨h2.1, h2.2.2⟩
          rw [h.wb ch hch hc]
          exact hv
        exact ⟨ih1, fun _ => ih2 (.inl rfl)⟩
      · simp only [h2, Bool.false_eq_true, if_false]
        obtain ⟨ih1, ih2⟩ := ih hl' found hfound
        refine ⟨ih1, fun hor => ih2 ?_⟩
        obtain hor | ⟨c, hc, hcar⟩ := hor
        · exact .inl hor
        · obtain rfl | hc := List.mem_cons.mp hc
          · exact absurd hcar h1
          · exact .inr ⟨c, hc, hcar⟩

/-- Selection: an operand that was taken for ready is there. -/
theorem dispatchOperand_spec (value : Word) (loaded : Bool) (hloaded : loaded = true → after = some value)
    (hmissing : loaded = false → needMap = true ∧ Lookup f chs p before after)
    (hready : Issue.sourceReady chs loaded p = true) :
    ∃ v, Issue.dispatchOperand (Issue.selectFeedback chs loaded needMap p) value loaded = (v, true) ∧
      after = some v := by
  cases loaded with
  | true => exact ⟨value, by simp [Issue.selectFeedback, Issue.dispatchOperand], hloaded rfl⟩
  | false =>
    obtain ⟨rfl, hl⟩ := hmissing rfl
    obtain ⟨hval, hsome⟩ := hl.foldl_select (fun _ hc => hc) none (by simp)
    have hany : ∃ ch ∈ chs, ch.1.carries p = true := by
      simpa [Issue.sourceReady, List.any_eq_true] using hready
    obtain ⟨v, hv⟩ := Option.isSome_iff_exists.mp (hsome (.inr hany))
    have hsel : Issue.selectFeedback chs false true p = some v := hv
    rw [hsel]
    exact ⟨v, rfl, hval v hv⟩

end Operand

/-- The lookups of the sources of an operation are right. -/
structure SourcesOk (f : Regfile) (chs : Channels) (before after : Nat → Option Word)
    (o : RenameReadregOp) : Prop where
  src1 : o.valid = true → o.rs1NeedMap = true → Lookup f chs o.rs1Phy (before o.rs1) (after o.rs1)
  src2 : o.valid = true → o.rs2NeedMap = true → Lookup f chs o.rs2Phy (before o.rs2) (after o.rs2)

section Item

variable {f : Regfile} {chs : Channels} {before after reg : Nat → Option Word} {o : RenameReadregOp}
  {i : ReadregIssueOp}

theorem operand1_mapped (hv : o.valid = true) (hn : o.rs1NeedMap = true) :
    operand1 reg o = reg o.rs1 := by
  simp [operand1, sourceValue, hv, hn]

theorem operand2_mapped (hv : o.valid = true) (hn : o.rs2NeedMap = true) :
    operand2 reg o = reg o.rs2 := by
  simp [operand2, sourceValue, hv, hn]

/-- The lookup of an operand that is missing. -/
theorem SourcesOk.lookup1 (h : SourcesOk f chs before after o) (hm : o.valid = true ∧ o.rs1NeedMap = true) :
    Lookup f chs o.rs1Phy (operand1 before o) (operand1 after o) := by
  rw [operand1_mapped hm.1 hm.2, operand1_mapped hm.1 hm.2]
  exact h.src1 hm.1 hm.2

theorem SourcesOk.lookup2 (h : SourcesOk f chs before after o) (hm : o.valid = true ∧ o.rs2NeedMap = true) :
    Lookup f chs o.rs2Phy (operand2 before o) (operand2 after o) := by
  rw [operand2_mapped hm.1 hm.2, operand2_mapped hm.1 hm.2]
  exact h.src2 hm.1 hm.2

/-- Register read of an operand: its value, or it is missing. -/
theorem readOperand_spec {valid needMap : Bool} {rs p : Nat} (hv : valid = true)
    (h : needMap = true → Lookup f chs p (before rs) (after rs)) (src : ArgSrc) (imm : Word) :
    ∃ x, Readreg.readOperand f chs needMap p src imm = .ok x ∧
      (x.2 = true → sourceValue after valid needMap rs src imm = some x.1) ∧
      (x.2 = false → needMap = true ∧ after rs = none) := by
  subst hv
  cases needMap with
  | true =>
    obtain ⟨x, hx, hl, hm⟩ := readOperand_mapped (h rfl) src imm
    exact ⟨x, hx, hl, fun hx => ⟨rfl, hm hx⟩⟩
  | false =>
    unfold Readreg.readOperand sourceValue
    by_cases himm : src = .imm
    · exact ⟨(imm, true), by simp [himm], by simp [himm], by simp⟩
    · exact ⟨(0, true), by simp [himm], by simp [himm], by simp⟩

/-- Register read of a slot. -/
theorem readOp_spec (h : SourcesOk f chs before after o) (hen : o.enable = true) :
    ∃ i, Readreg.readOp f chs o = .ok i ∧ i.toRenameReadregOp = o ∧ OperandsOk after i ∧
      Awake after i := by
  unfold Readreg.readOp
  cases hv : o.valid with
  | false =>
    refine ⟨⟨o, 0, true, 0, true⟩, by simp, rfl, ⟨fun _ => ?_, fun _ => ?_, by simp, by simp⟩,
      by simp, by simp⟩
    · simp [operand1, sourceValue, hv]
    · simp [operand2, sourceValue, hv]
  | true =>
    obtain ⟨x1, hx1, hl1, hm1⟩ := readOperand_spec hv (h.src1 hv) o.arg1Src o.imm
    obtain ⟨x2, hx2, hl2, hm2⟩ := readOperand_spec hv (h.src2 hv) o.arg2Src o.imm
    refine ⟨⟨o, x1.1, x1.2, x2.1, x2.2⟩, ?_, rfl, ⟨hl1, hl2, fun hx => ⟨hv, (hm1 hx).1⟩,
      fun hx => ⟨hv, (hm2 hx).1⟩⟩, fun hx => (hm1 hx).2, fun hx => (hm2 hx).2⟩
    simp only [hen, Bool.and_self, if_true, hx1, hx2]
    rfl

/-- The wake-up of an item whose missing operands are not in the register file. -/
theorem wakeItem_spec (h : SourcesOk f chs before after i.toRenameReadregOp)
    (hmono : ∀ a v, before a = some v → after a = some v) (hi : OperandsOk before i)
    (hreg1 : i.src1Loaded = false → f.regDataValid i.rs1Phy = false)
    (hreg2 : i.src2Loaded = false → f.regDataValid i.rs2Phy = false) :
    (Issue.wakeItem chs i).toRenameReadregOp = i.toRenameReadregOp ∧
      OperandsOk after (Issue.wakeItem chs i) ∧ Awake after (Issue.wakeItem chs i) := by
  have c1 := captureOperand_spec i.src1Value i.src1Loaded (fun hl => operand1_mono hmono (hi.loaded1 hl))
    fun hl => ⟨(hi.missing1 hl).2, h.lookup1 (hi.missing1 hl), hreg1 hl⟩
  have c2 := captureOperand_spec i.src2Value i.src2Loaded (fun hl => operand2_mono hmono (hi.loaded2 hl))
    fun hl => ⟨(hi.missing2 hl).2, h.lookup2 (hi.missing2 hl), hreg2 hl⟩
  refine ⟨rfl, ⟨c1.1, c2.1, fun hl => hi.missing1 (c1.2 hl).1, fun hl => hi.missing2 (c2.2 hl).1⟩,
    fun hl => ?_, fun hl => ?_⟩
  · obtain ⟨hv, hn⟩ := hi.missing1 (c1.2 hl).1
    exact (operand1_mapped hv hn).symm.trans (c1.2 hl).2
  · obtain ⟨hv, hn⟩ := hi.missing2 (c2.2 hl).1
    exact (operand2_mapped hv hn).symm.trans (c2.2 hl).2

/-- Insertion into the queue. -/
theorem inputItem_spec (h : SourcesOk f chs before after i.toRenameReadregOp)
    (hmono : ∀ a v, before a = some v → after a = some v) (hi : OperandsOk before i) :
    ∃ i', Issue.inputItem f chs i = .ok i' ∧ i'.toRenameReadregOp = i.toRenameReadregOp ∧
      OperandsOk after i' ∧ Awake after i' := by
  unfold Issue.inputItem
  cases hv : i.valid with
  | false =>
    refine ⟨i, rfl, rfl, hi.mono hmono, fun hl => ?_, fun hl => ?_⟩
    · exact absurd (hi.missing1 hl).1 (by simp [hv])
    · exact absurd (hi.missing2 hl).1 (by simp [hv])
  | true =>
    obtain ⟨x1, hx1, hl1, hm1⟩ := regfileOperand_spec i.src1Value i.src1Loaded hi.loaded1
      fun hl => ⟨(hi.missing1 hl).2, h.lookup1 (hi.missing1 hl)⟩
    obtain ⟨x2, hx2, hl2, hm2⟩ := regfileOperand_spec i.src2Value i.src2Loaded hi.loaded2
      fun hl => ⟨(hi.missing2 hl).2, h.lookup2 (hi.missing2 hl)⟩
    -- the item after the register-file part
    obtain ⟨j, hj⟩ : ∃ j : ReadregIssueOp, j = { i with
        src1Value := x1.1, src1Loaded := x1.2, src2Value := x2.1, src2Loaded := x2.2 } := ⟨_, rfl⟩
    have hjop : j.toRenameReadregOp = i.toRenameReadregOp := by rw [hj]
    have hjok : OperandsOk before j := by
      rw [hj]
      exact ⟨hl1, hl2, fun hx => hi.missing1 (hm1 hx).1, fun hx => hi.missing2 (hm2 hx).1⟩
    obtain ⟨hop, hok, haw⟩ := wakeItem_spec (i := j) (hjop ▸ h) hmono hjok
      (by rw [hj]; exact fun hx => (hm1 hx).2) (by rw [hj]; exact fun hx => (hm2 hx).2)
    refine ⟨Issue.wakeItem chs j, ?_, hop.trans hjop, hok, haw⟩
    simp only [if_true, hx1, hx2, hj]
    rfl

/-- The pack sent for an item that was taken for ready. -/
theorem sendPack_spec (h : SourcesOk f chs before after i.toRenameReadregOp)
    (hmono : ∀ a v, before a = some v → after a = some v) (hi : OperandsOk before i)
    (hready : (Issue.sourceReady chs i.src1Loaded i.rs1Phy &&
      Issue.sourceReady chs i.src2Loaded i.rs2Phy) = true) :
    ∃ v1 v2, Issue.dispatchOperand (Issue.selectFeedback chs i.src1Loaded i.rs1NeedMap i.rs1Phy)
        i.src1Value i.src1Loaded = (v1, true) ∧
      Issue.dispatchOperand (Issue.selectFeedback chs i.src2Loaded i.rs2NeedMap i.rs2Phy)
        i.src2Value i.src2Loaded = (v2, true) ∧
      Issue.sendPack i (v1, true) (v2, true) = packOf i.toRenameReadregOp v1 v2 ∧
      operand1 after i.toRenameReadregOp = some v1 ∧ operand2 after i.toRenameReadregOp = some v2 := by
  rw [Bool.and_eq_true] at hready
  obtain ⟨v1, hd1, ho1⟩ := dispatchOperand_spec i.src1Value i.src1Loaded
    (fun hl => operand1_mono hmono (hi.loaded1 hl))
    (fun hl => ⟨(hi.missing1 hl).2, h.lookup1 (hi.missing1 hl)⟩) hready.1
  obtain ⟨v2, hd2, ho2⟩ := dispatchOperand_spec i.src2Value i.src2Loaded
    (fun hl => operand2_mono hmono (hi.loaded2 hl))
    (fun hl => ⟨(hi.missing2 hl).2, h.lookup2 (hi.missing2 hl)⟩) hready.2
  exact ⟨v1, v2, hd1, hd2, rfl, ho1, ho2⟩

end Item

end MyRiscvCore
