import MyRiscvCore.Refine.Invariant
import MyRiscvCore.Component.BusFacts

/-!
# MyRiscvCore — what decode and fetch do in a cycle

Decode moves packs from one FIFO to the next without changing the packs in front of rename
(`decodeLoop_spec`). Fetch appends packs that follow each other from its pc on, and pushes a checkpoint
for each predicted jump among them (`FetchSpec`); or the simulation ends in an assertion of the
addressed slave.
-/

namespace MyRiscvCore

/-- The path depends on two fields of the fetch state. -/
theorem PathOk.congr {pc : Word} {xs : List DecodeRenamePack} {f f' : FetchState}
    (h : PathOk pc xs f) (hpc : f'.pc = f.pc) (hw : f'.jumpWait = f.jumpWait) : PathOk pc xs f' := by
  induction xs generalizing pc with
  | nil => exact ⟨hpc.trans h.1, hw.trans h.2⟩
  | cons x xs ih =>
    obtain ⟨hx, hrest⟩ := h
    refine ⟨hx, ?_⟩
    split
    · rename_i hwait
      rw [if_pos hwait] at hrest
      exact ⟨hrest.1, hw.trans hrest.2.1, hpc.trans hrest.2.2⟩
    · rename_i hwait
      rw [if_neg hwait] at hrest
      exact ih hrest

/-- The path goes on where fetch stands. -/
theorem PathOk.append {pc : Word} {xs ys : List DecodeRenamePack} {f f' : FetchState}
    (h : PathOk pc xs f) (hw : f.jumpWait = false) (hy : PathOk f.pc ys f') :
    PathOk pc (xs ++ ys) f' := by
  induction xs generalizing pc with
  | nil => exact h.1 ▸ hy
  | cons x xs ih =>
    obtain ⟨hx, hrest⟩ := h
    refine ⟨hx, ?_⟩
    split
    · rename_i hwait
      rw [if_pos hwait] at hrest
      rw [hw] at hrest
      cases hrest.2.1
    · rename_i hwait
      rw [if_neg hwait] at hrest
      exact ih hrest

@[simp] theorem decodePack_pc (p : FetchDecodePack) : (Decode.decodePack p).pc = p.pc :=
  (Decode.sound_decodeWord p.pc p.value p.hasException).pc_eq

@[simp] theorem decodePack_value (p : FetchDecodePack) : (Decode.decodePack p).value = p.value := rfl

@[simp] theorem decodePack_predict (p : FetchDecodePack) :
    (Decode.decodePack p).toPredictInfo = p.toPredictInfo := rfl

/-- What decode does outside a flush: the packs `moved` go from one FIFO to the other. -/
structure DecodeSpec (fd : Fifo FetchDecodePack) (dr : Fifo DecodeRenamePack) (perf : PerfCounters)
    (out : Fifo FetchDecodePack × Fifo DecodeRenamePack × PerfCounters)
    (moved : List FetchDecodePack) : Prop where
  fetchDecode : out.1.SaveOk
  decodeRename : out.2.1.SaveOk
  taken : fd.toList = moved ++ out.1.toList
  sent : out.2.1.toList = dr.toList ++ moved.map Decode.decodePack
  perf : out.2.2.phyRegfileFull = perf.phyRegfileFull

/-- Decode moves packs in order, while there are some and there is room. -/
theorem decodeLoop_spec (rounds : Nat) {fd : Fifo FetchDecodePack} {dr : Fifo DecodeRenamePack}
    (perf : PerfCounters) (hfd : fd.SaveOk) (hdr : dr.SaveOk)
    (hen : ∀ p ∈ fd.toList, p.enable = true) :
    ∃ moved, DecodeSpec fd dr perf (Decode.decodeLoop rounds fd dr perf) moved := by
  induction rounds generalizing fd dr perf with
  | zero => exact ⟨[], hfd, hdr, rfl, (List.append_nil _).symm, rfl⟩
  | succ rounds ih =>
    unfold Decode.decodeLoop
    cases he : fd.isEmpty with
    | true =>
      simp only [Bool.not_true, Bool.false_and, Bool.false_eq_true, if_false]
      exact ih perf hfd hdr hen
    | false =>
      -- a full output FIFO is counted, and the loop goes on
      cases hf : dr.isFull with
      | true =>
        simp only [Bool.not_false, Bool.not_true, Bool.true_and, Bool.false_eq_true, if_false, if_true]
        obtain ⟨moved, hspec⟩ := ih
          { perf with decodeRenameFifoFull := perf.decodeRenameFifoFull + 1 } hfd hdr hen
        exact ⟨moved, hspec.fetchDecode, hspec.decodeRename, hspec.taken, hspec.sent, hspec.perf⟩
      | false =>
        obtain ⟨hpop, hnil⟩ | ⟨p, hpop, hc, hlist⟩ := hfd.wf.pop_cases
        · rw [hfd.wf.isEmpty_eq, hnil] at he
          cases he
        · have hpen : p.enable = true := hen p (by rw [hlist]; exact List.mem_cons_self)
          simp only [Bool.not_false, Bool.and_self, if_true, hpop, hpen, hdr.wf.push_eq hf,
            Option.getD_some]
          obtain ⟨moved, hspec⟩ := ih perf (hfd.popped hc) (hdr.pushed hf (Decode.decodePack p))
            fun x hx => hen x (by rw [hlist]; exact List.mem_cons_of_mem _ hx)
          refine ⟨p :: moved, hspec.fetchDecode, hspec.decodeRename, ?_, ?_, hspec.perf⟩
          · rw [hlist, hspec.taken]
            rfl
          · rw [hspec.sent, hdr.wf.toList_pushed (hdr.count_lt hf), List.append_assoc]
            rfl

/-! ## Fetch

Each pushed pack continues the path; an unpredicted jump ends it until commit reports its target. -/

/-- Fetch has appended the packs `new` and pushed the checkpoints of the predicted jumps among them. -/
structure FetchSpec (c₀ c : Fetch.Ctx) (new : List FetchDecodePack) : Prop where
  fifo : c.fifo.SaveOk
  list : c.fifo.toList = c₀.fifo.toList ++ new
  fetched : ∀ p ∈ new, FetchOk p
  path : PathOk c₀.state.pc (new.map Decode.decodePack) c.state
  cps : ∃ xs, Fifo.Grown c₀.checkpointBuffer c.checkpointBuffer xs
  ids : c.checkpointBuffer.ids =
    c₀.checkpointBuffer.ids ++ (new.filter (·.predicted)).map (·.checkpointId)
  first : c.state.waitFirstMemoryResult = c₀.state.waitFirstMemoryResult
  perf : c.perf.phyRegfileFull = c₀.perf.phyRegfileFull

theorem FetchSpec.refl {c : Fetch.Ctx} (hfifo : c.fifo.SaveOk) (hcp : c.checkpointBuffer.WF)
    (hw : c.state.jumpWait = false) : FetchSpec c c [] where
  fifo := hfifo
  list := by simp
  fetched := by simp
  path := ⟨rfl, hw⟩
  cps := ⟨[], .refl hcp⟩
  ids := by simp
  first := rfl
  perf := rfl

/-- Two stretches of fetching. -/
theorem FetchSpec.trans {c₀ c₁ c₂ : Fetch.Ctx} {xs ys : List FetchDecodePack}
    (h₁ : FetchSpec c₀ c₁ xs) (hw : c₁.state.jumpWait = false) (h₂ : FetchSpec c₁ c₂ ys) :
    FetchSpec c₀ c₂ (xs ++ ys) where
  fifo := h₂.fifo
  list := by rw [h₂.list, h₁.list, List.append_assoc]
  fetched := fun p hp => (List.mem_append.mp hp).elim (h₁.fetched p) (h₂.fetched p)
  path := by
    rw [List.map_append]
    exact h₁.path.append hw h₂.path
  cps := by
    obtain ⟨us, hu⟩ := h₁.cps
    obtain ⟨vs, hv⟩ := h₂.cps
    exact ⟨us ++ vs, hu.trans hv⟩
  ids := by rw [h₂.ids, h₁.ids, List.filter_append, List.map_append, List.append_assoc]
  first := h₂.first.trans h₁.first
  perf := h₂.perf.trans h₁.perf

/-- The other counters. -/
theorem FetchSpec.count {c₀ c : Fetch.Ctx} {new : List FetchDecodePack} (h : FetchSpec c₀ c new)
    {perf : PerfCounters} (hp : perf.phyRegfileFull = c.perf.phyRegfileFull) :
    FetchSpec c₀ { c with perf := perf } new :=
  ⟨h.fifo, h.list, h.fetched, h.path, h.cps, h.ids, h.first, hp.trans h.perf⟩

section Fetch

variable {c : Fetch.Ctx} {pc value : Word} {ex : Bool}

theorem plainPack_fetchOk (hex : (!Bus.checkAlign pc .word) = true → value = 0) :
    FetchOk (Fetch.plainPack pc value (!Bus.checkAlign pc .word)) where
  enable := rfl
  misaligned := rfl
  exception := hex
  cause h := ⟨if_pos h, rfl⟩
  predicted := fun h => by cases h
  unpredicted := fun _ => rfl

/-- The pack of a word that is no jump. -/
theorem fetchPlain_spec (uninit : Checkpoint) (hfifo : c.fifo.SaveOk) (hcp : c.checkpointBuffer.WF)
    (hfull : c.fifo.isFull = false) (hpc : c.state.pc = pc)
    (hex : (!Bus.checkAlign pc .word) = true → value = 0) (hw : c.state.jumpWait = false)
    (hj : Fetch.isJump value = false) :
    FetchSpec c (Fetch.fetchOne uninit pc value c)
      [Fetch.plainPack pc value (!Bus.checkAlign pc .word)] := by
  -- not a jump: the predictor is not asked
  have hone : Fetch.fetchOne uninit pc value c = { c with
      state := { c.state with pc := pc + 4 }
      fifo := c.fifo.pushed (Fetch.plainPack pc value (!Bus.checkAlign pc .word)) } := by
    unfold Fetch.fetchOne
    simp only [hj, Bool.false_eq_true, if_false, hfifo.wf.push_eq hfull, Option.getD_some]
  rw [hone]
  exact {
    fifo := hfifo.pushed hfull _
    list := hfifo.wf.toList_pushed (hfifo.count_lt hfull) _
    fetched := by
      intro p hp
      rw [List.mem_singleton.mp hp]
      exact plainPack_fetchOk hex
    path := by
      refine ⟨by rw [decodePack_pc, hpc]; rfl, ?_⟩
      have hnw : waitsFor (Decode.decodePack
          (Fetch.plainPack pc value (!Bus.checkAlign pc .word))) = false := by
        unfold waitsFor
        rw [decodePack_value]
        exact Bool.and_eq_false_iff.mpr (.inl hj)
      rw [hnw, if_neg (by simp)]
      refine ⟨?_, hw⟩
      unfold pathNext
      rw [decodePack_pc]
      rfl
    cps := ⟨[], .refl hcp⟩
    ids := (List.append_nil _).symm
    first := rfl
    perf := rfl }

/-- What the `if(jump)` part does. -/
structure JumpSpec (c : Fetch.Ctx) (pc value : Word) (ex : Bool) (c₁ : Fetch.Ctx)
    (p : FetchDecodePack) : Prop where
  fifo : c₁.fifo = c.fifo
  first : c₁.state.waitFirstMemoryResult = c.state.waitFirstMemoryResult
  perf : c₁.perf.phyRegfileFull = c.perf.phyRegfileFull
  pack : p.enable = true ∧ p.pc = pc ∧ p.value = value ∧ p.hasException = ex
  /-- Fetch waits for the jump, or it goes on with a checkpoint. -/
  cases : (p.predicted = false ∧ p.checkpointIdValid = false ∧ c₁.state.pc = pc + 4 ∧
      c₁.state.jumpWait = true ∧ c₁.checkpointBuffer = c.checkpointBuffer) ∨
    ∃ cp, c.checkpointBuffer.push cp = some c₁.checkpointBuffer ∧ p.predicted = true ∧
      p.checkpointIdValid = true ∧ p.checkpointId = c.checkpointBuffer.wptr ∧
      c₁.state.pc = (if p.predictedJump then p.predictedNextPc else pc + 4) ∧
      c₁.state.jumpWait = false ∧ Decode.predictable value = true

/-- What fetch does with a jump: predict and save a checkpoint, or wait. -/
theorem handleJump_spec (uninit : Checkpoint) (c : Fetch.Ctx) (pc value : Word) (ex : Bool) :
    JumpSpec c pc value ex (Fetch.handleJump uninit c (Fetch.plainPack pc value ex)).1
      (Fetch.handleJump uninit c (Fetch.plainPack pc value ex)).2 := by
  have hras : ∀ perf : PerfCounters,
      (if (c.predictor.getPrediction pc value).rasFull then { perf with rasFull := perf.rasFull + 1 }
        else perf).phyRegfileFull = perf.phyRegfileFull := by
    intro perf
    split <;> rfl
  unfold Fetch.handleJump
  simp only [show (Fetch.plainPack pc value ex).pc = pc from rfl,
    show (Fetch.plainPack pc value ex).value = value from rfl]
  cases ha : (c.predictor.getPrediction pc value).answer with
  | none => exact ⟨rfl, rfl, hras c.perf, ⟨rfl, rfl, rfl, rfl⟩, .inl ⟨rfl, rfl, rfl, rfl, rfl⟩⟩
  | some x =>
    simp only
    cases hp : c.checkpointBuffer.push
      ((c.predictor.getPrediction pc value).predictor.save uninit pc) with
    | none =>
      exact ⟨rfl, rfl, hras c.perf, ⟨rfl, rfl, rfl, rfl⟩, .inl ⟨rfl, rfl, rfl, rfl, rfl⟩⟩
    | some q =>
      exact ⟨rfl, rfl, hras c.perf, ⟨rfl, rfl, rfl, rfl⟩,
        .inr ⟨_, hp, rfl, rfl, rfl, rfl, rfl, Decode.predictable_of_answer ha⟩⟩

/-- The pack of a jump. -/
theorem fetchJump_spec {c₁ : Fetch.Ctx} {p : FetchDecodePack} (h : JumpSpec c pc value ex c₁ p)
    (hfifo : c.fifo.SaveOk) (hcp : c.checkpointBuffer.WF)
    (hsave : c.checkpointBuffer.popStatusSave = false) (hfull : c.fifo.isFull = false)
    (hpc : c.state.pc = pc) (hmis : ex = !Bus.checkAlign pc .word) (hex : ex = true → value = 0)
    (hj : Fetch.isJump value = true) :
    FetchSpec c { c₁ with fifo := (c₁.fifo.push p).getD c₁.fifo } [p] := by
  obtain ⟨hpen, hppc, hpval, hpex⟩ := h.pack
  -- the word at a misaligned pc is no jump
  have hnot : p.hasException ≠ true := by
    intro hx
    rw [hex (hpex ▸ hx)] at hj
    cases hj
  have hpush : (c₁.fifo.push p).getD c₁.fifo = c.fifo.pushed p := by
    rw [h.fifo, hfifo.wf.push_eq hfull]
    rfl
  have hwaits : waitsFor (Decode.decodePack p) = !p.predicted := by
    unfold waitsFor
    rw [decodePack_value, hpval, hj]
    rfl
  have hcommon : (c.fifo.pushed p).SaveOk ∧ (c.fifo.pushed p).toList = c.fifo.toList ++ [p] :=
    ⟨hfifo.pushed hfull p, hfifo.wf.toList_pushed (hfifo.count_lt hfull) p⟩
  rw [hpush]
  obtain ⟨hpred, hvalid, hst, hwait, hbuf⟩ | ⟨cp, hgrow, hpred, hvalid, hid, hst, hwait, hable⟩ :=
    h.cases
  · exact {
      fifo := hcommon.1
      list := hcommon.2
      fetched := by
        intro x hx
        rw [List.mem_singleton.mp hx]
        exact ⟨hpen, by rw [hpex, hppc, hmis], fun hx => absurd hx hnot, fun hx => absurd hx hnot,
          fun hx => absurd (hpred.symm.trans hx) (by simp), fun _ => hvalid⟩
      path := by
        refine ⟨by rw [decodePack_pc, hppc, hpc], ?_⟩
        rw [hwaits, hpred, if_pos (by rfl)]
        exact ⟨rfl, hwait, by rw [decodePack_pc, hppc]; exact hst⟩
      cps := ⟨[], by rw [hbuf]; exact .refl hcp⟩
      ids := by rw [hbuf, List.filter_cons_of_neg (by simp [hpred])]; simp
      first := h.first
      perf := h.perf }
  · have hroom : c.checkpointBuffer.isFull = false := by
      cases hf : c.checkpointBuffer.isFull with
      | false => rfl
      | true => rw [Fifo.push_eq_none hf] at hgrow; cases hgrow
    have hcount := hcp.count_lt hsave hroom
    rw [hcp.push_eq hroom, Option.some.injEq] at hgrow
    exact {
      fifo := hcommon.1
      list := hcommon.2
      fetched := by
        intro x hx
        rw [List.mem_singleton.mp hx]
        exact ⟨hpen, by rw [hpex, hppc, hmis], fun hx => absurd hx hnot, fun hx => absurd hx hnot,
          fun _ => ⟨hpval ▸ hable, hvalid⟩, fun hx => absurd (hpred.symm.trans hx) (by simp)⟩
      path := by
        refine ⟨by rw [decodePack_pc, hppc, hpc], ?_⟩
        rw [hwaits, hpred, if_neg (by simp)]
        refine ⟨?_, hwait⟩
        unfold pathNext
        rw [decodePack_pc, hppc, decodePack_predict, hpred, Bool.true_and]
        exact hst
      cps := ⟨[cp], by rw [← hgrow]; exact .pushed hcp hcount cp⟩
      ids := by
        rw [← hgrow, hcp.ids_pushed hcount, List.filter_cons_of_pos (by simp [hpred])]
        simp [hid]
      first := h.first
      perf := h.perf }

/-- A word is read, or no slave answers for its address. -/
theorem fetchWord_cases (bus : Bus) (pc : Word) :
    (∃ v, Fetch.fetchWord bus pc = .ok v ∧ ((!Bus.checkAlign pc .word) = true → v = 0)) ∨
      Fetch.fetchWord bus pc = .error (.assertion .slaveBase) := by
  unfold Fetch.fetchWord
  cases Bus.checkAlign pc .word with
  | false => exact .inl ⟨0, rfl, fun _ => rfl⟩
  | true =>
    obtain ⟨v, hv⟩ | herr := bus.read_cases pc .word
    · exact .inl ⟨v, hv, by simp⟩
    · exact .inr herr

/-- The fetch loop: as long as it goes on it stands at slot `i`, or the FIFO is full. -/
theorem fetchLoop_spec (bus : Bus) (uninit : Checkpoint) (gate : Bool) (oldPc : Word)
    (rounds i : Nat) (hfifo : c.fifo.SaveOk) (hcp : c.checkpointBuffer.WF)
    (hsave : c.checkpointBuffer.popStatusSave = false) (hw : c.state.jumpWait = false)
    (hpc : c.fifo.isFull = false → c.state.pc = oldPc + BitVec.ofNat 32 (i * 4)) :
    (∃ c' new, Fetch.fetchLoop bus uninit gate oldPc rounds i c = .ok c' ∧ FetchSpec c c' new) ∨
      Fetch.fetchLoop bus uninit gate oldPc rounds i c = .error (.assertion .slaveBase) := by
  induction rounds generalizing i c with
  | zero => exact .inl ⟨c, [], rfl, .refl hfifo hcp hw⟩
  | succ rounds ih =>
    unfold Fetch.fetchLoop
    cases hfull : c.fifo.isFull with
    | true =>
      rw [if_neg (by simp)]
      obtain ⟨c', new, hloop, hspec⟩ | herr := ih
        (c := { c with perf := { c.perf with fetchDecodeFifoFull := c.perf.fetchDecodeFifoFull + 1 } })
        (i + 1) hfifo hcp hsave hw (fun h => by rw [hfull] at h; cases h)
      · exact .inl ⟨c', new, hloop, hspec.fifo, hspec.list, hspec.fetched, hspec.path, hspec.cps,
          hspec.ids, hspec.first, hspec.perf⟩
      · exact .inr herr
    | false =>
      rw [if_pos (by rfl)]
      have hcur := hpc hfull
      obtain ⟨cur, hcureq⟩ : ∃ cur, cur = oldPc + BitVec.ofNat 32 (i * 4) := ⟨_, rfl⟩
      rw [← hcureq] at hcur ⊢
      obtain ⟨v, hv, hex⟩ | herr := fetchWord_cases bus cur
      · simp only [hv, bind, Except.bind, pure, Except.pure]
        -- a `fence.i` waits until everything before it has left
        by_cases hfence : (Fetch.isFenceI v && (i != 0 || gate)) = true
        · rw [if_pos hfence]
          exact .inl ⟨c, [], rfl, .refl hfifo hcp hw⟩
        · rw [if_neg hfence]
          cases hj : Fetch.isJump v with
          | true =>
            have hspec : FetchSpec c (Fetch.fetchOne uninit cur v c) [(Fetch.handleJump uninit c
                (Fetch.plainPack cur v (!Bus.checkAlign cur .word))).2] := by
              unfold Fetch.fetchOne
              simp only [hj, if_true]
              exact fetchJump_spec (handleJump_spec uninit c cur v (!Bus.checkAlign cur .word))
                hfifo hcp hsave hfull hcur rfl hex hj
            exact .inl ⟨_, _, rfl, hspec.count rfl⟩
          | false =>
            rw [if_neg (by simp)]
            have hspec := fetchPlain_spec uninit hfifo hcp hfull hcur hex hw hj
            have hstate : (Fetch.fetchOne uninit cur v c).state = { c.state with pc := cur + 4 } := by
              unfold Fetch.fetchOne
              simp only [hj, Bool.false_eq_true, if_false]
            obtain ⟨c₁, hc₁⟩ : ∃ c₁, c₁ = Fetch.fetchOne uninit cur v c := ⟨_, rfl⟩
            rw [← hc₁] at hspec hstate ⊢
            have hw₁ : c₁.state.jumpWait = false := by rw [hstate]; exact hw
            obtain ⟨xs, hgrown⟩ := hspec.cps
            obtain ⟨c', new, hloop, hspec'⟩ | herr := ih (i + 1) hspec.fifo hgrown.wf
              (hgrown.save.trans hsave) hw₁ (fun _ => by
                rw [hstate, hcureq, BitVec.add_assoc, Nat.add_mul, BitVec.ofNat_add]
                rfl)
            · exact .inl ⟨c', _, hloop, hspec.trans hw₁ hspec'⟩
            · exact .inr herr
      · exact .inr (by simp only [herr]; rfl)

/-- What `fetch::run` does outside a flush: go on along the path, or wait for a jump. -/
structure FetchFlow (c₀ c : Fetch.Ctx) (fb : CommitFeedbackPack) (new : List FetchDecodePack) :
    Prop where
  fifo : c.fifo.SaveOk
  list : c.fifo.toList = c₀.fifo.toList ++ new
  fetched : ∀ p ∈ new, FetchOk p
  go : c₀.state.jumpWait = false → PathOk c₀.state.pc (new.map Decode.decodePack) c.state
  wait : c₀.state.jumpWait = true → new = [] ∧ c.state.jumpWait = !fb.jumpEnable ∧
    c.state.pc = if fb.jumpEnable && fb.jump then fb.nextPc else c₀.state.pc
  cps : ∃ xs, Fifo.Grown c₀.checkpointBuffer c.checkpointBuffer xs
  ids : c.checkpointBuffer.ids =
    c₀.checkpointBuffer.ids ++ (new.filter (·.predicted)).map (·.checkpointId)
  first : c.state.waitFirstMemoryResult = false
  perf : c.perf.phyRegfileFull = c₀.perf.phyRegfileFull

/-- A cycle in which fetch does nothing. -/
theorem FetchFlow.stay {c c' : Fetch.Ctx} {fb : CommitFeedbackPack} (hfifo : c.fifo.SaveOk)
    (hcp : c.checkpointBuffer.WF) (hf : c'.fifo = c.fifo)
    (hc : c'.checkpointBuffer = c.checkpointBuffer) (hp : c'.perf = c.perf)
    (hfirst : c'.state.waitFirstMemoryResult = false)
    (hgo : c.state.jumpWait = false → PathOk c.state.pc [] c'.state)
    (hwait : c.state.jumpWait = true → c'.state.jumpWait = !fb.jumpEnable ∧
      c'.state.pc = if fb.jumpEnable && fb.jump then fb.nextPc else c.state.pc) :
    FetchFlow c c' fb [] where
  fifo := hf ▸ hfifo
  list := by rw [hf, List.append_nil]
  fetched := by simp
  go := hgo
  wait := fun hw => ⟨rfl, hwait hw⟩
  cps := ⟨[], by rw [hc]; exact .refl hcp⟩
  ids := by rw [hc]; simp
  first := hfirst
  perf := by rw [hp]

/-- The trace of the fetched words. -/
theorem fetchTrace_cases (bus : Bus) (pc : Word) (l : List Nat) :
    (l.forM fun i => do
      let _ ← bus.read32 (pc + BitVec.ofNat 32 (i * 4))) = .ok () ∨
    (l.forM fun i => do
      let _ ← bus.read32 (pc + BitVec.ofNat 32 (i * 4))) = .error (.assertion .slaveBase) := by
  induction l with
  | nil => exact .inl rfl
  | cons i l ih =>
    unfold List.forM
    obtain ⟨v, hv⟩ | herr := bus.read_cases (pc + BitVec.ofNat 32 (i * 4)) .word
    · simp only [Bus.read32, hv]
      exact ih
    · simp only [Bus.read32, herr]
      exact .inr rfl

/-- A cycle of fetch outside a flush. -/
theorem fetch_flow_spec (bus : Bus) (sb : StoreBuffer) (uninit : Checkpoint)
    (decodeIdle renameIdle : Bool) {fb : CommitFeedbackPack} (hflush : fb.flushing = false)
    (hfifo : c.fifo.SaveOk) (hcp : c.checkpointBuffer.WF)
    (hsave : c.checkpointBuffer.popStatusSave = false)
    (hfirst : c.state.waitFirstMemoryResult = true → fb.jumpEnable = false) :
    (∃ c' new, Fetch.run bus sb uninit c decodeIdle renameIdle fb = .ok c' ∧
        FetchFlow c c' fb new) ∨
      Fetch.run bus sb uninit c decodeIdle renameIdle fb = .error (.assertion .slaveBase) := by
  unfold Fetch.run
  dsimp only
  cases hf : c.state.waitFirstMemoryResult with
  | true =>
    refine .inl ⟨{ c with state := { c.state with waitFirstMemoryResult := false } }, [], rfl,
      .stay hfifo hcp rfl rfl rfl rfl (fun hw => ⟨rfl, hw⟩) fun hw => ?_⟩
    rw [hfirst hf]
    exact ⟨hw, rfl⟩
  | false =>
    rw [if_neg (by simp), hflush, if_pos (by rfl)]
    -- fetch waits for a jump until commit reports it
    cases hw : c.state.jumpWait with
    | true =>
      cases hj : fb.jumpEnable with
      | true =>
        exact .inl ⟨{ c with state := ⟨if fb.jump then fb.nextPc else c.state.pc, false, false⟩ }, [],
          rfl, .stay hfifo hcp rfl rfl rfl rfl (by simp [hw]) fun _ => ⟨by simp [hj], by simp [hj]⟩⟩
      | false =>
        exact .inl ⟨c, [], rfl, .stay hfifo hcp rfl rfl rfl hf (by simp [hw])
          fun _ => ⟨by simp [hj, hw], by simp [hj]⟩⟩
    | false =>
      rw [if_neg (by simp)]
      obtain htr | htr := fetchTrace_cases bus c.state.pc (List.range fetchWidth)
      · rw [htr]
        obtain ⟨c', new, hloop, hspec⟩ | herr := fetchLoop_spec bus uninit
          (!decodeIdle || !renameIdle || fb.enable || !sb.isEmpty) c.state.pc fetchWidth 0 hfifo hcp
          hsave hw (by simp)
        · exact .inl ⟨c', new, hloop, hspec.fifo, hspec.list, hspec.fetched, fun _ => hspec.path,
            by simp [hw], hspec.cps, hspec.ids, hspec.first.trans hf, hspec.perf⟩
        · exact .inr herr
      · rw [htr]
        exact .inr rfl

end Fetch

end MyRiscvCore
