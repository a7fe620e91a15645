import MyRiscvCore.Refine.Progress

/-!
# MyRiscvCore — the front end makes progress

With nothing in flight, the next instruction comes nearer in every cycle: what is decoded is renamed
(`FlowStages.front_renamed`), what is fetched is decoded (`front_decoded`), and fetch gets a word (`front_fetched`),
unless it holds a `fence.i` back until the store buffer is empty. `frontDistance` counts the cycles.
-/

namespace MyRiscvCore

variable {uninit : Checkpoint} {rat : Rat}
  {q : Fifo Checkpoint} {fb : CommitFeedbackPack} {perf : PerfCounters}

/-! ## The stages

What one call of a stage does for the first item that it finds. -/

section Stages

theorem Fifo.isFull_resetPopStatus {α : Type} {q : Fifo α} (h : q.isEmpty = true) (hs : q.popStatusSave = true) :
    q.resetPopStatus.isFull = false := by
  unfold Fifo.isEmpty at h
  simp only [Bool.and_eq_true, beq_iff_eq] at h
  simp [Fifo.isFull, Fifo.resetPopStatus, hs, h.1, h.2]

/-- Rename only adds operations. -/
theorem renameOne_ops {phys : List Nat}
    {x : DecodeRenamePack} {c c' : Rename.Ctx} (h : Rename.renameOne rat uninit q phys x c = .ok c') :
    c'.ops ≠ [] := by
  unfold Rename.renameOne at h
  obtain ⟨⟨oldPhy, rdPhy, c₁⟩, hdest, h⟩ := bind_eq_ok.mp h
  obtain ⟨⟨robId, fifo⟩, -, h⟩ := bind_eq_ok.mp h
  obtain ⟨rs1, -, h⟩ := bind_eq_ok.mp h
  obtain ⟨rs2, -, h⟩ := bind_eq_ok.mp h
  cases h
  simp

theorem renameLoop_ops {rounds : Nat}
    {c c' : Rename.Ctx} (h : Rename.renameLoop rat uninit q rounds c = .ok c') (hops : c.ops ≠ []) :
    c'.ops ≠ [] := by
  induction rounds generalizing c with
  | zero =>
    cases h
    exact hops
  | succ rounds ih =>
    unfold Rename.renameLoop at h
    cases hpop : c.fifo.pop with
    | none =>
      simp only [hpop] at h
      cases h
      exact hops
    | some y =>
      simp only [hpop] at h
      generalize (c.phyRegReqCnt + if y.1.enable && y.1.valid && y.1.needRename then 1 else 0) = k at h
      generalize (c.robReqCnt + if y.1.enable then 1 else 0) = j at h
      -- renamed, an empty slot, or the group ends
      split_ifs at h
      · obtain ⟨c₁, hone, h⟩ := bind_eq_ok.mp h
        exact ih h (renameOne_ops hone)
      · obtain ⟨c₁, hone, h⟩ := bind_eq_ok.mp h
        cases hone
        exact ih h (by simp)
      all_goals
        cases h
        exact hops

/-- With a free register and room in the reorder buffer, the first instruction is renamed. -/
theorem rename_some {fifo fifo' : Fifo DecodeRenamePack}
    {rob : Rob} {port : List RenameReadregOp} {out : Rename.Out}
    {x : DecodeRenamePack} (h : Rename.run rat uninit q fifo rob perf port false fb = .ok out)
    (hflush : fb.flushing = false) (hpop : fifo.pop = some (x, fifo')) (hen : x.enable = true)
    (hfree : 1 ≤ rat.freeList.length) (hroom : 1 ≤ rob.getFreeSpace) : out.renamed ≠ [] := by
  unfold Rename.run at h
  simp only [hflush, Bool.not_false, if_true] at h
  obtain ⟨c, hloop, h⟩ := bind_eq_ok.mp h
  cases h
  change Rename.renameLoop rat uninit q (3 + 1) _ = .ok c at hloop
  unfold Rename.renameLoop at hloop
  simp only [hpop] at hloop
  generalize hk : (0 + if (x.enable && x.valid && x.needRename) = true then 1 else 0) = k at hloop
  have hlen : k ≤ (rat.getFreePhyId k).length := by
    have hle : k ≤ 1 := by rw [← hk]; split_ifs <;> omega
    rw [Rat.getFreePhyId_eq, List.length_take]
    omega
  simp only [hlen, hroom, hen, decide_true, Bool.and_self, if_true] at hloop
  obtain ⟨c₁, hone, hloop⟩ := bind_eq_ok.mp hloop
  exact renameLoop_ops hloop (renameOne_ops hone)

theorem rename_empty {fifo : Fifo DecodeRenamePack}
    {rob : Rob} {port : List RenameReadregOp} {stall : Bool}
    {out : Rename.Out} (h : Rename.run rat uninit q fifo rob perf port stall fb = .ok out)
    (hpop : fifo.pop = none) : out.fifo = fifo := by
  unfold Rename.run at h
  split_ifs at h
  · obtain ⟨c, hloop, h⟩ := bind_eq_ok.mp h
    rw [renameLoop_empty uninit q hpop] at hloop
    cases hloop
    cases h
    rfl
  all_goals
    cases h
    rfl

/-- A word waiting in front of an empty FIFO is decoded. -/
theorem decode_first {fd : Fifo FetchDecodePack} {dr : Fifo DecodeRenamePack}
    (hflush : fb.flushing = false) (hfd : fd.SaveOk) (hdr : dr.SaveOk)
    (hen : ∀ p ∈ fd.toList, p.enable = true) (hne : fd.toList ≠ []) (hroom : dr.isFull = false) :
    (Decode.run fd dr perf fb).1.2.1.toList ≠ [] := by
  obtain ⟨hpop, hnil⟩ | ⟨p, hpop, hc, hlist⟩ := hfd.wf.pop_cases
  · exact absurd hnil hne
  have hempty : fd.isEmpty = false := hfd.wf.isEmpty_eq_false.mpr hc
  have hpen : p.enable = true := hen p (by rw [hlist]; exact List.mem_cons_self)
  obtain ⟨moved, hspec⟩ := decodeLoop_spec 3 perf (hfd.popped hc) (hdr.pushed hroom (Decode.decodePack p))
    fun x hx => hen x (by rw [hlist]; exact List.mem_cons_of_mem _ hx)
  have hrun : (Decode.run fd dr perf fb).1 =
      Decode.decodeLoop 3 fd.popped (dr.pushed (Decode.decodePack p)) perf := by
    simp only [Decode.run, hflush, Bool.not_false, if_true]
    show Decode.decodeLoop (3 + 1) fd dr perf = _
    rw [Decode.decodeLoop, hempty, hroom, hpop]
    simp [hpen, hdr.wf.push_eq hroom]
  rw [hrun, hspec.sent, hdr.wf.toList_pushed (hdr.count_lt hroom)]
  simp

theorem decodeLoop_empty {fd : Fifo FetchDecodePack} (h : fd.isEmpty = true) (rounds : Nat)
    (dr : Fifo DecodeRenamePack) (perf : PerfCounters) : Decode.decodeLoop rounds fd dr perf = (fd, dr, perf) := by
  induction rounds with
  | zero => rfl
  | succ rounds ih =>
    rw [Decode.decodeLoop, h]
    exact ih

theorem handleJump_fifo (uninit : Checkpoint) (c : Fetch.Ctx) (pack : FetchDecodePack) :
    (Fetch.handleJump uninit c pack).1.fifo = c.fifo := by
  unfold Fetch.handleJump
  dsimp only
  split
  · split <;> rfl
  · rfl

/-- Fetch gets its first word into an empty FIFO, or holds back a `fence.i`. -/
theorem fetch_some {bus : Bus} {sb : StoreBuffer} {c c' : Fetch.Ctx}
    {decodeIdle renameIdle : Bool}
    (h : Fetch.run bus sb uninit c decodeIdle renameIdle fb = .ok c') (hflush : fb.flushing = false)
    (hfifo : c.fifo.SaveOk) (hcp : c.checkpointBuffer.WF) (hsave : c.checkpointBuffer.popStatusSave = false)
    (hwait : c.state.jumpWait = false) (hfirst : c.state.waitFirstMemoryResult = false)
    (hroom : c.fifo.isFull = false) :
    c'.fifo.toList ≠ [] ∨ (Bus.checkAlign c.state.pc .word = true ∧
      (!decodeIdle || !renameIdle || fb.enable || !sb.isEmpty) = true) := by
  unfold Fetch.run at h
  simp only [hfirst, hflush, hwait, Bool.false_eq_true, if_false, Bool.not_false, if_true] at h
  obtain ⟨-, -, h⟩ := bind_eq_ok.mp h
  generalize (!decodeIdle || !renameIdle || fb.enable || !sb.isEmpty) = gate at h ⊢
  change Fetch.fetchLoop bus uninit gate c.state.pc (3 + 1) 0 c = .ok c' at h
  rw [Fetch.fetchLoop, if_pos (by rw [hroom]; rfl), show c.state.pc + BitVec.ofNat 32 (0 * 4) = c.state.pc from
    BitVec.add_zero _] at h
  obtain ⟨v, hword, h⟩ := bind_eq_ok.mp h
  -- the word of a misaligned pc is 0, which is no `fence.i`
  have hmisWord (hmis : (!Bus.checkAlign c.state.pc .word) = true) : v = 0 := by
    rw [Fetch.fetchWord, hmis] at hword
    exact (Except.ok.inj hword).symm
  cases hheld : Fetch.isFenceI v && gate with
  | true =>
    obtain ⟨hfence, hgate⟩ := Bool.and_eq_true_iff.mp hheld
    refine .inr ⟨by_contra fun hmis => ?_, hgate⟩
    rw [hmisWord (by simpa using hmis)] at hfence
    cases hfence
  | false =>
    left
    rw [show ((0 : Nat) != 0 || gate) = gate from rfl, hheld, if_neg Bool.false_ne_true] at h
    have hpush (p : FetchDecodePack) : ((c.fifo.push p).getD c.fifo).toList ≠ [] := by
      rw [hfifo.wf.push_eq hroom, Option.getD_some, hfifo.wf.toList_pushed (hfifo.count_lt hroom)]
      simp
    cases hjump : Fetch.isJump v with
    | true =>
      rw [hjump, if_pos rfl] at h
      cases h
      show (Fetch.fetchOne uninit c.state.pc v c).fifo.toList ≠ []
      simp only [Fetch.fetchOne, hjump, if_true, handleJump_fifo]
      exact hpush _
    | false =>
      rw [hjump, if_neg Bool.false_ne_true] at h
      have hspec := fetchPlain_spec uninit hfifo hcp hroom rfl hmisWord hwait hjump
      have hstate : (Fetch.fetchOne uninit c.state.pc v c).state = { c.state with pc := c.state.pc + 4 } := by
        simp only [Fetch.fetchOne, hjump, Bool.false_eq_true, if_false]
      obtain ⟨xs, hgrown⟩ := hspec.cps
      obtain ⟨c₁, new, hloop, hspec'⟩ | herr := fetchLoop_spec bus uninit gate c.state.pc 3 1 hspec.fifo hgrown.wf
        (hgrown.save.trans hsave) (by rw [hstate]; exact hwait) fun _ => by rw [hstate]; rfl
      · cases hloop.symm.trans h
        rw [hspec'.list, hspec.list]
        simp
      · cases herr.symm.trans h

end Stages

/-- How many cycles it takes at most until the next instruction is renamed. -/
def frontDistance (m : Machine) : Nat :=
  if m.decodeRenameFifo.toList ≠ [] then 1
  else if m.fetchDecodeFifo.toList ≠ [] then 2
  else if m.fetch.waitFirstMemoryResult then 4
  else 3

section Front

variable {env : Env} {n : Nat} {m : Machine} {w : Window} {s : Stages} {u : Updates}

theorem frontDistance_le (m : Machine) : frontDistance m ≤ 4 := by
  unfold frontDistance
  split_ifs <;> omega

theorem frontDistance_pos (m : Machine) : 0 < frontDistance m := by
  unfold frontDistance
  split_ifs <;> decide

/-- With nothing in flight, no trap and no mispredicted jump. -/
theorem CycleCase.flow_of_empty (h : CycleCase env n m w s) (hflight : w.flight = []) :
    Normal m w ∧ Nonempty (FlowStages env n m w s) := by
  cases h with
  | flow h f => exact ⟨h, ⟨f⟩⟩
  | flush h g => exact absurd (g.flight.symm.trans hflight) (g.commit.flight_ne g.flushes)
  | walk v h =>
    have hpc := h.pc
    rw [hflight] at hpc
    cases hpc

/-- With nothing in flight, issue takes what comes. -/
theorem FlowStages.not_stalled (f : FlowStages env n m w s) (h : Normal m w) (hflight : w.flight = []) :
    s.is.stall = false := by
  by_contra hst
  obtain ⟨hleft, -⟩ := f.issue.stalled (by simpa using hst)
  have hitems : queuedItems m = [] := by
    by_contra hne
    obtain ⟨i, hi⟩ := List.exists_mem_of_ne_nil _ hne
    obtain ⟨pre, e, post, hf, -⟩ := h.loc.item i hi
    rw [hflight] at hf
    simp at hf
  have hslots := f.issue.slots
  rw [(List.append_eq_nil_iff.mp hitems).2] at hslots
  exact hleft (List.append_eq_nil_iff.mp hslots.symm).2

/-- With nothing in flight, an instruction that is decoded is renamed. -/
theorem FlowStages.front_renamed (f : FlowStages env n m w s) (h : Normal m w) (hflight : w.flight = [])
    (hdr : m.decodeRenameFifo.toList ≠ []) : f.news ≠ [] := by
  have hsave := h.shape.decodeRename.resetPopStatus h.shape.decodeRenameSave
  obtain ⟨-, hnil⟩ | ⟨x, hpop, -, hlist⟩ := hsave.wf.pop_cases
  · exact absurd hnil hdr
  have hmem : x ∈ m.decodeRenameFifo.toList := by
    rw [← Fifo.toList_resetPopStatus, hlist]
    exact List.mem_cons_self
  have hrob : s.cm.rob.fifo = m.rob.fifo := by
    rw [f.commit.rob, if_neg (Stop.flows_ne f.flows).1]
  -- nothing in flight: there is a free entry and a free register
  have hroom : 1 ≤ s.cm.rob.getFreeSpace := by
    rw [Rob.getFreeSpace_pos (by rw [hrob]; exact h.rob.wf), hrob, ← Bool.not_eq_true,
      h.rob.wf.isFull_iff h.rob.save, h.rob.size]
    have hcount := congrArg List.length h.rob.ids
    rw [Fifo.length_ids, hflight] at hcount
    rw [hcount]
    decide
  have hfree : 1 ≤ m.rat.freeList.length := by
    have hlen := h.rat.length_freeList
    rw [hflight] at hlen
    exact (show m.rat.freeList.length = 97 from hlen).symm ▸ by decide
  have hrename := f.ran.rename
  rw [f.not_stalled h hflight] at hrename
  have hren := rename_some hrename f.flushing hpop (h.front.1 x hmem).enable hfree hroom
  intro hnews
  have hmap := f.renamed_eq
  rw [hnews, List.map_eq_nil_iff] at hmap
  exact hren hmap

/-- With nothing decoded, the oldest word that is fetched is decoded. -/
theorem FlowStages.front_decoded (f : FlowStages env n m w s) (h : Normal m w)
    (hdr : m.decodeRenameFifo.toList = []) (hfd : m.fetchDecodeFifo.toList ≠ []) (u : Updates) :
    (s.machine env n m u).decodeRenameFifo.toList ≠ [] := by
  have hsave := h.shape.decodeRename.resetPopStatus h.shape.decodeRenameSave
  have hempty : m.decodeRenameFifo.isEmpty = true := by
    rw [h.shape.decodeRename.isEmpty_eq, hdr]
    rfl
  have hrn : s.rn.fifo = m.decodeRenameFifo.resetPopStatus := by
    obtain ⟨hpop, -⟩ | ⟨x, -, -, hlist⟩ := hsave.wf.pop_cases
    · exact rename_empty f.ran.rename hpop
    · rw [Fifo.toList_resetPopStatus, hdr] at hlist
      cases hlist
  show s.dc.1.2.1.toList ≠ []
  rw [← f.ran.decode, hrn]
  exact decode_first f.flushing (h.shape.fetchDecode.resetPopStatus h.shape.fetchDecodeSave) hsave
    (fun p hp => (h.front.2 p hp).enable) hfd (Fifo.isFull_resetPopStatus hempty h.shape.decodeRenameSave)

/-- With the whole pipeline empty, a word is fetched, or a `fence.i` waits for a store. -/
theorem FlowStages.front_fetched (f : FlowStages env n m w s) (h : Normal m w) (hflight : w.flight = [])
    (hdr : m.decodeRenameFifo.toList = []) (hfd : m.fetchDecodeFifo.toList = [])
    (hwait : m.fetch.waitFirstMemoryResult = false) (u : Updates) :
    (s.machine env n m u).fetchDecodeFifo.toList ≠ [] ∨
      (Bus.checkAlign w.arch.pc .word = true ∧ 0 < m.storeBuffer.count) := by
  have hempty : m.fetchDecodeFifo.isEmpty = true := by
    rw [h.shape.fetchDecode.isEmpty_eq, hfd]
    rfl
  have hpath := h.path
  rw [hflight, List.map_nil, List.nil_append, frontPacks, hdr, hfd] at hpath
  obtain ⟨hpc, hjump⟩ := hpath
  have hdc : s.dc.1.1 = m.fetchDecodeFifo.resetPopStatus ∧ s.dc.2 = true := by
    rw [← f.ran.decode, Decode.run, f.flushing]
    exact ⟨congrArg Prod.fst
      (decodeLoop_empty (show m.fetchDecodeFifo.resetPopStatus.isEmpty = true from hempty) _ _ _), hempty⟩
  have hcpb : s.cm.checkpointBuffer = m.checkpointBuffer := by
    rw [f.commit.cpb, if_neg (Stop.flows_ne f.flows).1]
  have hfetch := fetch_some f.ran.fetch f.flushing
    (by dsimp only; rw [hdc.1]; exact h.shape.fetchDecode.resetPopStatus h.shape.fetchDecodeSave)
    (by dsimp only; rw [hcpb]; exact h.cp.wf) (by dsimp only; rw [hcpb]; exact h.cp.save) hjump hwait
    (by dsimp only; rw [hdc.1]; exact Fifo.isFull_resetPopStatus hempty h.shape.fetchDecodeSave)
  refine hfetch.imp_right fun hblocked => ⟨hpc ▸ hblocked.1, ?_⟩
  have hgate := hblocked.2
  -- decode, rename and the reorder buffer have nothing, so it is the store buffer that holds fetch back
  have hrename : m.decodeRenameFifo.isEmpty = true := by
    rw [h.shape.decodeRename.isEmpty_eq, hdr]
    rfl
  have henable : s.cm.fb.enable = false := by
    rw [f.commit.enable, ← f.flight, hflight]
    rfl
  rw [hdc.2, henable, show m.decodeRenameFifo.resetPopStatus.isEmpty = true from hrename] at hgate
  exact h.store.wf.isEmpty_eq_false.mp (by simpa using hgate)

/-- A cycle with nothing in flight renames an instruction, or brings one nearer, or waits for a store. -/
theorem FlowStages.front_step (f : FlowStages env n m w s) (h : Normal m w) (hflight : w.flight = []) (u : Updates) :
    f.news ≠ [] ∨ frontDistance (s.machine env n m u) < frontDistance m ∨
      (frontDistance (s.machine env n m u) ≤ frontDistance m ∧ Bus.checkAlign w.arch.pc .word = true ∧
        0 < m.storeBuffer.count) := by
  by_cases hdr : m.decodeRenameFifo.toList = []
  · right
    by_cases hfd : m.fetchDecodeFifo.toList = []
    · have hdist : frontDistance m = if m.fetch.waitFirstMemoryResult then 4 else 3 := by simp [frontDistance, hdr, hfd]
      have hle : frontDistance (s.machine env n m u) ≤ 3 := by
        unfold frontDistance
        rw [show (s.machine env n m u).fetch.waitFirstMemoryResult = false from f.fetch.first,
          if_neg Bool.false_ne_true]
        split_ifs <;> decide
      rw [hdist]
      cases hwait : m.fetch.waitFirstMemoryResult with
      | true =>
        -- nothing is fetched in the first cycle
        exact .inl (Nat.lt_succ_of_le hle)
      | false =>
        refine (f.front_fetched h hflight hdr hfd hwait u).imp (fun hfetch => ?_) fun hstore => ⟨hle, hstore⟩
        have hle : frontDistance (s.machine env n m u) ≤ 2 := by
          unfold frontDistance
          rw [if_pos hfetch]
          split_ifs <;> decide
        exact Nat.lt_succ_of_le hle
    · have hdec := f.front_decoded h hdr hfd u
      simp only [frontDistance, hdr, hfd, hdec, ne_eq, not_true, not_false_iff, if_true, if_false]
      exact .inl (Nat.lt_succ_self 1)
  · exact .inl (f.front_renamed h hflight hdr)

end Front

end MyRiscvCore
