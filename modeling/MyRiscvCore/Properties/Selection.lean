import MyRiscvCore.Properties.Renaming

/-!
# MyRiscvCore — what issue selects is what issue sends

`issue::run` goes twice over what it sends. The first pass picks queue items and takes a free unit for each; the
ids it leaves in `item_id_list` are removed from the queue at the end. The second pass looks for the operands
again, with tests of its own, and for a FIFO in round-robin order, and gives up on an item that lacks either.

* `issue_selection` — in every state of a run, the second pass sends exactly what the first one selected, each
  instruction to a FIFO of its own, and everything else stays in the queue.
-/

namespace MyRiscvCore

section Width

variable {q : Fifo ReadregIssueOp} {chs : Channels} {storeBufferEmpty stop : Bool} {fb : CommitFeedbackPack}
  {id : Nat} {s s' : Issue.SelectState}

/-- A round selects one item or none. -/
theorem selectStep_length (h : Issue.selectStep q chs storeBufferEmpty fb id s = .ok (s', stop)) :
    s'.itemIdList.length ≤ s.itemIdList.length + 1 := by
  unfold Issue.selectStep at h
  obtain ⟨item, -, h⟩ := bind_eq_ok.mp h
  split at h
  · cases h
    exact Nat.le_succ _
  obtain ⟨-, -, h⟩ := bind_eq_ok.mp h
  split at h
  · cases h
    exact Nat.le_succ _
  cases h
  dsimp only
  split
  · split
    · exact (List.length_append).le
    · exact Nat.le_succ _
  · exact Nat.le_succ _

/-- The pass goes on only while it has room for another item. -/
theorem select_length {file : SourceFile} {firstId rounds : Nat} (hs : s.itemIdList.length < issueWidth)
    (h : q.doWhileNext file firstId (Issue.selectStep q chs storeBufferEmpty fb)
      (fun s => s.itemIdList.length < issueWidth) rounds id s = .ok s') :
    s'.itemIdList.length ≤ issueWidth := by
  induction rounds generalizing id s with
  | zero =>
    cases h
    exact hs.le
  | succ rounds ih =>
    obtain ⟨⟨s₁, stop⟩, hstep, h⟩ := bind_eq_ok.mp h
    have hlen : s₁.itemIdList.length ≤ issueWidth := (selectStep_length hstep).trans hs
    dsimp only at h
    split at h
    · cases h
      exact hlen
    obtain ⟨⟨next, valid⟩, -, h⟩ := bind_eq_ok.mp h
    split at h
    next hmore => exact ih (of_decide_eq_true (Bool.and_eq_true_iff.mp hmore).2) h
    next =>
      cases h
      exact hlen

theorem output_length {state : IssueState} {fifos : UnitFifos} {perf : PerfCounters} {d : Issue.DispatchState}
    {sel : List Nat} (h : Issue.output state fifos perf storeBufferEmpty chs fb = .ok (d, sel)) :
    sel.length ≤ issueWidth := by
  unfold Issue.output at h
  dsimp only at h
  split at h
  · split at h
    · cases h
      exact Nat.zero_le _
    · obtain ⟨s, hs, h⟩ := bind_eq_ok.mp h
      obtain ⟨d', -, h⟩ := bind_eq_ok.mp h
      cases h
      refine select_length ?_ hs
      exact show 0 < issueWidth by decide
  · cases h
    exact Nat.zero_le _

end Width

/-- A unit is sent no more packs than there are units of its kind. -/
theorem Placed.length_le {fifos fifos' : UnitFifos} {packs : List IssueExecutePack} {slots : List (OpUnit × Nat)}
    (h : Placed fifos fifos' packs slots) (u : OpUnit) :
    (packs.filter (·.opUnit == u)).length ≤ unitNum u := by
  have hcount : (packs.filter (·.opUnit == u)).length = (slots.filter (·.1 == u)).length := by
    have hunit := congrArg (fun l => (l.filter (· == u)).length) h.unit
    simpa [List.filter_map, Function.comp_def] using hunit.symm
  -- the places taken are pairs of the unit and different numbers
  have hmap : ((slots.filter (·.1 == u)).map (·.2)).Nodup := by
    refine (h.nodup.filter _).map_on fun x hx y hy heq => ?_
    have hx := (List.mem_filter.mp hx).2
    have hy := (List.mem_filter.mp hy).2
    exact Prod.ext ((beq_iff_eq.mp hx).trans (beq_iff_eq.mp hy).symm) heq
  have hsub : (slots.filter (·.1 == u)).map (·.2) ⊆ List.range (unitNum u) := by
    intro i hi
    obtain ⟨x, hx, rfl⟩ := List.mem_map.mp hi
    obtain ⟨hx, hu⟩ := List.mem_filter.mp hx
    exact List.mem_range.mpr (beq_iff_eq.mp hu ▸ (h.free x hx).1)
  rw [hcount, ← List.length_map (·.2)]
  exact (hmap.subperm hsub).length_le.trans (List.length_range).le

/-! ## The two passes

The first pass picks the items, the second sends them. -/

/-- Issue selects the items with the ids `sel` of the queue of `state` and leaves `out`. -/
structure Selects (state : IssueState) (fifos : UnitFifos) (perf : PerfCounters) (storeBufferEmpty : Bool)
    (chs : Channels) (fb : CommitFeedbackPack) (sel : List Nat) (out : Issue.Out) : Prop where
  /-- `sel` is what the first pass selects, and what the second pass sends to which FIFO is kept. -/
  passes : ∃ d, Issue.output state fifos perf storeBufferEmpty chs fb = .ok (d, sel) ∧ out.issued = d.issued ∧
    out.fifos = d.fifos
  width : sel.length ≤ 2
  order : sel.Sublist state.issueQ.ids
  /-- The second pass sends the selected items, all of them and no others. -/
  issued : out.issued = sel.map fun id => Issue.packFor chs (state.issueQ.buffer id)
  operands : ∀ p ∈ out.issued, p.src1Loaded = true ∧ p.src2Loaded = true
  /-- Each goes to a FIFO of its unit that was not full, and no two to the same. -/
  placed : ∃ slots, Placed fifos out.fifos out.issued slots
  /-- Exactly the selected items leave the queue; the others take up what the units announce. -/
  queue : ∃ items, out.state.issueQ.toList = (state.issueQ.ids.filter (!sel.contains ·)).map
    (fun id => Issue.wakeItem chs (state.issueQ.buffer id)) ++ items
  /-- No load or store is selected before an older one that is not. -/
  lsuOrder : (sel.filter fun id => isLsu (state.issueQ.buffer id).toDecodeInfo) <+:
    state.issueQ.ids.filter fun id => isLsu (state.issueQ.buffer id).toDecodeInfo
  lsuOne : (sel.filter fun id => isLsu (state.issueQ.buffer id).toDecodeInfo).length ≤ 1

theorem Issue.packFor_loaded {chs : Channels} {i : ReadregIssueOp} (h : Issue.Sendable chs i) :
    (Issue.packFor chs i).src1Loaded = true ∧ (Issue.packFor chs i).src2Loaded = true := by
  obtain ⟨-, h1, h2⟩ := h
  unfold Issue.packFor Issue.sendPack
  split
  · exact ⟨h1, h2⟩
  · exact ⟨h1, h2⟩

section Passes

variable {state : IssueState} {fifos : UnitFifos} {perf : PerfCounters} {port : List ReadregIssueOp}
  {regfile : Regfile} {storeBufferEmpty : Bool} {chs : Channels} {fb : CommitFeedbackPack}
  {sel keep taken items left : List ReadregIssueOp} {out : Issue.Out}

theorem IssueSpec.selects
    (h : IssueSpec state fifos perf port regfile storeBufferEmpty chs fb sel keep taken items left out) :
    ∃ ids, Selects state fifos perf storeBufferEmpty chs fb ids out := by
  obtain ⟨d, ids, hout, hsub, hlsu, hsel, hkeep, hfifos, hissued⟩ := h.output
  have hsent : out.issued = ids.map fun id => Issue.packFor chs (state.issueQ.buffer id) := by
    rw [h.issued, hsel, List.map_map]
    rfl
  obtain ⟨slots, hplaced⟩ := h.sent.placed
  rw [← h.issued] at hplaced
  refine ⟨ids, ⟨d, hout, hissued, hfifos⟩, output_length hout, hsub, hsent, fun p hp => ?_, ⟨slots, hplaced⟩,
    ⟨items, ?_⟩, hlsu, ?_⟩
  · rw [h.issued] at hp
    obtain ⟨i, hi, rfl⟩ := List.mem_map.mp hp
    exact Issue.packFor_loaded (h.sendable i hi)
  · rw [h.queue, hkeep, List.map_map]
    rfl
  · have hle := hplaced.length_le .lsu
    have hinfo : (fun id => isLsu (state.issueQ.buffer id).toDecodeInfo) =
        (fun p : IssueExecutePack => p.opUnit == .lsu) ∘ fun id => Issue.packFor chs (state.issueQ.buffer id) := by
      funext id
      exact congrArg isLsu (Issue.packFor_info chs (state.issueQ.buffer id)).symm
    rw [hsent, List.filter_map, List.length_map, ← hinfo] at hle
    exact hle

end Passes

section Run

variable {env : Env} {n : Nat} {m : Machine} {w : Window} {s : Stages}

theorem Normal.selects (h : Normal m w) (hs : s.RanBack env n m) (hfb : s.cm.fb.flushing = false) :
    ∃ sel, Selects m.issue s.ex.fifos s.cm.perf m.storeBuffer.isEmpty (s.channels m) s.cm.fb sel s.is := by
  obtain ⟨ret, rest, stop, hflight, hcm⟩ := hs.commitSpec h
  obtain ⟨ex, done, hexRun, hex, hunits⟩ := h.execute_flow env n hfb
  obtain rfl : ex = s.ex := Except.ok.inj (hexRun.symm.trans hs.execute)
  obtain ⟨is, sel, keep, taken, items, left, hisRun, his⟩ := h.issue_flow (h.readHyp hex) hunits hfb
    (fun hne => by rw [hcm.enable, ← hflight]; simpa using hne) s.cm.perf m.storeBuffer.isEmpty
  have hissue := hs.issue
  rw [Stages.channels_flow hfb] at hissue ⊢
  obtain rfl : is = s.is := Except.ok.inj (hisRun.symm.trans hissue)
  exact his.selects

/-- In a flush issue sends nothing. -/
theorem issue_flush {state : IssueState} {fifos : UnitFifos} {perf : PerfCounters} {port : List ReadregIssueOp}
    {regfile : Regfile} {storeBufferEmpty : Bool} {chs : Channels} {fb : CommitFeedbackPack} {out : Issue.Out}
    (h : Issue.run state fifos perf port regfile storeBufferEmpty chs fb = .ok out) (hfb : fb.flushing = true) :
    out.issued = [] ∧ out.state.issueQ = state.issueQ.flush := by
  unfold Issue.run at h
  rw [hfb] at h
  cases h
  exact ⟨rfl, rfl⟩

end Run

/-- In every state a run reaches, the stages up to issue answer. If commit does not flush, the instructions that
the first pass of issue selects are those that the second pass sends; if it does, nothing is sent and the queue is
emptied. -/
theorem issue_selection {env : Env} {n : Nat} {m : Machine} {logs : List CycleLog} (h : run env n = .ok (m, logs)) :
    ∃ s : Stages, s.RanBack env n m ∧
      (s.cm.fb.flushing = false →
        ∃ sel, Selects m.issue s.ex.fifos s.cm.perf m.storeBuffer.isEmpty (s.channels m) s.cm.fb sel s.is) ∧
      (s.cm.fb.flushing = true → s.is.issued = [] ∧ s.is.state.issueQ = m.issue.issueQ.flush) := by
  obtain ⟨s, hs⟩ := (run_refines h).exists_ranBack env n
  refine ⟨s, hs, fun hfb => ?_, issue_flush hs.issue⟩
  obtain hm | ⟨j, hm⟩ := run_refines h
  · exact hm.selects hs hfb
  · -- commit flushes in every cycle of a walk
    obtain ⟨s', hcm, ⟨v⟩⟩ := hs.walkStages hm
    rw [← hcm, v.stages.flushing] at hfb
    cases hfb

/-- `lui x1, 0x80000; addi x2, x0, 1; lw x3, 0(x1); addi x4, x0, 2`. -/
def loadAndAdd : List Word := [0x800000b7, 0x00100113, 0x0000a183, 0x00200213]

/-- The load finds its address on the feedback channel of the `lui` and is sent together with the `addi`. -/
theorem issue_selection_loadAndAdd : ∃ m logs s sel, run (Env.ofProgram loadAndAdd) 7 = .ok (m, logs) ∧
    Stages.RanBack (Env.ofProgram loadAndAdd) 7 m s ∧
    Selects m.issue s.ex.fifos s.cm.perf m.storeBuffer.isEmpty (s.channels m) s.cm.fb sel s.is ∧
    sel.length = 2 ∧ s.is.issued.map (·.opUnit) = [.lsu, .alu] := by
  obtain ⟨m, logs, m', log, h, hc, hP⟩ := exists_cycle_ok (show lastCycle (fun log =>
    log.fb.flushing == false && log.issued.map (·.opUnit) == [.lsu, .alu])
    (run (Env.ofProgram loadAndAdd) (7 + 1)) = true by decide +kernel)
  obtain ⟨s', u, hran, -, -, rfl⟩ := cycle_ok_iff.mp hc
  obtain ⟨hfb, hunits⟩ := Bool.and_eq_true_iff.mp hP
  obtain ⟨s, hs, hselects, -⟩ := issue_selection h
  obtain ⟨hcm, his⟩ : s'.cm = s.cm ∧ s'.is = s.is := by
    rw [hs.unique hran.toRanBack]
    exact ⟨rfl, rfl⟩
  have hfb : s.cm.fb.flushing = false := by
    rw [← hcm]
    exact beq_iff_eq.mp hfb
  have hunits : s.is.issued.map (·.opUnit) = [.lsu, .alu] := by
    rw [← his]
    exact beq_iff_eq.mp hunits
  obtain ⟨sel, hsel⟩ := hselects hfb
  have hlen := congrArg List.length hunits
  rw [hsel.issued, List.length_map, List.length_map] at hlen
  exact ⟨m, logs, s, sel, h, hs, hsel, hlen, hunits⟩

end MyRiscvCore
