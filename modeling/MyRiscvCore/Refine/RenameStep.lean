import MyRiscvCore.Refine.SyncStep
import MyRiscvCore.Pipeline.RenameGroup

/-!
# MyRiscvCore — what the rename stage does in a cycle

The stage takes packs from the head of its FIFO and appends instructions to the window:

* a source gets the register that the map before its instruction gives (`sourceFeedback_eq`), and the
  previous register of a destination is that of the same map (`oldPhyFeedback_eq`), although the
  table is that of the start of the cycle;
* the new registers are the first ones of the free list, which is never too short, since the reorder
  buffer holds fewer instructions than there are spare registers;
* the checkpoint of a predicted jump describes the map after it.

`RenameOk` collects this for a group of instructions; `renameOne_spec` extends the group by one.
-/

namespace MyRiscvCore

open Renaming (mapAfter live)

section Feedback

variable {C : Nat → Nat} {news : List Entry} {rs rd : Nat}

theorem mapped_eq {r : Rat} {l : List (Nat × Nat)} {a : Nat} (h : RatOk r C l) (ha : a ∈ archRegs) :
    Rename.mapped r a = .ok (mapAfter C l a) :=
  mapped_current h.current ha

/-- The source feedback gives the map after the group. -/
theorem sourceFeedback_eq (hpack : ∀ e ∈ news, PackOk e.op.toDecodeRenamePack)
    (hrs : rs ∈ archRegs) :
    Rename.sourceFeedback (news.map (·.op)) true rs (C rs) = mapAt C news rs := by
  induction news generalizing C with
  | nil => rfl
  | cons e news ih =>
    have he := hpack e List.mem_cons_self
    rw [List.map_cons, mapAt_cons, ← ih fun x hx => hpack x (List.mem_cons_of_mem _ hx)]
    unfold Rename.sourceFeedback
    rw [List.foldl_cons]
    congr 1
    -- the newest destination so far
    unfold Entry.mapping Entry.writes
    rw [he.enable, he.needRename_eq]
    have hpos : 0 < rs := hrs.1
    by_cases hrd : rs = e.op.rd
    · subst hrd
      cases e.op.valid <;> cases e.op.rdEnable <;> simp [hpos, mapAfter]
    · have hne : (rs == e.op.rd) = false := by simpa using hrd
      rw [hne]
      split
      · simp_all
      · split
        · rw [Renaming.mapAfter_of_notMem]
          simpa using fun h => hrd h.symm
        · rfl

/-- The previous register of a destination is that of the map after the group. -/
theorem oldPhyFeedback_eq (hpack : ∀ e ∈ news, PackOk e.op.toDecodeRenamePack) :
    (Rename.oldPhyFeedback (news.map (·.op)) rd).getD (C rd) = mapAt C news rd := by
  have hyoung : Rename.oldPhyFeedback (news.map (·.op)) rd =
      (youngestWriter news rd).map (·.op.rdPhy) := by
    unfold Rename.oldPhyFeedback youngestWriter
    rw [← List.map_reverse, List.find?_map, Option.map_map]
    rw [← List.head?_filter, ← List.head?_filter]
    congr 2
    refine List.filter_congr fun e he => ?_
    have hen := (hpack e (List.mem_reverse.mp he)).enable
    simp only [Function.comp_apply, Entry.writes, hen, Bool.true_and, BEq.comm (a := rd)]
  rw [hyoung]
  obtain ⟨hy, hmap⟩ | ⟨x, hy, hmap⟩ := youngest_cases C news rd
  · rw [hy, hmap]
    rfl
  · rw [hy, hmap]
    rfl

end Feedback

/-! ## The group

The invariant of the rename loop: what the operations so far have renamed, and requested. -/

/-- The instructions `news` have been renamed behind those of `flight`. -/
structure GroupOk (rat : Rat) (C : Nat → Nat) (regs : Nat → Word) (flight news : List Entry)
    (ops : List RenameReadregOp) (rob : Fifo RobItem) (globalCp : Checkpoint)
    (ratRequests : List Rat.Request) (cpRequests : List (Fifo.Request Checkpoint)) : Prop where
  waiting : ∀ e ∈ news, e.status = .waiting
  ops : ops = news.map (·.op)
  rob : RobOk rob C (flight ++ news)
  phys : (renamings news).map (·.2) = rat.freeList.take (renamings news).length
  map : MapOk globalCp.ratPhyMapTableValid globalCp.ratPhyMapTableVisible globalCp.ratPhyMapTable C
    (renamings (flight ++ news))
  ratRequests : ratRequests = (renamings news).map fun x => .setMap x.1 x.2
  entry : ∀ pre e post, news = pre ++ e :: post → EntryOk C regs (flight ++ pre) e
  cps : ∃ cps : List (Nat × Checkpoint), cpRequests = cps.map (fun x => .setItem x.1 x.2) ∧
    cps.map (·.1) = (news.filter (·.op.predicted)).map (·.op.checkpointId) ∧
    ∀ pre e post, news = pre ++ e :: post → e.op.predicted = true →
      ∃ cp, (e.op.checkpointId, cp) ∈ cps ∧ CheckpointOk cp (mapAt C (flight ++ pre)) e

/-- A checkpoint taken of the map after a jump. -/
theorem MapOk.checkpointOk {cp : Checkpoint} {C : Nat → Nat} {es : List Entry} {e : Entry}
    (h : MapOk cp.ratPhyMapTableValid cp.ratPhyMapTableVisible cp.ratPhyMapTable C
      (renamings (es ++ [e]))) (uninit : Checkpoint) (q : Fifo Checkpoint) (id : Nat) :
    CheckpointOk (Rename.checkpointOf uninit q cp id) (mapAt C es) e where
  visible_iff := by
    rw [← mapAt_append]
    exact h.visible_iff
  valid_visible := by
    rw [← mapAt_append]
    rintro p ⟨a, ha, rfl⟩
    exact (h.valid_iff _).mpr (Renaming.mapAfter_mem_live ha)
  valid_old := by
    intro hw
    refine (h.valid_iff _).mpr ?_
    rw [renamings_append, renamings_cons, renamings_nil, List.append_nil,
      Entry.mapping_of_writes hw, Renaming.live_snoc]
    have hrd : e.op.rd ∈ archRegs := h.ok.dom (e.op.rd, e.op.rdPhy) (by
      simp [Entry.mapping_of_writes hw])
    exact Set.mem_insert_of_mem _ (Renaming.mapAfter_mem_live hrd)
  valid_lt := fun p hp => h.bound p ((h.valid_iff p).mp hp)

section Rename

variable {rat : Rat} {C : Nat → Nat} {regs : Nat → Word} {flight news : List Entry}
  {ops : List RenameReadregOp} {rob : Fifo RobItem} {globalCp : Checkpoint}
  {ratRequests : List Rat.Request} {cpRequests : List (Fifo.Request Checkpoint)}

/-- There are always enough free registers for one more instruction. -/
theorem GroupOk.enough (h : GroupOk rat C regs flight news ops rob globalCp ratRequests cpRequests)
    (hrat : RatOk rat C (renamings flight)) : (renamings news).length + 1 ≤ rat.freeList.length := by
  have hfree := hrat.length_freeList
  have hrob := h.rob.wf.count_le
  rw [← Fifo.length_ids, h.rob.ids, h.rob.size, List.length_map, List.length_append,
    show robSize = 64 from rfl] at hrob
  have hle : ∀ es : List Entry, (renamings es).length ≤ es.length := by
    intro es
    induction es with
    | nil => simp
    | cons e es ih =>
      rw [renamings_cons, List.length_append, List.length_cons]
      have : e.mapping.length ≤ 1 := by
        unfold Entry.mapping
        split <;> simp
      omega
  have h1 := hle flight
  have h2 := hle news
  omega

/-- The register for the next destination is free. -/
theorem GroupOk.fresh (h : GroupOk rat C regs flight news ops rob globalCp ratRequests cpRequests)
    (hrat : RatOk rat C (renamings flight)) {p : Nat}
    (hp : rat.freeList[(renamings news).length]? = some p) :
    p < phyRegNum ∧ p ∉ live archRegs C (renamings (flight ++ news)) := by
  obtain ⟨hlt, hfree⟩ := hrat.mem_freeList.mp (List.mem_of_getElem? hp)
  refine ⟨hlt, fun hmem => ?_⟩
  rw [renamings_append, Renaming.mem_live] at hmem
  obtain ⟨a, ha, rfl⟩ | ⟨y, hy, rfl⟩ := hmem
  · exact hfree (Renaming.mem_live.mpr (.inl ⟨a, ha, rfl⟩))
  · rw [List.mem_append] at hy
    obtain hy | hy := hy
    · exact hfree (Renaming.mem_live.mpr (.inr ⟨y, hy, rfl⟩))
    · -- the registers of the group are earlier in the free list
      have hin : y.2 ∈ rat.freeList.take (renamings news).length := by
        rw [← h.phys]
        exact List.mem_map_of_mem hy
      obtain ⟨i, hi, heq⟩ := List.mem_take_iff_getElem.mp hin
      have hlen : (renamings news).length < rat.freeList.length := (List.getElem?_eq_some_iff.mp hp).1
      have := (List.getElem?_inj (by omega) rat.nodup_freeList).mp
        ((List.getElem?_eq_getElem (by omega)).trans (heq ▸ hp.symm))
      omega

/-- One more instruction. -/
theorem GroupOk.snoc (h : GroupOk rat C regs flight news ops rob globalCp ratRequests cpRequests)
    (op : RenameReadregOp) (item : RobItem) {cp : Checkpoint} (uninit : Checkpoint)
    (q : Fifo Checkpoint) (hx : PackOk op.toDecodeRenamePack) (hroom : rob.isFull = false)
    (hid : op.robId = rob.wptr) (hitem : item = robItemOf (mapAt C (flight ++ news)) ⟨op, .waiting⟩)
    (hphys : ∀ y ∈ Entry.mapping ⟨op, .waiting⟩,
      rat.freeList[(renamings news).length]? = some y.2)
    (hmap : MapOk cp.ratPhyMapTableValid cp.ratPhyMapTableVisible cp.ratPhyMapTable C
      (renamings (flight ++ news) ++ Entry.mapping ⟨op, .waiting⟩))
    (h1 : op.valid = true → op.rs1NeedMap = true → op.rs1Phy = mapAt C (flight ++ news) op.rs1)
    (h2 : op.valid = true → op.rs2NeedMap = true → op.rs2Phy = mapAt C (flight ++ news) op.rs2) :
    GroupOk rat C regs flight (news ++ [⟨op, .waiting⟩]) (ops ++ [op]) (rob.pushed item) cp
      (ratRequests ++ (Entry.mapping ⟨op, .waiting⟩).map fun x => .setMap x.1 x.2)
      (cpRequests ++ if op.valid && op.predicted && op.checkpointIdValid then
        [Fifo.Request.setItem op.checkpointId (Rename.checkpointOf uninit q cp op.checkpointId)]
        else []) := by
  obtain ⟨e, he⟩ : ∃ e : Entry, e = ⟨op, .waiting⟩ := ⟨_, rfl⟩
  have hop : e.op = op := by rw [he]
  rw [← he] at hitem hphys hmap ⊢
  have hren : renamings (flight ++ (news ++ [e])) = renamings (flight ++ news) ++ e.mapping := by
    simp
  exact {
    waiting := by
      intro y hy
      rw [List.mem_append, List.mem_singleton] at hy
      obtain hy | rfl := hy
      · exact h.waiting y hy
      · rw [he]
    ops := by rw [h.ops, List.map_append, ← hop]; rfl
    rob := by
      rw [← List.append_assoc, hitem]
      exact h.rob.push (h.rob.wf.count_lt h.rob.save hroom) (hop ▸ hid)
    phys := by
      rw [renamings_append, List.map_append, h.phys, renamings_cons, renamings_nil, List.append_nil,
        List.length_append]
      cases hm : e.mapping with
      | nil => simp
      | cons y ys =>
        have hys : ys = [] := by
          unfold Entry.mapping at hm
          split at hm <;> simp at hm
          exact hm.2
        subst hys
        have hy := hphys y (by rw [hm]; exact List.mem_singleton_self y)
        rw [List.length_singleton, List.take_add_one, hy]
        rfl
    map := by rw [hren]; exact hmap
    ratRequests := by
      rw [h.ratRequests, renamings_append, List.map_append]
      simp
    entry := by
      intro pre y post hsplit
      obtain ⟨post', hpre⟩ | ⟨rfl, rfl⟩ := split_snoc hsplit
      · exact h.entry pre y post' hpre
      · exact ⟨hop ▸ hx, hop ▸ h1, hop ▸ h2, fun r hr => by rw [he] at hr; cases hr⟩
    cps := by
      obtain ⟨cps, hreq, hkeys, hok⟩ := h.cps
      -- only a predicted jump saves a checkpoint, of the map that it leaves
      cases hp : op.predicted with
      | false =>
        refine ⟨cps, by simp [hreq], ?_, fun pre y post hsplit hy => ?_⟩
        · rw [hkeys, List.filter_append, List.filter_cons_of_neg (by simp [hop, hp])]
          simp
        · obtain ⟨post', hpre⟩ | ⟨rfl, rfl⟩ := split_snoc hsplit
          · exact hok pre y post' hpre hy
          · rw [hop, hp] at hy
            cases hy
      | true =>
        obtain ⟨hv, hc, -⟩ := hx.predicted hp
        refine ⟨cps ++ [(op.checkpointId, Rename.checkpointOf uninit q cp op.checkpointId)],
          by simp [hreq, hv, hc], ?_, fun pre y post hsplit hy => ?_⟩
        · rw [List.map_append, hkeys, List.filter_append,
            List.filter_cons_of_pos (by simp [hop, hp]), List.map_append]
          simp [hop]
        · obtain ⟨post', hpre⟩ | ⟨rfl, rfl⟩ := split_snoc hsplit
          · obtain ⟨cp', hmem, hcp'⟩ := hok pre y post' hpre hy
            exact ⟨cp', List.mem_append_left _ hmem, hcp'⟩
          · refine ⟨_, List.mem_append_right _ (by rw [hop]; exact List.mem_singleton_self _), ?_⟩
            refine MapOk.checkpointOk ?_ uninit q op.checkpointId
            rw [List.append_assoc, hren]
            exact hmap }

/-- A source register of the group's next instruction. -/
theorem mapSource_spec (hrat : RatOk rat C (renamings flight)) {needMap : Bool} {rs : Nat}
    (hrs : needMap = true → rs ∈ archRegs) :
    ∃ phy, Rename.mapSource rat needMap rs = .ok phy ∧ (needMap = true → phy = mapAt C flight rs) := by
  cases needMap with
  | false => exact ⟨0, rfl, by simp⟩
  | true => exact ⟨_, mapped_eq hrat (hrs rfl), fun _ => rfl⟩

theorem GroupOk.pack (h : GroupOk rat C regs flight news ops rob globalCp ratRequests cpRequests) :
    ∀ e ∈ news, PackOk e.op.toDecodeRenamePack := by
  intro e he
  obtain ⟨pre, post, hsplit⟩ := List.append_of_mem he
  exact (h.entry pre e post hsplit).pack

theorem GroupOk.source (h : GroupOk rat C regs flight news ops rob globalCp ratRequests cpRequests)
    {needMap : Bool} {rs phy : Nat} (hneed : needMap = true) (hrs : rs ∈ archRegs)
    (hphy : phy = mapAt C flight rs) :
    Rename.sourceFeedback ops needMap rs phy = mapAt C (flight ++ news) rs := by
  rw [h.ops, hneed, hphy, sourceFeedback_eq h.pack hrs, mapAt_append]

end Rename

section Loop

variable {rat : Rat} {C : Nat → Nat} {regs : Nat → Word} {flight news : List Entry}
  {c : Rename.Ctx} {x : DecodeRenamePack}

/-- The destination of the group's next instruction. -/
theorem renameDest_spec (hrat : RatOk rat C (renamings flight))
    (h : GroupOk rat C regs flight news c.ops c.rob.fifo c.globalCp c.ratRequests c.cpRequests)
    (hx : PackOk x) {phys : List Nat} (hphys : (x.valid && x.needRename) = true →
      some (phys.getD c.usedPhyRegCnt 0) = rat.freeList[(renamings news).length]?) :
    ∃ p cp, Rename.renameDest rat phys x c =
        .ok (if x.valid && x.needRename then some (mapAt C (flight ++ news) x.rd) else none, p, { c with
          usedPhyRegCnt := c.usedPhyRegCnt + if x.valid && x.needRename then 1 else 0
          globalCp := cp
          ratRequests := c.ratRequests ++
            if x.valid && x.needRename then [.setMap x.rd p] else [] }) ∧
      ((x.valid && x.needRename) = true → rat.freeList[(renamings news).length]? = some p) ∧
      MapOk cp.ratPhyMapTableValid cp.ratPhyMapTableVisible cp.ratPhyMapTable C
        (renamings (flight ++ news) ++ if x.valid && x.needRename then [(x.rd, p)] else []) := by
  unfold Rename.renameDest
  cases hw : (x.valid && x.needRename) with
  | false => exact ⟨0, c.globalCp, by simp, by simp, by simpa using h.map⟩
  | true =>
    have hrd := hx.rd_mem (Bool.and_eq_true_iff.mp hw).2
    obtain ⟨p, hp⟩ : ∃ p, p = phys.getD c.usedPhyRegCnt 0 := ⟨_, rfl⟩
    have hnext := (hphys hw).symm
    rw [← hp] at hnext
    obtain ⟨hlt, hfree⟩ := h.fresh hrat hnext
    obtain ⟨cp, hcp, hmap⟩ := h.map.cpSetMap_ok hrd hlt hfree
    -- the replaced register, through the group or from the table
    have hold : (Rename.oldPhyFeedback c.ops x.rd).getD (mapAfter C (renamings flight) x.rd) =
        mapAt C (flight ++ news) x.rd := by
      rw [h.ops, mapAt_append]
      exact oldPhyFeedback_eq h.pack
    have hsync : Rat.setMapSync x.rd p = .ok (.setMap x.rd p) := by
      simp only [Rat.setMapSync, archIdInRange_iff.mpr hrd, decide_eq_true hlt]
      rfl
    refine ⟨p, cp, ?_, fun _ => hnext, hmap⟩
    simp only [if_true, mapped_eq hrat hrd, ← hp, hsync, hcp, hold, bind, Except.bind, pure,
      Except.pure]

/-- One more instruction is renamed. -/
theorem renameOne_spec (hrat : RatOk rat C (renamings flight))
    (h : GroupOk rat C regs flight news c.ops c.rob.fifo c.globalCp c.ratRequests c.cpRequests)
    (hused : c.usedPhyRegCnt = (renamings news).length) (hx : PackOk x)
    (hroom : c.rob.fifo.isFull = false) (uninit : Checkpoint) (q : Fifo Checkpoint) {phys : List Nat}
    (hphys : (x.valid && x.needRename) = true →
      some (phys.getD c.usedPhyRegCnt 0) = rat.freeList[(renamings news).length]?) :
    ∃ c' e, Rename.renameOne rat uninit q phys x c = .ok c' ∧ e.op.toDecodeRenamePack = x ∧
      GroupOk rat C regs flight (news ++ [e]) c'.ops c'.rob.fifo c'.globalCp c'.ratRequests
        c'.cpRequests ∧
      c'.usedPhyRegCnt = (renamings (news ++ [e])).length ∧ c'.phyRegReqCnt = c.phyRegReqCnt ∧
      c'.fifo = c.fifo ∧ c'.perf = c.perf ∧ c'.rob = { c.rob with fifo := c'.rob.fifo } := by
  obtain ⟨s1, hs1, hv1⟩ := mapSource_spec hrat (fun hn => hx.rs1_mem hn)
  obtain ⟨s2, hs2, hv2⟩ := mapSource_spec hrat (fun hn => hx.rs2_mem hn)
  obtain ⟨p, cp, hdest, hnext, hmap⟩ := renameDest_spec hrat h hx hphys
  obtain ⟨op, hop⟩ : ∃ op : RenameReadregOp, op = {
      toDecodeRenamePack := x, robId := c.rob.fifo.wptr, rdPhy := p
      rs1Phy := if x.valid then Rename.sourceFeedback c.ops x.rs1NeedMap x.rs1 s1 else s1
      rs2Phy := if x.valid then Rename.sourceFeedback c.ops x.rs2NeedMap x.rs2 s2 else s2 } := ⟨_, rfl⟩
  have hpack : op.toDecodeRenamePack = x := by rw [hop]
  have hmapping : Entry.mapping ⟨op, .waiting⟩ =
      if x.valid && x.needRename then [(x.rd, p)] else [] := by rw [hop]; rfl
  -- sources from the table or from the group, then the destination: `snoc` puts them together
  have hgroup := h.snoc op (Rename.robItem x p
      (if x.valid && x.needRename then some (mapAt C (flight ++ news) x.rd) else none))
    uninit q (hpack.symm ▸ hx) hroom (by rw [hop]) (by rw [hop]; rfl)
    (by
      intro y hy
      rw [hmapping] at hy
      split at hy
      · rename_i hw
        rw [List.mem_singleton.mp hy]
        exact hnext hw
      · cases hy)
    (by rw [hmapping]; exact hmap)
    (by
      intro hv hn
      rw [hpack] at hv hn
      rw [hop]
      simp only [hv, if_true]
      exact h.source hn (hx.rs1_mem hn) (hv1 hn))
    (by
      intro hv hn
      rw [hpack] at hv hn
      rw [hop]
      simp only [hv, if_true]
      exact h.source hn (hx.rs2_mem hn) (hv2 hn))
  have hreq : (Entry.mapping ⟨op, .waiting⟩).map (fun y => Rat.Request.setMap y.1 y.2) =
      if x.valid && x.needRename then [.setMap x.rd p] else [] := by
    rw [hmapping]
    split <;> rfl
  rw [hreq, hpack] at hgroup
  refine ⟨{ c with
    usedPhyRegCnt := c.usedPhyRegCnt + if x.valid && x.needRename then 1 else 0
    globalCp := cp
    ratRequests := c.ratRequests ++ if x.valid && x.needRename then [.setMap x.rd p] else []
    rob := { c.rob with fifo := c.rob.fifo.pushed (Rename.robItem x p
      (if x.valid && x.needRename then some (mapAt C (flight ++ news) x.rd) else none)) }
    ops := c.ops ++ [op]
    cpRequests := c.cpRequests ++ if x.valid && x.predicted && x.checkpointIdValid then
      [Fifo.Request.setItem x.checkpointId (Rename.checkpointOf uninit q cp x.checkpointId)]
      else [] }, ⟨op, .waiting⟩, ?_, hpack, hgroup, ?_, rfl, rfl, rfl, rfl⟩
  · unfold Rename.renameOne
    simp only [hdest, pushRob_eq h.rob.wf hroom, hs1, hs2, bind, Except.bind, pure, Except.pure, hop]
  · rw [renamings_append, List.length_append, ← hused, renamings_cons, renamings_nil, List.append_nil,
      hmapping]
    cases (x.valid && x.needRename) <;> rfl

/-- What `rename::run` has done when it has taken the packs of `news`. -/
structure RenameOk (rat : Rat) (C : Nat → Nat) (regs : Nat → Word) (flight : List Entry)
    (packs : List DecodeRenamePack) (rob : Rob) (perf : PerfCounters) (news : List Entry)
    (c : Rename.Ctx) : Prop where
  fifo : c.fifo.SaveOk
  packs : packs = news.map (·.op.toDecodeRenamePack) ++ c.fifo.toList
  group : GroupOk rat C regs flight news c.ops c.rob.fifo c.globalCp c.ratRequests c.cpRequests
  rob : c.rob = { rob with fifo := c.rob.fifo }
  perf : c.perf.phyRegfileFull = perf.phyRegfileFull

/-- The fields other than the counters. -/
theorem RenameOk.congr {packs : List DecodeRenamePack} {rob : Rob} {perf : PerfCounters}
    {c' : Rename.Ctx} (h : RenameOk rat C regs flight packs rob perf news c) (hf : c'.fifo = c.fifo)
    (ho : c'.ops = c.ops) (hr : c'.rob = c.rob) (hg : c'.globalCp = c.globalCp)
    (hq : c'.ratRequests = c.ratRequests) (hc : c'.cpRequests = c.cpRequests)
    (hp : c'.perf.phyRegfileFull = c.perf.phyRegfileFull) :
    RenameOk rat C regs flight packs rob perf news c' where
  fifo := hf ▸ h.fifo
  packs := hf ▸ h.packs
  group := by
    rw [ho, hr, hg, hq, hc]
    exact h.group
  rob := hr ▸ h.rob
  perf := hp.trans h.perf

/-- The loop, by induction on the packs that are left. -/
theorem renameLoop_spec (hrat : RatOk rat C (renamings flight)) (uninit : Checkpoint)
    (q : Fifo Checkpoint) {packs : List DecodeRenamePack} (hpacks : ∀ x ∈ packs, PackOk x)
    {rob : Rob} {perf : PerfCounters} (rounds : Nat)
    (h : RenameOk rat C regs flight packs rob perf news c)
    (hused : c.usedPhyRegCnt = (renamings news).length)
    (hreq : c.phyRegReqCnt = (renamings news).length) :
    ∃ c' news', Rename.renameLoop rat uninit q rounds c = .ok c' ∧
      RenameOk rat C regs flight packs rob perf news' c' := by
  induction rounds generalizing c news with
  | zero => exact ⟨c, news, rfl, h⟩
  | succ rounds ih =>
    unfold Rename.renameLoop
    obtain ⟨hpop, -⟩ | ⟨x, hpop, hc, hlist⟩ := h.fifo.wf.pop_cases
    · rw [hpop]
      exact ⟨c, news, rfl, h⟩
    have hx : PackOk x := hpacks x (by rw [h.packs, hlist]; simp)
    have henough := h.group.enough hrat
    -- there are enough free registers
    obtain ⟨n, hn⟩ : ∃ n, n = c.phyRegReqCnt +
      if x.enable && x.valid && x.needRename then 1 else 0 := ⟨_, rfl⟩
    have hlen : n ≤ (rat.getFreePhyId n).length := by
      rw [rat.getFreePhyId_eq, List.length_take]
      have : n ≤ (renamings news).length + 1 := by
        rw [hn, hreq]
        split <;> omega
      omega
    rw [hpop]
    simp only [← hn]
    by_cases hroom : 1 ≤ c.rob.getFreeSpace
    · rw [if_pos (by simp [hlen, hroom]), if_pos hx.enable]
      obtain ⟨c₁, hc₁⟩ : ∃ c₁ : Rename.Ctx, c₁ = { c with
        phyRegReqCnt := n, robReqCnt := c.robReqCnt + if x.enable then 1 else 0
        fifo := c.fifo.popped } := ⟨_, rfl⟩
      have hgroup₁ : GroupOk rat C regs flight news c₁.ops c₁.rob.fifo c₁.globalCp c₁.ratRequests
          c₁.cpRequests := by
        rw [hc₁]
        exact h.group
      have hused₁ : c₁.usedPhyRegCnt = (renamings news).length := by rw [hc₁]; exact hused
      have hphys : (x.valid && x.needRename) = true →
          some ((rat.getFreePhyId n).getD c₁.usedPhyRegCnt 0) =
            rat.freeList[(renamings news).length]? := by
        intro hw
        have hn' : n = (renamings news).length + 1 := by
          rw [hn, hreq, hx.enable, Bool.true_and, if_pos hw]
        rw [hn', hused₁]
        exact getFreePhyId_getD rat (by omega)
      obtain ⟨c₂, e, hone, hop, hgroup, hused₂, hreq₂, hfifo, hperf, hrob⟩ := renameOne_spec hrat hgroup₁
        hused₁ hx (by rw [hc₁]; exact (Rob.getFreeSpace_pos h.group.rob.wf).mp hroom) uninit q hphys
      rw [← hc₁, hone]
      have hmapping : (renamings [e]).length = if x.valid && x.needRename then 1 else 0 := by
        have hw : e.writes = (x.valid && x.needRename) := by
          unfold Entry.writes
          rw [hop]
        rw [renamings_cons, renamings_nil, List.append_nil, Entry.mapping, hw]
        split <;> rfl
      have hok : RenameOk rat C regs flight packs rob perf (news ++ [e]) c₂ := by
        refine ⟨?_, ?_, hgroup, ?_, ?_⟩
        · rw [hfifo, hc₁]
          exact h.fifo.popped hc
        · rw [h.packs, hlist, hfifo, hc₁, List.map_append, List.append_assoc]
          simp [hop]
        · rw [hrob, hc₁, h.rob]
        · rw [hperf, hc₁]
          exact h.perf
      refine ih hok hused₂ ?_
      rw [hreq₂, hc₁, renamings_append, List.length_append, hmapping, hn, hreq, hx.enable,
        Bool.true_and]
    · rw [if_neg (by simp [hroom]), if_neg (by omega)]
      exact ⟨_, news, rfl, h.congr rfl rfl rfl rfl rfl rfl rfl⟩

/-- What `rename::run` does outside a flush. -/
structure RenameSpec (rat : Rat) (C : Nat → Nat) (regs : Nat → Word) (flight : List Entry)
    (dr : Fifo DecodeRenamePack) (rob : Rob) (perf : PerfCounters) (port : List RenameReadregOp)
    (stall : Bool) (news : List Entry) (out : Rename.Out) : Prop where
  fifo : out.fifo.SaveOk
  packs : dr.toList = news.map (·.op.toDecodeRenamePack) ++ out.fifo.toList
  group : ∃ cp, GroupOk rat C regs flight news out.renamed out.rob.fifo cp out.ratRequests
    out.cpRequests
  rob : out.rob = { rob with fifo := out.rob.fifo }
  perf : out.perf.phyRegfileFull = perf.phyRegfileFull
  port : out.port = if stall then port else Rename.slots (news.map (·.op))
  stall : stall = true → news = []

/-- Before the first instruction of the group. -/
theorem GroupOk.nil {rob : Fifo RobItem} (hrat : RatOk rat C (renamings flight))
    (hrob : RobOk rob C flight) (uninit : Checkpoint) :
    GroupOk rat C regs flight [] [] rob (rat.save uninit) [] [] where
  waiting := by simp
  ops := rfl
  rob := by rwa [List.append_nil]
  phys := by simp
  map := by
    rw [List.append_nil]
    exact hrat.toMapOk
  ratRequests := rfl
  entry := by simp
  cps := ⟨[], rfl, rfl, by simp⟩

/-- The stage in a cycle without a flush. -/
theorem rename_flow_spec (hrat : RatOk rat C (renamings flight)) (uninit : Checkpoint)
    (q : Fifo Checkpoint) {fifo : Fifo DecodeRenamePack} (hfifo : fifo.SaveOk)
    (hpacks : ∀ x ∈ fifo.toList, PackOk x) {rob : Rob} (hrob : RobOk rob.fifo C flight)
    (perf : PerfCounters) (port : List RenameReadregOp) (stall : Bool) {fb : CommitFeedbackPack}
    (hflush : fb.flushing = false) :
    ∃ out news, Rename.run rat uninit q fifo rob perf port stall fb = .ok out ∧
      RenameSpec rat C regs flight fifo rob perf port stall news out := by
  unfold Rename.run
  rw [hflush, if_pos (by rfl)]
  have hnil : GroupOk rat C regs flight [] [] rob.fifo (rat.save uninit) [] [] :=
    .nil hrat hrob uninit
  cases stall with
  | true =>
    exact ⟨_, [], rfl, hfifo, by simp, ⟨_, hnil⟩, rfl, rfl, rfl, fun _ => rfl⟩
  | false =>
    obtain ⟨c, news, hloop, hok⟩ := renameLoop_spec hrat uninit q hpacks renameWidth
      (c := {
        fifo := fifo, rob := rob, perf := perf, ops := [], phyRegReqCnt := 0, robReqCnt := 0
        usedPhyRegCnt := 0, globalCp := rat.save uninit, ratRequests := [], cpRequests := [] })
      ⟨hfifo, by simp, hnil, rfl, rfl⟩ rfl rfl
    refine ⟨_, news, by simp only [Bool.not_false, if_true, hloop]; rfl, hok.fifo, hok.packs,
      ⟨_, hok.group⟩, hok.rob, hok.perf, ?_, by simp⟩
    simp [hok.group.ops]

end Loop

end MyRiscvCore
