import MyRiscvCore.Refine.OperandStep
import MyRiscvCore.Component.IssueQueueFacts

/-!
# MyRiscvCore — what the issue stage does in a cycle

Outside a flush `issue::run` sends some items of the queue to the units, wakes up the others, and takes
over slots from register read. The lemmas follow its passes:

* `select_spec` — the selected items are ready, a load or store is selected only as the first one in
  the queue, a CSR instruction or `mret` only alone and as the oldest instruction, and no more items
  are selected for a unit than it has free FIFOs;
* `dispatch_spec` — hence every selected item reaches a FIFO of its unit;
* `wakeUp_spec`, `input_spec` — what the other items and the new ones have collected.

`IssueSpec` puts them together.
-/

namespace MyRiscvCore

variable {fifos : UnitFifos} {chs : Channels} {u : OpUnit} {fb : CommitFeedbackPack}

/-! ## Free FIFOs

The first pass counts the FIFOs that are free, the second fills them: both are counts of slots. -/

/-- The number of units of a kind that are marked free. -/
def freeUnits (available : OpUnit → Nat → Bool) (u : OpUnit) : Nat :=
  ((List.range (unitNum u)).filter (available u)).length

/-- The number of items for a unit. -/
def itemsFor (items : List ReadregIssueOp) (u : OpUnit) : Nat :=
  (items.filter (·.opUnit == u)).length

/-- Taking one of the marked elements leaves one less. -/
theorem length_filter_update {p : Nat → Bool} {i : Nat} (hp : p i = true) {l : List Nat}
    (hnd : l.Nodup) (hi : i ∈ l) :
    (l.filter (Function.update p i false)).length + 1 = (l.filter p).length := by
  induction l with
  | nil => simp at hi
  | cons x l ih =>
    rw [List.nodup_cons] at hnd
    -- the one place where the filters differ
    by_cases hx : x = i
    · subst hx
      have hrest : l.filter (Function.update p x false) = l.filter p :=
        List.filter_congr fun y hy => by
          have hne : y ≠ x := by
            rintro rfl
            exact hnd.1 hy
          rw [Function.update_of_ne hne]
      rw [List.filter_cons_of_neg (by simp), List.filter_cons_of_pos hp, hrest, List.length_cons]
    · have hi' : i ∈ l := by
        obtain rfl | hi := List.mem_cons.mp hi
        · exact absurd rfl hx
        · exact hi
      have hval : Function.update p i false x = p x := Function.update_of_ne hx _ _
      have := ih hnd.2 hi'
      cases hpx : p x with
      | true =>
        rw [List.filter_cons_of_pos (by rw [hval, hpx]), List.filter_cons_of_pos hpx]
        simp only [List.length_cons]
        omega
      | false =>
        rw [List.filter_cons_of_neg (by rw [hval, hpx]; simp),
          List.filter_cons_of_neg (by simp [hpx])]
        exact this

/-- Taking a unit. -/
theorem freeUnits_take {available : OpUnit → Nat → Bool} {i : Nat}
    (hfind : Issue.findUnit available u = some i) (u' : OpUnit) :
    freeUnits (Function.update available u (Function.update (available u) i false)) u' +
      (if u = u' then 1 else 0) = freeUnits available u' := by
  unfold freeUnits
  by_cases hu : u = u'
  · subst hu
    rw [Function.update_self, if_pos rfl]
    exact length_filter_update (List.find?_some hfind) List.nodup_range
      (List.mem_of_find?_eq_some hfind)
  · rw [Function.update_of_ne (fun e => hu e.symm), if_neg hu, Nat.add_zero]

/-- One more item for its unit. -/
theorem itemsFor_snoc (items : List ReadregIssueOp) (item : ReadregIssueOp) (u : OpUnit) :
    itemsFor (items ++ [item]) u = itemsFor items u + if item.opUnit = u then 1 else 0 := by
  unfold itemsFor
  rw [List.filter_append, List.length_append]
  by_cases h : item.opUnit = u <;> simp [h]

/-! ## First pass

The pass goes over the queue from the oldest item on. `SelectOk` is its invariant; the pass stops at the first
item that is not `Passed`. -/

/-- The operands of an item are ready. -/
def Issue.ready (chs : Channels) (i : ReadregIssueOp) : Bool :=
  Issue.sourceReady chs i.src1Loaded i.rs1Phy && Issue.sourceReady chs i.src2Loaded i.rs2Phy

/-- A `fence` that may be sent: it is the oldest instruction, and the store buffer is empty. -/
def Issue.FenceFree (storeBufferEmpty : Bool) (fb : CommitFeedbackPack) (i : ReadregIssueOp) : Prop :=
  i.op = .fence → storeBufferEmpty = true ∧ fb.nextHandleRobId = i.robId

/-- An item behind which the first pass goes on. -/
def Issue.Passed (storeBufferEmpty : Bool) (fb : CommitFeedbackPack) (i : ReadregIssueOp) : Prop :=
  Issue.isSerial i = false ∧ Issue.FenceFree storeBufferEmpty fb i

/-- What the first pass has selected when it has seen the ids `seen`. -/
structure SelectOk (q : Fifo ReadregIssueOp) (chs : Channels) (fifos : UnitFifos) (storeBufferEmpty : Bool)
    (fb : CommitFeedbackPack) (seen : List Nat) (s : Issue.SelectState) : Prop where
  ids : s.itemIdList.Sublist seen
  items : s.items = s.itemIdList.map q.buffer
  ready : ∀ i ∈ s.items, Issue.ready chs i = true
  lsu : (s.itemIdList.filter fun id => isLsu (q.buffer id).toDecodeInfo) <+:
    seen.filter fun id => isLsu (q.buffer id).toDecodeInfo
  units : ∀ u, freeUnits s.available u + itemsFor s.items u =
    freeUnits (fun unit i => !(fifos unit i).isFull) u
  serial : ∀ i ∈ s.items, Issue.isSerial i = true → s.items = [i] ∧ fb.nextHandleRobId = i.robId
  fence : ∀ i ∈ s.items, Issue.FenceFree storeBufferEmpty fb i
  first : ∀ id ∈ s.itemIdList, ∃ pre post, seen = pre ++ id :: post ∧
    ∀ x ∈ pre, Issue.Passed storeBufferEmpty fb (q.buffer x)

/-- The same while the pass goes on: nothing that stops it is seen yet. -/
structure SelectGo (q : Fifo ReadregIssueOp) (chs : Channels) (fifos : UnitFifos) (storeBufferEmpty : Bool)
    (fb : CommitFeedbackPack) (seen : List Nat) (s : Issue.SelectState) : Prop
    extends SelectOk q chs fifos storeBufferEmpty fb seen s where
  plain : ∀ id ∈ seen, Issue.Passed storeBufferEmpty fb (q.buffer id)
  lsuSeen : s.hasLsuOp = false → (seen.filter fun id => isLsu (q.buffer id).toDecodeInfo) = []

section Select

variable {q : Fifo ReadregIssueOp} {chs : Channels} {fifos : UnitFifos} {storeBufferEmpty : Bool}
  {fb : CommitFeedbackPack} {seen : List Nat} {s : Issue.SelectState} {id : Nat}

/-- An item that is not selected. -/
theorem SelectOk.skip (h : SelectOk q chs fifos storeBufferEmpty fb seen s) (id : Nat) {s' : Issue.SelectState}
    (hi : s'.items = s.items) (hl : s'.itemIdList = s.itemIdList) (ha : s'.available = s.available) :
    SelectOk q chs fifos storeBufferEmpty fb (seen ++ [id]) s' where
  ids := hl ▸ h.ids.trans (List.sublist_append_left _ _)
  items := by rw [hi, hl, h.items]
  ready := hi ▸ h.ready
  lsu := by
    rw [hl, List.filter_append]
    exact h.lsu.trans (List.prefix_append _ _)
  units := by rw [hi, ha]; exact h.units
  serial := hi ▸ h.serial
  fence := hi ▸ h.fence
  first x hx := by
    obtain ⟨pre, post, hseen, hplain⟩ := h.first x (hl ▸ hx)
    exact ⟨pre, post ++ [id], by rw [hseen, List.append_assoc, List.cons_append], hplain⟩

/-- An item that is selected. -/
theorem SelectGo.take (h : SelectGo q chs fifos storeBufferEmpty fb seen s) {index : Nat} {s' : Issue.SelectState}
    (hready : Issue.ready chs (q.buffer id) = true)
    (hfind : Issue.findUnit s.available (q.buffer id).opUnit = some index)
    (hlsu : (q.buffer id).opUnit = .lsu → s.hasLsuOp = false)
    (hserial : Issue.isSerial (q.buffer id) = true →
      s.items = [] ∧ fb.nextHandleRobId = (q.buffer id).robId)
    (hfence : Issue.FenceFree storeBufferEmpty fb (q.buffer id))
    (hi : s'.items = s.items ++ [q.buffer id]) (hl : s'.itemIdList = s.itemIdList ++ [id])
    (ha : s'.available = Function.update s.available (q.buffer id).opUnit
      (Function.update (s.available (q.buffer id).opUnit) index false)) :
    SelectOk q chs fifos storeBufferEmpty fb (seen ++ [id]) s' where
  ids := hl ▸ h.ids.append (List.Sublist.refl _)
  items := by rw [hi, hl, h.items]; simp
  ready := by
    intro i hmem
    rw [hi, List.mem_append, List.mem_singleton] at hmem
    obtain hmem | rfl := hmem
    · exact h.ready i hmem
    · exact hready
  -- only the oldest load or store is taken
  lsu := by
    rw [hl, List.filter_append, List.filter_append]
    by_cases hu : isLsu (q.buffer id).toDecodeInfo = true
    · have hnone := h.lsuSeen (hlsu (by simpa [isLsu] using hu))
      have hprev := h.lsu
      rw [hnone, List.prefix_nil] at hprev
      rw [hnone, hprev]
    · rw [List.filter_cons_of_neg (p := fun id => isLsu (q.buffer id).toDecodeInfo) hu]
      simpa using h.lsu
  units := by
    intro u
    rw [hi, ha, itemsFor_snoc]
    have h1 := freeUnits_take hfind u
    have h2 := h.units u
    omega
  serial := by
    intro i hmem hs
    rw [hi, List.mem_append, List.mem_singleton] at hmem
    obtain hmem | rfl := hmem
    · rw [h.items] at hmem
      obtain ⟨x, hx, rfl⟩ := List.mem_map.mp hmem
      rw [(h.plain x (h.ids.subset hx)).1] at hs
      cases hs
    · obtain ⟨hnil, hnext⟩ := hserial hs
      rw [hi, hnil]
      exact ⟨rfl, hnext⟩
  fence := by
    intro i hmem
    rw [hi, List.mem_append, List.mem_singleton] at hmem
    obtain hmem | rfl := hmem
    · exact h.fence i hmem
    · exact hfence
  first x hx := by
    rw [hl, List.mem_append, List.mem_singleton] at hx
    obtain hx | rfl := hx
    · obtain ⟨pre, post, hseen, hplain⟩ := h.first x hx
      exact ⟨pre, post ++ [id], by rw [hseen, List.append_assoc, List.cons_append], hplain⟩
    · exact ⟨seen, [], rfl, h.plain⟩

/-- One round of the first pass. -/
theorem selectStep_spec (hq : q.WF) (hfb : fb.enable = true)
    (hid : id ∈ q.ids) (h : SelectGo q chs fifos storeBufferEmpty fb seen s) :
    ∃ s' stop, Issue.selectStep q chs storeBufferEmpty fb id s = .ok (s', stop) ∧
      SelectOk q chs fifos storeBufferEmpty fb (seen ++ [id]) s' ∧
      (stop = false → SelectGo q chs fifos storeBufferEmpty fb (seen ++ [id]) s') := by
  unfold Issue.selectStep
  simp only [IssueQueue.getItem_eq hq hid, hfb, assert_true, bind, Except.bind, pure, Except.pure]
  obtain ⟨item, hitem⟩ : ∃ item, item = q.buffer id := ⟨_, rfl⟩
  rw [← hitem]
  by_cases h1 : (Issue.isSerial item && s.items.length != 0) = true
  · rw [if_pos h1]
    exact ⟨s, true, rfl, h.toSelectOk.skip id rfl rfl rfl, by simp⟩
  rw [if_neg h1]
  by_cases h2 : (Issue.isSerial item && fb.nextHandleRobId != item.robId) = true
  · rw [if_pos h2]
    exact ⟨s, true, rfl, h.toSelectOk.skip id rfl rfl rfl, by simp⟩
  rw [if_neg h2]
  obtain ⟨fence, hfence⟩ : ∃ fence, fence = (item.op == Op.fence &&
      (!storeBufferEmpty || s.items.length != 0 || fb.nextHandleRobId != item.robId)) := ⟨_, rfl⟩
  obtain ⟨t, ht⟩ : ∃ t : Issue.SelectState, t =
      (Issue.findUnit s.available item.opUnit).elim s fun index =>
        if Issue.ready chs item && (!s.hasLsuOp || item.opUnit != OpUnit.lsu)
            && (!s.hasCsrOp || item.opUnit != OpUnit.csr) && (!s.hasMretOp || item.op != Op.mret)
            && !fence then
          { s with
            items := s.items ++ [item]
            itemIdList := s.itemIdList ++ [id]
            available := Function.update s.available item.opUnit
              (Function.update (s.available item.opUnit) index false) }
        else s := ⟨_, rfl⟩
  refine ⟨{ t with
    hasLsuOp := s.hasLsuOp || item.opUnit == OpUnit.lsu
    hasCsrOp := s.hasCsrOp || item.opUnit == OpUnit.csr
    hasMretOp := s.hasMretOp || item.op == Op.mret }, Issue.isSerial item || fence,
    by rw [ht, hfence]; cases Issue.findUnit s.available item.opUnit <;> rfl, ?_⟩
  -- the item is selected or not
  have hcases : (t.items = s.items ∧ t.itemIdList = s.itemIdList ∧ t.available = s.available) ∨
      ∃ index, Issue.findUnit s.available item.opUnit = some index ∧ Issue.ready chs item = true ∧
        (item.opUnit = .lsu → s.hasLsuOp = false) ∧ fence = false ∧ t.items = s.items ++ [item] ∧
        t.itemIdList = s.itemIdList ++ [id] ∧ t.available = Function.update s.available item.opUnit
          (Function.update (s.available item.opUnit) index false) := by
    cases hfind : Issue.findUnit s.available item.opUnit with
    | none =>
      rw [hfind] at ht
      exact .inl (by rw [ht]; exact ⟨rfl, rfl, rfl⟩)
    | some index =>
      rw [hfind, Option.elim_some] at ht
      split at ht
      · rename_i hc
        simp only [Bool.and_eq_true, Bool.or_eq_true, Bool.not_eq_true'] at hc
        refine .inr ⟨index, rfl, hc.1.1.1.1, fun hu => ?_, hc.2, by rw [ht], by rw [ht], by rw [ht]⟩
        simpa [hu] using hc.1.1.1.2
      · exact .inl (by rw [ht]; exact ⟨rfl, rfl, rfl⟩)
  have hserial : Issue.isSerial item = true → s.items = [] ∧ fb.nextHandleRobId = item.robId := by
    intro hs
    rw [hs, Bool.true_and] at h1 h2
    exact ⟨by simpa using h1, by simpa using h2⟩
  have hfree : fence = false → Issue.FenceFree storeBufferEmpty fb item := by
    intro hnot hop
    simp only [hfence, hop, beq_self_eq_true, Bool.true_and, Bool.or_eq_false_iff, Bool.not_eq_false',
      bne_eq_false_iff_eq] at hnot
    exact ⟨hnot.1.1, hnot.2⟩
  have hok : SelectOk q chs fifos storeBufferEmpty fb (seen ++ [id]) { t with
      hasLsuOp := s.hasLsuOp || item.opUnit == OpUnit.lsu
      hasCsrOp := s.hasCsrOp || item.opUnit == OpUnit.csr
      hasMretOp := s.hasMretOp || item.op == Op.mret } := by
    obtain ⟨hi, hl, ha⟩ | ⟨index, hfind, hready, hlsu, hnot, hi, hl, ha⟩ := hcases
    · exact h.toSelectOk.skip id hi hl ha
    · have hfree' := hfree hnot
      rw [hitem] at hfind hready hlsu hi ha hserial hfree'
      exact h.take hready hfind hlsu hserial hfree' hi hl ha
  refine ⟨hok, fun hstop => { toSelectOk := hok, plain := ?_, lsuSeen := fun hflag => ?_ }⟩
  · intro x hx
    rw [List.mem_append, List.mem_singleton] at hx
    obtain hx | rfl := hx
    · exact h.plain x hx
    · rw [← hitem]
      exact ⟨(Bool.or_eq_false_iff.mp hstop).1, hfree (Bool.or_eq_false_iff.mp hstop).2⟩
  · obtain ⟨hflag, hunit⟩ := Bool.or_eq_false_iff.mp hflag
    rw [List.filter_append, h.lsuSeen hflag, List.nil_append]
    refine List.filter_cons_of_neg (p := fun id => isLsu (q.buffer id).toDecodeInfo) ?_
    rw [← hitem]
    simpa [isLsu] using hunit

/-- The first pass over a non-empty queue. -/
theorem select_spec (hq : q.WF) (hc : 0 < q.count) (hfb : fb.enable = true) :
    ∃ s, Issue.select q chs fifos storeBufferEmpty fb q.rptr = .ok s ∧
      SelectOk q chs fifos storeBufferEmpty fb q.ids s := by
  unfold Issue.select
  rw [hq.doWhileNext_eq_walk .issueQueue _ _ _ hc]
  obtain ⟨s, seen, rest, hwalk, hids, hok⟩ := Fifo.walk_rule
    (SelectGo q chs fifos storeBufferEmpty fb) (SelectOk q chs fifos storeBufferEmpty fb) (fun _ _ h => h.toSelectOk)
    (fun seen id rest s hids h => selectStep_spec hq hfb
      (by rw [hids]; simp) h) (List.nil_append q.ids).symm
    (s := {
      items := [], itemIdList := []
      available := fun unit i => !(fifos unit i).isFull
      hasLsuOp := false, hasCsrOp := false, hasMretOp := false })
    { ids := List.nil_sublist _, items := rfl, ready := by simp, lsu := by simp, units := fun u => rfl
      serial := by simp, fence := by simp, first := by simp, plain := by simp, lsuSeen := fun _ => rfl }
  refine ⟨s, hwalk, ?_⟩
  -- the ids not seen change nothing
  exact {
    ids := hok.ids.trans (hids ▸ List.sublist_append_left _ _)
    items := hok.items
    ready := hok.ready
    lsu := by
      rw [hids, List.filter_append]
      exact hok.lsu.trans (List.prefix_append _ _)
    units := hok.units
    serial := hok.serial
    fence := hok.fence
    first := fun id hid => by
      obtain ⟨pre, post, hseen, hplain⟩ := hok.first id hid
      exact ⟨pre, post ++ rest, by rw [hids, hseen, List.append_assoc, List.cons_append], hplain⟩ }

/-- An item that the first pass takes when it comes first. -/
structure Issue.Selectable (chs : Channels) (fifos : UnitFifos) (storeBufferEmpty : Bool)
    (fb : CommitFeedbackPack) (i : ReadregIssueOp) : Prop where
  ready : Issue.ready chs i = true
  unit : ∃ k < unitNum i.opUnit, (fifos i.opUnit k).isFull = false
  serial : Issue.isSerial i = true → fb.nextHandleRobId = i.robId
  fence : Issue.FenceFree storeBufferEmpty fb i

/-- What is selected stays selected. -/
theorem selectStep_mono {stop : Bool} {s' : Issue.SelectState}
    (h : Issue.selectStep q chs storeBufferEmpty fb id s = .ok (s', stop)) :
    ∀ x ∈ s.itemIdList, x ∈ s'.itemIdList := by
  intro x hx
  obtain hids | hids := Issue.selectStep_ids h
  · exact hids ▸ hx
  · exact hids ▸ List.mem_append_left _ hx

/-- The first item of the queue is selected if it can be. -/
theorem select_front (hq : q.WF) (hc : 0 < q.count) (hfb : fb.enable = true)
    (hsel : Issue.Selectable chs fifos storeBufferEmpty fb (q.buffer q.rptr))
    (h : Issue.select q chs fifos storeBufferEmpty fb q.rptr = .ok s) : q.rptr ∈ s.itemIdList := by
  unfold Issue.select at h
  rw [hq.doWhileNext_eq_walk .issueQueue _ _ _ hc, hq.ids_popped hc] at h
  obtain ⟨⟨s₁, stop⟩, hstep, h⟩ := bind_eq_ok.mp h
  -- the first round takes it, and the others only add to the selection
  have hfirst : q.rptr ∈ s₁.itemIdList := by
    obtain ⟨k, hk, hfree⟩ := hsel.unit
    obtain ⟨index, hindex⟩ : ∃ index, Issue.findUnit (fun unit i => !(fifos unit i).isFull)
        (q.buffer q.rptr).opUnit = some index :=
      Option.isSome_iff_exists.mp (List.find?_isSome.mpr ⟨k, List.mem_range.mpr hk, by simp [hfree]⟩)
    have hid : q.rptr ∈ q.ids := by
      rw [hq.ids_popped hc]
      exact List.mem_cons_self
    have hready := hsel.ready
    unfold Issue.ready at hready
    have hfence : ((q.buffer q.rptr).op == Op.fence && (!storeBufferEmpty || false ||
        fb.nextHandleRobId != (q.buffer q.rptr).robId)) = false := by
      by_cases hop : (q.buffer q.rptr).op = .fence
      · simp [(hsel.fence hop).1, (hsel.fence hop).2]
      · simp [hop]
    have hserial : (Issue.isSerial (q.buffer q.rptr) && fb.nextHandleRobId != (q.buffer q.rptr).robId) = false := by
      cases hs : Issue.isSerial (q.buffer q.rptr) with
      | false => rfl
      | true => simp [hsel.serial hs]
    unfold Issue.selectStep at hstep
    simp only [IssueQueue.getItem_eq hq hid, hfb, assert_true, bind, Except.bind, hserial, hindex, hready,
      List.length_nil, bne_self_eq_false, Bool.and_false, hfence, Bool.false_eq_true, if_false,
      Bool.not_false, Bool.true_or, Bool.and_true, if_true] at hstep
    cases hstep
    simp
  dsimp only at h
  split_ifs at h
  · cases h
    exact hfirst
  · exact Fifo.walk_mono (P := fun s => q.rptr ∈ s.itemIdList)
      (fun id s s' stop hs hmem => selectStep_mono hs _ hmem) h hfirst
  · cases h
    exact hfirst

end Select

/-! ## Second pass

Every selected item finds a free FIFO of its unit, so nothing that was selected is left behind. -/

/-- The search finds a FIFO that is not full if there is one. -/
theorem roundRobin_spec {fifos : Nat → Fifo IssueExecutePack} {n start : Nat} (hstart : start < n)
    (hex : ∃ i < n, (fifos i).isFull = false) :
    ∃ index, Issue.roundRobin fifos n start n start = some index ∧ index < n ∧
      (fifos index).isFull = false := by
  -- after `k` rounds the FIFOs at `start, ..., start + k - 1` are full
  suffices h : ∀ rounds k, k + rounds = n → (∀ j < k, (fifos ((start + j) % n)).isFull = true) →
      ∃ index, Issue.roundRobin fifos n start rounds ((start + k) % n) = some index ∧ index < n ∧
        (fifos index).isFull = false by
    simpa [Nat.mod_eq_of_lt hstart] using h n 0 (by omega) (by simp)
  have hall : (∀ j < n, (fifos ((start + j) % n)).isFull = true) → False := by
    intro hfull
    obtain ⟨i, hi, hfree⟩ := hex
    have := hfull ((i + n - start) % n) (Nat.mod_lt _ (by omega))
    rw [Nat.add_mod_mod, show start + (i + n - start) = i + n by omega, Nat.add_mod_right,
      Nat.mod_eq_of_lt hi, hfree] at this
    cases this
  intro rounds
  induction rounds with
  | zero =>
    intro k hk hfull
    exact (hall fun j hj => hfull j (by omega)).elim
  | succ rounds ih =>
    intro k hk hfull
    unfold Issue.roundRobin
    cases hf : (fifos ((start + k) % n)).isFull with
    | false => exact ⟨_, by simp, Nat.mod_lt _ (by omega), hf⟩
    | true =>
      have hfull' : ∀ j < k + 1, (fifos ((start + j) % n)).isFull = true := by
        intro j hj
        obtain hj | rfl : j < k ∨ j = k := by omega
        · exact hfull j hj
        · exact hf
      have hmod : ((start + k) % n + 1) % n = (start + (k + 1)) % n := by
        rw [Nat.mod_add_mod]
        congr 1
      rw [hmod, if_neg (by simp), if_neg]
      · exact ih (k + 1) (by omega) hfull'
      · intro hwrap
        refine hall fun j hj => ?_
        have hkn : k + 1 = n := by
          by_contra hne
          by_cases hlt : start + (k + 1) < n
          · rw [Nat.mod_eq_of_lt hlt] at hwrap
            omega
          · rw [Nat.mod_eq_sub_mod (by omega), Nat.mod_eq_of_lt (by omega)] at hwrap
            omega
        exact hfull' j (by omega)

/-- All FIFOs are listed. -/
theorem mem_unitSlots {i : Nat} (hi : i < unitNum u) : (u, i) ∈ unitSlots := by
  cases u <;> simp only [unitNum] at hi
  case alu =>
    obtain rfl | rfl : i = 0 ∨ i = 1 := by omega
    all_goals decide
  case mul =>
    obtain rfl | rfl : i = 0 ∨ i = 1 := by omega
    all_goals decide
  all_goals
    obtain rfl : i = 0 := by omega
    decide

/-- A pack added to one FIFO is added to the whole. -/
theorem flatMap_set {i : Nat} {f : Fifo IssueExecutePack}
    {p : IssueExecutePack} (hf : f.toList = (fifos u i).toList ++ [p]) {slots : List (OpUnit × Nat)}
    (hnd : slots.Nodup) (hmem : (u, i) ∈ slots) :
    (slots.flatMap fun s => (fifos.set u i f s.1 s.2).toList).Perm
      ((slots.flatMap fun s => (fifos s.1 s.2).toList) ++ [p]) := by
  induction slots with
  | nil => simp at hmem
  | cons s slots ih =>
    rw [List.nodup_cons] at hnd
    rw [List.flatMap_cons, List.flatMap_cons]
    -- the slot that was set, and the others
    by_cases hs : s = (u, i)
    · subst hs
      have hrest : (slots.flatMap fun s => (fifos.set u i f s.1 s.2).toList) =
          slots.flatMap fun s => (fifos s.1 s.2).toList := by
        refine List.flatMap_congr fun t ht => ?_
        rw [UnitFifos.set_of_ne]
        intro heq
        exact hnd.1 (heq ▸ ht)
      rw [hrest, UnitFifos.set_self, hf, List.append_assoc, List.append_assoc]
      exact List.Perm.append_left _ List.perm_append_comm
    · have hmem' : (u, i) ∈ slots := by
        obtain h | h := List.mem_cons.mp hmem
        · exact absurd h.symm hs
        · exact h
      rw [UnitFifos.set_of_ne _ _ hs, List.append_assoc]
      exact List.Perm.append_left _ (ih hnd.2 hmem')

/-- A push takes at most one free FIFO. -/
theorem freeUnits_push {i : Nat} {f : Fifo IssueExecutePack}
    (hi : i < unitNum u) (hfree : (fifos u i).isFull = false) (u' : OpUnit) :
    freeUnits (fun unit i => !(fifos unit i).isFull) u' ≤
      freeUnits (fun unit j => !(fifos.set u i f unit j).isFull) u' + if u = u' then 1 else 0 := by
  unfold freeUnits
  by_cases hu : u = u'
  · subst hu
    rw [if_pos rfl, ← length_filter_update (p := fun i => !(fifos u i).isFull) (by simp [hfree])
      List.nodup_range (List.mem_range.mpr hi)]
    refine Nat.succ_le_succ (List.Sublist.length_le (List.monotone_filter_right _ fun j hj => ?_))
    by_cases hji : j = i
    · subst hji
      rw [Function.update_self] at hj
      cases hj
    · rw [Function.update_of_ne hji] at hj
      beta_reduce
      rw [UnitFifos.set_of_ne _ _ (by simpa using hji)]
      exact hj
  · rw [if_neg hu, Nat.add_zero]
    refine Nat.le_of_eq (congrArg List.length (List.filter_congr fun j _ => ?_))
    beta_reduce
    rw [UnitFifos.set_of_ne _ _ (fun h => hu (congrArg Prod.fst h).symm)]

/-- The pack sent for an item. -/
def Issue.packFor (chs : Channels) (i : ReadregIssueOp) : IssueExecutePack :=
  Issue.sendPack i
    (Issue.dispatchOperand (Issue.selectFeedback chs i.src1Loaded i.rs1NeedMap i.rs1Phy)
      i.src1Value i.src1Loaded)
    (Issue.dispatchOperand (Issue.selectFeedback chs i.src2Loaded i.rs2NeedMap i.rs2Phy)
      i.src2Value i.src2Loaded)

/-- Both operands of an item are there when it is sent. -/
def Issue.Sendable (chs : Channels) (i : ReadregIssueOp) : Prop :=
  i.enable = true ∧
  (Issue.dispatchOperand (Issue.selectFeedback chs i.src1Loaded i.rs1NeedMap i.rs1Phy)
    i.src1Value i.src1Loaded).2 = true ∧
  (Issue.dispatchOperand (Issue.selectFeedback chs i.src2Loaded i.rs2NeedMap i.rs2Phy)
    i.src2Value i.src2Loaded).2 = true

theorem Issue.packFor_info (chs : Channels) (i : ReadregIssueOp) :
    (Issue.packFor chs i).toDecodeInfo = i.toDecodeInfo := by
  unfold Issue.packFor Issue.sendPack
  split <;> rfl

theorem Issue.packFor_robId (chs : Channels) (i : ReadregIssueOp) :
    (Issue.packFor chs i).robId = i.robId := by
  unfold Issue.packFor Issue.sendPack
  dsimp only
  split_ifs <;> rfl

/-- The FIFOs of a unit are well-formed and hold its packs. -/
structure UnitsOk (fifos : UnitFifos) : Prop where
  wf : ∀ u i, (fifos u i).WF
  save : ∀ u i, (fifos u i).popStatusSave = false
  op : ∀ u i, ∀ p ∈ (fifos u i).toList, p.opUnit = u
  size : ∀ u i, (fifos u i).size = 1

/-- The packs went to these FIFOs, one to each: all of them were free before and are full now, and the others are
unchanged. -/
structure Placed (fifos fifos' : UnitFifos) (packs : List IssueExecutePack) (slots : List (OpUnit × Nat)) : Prop where
  unit : slots.map (·.1) = packs.map (·.opUnit)
  nodup : slots.Nodup
  free : ∀ x ∈ slots, x.2 < unitNum x.1 ∧ (fifos x.1 x.2).isFull = false
  full : ∀ x ∈ slots, (fifos' x.1 x.2).isFull = true
  pushed : ∀ x ∈ slots.zip packs, fifos' x.1.1 x.1.2 = (fifos x.1.1 x.1.2).pushed x.2
  other : ∀ u i, (u, i) ∉ slots → fifos' u i = fifos u i

/-- Two groups go to different FIFOs. -/
theorem Placed.trans {f₁ f₂ f₃ : UnitFifos} {ps qs : List IssueExecutePack} {ss ts : List (OpUnit × Nat)}
    (h₁ : Placed f₁ f₂ ps ss) (h₂ : Placed f₂ f₃ qs ts) : Placed f₁ f₃ (ps ++ qs) (ss ++ ts) := by
  -- a FIFO taken first is full, so it is not taken again
  have hdisj : ∀ x ∈ ss, x ∉ ts := by
    intro x hs ht
    have hfree := (h₂.free x ht).2
    rw [h₁.full x hs] at hfree
    cases hfree
  have hdisj' : ∀ x ∈ ts, x ∉ ss := fun x ht hs => hdisj x hs ht
  have hlen : ss.length = ps.length := by simpa using congrArg List.length h₁.unit
  refine ⟨by rw [List.map_append, List.map_append, h₁.unit, h₂.unit], ?_, fun x hx => ?_, fun x hx => ?_,
    fun x hx => ?_, fun u i hx => ?_⟩
  · exact List.nodup_append.mpr ⟨h₁.nodup, h₂.nodup, fun x hs y ht heq => hdisj x hs (heq ▸ ht)⟩
  · obtain hx | hx := List.mem_append.mp hx
    · exact h₁.free x hx
    · rw [← h₁.other x.1 x.2 (hdisj' x hx)]
      exact h₂.free x hx
  · obtain hx | hx := List.mem_append.mp hx
    · rw [h₂.other x.1 x.2 (hdisj x hx)]
      exact h₁.full x hx
    · exact h₂.full x hx
  · rw [List.zip_append hlen, List.mem_append] at hx
    obtain hx | hx := hx
    · rw [h₂.other x.1.1 x.1.2 (hdisj x.1 (List.of_mem_zip hx).1)]
      exact h₁.pushed x hx
    · rw [← h₁.other x.1.1 x.1.2 (hdisj' x.1 (List.of_mem_zip hx).1)]
      exact h₂.pushed x hx
  · rw [List.mem_append, not_or] at hx
    rw [h₂.other u i hx.2, h₁.other u i hx.1]

/-- The packs that the second pass has sent. -/
structure SentOk (fifos fifos' : UnitFifos) (packs : List IssueExecutePack) : Prop where
  units : UnitsOk fifos'
  placed : ∃ slots, Placed fifos fifos' packs slots
  perm : ∀ hold, (unitPacks fifos' hold).Perm (unitPacks fifos hold ++ packs)
  lsu : (fifos' .lsu 0).toList = (fifos .lsu 0).toList ++ packs.filter (isLsu ·.toDecodeInfo)

theorem SentOk.nil (h : UnitsOk fifos) : SentOk fifos fifos [] where
  units := h
  placed := ⟨[], rfl, .nil, by simp, by simp, by simp, fun _ _ _ => rfl⟩
  perm := fun _ => by simp
  lsu := by simp

/-- Sending one pack to a free FIFO. -/
theorem SentOk.push {p : IssueExecutePack} {i : Nat}
    (h : UnitsOk fifos) (hi : i < unitNum u) (hfree : (fifos u i).isFull = false)
    (hp : p.opUnit = u) : SentOk fifos (fifos.set u i ((fifos u i).pushed p)) [p] := by
  have hc := (h.wf u i).count_lt (h.save u i) hfree
  have hlist := (h.wf u i).toList_pushed hc p
  have hcases : ∀ u' i', fifos.set u i ((fifos u i).pushed p) u' i' = fifos u' i' ∨
      (u' = u ∧ fifos.set u i ((fifos u i).pushed p) u' i' = (fifos u i).pushed p) := by
    intro u' i'
    by_cases heq : (u', i') = (u, i)
    · obtain ⟨rfl, rfl⟩ := Prod.mk.inj heq
      exact .inr ⟨rfl, UnitFifos.set_self _ _ _ _⟩
    · exact .inl (UnitFifos.set_of_ne _ _ heq)
  refine ⟨⟨fun u' i' => ?_, fun u' i' => ?_, fun u' i' x hx => ?_, fun u' i' => ?_⟩,
    ⟨[(u, i)], ?_⟩, fun hold => ?_, ?_⟩
  · obtain h' | ⟨-, h'⟩ := hcases u' i' <;> rw [h']
    · exact h.wf u' i'
    · exact (h.wf u i).pushed hc p
  · obtain h' | ⟨-, h'⟩ := hcases u' i' <;> rw [h']
    · exact h.save u' i'
    · exact h.save u i
  · obtain h' | ⟨rfl, h'⟩ := hcases u' i' <;> rw [h'] at hx
    · exact h.op u' i' x hx
    · rw [hlist, List.mem_append, List.mem_singleton] at hx
      obtain hx | rfl := hx
      · exact h.op u' i x hx
      · exact hp
  · obtain h' | ⟨-, h'⟩ := hcases u' i' <;> rw [h']
    · exact h.size u' i'
    · exact h.size u i
  -- a unit FIFO has one slot, so it is full now
  · have hfull : ((fifos u i).pushed p).isFull = true := by
      have hsize := h.size u i
      rw [((h.wf u i).pushed hc p).isFull_iff (h.save u i), (h.wf u i).count_pushed hc]
      show (fifos u i).count + 1 = (fifos u i).size
      omega
    refine ⟨by rw [← hp]; rfl, List.nodup_singleton _, ?_, ?_, ?_, fun u' i' hx => ?_⟩
    · intro x hx
      rw [List.mem_singleton.mp hx]
      exact ⟨hi, hfree⟩
    · intro x hx
      rw [List.mem_singleton.mp hx, UnitFifos.set_self]
      exact hfull
    · intro x hx
      rw [List.mem_singleton.mp hx, UnitFifos.set_self]
    · exact UnitFifos.set_of_ne _ _ fun heq => hx (List.mem_singleton.mpr heq)
  · unfold unitPacks
    rw [List.append_assoc]
    exact List.Perm.append_left _ (flatMap_set hlist (by decide) (mem_unitSlots hi))
  · by_cases heq : (OpUnit.lsu, 0) = (u, i)
    · obtain ⟨rfl, rfl⟩ := Prod.mk.inj heq
      rw [UnitFifos.set_self, hlist, List.filter_cons_of_pos (by simp [isLsu, hp])]
      rfl
    · have hu : p.opUnit ≠ .lsu := by
        rintro hl
        refine heq ?_
        have hul : u = .lsu := hp.symm.trans hl
        subst hul
        simp only [unitNum] at hi
        obtain rfl : i = 0 := by omega
        rfl
      rw [UnitFifos.set_of_ne _ _ heq, List.filter_cons_of_neg (by simpa [isLsu] using hu)]
      simp

/-- Sending one group after another. -/
theorem SentOk.trans {f₁ f₂ f₃ : UnitFifos} {ps qs : List IssueExecutePack} (h₁ : SentOk f₁ f₂ ps)
    (h₂ : SentOk f₂ f₃ qs) : SentOk f₁ f₃ (ps ++ qs) where
  units := h₂.units
  placed := by
    obtain ⟨ss, hs⟩ := h₁.placed
    obtain ⟨ts, ht⟩ := h₂.placed
    exact ⟨ss ++ ts, hs.trans ht⟩
  perm := fun hold => (h₂.perm hold).trans (by
    rw [← List.append_assoc]
    exact (h₁.perm hold).append_right qs)
  lsu := by rw [h₂.lsu, h₁.lsu, List.filter_append, List.append_assoc]

/-- The state after an item has been sent to the FIFO `index` of its unit. -/
def Issue.sent (chs : Channels) (item : ReadregIssueOp) (index : Nat) (d : Issue.DispatchState) :
    Issue.DispatchState :=
  let state := if Issue.isSerial item then
      { d.state with isInstWaiting := true, instWaitingRobId := item.robId } else d.state
  { d with
    state := { state with
      unitIndex := Function.update state.unitIndex item.opUnit ((index + 1) % unitNum item.opUnit) }
    fifos := d.fifos.set item.opUnit index
      ((d.fifos item.opUnit index).pushed (Issue.packFor chs item))
    issued := d.issued ++ [Issue.packFor chs item] }

/-- One round of the loop, for an item that can be sent. -/
theorem Issue.dispatch_cons (hfb : fb.enable = true)
    {item : ReadregIssueOp} (hsend : Issue.Sendable chs item) (rest : List ReadregIssueOp)
    {d : Issue.DispatchState} (hwait : d.state.isInstWaiting = false) {index : Nat}
    (hrr : Issue.roundRobin (d.fifos item.opUnit) (unitNum item.opUnit)
      (d.state.unitIndex item.opUnit) (unitNum item.opUnit) (d.state.unitIndex item.opUnit) =
        some index)
    (hpush : (d.fifos item.opUnit index).push (Issue.packFor chs item) =
      some ((d.fifos item.opUnit index).pushed (Issue.packFor chs item))) :
    Issue.dispatch chs fb (item :: rest) d = if Issue.isSerial item then
      .ok (Issue.sent chs item index d) else Issue.dispatch chs fb rest (Issue.sent chs item index d) := by
  obtain ⟨hen, hs1, hs2⟩ := hsend
  obtain ⟨⟨issueQ, busy, waiting, robId, last, idx⟩, fifos, perf, issued⟩ := d
  obtain rfl : waiting = false := hwait
  rw [Issue.dispatch, if_pos hen]
  unfold Issue.packFor at hpush
  cases hser : Issue.isSerial item
  · simp only [Bool.false_eq_true, if_false, hs1, hs2, hrr, hpush, Bool.and_self, Bool.not_true]
    unfold Issue.sent
    rw [hser]
    rfl
  · simp only [if_true, hs1, hs2, hrr, hpush, Bool.and_self, Bool.not_true, hfb, assert]
    unfold Issue.sent
    rw [hser]
    rfl

/-- Issue waits for the serial instruction with this id to retire. -/
def IssueState.WaitsFor (s : IssueState) (id : Nat) : Prop :=
  s.isInstWaiting = true ∧ s.instWaitingRobId = id

/-- The instruction with this id retires in the cycle. -/
def CommitFeedbackPack.commits (fb : CommitFeedbackPack) (id : Nat) : Bool :=
  fb.enable && fb.committedRobId.contains id

/-- The second pass sends every selected item, and waits for a serial one. -/
theorem dispatch_spec (hfb : fb.enable = true)
    {items : List ReadregIssueOp} {d : Issue.DispatchState} (hunits : UnitsOk d.fifos)
    (hindex : ∀ u, d.state.unitIndex u < unitNum u) (hwait : d.state.isInstWaiting = false)
    (hsend : ∀ i ∈ items, Issue.Sendable chs i)
    (hserial : ∀ i ∈ items, Issue.isSerial i = true → items = [i])
    (hfree : ∀ u, itemsFor items u ≤ freeUnits (fun unit i => !(d.fifos unit i).isFull) u) :
    ∃ d', Issue.dispatch chs fb items d = .ok d' ∧ d'.perf = d.perf ∧
      d'.issued = d.issued ++ items.map (Issue.packFor chs) ∧
      SentOk d.fifos d'.fifos (items.map (Issue.packFor chs)) ∧
      (∀ u, d'.state.unitIndex u < unitNum u) ∧
      ∀ id, d'.state.WaitsFor id ↔ ∃ i ∈ items, Issue.isSerial i = true ∧ i.robId = id := by
  -- on the items; `hfree` says there is a FIFO for each of those left
  induction items generalizing d with
  | nil =>
    exact ⟨d, rfl, rfl, by simp, .nil hunits, hindex, by simp [IssueState.WaitsFor, hwait]⟩
  | cons item rest ih =>
    have hcount : ∀ u, itemsFor (item :: rest) u =
        itemsFor rest u + if item.opUnit = u then 1 else 0 := by
      intro u
      unfold itemsFor
      rw [List.filter_cons]
      by_cases h : item.opUnit = u <;> simp [h]
    -- a FIFO of the unit is free
    have hex : ∃ i < unitNum item.opUnit, (d.fifos item.opUnit i).isFull = false := by
      have hpos : 0 < freeUnits (fun unit i => !(d.fifos unit i).isFull) item.opUnit := by
        have h1 := hfree item.opUnit
        rw [hcount, if_pos rfl] at h1
        omega
      obtain ⟨i, hi⟩ := List.exists_mem_of_length_pos hpos
      rw [List.mem_filter, List.mem_range] at hi
      exact ⟨i, hi.1, by simpa using hi.2⟩
    obtain ⟨index, hrr, hlt, hnf⟩ := roundRobin_spec (hindex item.opUnit) hex
    have hstep := Issue.dispatch_cons hfb (hsend item List.mem_cons_self) rest hwait hrr
      ((hunits.wf item.opUnit index).push_eq hnf (Issue.packFor chs item))
    obtain ⟨d₁, hd₁⟩ : ∃ d₁, d₁ = Issue.sent chs item index d := ⟨_, rfl⟩
    have hsent : SentOk d.fifos d₁.fifos [Issue.packFor chs item] := by
      rw [hd₁]
      exact SentOk.push hunits hlt hnf (congrArg DecodeInfo.opUnit (Issue.packFor_info chs item))
    have hindex₁ : ∀ u, d₁.state.unitIndex u < unitNum u := by
      intro u
      have hidx : d₁.state.unitIndex =
          Function.update d.state.unitIndex item.opUnit ((index + 1) % unitNum item.opUnit) := by
        rw [hd₁]
        unfold Issue.sent
        cases Issue.isSerial item <;> rfl
      rw [hidx]
      by_cases h : u = item.opUnit
      · subst h
        rw [Function.update_self]
        exact Nat.mod_lt _ (by omega)
      · rw [Function.update_of_ne h]
        exact hindex u
    have hperf₁ : d₁.perf = d.perf := by rw [hd₁]; rfl
    have hissued₁ : d₁.issued = d.issued ++ [Issue.packFor chs item] := by rw [hd₁]; rfl
    rw [← hd₁] at hstep
    cases hser : Issue.isSerial item with
    | true =>
      -- a serial item is the only one
      obtain rfl : rest = [] := by simpa using hserial item List.mem_cons_self hser
      rw [hser, if_pos rfl] at hstep
      refine ⟨d₁, hstep, hperf₁, hissued₁, hsent, hindex₁, fun id => ?_⟩
      rw [hd₁, Issue.sent, hser]
      simp [IssueState.WaitsFor, hser]
    | false =>
      rw [hser, if_neg (by simp)] at hstep
      have hwait₁ : d₁.state.isInstWaiting = false := by
        rw [hd₁]
        unfold Issue.sent
        rw [hser]
        exact hwait
      have hserial₁ : ∀ i ∈ rest, Issue.isSerial i = true → rest = [i] := by
        intro i hi hs
        have hnil : rest = [] := (List.cons.inj (hserial i (List.mem_cons_of_mem _ hi) hs)).2
        rw [hnil] at hi
        exact absurd hi List.not_mem_nil
      have hfree₁ : ∀ u, itemsFor rest u ≤
          freeUnits (fun unit i => !(d₁.fifos unit i).isFull) u := by
        intro u
        have h1 := hfree u
        have h2 := freeUnits_push (f := (d.fifos item.opUnit index).pushed (Issue.packFor chs item))
          hlt hnf u
        rw [hcount] at h1
        rw [hd₁]
        exact Nat.le_of_add_le_add_right (h1.trans h2)
      obtain ⟨d', hd', hperf, hissued, hok, hidx, hlatch⟩ := ih hsent.units hindex₁ hwait₁
        (fun i hi => hsend i (List.mem_cons_of_mem _ hi)) hserial₁ hfree₁
      refine ⟨d', hstep.trans hd', hperf.trans hperf₁, ?_, hsent.trans hok, hidx, fun id => ?_⟩
      · rw [hissued, hissued₁, List.append_assoc]
        rfl
      · rw [hlatch id]
        simp [hser]

/-! ## Wake-up and input

Items that stay are told of the values computed in the cycle; then the free slots are filled from the port. -/

/-- The wake-up requests for the ids `seen`: one for each item that stays and changes. -/
structure WakeOk (q : Fifo ReadregIssueOp) (chs : Channels) (sel seen : List Nat)
    (wakes : List (Nat × ReadregIssueOp)) : Prop where
  request : ∀ r ∈ wakes, r.1 ∈ q.ids ∧ sel.contains r.1 = false ∧
    r.2 = Issue.wakeItem chs (q.buffer r.1)
  same : ∀ id ∈ seen, sel.contains id = false → id ∉ wakes.map (·.1) →
    Issue.wakeItem chs (q.buffer id) = q.buffer id

/-- One round of the wake-up loop. -/
theorem wakeStep_spec {q : Fifo ReadregIssueOp} (hq : q.WF) {sel seen : List Nat}
    {id : Nat} (hid : id ∈ q.ids) {wakes : List (Nat × ReadregIssueOp)}
    (h : WakeOk q chs sel seen wakes) :
    ∃ wakes', Issue.wakeStep q chs sel id wakes = .ok (wakes', false) ∧
      WakeOk q chs sel (seen ++ [id]) wakes' := by
  unfold Issue.wakeStep
  cases hsel : sel.contains id with
  | true =>
    refine ⟨wakes, rfl, h.request, fun x hx hnot => ?_⟩
    rw [List.mem_append, List.mem_singleton] at hx
    obtain hx | rfl := hx
    · exact h.same x hx hnot
    · rw [hsel] at hnot
      cases hnot
  | false =>
    simp only [Bool.false_eq_true, if_false, IssueQueue.getItem_eq hq hid, bind, Except.bind,
      pure, Except.pure]
    -- only a changed entry is written back
    by_cases hch : (Issue.wakeItem chs (q.buffer id) != q.buffer id) = true
    · refine ⟨wakes ++ [(id, Issue.wakeItem chs (q.buffer id))], by rw [if_pos hch],
        fun r hr => ?_, fun x hx hnot hnew => ?_⟩
      · rw [List.mem_append, List.mem_singleton] at hr
        obtain hr | rfl := hr
        · exact h.request r hr
        · exact ⟨hid, hsel, rfl⟩
      · rw [List.map_append, List.mem_append, not_or] at hnew
        rw [List.mem_append, List.mem_singleton] at hx
        obtain hx | rfl := hx
        · exact h.same x hx hnot hnew.1
        · exact absurd hnew.2 (by simp)
    · refine ⟨wakes, by rw [if_neg hch], h.request, fun x hx hnot hnew => ?_⟩
      rw [List.mem_append, List.mem_singleton] at hx
      obtain hx | rfl := hx
      · exact h.same x hx hnot hnew
      · simpa using hch

/-- The loop asks for an update of every item that it wakes up. -/
theorem wakeUp_spec {q : Fifo ReadregIssueOp} (hq : q.WF) (chs : Channels) (sel : List Nat) :
    ∃ wakes, Issue.wakeUp q chs sel = .ok wakes ∧ WakeOk q chs sel q.ids wakes := by
  unfold Issue.wakeUp
  rw [hq.getFrontId_eq]
  by_cases hc : 0 < q.count
  · have hhead : q.ids.head? = some q.rptr := by rw [hq.ids_popped hc]; rfl
    simp only [hhead]
    rw [hq.doWhileNext_eq_walk .issueQueue _ _ _ hc]
    exact Fifo.walk_all_rule (WakeOk q chs sel)
      (fun seen id rest wakes hids h => wakeStep_spec hq (by rw [hids]; simp) h)
      (List.nil_append _).symm ⟨by simp, by simp⟩
  · have hids := Fifo.ids_eq_nil (show q.count = 0 by omega)
    exact ⟨[], by simp [hids], by simp, by simp [hids]⟩

/-- The slots taken over are a front part of the remaining ones. -/
theorem input_spec {regfile : Regfile} {slots : List ReadregIssueOp}
    (lastIndex : Nat) {q : Fifo ReadregIssueOp} (hq : q.WF) (hsave : q.popStatusSave = false)
    (hslot : ∀ op ∈ slots, op.enable = true → ∃ i, Issue.inputItem regfile chs op = .ok i) :
    ∃ q' finish taken left items, Issue.input regfile chs slots lastIndex q =
        .ok (q', lastIndex + taken.length, finish) ∧ slots = taken ++ left ∧
      (finish = true → left = []) ∧
      (finish = false → (∃ op left', left = op :: left' ∧ op.enable = true) ∧
        q.toList.length + items.length = q.size) ∧
      (taken.filter (·.enable)).mapM (Issue.inputItem regfile chs) = .ok items ∧
      Fifo.Grown q q' items := by
  induction slots generalizing lastIndex q with
  | nil => exact ⟨q, true, [], [], [], rfl, rfl, fun _ => rfl, by simp, rfl, .refl hq⟩
  | cons op rest ih =>
    have hrest : ∀ op ∈ rest, op.enable = true → ∃ i, Issue.inputItem regfile chs op = .ok i :=
      fun o ho => hslot o (List.mem_cons_of_mem _ ho)
    unfold Issue.input
    cases hen : op.enable with
    -- an empty slot is passed over
    | false =>
      obtain ⟨q', fin, taken, left, items, hin, hsplit, hfin, hstop, hmap, hgrown⟩ :=
        ih (lastIndex + 1) hq hsave hrest
      refine ⟨q', fin, op :: taken, left, items, ?_, by rw [hsplit]; rfl, hfin, hstop, ?_, hgrown⟩
      · rw [if_pos (by simp), hin, List.length_cons, Nat.add_assoc, Nat.add_comm 1]
      · rw [List.filter_cons_of_neg (by simp [hen])]
        exact hmap
    | true =>
      rw [if_neg (by simp)]
      -- a full queue ends the loop; the rest is taken later
      cases hfull : q.isFull with
      | true =>
        refine ⟨q, false, [], op :: rest, [], by rw [if_pos rfl]; rfl, rfl, by simp, fun _ => ?_, rfl, .refl hq⟩
        exact ⟨⟨op, rest, rfl, hen⟩, by rw [Fifo.length_toList]; exact (hq.isFull_iff hsave).mp hfull⟩
      | false =>
        obtain ⟨item, hitem⟩ := hslot op List.mem_cons_self hen
        have hgrown₁ := Fifo.Grown.pushed hq (hq.count_lt hsave hfull) item
        obtain ⟨q', fin, taken, left, items, hin, hsplit, hfin, hstop, hmap, hgrown⟩ :=
          ih (lastIndex + 1) hgrown₁.wf (hgrown₁.save.trans hsave) hrest
        refine ⟨q', fin, op :: taken, left, item :: items, ?_, by rw [hsplit]; rfl, hfin, fun hno => ?_, ?_,
          hgrown₁.trans hgrown⟩
        · rw [if_neg (by simp), hitem]
          simp only [bind, Except.bind, hq.push_eq hfull, Option.getD_some]
          rw [hin, List.length_cons, Nat.add_assoc, Nat.add_comm 1]
        · obtain ⟨hleft, hfull'⟩ := hstop hno
          rw [hq.toList_pushed (hq.count_lt hsave hfull), List.length_append] at hfull'
          exact ⟨hleft, by rw [List.length_cons, Nat.add_comm items.length, ← Nat.add_assoc]; exact hfull'⟩
        · rw [List.filter_cons_of_pos (by simpa using hen), List.mapM_cons, hitem, hmap]
          rfl

/-- The output part sends the items `sel` selects. -/
structure OutputOk (state : IssueState) (fifos : UnitFifos) (storeBufferEmpty : Bool) (chs : Channels)
    (fb : CommitFeedbackPack) (sel : List Nat) (d : Issue.DispatchState) : Prop where
  ids : sel.Sublist state.issueQ.ids
  ready : ∀ i ∈ sel.map state.issueQ.buffer, Issue.ready chs i = true
  lsu : (sel.filter fun id => isLsu (state.issueQ.buffer id).toDecodeInfo) <+:
    state.issueQ.ids.filter fun id => isLsu (state.issueQ.buffer id).toDecodeInfo
  serial : ∀ i ∈ sel.map state.issueQ.buffer, Issue.isSerial i = true → fb.nextHandleRobId = i.robId
  fence : ∀ i ∈ sel.map state.issueQ.buffer, Issue.FenceFree storeBufferEmpty fb i
  issued : d.issued = (sel.map state.issueQ.buffer).map (Issue.packFor chs)
  sent : SentOk fifos d.fifos ((sel.map state.issueQ.buffer).map (Issue.packFor chs))
  index : ∀ u, d.state.unitIndex u < unitNum u
  first : ∀ id ∈ sel, ∃ pre post, state.issueQ.ids = pre ++ id :: post ∧
    ∀ x ∈ pre, Issue.Passed storeBufferEmpty fb (state.issueQ.buffer x)
  waits : ∀ id, d.state.WaitsFor id ↔ state.WaitsFor id ∧ fb.commits id = false ∨
    ∃ i ∈ sel.map state.issueQ.buffer, Issue.isSerial i = true ∧ i.robId = id
  held : ∀ id, state.WaitsFor id → fb.commits id = false → sel = []
  front : (∀ id, state.WaitsFor id → fb.commits id = true) → ∀ id rest, state.issueQ.ids = id :: rest →
    Issue.Selectable chs fifos storeBufferEmpty fb (state.issueQ.buffer id) → id ∈ sel

/-- Nothing is sent. -/
theorem OutputOk.nil {state : IssueState} {storeBufferEmpty : Bool}
    {d : Issue.DispatchState} (hunits : UnitsOk fifos)
    (hindex : ∀ u, state.unitIndex u < unitNum u) (hissued : d.issued = []) (hfifos : d.fifos = fifos)
    (hd : d.state.unitIndex = state.unitIndex)
    (hwaits : ∀ id, d.state.WaitsFor id ↔ state.WaitsFor id ∧ fb.commits id = false)
    (hfront : (∀ id, state.WaitsFor id → fb.commits id = true) → state.issueQ.ids = []) :
    OutputOk state fifos storeBufferEmpty chs fb [] d where
  ids := List.nil_sublist _
  ready := by simp
  lsu := by simp
  serial := by simp
  fence := by simp
  issued := by simpa using hissued
  sent := by
    rw [hfifos]
    exact .nil hunits
  index := by rwa [hd]
  first := by simp
  waits id := by
    rw [hwaits]
    simp
  held _ _ _ := rfl
  front hw id rest hids := by
    rw [hfront hw] at hids
    cases hids

/-- The two passes, unless the stage waits for a serial instruction. -/
theorem output_spec {state : IssueState} (perf : PerfCounters)
    (storeBufferEmpty : Bool) (hq : state.issueQ.WF)
    (hunits : UnitsOk fifos) (hindex : ∀ u, state.unitIndex u < unitNum u)
    (hfb : state.issueQ.toList ≠ [] → fb.enable = true)
    (hsend : ∀ i ∈ state.issueQ.toList, Issue.ready chs i = true → Issue.Sendable chs i) :
    ∃ d sel, Issue.output state fifos perf storeBufferEmpty chs fb = .ok (d, sel) ∧
      d.perf = perf ∧ OutputOk state fifos storeBufferEmpty chs fb sel d := by
  unfold Issue.output
  by_cases hw : (!state.isInstWaiting ||
      (fb.enable && fb.committedRobId.contains state.instWaitingRobId)) = true
  · -- the instruction it waited for retires in this cycle
    have hgone (id : Nat) (hwait : state.WaitsFor id) : fb.commits id = true := by
      rw [hwait.1, hwait.2] at hw
      exact (Bool.or_eq_true_iff.mp hw).resolve_left (by simp)
    have hnone (id : Nat) : ¬ (state.WaitsFor id ∧ fb.commits id = false) := by
      rintro ⟨hwait, hnot⟩
      rw [hgone id hwait] at hnot
      cases hnot
    simp only [hw, if_true, hq.getFrontId_eq]
    by_cases hc : 0 < state.issueQ.count
    · have hhead : state.issueQ.ids.head? = some state.issueQ.rptr := by rw [hq.ids_popped hc]; rfl
      have hen := hfb (by
        intro hnil
        rw [← Fifo.length_toList, hnil] at hc
        exact absurd hc (by simp))
      obtain ⟨s, hs, hok⟩ : ∃ s, Issue.select state.issueQ chs fifos storeBufferEmpty fb
          state.issueQ.rptr = .ok s ∧
            SelectOk state.issueQ chs fifos storeBufferEmpty fb state.issueQ.ids s :=
        select_spec hq hc hen
      have hmem : ∀ i ∈ s.items, i ∈ state.issueQ.toList := by
        intro i hi
        rw [hok.items] at hi
        exact List.map_subset _ hok.ids.subset hi
      obtain ⟨d, hd, hperf, hissued, hsent, hidx, hlatch⟩ := dispatch_spec hen
        (d := ⟨{ state with isInstWaiting := false }, fifos, perf, []⟩) hunits hindex rfl
        (fun i hi => hsend i (hmem i hi) (hok.ready i hi)) (fun i hi hser => (hok.serial i hi hser).1)
        (fun u => by
          have := hok.units u
          exact Nat.le.intro (Nat.add_comm _ _ ▸ this))
      rw [List.nil_append] at hissued
      refine ⟨d, s.itemIdList, ?_, hperf, hok.ids, ?_, hok.lsu, ?_, ?_, ?_, ?_, hidx, hok.first, fun id => ?_,
        fun id hwait hnot => absurd ⟨hwait, hnot⟩ (hnone id), fun _ id rest hids hsel => ?_⟩
      · simp only [hhead, hs, hd, bind, Except.bind]
        rfl
      · rw [← hok.items]
        exact hok.ready
      · rw [← hok.items]
        exact fun i hi hser => (hok.serial i hi hser).2
      · rw [← hok.items]
        exact hok.fence
      · rw [← hok.items]
        exact hissued
      · rw [← hok.items]
        exact hsent
      · rw [← hok.items, hlatch id, or_iff_right (hnone id)]
      · obtain rfl : id = state.issueQ.rptr := by
          rw [hids] at hhead
          exact Option.some.inj hhead
        exact select_front hq hc hen hsel hs
    · have hids := Fifo.ids_eq_nil (show state.issueQ.count = 0 by omega)
      exact ⟨_, [], by simp only [hids]; rfl, rfl, .nil hunits hindex rfl rfl rfl
        (fun id => ⟨fun hwait => absurd hwait.1 Bool.false_ne_true, fun h => absurd h (hnone id)⟩)
        fun _ => hids⟩
  -- it goes on waiting
  · have hblocked : state.WaitsFor state.instWaitingRobId ∧ fb.commits state.instWaitingRobId = false := by
      rw [Bool.or_eq_true_iff, not_or, Bool.not_eq_true', Bool.not_eq_false] at hw
      exact ⟨⟨hw.1, rfl⟩, by simpa [CommitFeedbackPack.commits] using hw.2⟩
    refine ⟨_, [], by rw [if_neg hw], rfl, .nil hunits hindex rfl rfl rfl (fun id => ?_) fun hw' => ?_⟩
    · refine ⟨fun hwait => ⟨hwait, ?_⟩, And.left⟩
      rw [← hwait.2]
      exact hblocked.2
    · rw [hw' _ hblocked.1] at hblocked
      cases hblocked.2

/-- What `issue::run` does outside a flush: `sel` are the items sent, `keep` those that stay, `taken`
the slots taken over, `items` their records, and `left` the slots not yet taken. -/
structure IssueSpec (state : IssueState) (fifos : UnitFifos) (perf : PerfCounters)
    (port : List ReadregIssueOp) (regfile : Regfile) (storeBufferEmpty : Bool) (chs : Channels)
    (fb : CommitFeedbackPack)
    (sel keep taken items left : List ReadregIssueOp) (out : Issue.Out) : Prop where
  output : ∃ d itemIdList, Issue.output state fifos perf storeBufferEmpty chs fb = .ok (d, itemIdList) ∧
    itemIdList.Sublist state.issueQ.ids ∧
    ((itemIdList.filter fun id => isLsu (state.issueQ.buffer id).toDecodeInfo) <+:
      state.issueQ.ids.filter fun id => isLsu (state.issueQ.buffer id).toDecodeInfo) ∧
    sel = itemIdList.map state.issueQ.buffer ∧
    keep = (state.issueQ.ids.filter (!itemIdList.contains ·)).map state.issueQ.buffer ∧
    out.fifos = d.fifos ∧ out.issued = d.issued
  split : state.issueQ.toList.Perm (sel ++ keep)
  order : keep.Sublist state.issueQ.toList
  selected : sel.Sublist state.issueQ.toList
  lsu : state.issueQ.toList.filter (isLsu ·.toDecodeInfo) =
    sel.filter (isLsu ·.toDecodeInfo) ++ keep.filter (isLsu ·.toDecodeInfo)
  ready : ∀ i ∈ sel, Issue.ready chs i = true
  sendable : ∀ i ∈ sel, Issue.Sendable chs i
  serial : ∀ i ∈ sel, Issue.isSerial i = true → fb.nextHandleRobId = i.robId
  fence : ∀ i ∈ sel, Issue.FenceFree storeBufferEmpty fb i
  first : ∀ i ∈ sel, ∃ pre post, state.issueQ.toList = pre ++ i :: post ∧
    ∀ x ∈ pre, Issue.Passed storeBufferEmpty fb x
  waits : ∀ id, out.state.WaitsFor id ↔ state.WaitsFor id ∧ fb.commits id = false ∨
    ∃ i ∈ sel, Issue.isSerial i = true ∧ i.robId = id
  held : ∀ id, state.WaitsFor id → fb.commits id = false → sel = []
  front : (∀ id, state.WaitsFor id → fb.commits id = true) → ∀ i rest, state.issueQ.toList = i :: rest →
    Issue.Selectable chs fifos storeBufferEmpty fb i → i ∈ sel
  wf : out.state.issueQ.WF
  save : out.state.issueQ.popStatusSave = false
  queue : out.state.issueQ.toList = keep.map (Issue.wakeItem chs) ++ items
  slots : untaken port state = taken ++ left
  taken : taken.mapM (Issue.inputItem regfile chs) = .ok items
  busy : out.state.busy = out.stall
  finish : out.stall = false → left = []
  stalled : out.stall = true → left ≠ [] ∧
    state.issueQ.toList.length + items.length = state.issueQ.size
  rest : out.stall = true → untaken port out.state = left
  issued : out.issued = sel.map (Issue.packFor chs)
  sent : SentOk fifos out.fifos (sel.map (Issue.packFor chs))
  index : ∀ u, out.state.unitIndex u < unitNum u
  perf : out.perf.phyRegfileFull = perf.phyRegfileFull

/-- If the selected elements with `p` come first among those with `p`, the others follow. -/
theorem filter_split {α : Type} {p R : α → Bool} {l : List α}
    (h : (l.filter R).filter p <+: l.filter p) :
    l.filter p = (l.filter R).filter p ++ (l.filter (!R ·)).filter p := by
  obtain ⟨t, ht⟩ := h
  rw [List.filter_comm p R] at ht
  rw [List.filter_comm p R, List.filter_comm p (!R ·)]
  have hnone : t.filter R = [] := by
    have := congrArg (List.filter R) ht
    rw [List.filter_append, List.filter_filter] at this
    simpa using this
  have hall : t.filter (!R ·) = t := by
    rw [List.filter_eq_self]
    intro x hx
    simpa using List.filter_eq_nil_iff.mp hnone x hx
  have hfirst : ((l.filter p).filter R).filter (!R ·) = [] := by
    rw [List.filter_eq_nil_iff]
    intro x hx
    simpa using (List.mem_filter.mp hx).2
  calc l.filter p = (l.filter p).filter R ++ t := ht.symm
    _ = (l.filter p).filter R ++ (((l.filter p).filter R).filter (!R ·) ++ t.filter (!R ·)) := by
      rw [hfirst, hall, List.nil_append]
    _ = (l.filter p).filter R ++ (l.filter p).filter (!R ·) := by rw [← List.filter_append, ht]

/-- The whole stage: send, wake up, take over, and close the gaps in the queue. -/
theorem issue_flow_spec {state : IssueState} (perf : PerfCounters)
    {port : List ReadregIssueOp} {regfile : Regfile}
    (storeBufferEmpty : Bool) (hflush : fb.flushing = false) (hq : state.issueQ.WF)
    (hsave : state.issueQ.popStatusSave = false) (hunits : UnitsOk fifos)
    (hindex : ∀ u, state.unitIndex u < unitNum u)
    (hfb : state.issueQ.toList ≠ [] → fb.enable = true)
    (hsend : ∀ i ∈ state.issueQ.toList, Issue.ready chs i = true → Issue.Sendable chs i)
    (hslot : ∀ op ∈ untaken port state, ∃ i, Issue.inputItem regfile chs op = .ok i) :
    ∃ out sel keep taken items left,
      Issue.run state fifos perf port regfile storeBufferEmpty chs fb = .ok out ∧
      IssueSpec state fifos perf port regfile storeBufferEmpty chs fb sel keep taken items left out := by
  obtain ⟨d, sel, hout, hperf, hok⟩ := output_spec perf storeBufferEmpty hq hunits hindex hfb hsend
  -- the parts of the stage, in the order of the source
  obtain ⟨wakes, hwakes, hwok⟩ := wakeUp_spec hq chs sel
  obtain ⟨last, hlast⟩ : ∃ last, last = if !state.busy then 0 else state.lastIndex := ⟨_, rfl⟩
  have huntaken : untaken port state = (port.drop last).filter (·.enable) := by
    rw [untaken, hlast]
    cases state.busy <;> rfl
  rw [huntaken] at hslot
  obtain ⟨q₁, fin, taken, left, items, hin, hslots, hfin, hstop, hmap, hgrown⟩ := input_spec last hq hsave
    (fun op hop hen => hslot op (List.mem_filter.mpr ⟨hop, hen⟩))
  obtain ⟨new, hids₁, hnew⟩ := hgrown.ids
  -- the wake-up requests
  obtain ⟨buffer, hset, hbuf⟩ := IssueQueue.setItems_spec hgrown.wf
    (fun id => Issue.wakeItem chs (state.issueQ.buffer id)) (l := wakes)
    (fun r hr => by rw [hids₁]; exact List.mem_append_left _ (hwok.request r hr).1)
    (fun r hr => (hwok.request r hr).2.2)
  obtain ⟨q₂, hq₂⟩ : ∃ q₂, q₂ = { q₁ with buffer := buffer } := ⟨_, rfl⟩
  rw [← hq₂] at hset
  have hids₂ : q₂.ids = state.issueQ.ids ++ new := by rw [hq₂]; exact hids₁
  have hwf₂ : q₂.WF := by
    rw [hq₂]
    exact ⟨hgrown.wf.rptr_lt, hgrown.wf.wptr_lt, hgrown.wf.stage⟩
  have hnd := hwf₂.nodup_ids
  rw [hids₂, List.nodup_append] at hnd
  have hnewids : ∀ id ∈ new, id ∉ state.issueQ.ids := fun id hid hold =>
    hnd.2.2 id hold id hid rfl
  have hnewsel : ∀ id ∈ new, sel.contains id = false := by
    intro id hid
    simpa using fun hs => hnewids id hid (hok.ids.subset hs)
  -- the selected ids are removed
  have hsel : state.issueQ.ids.filter (sel.contains ·) = sel :=
    IssueQueue.filter_contains_of_sublist hok.ids hq.nodup_ids
  have hsel₂ : q₂.ids.filter (sel.contains ·) = sel := by
    rw [hids₂, List.filter_append, hsel, List.filter_eq_nil_iff.mpr, List.append_nil]
    intro id hid
    rw [hnewsel id hid]
    simp
  obtain ⟨q₃, hq₃, hwf₃, hcut, hlist₃⟩ := IssueQueue.compress_spec hwf₂ (sel.contains ·)
  have hsave₃ : q₃.popStatusSave = q₂.popStatusSave := by rw [hcut]
  rw [hsel₂] at hq₃
  obtain ⟨keep, hkeep⟩ : ∃ keep, keep = state.issueQ.ids.filter (!sel.contains ·) := ⟨_, rfl⟩
  -- what is left is woken up, then come the new items
  have hqueue : q₃.toList = (keep.map state.issueQ.buffer).map (Issue.wakeItem chs) ++ items := by
    rw [hlist₃, hids₂, List.filter_append, List.map_append, ← hkeep, List.map_map]
    congr 1
    · refine List.map_congr_left fun id hid => ?_
      rw [hkeep, List.mem_filter, Bool.not_eq_true'] at hid
      rw [hq₂, Function.comp_apply]
      change buffer id = _
      rw [hbuf id]
      split_ifs with hw
      · rfl
      · rw [hgrown.old id hid.1, hwok.same id hid.1 hid.2 hw]
    · rw [List.filter_eq_self.mpr (fun id hid => by rw [hnewsel id hid]; rfl), ← hnew]
      refine List.map_congr_left fun id hid => ?_
      rw [hq₂]
      change buffer id = _
      rw [hbuf id, if_neg]
      rintro hw
      obtain ⟨r, hr, rfl⟩ := List.mem_map.mp hw
      exact hnewids _ hid (hwok.request r hr).1
  obtain ⟨out, hrun⟩ : ∃ out : Issue.Out, out = {
      state := { d.state with
        issueQ := q₃, busy := !fin, lastIndex := if fin then 0 else last + taken.length }
      fifos := d.fifos
      perf := if fin then d.perf else { d.perf with issueQueueFull := d.perf.issueQueueFull + 1 }
      stall := !fin
      issued := d.issued } := ⟨_, rfl⟩
  refine ⟨out, sel.map state.issueQ.buffer, keep.map state.issueQ.buffer, taken.filter (·.enable),
    items, left.filter (·.enable), ?_, ?_⟩
  · unfold Issue.run
    rw [hflush, if_pos (by rfl)]
    simp only [hout, hwakes, ← hlast, hin, hset, hq₃, bind, Except.bind, hrun, pure, Except.pure]
  · exact {
      output := ⟨d, sel, hout, hok.ids, hok.lsu, rfl, by rw [hkeep], by rw [hrun], by rw [hrun]⟩
      split := by
        rw [← List.map_append]
        refine List.Perm.map _ ?_
        conv_rhs => rw [← hsel, hkeep]
        exact (List.filter_append_perm _ _).symm
      order := by
        rw [hkeep]
        exact List.filter_sublist.map _
      selected := hok.ids.map _
      lsu := by
        have := filter_split (p := fun id => isLsu (state.issueQ.buffer id).toDecodeInfo)
          (R := (sel.contains ·)) (l := state.issueQ.ids) (by rw [hsel]; exact hok.lsu)
        rw [hsel, ← hkeep] at this
        unfold Fifo.toList
        simp only [List.filter_map]
        rw [← List.map_append]
        exact congrArg _ this
      ready := hok.ready
      sendable := fun i hi => hsend i ((hok.ids.map _).subset hi) (hok.ready i hi)
      serial := hok.serial
      fence := hok.fence
      first := fun i hi => by
        obtain ⟨id, hid, rfl⟩ := List.mem_map.mp hi
        obtain ⟨pre, post, hids, hplain⟩ := hok.first id hid
        refine ⟨pre.map state.issueQ.buffer, post.map state.issueQ.buffer, ?_, fun x hx => ?_⟩
        · rw [Fifo.toList, hids, List.map_append, List.map_cons]
        · obtain ⟨y, hy, rfl⟩ := List.mem_map.mp hx
          exact hplain y hy
      waits := by rw [hrun]; exact hok.waits
      held := fun id hwait hnot => by rw [hok.held id hwait hnot]; rfl
      front := fun hwait i rest hlist hsel => by
        obtain ⟨id, ids, hids, rfl, -⟩ := List.map_eq_cons_iff.mp hlist
        exact List.mem_map_of_mem (hok.front hwait id ids hids hsel)
      wf := by rw [hrun]; exact hwf₃
      save := by
        rw [hrun]
        change q₃.popStatusSave = false
        rw [hsave₃, hq₂]
        exact hgrown.save.trans hsave
      queue := by rw [hrun]; exact hqueue
      slots := by rw [huntaken, hslots, List.filter_append]
      taken := hmap
      busy := by rw [hrun]
      finish := by
        rw [hrun]
        intro hst
        rw [hfin (by simpa using hst)]
        rfl
      stalled := by
        rw [hrun]
        intro hst
        obtain ⟨⟨op, left', rfl, hen⟩, hfull⟩ := hstop (by simpa using hst)
        exact ⟨by simp [hen], hfull⟩
      rest := by
        rw [hrun]
        intro hst
        have hfin' : fin = false := by simpa using hst
        unfold untaken
        simp only [hfin', Bool.not_false, if_true, Bool.false_eq_true, if_false]
        rw [← List.drop_drop, hslots, List.drop_left]
      issued := by rw [hrun]; exact hok.issued
      sent := by rw [hrun]; exact hok.sent
      index := by rw [hrun]; exact hok.index
      perf := by
        rw [hrun, ← hperf]
        cases fin <;> rfl }

end MyRiscvCore
