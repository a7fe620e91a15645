import MyRiscvCore.Refine.Dispatch

/-!
# MyRiscvCore — the oldest instruction makes progress

Nothing holds the oldest instruction back: the cycles until its ROB entry is finished are bounded by where it
is (`Entry.distance`), in every cycle that does not flush it comes nearer (`FlowStages.distance_lt`), and once
finished it retires or traps. `fence` is left out, which waits for the memory.

* `oldest_event` — in a run that goes on, the next event is the retirement or the exception of the oldest
  instruction, or an interrupt.
-/

namespace MyRiscvCore

/-! ## Where the oldest instruction is

`distance` counts the stages that are left, so each cycle must lower it. -/

/-- A bound on the cycles until the ROB entry of the oldest instruction is finished. -/
def Entry.distance (m : Machine) (e : Entry) : Nat :=
  match e.status with
  | .finished _ => 0
  | .written _ => 1
  | .executed _ => 2
  | .waiting =>
    if e.op.robId ∈ (unitPacks m.unitFifos m.lsuHold).map (·.robId) then
      -- a store waits for room in the store buffer
      if m.storeBuffer.isFull then 4 else 3
    else if e.op.robId ∈ m.issue.issueQ.toList.map (·.robId) then 5
    else if e.op.robId ∈ (queuedItems m).map (·.robId) then 6
    else 7

section Distance

variable {m : Machine} {e : Entry}

/-- Seven stages from the register-read port to the commit. -/
theorem Entry.distance_le : e.distance m ≤ 7 := by
  unfold Entry.distance
  split <;> (try split_ifs) <;> omega

theorem Entry.distance_queued (h : e.op.robId ∈ (queuedItems m).map (·.robId)) : e.distance m ≤ 6 := by
  unfold Entry.distance
  rw [if_pos h]
  split <;> (try split_ifs) <;> omega

/-- From the issue queue. -/
theorem Entry.distance_queue (h : e.op.robId ∈ m.issue.issueQ.toList.map (·.robId)) : e.distance m ≤ 5 := by
  unfold Entry.distance
  rw [if_pos h]
  split <;> (try split_ifs) <;> omega

theorem Entry.distance_sent (h : e.op.robId ∈ (unitPacks m.unitFifos m.lsuHold).map (·.robId)) :
    e.distance m ≤ if m.storeBuffer.isFull then 4 else 3 := by
  unfold Entry.distance
  rw [if_pos h]
  split <;> split_ifs <;> omega

/-- What is not sent waits in front of the units. -/
theorem Entry.distance_unsent (hsent : ¬ e.Sent m) : e.isWaiting = true ∧
    e.op.robId ∉ (unitPacks m.unitFifos m.lsuHold).map (·.robId) ∧
    e.distance m = if e.op.robId ∈ m.issue.issueQ.toList.map (·.robId) then 5
      else if e.op.robId ∈ (queuedItems m).map (·.robId) then 6 else 7 := by
  rw [Entry.Sent, not_or, Bool.not_eq_false] at hsent
  obtain ⟨hw, hp⟩ := hsent
  refine ⟨hw, hp, ?_⟩
  rw [Entry.distance, Entry.isWaiting_iff.mp hw]
  exact if_neg hp

end Distance

/-- The first of a list, if it is in a part that keeps the order, is the first there. -/
theorem head_of_sublist {α : Type} {a : α} {l xs : List α} (h : l.Sublist (a :: xs)) (hnd : (a :: xs).Nodup)
    (ha : a ∈ l) : ∃ l', l = a :: l' := by
  cases h with
  | cons _ h => exact absurd (h.subset ha) (List.nodup_cons.mp hnd).1
  | cons_cons _ h => exact ⟨_, rfl⟩

section Head

variable {env : Env} {n : Nat} {m : Machine} {w : Window} {s : Stages} {u : Updates} {e : Entry}
  {ret rest : List Entry}

theorem Retired.nil : Retired [] := fun _ he => absurd he List.not_mem_nil

/-- A waiting instruction is in a unit, in the queue or on the way there, or renamed. -/
theorem Normal.waiting_mem (h : Normal m w) (he : e ∈ w.flight) (hw : e.isWaiting = true) :
    e.op.robId ∈ (unitPacks m.unitFifos m.lsuHold).map (·.robId) ∨
      e.op.robId ∈ (queuedItems m).map (·.robId) ++ (m.renameReadregPort.filter (·.enable)).map (·.robId) :=
  List.mem_append.mp (h.loc.conserved.mem_iff.mp (mem_map_filter.mpr ⟨e, he, hw, rfl⟩))

/-- The instructions between rename and the units are each in one place. -/
theorem Normal.places_nodup (h : Normal m w) : ((unitPacks m.unitFifos m.lsuHold).map (·.robId) ++
    ((queuedItems m).map (·.robId) ++ (m.renameReadregPort.filter (·.enable)).map (·.robId))).Nodup :=
  h.loc.conserved.nodup_iff.mp (h.nodup.sublist ((List.filter_sublist).map _))

/-- The oldest instruction that stays, while it is between rename and the units, is the first there. -/
theorem DispatchOk.head_first (hd : DispatchOk m w) (h : Normal m w) (hf : w.flight = ret ++ e :: rest)
    (hret : Retired ret) (hmem : e.op.robId ∈ (queuedItems m).map (·.robId) ++
      (m.renameReadregPort.filter (·.enable)).map (·.robId)) :
    ∃ l, (queuedItems m).map (·.robId) ++ (m.renameReadregPort.filter (·.enable)).map (·.robId) =
      e.op.robId :: l := by
  have hnd := h.nodup
  rw [hf, List.map_append] at hnd
  exact head_of_sublist (hd.order_rest h hf hret) (List.nodup_append.mp hnd).2.1 hmem

/-- While the oldest instruction that stays is in the queue, issue waits for nothing that stays. -/
theorem DispatchOk.not_waiting (hd : DispatchOk m w) (h : Normal m w) (hf : w.flight = ret ++ e :: rest)
    (hw : e.isWaiting = true) (hp : e.op.robId ∉ (unitPacks m.unitFifos m.lsuHold).map (·.robId)) {id : Nat}
    (hwait : m.issue.WaitsFor id) : id ∈ ret.map (·.op.robId) := by
  obtain ⟨x, hx, rfl, hser, hsent⟩ := (hd.waits id).mp hwait
  obtain ⟨pre, post, hsplit⟩ := List.append_of_mem hx
  obtain rfl := h.serial.oldest pre x post hsplit hser hsent
  cases ret with
  | nil =>
    obtain ⟨rfl, -⟩ := List.cons_eq_cons.mp (hf.symm.trans hsplit)
    obtain hsent | hsent := hsent
    · rw [hw] at hsent
      cases hsent
    · exact absurd hsent hp
  | cons y ret =>
    obtain ⟨rfl, -⟩ := List.cons_eq_cons.mp (hf.symm.trans hsplit)
    exact List.mem_map_of_mem List.mem_cons_self

/-- After instructions that retire, every register has its value. -/
theorem Retired.valueAt (hret : Retired ret) (regs : Nat → Word) (a : Nat) :
    MyRiscvCore.valueAt regs ret a ≠ none := by
  unfold MyRiscvCore.valueAt
  cases hy : youngestWriter ret a with
  | none => exact Option.some_ne_none _
  | some x => exact Option.isSome_iff_ne_none.mp (hret.value (List.mem_reverse.mp (List.mem_of_find?_eq_some hy)))

/-- The operands of the oldest instruction that stays are there. -/
theorem Normal.head_loaded (h : Normal m w) (hf : w.flight = ret ++ e :: rest) (hret : Retired ret) {i : ReadregIssueOp}
    (hi : i ∈ m.issue.issueQ.toList) (hid : i.robId = e.op.robId) :
    e.op = i.toRenameReadregOp ∧ i.src1Loaded = true ∧ i.src2Loaded = true := by
  obtain ⟨pre, x, post, hsplit, hop, hawake⟩ := h.awake i hi
  obtain ⟨rfl, rfl, -⟩ := split_robId h.nodup hsplit hf ((congrArg (·.robId) hop).trans hid)
  refine ⟨hop, ?_, ?_⟩
  · by_contra hl
    exact hret.valueAt _ _ (hawake.missing1 (Bool.not_eq_true _ ▸ hl))
  · by_contra hl
    exact hret.valueAt _ _ (hawake.missing2 (Bool.not_eq_true _ ▸ hl))

/-- The oldest instruction that stays, while it waits, is the first of the LSU. -/
theorem Normal.head_lsu (h : Normal m w) (hf : w.flight = ret ++ e :: rest) (hret : Retired ret) (hw : e.isWaiting = true)
    (hl : isLsu e.op.toDecodeInfo = true) {p : IssueExecutePack} {ps : List IssueExecutePack}
    (hp : lsuPacks m = p :: ps) : p.robId = e.op.robId := by
  have hlsu := h.loc.lsu
  rw [hp, hf, List.filter_append, hret.filter_waiting, List.nil_append,
    List.filter_cons_of_pos (by rw [hw, hl]; rfl)] at hlsu
  exact (List.cons_eq_cons.mp hlsu).1

/-- While the oldest instruction is a load or store that waits, no store in flight has executed. -/
theorem Normal.head_stores (h : Normal m w) (hf : w.flight = e :: rest) (hw : e.isWaiting = true)
    (hl : isLsu e.op.toDecodeInfo = true) : storesOf w.flight = [] := by
  refine List.filterMap_eq_nil_iff.mpr fun y hy => ?_
  cases hyl : isLsu y.op.toDecodeInfo with
  | true =>
    rw [hf] at hy
    obtain rfl | hy := List.mem_cons.mp hy
    · exact Entry.storeItem_of_waiting hw
    · exact Entry.storeItem_of_waiting (h.loc.lsuFirst [] e rest hf hw hl y hy hyl)
  | false =>
    obtain ⟨pre, hok⟩ := h.entry hy
    exact hok.storeItem_of_notLsu hyl

end Head

theorem lsu_slot : ∀ x ∈ unitSlots, x.1 = .lsu → x = (.lsu, 0) := by decide

namespace FlowStages

variable {env : Env} {n : Nat} {m : Machine} {w : Window} {s : Stages} {u : Updates} {e : Entry}
  {rest : List Entry}

/-- A slot of a unit other than the LSU is free after the execute stage. -/
theorem slot_empty (f : FlowStages env n m w s) (h : Normal m w) {x : OpUnit × Nat} (hx : x ∈ unitSlots)
    (hlsu : x.1 ≠ .lsu) : (s.ex.fifos x.1 x.2).toList = [] := by
  rw [f.execute.tail x hx hlsu]
  have hle := (h.shape.unit x.1 x.2).count_le
  rw [h.shape.unitSize, ← Fifo.length_toList] at hle
  exact List.eq_nil_of_length_eq_zero (by rw [List.length_tail]; omega)

/-- Without executed stores in flight the oldest store is written. -/
theorem storeBuffer_drains (f : FlowStages env n m w s) (h : Normal m w) (hu : s.Synced env n m u)
    (hstores : storesOf w.flight = []) (hpushes : s.ex.pushes = []) :
    (s.machine env n m u).storeBuffer.size = m.storeBuffer.size ∧
      (s.machine env n m u).storeBuffer.count = m.storeBuffer.count - 1 := by
  obtain ⟨com, hcom, hok⟩ := h.store.items
  rw [hstores, List.append_nil] at hcom
  obtain ⟨q, gone, stay, hrun, -, hsize, -, hsplit, -, hstay, hfirst⟩ :=
    StoreBuffer.run_flow_spec h.store.wf f.flushing f.committed_ids.2
  obtain ⟨hq, -⟩ := Prod.ext_iff.mp (Except.ok.inj (hu.store.symm.trans hrun))
  have hmachine : (s.machine env n m u).storeBuffer = q := by
    show u.storeBuffer.sync (if u.dropped then [] else s.ex.pushes) = q
    rw [hpushes, ite_self, show u.storeBuffer = q from hq]
    rfl
  rw [hmachine]
  refine ⟨hsize, ?_⟩
  rw [← Fifo.length_toList, ← Fifo.length_toList, hstay, List.length_map]
  cases hlist : m.storeBuffer.toList with
  | nil =>
    rw [hlist, eq_comm, List.append_eq_nil_iff] at hsplit
    rw [hsplit.2]
    rfl
  | cons i is =>
    -- the oldest store has retired, so it is written
    have hgone := hfirst i is hlist (hok.committed i (by rw [← hcom, hlist]; exact List.mem_cons_self))
    rw [hlist, hgone] at hsplit
    rw [(List.cons_eq_cons.mp hsplit).2]
    rfl

/-- The oldest instruction leaves its unit, unless it is a store and the store buffer is full. -/
theorem head_executes (f : FlowStages env n m w s) (h : Normal m w) (hu : s.Synced env n m u)
    (hf : w.flight = e :: rest) (hw : e.isWaiting = true)
    (hp : e.op.robId ∈ (unitPacks m.unitFifos m.lsuHold).map (·.robId)) :
    (∃ r, (e.advance s.ex.ports).status = .executed r) ∨ (m.storeBuffer.isFull = true ∧
      (s.machine env n m u).storeBuffer.isFull = false ∧
      e.op.robId ∈ (unitPacks s.is.fifos s.ex.hold).map (·.robId)) := by
  obtain ⟨x, -, -, hx⟩ | ⟨hnot, -⟩ := (f.executedOk h).advance_cases (Entry.isWaiting_iff.mp hw)
  · exact .inl ⟨_, hx⟩
  refine .inr ?_
  have hnot' (y : IssueExecutePack) (hid : y.robId = e.op.robId) : y ∉ f.done.map Prod.fst := by
    intro hy
    obtain ⟨x, hx, rfl⟩ := List.mem_map.mp hy
    exact hnot x hx hid
  have hstays : e.op.robId ∈ (unitPacks s.ex.fifos s.ex.hold).map (·.robId) := by
    obtain ⟨p, hp, hid⟩ := List.mem_map.mp hp
    exact List.mem_map.mpr ⟨p, (List.mem_append.mp (f.execute.perm.mem_iff.mp hp)).resolve_left
      (hnot' p hid), hid⟩
  -- only the LSU keeps a pack
  obtain ⟨p, hpm, hid⟩ := List.mem_map.mp hstays
  have hlist : p ∈ s.ex.hold.toList ++ (s.ex.fifos .lsu 0).toList := by
    obtain hpm | hpm := List.mem_append.mp hpm
    · exact List.mem_append_left _ hpm
    · obtain ⟨x, hx, hpx⟩ := List.mem_flatMap.mp hpm
      by_cases hlsu : x.1 = .lsu
      · obtain rfl := lsu_slot x hx hlsu
        exact List.mem_append_right _ hpx
      · rw [f.slot_empty h hx hlsu] at hpx
        exact absurd hpx List.not_mem_nil
  have hlsuM : p ∈ lsuPacks m := by
    rw [lsuPacks, f.execute.lsu]
    exact List.mem_append_right _ hlist
  obtain ⟨p₀, ps, hfirst⟩ := List.exists_cons_of_ne_nil (List.ne_nil_of_mem hlsuM)
  have hl : isLsu e.op.toDecodeInfo = true := by
    obtain ⟨pre, y, post, v1, v2, hsplit, -, -, rfl⟩ := h.loc.pack p (Normal.lsu_mem hlsuM)
    have hunit := h.lsu_unit hlsuM
    rw [packOf_info] at hunit
    rw [packOf_robId] at hid
    obtain rfl := h.rob.eq_of_robId_eq (by rw [hsplit]; simp) (by rw [hf]; simp) hid
    rw [isLsu, hunit]
    rfl
  have hid₀ := h.head_lsu (show w.flight = [] ++ e :: rest from hf) .nil hw hl hfirst
  obtain hdone | ⟨hfull, -⟩ := f.execute.head p₀ ps hfirst
  · exact absurd hdone (hnot' p₀ hid₀)
  have hpushes : s.ex.pushes = [] := by
    obtain ⟨x, hx, hxu, -, -⟩ | ⟨hnil, -⟩ := f.execute.pushes
    · have hlsu := f.execute.lsu
      have hmem : x.1 ∈ (f.done.map Prod.fst).filter (isLsu ·.toDecodeInfo) :=
        List.mem_filter.mpr ⟨List.mem_map_of_mem hx, by simp [isLsu, hxu]⟩
      obtain ⟨y, ys, hys⟩ := List.exists_cons_of_ne_nil (List.ne_nil_of_mem hmem)
      rw [show m.lsuHold.toList ++ (m.unitFifos .lsu 0).toList = p₀ :: ps from hfirst, hys] at hlsu
      obtain ⟨rfl, -⟩ := List.cons_eq_cons.mp hlsu
      have hy : p₀ ∈ (f.done.map Prod.fst).filter (isLsu ·.toDecodeInfo) := by
        rw [hys]
        exact List.mem_cons_self
      exact absurd (List.mem_filter.mp hy).1 (hnot' p₀ hid₀)
    · exact hnil
  refine ⟨hfull, ?_, f.mem_packs_ids.mpr (.inl hstays)⟩
  -- the full buffer has written a store
  obtain ⟨hsize, hcount⟩ := f.storeBuffer_drains h hu (h.head_stores hf hw hl) hpushes
  have hstore := (f.normal h hu).store
  have hpos := h.store.wf.size_pos
  have hfull' := (h.store.wf.isFull_iff h.store.save).mp hfull
  rw [← Bool.not_eq_true, hstore.wf.isFull_iff hstore.save]
  omega

/-- The oldest instruction that stays is taken from the queue; a `fence`, if the store buffer is empty. -/
theorem head_selected (f : FlowStages env n m w s) (h : Normal m w) (hd : DispatchOk m w)
    (hrest : f.rest = e :: rest) (hw : e.isWaiting = true)
    (hop : e.op.op = .fence → m.storeBuffer.isEmpty = true)
    (hp : e.op.robId ∉ (unitPacks m.unitFifos m.lsuHold).map (·.robId))
    (hq : e.op.robId ∈ m.issue.issueQ.toList.map (·.robId)) : e.op.robId ∈ f.sel.map (·.robId) := by
  have hf : w.flight = f.ret ++ e :: rest := by rw [← hrest]; exact f.flight
  obtain ⟨l, hl⟩ := hd.head_first h hf f.retired (by
    rw [queuedItems, List.map_append, List.append_assoc]
    exact List.mem_append_left _ hq)
  obtain ⟨i, is, hqueue⟩ := List.exists_cons_of_ne_nil (List.ne_nil_of_mem (List.mem_map.mp hq).choose_spec.1)
  have hid : i.robId = e.op.robId := by
    rw [queuedItems, hqueue] at hl
    exact (List.cons_eq_cons.mp hl).1
  obtain ⟨hiop, hl1, hl2⟩ := h.head_loaded hf f.retired (by rw [hqueue]; exact List.mem_cons_self) hid
  have hnext : s.cm.fb.nextHandleRobId = i.robId := by
    rw [hid]
    exact f.commit.next f.flows e rest hrest
  refine List.mem_map.mpr ⟨i, f.issue.front (fun id hwait => f.commits_iff.mpr (hd.not_waiting h hf hw hp hwait))
    i is hqueue ⟨?_, ?_, fun _ => hnext, fun hfence => ⟨hop (by rw [hiop]; exact hfence), hnext⟩⟩, hid⟩
  · rw [Issue.ready, hl1, hl2]
    rfl
  · -- its unit has room
    have hempty : (s.ex.fifos i.opUnit 0).toList = [] := by
      by_cases hlsu : i.opUnit = .lsu
      · have hnone : lsuPacks m = [] := by
          by_contra hne
          obtain ⟨p, ps, hfirst⟩ := List.exists_cons_of_ne_nil hne
          have hpid := h.head_lsu hf f.retired hw (by rw [hiop, isLsu, hlsu]; rfl) hfirst
          refine hp (List.mem_map.mpr ⟨p, Normal.lsu_mem (by rw [hfirst]; exact List.mem_cons_self), hpid⟩)
        have hlsuE := f.execute.lsu
        rw [show m.lsuHold.toList ++ (m.unitFifos .lsu 0).toList = [] from hnone, eq_comm,
          List.append_eq_nil_iff, List.append_eq_nil_iff] at hlsuE
        rw [hlsu]
        exact hlsuE.2.2
      · exact f.slot_empty (x := (i.opUnit, 0)) h (by cases i.opUnit <;> decide) hlsu
    refine ⟨0, by cases i.opUnit <;> decide, ?_⟩
    rw [← Bool.not_eq_true, (f.execute.wf _ _).isFull_iff (f.execute.save _ _), f.execute.size,
      h.shape.unitSize, ← Fifo.length_toList, hempty]
    exact Nat.zero_ne_one

/-- The queue after the cycle: what it keeps, then what it takes. -/
theorem queue_ids (f : FlowStages env n m w s) (h : Normal m w) :
    s.is.state.issueQ.toList.map (·.robId) = (f.keep ++ f.taken).map (·.robId) := by
  have hkeys := congrArg (List.map Prod.fst) (h.queue_keys (f.readHyp h) f.issue)
  rw [List.map_map, List.map_map] at hkeys
  exact hkeys

/-- The oldest instruction is taken into the queue. -/
theorem head_taken (f : FlowStages env n m w s) (h : Normal m w) (hd : DispatchOk m w)
    (hf : w.flight = e :: rest) (hq : e.op.robId ∉ m.issue.issueQ.toList.map (·.robId))
    (hq' : e.op.robId ∈ (queuedItems m).map (·.robId)) :
    e.op.robId ∈ s.is.state.issueQ.toList.map (·.robId) := by
  obtain ⟨l, hl⟩ := hd.head_first h (show w.flight = [] ++ e :: rest from hf) .nil (List.mem_append_left _ hq')
  -- nothing is older, so the queue is empty
  have hempty : m.issue.issueQ.toList = [] := by
    cases hqueue : m.issue.issueQ.toList with
    | nil => rfl
    | cons i is =>
      rw [queuedItems, hqueue] at hl
      exact absurd ((List.cons_eq_cons.mp hl).1 ▸ List.mem_map_of_mem (hqueue ▸ List.mem_cons_self)) hq
  rw [queuedItems, hempty, List.nil_append] at hl hq'
  cases htaken : f.taken with
  | nil =>
    exfalso
    have hslots := f.issue.slots
    rw [htaken, List.nil_append] at hslots
    have hitems : f.items = [] := by
      have := f.issue.taken
      rw [htaken] at this
      exact (Except.ok.inj this).symm
    have hstall : s.is.stall = true := by
      by_contra hst
      have hleft := f.issue.finish (Bool.not_eq_true _ ▸ hst)
      rw [hslots, hleft] at hq'
      exact absurd hq' List.not_mem_nil
    have hsize := (f.issue.stalled hstall).2
    rw [hempty, hitems] at hsize
    exact absurd hsize.symm h.shape.queue.size_pos.ne'
  | cons i is =>
    have hid : i.robId = e.op.robId := by
      rw [f.issue.slots, htaken] at hl
      exact (List.cons_eq_cons.mp hl).1
    rw [f.queue_ids h, htaken, ← hid]
    simp

/-- The oldest instruction leaves the rename port. -/
theorem head_moved (f : FlowStages env n m w s) (h : Normal m w) (hd : DispatchOk m w)
    (hf : w.flight = e :: rest) (hq : e.op.robId ∉ (queuedItems m).map (·.robId))
    (hport : e.op.robId ∈ (m.renameReadregPort.filter (·.enable)).map (·.robId)) (u : Updates) :
    e.op.robId ∈ (queuedItems (s.machine env n m u)).map (·.robId) := by
  obtain ⟨l, hl⟩ := hd.head_first h (show w.flight = [] ++ e :: rest from hf) .nil (List.mem_append_right _ hport)
  have hempty : queuedItems m = [] := by
    cases hqueue : queuedItems m with
    | nil => rfl
    | cons i is =>
      rw [hqueue] at hl
      exact absurd ((List.cons_eq_cons.mp hl).1 ▸ List.mem_map_of_mem (hqueue ▸ List.mem_cons_self)) hq
  -- so there is nothing that could keep issue from taking what comes
  have hstall : s.is.stall = false := by
    by_contra hst
    have hleft := (f.issue.stalled (Bool.not_eq_false _ ▸ hst)).1
    have hslots := f.issue.slots
    rw [queuedItems, List.append_eq_nil_iff] at hempty
    rw [hempty.2, eq_comm, List.append_eq_nil_iff] at hslots
    exact hleft hslots.2
  obtain ⟨moved, more, hrest, hmore, -, hren⟩ := h.rest_flow (f.readHyp h) f.issue f.readregStall f.readreg
  rw [hstall, if_neg Bool.false_ne_true, List.append_nil] at hren
  have hids := congrArg (List.map Prod.fst) hmore
  rw [List.map_map, List.map_map] at hids
  have hids : more.map (·.robId) = moved.map (·.robId) := hids
  rw [hren, ← hids] at hport
  show e.op.robId ∈ (s.is.state.issueQ.toList ++ untaken s.readreg s.is.state).map (·.robId)
  rw [hrest, List.map_append, List.map_append]
  exact List.mem_append_right _ (List.mem_append_right _ hport)

/-- If nothing retires, the oldest instruction is the first that stays. -/
theorem rest_of_ret_nil (f : FlowStages env n m w s) (hf : w.flight = e :: rest) (hret : f.ret = []) :
    f.rest = e :: rest := by
  rw [← hf, f.flight, hret]
  rfl

/-- A finished instruction does not stay the oldest. -/
theorem head_unfinished (f : FlowStages env n m w s) (hf : w.flight = e :: rest) (hret : f.ret = [])
    (r : ExecuteWbPack) : e.status ≠ .finished r := by
  have hne {e' : Entry} {r' : ExecuteWbPack} (hlast : JumpLast f.ret e' r') : False := by
    have := hlast.last
    rw [hret] at this
    cases this
  have hgroup : f.stop = .group := by
    cases hst : f.stop with
    | group => rfl
    | hit =>
      obtain ⟨e', r', hlast, -⟩ := f.commit.hit hst
      exact (hne hlast).elim
    | jump =>
      obtain ⟨e', r', hlast, -⟩ := f.commit.jump (.inl hst)
      exact (hne hlast).elim
    | miss => exact absurd hst (Stop.flows_ne f.flows).1
    | exception => exact absurd hst (Stop.flows_ne f.flows).2.1
    | interrupt => exact absurd hst (Stop.flows_ne f.flows).2.2
  exact f.commit.stuck hret hgroup e rest (f.rest_of_ret_nil hf hret) r

/-- An instruction that is sent comes nearer to its end, whatever it is. -/
theorem sent_distance_lt (f : FlowStages env n m w s) (h : Normal m w) (hu : s.Synced env n m u)
    (hf : w.flight = e :: rest) (hret : f.ret = []) (hsent : e.Sent m) :
    (e.advance s.ex.ports).distance (s.machine env n m u) < e.distance m := by
  cases hst : e.status with
  | finished r => exact absurd hst (f.head_unfinished hf hret r)
  | written r => simp [Entry.distance, Entry.advance, hst]
  | executed r => simp [Entry.distance, Entry.advance, hst]
  | waiting =>
    have hw := Entry.isWaiting_iff.mpr hst
    have hp := hsent.resolve_left (by simp [hw])
    have hdist : e.distance m = if m.storeBuffer.isFull then 4 else 3 := by
      rw [Entry.distance, hst]
      exact if_pos hp
    obtain ⟨r, hr⟩ | ⟨hfull, hroom, hstays⟩ := f.head_executes h hu hf hw hp
    · have hdist' : (e.advance s.ex.ports).distance (s.machine env n m u) = 2 := by simp [Entry.distance, hr]
      rw [hdist, hdist']
      split_ifs <;> omega
    · -- a store that found no room stays, and then there is room
      have hle := Entry.distance_sent (m := s.machine env n m u) (e := e.advance s.ex.ports) hstays
      rw [hroom, if_neg Bool.false_ne_true] at hle
      rw [hdist, if_pos hfull]
      omega

/-- In front of the queue the oldest instruction moves on, whatever it is. -/
theorem unqueued_distance_lt (f : FlowStages env n m w s) (h : Normal m w) (hd : DispatchOk m w)
    (hf : w.flight = e :: rest) (hsent : ¬ e.Sent m) (hq : e.op.robId ∉ m.issue.issueQ.toList.map (·.robId))
    (u : Updates) : (e.advance s.ex.ports).distance (s.machine env n m u) < e.distance m := by
  obtain ⟨hw, hp, hdist⟩ := Entry.distance_unsent hsent
  rw [hdist, if_neg hq]
  split_ifs with hq'
  · have htaken := f.head_taken h hd hf hq hq'
    have := Entry.distance_queue (m := s.machine env n m u) (e := e.advance s.ex.ports) htaken
    omega
  · have hmem := (h.waiting_mem (by rw [hf]; exact List.mem_cons_self) hw).resolve_left hp
    have hmoved := f.head_moved h hd hf hq' ((List.mem_append.mp hmem).resolve_left hq') u
    have := Entry.distance_queued (m := s.machine env n m u) (e := e.advance s.ex.ports) hmoved
    omega

/-- Every cycle that does not flush brings the oldest instruction nearer to its end. -/
theorem distance_lt (f : FlowStages env n m w s) (h : Normal m w) (hd : DispatchOk m w)
    (hu : s.Synced env n m u) (hf : w.flight = e :: rest) (hret : f.ret = []) (hop : e.op.op ≠ .fence) :
    (e.advance s.ex.ports).distance (s.machine env n m u) < e.distance m := by
  by_cases hsent : e.Sent m
  · exact f.sent_distance_lt h hu hf hret hsent
  by_cases hq : e.op.robId ∈ m.issue.issueQ.toList.map (·.robId)
  · -- the oldest in the queue is selected
    obtain ⟨hw, hp, hdist⟩ := Entry.distance_unsent hsent
    have hsel := f.head_selected h hd (f.rest_of_ret_nil hf hret) hw (fun h => absurd h hop) hp hq
    have := Entry.distance_sent (m := s.machine env n m u) (e := e.advance s.ex.ports)
      (f.mem_packs_ids.mpr (.inr hsel))
    rw [hdist, if_pos hq]
    split_ifs at this <;> omega
  · exact f.unqueued_distance_lt h hd hf hsent hq u

end FlowStages

/-- An event of the instruction `op`, or an interrupt in its place. -/
def Event.Ends (op : RenameReadregOp) : Event → Prop
  | .retire _ _ e | .exception _ e _ _ => e.op = op
  | .interrupt _ _ _ => True

/-- The instruction `op` is the oldest, and within `k` cycles there is an event. -/
inductive Awaited (m : Machine) (w : Window) (op : RenameReadregOp) : Nat → Prop
  | normal {e : Entry} {rest : List Entry} (h : Normal m w) (hd : DispatchOk m w)
    (hf : w.flight = e :: rest) (hop : e.op = op) : Awaited m w op (e.distance m + robSize + 1)
  | walk {e : Entry} {rest : List Entry} {j : Nat} (h : Walk m w j) (hf : w.flight = e :: rest)
    (hop : e.op = op) : Awaited m w op j

section Step

variable {env : Env} {n : Nat} {m : Machine} {w : Window} {s : Stages} {u : Updates}
  {op : RenameReadregOp} {k : Nat}

/-- The walk has one position. -/
theorem Walk.unique {j j' : Nat} (h : Walk m w j) (h' : Walk m w j') : j = j' := by
  obtain ⟨hpos, hget⟩ := h.restore
  obtain ⟨hpos', hget'⟩ := h'.restore
  have := (List.getElem?_inj (List.getElem?_eq_some_iff.mp hget).1 h.rob.nodup).mp (hget.trans hget'.symm)
  omega

/-- Every cycle shows the event or comes closer to it. -/
theorem Awaited.step (ha : Awaited m w op k) (hop : op.op ≠ .fence) (hcase : CycleCase env n m w s)
    (hu : s.Synced env n m u) :
    (∃ ev evs, (w.step (s.log env n m u)).events = w.events ++ ev :: evs ∧ ev.Ends op) ∨
      ((w.step (s.log env n m u)).events = w.events ∧
        ∃ k' < k, Awaited (s.machine env n m u) (w.step (s.log env n m u)) op k') := by
  cases ha with
  | @normal e rest h hd hf hop' =>
    subst hop'
    have hlen : w.flight.length ≤ robSize := by
      have := h.rob.wf.count_le
      rwa [h.rob.size, ← Fifo.length_ids, h.rob.ids, List.length_map] at this
    cases hcase with
    | flow h f =>
      have hevents := f.step_events h u
      have hflight := f.flight
      cases hret : f.ret with
      -- nothing retires: it has moved on towards its result
      | nil =>
        rw [hret, retireEvents, List.append_nil] at hevents
        rw [hret, List.nil_append, hf] at hflight
        have hf' : (w.step (s.log env n m u)).flight =
            e.advance s.ex.ports :: (rest.map (Entry.advance s.ex.ports) ++ f.news) := by
          rw [f.step_eq h u, f.window_flight, ← hflight]
          rfl
        have hlt := f.distance_lt h hd hu hf hret hop
        exact .inr ⟨hevents, _, by omega, .normal (f.normal h hu) (f.dispatchOk h hd u) hf' rfl⟩
      | cons x xs =>
        rw [hret, hf] at hflight
        obtain ⟨rfl, -⟩ := List.cons_eq_cons.mp hflight
        rw [hret] at hevents
        exact .inl ⟨_, _, hevents, rfl⟩
    | flush h g =>
      have hevents := g.step_events h hu
      have hflight := g.flight
      cases hret : g.ret with
      | nil =>
        rw [hret, retireEvents, List.append_nil] at hevents
        rw [hret, List.nil_append] at hflight
        -- nothing retires, so this is a trap
        have hst := g.not_miss hret
        have hf' : (w.step (s.log env n m u)).flight = e :: rest := by
          rw [g.step_eq h (g.updated h hu)]
          show g.kept = _
          rw [NormalFlush.kept, if_neg hst, ← hflight, hf]
        rw [hflight] at hlen
        exact .inr ⟨hevents, _, by omega, .walk (g.trap h hu hst) hf' rfl⟩
      | cons x xs =>
        rw [hret, hf] at hflight
        obtain ⟨rfl, -⟩ := List.cons_eq_cons.mp hflight
        rw [hret] at hevents
        exact .inl ⟨_, _, hevents, rfl⟩
    | walk v h' => exact absurd h.phase h'.phase
  | @walk e rest j h hf hop' =>
    subst hop'
    cases hcase with
    | flow h' f => exact absurd h'.phase h.phase
    | flush h' g => exact absurd h'.phase h.phase
    | walk v h' =>
      obtain rfl := h.unique h'
      have hup := v.updated h hu
      -- the last step of the walk reports the trap, the others count down
      by_cases hpre : v.pre = []
      · refine .inl ⟨w.trapEvent (s.log env n m u), [], by rw [v.step_last h hup hpre], ?_⟩
        rw [Window.trapEvent, hf]
        cases (s.log env n m u).phaseBefore <;> trivial
      · have hf' : (w.step (s.log env n m u)).flight = e :: rest := by rw [v.step_eq h hup hpre, hf]
        exact .inr ⟨by rw [v.step_eq h hup hpre], _, Nat.lt_succ_self _, .walk (v.step h hu hpre) hf' rfl⟩

end Step

section Run

variable {env : Env} {n : Nat} {m m' : Machine} {logs logs' : List CycleLog} {e : Entry} {rest : List Entry}

/-- The oldest instruction of a run is awaited. -/
theorem run_awaited (h : run env n = .ok (m, logs)) (hf : (Window.after env logs).flight = e :: rest) :
    ∃ k, k ≤ robSize + 8 ∧ Awaited m (Window.after env logs) e.op k := by
  obtain hn | ⟨j, hw⟩ := run_refines h
  · have := e.distance_le (m := m)
    exact ⟨_, by omega, .normal hn (run_dispatchOk h hn.phase) hf rfl⟩
  · refine ⟨j, ?_, .walk hw hf rfl⟩
    have hlen := hw.rob.wf.count_le
    rw [hw.rob.size, ← Fifo.length_ids, hw.rob.ids] at hlen
    have := (List.getElem?_eq_some_iff.mp hw.restore.2).1
    omega

/-- In the cycles that follow, the oldest instruction comes nearer to its end, until there is an event. -/
theorem event_or_awaited (h : run env n = .ok (m, logs)) (hf : (Window.after env logs).flight = e :: rest)
    (hop : e.op.op ≠ .fence) (k : Nat) (h' : run env (n + k) = .ok (m', logs')) :
    (∃ ev evs, (Window.after env logs').events = (Window.after env logs).events ++ ev :: evs ∧ ev.Ends e.op) ∨
      ((Window.after env logs').events = (Window.after env logs).events ∧
        ∃ d, d + k ≤ robSize + 8 ∧ Awaited m' (Window.after env logs') e.op d) := by
  induction k generalizing m' logs' with
  | zero =>
    obtain ⟨rfl, rfl⟩ := Prod.ext_iff.mp (Except.ok.inj (h.symm.trans h'))
    exact .inr ⟨rfl, run_awaited h hf⟩
  | succ k ih =>
    obtain ⟨m₀, logs₀, log, h₀, hc, rfl⟩ := (run_succ (n := n + k)).mp h'
    obtain ⟨s, u, hcase, hu, rfl, rfl⟩ := (run_refines h₀).cycle_ok hc
    rw [Window.after_snoc]
    obtain ⟨ev, evs, hevents, hends⟩ | ⟨hevents, d, hd, ha⟩ := ih h₀
    · obtain ⟨more, hmore⟩ := (Window.after env logs₀).step_events (s.log env (n + k) m₀ u)
      rw [hmore, hevents, List.append_assoc]
      exact .inl ⟨ev, evs ++ more, rfl, hends⟩
    · rw [← hevents]
      obtain hev | ⟨hsame, d', hlt, ha'⟩ := ha.step hop hcase hu
      · exact .inl hev
      · exact .inr ⟨hsame, d', by omega, ha'⟩

/-- Within a bounded number of cycles the oldest instruction retires or traps, or an interrupt is taken in its
place. -/
theorem oldest_event {k : Nat} (h : run env n = .ok (m, logs)) (hf : (Window.after env logs).flight = e :: rest)
    (hop : e.op.op ≠ .fence) (hk : robSize + 9 ≤ k) (h' : run env (n + k) = .ok (m', logs')) :
    ∃ ev evs, (Window.after env logs').events = (Window.after env logs).events ++ ev :: evs ∧ ev.Ends e.op := by
  obtain hev | ⟨-, d, hd, -⟩ := event_or_awaited h hf hop k h'
  · exact hev
  · omega

end Run

end MyRiscvCore
