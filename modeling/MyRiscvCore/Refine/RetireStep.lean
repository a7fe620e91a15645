import MyRiscvCore.Refine.AdvanceStep
import MyRiscvCore.Refine.StoreStep

/-!
# MyRiscvCore — the oldest instructions retire

The window `ret ++ rest` over the committed map `C` and values `regs` becomes the window `rest` over the
map and values after `ret`. What an instruction of `rest` sees does not change by this (`valueAt_retired`),
so each part of the relation that speaks about the instructions in flight is carried over.
-/

namespace MyRiscvCore

/-- Instructions that are finished without an exception. -/
def Retired (ret : List Entry) : Prop :=
  ∀ e ∈ ret, ∃ r, e.status = .finished r ∧ r.hasException = false

section Retired

variable {C : Nat → Nat} {regs : Nat → Word} {ret rest pre post : List Entry} {e : Entry}

theorem Retired.value (h : Retired ret) (he : e ∈ ret) : e.value?.isSome := by
  obtain ⟨r, hs, hx⟩ := h e he
  simp [Entry.value?, Entry.result, hs, hx]

theorem Retired.isWaiting (h : Retired ret) (he : e ∈ ret) : e.isWaiting = false := by
  obtain ⟨r, hs, -⟩ := h e he
  simp [Entry.isWaiting, hs]

theorem Retired.filter_waiting (h : Retired ret) (p : Entry → Bool) :
    (ret.filter fun e => e.isWaiting && p e) = [] := by
  rw [List.filter_eq_nil_iff]
  intro e he
  simp [h.isWaiting he]

theorem Retired.cons (h : Retired (e :: ret)) : Retired ret := fun x hx =>
  h x (List.mem_cons_of_mem _ hx)

/-- A finished instruction stays as it is. -/
theorem Retired.advance (h : Retired ret) (rs : List ExecuteWbPack) :
    ret.map (Entry.advance rs) = ret := by
  refine (List.map_congr_left fun e he => ?_).trans (List.map_id ret)
  obtain ⟨r, hs, -⟩ := h e he
  cases e
  simp only at hs
  subst hs
  rfl

/-- What an instruction behind the retired ones sees. -/
theorem valueAt_retired (h : Retired ret) (pre : List Entry) :
    valueAt regs (ret ++ pre) = valueAt (regsAfter regs ret) pre :=
  funext fun _ => valueAt_append fun _ he _ => h.value he

/-- An entry sees the same operands once older ones have retired. -/
theorem EntryOk.retire (hret : Retired ret) (h : EntryOk C regs (ret ++ pre) e) :
    EntryOk (mapAt C ret) (regsAfter regs ret) pre e where
  pack := h.pack
  source1 := by rw [← mapAt_append]; exact h.source1
  source2 := by rw [← mapAt_append]; exact h.source2
  result := by rw [← valueAt_retired hret]; exact h.result

/-- All entries do. -/
theorem FlightOk.retire (hret : Retired ret) (h : FlightOk C regs (ret ++ rest)) :
    FlightOk (mapAt C ret) (regsAfter regs ret) rest := fun pre e post hf =>
  EntryOk.retire hret (h (ret ++ pre) e post (by rw [hf, List.append_assoc]))

end Retired

/-! ## Where the others are

A retired instruction waits nowhere. -/

section Loc

variable {regs : Nat → Word} {ret rest : List Entry} {packs lsuP : List IssueExecutePack}
  {items queue : List ReadregIssueOp} {renamed : List RenameReadregOp}

/-- An entry with the id of a waiting one is behind the retired ones. -/
theorem Retired.split_rest (hret : Retired ret) (hnd : ((ret ++ rest).map (·.op.robId)).Nodup)
    {pre post : List Entry} {e : Entry} (hf : ret ++ rest = pre ++ e :: post)
    (hid : e.op.robId ∈ ((ret ++ rest).filter (·.isWaiting)).map (·.op.robId)) :
    ∃ pre', pre = ret ++ pre' ∧ rest = pre' ++ e :: post := by
  obtain ⟨x, hx, hxw, hxid⟩ := mem_map_filter.mp hid
  obtain rfl : x = e := List.inj_on_of_nodup_map hnd hx (by rw [hf]; simp) hxid
  obtain ⟨post', hret', -⟩ | ⟨pre', hpre, hrest⟩ := split_append hf
  · rw [hret.isWaiting (by rw [hret']; simp)] at hxw
    exact absurd hxw (by simp)
  · exact ⟨pre', hpre, hrest⟩

/-- The places after the group has retired. -/
theorem LocOk.retire (hret : Retired ret) (hnd : ((ret ++ rest).map (·.op.robId)).Nodup)
    (h : LocOk regs (ret ++ rest) packs lsuP items renamed) :
    LocOk (regsAfter regs ret) rest packs lsuP items renamed := by
  -- what retires waits nowhere
  have hnone : ret.filter (·.isWaiting) = [] := by
    simpa using hret.filter_waiting fun _ => true
  have hwait : ((ret ++ rest).filter (·.isWaiting)) = rest.filter (·.isWaiting) := by
    rw [List.filter_append, hnone, List.nil_append]
  refine ⟨hwait ▸ h.conserved, ?_, ?_, ?_, ?_, ?_⟩
  · intro p hp
    obtain ⟨pre, e, post, v1, v2, hf, h1, h2, hpk⟩ := h.pack p hp
    obtain ⟨pre', rfl, hrest⟩ := hret.split_rest hnd hf (h.conserved.mem_iff.mpr
      (List.mem_append_left _ (List.mem_map.mpr ⟨p, hp, by rw [hpk, packOf_robId]⟩)))
    rw [valueAt_retired hret] at h1 h2
    exact ⟨pre', e, post, v1, v2, hrest, h1, h2, hpk⟩
  · intro i hi
    obtain ⟨pre, e, post, hf, hop, hok⟩ := h.item i hi
    obtain ⟨pre', rfl, hrest⟩ := hret.split_rest hnd hf (h.conserved.mem_iff.mpr
      (List.mem_append_right _ (List.mem_append_left _
        (List.mem_map.mpr ⟨i, hi, by rw [hop]⟩))))
    rw [valueAt_retired hret] at hok
    exact ⟨pre', e, post, hrest, hop, hok⟩
  · intro o ho
    obtain ⟨e, he, hop⟩ := h.op o ho
    obtain ⟨pre, post, hf⟩ := List.append_of_mem he
    obtain ⟨pre', -, hrest⟩ := hret.split_rest hnd hf (h.conserved.mem_iff.mpr
      (List.mem_append_right _ (List.mem_append_right _
        (List.mem_map.mpr ⟨o, ho, by rw [hop]⟩))))
    exact ⟨e, by rw [hrest]; simp, hop⟩
  · rw [h.lsu, List.filter_append, hret.filter_waiting, List.nil_append]
  · intro pre e post hf
    exact h.lsuFirst (ret ++ pre) e post (by rw [hf, List.append_assoc])

theorem AwakeOk.retire (hret : Retired ret) (hnd : ((ret ++ rest).map (·.op.robId)).Nodup)
    (hwait : ∀ i ∈ queue, i.robId ∈ ((ret ++ rest).filter (·.isWaiting)).map (·.op.robId))
    (h : AwakeOk regs (ret ++ rest) queue) : AwakeOk (regsAfter regs ret) rest queue := by
  intro i hi
  obtain ⟨pre, e, post, hf, hop, hok⟩ := h i hi
  obtain ⟨pre', rfl, hrest⟩ := hret.split_rest hnd hf (by rw [hop]; exact hwait i hi)
  rw [valueAt_retired hret] at hok
  exact ⟨pre', e, post, hrest, hop, hok⟩

/-- An instruction with a result on its way is behind the retired ones. -/
theorem Retired.exists_status (hret : Retired ret) {s : Status} (hs : ∀ r, s ≠ .finished r) :
    (∃ e ∈ ret ++ rest, e.status = s) ↔ ∃ e ∈ rest, e.status = s := by
  constructor
  · rintro ⟨e, he, rfl⟩
    obtain he | he := List.mem_append.mp he
    · obtain ⟨r, hr, -⟩ := hret e he
      exact absurd hr (hs r)
    · exact ⟨e, he, rfl⟩
  · rintro ⟨e, he, he'⟩
    exact ⟨e, List.mem_append_right _ he, he'⟩

/-- The results on the ports belong to instructions that stay. -/
theorem PortOk.retire {executeWb wbCommit : List ExecuteWbPack} (hret : Retired ret)
    (h : PortOk executeWb wbCommit (ret ++ rest)) : PortOk executeWb wbCommit rest where
  executed r := by rw [h.executed, hret.exists_status (by simp)]
  written r := by rw [h.written, hret.exists_status (by simp)]

/-- An older instruction retires only before a serial one is handed out. -/
theorem SerialOk.retire {value : Nat → Word} (h : SerialOk value (ret ++ rest) packs) {pre post : List Entry}
    {e : Entry} (hf : rest = pre ++ e :: post) (hser : (e.op.opUnit == .csr || e.op.op == .mret) = true)
    (hor : e.isWaiting = false ∨ e.op.robId ∈ packs.map (·.robId)) : pre = [] ∧ ret = [] := by
  have hnil := h.oldest (ret ++ pre) e post (by rw [hf, List.append_assoc]) hser hor
  exact ⟨(List.append_eq_nil_iff.mp hnil).2, (List.append_eq_nil_iff.mp hnil).1⟩

end Loc

/-! ## Memory

The stores of the group become committed; the memory of the program takes them, the bus not yet. -/

section Memory

variable {C : Nat → Nat} {regs : Nat → Word} {ret rest : List Entry} {e : Entry}
  {com : List StoreBufferItem} {bm : Memory} {w : Window}

/-- The item of a retired store. -/
def StoreBufferItem.commit (i : StoreBufferItem) : StoreBufferItem := { i with committed := true }

theorem applyItems_commit (mem : Memory) (items : List StoreBufferItem) :
    applyItems mem (items.map StoreBufferItem.commit) = applyItems mem items := by
  simp only [applyItems, List.map_map]
  rfl

/-- A retired instruction has stored what the architecture says. -/
theorem EntryOk.archStores_eq (h : EntryOk C regs [] e) {r : ExecuteWbPack}
    (hs : e.status = .finished r) (hx : r.hasException = false) :
    archStores regs e.op = (storesOf [e]).map (·.request) := by
  have hr : e.result = some r := by simp [Entry.result, hs]
  have hinfo := (h.resultOf hr).info
  cases hst : isStoreOp e.op.toDecodeInfo with
  | false =>
    have hnone : e.storeItem? = none := by simp [Entry.storeItem?, hr, hinfo, hst]
    simp [archStores, hst, storesOf, hnone]
  | true =>
    obtain ⟨i, hi⟩ : ∃ i, e.storeItem? = some i := by simp [Entry.storeItem?, hr, hinfo, hst, hx]
    obtain ⟨-, -, -, -, v1, v2, h1, h2, hreq⟩ := h.storeItem hi
    have hval : valueAt regs [] = fun a => some (regs a) := rfl
    rw [hval] at h1 h2
    simp [archStores, hst, storesOf, hi, hreq, archPack, h1, h2]

/-- One store retires: it stays in the buffer, now as a committed one. -/
theorem ComOk.retire_one (h : ComOk com bm w) (mepc : Word) (he : EntryOk C w.arch.regs [] e)
    {r : ExecuteWbPack} (hs : e.status = .finished r) (hx : r.hasException = false) :
    ComOk (com ++ (storesOf [e]).map .commit) bm (w.retire mepc e) where
  committed := by
    intro i hi
    obtain hi | hi := List.mem_append.mp hi
    · exact h.committed i hi
    · obtain ⟨j, -, rfl⟩ := List.mem_map.mp hi
      rfl
  aligned := by
    intro i hi
    obtain hi | hi := List.mem_append.mp hi
    · exact h.aligned i hi
    · obtain ⟨j, hj, rfl⟩ := List.mem_map.mp hi
      have hj' : e.storeItem? = some j := by simpa [storesOf] using hj
      exact (he.storeItem hj').2.2.2.1
  memory := by
    rw [applyItems_append, h.memory, applyItems_commit, Window.retire, Arch.retire,
      he.archStores_eq hs hx, applyItems]
  writes := by
    rw [List.map_append, ← List.append_assoc, Window.retire]
    simp only [h.writes, retiredStores, List.flatMap_append, List.flatMap_singleton,
      he.archStores_eq hs hx, List.map_map]
    rfl

/-- A whole group, entry by entry. -/
theorem ComOk.retire (h : ComOk com bm w) (mepc : Word) (hret : Retired ret)
    (hfl : FlightOk C w.arch.regs (ret ++ rest)) :
    ComOk (com ++ (storesOf ret).map .commit) bm (w.retireAll mepc ret) := by
  induction ret generalizing com w C with
  | nil => simpa [storesOf, Window.retireAll] using h
  | cons e ret ih =>
    obtain ⟨r, hs, hx⟩ := hret e List.mem_cons_self
    have he := hfl [] e (ret ++ rest) rfl
    have hone : Retired [e] := fun x hx' => by
      rw [List.mem_singleton.mp hx']
      exact ⟨r, hs, hx⟩
    have hfl' : FlightOk (mapAt C [e]) (w.retire mepc e).arch.regs (ret ++ rest) :=
      FlightOk.retire hone hfl
    have := ih (h.retire_one mepc he hs hx) hret.cons hfl'
    rwa [List.append_assoc, ← List.map_append, ← storesOf_append] at this

/-- Memory after the retired instructions. -/
theorem ComOk.mem_retireAll (h : ComOk com bm w) (mepc : Word) (hret : Retired ret)
    (hfl : FlightOk C w.arch.regs (ret ++ rest)) :
    (w.retireAll mepc ret).arch.mem = applyItems w.arch.mem (storesOf ret) := by
  rw [← (h.retire mepc hret hfl).memory, applyItems_append, applyItems_commit, h.memory]

/-- Loads behind the retired stores see them in memory now. -/
theorem LoadsOk.retire {mem mem' : Memory} (h : LoadsOk mem (ret ++ rest))
    (hmem : applyItems mem (storesOf ret) = mem') : LoadsOk mem' rest := by
  intro pre e post hf hload r hr hnx
  have := h (ret ++ pre) e post (by rw [hf, List.append_assoc]) hload r hr hnx
  rwa [storesOf_append, applyItems_append, hmem] at this

/-- The oldest committed stores are written. -/
theorem ComOk.write {gone stay : List StoreBufferItem} (h : ComOk (gone ++ stay) bm w) :
    ComOk stay (applyItems bm gone) { w with writes := w.writes ++ gone.map (·.request) } where
  committed i hi := h.committed i (List.mem_append_right _ hi)
  aligned i hi := h.aligned i (List.mem_append_right _ hi)
  memory := by rw [← applyItems_append]; exact h.memory
  writes := by rw [List.append_assoc, ← List.map_append]; exact h.writes

end Memory

section Buffer

variable {C : Nat → Nat} {regs : Nat → Word} {flight ret rest : List Entry} {e : Entry}
  {ids : List Nat} {com : List StoreBufferItem}

/-- The stores in flight are not committed, and carry the ids of their instructions. -/
theorem FlightOk.storesOf_mem (h : FlightOk C regs flight) {es : List Entry} (hes : es ⊆ flight)
    {i : StoreBufferItem} (hi : i ∈ storesOf es) : i.committed = false ∧
      Bus.checkAlign i.addr i.size = true ∧ ∃ e ∈ es, e.op.robId = i.robId := by
  obtain ⟨e, he, hitem⟩ := List.mem_filterMap.mp hi
  obtain ⟨pre, post, hf⟩ := List.append_of_mem (hes he)
  obtain ⟨-, hid, hcom, hal, -⟩ := (h pre e post hf).storeItem hitem
  exact ⟨hcom, hal, e, he, hid.symm⟩

theorem mark_committed {i : StoreBufferItem} (h : i.committed = true) :
    StoreBuffer.mark ids i = i := by
  unfold StoreBuffer.mark
  cases i
  simp only at h
  subst h
  simp

theorem map_mark_committed (h : ∀ i ∈ com, i.committed = true) :
    com.map (StoreBuffer.mark ids) = com :=
  (List.map_congr_left fun i hi => mark_committed (h i hi)).trans (List.map_id com)

/-- Commit marks the stores of the retired instructions, -/
theorem map_mark_of_mem {items : List StoreBufferItem} (h : ∀ i ∈ items, i.robId ∈ ids) :
    items.map (StoreBuffer.mark ids) = items.map .commit :=
  List.map_congr_left fun i hi => by
    rw [StoreBuffer.mark, if_pos (List.contains_iff_mem.mpr (h i hi))]
    rfl

/-- and no others. -/
theorem map_mark_of_notMem {items : List StoreBufferItem} (h : ∀ i ∈ items, i.robId ∉ ids) :
    items.map (StoreBuffer.mark ids) = items :=
  (List.map_congr_left fun i hi => by
    rw [StoreBuffer.mark, if_neg (by simpa [List.contains_iff_mem] using h i hi)]
    rfl).trans (List.map_id items)

/-- Only retired stores are written. -/
theorem FlightOk.gone_prefix (h : FlightOk C regs flight) {gone stay : List StoreBufferItem}
    (hlist : com ++ storesOf flight = gone ++ stay) (hgone : ∀ i ∈ gone, i.committed = true) :
    ∃ com', com = gone ++ com' ∧ stay = com' ++ storesOf flight := by
  obtain ⟨mid, hg, hst⟩ | ⟨mid, hc, hst⟩ := List.append_eq_append_iff.mp hlist
  · -- an item past the committed ones is of a store in flight
    cases mid with
    | nil => exact ⟨[], by simpa using hg.symm, by simpa using hst.symm⟩
    | cons i mid =>
      have hi : i ∈ storesOf flight := by rw [hst]; simp
      have := hgone i (by rw [hg]; simp)
      rw [(h.storesOf_mem (List.Subset.refl _) hi).1] at this
      exact absurd this (by simp)
  · exact ⟨mid, hc, hst⟩

/-- What the marking of a cycle leaves of the buffer. -/
theorem FlightOk.map_mark (h : FlightOk C regs (ret ++ rest))
    (hnd : ((ret ++ rest).map (·.op.robId)).Nodup) (hcom : ∀ i ∈ com, i.committed = true) :
    (com ++ storesOf (ret ++ rest)).map (StoreBuffer.mark (ret.map (·.op.robId))) =
      (com ++ (storesOf ret).map .commit) ++ storesOf rest := by
  rw [List.map_append, List.nodup_append] at hnd
  have hin : ∀ i ∈ storesOf ret, i.robId ∈ ret.map (·.op.robId) := by
    intro i hi
    obtain ⟨-, -, e, he, hid⟩ := h.storesOf_mem (List.subset_append_left _ _) hi
    exact List.mem_map.mpr ⟨e, he, hid⟩
  have hout : ∀ i ∈ storesOf rest, i.robId ∉ ret.map (·.op.robId) := by
    intro i hi hmem
    obtain ⟨-, -, e, he, hid⟩ := h.storesOf_mem (List.subset_append_right _ _) hi
    exact hnd.2.2 _ hmem _ (List.mem_map.mpr ⟨e, he, hid⟩) rfl
  rw [storesOf_append, List.map_append, List.map_append, map_mark_committed hcom,
    map_mark_of_mem hin, map_mark_of_notMem hout, List.append_assoc]

/-- Pushes that fit are appended. -/
theorem StoreBuffer.sync_spec {q : StoreBuffer} (h : q.WF) (hsv : q.popStatusSave = false)
    {pushes : List StoreBufferItem} (hfit : q.count + pushes.length ≤ q.size) :
    (q.sync pushes).WF ∧ (q.sync pushes).popStatusSave = false ∧
      (q.sync pushes).toList = q.toList ++ pushes := by
  induction pushes generalizing q with
  | nil => exact ⟨h, hsv, by simp [StoreBuffer.sync]⟩
  | cons i pushes ih =>
    simp only [List.length_cons] at hfit
    have hc : q.count < q.size := by omega
    have hnf : q.isFull = false := by
      rw [← Bool.not_eq_true, h.isFull_iff hsv]
      omega
    have hpush : q.push i = some (q.pushed i) := h.push_eq hnf i
    have hcount := h.count_pushed hc i
    obtain ⟨hwf, hsave, hlist⟩ := ih (h.pushed hc i) hsv
      (by rw [hcount, show (q.pushed i).size = q.size from rfl]; omega)
    have hsync : StoreBuffer.sync q (i :: pushes) = StoreBuffer.sync (q.pushed i) pushes := by
      simp only [StoreBuffer.sync, List.foldl_cons, hpush, Option.getD_some]
    rw [hsync]
    refine ⟨hwf, hsave, ?_⟩
    rw [hlist, h.toList_pushed hc, List.append_assoc, List.singleton_append]

/-- The store buffer and the memory through a cycle that goes on: committed stores are written, those
that retire are marked, and the store that executes joins. -/
theorem StoreOk.flow {sb : StoreBuffer} {bus : Bus} {w : Window} {fb : CommitFeedbackPack}
    {pushes : List StoreBufferItem} {rs : List ExecuteWbPack} (h : StoreOk sb bus.memory w)
    (hflight : w.flight = ret ++ rest) (hret : Retired ret)
    (hfl : FlightOk w.cmap w.arch.regs w.flight) (hnd : (w.flight.map (·.op.robId)).Nodup)
    (hflush : fb.flushing = false) (hen : fb.enable = false → fb.committedRobId = [])
    (hids : fb.committedRobId = ret.map (·.op.robId))
    (hadv : storesOf (w.flight.map (Entry.advance rs)) = storesOf w.flight ++ pushes)
    (hloads : LoadsOk w.arch.mem (w.flight.map (Entry.advance rs)))
    (hfit : sb.count + pushes.length ≤ sb.size) (mepc : Word) (clint : Clint) :
    ∃ q' writes bus', sb.run fb = .ok (q', writes, false) ∧
      Bus.sync { bus with clint := clint } writes = .ok bus' ∧
      StoreOk (q'.sync pushes) bus'.memory
        (({ w with writes := w.writes ++ writes }.advance rs).retireAll mepc ret) := by
  obtain ⟨com, hlist, hcom⟩ := h.items
  obtain ⟨q', gone, stay, hrun, hwf, hsize, hsave, hsplit, hgone, hlist', -⟩ :=
    StoreBuffer.run_flow_spec h.wf hflush hen
  obtain ⟨com', rfl, rfl⟩ := hfl.gone_prefix (hlist.symm.trans hsplit) hgone
  -- the writes
  have hal : ∀ i ∈ gone, Bus.checkAlign i.addr i.size = true := fun i hi =>
    hcom.aligned i (List.mem_append_left _ hi)
  obtain ⟨bus', hsync, hmem'⟩ := Bus.sync_aligned { bus with clint := clint } hal
  have hwritten := hcom.write
  have hcommitted : ∀ i ∈ com', i.committed = true := hwritten.committed
  -- the marks
  rw [hflight] at hfl hnd hadv hloads
  rw [hids, hflight, hfl.map_mark hnd hcommitted] at hlist'
  -- the push
  have hcount : q'.count ≤ sb.count := by
    rw [← Fifo.length_toList, ← Fifo.length_toList, hlist', hlist, hflight, storesOf_append]
    simp only [List.length_append, List.length_map]
    omega
  have hfit' : q'.count + pushes.length ≤ q'.size := by
    rw [hsize]
    omega
  obtain ⟨hwf'', hsave'', hlist''⟩ := StoreBuffer.sync_spec hwf (hsave.trans h.save) hfit'
  rw [List.map_append, hret.advance, storesOf_append, storesOf_append, List.append_assoc] at hadv
  have hrest := List.append_cancel_left hadv
  have hcom' : ComOk com' (applyItems bus.memory gone)
      ({ w with writes := w.writes ++ gone.map StoreBufferItem.request }.advance rs) :=
    ⟨hwritten.committed, hwritten.aligned, hwritten.memory, hwritten.writes⟩
  have hretired := hcom'.retire mepc hret hfl
  have hflight' : ((({ w with writes := w.writes ++ gone.map StoreBufferItem.request } : Window).advance
      rs).retireAll mepc ret).flight = rest.map (Entry.advance rs) := by
    refine Window.flight_retireAll ?_
    rw [Window.advance]
    simp only [hflight, List.map_append, hret.advance]
  refine ⟨q', gone.map StoreBufferItem.request, bus', hrun, hsync, hwf'', hsave'',
    ⟨com' ++ (storesOf ret).map .commit, ?_, ?_⟩, ?_⟩
  · rw [hlist'', hlist', hflight', hrest, List.append_assoc, List.append_assoc]
  · rw [hmem']
    exact hretired
  · rw [hflight']
    rw [List.map_append, hret.advance] at hloads
    refine hloads.retire ?_
    have hm := hretired.memory
    rwa [applyItems_append, hcom'.memory, applyItems_commit] at hm

/-- The store buffer through a flush: what retires stays, and nothing younger does. -/
theorem StoreOk.flushed {sb : StoreBuffer} {bm : Memory} {w : Window} {fb : CommitFeedbackPack}
    {extra : List Nat} (h : StoreOk sb bm w) (hflight : w.flight = ret ++ rest) (hret : Retired ret)
    (hfl : FlightOk w.cmap w.arch.regs w.flight) (hnd : (w.flight.map (·.op.robId)).Nodup)
    (hflush : fb.flushing = true) (hids : fb.committedRobId = ret.map (·.op.robId) ++ extra)
    (hextra : ∀ e ∈ rest, e.op.robId ∈ extra → e.storeItem? = none) (mepc : Word) :
    ∃ q', sb.run fb = .ok (q', [], true) ∧
      StoreOk q' bm { w.retireAll mepc ret with flight := [] } := by
  obtain ⟨com, hlist, hcom⟩ := h.items
  obtain ⟨q', hrun, hwf, hsave, hlist'⟩ := StoreBuffer.run_flush_spec h.wf hflush
  rw [hflight] at hfl hnd
  rw [List.map_append, List.nodup_append] at hnd
  have hin : ∀ i ∈ storesOf ret, i.robId ∈ fb.committedRobId := by
    intro i hi
    obtain ⟨-, -, e, he, hid⟩ := hfl.storesOf_mem (List.subset_append_left _ _) hi
    rw [hids]
    exact List.mem_append_left _ (List.mem_map.mpr ⟨e, he, hid⟩)
  -- the first store that does not retire ends what is kept
  have hout : ∀ i ∈ storesOf rest, StoreBuffer.kept fb.committedRobId i = false := by
    intro i hi
    obtain ⟨hc, -⟩ := hfl.storesOf_mem (List.subset_append_right _ _) hi
    obtain ⟨e, he, hitem⟩ := List.mem_filterMap.mp hi
    obtain ⟨pre, post, hf⟩ := List.append_of_mem he
    have hid := ((hfl (ret ++ pre) e post (by rw [hf, List.append_assoc])).storeItem hitem).2.1
    rw [StoreBuffer.kept, hc, Bool.false_or, ← Bool.not_eq_true, List.contains_iff_mem, hids,
      List.mem_append, hid]
    rintro (hmem | hmem)
    · exact hnd.2.2 _ hmem _ (List.mem_map.mpr ⟨e, he, rfl⟩) rfl
    · rw [hextra e he hmem] at hitem
      cases hitem
  have hkeep : ∀ i ∈ com ++ storesOf ret, StoreBuffer.kept fb.committedRobId i = true := by
    intro i hi
    rw [StoreBuffer.kept, Bool.or_eq_true, List.contains_iff_mem]
    obtain hi | hi := List.mem_append.mp hi
    · exact .inl (hcom.committed i hi)
    · exact .inr (hin i hi)
  have htake : (com ++ storesOf (ret ++ rest)).takeWhile (StoreBuffer.kept fb.committedRobId) =
      com ++ storesOf ret := by
    rw [storesOf_append, ← List.append_assoc, List.takeWhile_append_of_pos hkeep]
    cases hr : storesOf rest with
    | nil => simp
    | cons i items =>
      rw [List.takeWhile_cons_of_neg (by simp [hout i (by rw [hr]; simp)]), List.append_nil]
  have hfinal : q'.toList = com ++ (storesOf ret).map .commit := by
    rw [hlist', hlist, hflight, htake, List.map_append, map_mark_committed hcom.committed,
      map_mark_of_mem hin]
  have hretired := hcom.retire mepc hret hfl
  refine ⟨q', hrun, hwf, hsave.trans h.save, ⟨com ++ (storesOf ret).map .commit, ?_, ?_⟩, ?_⟩
  · rw [hfinal]
    simp [storesOf]
  · exact ⟨hretired.committed, hretired.aligned, hretired.memory, hretired.writes⟩
  · intro pre e post hf
    simp at hf

end Buffer

end MyRiscvCore
