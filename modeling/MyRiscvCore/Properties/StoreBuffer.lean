import MyRiscvCore.Component.StoreBufferFacts
import MyRiscvCore.Pipeline.CommitFacts
import MyRiscvCore.Properties.Renaming

/-!
# MyRiscvCore — forwarding from and flushing of the store buffer

Two facts about every state of the store buffer, whether or not a run reaches it:

* `store_forwarding` — a load sees, byte by byte, the youngest buffered store that covers the byte, and the bus
  where none does;
* `flush_truncates` — a flush keeps the longest prefix of committed items, marks them and writes nothing.
-/

namespace MyRiscvCore

/-- Whether a buffered store writes the byte at `a`. -/
def StoreBufferItem.covers (a : Nat) (item : StoreBufferItem) : Bool :=
  item.addr.toNat ≤ a && a < item.addr.toNat + item.size.bytes

/-- The byte a buffered store writes at `a`. -/
def StoreBufferItem.byteAt (a : Nat) (item : StoreBufferItem) : Byte :=
  byteOf item.data (a - item.addr.toNat)

namespace StoreBuffer

/-- Byte `k` of a load at `addr` with the items oldest first: from the youngest item that covers it, or from the
bus. -/
def forwardedByte (items : List StoreBufferItem) (addr : Word) (busValue : Word) (k : Nat) : Byte :=
  match items.reverse.find? (·.covers (addr.toNat + k)) with
  | some item => item.byteAt (addr.toNat + k)
  | none => byteOf busValue k

section Forwarding

variable {addr : Word} {size : AccessSize} {items : List StoreBufferItem} {busValue : Word}

theorem byteOf_overlay {item : StoreBufferItem} (ha : addr.toNat + size.bytes < 2 ^ 32)
    (hi : item.addr.toNat + item.size.bytes < 2 ^ 32) (r : Word) {k : Nat} (hk : k < size.bytes) :
    byteOf (overlay addr size r item) k =
      if item.covers (addr.toNat + k) then item.byteAt (addr.toNat + k) else byteOf r k := by
  have h4 := size.bytes_le
  have hbit (v : Word) (k : Nat) {i : Nat} (hi : i < 8) : (byteOf v k).getLsbD i = v.getLsbD (8 * k + i) := by
    rw [byteOf, BitVec.getLsbD_extractLsb', decide_eq_true hi, Bool.true_and]
  apply BitVec.eq_of_getLsbD_eq
  intro i h8
  rw [hbit _ _ h8, getLsbD_overlay_of_lt ha (fun _ => hi) r (by omega), show (8 * k + i) / 8 = k by omega,
    show (8 * k + i) % 8 = i by omega]
  by_cases hc : item.covers (addr.toNat + k) = true
  · have hc' := hc
    simp only [StoreBufferItem.covers, Bool.and_eq_true, decide_eq_true_eq] at hc'
    rw [if_pos ⟨hc'.1, hc'.2, hk⟩, if_pos hc, StoreBufferItem.byteAt, hbit _ _ h8]
  · have hc' := hc
    simp only [StoreBufferItem.covers, Bool.and_eq_true, decide_eq_true_eq] at hc'
    rw [if_neg (fun h => hc' ⟨h.1, h.2.1⟩), if_neg hc, hbit _ _ h8]

/-- Laying the items over the bus value one after another leaves, per byte, the last that covers it. -/
theorem byteOf_foldl_overlay (ha : addr.toNat + size.bytes < 2 ^ 32)
    (hi : ∀ item ∈ items, item.addr.toNat + item.size.bytes < 2 ^ 32) {k : Nat} (hk : k < size.bytes) :
    byteOf (items.foldl (overlay addr size) busValue) k = forwardedByte items addr busValue k := by
  induction items using List.reverseRecOn with
  | nil => rfl
  | append_singleton items item ih =>
    rw [List.foldl_append, List.foldl_cons, List.foldl_nil, byteOf_overlay ha (hi item (by simp)) _ hk,
      ih fun x hx => hi x (List.mem_append_left _ hx)]
    unfold forwardedByte
    rw [List.reverse_append, List.reverse_singleton, List.singleton_append, List.find?_cons]
    cases item.covers (addr.toNat + k) <;> rfl

theorem getLsbD_foldl_overlay (ha : addr.toNat + size.bytes < 2 ^ 32)
    (hi : ∀ item ∈ items, item.addr.toNat + item.size.bytes < 2 ^ 32) {j : Nat} (hj : 8 * size.bytes ≤ j) :
    (items.foldl (overlay addr size) busValue).getLsbD j = busValue.getLsbD j := by
  induction items using List.reverseRecOn with
  | nil => rfl
  | append_singleton items item ih =>
    rw [List.foldl_append, List.foldl_cons, List.foldl_nil, ← ih fun x hx => hi x (List.mem_append_left _ hx)]
    by_cases h32 : j < 32
    · rw [getLsbD_overlay_of_lt ha (fun _ => hi item (by simp)) _ h32, if_neg (by omega)]
    · rw [BitVec.getLsbD_of_ge _ _ (by omega), BitVec.getLsbD_of_ge _ _ (by omega)]

end Forwarding

/-- `get_feedback_value`, for every ring state: byte `k` is that of the youngest item that covers `addr + k` or,
without one, of the bus value; the bits above the load are those of the bus value. The walk over the ring violates
no assertion. -/
theorem store_forwarding {q : StoreBuffer} (h : q.WF) (addr : Word) (size : AccessSize) (busValue : Word)
    (hitems : ∀ item ∈ q.toList, item.addr.toNat + item.size.bytes < 2 ^ 32)
    (hload : addr.toNat + size.bytes < 2 ^ 32) :
    ∃ value, q.getFeedbackValue addr size busValue = .ok value ∧
      (∀ k < size.bytes, byteOf value k = forwardedByte q.toList addr busValue k) ∧
      ∀ j, 8 * size.bytes ≤ j → value.getLsbD j = busValue.getLsbD j :=
  ⟨_, getFeedbackValue_eq h addr size busValue, fun _ hk => byteOf_foldl_overlay hload hitems hk,
    fun _ hj => getLsbD_foldl_overlay hload hitems hj⟩

/-- A full ring of four slots that begins at its last one: a word, a half inside it and two bytes, of which the last
covers a byte of the half. -/
def overlapping : StoreBuffer where
  buffer := fun
    | 3 => { (default : StoreBufferItem) with addr := 0x80000001, data := 0x44332211, size := .word, robId := 7 }
    | 0 => { (default : StoreBufferItem) with addr := 0x80000002, data := 0x6655, size := .half, robId := 8 }
    | 1 => { (default : StoreBufferItem) with addr := 0x80000009, data := 0x77, size := .byte, robId := 9 }
    | _ => { (default : StoreBufferItem) with addr := 0x80000003, data := 0x88, size := .byte, robId := 10 }
  size := 4
  wptr := 3
  wstage := true
  rptr := 3
  rstage := false
  popStatusSave := false
  rptrSaved := 0
  rstageSaved := false

theorem overlapping_wf : overlapping.WF := ⟨by decide, by decide, by decide⟩

theorem store_forwarding_overlapping :
    (∀ item ∈ overlapping.toList, item.addr.toNat + item.size.bytes < 2 ^ 32) ∧
    ∃ value, overlapping.getFeedbackValue 0x80000000 .word 0xddccbbaa = .ok value ∧
      (∀ k < 4, byteOf value k = forwardedByte overlapping.toList 0x80000000 0xddccbbaa k) ∧ value = 0x885511aa := by
  have hitems : ∀ item ∈ overlapping.toList, item.addr.toNat + item.size.bytes < 2 ^ 32 := by decide +kernel
  obtain ⟨value, hvalue, hbytes, -⟩ :=
    store_forwarding overlapping_wf 0x80000000 .word 0xddccbbaa hitems (by decide)
  refine ⟨hitems, value, hvalue, hbytes, ?_⟩
  have heval : overlapping.getFeedbackValue 0x80000000 .word 0xddccbbaa = .ok 0x885511aa := by decide +kernel
  exact Except.ok.inj (hvalue.symm.trans heval)

theorem mark_of_kept {committed : List Nat} {item : StoreBufferItem} (h : kept committed item = true) :
    mark committed item = { item with committed := true } := by
  unfold mark
  split
  · rfl
  next hc =>
    have hitem : item.committed = true := by
      rw [kept, Bool.eq_false_iff.mpr hc, Bool.or_false] at h
      exact h
    rw [← hitem]

theorem map_mark_takeWhile (committed : List Nat) (items : List StoreBufferItem) :
    (items.takeWhile (kept committed)).map (mark committed) =
      (items.takeWhile (kept committed)).map ({ · with committed := true }) :=
  List.map_congr_left fun _ hx => mark_of_kept (List.mem_takeWhile_imp hx)

/-- A flush, for every ring state of the store buffer: what stays is the longest prefix of items that are committed
or retire in this cycle, in order, with their data and marked committed; nothing is written to the bus and the
queued pushes are dropped. For a whole machine, at any cycle: the feedback that reaches the buffer is enabled
whenever it asks for a flush, and what the buffer holds after the cycle is that prefix, so none of the pushes
queued in the cycle arrived. -/
theorem flush_truncates :
    (∀ (q : StoreBuffer) (fb : CommitFeedbackPack), q.WF → fb.enable = true → fb.flush = true →
      ∃ q', q.run fb = .ok (q', [], true) ∧ q'.WF ∧
        q'.toList = (q.toList.takeWhile (kept fb.committedRobId)).map ({ · with committed := true })) ∧
    ∀ (env : Env) (n : Nat) (m m' : Machine) (log : CycleLog), m.storeBuffer.WF → cycle env n m = .ok (m', log) →
      log.fb.flush = true → log.fb.enable = true ∧ log.writes = [] ∧
        m'.storeBuffer.toList =
          (m.storeBuffer.toList.takeWhile (kept log.fb.committedRobId)).map ({ · with committed := true }) := by
  have hrun (q : StoreBuffer) (fb : CommitFeedbackPack) (h : q.WF) (hen : fb.enable = true)
      (hfl : fb.flush = true) : ∃ q', q.run fb = .ok (q', [], true) ∧ q'.WF ∧
        q'.toList = (q.toList.takeWhile (kept fb.committedRobId)).map ({ · with committed := true }) := by
    have hflush : fb.flushing = true := by rw [CommitFeedbackPack.flushing, hen, hfl]; rfl
    obtain ⟨q', hq', hwf, -, hlist⟩ := run_flush_spec h hflush
    exact ⟨q', hq', hwf, by rw [hlist, map_mark_takeWhile]⟩
  refine ⟨hrun, fun env n m m' log hwf hc hfl => ?_⟩
  obtain ⟨s, u, hran, hu, rfl, rfl⟩ := cycle_ok_iff.mp hc
  have hen : s.cm.fb.enable = true := Commit.run_enable hran.commit hfl
  obtain ⟨q', hq', -, hlist⟩ := hrun m.storeBuffer s.cm.fb hwf hen hfl
  obtain ⟨hsb, hwrites⟩ := Prod.mk.inj (Except.ok.inj (hu.store.symm.trans hq'))
  obtain ⟨hwrites, hdropped⟩ := Prod.mk.inj hwrites
  refine ⟨hen, hwrites, ?_⟩
  show (u.storeBuffer.sync (if u.dropped then [] else s.ex.pushes)).toList = _
  rw [hdropped, hsb]
  exact hlist

end StoreBuffer

open StoreBuffer (overlapping overlapping_wf kept)

/-- A store to memory and an `ecall`, which retires the store and flushes in one cycle. -/
def storeThenTrap : List Word := [0x800000b7, 0x1010a023, 0x00000073]

theorem flush_truncates_storeThenTrap :
    (∃ q', overlapping.run { (default : CommitFeedbackPack) with enable := true, flush := true, committedRobId := [7] } =
        .ok (q', [], true) ∧ q'.toList = [{ overlapping.buffer 3 with committed := true }]) ∧
    ∃ m logs m' log, run (Env.ofProgram storeThenTrap) 11 = .ok (m, logs) ∧
      cycle (Env.ofProgram storeThenTrap) 11 m = .ok (m', log) ∧ log.fb.flush = true ∧
      m'.storeBuffer.toList =
        (m.storeBuffer.toList.takeWhile (kept log.fb.committedRobId)).map ({ · with committed := true }) := by
  constructor
  · obtain ⟨q', hq', -, hlist⟩ := StoreBuffer.flush_truncates.1 overlapping
      { (default : CommitFeedbackPack) with enable := true, flush := true, committedRobId := [7] } overlapping_wf
      rfl rfl
    exact ⟨q', hq', hlist⟩
  · obtain ⟨m, logs, m', log, h, hc, hflush⟩ := exists_cycle_ok
      (show lastCycle (·.fb.flush) (run (Env.ofProgram storeThenTrap) (11 + 1)) = true by decide +kernel)
    exact ⟨m, logs, m', log, h, hc, hflush,
      (StoreBuffer.flush_truncates.2 _ _ m m' log (run_refines h).storeBuffer_wf hc hflush).2.2⟩

end MyRiscvCore
