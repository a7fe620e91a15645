import MyRiscvCore.Component.Buffers
import MyRiscvCore.Component.BusFacts
import MyRiscvCore.Component.IssueQueueFacts
import Mathlib.Data.List.TakeWhile

/-!
# MyRiscvCore — facts about the store buffer

A load lays the buffered stores over the value it reads from the bus. Bit by bit, an item replaces the
bytes it covers and no others (`getLsbD_overlay`); hence, for aligned accesses, the result is what the
load would read from a memory with the stores already done (`overlay_read`).

The rest are list-level descriptions of what `run` does with the contents of the buffer.
-/

namespace MyRiscvCore

variable {q : StoreBuffer} {addr : Word} {size : AccessSize} {fb : CommitFeedbackPack}

/-! ## Bits and bytes

`overlay` merges the bytes of a store into a loaded word; these are its bits. -/

/-- The bits of a loaded value are those of its bytes. -/
theorem Memory.getLsbD_read (mem : Memory) (a : Nat) (size : AccessSize) (j : Nat) :
    (mem.read a size).getLsbD j =
      (decide (j < 8 * size.bytes) && (mem (a + j / 8)).getLsbD (j % 8)) := by
  -- bit `i` of byte `k`
  obtain ⟨k, i, hi, rfl⟩ : ∃ k i, i < 8 ∧ j = 8 * k + i :=
    ⟨j / 8, j % 8, Nat.mod_lt _ (by decide), (Nat.div_add_mod j 8).symm⟩
  have hlt : decide (8 * k + i < 8 * size.bytes) = decide (k < size.bytes) := by
    rw [decide_eq_decide]
    omega
  rw [hlt, show (8 * k + i) / 8 = k by omega, show (8 * k + i) % 8 = i by omega]
  cases size with
  | byte =>
    simp only [Memory.read, AccessSize.bytes, BitVec.getLsbD_setWidth]
    by_cases hk : k < 1
    · obtain rfl : k = 0 := by omega
      simp
      omega
    · rw [BitVec.getLsbD_of_ge _ _ (by omega)]
      simp [hk]
  | half =>
    simp only [Memory.read, AccessSize.bytes, BitVec.getLsbD_setWidth, BitVec.getLsbD_append]
    by_cases hk : k < 2
    · obtain rfl | rfl : k = 0 ∨ k = 1 := by omega
      · rw [if_pos (by omega)]
        simp
        omega
      · rw [if_neg (by omega)]
        simp
        omega
    · rw [if_neg (by omega), BitVec.getLsbD_of_ge _ _ (by omega)]
      simp [hk]
  | word =>
    simp only [Memory.read, AccessSize.bytes, BitVec.getLsbD_append]
    by_cases hk : k < 4
    · obtain rfl | rfl | rfl | rfl : k = 0 ∨ k = 1 ∨ k = 2 ∨ k = 3 := by omega
      · rw [if_pos (by omega)]
        simp
      · rw [if_neg (by omega), if_pos (by omega)]
        simp
      · rw [if_neg (by omega), if_neg (by omega), if_pos (by omega),
          show 8 * 2 + i - 8 - 8 = i by omega]
        rfl
      · rw [if_neg (by omega), if_neg (by omega), if_neg (by omega),
          show 8 * 3 + i - 8 - 8 - 8 = i by omega]
        rfl
    · rw [if_neg (by omega), if_neg (by omega), if_neg (by omega),
        BitVec.getLsbD_of_ge _ _ (by omega)]
      simp [hk]

/-- A bit of a load after a store: of the stored value where the store covers its byte. -/
theorem Memory.getLsbD_read_write (mem : Memory) (a b : Nat) (size size' : AccessSize) (v : Word)
    (j : Nat) : ((mem.write b size' v).read a size).getLsbD j =
      (decide (j < 8 * size.bytes) && if b ≤ a + j / 8 ∧ a + j / 8 < b + size'.bytes then
        v.getLsbD (8 * (a + j / 8 - b) + j % 8) else (mem (a + j / 8)).getLsbD (j % 8)) := by
  rw [Memory.getLsbD_read]
  congr 1
  unfold Memory.write byteOf
  split
  · rw [BitVec.getLsbD_extractLsb', decide_eq_true (Nat.mod_lt _ (by decide)), Bool.true_and]
  · rfl

namespace AccessSize

theorem bytes_pos (size : AccessSize) : 0 < size.bytes := by cases size <;> decide

theorem bytes_le (size : AccessSize) : size.bytes ≤ 4 := by cases size <;> decide

theorem toNat_bytes (size : AccessSize) : (BitVec.ofNat 32 size.bytes).toNat = size.bytes := by
  cases size <;> rfl

end AccessSize

namespace StoreBuffer

/-- The mask covers as many bytes as the smaller argument. -/
theorem getLsbD_bitMask {a b : Word} {m : Nat} (hm : m = min a.toNat b.toNat) (h1 : 0 < m)
    (h4 : m ≤ 4) (i : Nat) : (bitMask a b).getLsbD i = decide (i < 8 * m) := by
  have hmin : (if b < a then b else a) = BitVec.ofNat 32 m := by
    apply BitVec.eq_of_toNat_eq
    rw [BitVec.toNat_ofNat, Nat.mod_eq_of_lt (by omega)]
    split
    · rename_i h
      have : b.toNat < a.toNat := h
      omega
    · rename_i h
      have : ¬ b.toNat < a.toNat := h
      omega
  unfold bitMask
  rw [hmin]
  by_cases hi : i < 32
  · obtain rfl | rfl | rfl | rfl : m = 1 ∨ m = 2 ∨ m = 3 ∨ m = 4 := by omega
    all_goals
      revert hi
      clear hm hmin h1 h4
      revert i
      decide
  · rw [BitVec.getLsbD_of_ge _ _ (by omega), decide_eq_false (by omega)]

/-- A byte distance as a bit offset. -/
theorem toNat_bitOffset {d : Word} (hd : d.toNat < 4) : (d <<< 3).toNat = 8 * d.toNat := by
  rw [BitVec.toNat_shiftLeft, Nat.shiftLeft_eq, Nat.mod_eq_of_lt (by omega)]
  omega

/-- An item replaces the bits of the bytes it covers and no others, if neither the load nor the item wraps. -/
theorem getLsbD_overlay_of_lt {item : StoreBufferItem}
    (ha : addr.toNat + size.bytes < 2 ^ 32)
    (hi : item.addr.toNat < addr.toNat → item.addr.toNat + item.size.bytes < 2 ^ 32) (r : Word) {j : Nat}
    (hj : j < 32) : (overlay addr size r item).getLsbD j =
      if item.addr.toNat ≤ addr.toNat + j / 8 ∧ addr.toNat + j / 8 <
          item.addr.toNat + item.size.bytes ∧ j / 8 < size.bytes then
        item.data.getLsbD (8 * (addr.toNat + j / 8 - item.addr.toNat) + j % 8)
      else r.getLsbD j := by
  have hn := size.bytes_pos
  have hn4 := size.bytes_le
  have hs := item.size.bytes_pos
  have hs4 := item.size.bytes_le
  have hsum : (addr + BitVec.ofNat 32 size.bytes).toNat = addr.toNat + size.bytes := by
    rw [BitVec.toNat_add, AccessSize.toNat_bytes, Nat.mod_eq_of_lt (by omega)]
  unfold overlay
  dsimp only
  -- the store begins inside the loaded bytes
  by_cases h1 : item.addr ≥ addr ∧ item.addr < addr + BitVec.ofNat 32 size.bytes
  · rw [if_pos h1]
    have hle : addr.toNat ≤ item.addr.toNat := h1.1
    have hlt : item.addr.toNat < addr.toNat + size.bytes := hsum ▸ h1.2
    have hd : (item.addr - addr).toNat = item.addr.toNat - addr.toNat :=
      BitVec.toNat_sub_of_le h1.1
    have hroom : (addr + BitVec.ofNat 32 size.bytes - item.addr).toNat =
        addr.toNat + size.bytes - item.addr.toNat := by
      rw [BitVec.toNat_sub_of_le (Nat.le_of_lt h1.2), hsum]
    have hmask := getLsbD_bitMask (a := BitVec.ofNat 32 item.size.bytes)
      (b := addr + BitVec.ofNat 32 size.bytes - item.addr) rfl
      (by rw [AccessSize.toNat_bytes, hroom]; omega) (by rw [AccessSize.toNat_bytes]; omega)
    rw [AccessSize.toNat_bytes, hroom] at hmask
    rw [toNat_bitOffset (by omega), hd]
    simp only [BitVec.getLsbD_or, BitVec.getLsbD_and, BitVec.getLsbD_not, BitVec.getLsbD_shiftLeft,
      hmask, hj, decide_true, Bool.true_and]
    by_cases hin : item.addr.toNat ≤ addr.toNat + j / 8 ∧ addr.toNat + j / 8 <
        item.addr.toNat + item.size.bytes ∧ j / 8 < size.bytes
    · rw [if_pos hin, decide_eq_false (p := j < 8 * (item.addr.toNat - addr.toNat)) (by omega),
        decide_eq_true (by omega), show j - 8 * (item.addr.toNat - addr.toNat) =
          8 * (addr.toNat + j / 8 - item.addr.toNat) + j % 8 by omega]
      simp
    · rw [if_neg hin]
      by_cases hbelow : j < 8 * (item.addr.toNat - addr.toNat)
      · simp [hbelow]
      · rw [decide_eq_false (p := j - _ < _) (by omega)]
        simp
  · rw [if_neg h1]
    have hnot1 : ¬ (addr.toNat ≤ item.addr.toNat ∧ item.addr.toNat < addr.toNat + size.bytes) :=
      fun h => h1 ⟨h.1, show item.addr.toNat < _ from hsum.symm ▸ h.2⟩
    have hsum' : item.addr < addr → (item.addr + BitVec.ofNat 32 item.size.bytes).toNat =
        item.addr.toNat + item.size.bytes := by
      intro hlt
      rw [BitVec.toNat_add, AccessSize.toNat_bytes, Nat.mod_eq_of_lt (hi hlt)]
    -- it begins before them and reaches into them
    by_cases h2 : item.addr < addr ∧ item.addr + BitVec.ofNat 32 item.size.bytes > addr
    · rw [if_pos h2]
      have hlt : item.addr.toNat < addr.toNat := h2.1
      have hgt : addr.toNat < item.addr.toNat + item.size.bytes := hsum' h2.1 ▸ h2.2
      have hd : (addr - item.addr).toNat = addr.toNat - item.addr.toNat :=
        BitVec.toNat_sub_of_le (Nat.le_of_lt h2.1)
      have hroom : (item.addr + BitVec.ofNat 32 item.size.bytes - addr).toNat =
          item.addr.toNat + item.size.bytes - addr.toNat := by
        rw [BitVec.toNat_sub_of_le (Nat.le_of_lt h2.2), hsum' h2.1]
      have hmask := getLsbD_bitMask (a := BitVec.ofNat 32 size.bytes)
        (b := item.addr + BitVec.ofNat 32 item.size.bytes - addr) rfl
        (by rw [AccessSize.toNat_bytes, hroom]; omega) (by rw [AccessSize.toNat_bytes]; omega)
      rw [AccessSize.toNat_bytes, hroom] at hmask
      rw [toNat_bitOffset (by omega), hd]
      simp only [BitVec.getLsbD_or, BitVec.getLsbD_and, BitVec.getLsbD_not, BitVec.getLsbD_ushiftRight,
        hmask, hj, decide_true, Bool.true_and]
      by_cases hin : item.addr.toNat ≤ addr.toNat + j / 8 ∧ addr.toNat + j / 8 <
          item.addr.toNat + item.size.bytes ∧ j / 8 < size.bytes
      · rw [if_pos hin, decide_eq_true (by omega), show 8 * (addr.toNat - item.addr.toNat) + j =
          8 * (addr.toNat + j / 8 - item.addr.toNat) + j % 8 by omega]
        simp
      · rw [if_neg hin, decide_eq_false (by omega)]
        simp
    · rw [if_neg h2, if_neg]
      have hnot2 : ¬ (item.addr.toNat < addr.toNat ∧
          addr.toNat < item.addr.toNat + item.size.bytes) := fun h =>
        h2 ⟨h.1, show addr.toNat < _ from (hsum' h.1).symm ▸ h.2⟩
      omega

/-- A load away from the top of the address space meets no item that wraps. -/
theorem getLsbD_overlay {item : StoreBufferItem}
    (ha : addr.toNat + 4 < 2 ^ 32) (r : Word) {j : Nat} (hj : j < 32) :
    (overlay addr size r item).getLsbD j =
      if item.addr.toNat ≤ addr.toNat + j / 8 ∧ addr.toNat + j / 8 <
          item.addr.toNat + item.size.bytes ∧ j / 8 < size.bytes then
        item.data.getLsbD (8 * (addr.toNat + j / 8 - item.addr.toNat) + j % 8)
      else r.getLsbD j := by
  have hn4 := size.bytes_le
  have hs4 := item.size.bytes_le
  exact getLsbD_overlay_of_lt (by omega) (fun _ => by omega) r hj

end StoreBuffer

/-- The region of the memory slave. -/
def memoryInfo : SlaveInfo := ⟨0x80000000, 1048576, .memory⟩

theorem findSlaveInfo_memory {info : SlaveInfo}
    (h : findSlaveInfo slaveInfoList addr = some info) (hm : info.slave = .memory) :
    info = memoryInfo ∧ 2147483648 ≤ addr.toNat ∧ addr.toNat < 2148532224 := by
  have hmem := List.mem_of_find?_eq_some h
  have hin := List.find?_some h
  obtain rfl | rfl : info = ⟨0x80000000, 1048576, .memory⟩ ∨ info = ⟨0x20000000, 0x10000, .clint⟩ := by
    simpa [slaveInfoList] using hmem
  · simp only [Bool.and_eq_true, decide_eq_true_eq] at hin
    exact ⟨rfl, hin.1, hin.2⟩
  · cases hm

theorem findSlaveInfo_of_mem (h1 : 2147483648 ≤ addr.toNat)
    (h2 : addr.toNat < 2148532224) : findSlaveInfo slaveInfoList addr = some memoryInfo := by
  unfold findSlaveInfo slaveInfoList
  rw [List.find?_cons_of_pos]
  · rfl
  · simp only [Bool.and_eq_true, decide_eq_true_eq]
    exact ⟨h1, h2⟩

/-- Aligned means divisible by the size. -/
theorem checkAlign_iff :
    Bus.checkAlign addr size = true ↔ addr.toNat % size.bytes = 0 := by
  have hpow : ∃ k, size.bytes = 2 ^ k ∧ k < 3 := by
    cases size
    · exact ⟨0, rfl, by decide⟩
    · exact ⟨1, rfl, by decide⟩
    · exact ⟨2, rfl, by decide⟩
  obtain ⟨k, hk, hk3⟩ := hpow
  have hone : (BitVec.ofNat 32 size.bytes - 1).toNat = 2 ^ k - 1 := by
    rw [← hk]
    cases size <;> rfl
  unfold Bus.checkAlign isAlign
  rw [beq_iff_eq, ← BitVec.toNat_inj, BitVec.toNat_and, hone, Nat.and_two_pow_sub_one_eq_mod, ← hk]
  rfl

/-- The assertions of a slave hold for an aligned access to its region. -/
theorem slaveCheck_aligned {info : SlaveInfo}
    (h : findSlaveInfo slaveInfoList addr = some info) (ha : Bus.checkAlign addr size = true) :
    Bus.slaveCheck info (addr - info.base) size = .ok () := by
  have hmem := List.mem_of_find?_eq_some h
  have hin := List.find?_some h
  simp only [Bool.and_eq_true, decide_eq_true_eq] at hin
  -- the regions begin and end at multiples of a word
  obtain ⟨b, n, hb, hn, hend, hb4, hn4⟩ : ∃ b n, info.base.toNat = b ∧ info.size.toNat = n ∧
      (info.base + info.size).toNat = b + n ∧ b % 4 = 0 ∧ n % 4 = 0 := by
    obtain rfl | rfl : info = ⟨0x80000000, 1048576, .memory⟩ ∨
        info = ⟨0x20000000, 0x10000, .clint⟩ := by simpa [slaveInfoList] using hmem
    · exact ⟨2147483648, 1048576, rfl, rfl, rfl, rfl, rfl⟩
    · exact ⟨536870912, 65536, rfl, rfl, rfl, rfl, rfl⟩
  have hlo : b ≤ addr.toNat := hb ▸ hin.1
  have hhi : addr.toNat < b + n := hend ▸ hin.2
  have hoff : (addr - info.base).toNat = addr.toNat - b := by
    rw [BitVec.toNat_sub_of_le hin.1, hb]
  rw [checkAlign_iff] at ha
  have h1 : isAlign (addr - info.base) (BitVec.ofNat 32 size.bytes) = true := by
    refine checkAlign_iff.mpr ?_
    rw [hoff]
    cases size <;> simp only [AccessSize.bytes] at ha ⊢ <;> omega
  have h2 : addr - info.base < info.size := by
    change (addr - info.base).toNat < info.size.toNat
    omega
  have h3 : info.size - (addr - info.base) ≥ BitVec.ofNat 32 size.bytes := by
    change (BitVec.ofNat 32 size.bytes).toNat ≤ (info.size - (addr - info.base)).toNat
    rw [BitVec.toNat_sub_of_le (Nat.le_of_lt h2), AccessSize.toNat_bytes, hoff, hn]
    cases size <;> simp only [AccessSize.bytes] at ha ⊢ <;> omega
  simp only [Bus.slaveCheck, h1, h2, h3, decide_true, assert_true]
  rfl

/-- An aligned read answers; a memory address reads the memory. -/
theorem Bus.read_aligned (b : Bus)
    (ha : Bus.checkAlign addr size = true) :
    ∃ v, b.read addr size = .ok v ∧ ∀ info, findSlaveInfo slaveInfoList addr = some info →
      info.slave = .memory → v = b.memory.read (addr - info.base).toNat size := by
  unfold Bus.read
  cases hf : findSlaveInfo slaveInfoList addr with
  | none => exact ⟨0, rfl, by simp⟩
  | some info =>
    simp only [slaveCheck_aligned hf ha, bind, Except.bind, pure, Except.pure]
    cases hs : info.slave with
    | memory =>
      refine ⟨_, rfl, fun info' h _ => ?_⟩
      cases Option.some.inj h
      rfl
    | clint =>
      cases size <;>
        exact ⟨_, rfl, fun info' h hm => by cases Option.some.inj h; rw [hs] at hm; cases hm⟩

/-! ## The contents of the buffer

Marking and removal as functions of the list of stores. -/

namespace StoreBuffer

theorem getItem_eq (h : q.WF) {id : Nat} (hid : id ∈ q.ids) :
    getItem q id = .ok (q.buffer id) := by
  simp only [getItem, (Fifo.checkIdValid_iff h id).mpr hid]
  rfl

theorem setItem_eq (h : q.WF) {id : Nat} (hid : id ∈ q.ids)
    (item : StoreBufferItem) : setItem q id item = .ok (Fifo.setItem q id item) := by
  simp only [setItem, (Fifo.checkIdValid_iff h id).mpr hid]
  rfl

/-- The items are laid over the bus value, oldest first. -/
theorem getFeedbackValue_eq (h : q.WF) (addr : Word) (size : AccessSize)
    (busValue : Word) :
    getFeedbackValue q addr size busValue = .ok (q.toList.foldl (overlay addr size) busValue) := by
  unfold getFeedbackValue
  rw [h.getFrontId_eq]
  by_cases hc : 0 < q.count
  · have hhead : q.ids.head? = some q.rptr := by rw [h.ids_popped hc]; rfl
    simp only [hhead]
    rw [h.doWhileNext_eq_walk .storeBuffer _ _ _ hc]
    have hstep : ∀ seen id rest v, q.ids = seen ++ id :: rest →
        v = (seen.map q.buffer).foldl (overlay addr size) busValue →
        ∃ v', feedbackStep q addr size id v = .ok (v', false) ∧
          v' = ((seen ++ [id]).map q.buffer).foldl (overlay addr size) busValue := by
      intro seen id rest v hids hv
      refine ⟨overlay addr size v (q.buffer id), ?_, by simp [hv]⟩
      rw [feedbackStep, getItem_eq h (by rw [hids]; simp)]
      rfl
    obtain ⟨v, hwalk, rfl⟩ := Fifo.walk_all_rule
      (fun seen v => v = (seen.map q.buffer).foldl (overlay addr size) busValue) hstep
      (List.nil_append _).symm rfl
    exact hwalk
  · have hz : q.count = 0 := by omega
    simp [Fifo.ids_eq_nil hz, Fifo.toList_eq_nil hz]

/-- An item whose instruction retires is marked. -/
def mark (committed : List Nat) (item : StoreBufferItem) : StoreBufferItem :=
  if committed.contains item.robId then { item with committed := true } else item

/-- The items seen are marked, the others are as before. -/
structure MarkOk (q : StoreBuffer) (committed : List Nat) (seen : List Nat) (s : StoreBuffer) :
    Prop where
  same : s = { q with buffer := s.buffer }
  marked : ∀ id ∈ seen, s.buffer id = mark committed (q.buffer id)
  other : ∀ id, id ∉ seen → s.buffer id = q.buffer id

/-- One step of the loop marks the entry if it is among those that retired. -/
theorem markStep_spec {q s : StoreBuffer} (h : q.WF) {committed seen rest : List Nat} {id : Nat}
    (hids : q.ids = seen ++ id :: rest) (hs : MarkOk q committed seen s) :
    ∃ s', markStep committed id s = .ok (s', false) ∧ MarkOk q committed (seen ++ [id]) s' := by
  -- an id is visited once, so the entry is still as it was
  have hnd := h.nodup_ids
  rw [hids, List.nodup_append] at hnd
  have hid : id ∉ seen := fun hmem => hnd.2.2 id hmem id List.mem_cons_self rfl
  have hwf : s.WF := by
    rw [hs.same]
    exact ⟨h.rptr_lt, h.wptr_lt, h.stage⟩
  have hsids : s.ids = q.ids := by
    rw [hs.same]
    rfl
  have hmem : id ∈ s.ids := by rw [hsids, hids]; simp
  refine ⟨Fifo.setItem s id (mark committed (s.buffer id)), ?_, ?_, fun x hx => ?_, fun x hx => ?_⟩
  · simp only [markStep, getItem_eq hwf hmem, bind, Except.bind]
    rw [setItem_eq hwf hmem]
    rfl
  · rw [hs.same]
    rfl
  · rw [List.mem_append, List.mem_singleton] at hx
    obtain hx | rfl := hx
    · have hne : x ≠ id := fun e => hid (e ▸ hx)
      simp only [Fifo.setItem, Function.update_of_ne hne, hs.marked x hx]
    · simp only [Fifo.setItem, Function.update_self, hs.other x hid]
  · rw [List.mem_append, List.mem_singleton, not_or] at hx
    simp only [Fifo.setItem, Function.update_of_ne hx.2, hs.other x hx.1]

/-- Exactly the stores that retired are marked. -/
theorem markCommitted_spec (h : q.WF) (committed : List Nat) :
    ∃ buffer, markCommitted q committed = .ok { q with buffer := buffer } ∧
      q.ids.map buffer = q.toList.map (mark committed) := by
  unfold markCommitted
  rw [h.getFrontId_eq]
  by_cases hc : 0 < q.count
  · have hhead : q.ids.head? = some q.rptr := by rw [h.ids_popped hc]; rfl
    simp only [hhead]
    rw [h.doWhileNext_eq_walk .storeBuffer _ _ _ hc]
    obtain ⟨s, hwalk, hs⟩ := Fifo.walk_all_rule (MarkOk q committed)
      (fun seen id rest s hids hs => markStep_spec h hids hs) (List.nil_append _).symm
      ⟨rfl, by simp, fun _ _ => rfl⟩
    refine ⟨s.buffer, by rw [hwalk, ← hs.same], ?_⟩
    unfold Fifo.toList
    rw [List.map_map]
    exact List.map_congr_left hs.marked
  · have hz : q.count = 0 := by omega
    exact ⟨q.buffer, by simp [Fifo.ids_eq_nil hz], by simp [Fifo.ids_eq_nil hz, Fifo.toList_eq_nil hz]⟩

/-- An item that a flush keeps. -/
def kept (committed : List Nat) (item : StoreBufferItem) : Bool :=
  item.committed || committed.contains item.robId

theorem findStep_eq (h : q.WF) {id : Nat} (hid : id ∈ q.ids) (committed : List Nat)
    (s : Bool × Option (Nat × Bool)) : findStep q committed id s = .ok
      (if kept committed (q.buffer id) then ((IssueQueue.nextStage q id s.1, none), false)
        else ((s.1, some (id, s.1)), true)) := by
  simp only [findStep, getItem_eq h hid, bind, Except.bind]
  have hneg : (!(q.buffer id).committed && !committed.contains (q.buffer id).robId) =
      !kept committed (q.buffer id) := by rw [kept, Bool.not_or]
  rw [hneg]
  cases kept committed (q.buffer id) <;> rfl

/-- The search over the ids behind `seen`. -/
theorem findWalk_spec (h : q.WF) (committed : List Nat) {seen rest : List Nat}
    (hids : q.ids = seen ++ rest) :
    ∃ st found, Fifo.walk (findStep q committed) (fun _ => true) rest
        (IssueQueue.stageAt q seen.length, none) = .ok (st, found) ∧
      ((found = none ∧ ∀ id ∈ rest, kept committed (q.buffer id) = true) ∨
        ∃ mid id post, rest = mid ++ id :: post ∧ (∀ x ∈ mid, kept committed (q.buffer x) = true) ∧
          kept committed (q.buffer id) = false ∧
          found = some (id, IssueQueue.stageAt q (seen.length + mid.length))) := by
  -- `seen` counts the slots passed, so that the stage bit is that of the position
  induction rest generalizing seen with
  | nil => exact ⟨_, none, rfl, .inl ⟨rfl, by simp⟩⟩
  | cons id rest ih =>
    have hid : id ∈ q.ids := by rw [hids]; simp
    have hpos : seen.length < q.count := by
      rw [← Fifo.length_ids, hids]
      simp
    have hslot : id = (q.rptr + seen.length) % q.size := by
      have hget := congrArg (fun l => l[seen.length]?) hids
      simp only [Fifo.ids, Ring.getElem?_ids q.size q.rptr hpos] at hget
      simpa using hget.symm
    unfold Fifo.walk
    simp only [findStep_eq h hid, bind, Except.bind, pure, Except.pure]
    cases hk : kept committed (q.buffer id) with
    | false =>
      exact ⟨_, _, rfl, .inr ⟨[], id, rest, rfl, by simp, hk, rfl⟩⟩
    | true =>
      have hnext : IssueQueue.nextStage q id (IssueQueue.stageAt q seen.length) =
          IssueQueue.stageAt q (seen ++ [id]).length := by
        rw [hslot, IssueQueue.nextStage_stageAt h (Nat.lt_of_lt_of_le hpos h.count_le),
          List.length_append]
        rfl
      obtain ⟨st, found, hwalk, hcases⟩ := ih (show q.ids = (seen ++ [id]) ++ rest by rw [hids]; simp)
      refine ⟨st, found, ?_, ?_⟩
      · simp only [if_true, Bool.false_eq_true, if_false, hnext, Bool.and_true]
        cases rest with
        | nil => exact hwalk
        | cons x xs => exact hwalk
      · obtain ⟨rfl, hall⟩ | ⟨mid, x, post, rfl, hmid, hx, rfl⟩ := hcases
        · refine .inl ⟨rfl, fun y hy => ?_⟩
          obtain rfl | hy := List.mem_cons.mp hy
          · exact hk
          · exact hall y hy
        · refine .inr ⟨id :: mid, x, post, rfl, fun y hy => ?_, hx, ?_⟩
          · obtain rfl | hy := List.mem_cons.mp hy
            · exact hk
            · exact hmid y hy
          · simp only [List.length_append, List.length_cons, List.length_nil]
            congr 3
            omega

/-- A flush keeps the items in front of the first one that is not committed. -/
theorem findUncommitted_spec (h : q.WF) (committed : List Nat) :
    ∃ found, findUncommitted q committed = .ok found ∧
      ((found = none ∧ ∀ i ∈ q.toList, kept committed i = true) ∨
        ∃ m id, m < q.count ∧ id = (q.rptr + m) % q.size ∧
          found = some (id, IssueQueue.stageAt q m) ∧
          (q.ids.take m).map q.buffer = q.toList.takeWhile (kept committed)) := by
  unfold findUncommitted
  rw [h.getFrontId_eq]
  by_cases hc : 0 < q.count
  · have hhead : q.ids.head? = some q.rptr := by rw [h.ids_popped hc]; rfl
    -- the walk over all ids, from the front on
    obtain ⟨st, found, hwalk, hcases⟩ := findWalk_spec h committed (List.nil_append q.ids).symm
    have hstage : IssueQueue.stageAt q 0 = q.rstage := by simp [IssueQueue.stageAt, h.rptr_lt]
    rw [List.length_nil, hstage] at hwalk
    refine ⟨found, ?_, ?_⟩
    · simp only [hhead, h.doWhileNext_eq_walk .storeBuffer _ _ _ hc, hwalk]
      rfl
    · obtain ⟨rfl, hall⟩ | ⟨mid, id, post, hids, hmid, hid, rfl⟩ := hcases
      · refine .inl ⟨rfl, fun i hi => ?_⟩
        obtain ⟨x, hx, rfl⟩ := List.mem_map.mp hi
        exact hall x hx
      · have hlen : mid.length < q.count := by
          rw [← Fifo.length_ids, hids]
          simp
        refine .inr ⟨mid.length, id, hlen, ?_, by simp, ?_⟩
        · have hget := congrArg (fun l => l[mid.length]?) hids
          simp only [Fifo.ids, Ring.getElem?_ids q.size q.rptr hlen] at hget
          simpa using hget.symm
        · unfold Fifo.toList
          rw [hids, List.take_left, List.map_append, List.map_cons,
            List.takeWhile_append_of_pos (by simpa using hmid),
            List.takeWhile_cons_of_neg (by simp [hid]), List.append_nil]
  · have hz : q.count = 0 := by omega
    exact ⟨none, by simp [Fifo.ids_eq_nil hz], .inl ⟨rfl, by simp [Fifo.toList_eq_nil hz]⟩⟩

/-- The marking, when commit gives feedback. -/
theorem run_of_flushOrWrite {q q₁ : StoreBuffer} {writes : List Bus.Request}
    (hfirst : flushOrWrite q fb = .ok (q₁, writes)) (h : q₁.WF)
    (hen : fb.enable = false → fb.committedRobId = []) :
    ∃ q', run q fb = .ok (q', writes, fb.flushing) ∧ q'.WF ∧ q'.size = q₁.size ∧
      q'.popStatusSave = q₁.popStatusSave ∧ q'.toList = q₁.toList.map (mark fb.committedRobId) := by
  unfold run
  cases he : fb.enable with
  | true =>
    obtain ⟨buffer, hmark, hlist⟩ := markCommitted_spec h fb.committedRobId
    refine ⟨{ q₁ with buffer := buffer }, ?_, ⟨h.rptr_lt, h.wptr_lt, h.stage⟩, rfl, rfl, hlist⟩
    simp only [hfirst, bind, Except.bind, if_true, hmark]
    rfl
  | false =>
    have hid : mark [] = id := by
      funext i
      simp [mark]
    refine ⟨q₁, ?_, h, rfl, rfl, by rw [hen he, hid, List.map_id]⟩
    simp only [hfirst, bind, Except.bind, Bool.false_eq_true, if_false]
    rfl

/-- Outside a flush the oldest item is written if it is committed, and what retires is marked. -/
theorem run_flow_spec (h : q.WF)
    (hflush : fb.flushing = false) (hen : fb.enable = false → fb.committedRobId = []) :
    ∃ q' gone stay, run q fb = .ok (q', gone.map fun i =>
        { addr := i.addr, size := i.size, data := i.data }, false) ∧ q'.WF ∧ q'.size = q.size ∧
      q'.popStatusSave = q.popStatusSave ∧ q.toList = gone ++ stay ∧
      (∀ i ∈ gone, i.committed = true) ∧ q'.toList = stay.map (mark fb.committedRobId) ∧
      ∀ i rest, q.toList = i :: rest → i.committed = true → gone = [i] := by
  -- at most one committed store leaves, then the new ones are marked
  obtain ⟨q₁, gone, hfirst, hwf, hsize, hsave, hlist, hgone, hfront⟩ : ∃ q₁ gone,
      flushOrWrite q fb = .ok (q₁, gone.map fun i =>
        { addr := i.addr, size := i.size, data := i.data }) ∧ q₁.WF ∧ q₁.size = q.size ∧
      q₁.popStatusSave = q.popStatusSave ∧ q.toList = gone ++ q₁.toList ∧
      (∀ i ∈ gone, i.committed = true) ∧
      ∀ i rest, q.toList = i :: rest → i.committed = true → gone = [i] := by
    unfold flushOrWrite
    rw [hflush, if_neg (by simp), h.getFront_eq]
    cases hl : q.toList with
    | nil => exact ⟨q, [], rfl, h, rfl, rfl, hl.symm, by simp, by simp⟩
    | cons i rest =>
      simp only [List.head?_cons]
      by_cases hc : i.committed = true
      · rw [if_pos hc]
        refine ⟨q.drop1, [i], rfl, h.drop1, q.size_drop1, q.popStatusSave_drop1, ?_,
          by simpa using hc, fun j _ hj _ => by rw [(List.cons.inj hj).1]⟩
        rw [h.toList_drop1, hl]
        rfl
      · rw [if_neg hc]
        exact ⟨q, [], rfl, h, rfl, rfl, hl.symm, by simp,
          fun j _ hj hcj => absurd ((List.cons.inj hj).1 ▸ hcj) hc⟩
  obtain ⟨q', hrun, hwf', hsize', hsave', hlist'⟩ := run_of_flushOrWrite hfirst hwf hen
  rw [hflush] at hrun
  exact ⟨q', gone, q₁.toList, hrun, hwf', hsize'.trans hsize, hsave'.trans hsave, hlist, hgone, hlist',
    hfront⟩

/-- A flush keeps what is committed, or retires in this cycle. -/
theorem run_flush_spec (h : q.WF)
    (hflush : fb.flushing = true) :
    ∃ q', run q fb = .ok (q', [], true) ∧ q'.WF ∧ q'.popStatusSave = q.popStatusSave ∧
      q'.toList = (q.toList.takeWhile (kept fb.committedRobId)).map (mark fb.committedRobId) := by
  have hen : fb.enable = true := (Bool.and_eq_true_iff.mp hflush).1
  obtain ⟨q₁, hfirst, hwf, hsave, hlist⟩ : ∃ q₁, flushOrWrite q fb = .ok (q₁, []) ∧ q₁.WF ∧
      q₁.popStatusSave = q.popStatusSave ∧
      q₁.toList = q.toList.takeWhile (kept fb.committedRobId) := by
    unfold flushOrWrite
    rw [hflush, if_pos rfl]
    obtain ⟨found, hfound, ⟨rfl, hall⟩ | ⟨m, id, hm, rfl, rfl, htake⟩⟩ :=
      findUncommitted_spec h fb.committedRobId
    · refine ⟨q, by simp only [hfound]; rfl, h, rfl, ?_⟩
      rw [List.takeWhile_eq_self_iff.mpr hall]
    · have hcut := IssueQueue.truncate_spec h hm q.buffer
      refine ⟨{ q with wptr := (q.rptr + m) % q.size, wstage := IssueQueue.stageAt q m },
        by simp only [hfound]; rfl, hcut.1, rfl, ?_⟩
      rw [← htake, ← hcut.2]
      rfl
  obtain ⟨q', hrun, hwf', -, hsave', hlist'⟩ := run_of_flushOrWrite hfirst hwf (by simp [hen])
  rw [hflush] at hrun
  exact ⟨q', hrun, hwf', hsave'.trans hsave, by rw [hlist', hlist]⟩

end StoreBuffer

end MyRiscvCore
