import MyRiscvCore.Component.Fifo
import MyRiscvCore.Lib.Ring

/-!
# MyRiscvCore — the ring FIFO as a list

`Fifo.WF` is the invariant of the pointers and their stage bits. Under it a FIFO is the list of its
occupied slots, `ids`, in queue order, and the list of their contents, `toList`; every operation of
the FIFO is then an operation on these lists:

* `push` appends, `pop` and `drop1` remove the head, `flush` empties, `setItem` replaces in place;
* a slot id is valid exactly if it is in `ids`, and `getNextId` steps along it;
* the `do { .. } while(get_next_id(..))` traversals are a `walk` over `ids`.

The FIFOs that judge fullness by a saved read pointer need `Saved` besides: the saved pointer is not
ahead of the real one, so a FIFO that does not look full has room.
-/

namespace MyRiscvCore

namespace Fifo

variable {α : Type}

/-- The number of elements, from the pointers. -/
def count (q : Fifo α) : Nat :=
  if q.wstage = q.rstage then q.wptr - q.rptr else q.size + q.wptr - q.rptr

structure WF (q : Fifo α) : Prop where
  rptr_lt : q.rptr < q.size
  wptr_lt : q.wptr < q.size
  stage : if q.wstage = q.rstage then q.rptr ≤ q.wptr else q.wptr ≤ q.rptr

/-- The occupied slots, oldest first. -/
def ids (q : Fifo α) : List Nat :=
  Ring.ids q.size q.rptr q.count

/-- The contents, oldest first. -/
def toList (q : Fifo α) : List α :=
  q.ids.map q.buffer

variable {q : Fifo α}

theorem WF.size_pos (h : q.WF) : 0 < q.size :=
  Nat.lt_of_le_of_lt (Nat.zero_le _) h.rptr_lt

/-- There are never more elements than slots. -/
theorem WF.count_le (h : q.WF) : q.count ≤ q.size := by
  have := h.stage; have := h.rptr_lt; have := h.wptr_lt
  unfold count
  split
  · omega
  · simp_all

/-- The write pointer is `count` slots after the read pointer. -/
theorem WF.wptr_eq (h : q.WF) : (q.rptr + q.count) % q.size = q.wptr := by
  have h1 := h.stage; have h2 := h.rptr_lt; have h3 := h.wptr_lt
  unfold count
  split at h1 <;> rename_i hs
  · rw [if_pos hs, Nat.add_sub_cancel' h1, Nat.mod_eq_of_lt h3]
  · rw [if_neg hs, show q.rptr + (q.size + q.wptr - q.rptr) = q.wptr + q.size from by omega,
      Nat.add_mod_right, Nat.mod_eq_of_lt h3]

@[simp] theorem length_ids (q : Fifo α) : q.ids.length = q.count := by
  simp [ids]

@[simp] theorem length_toList (q : Fifo α) : q.toList.length = q.count := by
  simp [toList]

theorem ids_eq_nil (h : q.count = 0) : q.ids = [] :=
  List.eq_nil_of_length_eq_zero (by rw [length_ids, h])

theorem toList_eq_nil (h : q.count = 0) : q.toList = [] :=
  List.eq_nil_of_length_eq_zero (by rw [length_toList, h])

/-- No slot is occupied twice. -/
theorem WF.nodup_ids (h : q.WF) : q.ids.Nodup :=
  Ring.nodup_ids h.count_le

/-- Occupied slots are slots. -/
theorem WF.lt_of_mem (h : q.WF) {id : Nat} (hid : id ∈ q.ids) : id < q.size :=
  Ring.lt_of_mem_ids h.size_pos hid

/-! ## Construction, empty and full

The two tests of the source, on pointers and stage bits, are those on the number of elements. -/

theorem WF.new {size : Nat} (h : 0 < size) (buffer : Nat → α) : (new size buffer).WF :=
  ⟨h, h, by simp [Fifo.new]⟩

@[simp] theorem toList_new (size : Nat) (buffer : Nat → α) : (new size buffer).toList = [] := by
  simp [toList, ids, count, new]

@[simp] theorem ids_new (size : Nat) (buffer : Nat → α) : (new size buffer).ids = [] := by
  simp [ids, count, new]

/-- Equal pointers in the same stage: empty. -/
theorem WF.isEmpty_iff (h : q.WF) : q.isEmpty = true ↔ q.count = 0 := by
  have h1 := h.stage; have h2 := h.rptr_lt; have h3 := h.wptr_lt
  unfold isEmpty count
  split at h1 <;> rename_i hs
  · rw [if_pos hs]; simp [hs]; omega
  · rw [if_neg hs]
    have hs' : q.rstage ≠ q.wstage := fun e => hs e.symm
    simp [hs']; omega

theorem WF.isEmpty_eq_false (h : q.WF) : q.isEmpty = false ↔ 0 < q.count := by
  rw [← Bool.not_eq_true, h.isEmpty_iff, Nat.pos_iff_ne_zero]

theorem WF.isEmpty_eq (h : q.WF) : q.isEmpty = q.toList.isEmpty := by
  rw [Bool.eq_iff_iff, h.isEmpty_iff, List.isEmpty_iff, ← List.length_eq_zero_iff, length_toList]

/-- Equal pointers in different stages: full, unless fullness is judged by a saved pointer. -/
theorem WF.isFull_iff (h : q.WF) (hp : q.popStatusSave = false) :
    q.isFull = true ↔ q.count = q.size := by
  have h1 := h.stage; have h2 := h.rptr_lt; have h3 := h.wptr_lt
  unfold isFull count
  split at h1 <;> rename_i hs
  · rw [if_pos hs]; simp [hp, hs]; omega
  · rw [if_neg hs]
    have hs' : q.rstage ≠ q.wstage := fun e => hs e.symm
    simp [hp, hs']; omega

/-- A FIFO that is not full has room. -/
theorem WF.count_lt (h : q.WF) (hp : q.popStatusSave = false)
    (hf : q.isFull = false) : q.count < q.size := by
  have hne : ¬ q.count = q.size := fun e => by
    rw [(h.isFull_iff hp).mpr e] at hf
    exact absurd hf (by simp)
  have := h.count_le
  omega

theorem WF.flush (h : q.WF) : q.flush.WF :=
  ⟨h.size_pos, h.size_pos, by simp [Fifo.flush]⟩

@[simp] theorem toList_flush (q : Fifo α) : q.flush.toList = [] := by
  simp [toList, ids, count, flush]

@[simp] theorem ids_flush (q : Fifo α) : q.flush.ids = [] := by
  simp [ids, count, flush]

/-! ## Push and pop

`pushed` and `popped` are the results of a successful call; on the lists they append and take the head. -/

/-- The FIFO after a successful `push`. -/
def pushed (q : Fifo α) (x : α) : Fifo α :=
  { q with
    buffer := Function.update q.buffer q.wptr x
    wptr := (q.wptr + 1) % q.size
    wstage := if q.wptr + 1 ≥ q.size then !q.wstage else q.wstage }

/-- The FIFO after a successful `pop`. -/
def popped (q : Fifo α) : Fifo α :=
  { q with
    rptr := (q.rptr + 1) % q.size
    rstage := if q.rptr + 1 ≥ q.size then !q.rstage else q.rstage }

/-- A push succeeds if the FIFO is not full. -/
theorem WF.push_eq (h : q.WF) (hf : q.isFull = false) (x : α) :
    q.push x = some (q.pushed x) := by
  have h3 := h.wptr_lt
  unfold push pushed
  rw [if_neg (by simp [hf])]
  by_cases hw : q.wptr + 1 ≥ q.size
  · rw [show q.wptr + 1 = q.size from by omega]
    simp
  · simp only [if_neg hw, Nat.mod_eq_of_lt (Nat.not_le.mp hw)]

theorem push_eq_none (hf : q.isFull = true) (x : α) : q.push x = none := by
  simp [push, hf]

/-- A pop succeeds if it is not empty. -/
theorem WF.pop_eq (h : q.WF) (he : q.isEmpty = false) :
    q.pop = some (q.buffer q.rptr, q.popped) := by
  have h3 := h.rptr_lt
  unfold pop popped
  rw [if_neg (by simp [he])]
  by_cases hw : q.rptr + 1 ≥ q.size
  · rw [show q.rptr + 1 = q.size from by omega]
    simp
  · simp only [if_neg hw, Nat.mod_eq_of_lt (Nat.not_le.mp hw)]

theorem pop_eq_none (he : q.isEmpty = true) : q.pop = none := by
  simp [pop, he]

/-- The pointer wraps around at the end of the array, and the stage bit flips with it. -/
theorem WF.pushed_count (h : q.WF) (hc : q.count < q.size) (x : α) :
    (q.pushed x).WF ∧ (q.pushed x).count = q.count + 1 := by
  obtain ⟨h2, h3, h1⟩ := h
  unfold count at hc ⊢
  by_cases hw : q.wptr + 1 ≥ q.size
  · have e : q.wptr + 1 = q.size := by omega
    refine ⟨⟨h2, Nat.mod_lt _ (by omega), ?_⟩, ?_⟩
    all_goals
      unfold Fifo.pushed
      rw [e]
      cases hr : q.rstage <;> cases hs : q.wstage <;> simp_all <;> omega
  · refine ⟨⟨h2, Nat.mod_lt _ (by omega), ?_⟩, ?_⟩
    all_goals
      unfold Fifo.pushed
      simp only [if_neg hw, Nat.mod_eq_of_lt (Nat.not_le.mp hw)]
      split_ifs at h1 hc ⊢ <;> omega

theorem WF.popped_count (h : q.WF) (hc : 0 < q.count) : q.popped.WF ∧ q.popped.count + 1 = q.count := by
  obtain ⟨h2, h3, h1⟩ := h
  unfold count at hc ⊢
  by_cases hw : q.rptr + 1 ≥ q.size
  · have e : q.rptr + 1 = q.size := by omega
    refine ⟨⟨Nat.mod_lt _ (by omega), h3, ?_⟩, ?_⟩
    all_goals
      unfold Fifo.popped
      rw [e]
      cases hr : q.rstage <;> cases hs : q.wstage <;> simp_all <;> omega
  · refine ⟨⟨Nat.mod_lt _ (by omega), h3, ?_⟩, ?_⟩
    all_goals
      unfold Fifo.popped
      simp only [if_neg hw, Nat.mod_eq_of_lt (Nat.not_le.mp hw)]
      split_ifs at h1 hc ⊢ <;> omega

theorem WF.count_pushed (h : q.WF) (hc : q.count < q.size) (x : α) : (q.pushed x).count = q.count + 1 :=
  (h.pushed_count hc x).2

theorem WF.pushed (h : q.WF) (hc : q.count < q.size) (x : α) : (q.pushed x).WF := (h.pushed_count hc x).1

theorem WF.count_popped (h : q.WF) (hc : 0 < q.count) : q.popped.count + 1 = q.count := (h.popped_count hc).2

theorem WF.popped (h : q.WF) (hc : 0 < q.count) : q.popped.WF := (h.popped_count hc).1

/-- The new element is in the slot of the write pointer. -/
theorem WF.ids_pushed (h : q.WF) (hc : q.count < q.size) (x : α) :
    (q.pushed x).ids = q.ids ++ [q.wptr] := by
  unfold ids
  rw [h.count_pushed hc, show (q.pushed x).size = q.size from rfl,
    show (q.pushed x).rptr = q.rptr from rfl, Ring.ids_succ_back, h.wptr_eq]

/-- That slot was free. -/
theorem WF.wptr_notMem (h : q.WF) (hc : q.count < q.size) : q.wptr ∉ q.ids := by
  rw [← h.wptr_eq]
  exact Ring.next_notMem_ids hc

/-- A push appends. -/
theorem WF.toList_pushed (h : q.WF) (hc : q.count < q.size) (x : α) :
    (q.pushed x).toList = q.toList ++ [x] := by
  unfold toList
  rw [h.ids_pushed hc, List.map_append, List.map_singleton]
  congr 1
  · apply List.map_congr_left
    intro id hid
    have : id ≠ q.wptr := fun e => h.wptr_notMem hc (e ▸ hid)
    simp [Fifo.pushed, this]
  · simp [Fifo.pushed]

/-- The oldest element is in the slot of the read pointer. -/
theorem WF.ids_popped (h : q.WF) (hc : 0 < q.count) :
    q.ids = q.rptr :: q.popped.ids := by
  unfold ids
  rw [← h.count_popped hc, Ring.ids_succ_front h.rptr_lt]
  rfl

/-- A pop takes the head. -/
theorem WF.toList_popped (h : q.WF) (hc : 0 < q.count) :
    q.toList = q.buffer q.rptr :: q.popped.toList := by
  unfold toList
  rw [h.ids_popped hc]
  rfl

/-- What a pop can answer. -/
theorem WF.pop_cases (h : q.WF) : (q.pop = none ∧ q.toList = []) ∨
    ∃ x, q.pop = some (x, q.popped) ∧ 0 < q.count ∧ q.toList = x :: q.popped.toList := by
  cases he : q.isEmpty with
  | true => exact .inl ⟨pop_eq_none he, toList_eq_nil (h.isEmpty_iff.mp he)⟩
  | false =>
    have hc := h.isEmpty_eq_false.mp he
    exact .inr ⟨_, h.pop_eq he, hc, h.toList_popped hc⟩

theorem drop1_of_isEmpty (he : q.isEmpty = true) : q.drop1 = q := by
  simp [drop1, pop_eq_none he]

theorem WF.drop1_eq (h : q.WF) (hc : 0 < q.count) : q.drop1 = q.popped := by
  simp [drop1, h.pop_eq (h.isEmpty_eq_false.mpr hc)]

/-- Dropping keeps the invariant, also if there is nothing to drop. -/
theorem WF.drop1 (h : q.WF) : q.drop1.WF := by
  by_cases hc : 0 < q.count
  · rw [h.drop1_eq hc]
    exact h.popped hc
  · rw [drop1_of_isEmpty (h.isEmpty_iff.mpr (by omega))]
    exact h

/-- The slots after dropping the oldest element. -/
theorem WF.ids_drop1 (h : q.WF) : q.drop1.ids = q.ids.tail := by
  by_cases hc : 0 < q.count
  · rw [h.drop1_eq hc, h.ids_popped hc]
    rfl
  · have hz : q.count = 0 := by omega
    rw [drop1_of_isEmpty (h.isEmpty_iff.mpr hz), ids_eq_nil hz]
    rfl

@[simp] theorem buffer_drop1 (q : Fifo α) : q.drop1.buffer = q.buffer := by
  unfold drop1 pop
  by_cases he : q.isEmpty = true
  · simp [he]
  · by_cases hw : q.rptr + 1 ≥ q.size <;> simp [he, hw]

@[simp] theorem popStatusSave_drop1 (q : Fifo α) : q.drop1.popStatusSave = q.popStatusSave := by
  unfold drop1 pop
  by_cases he : q.isEmpty = true
  · simp [he]
  · by_cases hw : q.rptr + 1 ≥ q.size <;> simp [he, hw]

@[simp] theorem size_drop1 (q : Fifo α) : q.drop1.size = q.size := by
  unfold drop1 pop
  by_cases he : q.isEmpty = true
  · simp [he]
  · by_cases hw : q.rptr + 1 ≥ q.size <;> simp [he, hw]

theorem WF.toList_drop1 (h : q.WF) : q.drop1.toList = q.toList.tail := by
  simp [toList, h.ids_drop1, List.map_tail]

/-! ## Items and slot ids

The id functions of the source compare pointers; here they are positions in `ids`. -/

theorem WF.setItem (h : q.WF) (id : Nat) (x : α) : (q.setItem id x).WF :=
  ⟨h.rptr_lt, h.wptr_lt, h.stage⟩

@[simp] theorem ids_setItem (q : Fifo α) (id : Nat) (x : α) : (q.setItem id x).ids = q.ids := rfl

/-- An id is valid exactly if its slot is occupied. -/
theorem checkIdValid_iff (h : q.WF) (id : Nat) :
    q.checkIdValid id = true ↔ id ∈ q.ids := by
  have h1 := h.stage; have h2 := h.rptr_lt; have h3 := h.wptr_lt
  unfold ids
  rw [Ring.mem_ids]
  by_cases hz : q.count = 0
  · simp [checkIdValid, h.isEmpty_iff.mpr hz, hz]
  have he : q.isEmpty = false := h.isEmpty_eq_false.mpr (by omega)
  unfold count at hz ⊢
  unfold checkIdValid
  -- the same stage bit: the ids do not wrap
  split at h1 <;> rename_i hs
  · simp only [he, hs, if_true] at hz ⊢
    simp only [Bool.false_eq_true, if_false, beq_self_eq_true, if_true, Bool.and_eq_true,
      decide_eq_true_eq]
    constructor
    · rintro ⟨ha, hb⟩
      exact ⟨id - q.rptr, by omega, by rw [Nat.mod_eq_of_lt (by omega)]; omega⟩
    · rintro ⟨i, hi, rfl⟩
      rw [Nat.mod_eq_of_lt (by omega)]
      omega
  · have hs' : (q.wstage == q.rstage) = false := by simpa using hs
    simp only [he, hs', if_neg hs, Bool.false_eq_true, if_false, Bool.and_eq_true, Bool.or_eq_true,
      decide_eq_true_eq]
    constructor
    · rintro (⟨ha, hb⟩ | hb)
      · exact ⟨id - q.rptr, by omega, by rw [Nat.mod_eq_of_lt (by omega)]; omega⟩
      · refine ⟨q.size + id - q.rptr, by omega, ?_⟩
        rw [show q.rptr + (q.size + id - q.rptr) = id + q.size from by omega, Nat.add_mod_right,
          Nat.mod_eq_of_lt (by omega)]
    · rintro ⟨i, hi, rfl⟩
      by_cases hlt : q.rptr + i < q.size
      · rw [Nat.mod_eq_of_lt hlt]
        omega
      · rw [Nat.mod_eq_sub_mod (by omega), Nat.mod_eq_of_lt (by omega)]
        omega

/-- The front is the oldest slot. -/
theorem WF.getFrontId_eq (h : q.WF) : q.getFrontId = q.ids.head? := by
  unfold getFrontId
  by_cases hc : 0 < q.count
  · simp [h.isEmpty_eq_false.mpr hc, h.ids_popped hc]
  · have hz : q.count = 0 := by omega
    rw [if_pos (h.isEmpty_iff.mpr hz), ids_eq_nil hz]
    rfl

/-- And its contents the oldest element. -/
theorem WF.getFront_eq (h : q.WF) : q.getFront = q.toList.head? := by
  unfold getFront
  by_cases hc : 0 < q.count
  · simp [h.isEmpty_eq_false.mpr hc, h.toList_popped hc]
  · have hz : q.count = 0 := by omega
    rw [if_pos (h.isEmpty_iff.mpr hz), toList_eq_nil hz]
    rfl

/-- The tail is the youngest slot. -/
theorem WF.getTailId_eq (h : q.WF) : q.getTailId = q.ids.getLast? := by
  unfold getTailId
  obtain hz | ⟨n, hn⟩ : q.count = 0 ∨ ∃ n, q.count = n + 1 := by
    cases q.count with
    | zero => exact .inl rfl
    | succ n => exact .inr ⟨n, rfl⟩
  · rw [if_pos (h.isEmpty_iff.mpr hz), ids_eq_nil hz]
    rfl
  · rw [if_neg (by simp [h.isEmpty_eq_false.mpr (by omega)])]
    have hlast : q.ids.getLast? = some ((q.rptr + n) % q.size) := by
      unfold ids
      rw [hn, Ring.ids_succ_back, List.getLast?_append]
      rfl
    rw [hlast, ← h.wptr_eq, hn, show q.rptr + (n + 1) = q.rptr + n + 1 from by omega]
    congr 1
    rw [Nat.add_sub_assoc h.size_pos, Nat.mod_add_mod,
      show q.rptr + n + 1 + (q.size - 1) = q.rptr + n + q.size from by have := h.size_pos; omega,
      Nat.add_mod_right]

/-- In a ring of more than half of the 32-bit range the sum in `get_tail` wraps. -/
theorem WF.getTail_eq (h : q.WF) (hsize : q.size ≤ 2 ^ 31) : q.getTail = q.toList.getLast? := by
  have hid := h.getTailId_eq
  have hw := h.wptr_lt
  unfold getTailId at hid
  unfold getTail toList
  rw [List.getLast?_map, ← hid, Nat.mod_eq_of_lt (show q.wptr + q.size - 1 < 2 ^ 32 by omega)]
  split <;> rfl

/-- The size is computed in 32 bits, which does not matter below `2 ^ 31`. -/
theorem WF.getSize_eq (h : q.WF) (hp : q.popStatusSave = false) (hsize : q.size ≤ 2 ^ 31) :
    q.getSize = q.count := by
  have h1 := h.stage; have h2 := h.rptr_lt; have h3 := h.wptr_lt
  unfold getSize
  cases hf : q.isFull with
  | true => rw [if_pos rfl, (h.isFull_iff hp).mp hf]
  | false =>
    have hlt := h.count_lt hp hf
    have hsum : q.wptr + q.size - q.rptr < 2 ^ 32 := by omega
    simp only [hp, Bool.false_eq_true, if_false, Nat.mod_eq_of_lt hsum]
    unfold count at hlt ⊢
    split at h1 <;> rename_i hs
    · rw [if_pos hs, show q.wptr + q.size - q.rptr = q.wptr - q.rptr + q.size by omega, Nat.add_mod_right,
        Nat.mod_eq_of_lt (by omega)]
    · rw [if_neg hs] at hlt ⊢
      rw [Nat.add_comm q.wptr, Nat.mod_eq_of_lt hlt]

/-- One step along the occupied slots: the next slot is live and not the first one exactly if the
element is not the last. -/
theorem WF.getNextId_eq (h : q.WF) (file : SourceFile) {i : Nat} (hi : i < q.count) :
    ∃ valid, q.getNextId file ((q.rptr + i) % q.size) =
        .ok ((q.rptr + (i + 1)) % q.size, valid) ∧
      ((valid && (q.rptr + (i + 1)) % q.size != q.rptr) = decide (i + 1 < q.count)) := by
  have hmem : (q.rptr + i) % q.size ∈ q.ids := Ring.mem_ids.mpr ⟨i, hi, rfl⟩
  have hnext : ((q.rptr + i) % q.size + 1) % q.size = (q.rptr + (i + 1)) % q.size := by
    rw [Nat.mod_add_mod, Nat.add_assoc]
  refine ⟨q.checkIdValid ((q.rptr + (i + 1)) % q.size), ?_, ?_⟩
  · simp only [getNextId, (checkIdValid_iff h _).mpr hmem, hnext]
    rfl
  · rw [Bool.eq_iff_iff, Bool.and_eq_true, checkIdValid_iff h, bne_iff_ne, decide_eq_true_eq]
    have hle := h.count_le
    constructor
    · rintro ⟨hmem', hne⟩
      by_contra hlast
      -- the last element: the slot behind it is free, or the ring is full and it is the first one
      have hi' : i + 1 = q.count := by omega
      rw [hi'] at hmem' hne
      by_cases hfull : q.count < q.size
      · exact Ring.next_notMem_ids hfull hmem'
      · apply hne
        rw [show q.count = q.size from by omega, Nat.add_mod_right, Nat.mod_eq_of_lt h.rptr_lt]
    · intro hlt
      refine ⟨Ring.mem_ids.mpr ⟨i + 1, hlt, rfl⟩, fun e => ?_⟩
      have e0 : (q.rptr + (i + 1)) % q.size = (q.rptr + 0) % q.size := by
        rw [e, Nat.add_zero, Nat.mod_eq_of_lt h.rptr_lt]
      have := Ring.offset_inj (by omega) (by have := h.size_pos; omega) e0
      omega

/-- One step back along the occupied slots. -/
theorem WF.getPrevId_eq (h : q.WF) (file : SourceFile) {i : Nat}
    (hi : i + 1 < q.count) :
    q.getPrevId file ((q.rptr + (i + 1)) % q.size) = .ok ((q.rptr + i) % q.size, true) := by
  have hprev : ((q.rptr + (i + 1)) % q.size + q.size - 1) % q.size = (q.rptr + i) % q.size := by
    rw [Nat.add_sub_assoc h.size_pos, Nat.mod_add_mod,
      show q.rptr + (i + 1) + (q.size - 1) = q.rptr + i + q.size from by
        have := h.size_pos; omega, Nat.add_mod_right]
  have h1 : q.checkIdValid ((q.rptr + (i + 1)) % q.size) = true :=
    (checkIdValid_iff h _).mpr (Ring.mem_ids.mpr ⟨i + 1, hi, rfl⟩)
  have h2 : q.checkIdValid ((q.rptr + i) % q.size) = true :=
    (checkIdValid_iff h _).mpr (Ring.mem_ids.mpr ⟨i, by omega, rfl⟩)
  simp only [getPrevId, h1, hprev, h2]
  rfl

/-- At the first slot there is nothing to go back to but the slot itself, so only the assertion of
`get_prev_id` matters. -/
theorem getPrevId_ok (h : q.WF) (file : SourceFile) {id : Nat} (hid : id ∈ q.ids) :
    q.getPrevId file id =
      .ok ((id + q.size - 1) % q.size, q.checkIdValid ((id + q.size - 1) % q.size)) := by
  simp only [getPrevId, (checkIdValid_iff h _).mpr hid]
  rfl

/-- `q'` is `q` with the items `xs` pushed behind the others. -/
structure Grown (q q' : Fifo α) (xs : List α) : Prop where
  wf : q'.WF
  size : q'.size = q.size
  save : q'.popStatusSave = q.popStatusSave
  ids : ∃ new, q'.ids = q.ids ++ new ∧ new.map q'.buffer = xs
  old : ∀ id ∈ q.ids, q'.buffer id = q.buffer id

theorem Grown.refl (h : q.WF) : Grown q q [] :=
  ⟨h, rfl, rfl, ⟨[], by simp, rfl⟩, fun _ _ => rfl⟩

/-- Pushes add up. -/
theorem Grown.trans {q q' q'' : Fifo α} {xs ys : List α} (h₁ : Grown q q' xs)
    (h₂ : Grown q' q'' ys) : Grown q q'' (xs ++ ys) := by
  obtain ⟨new₁, hids₁, hnew₁⟩ := h₁.ids
  obtain ⟨new₂, hids₂, hnew₂⟩ := h₂.ids
  refine ⟨h₂.wf, h₂.size.trans h₁.size, h₂.save.trans h₁.save,
    ⟨new₁ ++ new₂, by rw [hids₂, hids₁, List.append_assoc], ?_⟩, fun id hid => ?_⟩
  · rw [List.map_append, hnew₂, ← hnew₁]
    congr 1
    refine List.map_congr_left fun id hid => h₂.old id ?_
    rw [hids₁]
    exact List.mem_append_right _ hid
  · rw [h₂.old id (by rw [hids₁]; exact List.mem_append_left _ hid), h₁.old id hid]

/-- One push. -/
theorem Grown.pushed (h : q.WF) (hc : q.count < q.size) (x : α) :
    Grown q (q.pushed x) [x] := by
  refine ⟨h.pushed hc x, rfl, rfl, ⟨[q.wptr], h.ids_pushed hc x, ?_⟩, fun id hid => ?_⟩
  · simp [Fifo.pushed]
  · have hne : id ≠ q.wptr := by
      rintro rfl
      exact h.wptr_notMem hc hid
    simp [Fifo.pushed, Function.update_of_ne hne]

/-- The FIFO as its fullness test sees it: from the read pointer at the start of the cycle. -/
def saved (q : Fifo α) : Fifo α :=
  { q with rptr := q.rptrSaved, rstage := q.rstageSaved, popStatusSave := false }

/-- Within a cycle: what has been popped since its start still counts as occupied. -/
structure SaveOk (q : Fifo α) : Prop where
  save : q.popStatusSave = true
  wf : q.WF
  saved : q.saved.WF
  le : q.count ≤ q.saved.count

/-- Saving the pointer at the start of a cycle. -/
theorem WF.resetPopStatus (h : q.WF) (hs : q.popStatusSave = true) :
    q.resetPopStatus.SaveOk :=
  ⟨hs, ⟨h.rptr_lt, h.wptr_lt, h.stage⟩, ⟨h.rptr_lt, h.wptr_lt, h.stage⟩, Nat.le_refl _⟩

@[simp] theorem toList_resetPopStatus (q : Fifo α) : q.resetPopStatus.toList = q.toList := rfl

/-- A FIFO that does not look full has room even without the pops of the cycle. -/
theorem SaveOk.saved_count_lt (h : q.SaveOk) (hf : q.isFull = false) :
    q.saved.count < q.saved.size := by
  refine h.saved.count_lt rfl ?_
  unfold isFull at hf ⊢
  rw [h.save, if_pos rfl] at hf
  exact hf

theorem SaveOk.count_lt (h : q.SaveOk) (hf : q.isFull = false) : q.count < q.size :=
  Nat.lt_of_le_of_lt h.le (h.saved_count_lt hf)

/-- Pushes and pops keep the saved pointer behind the real one. -/
theorem SaveOk.pushed (h : q.SaveOk) (hf : q.isFull = false) (x : α) :
    (q.pushed x).SaveOk := by
  refine ⟨h.save, h.wf.pushed (h.count_lt hf) x, h.saved.pushed (h.saved_count_lt hf) x, ?_⟩
  rw [h.wf.count_pushed (h.count_lt hf)]
  exact Nat.le_trans (Nat.succ_le_succ h.le)
    (Nat.le_of_eq (h.saved.count_pushed (h.saved_count_lt hf) x).symm)

theorem SaveOk.popped (h : q.SaveOk) (hc : 0 < q.count) : q.popped.SaveOk := by
  refine ⟨h.save, h.wf.popped hc, ⟨h.saved.rptr_lt, h.saved.wptr_lt, h.saved.stage⟩, ?_⟩
  have hcount := h.wf.count_popped hc
  have hsame : q.popped.saved.count = q.saved.count := rfl
  have := h.le
  omega

/-- `do { body } while(..)` as a walk over a list of slot ids: stop at a `break`, at the end of the
list, or when `more` fails. -/
def walk {σ : Type} (body : Nat → σ → Except Halt (σ × Bool)) (more : σ → Bool) :
    List Nat → σ → Except Halt σ
  | [], s => .ok s
  | id :: rest, s => do
    let (s, stop) ← body id s
    if stop then return s
    if !rest.isEmpty && more s then walk body more rest s else return s

/-- The loop from the `i`-th slot on, with enough rounds for the rest. -/
theorem WF.doWhileNext_eq_walk_drop (h : q.WF) {σ : Type} (file : SourceFile)
    (body : Nat → σ → Except Halt (σ × Bool)) (more : σ → Bool) (rounds i : Nat) (s : σ)
    (hi : i < q.count) (hr : q.count ≤ i + rounds) :
    q.doWhileNext file q.rptr body more rounds ((q.rptr + i) % q.size) s =
      walk body more (q.ids.drop i) s := by
  induction rounds generalizing i s with
  | zero => omega
  | succ rounds ih =>
    obtain ⟨valid, hnext, hvalid⟩ := h.getNextId_eq file hi
    rw [show q.ids.drop i = (q.rptr + i) % q.size :: q.ids.drop (i + 1) from Ring.drop_ids i hi]
    simp only [doWhileNext, walk, hnext]
    congr 1
    funext ⟨s', stop⟩
    cases stop with
    | true => rfl
    | false =>
      have hrest : (q.ids.drop (i + 1)).isEmpty = !decide (i + 1 < q.count) := by
        rw [Bool.eq_iff_iff, List.isEmpty_iff, List.drop_eq_nil_iff, length_ids]
        simp
      simp only [Bool.false_eq_true, if_false, hrest, Bool.not_not]
      change (if (valid && (q.rptr + (i + 1)) % q.size != q.rptr && more s') = true then _ else _) = _
      rw [hvalid]
      -- the source compares the next id with the first one
      by_cases hc : (decide (i + 1 < q.count) && more s') = true
      · rw [if_pos hc, if_pos hc]
        simp only [Bool.and_eq_true, decide_eq_true_eq] at hc
        exact ih (i + 1) s' hc.1 (by omega)
      · rw [if_neg hc, if_neg hc]

/-- The traversal from the front of a non-empty FIFO. -/
theorem WF.doWhileNext_eq_walk (h : q.WF) {σ : Type} (file : SourceFile)
    (body : Nat → σ → Except Halt (σ × Bool)) (more : σ → Bool) (s : σ) (hc : 0 < q.count) :
    q.doWhileNext file q.rptr body more q.size q.rptr s = walk body more q.ids s := by
  have := h.doWhileNext_eq_walk_drop file body more q.size 0 s hc (by have := h.count_le; omega)
  simpa [Nat.mod_eq_of_lt h.rptr_lt] using this

/-- The rule for a walk: `P` holds of the ids seen and the state as long as the walk goes on, `Q` also
when it breaks. -/
theorem walk_rule {σ : Type} {body : Nat → σ → Except Halt (σ × Bool)} {more : σ → Bool}
    {ids : List Nat} (P Q : List Nat → σ → Prop) (hPQ : ∀ seen s, P seen s → Q seen s)
    (hstep : ∀ seen id rest s, ids = seen ++ id :: rest → P seen s →
      ∃ s' stop, body id s = .ok (s', stop) ∧ Q (seen ++ [id]) s' ∧
        (stop = false → P (seen ++ [id]) s')) {seen rest : List Nat} {s : σ}
    (hids : ids = seen ++ rest) (hP : P seen s) :
    ∃ s' seen' rest', walk body more rest s = .ok s' ∧ ids = seen' ++ rest' ∧ Q seen' s' := by
  induction rest generalizing seen s with
  | nil => exact ⟨s, seen, [], rfl, hids, hPQ _ _ hP⟩
  | cons id rest ih =>
    obtain ⟨s', stop, hbody, hQ, hgo⟩ := hstep seen id rest s hids hP
    have hids' : ids = (seen ++ [id]) ++ rest := by simp [hids]
    unfold walk
    simp only [hbody, Bind.bind, Except.bind, pure, Except.pure]
    cases stop with
    | true => exact ⟨s', seen ++ [id], rest, rfl, hids', hQ⟩
    | false =>
      by_cases hmore : (!rest.isEmpty && more s') = true
      · rw [if_neg (by simp), if_pos hmore]
        exact ih hids' (hgo rfl)
      · rw [if_neg (by simp), if_neg hmore]
        exact ⟨s', seen ++ [id], rest, rfl, hids', hQ⟩

/-- What every round of the body keeps, a walk keeps. -/
theorem walk_mono {σ : Type} {body : Nat → σ → Except Halt (σ × Bool)} {more : σ → Bool} {P : σ → Prop}
    (hbody : ∀ id s s' stop, body id s = .ok (s', stop) → P s → P s') {ids : List Nat} {s s' : σ}
    (h : walk body more ids s = .ok s') (hP : P s) : P s' := by
  induction ids generalizing s with
  | nil =>
    cases h
    exact hP
  | cons id rest ih =>
    obtain ⟨⟨s₁, stop⟩, hb, h⟩ := bind_eq_ok.mp h
    have hP₁ := hbody id s s₁ stop hb hP
    dsimp only at h
    split_ifs at h
    · cases h
      exact hP₁
    · exact ih h hP₁
    · cases h
      exact hP₁

/-- The rule for a walk that visits every id. -/
theorem walk_all_rule {σ : Type} {body : Nat → σ → Except Halt (σ × Bool)} {ids : List Nat}
    (P : List Nat → σ → Prop)
    (hstep : ∀ seen id rest s, ids = seen ++ id :: rest → P seen s →
      ∃ s', body id s = .ok (s', false) ∧ P (seen ++ [id]) s') {seen rest : List Nat} {s : σ}
    (hids : ids = seen ++ rest) (hP : P seen s) :
    ∃ s', walk body (fun _ => true) rest s = .ok s' ∧ P ids s' := by
  induction rest generalizing seen s with
  | nil => exact ⟨s, rfl, by rwa [hids, List.append_nil]⟩
  | cons id rest ih =>
    obtain ⟨s', hbody, hP'⟩ := hstep seen id rest s hids hP
    have hids' : ids = (seen ++ [id]) ++ rest := by simp [hids]
    obtain ⟨s'', hwalk, hP''⟩ := ih hids' hP'
    refine ⟨s'', ?_, hP''⟩
    unfold walk
    simp only [hbody, Bind.bind, Except.bind, pure, Except.pure, Bool.false_eq_true, if_false,
      Bool.and_true]
    cases rest with
    | nil => exact hwalk
    | cons x xs => exact hwalk

end Fifo

end MyRiscvCore
