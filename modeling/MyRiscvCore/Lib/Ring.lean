import Mathlib.Data.List.Nodup
import Mathlib.Data.List.Range
import Mathlib.Data.Nat.ModEq

/-!
# MyRiscvCore — slots of a ring

The occupied slots of a ring buffer of `size` slots that starts at `start` and holds `count`
elements, as the list of their indices in queue order. A ring grows at the back (`ids_succ_back`),
shrinks at the front (`ids_succ_front`), and never names a slot twice (`nodup_ids`).
-/

namespace Ring

/-- The indices of `count` consecutive slots from `start` on. -/
def ids (size start count : Nat) : List Nat :=
  (List.range count).map fun i => (start + i) % size

variable {size start count : Nat}

@[simp] theorem length_ids : (ids size start count).length = count := by
  simp [ids]

@[simp] theorem ids_zero : ids size start 0 = [] := rfl

/-- One more element at the back. -/
theorem ids_succ_back (size start count : Nat) :
    ids size start (count + 1) = ids size start count ++ [(start + count) % size] := by
  simp [ids, List.range_succ]

/-- One element at the front. -/
theorem ids_succ_front (h : start < size) (count : Nat) :
    ids size start (count + 1) = start :: ids size ((start + 1) % size) count := by
  simp only [ids, List.range_succ_eq_map, List.map_cons, List.map_map, Nat.add_zero,
    Nat.mod_eq_of_lt h, List.cons.injEq, true_and]
  apply List.map_congr_left
  intro i _
  simp only [Function.comp_apply, Nat.succ_eq_add_one, Nat.mod_add_mod]
  rw [Nat.add_comm i 1, ← Nat.add_assoc]

theorem getElem?_ids (size start : Nat) {i : Nat} (h : i < count) :
    (ids size start count)[i]? = some ((start + i) % size) := by
  simp [ids, h]

/-- The ids are the positions from `start` on, modulo the size. -/
theorem mem_ids {id : Nat} :
    id ∈ ids size start count ↔ ∃ i, i < count ∧ (start + i) % size = id := by
  simp [ids]

theorem lt_of_mem_ids {id : Nat} (hs : 0 < size) (h : id ∈ ids size start count) : id < size := by
  obtain ⟨i, -, rfl⟩ := mem_ids.mp h
  exact Nat.mod_lt _ hs

/-- Two offsets smaller than the size that lead to one slot are equal. -/
theorem offset_inj {i j : Nat} (hi : i < size) (hj : j < size)
    (h : (start + i) % size = (start + j) % size) : i = j := by
  have hij : i ≡ j [MOD size] := Nat.ModEq.add_left_cancel' start h
  exact Nat.ModEq.eq_of_lt_of_lt hij hi hj

/-- No position occurs twice unless the ring overflows. -/
theorem nodup_ids (h : count ≤ size) : (ids size start count).Nodup := by
  refine List.Nodup.map_on ?_ List.nodup_range
  intro i hi j hj hij
  rw [List.mem_range] at hi hj
  exact offset_inj (by omega) (by omega) hij

/-- The slot behind the last one is free as long as the ring is not full. -/
theorem next_notMem_ids (h : count < size) : (start + count) % size ∉ ids size start count := by
  intro hmem
  obtain ⟨i, hi, hij⟩ := mem_ids.mp hmem
  have := offset_inj (by omega) h hij
  omega

theorem drop_ids (i : Nat) (hi : i < count) :
    (ids size start count).drop i =
      (start + i) % size :: (ids size start count).drop (i + 1) := by
  rw [List.drop_eq_getElem_cons (by simpa using hi)]
  simp [ids]

theorem take_ids {i : Nat} (hi : i ≤ count) : (ids size start count).take i = ids size start i := by
  rw [ids, ← List.map_take, List.take_range, Nat.min_eq_left hi]
  rfl

end Ring
