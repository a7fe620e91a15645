import MyRiscvCore.Component.Rat
import MyRiscvCore.Lib.Renaming

/-!
# MyRiscvCore — the alias table as a renaming

`MapOk` says that the two alias bitmaps and the table represent a committed map `C` and a list `l`
of renamings made since: allocated are exactly the live registers, visible exactly those of the
current map, and the table answers the architectural register of each live one. `rename` keeps the
same three fields in its working checkpoint, so the predicate is shared; `RatOk` adds the commit
bitmap. Each request that the pipeline queues is then an operation on `C` and `l`:

* `setMap` appends a renaming, `restoreMap` undoes the newest;
* `releaseMap` followed by `commitMap` retires the oldest;
* `restore` with a checkpoint whose registers are those of `C` forgets all of them.
-/

namespace MyRiscvCore

open Renaming (mapAfter live olds)

/-- The architectural registers that are renamed: all but `x0`. -/
def archRegs : Set Nat := {a | 0 < a ∧ a < archRegNum}

theorem archIdInRange_iff {a : Nat} : Rat.archIdInRange a = true ↔ a ∈ archRegs := by
  simp [Rat.archIdInRange, archRegs]

/-- The bitmaps and the table represent the committed map `C` and the renamings `l`. -/
structure MapOk (valid visible : Nat → Bool) (table : Nat → Nat) (C : Nat → Nat)
    (l : List (Nat × Nat)) : Prop where
  ok : Renaming.Ok archRegs C l
  bound : ∀ p ∈ live archRegs C l, p < phyRegNum
  valid_iff : ∀ p, valid p = true ↔ p ∈ live archRegs C l
  visible_iff : ∀ p, visible p = true ↔ p ∈ mapAfter C l '' archRegs
  table_committed : ∀ a ∈ archRegs, table (C a) = a
  table_new : ∀ x ∈ l, table x.2 = x.1

/-- The alias table represents `C` and `l`, and its commit bits mark the registers of `C`. -/
structure RatOk (r : Rat) (C : Nat → Nat) (l : List (Nat × Nat)) : Prop
    extends MapOk r.valid r.visible r.phyMapTable C l where
  commit_iff : ∀ p ∈ live archRegs C l, (r.commit p = true ↔ p ∈ C '' archRegs)
  init : r.initRat = false

/-! ## Searching

The table is searched as a content-addressed memory: all entries are looked at, and one may match. -/

theorem foldl_scan_none (cond : Nat → Bool) (l : List Nat) (s : Nat × Nat)
    (h : ∀ i ∈ l, cond i = false) :
    l.foldl (fun found i => if cond i then (found.1 + 1, i) else found) s = s := by
  induction l generalizing s with
  | nil => rfl
  | cons i l ih =>
    rw [List.foldl_cons, h i List.mem_cons_self]
    exact ih s fun j hj => h j (List.mem_cons_of_mem _ hj)

theorem Rat.scanPhyId_none {cond : Nat → Bool} (h : ∀ i < phyRegNum, cond i = false) :
    Rat.scanPhyId cond = (0, 0) :=
  foldl_scan_none cond _ _ fun i hi => h i (List.mem_range.mp hi)

/-- A condition that exactly one physical register meets. -/
theorem Rat.scanPhyId_unique {cond : Nat → Bool} {p : Nat} (hp : p < phyRegNum)
    (h : ∀ i < phyRegNum, (cond i = true ↔ i = p)) : Rat.scanPhyId cond = (1, p) := by
  have hsplit : List.range phyRegNum =
      List.range p ++ p :: (List.range (phyRegNum - (p + 1))).map (p + 1 + ·) := by
    conv_lhs => rw [show phyRegNum = p + 1 + (phyRegNum - (p + 1)) from by omega]
    rw [List.range_add, List.range_succ, List.append_assoc]
    rfl
  have hother : ∀ i < phyRegNum, i ≠ p → cond i = false := fun i hi hne => by
    rw [← Bool.not_eq_true, h i hi]
    exact hne
  unfold Rat.scanPhyId
  rw [hsplit, List.foldl_append, List.foldl_cons,
    foldl_scan_none cond (List.range p) _ fun i hi => by
      rw [List.mem_range] at hi
      exact hother i (by omega) (by omega),
    if_pos ((h p hp).mpr rfl)]
  refine foldl_scan_none cond _ _ fun i hi => ?_
  obtain ⟨j, hj, rfl⟩ := List.mem_map.mp hi
  rw [List.mem_range] at hj
  exact hother _ (by omega) (by omega)

/-- The table answers `f`: for each architectural register exactly one physical register is valid,
visible and mapped to it. -/
structure Current (valid visible : Nat → Bool) (table f : Nat → Nat) : Prop where
  bound : ∀ a ∈ archRegs, f a < phyRegNum
  mapped_iff : ∀ a ∈ archRegs, ∀ i < phyRegNum,
    (valid i && visible i && table i == a) = true ↔ i = f a

namespace Current

variable {valid visible : Nat → Bool} {table f : Nat → Nat} {a p : Nat}

theorem scan_eq (h : Current valid visible table f) (ha : a ∈ archRegs) :
    Rat.scanPhyId (fun i => valid i && visible i && table i == a) = (1, f a) :=
  Rat.scanPhyId_unique (h.bound a ha) (h.mapped_iff a ha)

theorem bits (h : Current valid visible table f) (ha : a ∈ archRegs) :
    valid (f a) = true ∧ visible (f a) = true ∧ table (f a) = a := by
  have := (h.mapped_iff a ha _ (h.bound a ha)).mpr rfl
  rw [Bool.and_eq_true, Bool.and_eq_true, beq_iff_eq] at this
  exact ⟨this.1.1, this.1.2, this.2⟩

theorem getPhyId_eq {r : Rat} (h : Current r.valid r.visible r.phyMapTable f) (ha : a ∈ archRegs) :
    r.getPhyId a = .ok (some (f a)) := by
  simp only [Rat.getPhyId, archIdInRange_iff.mpr ha, h.scan_eq ha]
  rfl

/-- Map `a` to a free register. -/
theorem set (h : Current valid visible table f) (ha : a ∈ archRegs) (hp : p < phyRegNum)
    (hfree : valid p = false) :
    Current (Function.update valid p true)
      (Function.update (Function.update visible p true) (f a) false)
      (Function.update table p a) (Function.update f a p) := by
  have hne : ∀ b ∈ archRegs, f b ≠ p := by
    rintro b hb rfl
    rw [(h.bits hb).1] at hfree
    cases hfree
  refine ⟨fun b hb => ?_, fun b hb i hi => ?_⟩
  · by_cases hba : b = a
    · rwa [hba, Function.update_self]
    · rw [Function.update_of_ne hba]
      exact h.bound b hb
  · by_cases hip : i = p
    · subst hip
      by_cases hba : b = a
      · simp [hba, (hne a ha).symm]
      · simp [hba, Ne.symm hba, (hne b hb).symm]
    · by_cases hia : i = f a
      · -- the register replaced is not visible any more
        subst hia
        by_cases hba : b = a
        · simp [hba, hip]
        · have : f a ≠ f b := by
            intro e
            have := (h.bits hb).2.2
            rw [← e, (h.bits ha).2.2] at this
            exact hba this.symm
          simp [hba, this]
      · simp only [Function.update_of_ne hip, Function.update_of_ne hia, h.mapped_iff b hb i hi]
        by_cases hba : b = a
        · simp [hba, hip, hia]
        · rw [Function.update_of_ne hba]

/-- `cp_set_map` on a checkpoint that answers `f`. -/
theorem cpSetMap_eq {cp : Checkpoint}
    (h : Current cp.ratPhyMapTableValid cp.ratPhyMapTableVisible cp.ratPhyMapTable f)
    (ha : a ∈ archRegs) (hp : p < phyRegNum) (hfree : cp.ratPhyMapTableValid p = false) :
    Rat.cpSetMap cp a p = .ok { cp with
      ratPhyMapTable := Function.update cp.ratPhyMapTable p a
      ratPhyMapTableValid := Function.update cp.ratPhyMapTableValid p true
      ratPhyMapTableVisible := Function.update (Function.update cp.ratPhyMapTableVisible p true)
        (f a) false } := by
  have hget : Rat.cpGetPhyId cp a = .ok (some (f a)) := by
    simp only [Rat.cpGetPhyId, archIdInRange_iff.mpr ha, h.scan_eq ha]
    rfl
  simp only [Rat.cpSetMap, decide_eq_true hp, archIdInRange_iff.mpr ha, hfree, hget]
  rfl

/-- `set_map` on a table that answers `f`. -/
theorem setMap_eq {r : Rat} (h : Current r.valid r.visible r.phyMapTable f) (ha : a ∈ archRegs)
    (hp : p < phyRegNum) (hfree : r.valid p = false) (hinit : r.initRat = false) :
    r.setMap a p = .ok { r with
      phyMapTable := Function.update r.phyMapTable p a
      valid := Function.update r.valid p true
      visible := Function.update (Function.update r.visible p true) (f a) false
      commit := Function.update r.commit p false } := by
  simp only [Rat.setMap, decide_eq_true hp, archIdInRange_iff.mpr ha, hfree, h.getPhyId_eq ha,
    hinit]
  rfl

end Current

namespace MapOk

variable {valid visible : Nat → Bool} {table : Nat → Nat} {C : Nat → Nat} {l : List (Nat × Nat)}
  {a : Nat}

theorem table_mapAfter (h : MapOk valid visible table C l) (ha : a ∈ archRegs) :
    table (mapAfter C l a) = a := by
  obtain e | ⟨x, hx, hxa, e⟩ := Renaming.mapAfter_cases C l a
  · rw [e, h.table_committed a ha]
  · rw [e, h.table_new x hx, hxa]

theorem mapAfter_lt (h : MapOk valid visible table C l) (ha : a ∈ archRegs) :
    mapAfter C l a < phyRegNum :=
  h.bound _ (Renaming.mapAfter_mem_live ha)

/-- Exactly one register is valid, visible and mapped to `a`: that of the current map. -/
theorem mapped_iff (h : MapOk valid visible table C l) (ha : a ∈ archRegs) (i : Nat) :
    (valid i && visible i && table i == a) = true ↔ i = mapAfter C l a := by
  rw [Bool.and_eq_true, Bool.and_eq_true, beq_iff_eq, h.valid_iff, h.visible_iff]
  constructor
  · rintro ⟨⟨-, b, hb, rfl⟩, ht⟩
    rw [h.table_mapAfter hb] at ht
    rw [ht]
  · rintro rfl
    exact ⟨⟨Renaming.mapAfter_mem_live ha, a, ha, rfl⟩, h.table_mapAfter ha⟩

/-- The map of the table is current. -/
theorem current (h : MapOk valid visible table C l) : Current valid visible table (mapAfter C l) where
  bound _ ha := h.mapAfter_lt ha
  mapped_iff _ ha i _ := h.mapped_iff ha i

/-- Allocate a free register for `a`. -/
theorem snoc (h : MapOk valid visible table C l) (ha : a ∈ archRegs) {p : Nat}
    (hp : p < phyRegNum) (hfree : p ∉ live archRegs C l) :
    MapOk (Function.update valid p true)
      (Function.update (Function.update visible p true) (mapAfter C l a) false)
      (Function.update table p a) C (l ++ [(a, p)]) := by
  have hok := h.ok.snoc ha hfree
  have hne : mapAfter C l a ≠ p := fun e => hfree (e ▸ Renaming.mapAfter_mem_live ha)
  have htable : ∀ q ∈ live archRegs C l, Function.update table p a q = table q := by
    intro q hq
    have hqp : q ≠ p := fun e => hfree (e ▸ hq)
    exact Function.update_of_ne hqp _ _
  refine ⟨hok, ?_, ?_, ?_, ?_, ?_⟩
  · intro q hq
    rw [Renaming.live_snoc, Set.mem_insert_iff] at hq
    obtain rfl | hq := hq
    · exact hp
    · exact h.bound q hq
  · intro q
    rw [Renaming.live_snoc, Set.mem_insert_iff, ← h.valid_iff]
    by_cases hq : q = p
    · simp [hq]
    · simp [hq]
  · intro q
    rw [hok.visible_snoc, Set.mem_insert_iff, Set.mem_sdiff, Set.mem_singleton_iff, ← h.visible_iff]
    by_cases hqo : q = mapAfter C l a
    · simp [hqo, hne]
    -- the old register is hidden, the new one shown
    · by_cases hqp : q = p
      · simp [hqp, hne.symm]
      · simp [hqo, hqp]
  · intro b hb
    rw [htable _ (Renaming.mem_live.mpr (.inl ⟨b, hb, rfl⟩)), h.table_committed b hb]
  · intro x hx
    rw [List.mem_append, List.mem_singleton] at hx
    obtain hx | rfl := hx
    · rw [htable _ (Renaming.mem_live.mpr (.inr ⟨x, hx, rfl⟩)), h.table_new x hx]
    · simp

end MapOk

/-! ## The requests

Each request of the source keeps the invariant, for the map and the renamings after it. -/

namespace RatOk

variable {r : Rat} {C : Nat → Nat} {l : List (Nat × Nat)} {a p : Nat} {x : Nat × Nat}

theorem getPhyId_eq (h : RatOk r C l) (ha : a ∈ archRegs) :
    r.getPhyId a = .ok (some (mapAfter C l a)) :=
  h.current.getPhyId_eq ha

/-- One entry for each register is committed. -/
theorem committed_iff (h : RatOk r C l) (ha : a ∈ archRegs) (i : Nat) :
    (r.valid i && r.commit i && r.phyMapTable i == a) = true ↔ i = C a := by
  have hlive : C a ∈ live archRegs C l := Renaming.mem_live.mpr (.inl ⟨a, ha, rfl⟩)
  rw [Bool.and_eq_true, Bool.and_eq_true, beq_iff_eq, h.valid_iff]
  constructor
  · rintro ⟨⟨hi, hc⟩, ht⟩
    obtain ⟨b, hb, rfl⟩ := (h.commit_iff i hi).mp hc
    rw [h.table_committed b hb] at ht
    rw [ht]
  · rintro rfl
    exact ⟨⟨hlive, (h.commit_iff _ hlive).mpr ⟨a, ha, rfl⟩⟩, h.table_committed a ha⟩

/-- And the search for it succeeds. -/
theorem getCommitPhyId_eq (h : RatOk r C l) (ha : a ∈ archRegs) :
    r.getCommitPhyId a = .ok (C a) := by
  have hscan : Rat.scanPhyId (fun i => r.valid i && r.commit i && r.phyMapTable i == a) =
      (1, C a) :=
    Rat.scanPhyId_unique (h.bound _ (Renaming.mem_live.mpr (.inl ⟨a, ha, rfl⟩)))
      fun i _ => h.committed_iff ha i
  simp only [Rat.getCommitPhyId, archIdInRange_iff.mpr ha, hscan]
  rfl

/-- Mapping a free register adds a renaming. -/
theorem setMap_ok (h : RatOk r C l) (ha : a ∈ archRegs) (hp : p < phyRegNum)
    (hfree : p ∉ live archRegs C l) :
    ∃ r', r.setMap a p = .ok r' ∧ RatOk r' C (l ++ [(a, p)]) := by
  have hv : r.valid p = false := by
    rw [← Bool.not_eq_true, h.valid_iff]
    exact hfree
  refine ⟨{ r with
    phyMapTable := Function.update r.phyMapTable p a
    valid := Function.update r.valid p true
    visible := Function.update (Function.update r.visible p true) (mapAfter C l a) false
    commit := Function.update r.commit p false }, ?_, h.toMapOk.snoc ha hp hfree, ?_, h.init⟩
  · exact h.current.setMap_eq ha hp hv h.init
  · intro q hq
    rw [Renaming.live_snoc, Set.mem_insert_iff] at hq
    by_cases hqp : q = p
    · subst hqp
      simp only [Function.update_self, Bool.false_eq_true, false_iff]
      exact fun ⟨b, hb, e⟩ => hfree (Renaming.mem_live.mpr (.inl ⟨b, hb, e⟩))
    · simp only [Function.update_of_ne hqp]
      exact h.commit_iff q (hq.resolve_left hqp)

/-- Retire the oldest renaming: release the register it replaced and commit its own. -/
theorem retire_ok (h : RatOk r C (x :: l)) :
    ∃ r₁ r₂, r.releaseMap (C x.1) = .ok r₁ ∧ r₁.commitMap x.2 = .ok r₂ ∧
      RatOk r₂ (Function.update C x.1 x.2) l := by
  have hdom := h.ok.dom x List.mem_cons_self
  have hold : C x.1 ∈ live archRegs C (x :: l) := Renaming.mem_live.mpr (.inl ⟨_, hdom, rfl⟩)
  have hnew : x.2 ∈ live archRegs C (x :: l) :=
    Renaming.mem_live.mpr (.inr ⟨x, List.mem_cons_self, rfl⟩)
  have hne : C x.1 ≠ x.2 := h.ok.fresh x List.mem_cons_self _ hdom
  have hvis : r.visible (C x.1) = false := by
    rw [← Bool.not_eq_true, h.visible_iff]
    exact h.ok.olds_notMem_visible _ List.mem_cons_self
  have hcom : r.commit x.2 = false := by
    rw [← Bool.not_eq_true, h.commit_iff _ hnew]
    rintro ⟨b, hb, e⟩
    exact h.ok.fresh x List.mem_cons_self b hb e
  have hnotlive := h.ok.old_notMem_live
  -- a register that stays live is not the released one
  have hkeep : ∀ q ∈ live archRegs (Function.update C x.1 x.2) l,
      q ≠ C x.1 ∧ q ∈ live archRegs C (x :: l) := by
    intro q hq
    refine ⟨fun e => hnotlive (e ▸ hq), ?_⟩
    rw [h.ok.live_cons]
    exact Set.mem_insert_of_mem _ hq
  refine ⟨{ r with
      phyMapTable := Function.update r.phyMapTable (C x.1) 0
      valid := Function.update r.valid (C x.1) false },
    { r with
      phyMapTable := Function.update r.phyMapTable (C x.1) 0
      valid := Function.update r.valid (C x.1) false
      commit := Function.update r.commit x.2 true }, ?_, ?_, ⟨⟨h.ok.retire, ?_, ?_, ?_, ?_, ?_⟩,
      ?_, h.init⟩⟩
  · simp only [Rat.releaseMap, decide_eq_true (h.bound _ hold), (h.valid_iff _).mpr hold, hvis]
    rfl
  · simp only [Rat.commitMap, decide_eq_true (h.bound _ hnew), Function.update_of_ne hne.symm,
      (h.valid_iff _).mpr hnew, hcom]
    rfl
  · exact fun q hq => h.bound q (hkeep q hq).2
  · intro q
    by_cases hq : q = C x.1
    · subst hq
      simpa using hnotlive
    · simp only [Function.update_of_ne hq, h.valid_iff, h.ok.live_cons, Set.mem_insert_iff, hq,
        false_or]
  · intro q
    exact h.visible_iff q
  · intro b hb
    have hmem : Function.update C x.1 x.2 b ∈ live archRegs (Function.update C x.1 x.2) l :=
      Renaming.mem_live.mpr (.inl ⟨b, hb, rfl⟩)
    simp only [Function.update_of_ne (hkeep _ hmem).1]
    by_cases hbx : b = x.1
    · rw [hbx, Function.update_self, h.table_new x List.mem_cons_self]
    · rw [Function.update_of_ne hbx, h.table_committed b hb]
  · intro y hy
    have hmem : y.2 ∈ live archRegs (Function.update C x.1 x.2) l :=
      Renaming.mem_live.mpr (.inr ⟨y, hy, rfl⟩)
    simp only [Function.update_of_ne (hkeep _ hmem).1]
    exact h.table_new y (List.mem_cons_of_mem _ hy)
  · intro q hq
    obtain ⟨hqo, hqlive⟩ := hkeep q hq
    by_cases hqx : q = x.2
    · subst hqx
      simp only [Function.update_self, true_iff]
      exact ⟨x.1, hdom, by rw [Function.update_self]⟩
    · simp only [Function.update_of_ne hqx]
      rw [h.commit_iff q hqlive]
      constructor
      · rintro ⟨b, hb, rfl⟩
        have hbx : b ≠ x.1 := fun e => hqo (by rw [e])
        exact ⟨b, hb, by rw [Function.update_of_ne hbx]⟩
      · rintro ⟨b, hb, e⟩
        have hbx : b ≠ x.1 := fun e' => hqx (by rw [← e, e', Function.update_self])
        exact ⟨b, hb, by rw [← e, Function.update_of_ne hbx]⟩

/-- Undo the newest renaming. -/
theorem restoreMap_ok (h : RatOk r C (l ++ [x])) :
    ∃ r', r.restoreMap x.2 (mapAfter C l x.1) = .ok r' ∧ RatOk r' C l := by
  have hdom := h.ok.dom x (by simp)
  have hok := h.ok.of_append
  have hnew : x.2 ∈ live archRegs C (l ++ [x]) := Renaming.mem_live.mpr (.inr ⟨x, by simp, rfl⟩)
  have hlast := h.ok.last_notMem_live
  -- the undone register is the only one that stops being live
  have hsub : ∀ q ∈ live archRegs C l, q ≠ x.2 ∧ q ∈ live archRegs C (l ++ [x]) := by
    intro q hq
    refine ⟨fun e => hlast (e ▸ hq), ?_⟩
    rw [Renaming.live_snoc]
    exact Set.mem_insert_of_mem _ hq
  have hold := hsub _ (Renaming.mapAfter_mem_live (C := C) (l := l) hdom)
  have hvnew : r.visible x.2 = true := by
    rw [h.visible_iff, h.ok.visible_snoc]
    exact Set.mem_insert _ _
  have hvold : r.visible (mapAfter C l x.1) = false := by
    rw [← Bool.not_eq_true, h.visible_iff, h.ok.visible_snoc]
    rintro (e | ⟨-, hne⟩)
    · exact hold.1 e
    · exact hne rfl
  refine ⟨{ r with
    phyMapTable := Function.update r.phyMapTable x.2 0
    valid := Function.update (Function.update r.valid x.2 false) (mapAfter C l x.1) true
    visible := Function.update (Function.update r.visible x.2 false) (mapAfter C l x.1) true },
    ?_, ⟨⟨hok, ?_, ?_, ?_, ?_, ?_⟩, ?_, h.init⟩⟩
  · simp only [Rat.restoreMap, decide_eq_true (h.bound _ hnew), decide_eq_true (h.bound _ hold.2),
      (h.valid_iff _).mpr hnew, (h.valid_iff _).mpr hold.2, hvnew, hvold]
    rfl
  · exact fun q hq => h.bound q (hsub q hq).2
  · intro q
    by_cases hqo : q = mapAfter C l x.1
    · subst hqo
      simpa using Renaming.mapAfter_mem_live hdom
    · simp only [Function.update_of_ne hqo]
      by_cases hqx : q = x.2
      · subst hqx
        simpa using hlast
      · simp only [Function.update_of_ne hqx]
        rw [h.valid_iff, Renaming.live_snoc, Set.mem_insert_iff, or_iff_right hqx]
  · intro q
    by_cases hqo : q = mapAfter C l x.1
    · subst hqo
      simp only [Function.update_self, true_iff]
      exact ⟨x.1, hdom, rfl⟩
    · simp only [Function.update_of_ne hqo]
      by_cases hqx : q = x.2
      · subst hqx
        simp only [Function.update_self, Bool.false_eq_true, false_iff]
        rintro ⟨b, hb, e⟩
        exact hlast (e ▸ Renaming.mapAfter_mem_live hb)
      · simp only [Function.update_of_ne hqx]
        rw [h.visible_iff, h.ok.visible_snoc, Set.mem_insert_iff, or_iff_right hqx, Set.mem_sdiff,
          Set.mem_singleton_iff, and_iff_left hqo]
  · intro b hb
    have := hsub (C b) (Renaming.mem_live.mpr (.inl ⟨b, hb, rfl⟩))
    simp only [Function.update_of_ne this.1]
    exact h.table_committed b hb
  · intro y hy
    have := hsub y.2 (Renaming.mem_live.mpr (.inr ⟨y, hy, rfl⟩))
    simp only [Function.update_of_ne this.1]
    exact h.table_new y (List.mem_append_left _ hy)
  · exact fun q hq => h.commit_iff q (hsub q hq).2

/-- Restore a checkpoint whose allocated and visible registers are those of the committed map. -/
theorem restore_ok (h : RatOk r C l) {cp : Checkpoint}
    (hvalid : ∀ p, cp.ratPhyMapTableValid p = true ↔ p ∈ C '' archRegs)
    (hvisible : ∀ p, cp.ratPhyMapTableVisible p = true ↔ p ∈ C '' archRegs) :
    RatOk (r.restore cp) C [] := by
  have hlive : live archRegs C [] = C '' archRegs := by simp [live]
  have hsub : ∀ q ∈ C '' archRegs, q ∈ live archRegs C l := by
    rintro q ⟨b, hb, rfl⟩
    exact Renaming.mem_live.mpr (.inl ⟨b, hb, rfl⟩)
  refine ⟨⟨.nil h.ok.inj, ?_, ?_, hvisible, h.table_committed, by simp⟩, ?_, h.init⟩
  · rw [hlive]
    exact fun q hq => h.bound q (hsub q hq)
  · rw [hlive]
    exact hvalid
  · rw [hlive]
    exact fun q hq => h.commit_iff q (hsub q hq)

end RatOk

/-- `cp_set_map` on a checkpoint that represents `C` and `l`. -/
theorem MapOk.cpSetMap_ok {cp : Checkpoint} {C : Nat → Nat} {l : List (Nat × Nat)} {a p : Nat}
    (h : MapOk cp.ratPhyMapTableValid cp.ratPhyMapTableVisible cp.ratPhyMapTable C l)
    (ha : a ∈ archRegs) (hp : p < phyRegNum) (hfree : p ∉ live archRegs C l) :
    ∃ cp', Rat.cpSetMap cp a p = .ok cp' ∧
      MapOk cp'.ratPhyMapTableValid cp'.ratPhyMapTableVisible cp'.ratPhyMapTable C
        (l ++ [(a, p)]) := by
  have hv : cp.ratPhyMapTableValid p = false := by
    rw [← Bool.not_eq_true, h.valid_iff]
    exact hfree
  exact ⟨_, h.current.cpSetMap_eq ha hp hv, h.snoc ha hp hfree⟩

/-- The unallocated registers, in the order `get_free_phy_id` finds them. -/
def Rat.freeList (r : Rat) : List Nat :=
  (List.range phyRegNum).filter fun i => !r.valid i

/-- The scan takes the first free registers. -/
theorem Rat.freeScan_eq (r : Rat) (num : Nat) (l ret : List Nat) (h : ret.length < max num 1) :
    r.freeScan num l ret = (ret ++ l.filter fun i => !r.valid i).take (max num 1) := by
  induction l generalizing ret with
  | nil => simp [Rat.freeScan, List.take_of_length_le (Nat.le_of_lt h)]
  | cons i l ih =>
    unfold Rat.freeScan
    by_cases hv : (!r.valid i) = true
    · have hcons : (i :: l).filter (fun i => !r.valid i) = i :: l.filter fun i => !r.valid i :=
        List.filter_cons_of_pos (p := fun i => !r.valid i) hv
      rw [if_pos hv, hcons]
      by_cases hn : (ret ++ [i]).length ≥ num
      · rw [if_pos hn]
        have hlen : max num 1 = (ret ++ [i]).length := by
          rw [List.length_append, List.length_singleton] at hn ⊢
          omega
        rw [hlen, show ret ++ i :: l.filter (fun i => !r.valid i) =
          (ret ++ [i]) ++ l.filter fun i => !r.valid i from by simp, List.take_left]
      · rw [if_neg hn, ih (ret ++ [i]) (by omega), ← List.append_cons]
    · have hcons : (i :: l).filter (fun i => !r.valid i) = l.filter fun i => !r.valid i :=
        List.filter_cons_of_neg (p := fun i => !r.valid i) hv
      rw [if_neg hv, hcons, ih ret h]

/-- `get_free_phy_id` takes the first free registers, one at least. -/
theorem Rat.getFreePhyId_eq (r : Rat) (num : Nat) :
    r.getFreePhyId num = r.freeList.take (max num 1) := by
  unfold Rat.getFreePhyId
  rw [Rat.freeScan_eq r num _ [] (by simp)]
  rfl

theorem Rat.nodup_freeList (r : Rat) : r.freeList.Nodup :=
  List.nodup_range.filter _

/-- The architectural registers as a list. -/
def archList : List Nat := List.range' 1 (archRegNum - 1)

theorem mem_archList {a : Nat} : a ∈ archList ↔ a ∈ archRegs := by
  simp only [archList, List.mem_range'_1, archRegs, Set.mem_ofPred_eq]
  omega

/-- A bitmap whose bits are those of a list without repetitions has as many as the list. -/
theorem length_filter_eq {bit : Nat → Bool} {l : List Nat} (hnd : l.Nodup)
    (h : ∀ p, p < phyRegNum ∧ bit p = true ↔ p ∈ l) :
    ((List.range phyRegNum).filter bit).length = l.length := by
  refine List.Perm.length_eq ?_
  rw [List.perm_ext_iff_of_nodup (List.nodup_range.filter _) hnd]
  intro p
  rw [List.mem_filter, List.mem_range, h]

/-- The bitmap of an injective map of the architectural registers has 31 bits. -/
theorem length_filter_image {bit : Nat → Bool} {f : Nat → Nat} (hf : Set.InjOn f archRegs)
    (hlt : ∀ a ∈ archRegs, f a < phyRegNum) (h : ∀ p, bit p = true ↔ p ∈ f '' archRegs) :
    ((List.range phyRegNum).filter bit).length = 31 := by
  have hnd : (archList.map f).Nodup := by
    refine List.Nodup.map_on ?_ List.nodup_range'
    exact fun a ha b hb e => hf (mem_archList.mp ha) (mem_archList.mp hb) e
  rw [show 31 = (archList.map f).length from by simp [archList]]
  refine length_filter_eq hnd fun p => ?_
  rw [h, List.mem_map]
  constructor
  · rintro ⟨-, a, ha, e⟩
    exact ⟨a, mem_archList.mpr ha, e⟩
  · rintro ⟨a, ha, rfl⟩
    rw [mem_archList] at ha
    exact ⟨hlt a ha, a, ha, rfl⟩

namespace RatOk

variable {r : Rat} {C : Nat → Nat} {l : List (Nat × Nat)}

/-- Free are the registers that no renaming holds. -/
theorem mem_freeList (h : RatOk r C l) {p : Nat} :
    p ∈ r.freeList ↔ p < phyRegNum ∧ p ∉ live archRegs C l := by
  rw [Rat.freeList, List.mem_filter, List.mem_range, Bool.not_eq_true', ← Bool.not_eq_true,
    h.valid_iff]

/-- The allocated registers are 31 committed ones and one for each renaming. -/
theorem length_valid (h : RatOk r C l) :
    ((List.range phyRegNum).filter r.valid).length = 31 + l.length := by
  have hnd : (archList.map C ++ l.map Prod.snd).Nodup := by
    refine List.Nodup.append ?_ h.ok.nodup ?_
    · refine List.Nodup.map_on ?_ List.nodup_range'
      exact fun a ha b hb e => h.ok.inj (mem_archList.mp ha) (mem_archList.mp hb) e
    · intro p hp hp'
      obtain ⟨a, ha, rfl⟩ := List.mem_map.mp hp
      obtain ⟨x, hx, e⟩ := List.mem_map.mp hp'
      exact h.ok.fresh x hx a (mem_archList.mp ha) e.symm
  rw [length_filter_eq hnd]
  · simp [archList]
  · intro p
    have hmem : p ∈ archList.map C ++ l.map Prod.snd ↔ p ∈ live archRegs C l := by
      simp only [List.mem_append, List.mem_map, Renaming.mem_live, mem_archList]
    rw [hmem, h.valid_iff]
    exact ⟨And.right, fun hp => ⟨h.bound p hp, hp⟩⟩

/-- The free registers number 97 minus the renamings in flight. -/
theorem length_freeList (h : RatOk r C l) : r.freeList.length + l.length = 97 := by
  have hsum : ((List.range phyRegNum).filter r.valid).length + r.freeList.length = phyRegNum := by
    have := List.length_eq_length_filter_add (l := List.range phyRegNum) r.valid
    rw [List.length_range] at this
    exact this.symm
  have := h.length_valid
  rw [show phyRegNum = 128 from rfl] at *
  omega

end RatOk

/-- The table after the first `k` rounds of the reset loop. -/
theorem Rat.reset_prefix (k : Nat) (hk : k < archRegNum) :
    ∃ r : Rat, (List.range' 1 k).foldlM (fun r i => do (← r.setMap i i).commitMap i)
        Rat.initStart = .ok r ∧
      (∀ p, r.valid p = true ↔ 0 < p ∧ p ≤ k) ∧ r.visible = r.valid ∧ r.commit = r.valid ∧
      (∀ p, 0 < p → p ≤ k → r.phyMapTable p = p) ∧ r.initRat = true := by
  induction k with
  | zero =>
    refine ⟨Rat.initStart, rfl, ?_, rfl, rfl, ?_, rfl⟩
    · intro p
      simp only [Rat.initStart, Bool.false_eq_true, false_iff]
      omega
    · intro p hp hp'
      omega
  | succ k ih =>
    obtain ⟨r, hr, hvalid, hvisible, hcommit, htable, hinit⟩ := ih (by omega)
    have hrange : archIdInRange (1 + k) = true :=
      archIdInRange_iff.mpr ⟨by omega, by omega⟩
    have hphy : 1 + k < phyRegNum := by
      rw [show archRegNum = 32 from rfl] at hk
      rw [show phyRegNum = 128 from rfl]
      omega
    have hfresh : r.valid (1 + k) = false := by
      rw [← Bool.not_eq_true, hvalid]
      omega
    -- the register is not mapped yet, which `set_map` asserts
    have hnone : r.getPhyId (1 + k) = .ok none := by
      have hscan : Rat.scanPhyId (fun i => r.valid i && r.visible i && r.phyMapTable i == 1 + k) =
          (0, 0) := by
        refine Rat.scanPhyId_none fun i _ => ?_
        rw [← Bool.not_eq_true, Bool.and_eq_true, Bool.and_eq_true, beq_iff_eq, hvalid]
        rintro ⟨⟨⟨h0, h1⟩, -⟩, ht⟩
        rw [htable i h0 h1] at ht
        omega
      simp only [Rat.getPhyId, hrange, hscan]
      rfl
    have hupdate : ∀ p, Function.update r.valid (1 + k) true p = true ↔ 0 < p ∧ p ≤ k + 1 := by
      intro p
      by_cases hp : p = 1 + k
      · simp [hp]; omega
      · rw [Function.update_of_ne hp, hvalid]
        omega
    refine ⟨{ r with
      phyMapTable := Function.update r.phyMapTable (1 + k) (1 + k)
      valid := Function.update r.valid (1 + k) true
      visible := Function.update r.visible (1 + k) true
      commit := Function.update (Function.update r.commit (1 + k) false) (1 + k) true },
      ?_, hupdate, by rw [hvisible], by rw [Function.update_idem, hcommit], ?_, hinit⟩
    · have hset : r.setMap (1 + k) (1 + k) = .ok { r with
          phyMapTable := Function.update r.phyMapTable (1 + k) (1 + k)
          valid := Function.update r.valid (1 + k) true
          visible := Function.update r.visible (1 + k) true
          commit := Function.update r.commit (1 + k) false } := by
        simp only [Rat.setMap, hrange, hfresh, hnone, hinit, decide_eq_true hphy]
        rfl
      rw [List.range'_concat, List.foldlM_append, hr, Nat.one_mul]
      change (do (← r.setMap (1 + k) (1 + k)).commitMap (1 + k)) >>= _ = _
      rw [hset]
      simp only [Rat.commitMap, decide_eq_true hphy, Bind.bind, Except.bind, Function.update_self]
      rfl
    · intro p hp hp'
      by_cases hpk : p = 1 + k
      · simp [hpk]
      · simp only [Function.update_of_ne hpk]
        exact htable p hp (by omega)

/-- After reset the map is the identity. -/
theorem Rat.reset_ok : ∃ r, Rat.reset = .ok r ∧ RatOk r id [] := by
  obtain ⟨r, hr, hvalid, hvisible, hcommit, htable, -⟩ :=
    Rat.reset_prefix (archRegNum - 1) (by decide)
  rw [show archRegNum - 1 = 31 from rfl] at hvalid htable
  -- the identity on 31 registers
  have hlive : ∀ p, p ∈ live archRegs id [] ↔ 0 < p ∧ p ≤ 31 := by
    intro p
    simp only [Renaming.mem_live, List.not_mem_nil, false_and, exists_false, or_false, id,
      exists_eq_right, archRegs, Set.mem_ofPred_eq, archRegNum]
    omega
  have himage : ∀ p, p ∈ id '' archRegs ↔ 0 < p ∧ p ≤ 31 := by
    intro p
    rw [Set.image_id]
    simp only [archRegs, Set.mem_ofPred_eq, archRegNum]
    omega
  refine ⟨r.initFinish, by simp only [Rat.reset, hr]; rfl,
    ⟨⟨.nil Function.injective_id.injOn, ?_, ?_, ?_, ?_, by simp⟩, ?_, rfl⟩⟩
  · intro p hp
    rw [hlive] at hp
    simp only [phyRegNum]
    omega
  · exact fun p => (hvalid p).trans (hlive p).symm
  · intro p
    rw [Renaming.mapAfter_nil, himage, ← hvalid, Rat.initFinish, hvisible]
  · intro a ha
    exact htable a ha.1 (Nat.le_of_lt_succ ha.2)
  · intro p _
    rw [himage, ← hvalid, Rat.initFinish, hcommit]

/-- After reset, physical registers 1 to 31 hold a valid 0. -/
theorem Regfile.reset_ok : ∃ f, Regfile.reset = .ok f ∧ (∀ p, f.regData p = 0) ∧
    ∀ p, f.regDataValid p = true ↔ p ∈ archRegs := by
  -- after `k` rounds the registers up to `k` are valid
  have hprefix : ∀ k < archRegNum, ∃ f : Regfile,
      (List.range' 1 k).foldlM (fun (f : Regfile) i => f.write i 0 true)
        { regData := fun _ => 0, regDataValid := fun _ => false } = Except.ok f ∧
      (∀ p, f.regData p = 0) ∧ ∀ p, f.regDataValid p = true ↔ 0 < p ∧ p ≤ k := by
    intro k
    induction k with
    | zero =>
      intro _
      exact ⟨_, rfl, fun _ => rfl, fun p => by simp; omega⟩
    | succ k ih =>
      intro hk
      obtain ⟨f, hf, hdata, hvalid⟩ := ih (by omega)
      have hphy : 1 + k < phyRegNum := by
        rw [show archRegNum = 32 from rfl] at hk
        rw [show phyRegNum = 128 from rfl]
        omega
      refine ⟨⟨Function.update f.regData (1 + k) 0, Function.update f.regDataValid (1 + k) true⟩,
        ?_, ?_, ?_⟩
      · rw [List.range'_concat, List.foldlM_append, hf, Nat.one_mul]
        simp [Bind.bind, Except.bind, pure, Except.pure, Regfile.write,
          decide_eq_true hphy]
      · intro p
        by_cases hp : p = 1 + k
        · simp [hp]
        · simp [hp, hdata]
      · intro p
        by_cases hp : p = 1 + k
        · simp [hp]; omega
        · simp only [Function.update_of_ne hp, hvalid]
          omega
  obtain ⟨f, hf, hdata, hvalid⟩ := hprefix 31 (by decide)
  refine ⟨f, hf, hdata, fun p => ?_⟩
  rw [hvalid]
  simp only [archRegs, Set.mem_ofPred_eq, archRegNum]
  omega

end MyRiscvCore
