import Mathlib.Data.List.Basic
import MyRiscvCore.Component.Bus

/-!
# MyRiscvCore — address decoding of the bus

For every list of regions that calls of `map` can leave (`SlaveMap`), not only the two of `init`: the bus decodes every
address right, and rejects the next region exactly if it overlaps, provided that no region ends at `2 ^ 32`
(`bus_decoding`). A region that does is accepted and never found again, since its end wraps to 0.
-/

namespace MyRiscvCore

/-- The address one past a region. -/
def SlaveInfo.last (info : SlaveInfo) : Nat :=
  info.base.toNat + info.size.toNat

def SlaveInfo.Contains (info : SlaveInfo) (addr : Word) : Prop :=
  info.base.toNat ≤ addr.toNat ∧ addr.toNat < info.last

/-- Some address lies in both regions. -/
def SlaveInfo.Overlaps (a b : SlaveInfo) : Prop :=
  ∃ addr, a.Contains addr ∧ b.Contains addr

/-- A region that is not empty and does not leave the address space. -/
structure SlaveInfo.Fits (info : SlaveInfo) : Prop where
  nonempty : 0 < info.size.toNat
  le : info.last ≤ 2 ^ 32

/-- What a sequence of accepted `map` calls leaves. -/
inductive SlaveMap : List SlaveInfo → Prop
  | nil : SlaveMap []
  | map {slaves slaves' : List SlaveInfo} (info : SlaveInfo) (h : SlaveMap slaves) (hfits : info.Fits)
      (hmap : mapSlave slaves info.base info.size info.slave = .ok slaves') : SlaveMap slaves'

/-- The regions of `init` are such a sequence. -/
theorem slaveMap_slaveInfoList : SlaveMap slaveInfoList := by
  have hmemory : SlaveMap [⟨0x80000000, 1048576, .memory⟩] :=
    .map ⟨0x80000000, 1048576, .memory⟩ .nil ⟨by decide, by decide⟩ rfl
  exact .map ⟨0x20000000, 0x10000, .clint⟩ hmemory ⟨by decide, by decide⟩ rfl

/-- The bus decodes addresses right: no two regions share one, `find_slave_info` finds the region that contains an
address, if there is one, and `convert_to_slave_addr` is the offset in it. -/
structure Decodes (slaves : List SlaveInfo) : Prop where
  unique : ∀ (addr : Word) (i j : Nat) (a b : SlaveInfo), slaves[i]? = some a → slaves[j]? = some b →
    a.Contains addr → b.Contains addr → i = j
  find : ∀ addr info, findSlaveInfo slaves addr = some info ↔ info ∈ slaves ∧ info.Contains addr
  offset : ∀ addr info, findSlaveInfo slaves addr = some info →
    (convertToSlaveAddr slaves addr).toNat = addr.toNat - info.base.toNat

section Regions

variable {info other : SlaveInfo} {slaves : List SlaveInfo} {addr : Word}

theorem SlaveInfo.Fits.contains_base (h : info.Fits) : info.Contains info.base :=
  ⟨Nat.le_refl _, Nat.lt_add_of_pos_right h.nonempty⟩

/-- The test of `find_slave_info` in unbounded arithmetic: a region that ends at `2 ^ 32` passes it nowhere. -/
theorem inRegion_iff (h : info.Fits) :
    (addr ≥ info.base && addr < info.base + info.size) = true ↔ info.Contains addr ∧ info.last < 2 ^ 32 := by
  have hle := h.le
  have hpos := h.nonempty
  unfold SlaveInfo.Contains
  unfold SlaveInfo.last at hle ⊢
  rw [Bool.and_eq_true, decide_eq_true_eq, decide_eq_true_eq, ge_iff_le, BitVec.le_def, BitVec.lt_def,
    BitVec.toNat_add]
  by_cases hend : info.base.toNat + info.size.toNat = 2 ^ 32
  · rw [hend, Nat.mod_self]
    omega
  · rw [Nat.mod_eq_of_lt (by omega)]
    omega

theorem contains_of_find (h : info.Fits) (hf : findSlaveInfo slaves addr = some info) :
    info.Contains addr ∧ info.last < 2 ^ 32 := by
  have hp := List.find?_some hf
  exact (inRegion_iff h).mp hp

theorem overlaps_iff (h : info.Fits) (h' : other.Fits) :
    info.Overlaps other ↔ other.base.toNat < info.last ∧ info.base.toNat < other.last := by
  have hpos := h.nonempty
  have hpos' := h'.nonempty
  constructor
  · rintro ⟨addr, ⟨h1, h2⟩, h3, h4⟩
    omega
  · rintro ⟨h1, h2⟩
    by_cases hle : info.base.toNat ≤ other.base.toNat
    · exact ⟨other.base, ⟨hle, h1⟩, h'.contains_base⟩
    · exact ⟨info.base, h.contains_base, ⟨by omega, h2⟩⟩

/-- The test of `check_addr_override` against one region in unbounded arithmetic. -/
theorem overrides_iff (h : info.Fits) (h' : other.Fits) :
    ((other.base ≥ info.base && other.base < info.base + info.size)
      || (other.base < info.base && other.base + other.size > info.base)) = true ↔
      info.Overlaps other ∧ ((info.Contains other.base ∧ info.last < 2 ^ 32) ∨
        (other.base.toNat < info.base.toNat ∧ other.last < 2 ^ 32)) := by
  have hle := h'.le
  have hpos := h.nonempty
  have hpos' := h'.nonempty
  rw [Bool.or_eq_true, inRegion_iff h, overlaps_iff h h', Bool.and_eq_true, decide_eq_true_eq, decide_eq_true_eq,
    gt_iff_lt, BitVec.lt_def, BitVec.lt_def, BitVec.toNat_add]
  unfold SlaveInfo.Contains
  unfold SlaveInfo.last at hle ⊢
  by_cases hend : other.base.toNat + other.size.toNat = 2 ^ 32
  · rw [hend, Nat.mod_self]
    omega
  · rw [Nat.mod_eq_of_lt (by omega)]
    omega

theorem checkAddrOverride_iff (hall : ∀ info ∈ slaves, info.Fits) (h' : other.Fits) :
    checkAddrOverride slaves other.base other.size = true ↔
      ∃ info ∈ slaves, info.Overlaps other ∧ ((info.Contains other.base ∧ info.last < 2 ^ 32) ∨
        (other.base.toNat < info.base.toNat ∧ other.last < 2 ^ 32)) := by
  rw [checkAddrOverride, List.any_eq_true]
  exact exists_congr fun info => and_congr_right fun hi => overrides_iff (hall info hi) h'

theorem mapSlave_eq (slaves : List SlaveInfo) (base size : Word) (slave : Slave) :
    mapSlave slaves base size slave =
      if checkAddrOverride slaves base size then .error (.assertion .bus) else .ok (slaves ++ [⟨base, size, slave⟩]) := by
  rw [mapSlave]
  cases checkAddrOverride slaves base size <;> rfl

theorem mapSlave_ok {slaves' : List SlaveInfo} (h : mapSlave slaves info.base info.size info.slave = .ok slaves') :
    checkAddrOverride slaves info.base info.size = false ∧ slaves' = slaves ++ [info] := by
  rw [mapSlave_eq] at h
  cases hc : checkAddrOverride slaves info.base info.size with
  | true =>
    rw [hc] at h
    cases h
  | false =>
    rw [hc] at h
    exact ⟨rfl, (Except.ok.inj h).symm⟩

theorem SlaveMap.fits (h : SlaveMap slaves) : ∀ info ∈ slaves, info.Fits := by
  induction h with
  | nil => exact fun _ hi => (List.not_mem_nil hi).elim
  | map _ _ hfits hmap ih =>
    rw [(mapSlave_ok hmap).2]
    intro x hx
    obtain hx | hx := List.mem_append.mp hx
    · exact ih x hx
    · rw [List.mem_singleton.mp hx]
      exact hfits

/-- Accepted regions are disjoint if none ends at `2 ^ 32`. -/
theorem SlaveMap.pairwise (h : SlaveMap slaves) (hall : ∀ info ∈ slaves, info.last < 2 ^ 32) :
    slaves.Pairwise fun a b => ¬ a.Overlaps b := by
  induction h with
  | nil => exact .nil
  | @map slaves slaves' info hm hfits hmap ih =>
    obtain ⟨hcheck, rfl⟩ := mapSlave_ok hmap
    have hold : ∀ x ∈ slaves, x.last < 2 ^ 32 := fun x hx => hall x (List.mem_append_left _ hx)
    refine List.pairwise_append.mpr ⟨ih hold, List.pairwise_singleton _ _, fun x hx y hy hov => ?_⟩
    obtain rfl := List.mem_singleton.mp hy
    have hover := (checkAddrOverride_iff hm.fits hfits).not.mp (Bool.eq_false_iff.mp hcheck)
    refine hover ⟨x, hx, hov, ?_⟩
    by_cases hle : x.base.toNat ≤ y.base.toNat
    · exact .inl ⟨⟨hle, ((overlaps_iff (hm.fits x hx) hfits).mp hov).1⟩, hold x hx⟩
    · exact .inr ⟨by omega, hall y (List.mem_append_right _ (List.mem_singleton_self y))⟩

/-- Disjoint regions that all end below `2 ^ 32` are decoded right. -/
theorem SlaveMap.decodes (h : SlaveMap slaves) (hall : ∀ info ∈ slaves, info.last < 2 ^ 32) : Decodes slaves := by
  have hpair := h.pairwise hall
  -- the regions are disjoint
  have hunique (addr : Word) (i j : Nat) (a b : SlaveInfo) (ha : slaves[i]? = some a) (hb : slaves[j]? = some b)
      (hca : a.Contains addr) (hcb : b.Contains addr) : i = j := by
    obtain ⟨hi, rfl⟩ := List.getElem?_eq_some_iff.mp ha
    obtain ⟨hj, rfl⟩ := List.getElem?_eq_some_iff.mp hb
    obtain hlt | heq | hgt := Nat.lt_trichotomy i j
    · exact absurd ⟨addr, hca, hcb⟩ (List.pairwise_iff_getElem.mp hpair i j hi hj hlt)
    · exact heq
    · exact absurd ⟨addr, hcb, hca⟩ (List.pairwise_iff_getElem.mp hpair j i hj hi hgt)
  have hfound (addr : Word) (info : SlaveInfo) (hf : findSlaveInfo slaves addr = some info) :
      info ∈ slaves ∧ info.Contains addr := by
    have hmem := List.mem_of_find?_eq_some hf
    exact ⟨hmem, (contains_of_find (h.fits info hmem) hf).1⟩
  refine ⟨hunique, fun addr info => ⟨hfound addr info, fun ⟨hmem, hc⟩ => ?_⟩, fun addr info hf => ?_⟩
  · cases hf : findSlaveInfo slaves addr with
    | none =>
      have hnone := List.find?_eq_none.mp hf info hmem
      exact absurd ((inRegion_iff (h.fits info hmem)).mpr ⟨hc, hall info hmem⟩) hnone
    | some x =>
      obtain ⟨hx, hcx⟩ := hfound addr x hf
      obtain ⟨i, hi⟩ := List.mem_iff_getElem?.mp hmem
      obtain ⟨j, hj⟩ := List.mem_iff_getElem?.mp hx
      obtain rfl := hunique addr i j info x hi hj hc hcx
      rw [hi] at hj
      exact hj.symm
  · obtain ⟨-, hle, -⟩ := hfound addr info hf
    rw [convertToSlaveAddr, hf]
    exact BitVec.toNat_sub_of_le (BitVec.le_def.mpr hle)

/-- A region that ends at `2 ^ 32` is not found at its own base. -/
theorem Decodes.last_lt (hd : Decodes slaves) (h : SlaveMap slaves) (hmem : info ∈ slaves) : info.last < 2 ^ 32 := by
  have hf := (hd.find info.base info).mpr ⟨hmem, (h.fits info hmem).contains_base⟩
  exact (contains_of_find (h.fits info hmem) hf).2

/-- With regions that end below `2 ^ 32`, a call of `map` is judged right unless its own region ends there, begins in
no region and has one behind it. -/
theorem SlaveMap.rejects_iff (h : SlaveMap slaves) (hall : ∀ info ∈ slaves, info.last < 2 ^ 32) (h' : other.Fits) :
    (checkAddrOverride slaves other.base other.size = true ↔ ∃ info ∈ slaves, info.Overlaps other) ↔
      other.last < 2 ^ 32 ∨ (∃ info ∈ slaves, info.Contains other.base) ∨
        ∀ info ∈ slaves, info.base.toNat ≤ other.base.toNat := by
  rw [checkAddrOverride_iff h.fits h']
  have hbehind {info : SlaveInfo} (hi : info ∈ slaves) (hov : info.Overlaps other)
      (hle : info.base.toNat ≤ other.base.toNat) : info.Contains other.base ∧ info.last < 2 ^ 32 :=
    ⟨⟨hle, ((overlaps_iff (h.fits info hi) h').mp hov).1⟩, hall info hi⟩
  constructor
  -- a region in front that reaches past an old one is not seen
  · rintro hiff
    by_contra hnot
    push Not at hnot
    obtain ⟨hend, hout, info, hi, hlt⟩ := hnot
    have hfits := h.fits info hi
    have hov : info.Overlaps other := by
      rw [overlaps_iff hfits h']
      have := hall info hi
      have := hfits.nonempty
      unfold SlaveInfo.last at *
      omega
    obtain ⟨x, hx, -, ⟨hc, -⟩ | ⟨-, hl⟩⟩ := hiff.mpr ⟨info, hi, hov⟩
    · exact hout x hx hc
    · omega
  · intro hcond
    refine ⟨fun ⟨info, hi, hov, _⟩ => ⟨info, hi, hov⟩, fun ⟨info, hi, hov⟩ => ?_⟩
    by_cases hle : info.base.toNat ≤ other.base.toNat
    · exact ⟨info, hi, hov, .inl (hbehind hi hov hle)⟩
    obtain hl | ⟨x, hx, hc⟩ | hbase := hcond
    · exact ⟨info, hi, hov, .inr ⟨by omega, hl⟩⟩
    · exact ⟨x, hx, ⟨other.base, hc, h'.contains_base⟩, .inl ⟨hc, hall x hx⟩⟩
    · exact absurd (hbase info hi) hle

end Regions

/-- After every sequence of accepted `map` calls: the bus decodes every address right and rejects the next call
exactly if its region overlaps an accepted one, if and only if every accepted region ends below `2 ^ 32` and so does
the next one, or it begins in an accepted region or behind the base of all of them. -/
theorem bus_decoding {slaves : List SlaveInfo} (h : SlaveMap slaves) {info : SlaveInfo} (hfits : info.Fits) :
    (Decodes slaves ∧ (mapSlave slaves info.base info.size info.slave = .error (.assertion .bus) ↔
      ∃ other ∈ slaves, other.Overlaps info)) ↔
      (∀ other ∈ slaves, other.last < 2 ^ 32) ∧ (info.last < 2 ^ 32 ∨
        (∃ other ∈ slaves, other.Contains info.base) ∨
        ∀ other ∈ slaves, other.base.toNat ≤ info.base.toNat) := by
  have hreject : mapSlave slaves info.base info.size info.slave = .error (.assertion .bus) ↔
      checkAddrOverride slaves info.base info.size = true := by
    rw [mapSlave_eq]
    cases checkAddrOverride slaves info.base info.size <;> simp
  rw [hreject]
  constructor
  · rintro ⟨hd, hiff⟩
    have hall : ∀ other ∈ slaves, other.last < 2 ^ 32 := fun other ho => hd.last_lt h ho
    exact ⟨hall, (h.rejects_iff hall hfits).mp hiff⟩
  · rintro ⟨hall, hcond⟩
    exact ⟨h.decodes hall, (h.rejects_iff hall hfits).mpr hcond⟩

theorem bus_decoding_slaveInfoList : SlaveMap slaveInfoList ∧ Decodes slaveInfoList ∧
    (mapSlave slaveInfoList 0x80080000 0x100000 .memory = .error (.assertion .bus) ↔
      ∃ other ∈ slaveInfoList, other.Overlaps ⟨0x80080000, 0x100000, .memory⟩) := by
  have hfits : SlaveInfo.Fits ⟨0x80080000, 0x100000, .memory⟩ := ⟨by decide, by decide⟩
  exact ⟨slaveMap_slaveInfoList, (bus_decoding slaveMap_slaveInfoList hfits).mpr ⟨by decide, .inl (by decide)⟩⟩

/-- A region in the last 4096 bytes is mapped, never found, and can be mapped again. -/
theorem last_region_lost : ∃ slaves, SlaveMap slaves ∧ slaves = [⟨0xfffff000, 0x1000, .memory⟩] ∧
    findSlaveInfo slaves 0xfffff800 = none ∧ ¬ Decodes slaves ∧
    mapSlave slaves 0xfffff000 0x1000 .memory = .ok [⟨0xfffff000, 0x1000, .memory⟩, ⟨0xfffff000, 0x1000, .memory⟩] := by
  have hmapped : SlaveMap [⟨0xfffff000, 0x1000, .memory⟩] :=
    .map ⟨0xfffff000, 0x1000, .memory⟩ .nil ⟨by decide, by decide⟩ rfl
  have hnone : findSlaveInfo [⟨0xfffff000, 0x1000, .memory⟩] 0xfffff800 = none := by decide
  refine ⟨_, hmapped, rfl, hnone, fun hd => ?_, rfl⟩
  have hf := (hd.find 0xfffff800 ⟨0xfffff000, 0x1000, .memory⟩).mpr
    ⟨List.mem_singleton_self _, by decide, by decide⟩
  rw [hnone] at hf
  cases hf

end MyRiscvCore
