import MyRiscvCore.Machine
import MyRiscvCore.Lib.Renaming

/-!
# MyRiscvCore — CSR requests

A queued request for a mapped register either is applied, and then changes the value of that register
only, or waits for the terminal (`Csrfile.sync_cases`); the values after a `sync` are the stored ones of
its requests, in order (`Csrfile.sync_value`). The counters that the end of a cycle writes never wait.
-/

namespace MyRiscvCore

open Renaming (mapAfter)

namespace Csrfile

/-- The register a request writes. -/
def Request.addr : Request → Nat
  | .write addr _ | .writeSys addr _ => addr

/-- The value a request asks to write. -/
def Request.value : Request → Word
  | .write _ value | .writeSys _ value => value

/-- What the filter of the register keeps of a written value. -/
def filtered (addr : Nat) (value : Word) : Word :=
  match csrMapTable addr with
  | some item =>
    match item.filter with
    | .mask m => value &&& m
    | .charfifo => 0
  | none => 0

/-- The value a request stores. -/
def Request.stored (r : Request) : Word := filtered r.addr r.value

/-- The register exists, and an instruction may write it. -/
def Request.Known : Request → Prop
  | .write addr _ => writeCheck addr = true
  | .writeSys addr _ => (csrMapTable addr).isSome = true

/-- The register is not the terminal's. -/
def Request.Plain (r : Request) : Prop :=
  ∃ item m, csrMapTable r.addr = some item ∧ item.filter = .mask m

variable {c c' : Csrfile} {r : Request} {rs : List Request}

/-- A write to a known address succeeds, or waits for the terminal. -/
theorem writeSys_cases (c : Csrfile) {addr : Nat} (h : (csrMapTable addr).isSome = true) (v : Word) :
    (∃ c', c.writeSys addr v = .ok c') ∨ c.writeSys addr v = .error .charfifo := by
  obtain ⟨item, hitem⟩ := Option.isSome_iff_exists.mp h
  simp only [writeSys, hitem, writeItem]
  cases item.filter with
  | mask m => exact .inl ⟨_, rfl⟩
  | charfifo =>
    dsimp only
    split_ifs
    · cases c.revFifo with
      | nil => exact .inr rfl
      | cons ch rest => exact .inl ⟨_, rfl⟩
    · exact .inl ⟨_, rfl⟩
    · exact .inr rfl

/-- Requests of the program are checked before, so they write like the system's own. -/
theorem apply_eq_writeSys (c : Csrfile) (h : r.Known) : c.apply r = c.writeSys r.addr r.value := by
  cases r with
  | write addr value =>
    have hw : writeCheck addr = true := h
    simp only [apply, hw, assert_true]
    rfl
  | writeSys addr value => rfl

theorem Request.Known.mapped (h : r.Known) : (csrMapTable r.addr).isSome = true := by
  cases r with
  | write addr value =>
    have hw : writeCheck addr = true := h
    unfold writeCheck at hw
    cases hitem : csrMapTable addr with
    | none =>
      rw [hitem] at hw
      cases hw
    | some item => simp [Request.addr, hitem]
  | writeSys addr value => exact h

theorem sync_cons (c : Csrfile) (r : Request) (rs : List Request) :
    c.sync (r :: rs) = (c.apply r).bind fun c => c.sync rs :=
  List.foldlM_cons

/-- Requests for mapped registers are applied, or one of them waits for the terminal. -/
theorem sync_cases (c : Csrfile) (h : ∀ r ∈ rs, r.Known) :
    (∃ c', c.sync rs = .ok c') ∨ c.sync rs = .error .charfifo := by
  induction rs generalizing c with
  | nil => exact .inl ⟨c, rfl⟩
  | cons r rs ih =>
    have hr := h r List.mem_cons_self
    rw [sync_cons, apply_eq_writeSys c hr]
    obtain ⟨c₁, h₁⟩ | h₁ := writeSys_cases c hr.mapped r.value
    · rw [h₁]
      exact ih c₁ fun x hx => h x (List.mem_cons_of_mem _ hx)
    · rw [h₁]
      exact .inr rfl

/-- A write goes through the filter of its register, and changes no other. -/
theorem writeSys_value {addr : Nat} {v : Word} (h : c.writeSys addr v = .ok c') :
    c'.value = Function.update c.value addr (filtered addr v) := by
  unfold writeSys at h
  unfold filtered
  cases hitem : csrMapTable addr with
  | none =>
    rw [hitem] at h
    cases h
  | some item =>
    rw [hitem] at h
    simp only [writeItem] at h ⊢
    cases hf : item.filter with
    | mask m =>
      rw [hf] at h
      cases h
      rfl
    -- a write that returns has taken a character or sent one
    | charfifo =>
      rw [hf] at h
      dsimp only at h
      split_ifs at h
      · cases hrev : c.revFifo with
        | nil =>
          rw [hrev] at h
          cases h
        | cons ch rest =>
          rw [hrev] at h
          cases h
          rfl
      · cases h
        rfl

/-- The same for a request. -/
theorem apply_value (h : c.apply r = .ok c') :
    c'.value = Function.update c.value r.addr r.stored := by
  cases r with
  | write addr value =>
    simp only [apply] at h
    cases hw : writeCheck addr with
    | false =>
      rw [hw] at h
      cases h
    | true =>
      rw [hw, assert_true] at h
      exact writeSys_value h
  | writeSys addr value => exact writeSys_value h

/-- The values after the requests. -/
theorem sync_value (h : c.sync rs = .ok c') :
    c'.value = mapAfter c.value (rs.map fun r => (r.addr, r.stored)) := by
  induction rs generalizing c with
  | nil =>
    cases h
    rfl
  | cons r rs ih =>
    rw [sync_cons] at h
    cases hr : c.apply r with
    | error err =>
      rw [hr] at h
      cases h
    | ok c₁ =>
      rw [hr] at h
      rw [ih h, apply_value hr, List.map_cons, Renaming.mapAfter_cons]

/-- A register that is not written keeps its value. -/
theorem sync_value_of_notMem (h : c.sync rs = .ok c') {a : Nat} (ha : ∀ r ∈ rs, r.addr ≠ a) :
    c'.value a = c.value a := by
  rw [sync_value h, Renaming.mapAfter_of_notMem]
  intro x hx
  obtain ⟨r, hr, rfl⟩ := List.mem_map.mp hx
  exact ha r hr

/-- Requests that do not concern the terminal are applied. -/
theorem sync_plain (c : Csrfile) (h : ∀ r ∈ rs, r.Known ∧ r.Plain) : ∃ c', c.sync rs = .ok c' := by
  induction rs generalizing c with
  | nil => exact ⟨c, rfl⟩
  | cons r rs ih =>
    obtain ⟨hr, item, m, hitem, hm⟩ := h r List.mem_cons_self
    rw [sync_cons, apply_eq_writeSys c hr]
    simp only [writeSys, hitem, writeItem, hm]
    exact ih _ fun x hx => h x (List.mem_cons_of_mem _ hx)

/-- A row of a table written as a chain of conditions. -/
theorem of_ite_some {p : Prop} [Decidable p] {x y : CsrItem} {rest : Option CsrItem} {P : CsrItem → Prop}
    (h : (if p then some x else rest) = some y) (hx : p → P x) (hrest : rest = some y → P y) : P y := by
  split at h
  next hp =>
    cases h
    exact hx hp
  next => exact hrest h

/-- Only `charfifo` has a filter other than a mask. -/
theorem mask_of_ne {addr : Nat} {item : CsrItem} (h : csrMapTable addr = some item) (ha : addr ≠ csrCharfifo) :
    ∃ m, item.filter = .mask m := by
  unfold csrMapTable at h
  repeat
    first
    | refine of_ite_some (P := fun i => ∃ m, i.filter = .mask m) h (fun _ => ⟨_, rfl⟩) fun h => ?_
    | refine of_ite_some (P := fun i => ∃ m, i.filter = .mask m) h (fun hp => absurd hp ha) fun h => ?_
  cases h

/-- Every other register just stores what its mask keeps. -/
theorem Request.Known.plain (h : r.Known) (ha : r.addr ≠ csrCharfifo) : r.Plain := by
  obtain ⟨item, hitem⟩ := Option.isSome_iff_exists.mp h.mapped
  obtain ⟨m, hm⟩ := mask_of_ne hitem ha
  exact ⟨item, m, hitem, hm⟩

end Csrfile

/-- The registers that the end of a cycle writes. -/
def counterAddrs : List Nat :=
  [csrMcycle, csrMcycleh, csrMinstret, csrMinstreth, 0xB03, 0xB83, 0xB04, 0xB84, 0xB05, 0xB85, 0xB06,
    0xB86, 0xB07, 0xB87, 0xB08, 0xB88, 0xB09, 0xB89, 0xB0A, 0xB8A, 0xB0B, 0xB8B, 0xB0C, 0xB8C, 0xB0D,
    0xB8D, 0xB0E, 0xB8E, 0xB0F, 0xB8F]

/-- The CSRs that only instructions and traps change: not `mip`, not the counters, not the terminal. -/
def StableCsr (a : Nat) : Prop :=
  a ≠ csrMip ∧ a ∉ counterAddrs ∧ a ≠ csrCharfifo

instance (a : Nat) : Decidable (StableCsr a) :=
  inferInstanceAs (Decidable (_ ∧ _ ∧ _))

/-- The value of such a CSR is what a read of it shows. -/
theorem StableCsr.read_eq {a : Nat} (h : StableCsr a) {c c' : Csrfile} (hv : c.value a = c'.value a) :
    c.read a = c'.read a := by
  unfold Csrfile.read
  cases hitem : csrMapTable a with
  | none => rfl
  | some item =>
    obtain ⟨m, hm⟩ := Csrfile.mask_of_ne hitem h.2.2
    simp only [Option.map_some, Csrfile.readItem, hm, hv]

theorem sysWrites_addr (cycles commits : BitVec 64) (p : PerfCounters) :
    (sysWrites cycles commits p).map (·.addr) = counterAddrs := by
  simp [sysWrites, counterRequests, Csrfile.Request.addr, counterAddrs]

theorem sysWrites_addr_mem {cycles commits : BitVec 64} {p : PerfCounters} {r : Csrfile.Request}
    (h : r ∈ sysWrites cycles commits p) : r.addr ∈ counterAddrs := by
  rw [← sysWrites_addr cycles commits p]
  exact List.mem_map_of_mem h

theorem counterAddrs_plain : ∀ a ∈ counterAddrs, ∃ item, csrMapTable a = some item ∧
    item.filter = .all := by
  decide

theorem sysWrites_sys {cycles commits : BitVec 64} {p : PerfCounters} {r : Csrfile.Request}
    (h : r ∈ sysWrites cycles commits p) : ∃ a v, r = .writeSys a v := by
  have hall : (sysWrites cycles commits p).all (fun r => r == .writeSys r.addr r.value) = true := by
    simp [sysWrites, counterRequests, Csrfile.Request.addr, Csrfile.Request.value]
  exact ⟨_, _, eq_of_beq (List.all_eq_true.mp hall r h)⟩

/-- The counters are always written. -/
theorem sysWrites_ok (c : Csrfile) (cycles commits : BitVec 64) (p : PerfCounters) :
    ∃ c', c.sync (sysWrites cycles commits p) = .ok c' := by
  refine c.sync_plain fun r hr => ?_
  obtain ⟨item, hitem, hf⟩ := counterAddrs_plain _ (sysWrites_addr_mem hr)
  obtain ⟨a, v, rfl⟩ := sysWrites_sys hr
  have hitem' : csrMapTable a = some item := hitem
  exact ⟨by simp [Csrfile.Request.Known, hitem'], item, _, hitem, hf⟩

/-- Every counter shows what the end of the cycle wrote. -/
theorem sysWrites_value {c c' : Csrfile} {cycles commits : BitVec 64} {p : PerfCounters}
    (h : c.sync (sysWrites cycles commits p) = .ok c') {r : Csrfile.Request}
    (hr : r ∈ sysWrites cycles commits p) : c'.value r.addr = r.value := by
  have hnodup : ((sysWrites cycles commits p).map (·.addr)).Nodup := by
    rw [sysWrites_addr]
    decide
  have hstored : r.stored = r.value := by
    obtain ⟨item, hitem, hf⟩ := counterAddrs_plain _ (sysWrites_addr_mem hr)
    rw [Csrfile.Request.stored, Csrfile.filtered, hitem]
    simp only [hf, CsrFilter.all]
    exact BitVec.and_allOnes
  rw [Csrfile.sync_value h, ← hstored]
  refine Renaming.mapAfter_of_forall (x := (r.addr, r.stored)) (List.mem_map_of_mem hr) fun y hy haddr => ?_
  obtain ⟨r', hr', rfl⟩ := List.mem_map.mp hy
  rw [List.inj_on_of_nodup_map hnodup hr' hr haddr]

/-- The bit helper of the source. -/
theorem getbit_eq (v : Word) {i : Nat} (hi : i < 32) : getbit v i = v.getLsbD i := by
  have hpow : BitVec.twoPow 32 i ≠ 0 := by
    intro h
    have hbit := congrArg (fun x : Word => x.getLsbD i) h
    simp [hi] at hbit
  rw [getbit, show (1 : Word) <<< i = BitVec.twoPow 32 i from rfl, BitVec.and_twoPow]
  cases v.getLsbD i with
  | false => rfl
  | true => simpa using hpow

theorem getbit_and (v mask : Word) {i : Nat} (hi : i < 32) : getbit (v &&& mask) i = (getbit v i && getbit mask i) := by
  rw [getbit_eq _ hi, getbit_eq _ hi, getbit_eq _ hi, BitVec.getLsbD_and]

/-- Setting a bit of a masked register. -/
theorem getbit_setbit (mask v : Word) {i j : Nat} (hi : i < 32) (hj : j < 32) (b : Bool) :
    getbit (setbit mask v j b) i = ((if i = j then b else getbit v i) && getbit mask i) := by
  rw [setbit, getbit_and _ _ hi, getbit_eq _ hi, getbit_eq v hi]
  congr 1
  obtain hlt | rfl | hgt := Nat.lt_trichotomy i j
  · cases b <;> simp [hi, hlt, hlt.ne]
  · cases b <;> simp [hi]
  · have hsub : i - j ≠ 0 := Nat.sub_ne_zero_of_lt hgt
    cases b <;> simp [hi, hgt.ne', hgt.not_gt, hsub]

theorem mstatus_mask : getbit 0x88 3 = true ∧ getbit 0x88 7 = true := by decide

/-- The two bits of the interrupt-enable stack do not disturb each other. -/
theorem getMie_setMie (v : Word) (b : Bool) : getMie (setMie v b) = b := by
  rw [getMie, setMie, getbit_setbit _ _ (by decide) (by decide), if_pos rfl, mstatus_mask.1, Bool.and_true]

theorem getMpie_setMie (v : Word) (b : Bool) : getMpie (setMie v b) = getMpie v := by
  rw [getMpie, setMie, getbit_setbit _ _ (by decide) (by decide), if_neg (by decide), mstatus_mask.2, Bool.and_true]
  rfl

theorem getMpie_setMpie (v : Word) (b : Bool) : getMpie (setMpie v b) = b := by
  rw [getMpie, setMpie, getbit_setbit _ _ (by decide) (by decide), if_pos rfl, mstatus_mask.2, Bool.and_true]

theorem getMie_stored (v : Word) : getMie (v &&& 0x88) = getMie v := by
  rw [getMie, getbit_and _ _ (by decide), mstatus_mask.1, Bool.and_true]
  rfl

theorem getMpie_stored (v : Word) : getMpie (v &&& 0x88) = getMpie v := by
  rw [getMpie, getbit_and _ _ (by decide), mstatus_mask.2, Bool.and_true]
  rfl

end MyRiscvCore
