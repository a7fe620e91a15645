import MyRiscvCore.Refine.AdvanceStep
import MyRiscvCore.Refine.EntryFacts
import MyRiscvCore.Component.StoreBufferFacts

/-!
# MyRiscvCore — loads, stores, and memory through a cycle

The store buffer holds the retired stores not yet written, then the executed stores in flight. An
executing load or store is the oldest that has not executed, so a load finds exactly the stores before
it in the buffer (`LoadsOk.advance`) and a store joins behind the others (`storesOf_advance`). Retiring
marks a store as committed (`ComOk.retire`), and only committed stores are written (`ComOk.write`).
-/

namespace MyRiscvCore

variable {e : Entry} {sb : StoreBuffer} {addr : Word} {bus : Bus} {C : Nat → Nat} {regs : Nat → Word}

/-! ## Memory with buffered stores

A load reads memory and lays the buffered stores over it; that is reading the memory after the stores. -/

theorem applyItems_append (mem : Memory) (is js : List StoreBufferItem) :
    applyItems mem (is ++ js) = applyItems (applyItems mem is) js := by
  simp [applyItems]

theorem toNat_sub_memory (h : 2147483648 ≤ addr.toNat) :
    (addr - memoryInfo.base).toNat = addr.toNat - 2147483648 :=
  BitVec.toNat_sub_of_le (show (0x80000000 : Word).toNat ≤ addr.toNat from h)

/-- An aligned item laid over an aligned load is the load after the store. -/
theorem overlay_read {size : AccessSize} {item : StoreBufferItem} (mem : Memory)
    (h1 : 2147483648 ≤ addr.toNat) (h2 : addr.toNat < 2148532224)
    (ha : Bus.checkAlign addr size = true) (hi : Bus.checkAlign item.addr item.size = true) :
    StoreBuffer.overlay addr size (mem.read (addr - memoryInfo.base).toNat size) item =
      (applyStore mem item.request).read (addr - memoryInfo.base).toNat size := by
  rw [checkAlign_iff] at ha hi
  have hn := size.bytes_pos
  have hn4 := size.bytes_le
  refine BitVec.eq_of_getLsbD_eq fun j hj => ?_
  rw [StoreBuffer.getLsbD_overlay (by omega) _ hj, toNat_sub_memory h1]
  have hlt : decide (j < 8 * size.bytes) = decide (j / 8 < size.bytes) := by
    rw [decide_eq_decide]
    omega
  by_cases hm : 2147483648 ≤ item.addr.toNat ∧ item.addr.toNat < 2148532224
  · -- the item is in memory
    have happly : applyStore mem item.request =
        mem.write (item.addr - memoryInfo.base).toNat item.size item.data := by
      simp only [applyStore, StoreBufferItem.request, findSlaveInfo_of_mem hm.1 hm.2]
      rfl
    rw [happly, Memory.getLsbD_read_write, Memory.getLsbD_read, hlt, toNat_sub_memory hm.1]
    by_cases hin : j / 8 < size.bytes
    · rw [decide_eq_true hin]
      simp only [Bool.true_and, hin, and_true]
      by_cases hc : item.addr.toNat ≤ addr.toNat + j / 8 ∧
          addr.toNat + j / 8 < item.addr.toNat + item.size.bytes
      · have hbit : addr.toNat - 2147483648 + j / 8 - (item.addr.toNat - 2147483648) =
            addr.toNat + j / 8 - item.addr.toNat := by omega
        rw [if_pos hc, if_pos (by omega), hbit]
      · rw [if_neg hc, if_neg (by omega)]
    · rw [if_neg (by omega), decide_eq_false hin, Bool.false_and, Bool.false_and]
  · -- an item outside touches no byte of the memory
    have happly : applyStore mem item.request = mem := by
      unfold applyStore
      simp only [StoreBufferItem.request]
      split
      · rename_i info hf
        split
        · rename_i hs
          exact absurd (findSlaveInfo_memory hf hs).2 hm
        · rfl
      · rfl
    rw [happly, if_neg]
    intro hc
    cases hs : item.size <;> cases hz : size <;>
      simp only [hs, hz, AccessSize.bytes] at hc ha hi <;> omega

/-- One store after the other. -/
theorem overlay_items {size : AccessSize} {items : List StoreBufferItem} (mem : Memory)
    (h1 : 2147483648 ≤ addr.toNat) (h2 : addr.toNat < 2148532224)
    (ha : Bus.checkAlign addr size = true)
    (hi : ∀ i ∈ items, Bus.checkAlign i.addr i.size = true) :
    items.foldl (StoreBuffer.overlay addr size) (mem.read (addr - memoryInfo.base).toNat size) =
      (applyItems mem items).read (addr - memoryInfo.base).toNat size := by
  induction items generalizing mem with
  | nil => rfl
  | cons item items ih =>
    rw [List.foldl_cons, overlay_read mem h1 h2 ha (hi item List.mem_cons_self),
      ih _ fun i hmem => hi i (List.mem_cons_of_mem _ hmem)]
    rfl

/-- What a load answers: it reads the memory with the buffered stores done. -/
theorem loadValue_spec (bus : Bus) {op : LsuOp} (hsb : sb.WF)
    (ha : Bus.checkAlign addr (Issue.lsuSize op) = true)
    (hi : ∀ i ∈ sb.toList, Bus.checkAlign i.addr i.size = true) :
    ∃ v, Execute.loadValue bus sb op addr = .ok v ∧
      ∀ info, findSlaveInfo slaveInfoList addr = some info → info.slave = .memory →
        v = loadExtend op
          ((applyItems bus.memory sb.toList).read (addr - info.base).toNat (Issue.lsuSize op)) := by
  obtain ⟨v, hv, hmem⟩ := bus.read_aligned ha
  refine ⟨loadExtend op (sb.toList.foldl (StoreBuffer.overlay addr (Issue.lsuSize op)) v), ?_,
    fun info hinfo hs => ?_⟩
  · simp only [Execute.loadValue, hv, StoreBuffer.getFeedbackValue_eq hsb, bind, Except.bind]
    cases op <;> rfl
  · obtain ⟨rfl, h1, h2⟩ := findSlaveInfo_memory hinfo hs
    rw [hmem _ hinfo hs, overlay_items bus.memory h1 h2 ha hi]

/-- An aligned write is done, and changes the memory as the architecture says. -/
theorem Bus.write_aligned (b : Bus) {r : Bus.Request} (ha : Bus.checkAlign r.addr r.size = true) :
    ∃ b', b.write r.addr r.size r.data = .ok b' ∧ b'.memory = applyStore b.memory r := by
  unfold Bus.write applyStore
  cases hf : findSlaveInfo slaveInfoList r.addr with
  | none => exact ⟨b, rfl, rfl⟩
  | some info =>
    simp only [slaveCheck_aligned hf ha, bind, Except.bind, pure, Except.pure]
    cases hs : info.slave with
    | memory => exact ⟨_, rfl, rfl⟩
    | clint => cases r.size <;> exact ⟨_, rfl, rfl⟩

/-- Aligned stores are all written. -/
theorem Bus.sync_aligned (b : Bus) {items : List StoreBufferItem}
    (ha : ∀ i ∈ items, Bus.checkAlign i.addr i.size = true) :
    ∃ b', b.sync (items.map (·.request)) = .ok b' ∧ b'.memory = applyItems b.memory items := by
  induction items generalizing b with
  | nil => exact ⟨b, rfl, rfl⟩
  | cons i items ih =>
    obtain ⟨b₁, hw, hm⟩ := b.write_aligned (r := i.request) (ha i List.mem_cons_self)
    obtain ⟨b₂, hsync, hmem⟩ := ih b₁ fun x hx => ha x (List.mem_cons_of_mem _ hx)
    refine ⟨b₂, ?_, by rw [hmem, hm]; rfl⟩
    simp only [Bus.sync, List.map_cons, List.foldlM_cons, hw, bind, Except.bind]
    exact hsync

/-! ## Executed stores

The buffer holds the executed stores in program order, since the LSU takes them in order. -/

/-- The result of an executed load or store carries its operands. -/
theorem EntryOk.lsu_result {pre : List Entry}
    {r : ExecuteWbPack} (h : EntryOk C regs pre e) (hr : e.result = some r)
    (hl : (e.op.valid && e.op.opUnit == .lsu) = true) :
    ∃ v1 v2, operand1 (valueAt regs pre) e.op = some v1 ∧ operand2 (valueAt regs pre) e.op = some v2 ∧
      r.src1Value = v1 ∧ r.src2Value = v2 ∧ r.toDecodeInfo = e.op.toDecodeInfo ∧
      r.hasException =
        !Bus.checkAlign (v1 + e.op.imm) (Issue.lsuSize (Issue.lsuOpOf e.op.subOp)) := by
  obtain ⟨v1, v2, h1, h2, hu⟩ := h.result r hr
  have hunit : (packOf e.op v1 v2).opUnit = .lsu := by
    rw [packOf_info]
    simpa using (Bool.and_eq_true_iff.mp hl).2
  have hsame := hu.sameOp
  unfold UnitResult at hu
  rw [hunit] at hu
  obtain ⟨v, rfl⟩ := hu
  refine ⟨v1, v2, h1, h2, ?_, ?_, ?_, ?_⟩
  · exact hsame.src1.trans (packOf_src1 _ _ _)
  · exact hsame.src2.trans (packOf_src2 _ _ _)
  · exact hsame.info.trans (packOf_info _ _ _)
  · exact (packOf_lsu e.op v1 v2 hl).2

theorem isStoreOp_lsu {op : DecodeInfo} (h : isStoreOp op = true) :
    (op.valid && op.opUnit == .lsu) = true := (Bool.and_eq_true_iff.mp h).1

/-- The item of an executed store. -/
theorem EntryOk.storeItem {pre : List Entry}
    {i : StoreBufferItem} (h : EntryOk C regs pre e) (hi : e.storeItem? = some i) :
    isStoreOp e.op.toDecodeInfo = true ∧ i.robId = e.op.robId ∧ i.committed = false ∧
      Bus.checkAlign i.addr i.size = true ∧ ∃ v1 v2,
      operand1 (valueAt regs pre) e.op = some v1 ∧ operand2 (valueAt regs pre) e.op = some v2 ∧
      i.request = storeRequest (packOf e.op v1 v2) := by
  unfold Entry.storeItem? at hi
  obtain ⟨r, hr, hi⟩ := Option.bind_eq_some_iff.mp hi
  split at hi
  · rename_i hc
    obtain ⟨hst, hex⟩ := Bool.and_eq_true_iff.mp hc
    have hinfo := (h.resultOf hr).info
    rw [hinfo] at hst
    have hl := isStoreOp_lsu hst
    obtain ⟨v1, v2, h1, h2, hs1, hs2, -, hexc⟩ := h.lsu_result hr hl
    obtain rfl := Option.some.inj hi
    have himm : r.imm = e.op.imm := congrArg DecodeInfo.imm hinfo
    have hsub : r.subOp = e.op.subOp := congrArg DecodeInfo.subOp hinfo
    refine ⟨hst, (h.resultOf hr).robId, rfl, ?_, v1, v2, h1, h2, ?_⟩
    · rw [hexc, Bool.not_not] at hex
      simp only [hs1, himm, hsub]
      exact hex
    · simp only [StoreBufferItem.request, storeRequest, hs1, hs2, himm, hsub,
        (packOf_lsu e.op v1 v2 hl).1, packOf_info, packOf_src2]
  · cases hi

theorem storesOf_append (es fs : List Entry) : storesOf (es ++ fs) = storesOf es ++ storesOf fs :=
  List.filterMap_append

/-- A store has no item before it executes. -/
theorem Entry.storeItem_of_waiting (h : e.isWaiting = true) : e.storeItem? = none := by
  rw [Entry.isWaiting_eq_result, Option.isNone_iff_eq_none] at h
  simp [Entry.storeItem?, h]

/-- And keeps it afterwards. -/
theorem Entry.storeItem_advance_of_done (h : e.isWaiting = false)
    (rs : List ExecuteWbPack) : (e.advance rs).storeItem? = e.storeItem? := by
  rw [Entry.isWaiting_eq_result] at h
  obtain ⟨r, hr⟩ := Option.isSome_iff_exists.mp (by simpa using h)
  simp [Entry.storeItem?, hr, Entry.result_advance hr]

theorem EntryOk.storeItem_of_notLsu {pre : List Entry}
    (h : EntryOk C regs pre e) (hl : isLsu e.op.toDecodeInfo = false) : e.storeItem? = none := by
  cases hi : e.storeItem? with
  | none => rfl
  | some i =>
    have hst := (h.storeItem hi).1
    rw [isLsu, ← Bool.not_eq_true] at hl
    exact absurd (Bool.and_eq_true_iff.mp (isStoreOp_lsu hst)).2 hl

section Execute

variable {C : Nat → Nat} {regs : Nat → Word} {flight : List Entry}
  {done : List (IssueExecutePack × ExecuteWbPack)} {rs : List ExecuteWbPack} {others : List Nat}
  {packs packs' : List IssueExecutePack} {lsuP lsuP' : List IssueExecutePack}
  {items : List ReadregIssueOp} {renamed : List RenameReadregOp}

/-- An instruction that is not a load or store executed in this cycle adds no item. -/
theorem ExecutedOk.storeItem_advance (hex : ExecutedOk regs flight done rs others)
    (hfl : FlightOk C regs (flight.map (Entry.advance rs))) {y : Entry} (hy : y ∈ flight)
    (h : isLsu y.op.toDecodeInfo = true → y.isWaiting = true →
      ∀ x ∈ done, x.1.robId ≠ y.op.robId) : (y.advance rs).storeItem? = y.storeItem? := by
  cases hw : y.isWaiting with
  | false => exact Entry.storeItem_advance_of_done hw rs
  | true =>
    rw [Entry.storeItem_of_waiting hw]
    cases hl : isLsu y.op.toDecodeInfo with
    | false =>
      obtain ⟨pre, post, hsplit⟩ := List.append_of_mem hy
      exact (hfl (pre.map (Entry.advance rs)) (y.advance rs) (post.map (Entry.advance rs))
        (by rw [hsplit]; simp)).storeItem_of_notLsu hl
    | true =>
      refine Entry.storeItem_of_waiting ?_
      rw [hex.isWaiting_advance, hw, Bool.true_and, Bool.not_eq_true']
      have := h hl hw
      simpa using this

/-- Nothing of the group adds an item if no load or store of it executes. -/
theorem ExecutedOk.storesOf_advance (hex : ExecutedOk regs flight done rs others)
    (hfl : FlightOk C regs (flight.map (Entry.advance rs))) {es : List Entry}
    (hes : ∀ y ∈ es, y ∈ flight ∧ (isLsu y.op.toDecodeInfo = true → y.isWaiting = true →
      ∀ x ∈ done, x.1.robId ≠ y.op.robId)) :
    storesOf (es.map (Entry.advance rs)) = storesOf es := by
  unfold storesOf
  rw [List.filterMap_map]
  exact List.filterMap_congr fun y hy => hex.storeItem_advance hfl (hes y hy).1 (hes y hy).2

/-- The load or store that executes is the oldest that has not. -/
structure LsuSplit (flight pre : List Entry) (e : Entry) (post : List Entry)
    (done : List (IssueExecutePack × ExecuteWbPack)) : Prop where
  split : flight = pre ++ e :: post
  waiting : e.status = .waiting
  lsu : isLsu e.op.toDecodeInfo = true
  before : ∀ y ∈ pre, isLsu y.op.toDecodeInfo = true → y.isWaiting = false
  after : ∀ y ∈ post, isLsu y.op.toDecodeInfo = true → y.isWaiting = true
  other : ∀ y ∈ pre ++ post, isLsu y.op.toDecodeInfo = true → y.isWaiting = true →
    ∀ x ∈ done, x.1.robId ≠ y.op.robId

/-- The entry of a finished load or store: older ones are done, younger ones wait. -/
theorem LocOk.lsuSplit (h : LocOk regs flight packs lsuP items renamed)
    (hex : ExecutedOk regs flight done rs others)
    (hlsu : lsuP = (done.map Prod.fst).filter (isLsu ·.toDecodeInfo) ++ lsuP')
    {x : IssueExecutePack × ExecuteWbPack} (hx : x ∈ done) (hxu : x.1.opUnit = .lsu)
    (hone : ∀ y ∈ done, y.1.opUnit = .lsu → y = x) :
    ∃ pre e post v1 v2, operand1 (valueAt regs pre) e.op = some v1 ∧
      operand2 (valueAt regs pre) e.op = some v2 ∧ x.1 = packOf e.op v1 v2 ∧
      LsuSplit flight pre e post done := by
  obtain ⟨pre, e, post, v1, v2, hsplit, h1, h2, hpack, hw⟩ := hex.entry hx
  have hid : x.1.robId = e.op.robId := by rw [hpack, packOf_robId]
  have hl : isLsu e.op.toDecodeInfo = true := by
    rw [hpack, packOf_info] at hxu
    simpa [isLsu] using hxu
  have hmem : e ∈ flight := by rw [hsplit]; simp
  -- another load or store with the id of a done pack is that instruction
  have hother : ∀ y ∈ flight, isLsu y.op.toDecodeInfo = true → ∀ z ∈ done,
      z.1.robId = y.op.robId → y.isWaiting = true → y = e := by
    intro y hy hyl z hz hzid hyw
    obtain ⟨pre', e', post', u1, u2, hsplit', -, -, hz', -⟩ := hex.entry hz
    have hye : y = e' := hex.eq_of_robId hy (by rw [hsplit']; simp)
      (hzid.symm.trans (by rw [hz', packOf_robId]))
    have hzu : z.1.opUnit = .lsu := by
      rw [hz', packOf_info, ← hye]
      simpa [isLsu] using hyl
    rw [hone z hz hzu, hid] at hzid
    exact hex.eq_of_robId hy hmem hzid.symm
  have hnd : (pre ++ e :: post).Nodup := hsplit ▸ hex.nodupFlight.of_map _
  have hpre : ∀ y ∈ pre, y ≠ e := by
    rintro y hy rfl
    exact (List.nodup_append.mp hnd).2.2 y hy y List.mem_cons_self rfl
  have hpost : ∀ y ∈ post, y ≠ e := by
    rintro y hy rfl
    exact (List.nodup_cons.mp (List.nodup_append.mp hnd).2.1).1 hy
  refine ⟨pre, e, post, v1, v2, h1, h2, hpack, hsplit, hw, hl, fun y hy hyl => ?_, fun y hy hyl => ?_,
    fun y hy hyl hyw z hz hzid => ?_⟩
  · -- a waiting one before it would have been taken first
    by_contra hyw
    rw [Bool.not_eq_false] at hyw
    obtain ⟨pre₁, pre₂, rfl⟩ := List.append_of_mem hy
    have hD := h.lsu_oldest hex.nodupFlight hlsu
      (show flight = pre₁ ++ y :: (pre₂ ++ e :: post) by rw [hsplit]; simp) hyw hyl (x := e)
      (by simp) (Entry.isWaiting_iff.mpr hw) hl
      (List.mem_map.mpr ⟨x.1, List.mem_filter.mpr ⟨List.mem_map_of_mem hx, by simp [isLsu, hxu]⟩, hid⟩)
    obtain ⟨p, hp, hpid⟩ := List.mem_map.mp hD
    obtain ⟨z, hz, rfl⟩ := List.mem_map.mp (List.mem_filter.mp hp).1
    exact hpre y hy (hother y (by rw [hsplit]; simp) hyl z hz hpid hyw)
  · exact h.lsuFirst pre e post hsplit (Entry.isWaiting_iff.mpr hw) hl y hy hyl
  · rw [List.mem_append] at hy
    obtain hy | hy := hy
    · exact hpre y hy (hother y (by rw [hsplit]; simp [hy]) hyl z hz hzid hyw)
    · exact hpost y hy (hother y (by rw [hsplit]; simp [hy]) hyl z hz hzid hyw)

/-- What the executing load or store adds to the buffer. -/
theorem lsuStep_pushes {op : RenameReadregOp} {v1 v2 : Word}
    {r : ExecuteWbPack} {pushes : List StoreBufferItem} (hres : e.result = some r)
    (hen : op.enable = true) (hl : isLsu op.toDecodeInfo = true)
    (h : Execute.LsuStep bus sb (packOf op v1 v2) r none pushes) :
    e.storeItem?.toList = pushes := by
  obtain ⟨p, hp⟩ : ∃ p, p = packOf op v1 v2 := ⟨_, rfl⟩
  have hinfo : p.toDecodeInfo = op.toDecodeInfo := hp ▸ packOf_info op v1 v2
  have hlsu : isLsu p.toDecodeInfo = true := hinfo ▸ hl
  have hpen : p.enable = true := (congrArg DecodeInfo.enable hinfo).trans hen
  rw [← hp] at h
  simp only [Entry.storeItem?, hres, Option.bind_some]
  cases h with
  | pass h =>
    rw [if_neg]
    · rfl
    · intro hc
      obtain ⟨hst, hex⟩ := Bool.and_eq_true_iff.mp hc
      have hv : p.valid = true := (Bool.and_eq_true_iff.mp (isStoreOp_lsu hst)).1
      have hnx : (!p.hasException) = true := hex
      rw [hpen, hv, hnx] at h
      exact Bool.false_ne_true h.symm
  | store h hs hf =>
    rw [hpen, Bool.true_and, Bool.and_eq_true_iff] at h
    have hst : isStoreOp (Execute.base p).toDecodeInfo = true :=
      Bool.and_eq_true_iff.mpr ⟨Bool.and_eq_true_iff.mpr ⟨h.1, hlsu⟩, hs⟩
    -- issue computed the address from the same operands
    have haddr : p.lsuAddr = p.src1Value + p.imm := by
      have hl : (op.valid && op.opUnit == .lsu) = true := hinfo ▸ isStoreOp_lsu hst
      have hsrc : p.src1Value = v1 := hp ▸ packOf_src1 op v1 v2
      rw [hp, (packOf_lsu op v1 v2 hl).1, ← hp, hsrc, hinfo]
    have hex : (!(Execute.base p).hasException) = true := h.2
    rw [if_pos (by rw [hst, hex]; rfl), Execute.storeItem, haddr]
    rfl
  | load h hs hv =>
    rw [if_neg]
    · rfl
    · intro hc
      have hst := (Bool.and_eq_true_iff.mp (Bool.and_eq_true_iff.mp hc).1).2
      exact Bool.false_ne_true (hs.symm.trans hst)

/-- What an executing load answers. -/
theorem lsuStep_load {op : RenameReadregOp} {v1 v2 : Word}
    {r : ExecuteWbPack} {pushes : List StoreBufferItem} {mem : Memory} (hen : op.enable = true)
    (hload : isLoadOp op.toDecodeInfo = true)
    (h : Execute.LsuStep bus sb (packOf op v1 v2) r none pushes) (hnx : r.hasException = false)
    (hsb : sb.WF) (hal : ∀ i ∈ sb.toList, Bus.checkAlign i.addr i.size = true)
    (hmem : applyItems bus.memory sb.toList = mem) : LoadOk mem r := by
  obtain ⟨hl, hns⟩ := Bool.and_eq_true_iff.mp hload
  have hlsu := packOf_lsu op v1 v2 hl
  have hsrc := packOf_src1 op v1 v2
  have hinfo := packOf_info op v1 v2
  generalize packOf op v1 v2 = p at h hlsu hsrc hinfo
  have hpen : p.enable = true := (congrArg DecodeInfo.enable hinfo).trans hen
  have hval : p.valid = true :=
    (congrArg DecodeInfo.valid hinfo).trans (Bool.and_eq_true_iff.mp hl).1
  have hsub : p.subOp = op.subOp := congrArg DecodeInfo.subOp hinfo
  have himm : p.imm = op.imm := congrArg DecodeInfo.imm hinfo
  have hnotStore : Issue.isStore (Issue.lsuOpOf p.subOp) = false := by
    rw [hsub]
    simpa using hns
  cases h with
  | pass h =>
    have hpx : p.hasException = false := hnx
    simp [hpen, hval, hpx] at h
  | store h hs hf => exact absurd (hnotStore.symm.trans hs) (by simp)
  | load h hs hv =>
    have hpx : p.hasException = false := hnx
    have ha : Bus.checkAlign p.lsuAddr (Issue.lsuSize (Issue.lsuOpOf p.subOp)) = true := by
      rw [hlsu.1, hsub]
      simpa [hpx] using hlsu.2.symm
    -- the value is that of memory after the stores in the buffer
    obtain ⟨v, hv', hval'⟩ := loadValue_spec bus hsb ha hal
    obtain rfl : v = _ := Except.ok.inj (hv'.symm.trans hv)
    have haddr : p.src1Value + p.imm = p.lsuAddr := by rw [hsrc, himm, hlsu.1]
    intro info hinfo' hs'
    have hfind : findSlaveInfo slaveInfoList (p.src1Value + p.imm) = some info := hinfo'
    have hans := hval' info (haddr ▸ hfind) hs'
    rw [hmem, ← haddr] at hans
    exact hans

section Split

variable {pre post : List Entry} {e : Entry}

/-- No younger store has executed. -/
theorem LsuSplit.storesOf_post (h : LsuSplit flight pre e post done) (hfl : FlightOk C regs flight) :
    storesOf post = [] := by
  refine List.filterMap_eq_nil_iff.mpr fun y hy => ?_
  cases hl : isLsu y.op.toDecodeInfo with
  | true => exact Entry.storeItem_of_waiting (h.after y hy hl)
  | false =>
    obtain ⟨mid, post', rfl⟩ := List.append_of_mem hy
    exact (hfl (pre ++ e :: mid) y post' (by rw [h.split]; simp)).storeItem_of_notLsu hl

/-- The executed stores are all older than the load or store that executes. -/
theorem LsuSplit.storesOf_eq (h : LsuSplit flight pre e post done) (hfl : FlightOk C regs flight) :
    storesOf flight = storesOf pre := by
  have he : storesOf [e] = [] := by
    simp [storesOf, Entry.storeItem_of_waiting (Entry.isWaiting_iff.mpr h.waiting)]
  rw [h.split, ← List.singleton_append, storesOf_append, storesOf_append, h.storesOf_post hfl, he]
  simp

/-- The stores before it are the same after the cycle. -/
theorem LsuSplit.storesOf_pre (h : LsuSplit flight pre e post done)
    (hex : ExecutedOk regs flight done rs others) (hfl : FlightOk C regs flight) :
    storesOf (pre.map (Entry.advance rs)) = storesOf pre :=
  hex.storesOf_advance (hex.flightOk hfl) fun y hy =>
    ⟨by rw [h.split]; simp [hy], h.other y (List.mem_append_left _ hy)⟩

/-- The result of the load or store that executes. -/
theorem LsuSplit.result_advance (h : LsuSplit flight pre e post done)
    (hex : ExecutedOk regs flight done rs others)
    {x : IssueExecutePack × ExecuteWbPack} (hx : x ∈ done) (hid : x.1.robId = e.op.robId) :
    (e.advance rs).result = some x.2 := by
  obtain ⟨y, hy, hyid, hadv⟩ | ⟨hne, -⟩ := hex.advance_cases h.waiting
  · rw [Entry.result, hadv, hex.result_unique hy hx (hyid.trans hid.symm)]
  · exact absurd hid (hne x hx)

end Split

/-- At most one load or store executes in a cycle, and `pushes` is what it adds to the buffer. -/
def LsuPushes (bus : Bus) (sb : StoreBuffer) (done : List (IssueExecutePack × ExecuteWbPack))
    (pushes : List StoreBufferItem) : Prop :=
  (∃ x ∈ done, x.1.opUnit = .lsu ∧ Execute.LsuStep bus sb x.1 x.2 none pushes ∧
    ∀ y ∈ done, y.1.opUnit = .lsu → y = x) ∨ (pushes = [] ∧ ∀ x ∈ done, x.1.opUnit ≠ .lsu)

/-- The stores after the units have run. -/
theorem LocOk.storesOf_advance {pushes : List StoreBufferItem}
    (h : LocOk regs flight packs lsuP items renamed) (hex : ExecutedOk regs flight done rs others)
    (hfl : FlightOk C regs flight)
    (hlsu : lsuP = (done.map Prod.fst).filter (isLsu ·.toDecodeInfo) ++ lsuP')
    (hpush : LsuPushes bus sb done pushes) :
    storesOf (flight.map (Entry.advance rs)) = storesOf flight ++ pushes := by
  have hfl' := hex.flightOk hfl
  obtain ⟨x, hx, hxu, hstep, hone⟩ | ⟨rfl, hnone⟩ := hpush
  · obtain ⟨pre, e, post, v1, v2, -, -, hpack, hsplit⟩ := h.lsuSplit hex hlsu hx hxu hone
    have hres := hsplit.result_advance hex hx (by rw [hpack, packOf_robId])
    rw [hpack] at hstep
    have hitem := lsuStep_pushes hres (hfl pre e post hsplit.split).pack.enable hsplit.lsu hstep
    -- accesses execute in order, so nothing younger has stored
    have hpost : storesOf (post.map (Entry.advance rs)) = [] := by
      rw [hex.storesOf_advance hfl' fun y hy => ⟨by rw [hsplit.split]; simp [hy],
        hsplit.other y (List.mem_append_right _ hy)⟩, hsplit.storesOf_post hfl]
    have hone : storesOf [e.advance rs] = pushes := by
      rw [← hitem, storesOf, List.filterMap_cons]
      cases (e.advance rs).storeItem? <;> rfl
    calc storesOf (flight.map (Entry.advance rs))
        = storesOf (pre.map (Entry.advance rs)) ++ (storesOf [e.advance rs] ++
            storesOf (post.map (Entry.advance rs))) := by
          rw [← storesOf_append, ← storesOf_append, hsplit.split]
          simp
      _ = storesOf flight ++ pushes := by
          rw [hsplit.storesOf_pre hex hfl, hone, hpost, hsplit.storesOf_eq hfl, List.append_nil]
  · rw [List.append_nil]
    refine hex.storesOf_advance hfl' fun y hy => ⟨hy, fun hl hw x hx hid => hnone x hx ?_⟩
    obtain ⟨pre, e, post, v1, v2, hsplit, -, -, hpack, -⟩ := hex.entry hx
    obtain rfl : y = e := hex.eq_of_robId hy (by rw [hsplit]; simp)
      (hid.symm.trans (by rw [hpack, packOf_robId]))
    rw [hpack, packOf_info]
    simpa [isLsu] using hl

/-- A load that executes finds the stores before it; one that has executed keeps its value. -/
theorem LocOk.loadsOk_advance {pushes com : List StoreBufferItem}
    {mem : Memory} (h : LocOk regs flight packs lsuP items renamed)
    (hex : ExecutedOk regs flight done rs others) (hfl : FlightOk C regs flight)
    (hlsu : lsuP = (done.map Prod.fst).filter (isLsu ·.toDecodeInfo) ++ lsuP')
    (hpush : LsuPushes bus sb done pushes) (hsb : sb.WF)
    (hlist : sb.toList = com ++ storesOf flight) (hmem : applyItems bus.memory com = mem)
    (hal : ∀ i ∈ sb.toList, Bus.checkAlign i.addr i.size = true) (hloads : LoadsOk mem flight) :
    LoadsOk mem (flight.map (Entry.advance rs)) := by
  intro pre e post hf hload r hr hnx
  obtain ⟨pre, e, post, rfl, rfl, rfl, rfl⟩ := split_advance hf
  have hl : (e.op.valid && e.op.opUnit == .lsu) = true := (Bool.and_eq_true_iff.mp hload).1
  cases hold : e.result with
  | some r' =>
    rw [Entry.result_advance hold] at hr
    obtain rfl := Option.some.inj hr
    -- the loads and stores before an executed load have executed
    have hpre : storesOf (pre.map (Entry.advance rs)) = storesOf pre := by
      refine hex.storesOf_advance (hex.flightOk hfl) fun y hy =>
        ⟨List.mem_append_left _ hy, fun hyl hyw => ?_⟩
      obtain ⟨pre₁, pre₂, rfl⟩ := List.append_of_mem hy
      have hew := h.lsuFirst pre₁ y (pre₂ ++ e :: post) (by simp) hyw hyl e (by simp)
        (Bool.and_eq_true_iff.mp hl).2
      rw [Entry.isWaiting_eq_result, hold] at hew
      exact absurd hew (by simp)
    rw [hpre]
    exact hloads pre e post rfl hload r' hold hnx
  | none =>
    have hw : e.status = .waiting := Entry.isWaiting_iff.mp (by
      rw [Entry.isWaiting_eq_result, hold]; rfl)
    obtain ⟨x, hx, hid, hadv⟩ | ⟨-, hadv⟩ := hex.advance_cases hw
    swap
    · simp [Entry.result, hadv] at hr
    obtain rfl : x.2 = r := by simpa [Entry.result, hadv] using hr
    obtain ⟨pre', e', post', u1, u2, hf', -, -, hpack, -⟩ := hex.entry hx
    obtain rfl : e' = e := hex.eq_of_robId (by rw [hf']; simp) (by simp) (by
      rw [← hid, hpack, packOf_robId])
    have hxu : x.1.opUnit = .lsu := by
      rw [hpack, packOf_info]
      simpa using (Bool.and_eq_true_iff.mp hl).2
    obtain ⟨y, hy, hyu, hstep, hone⟩ | ⟨-, hnone⟩ := hpush
    swap
    · exact absurd hxu (hnone x hx)
    obtain rfl := hone x hx hxu
    obtain ⟨pre₁, e₁, post₁, v1, v2, -, -, hpk, hsplit⟩ := h.lsuSplit hex hlsu hx hxu hone
    obtain rfl : e₁ = e' := hex.eq_of_robId (by rw [hsplit.split]; simp) (by simp) (by
      rw [← hid, hpk, packOf_robId])
    -- an entry occurs once in the window
    obtain ⟨rfl, rfl⟩ := split_unique hsplit.split (List.Nodup.of_map _ hex.nodupFlight)
    rw [hsplit.storesOf_pre hex hfl]
    rw [hsplit.storesOf_eq hfl] at hlist
    exact lsuStep_load (hfl _ _ _ hsplit.split).pack.enable hload (hpk ▸ hstep) hnx hsb hal
      (by rw [hlist, applyItems_append, hmem])

end Execute

end MyRiscvCore
