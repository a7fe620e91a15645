import MyRiscvCore.Tools.Trace
import Mathlib.Algebra.GroupWithZero.Nat
import Mathlib.Algebra.Order.BigOperators.Group.List
import Mathlib.Algebra.Order.Group.Nat
import Mathlib.Data.List.Range

/-!
# MyRiscvCore — the rows of the trace

A row is the concatenation of its fields, and an update is meant to change one element or one bit of one field.
`trace_rows` says for which marked signals that is so. Three things stand in the way: `mark_signal` computes
`element_bitsize` from the number of elements, not from their size, so that the bit updates accept too few or too many
bit indices; `update_signal_bit` builds its mask in an `int`, which is too narrow for 8-byte elements; and the 32-bit
sums may wrap around.
-/

namespace MyRiscvCore.Trace

/-- An assertion that comes before an answer. -/
theorem guard_bind_eq_some {α : Type} {p : Prop} [Decidable p] {f : Unit → Option α} {a : α} :
    (guard p >>= f) = some a ↔ p ∧ f () = some a := by
  by_cases hp : p
  · simp [guard, hp]
  · simp [guard, hp]

theorem getLsbD_byteAt (v : BitVec 64) (i : Nat) {j : Nat} (hj : j < 8) :
    (byteAt v i).getLsbD j = v.getLsbD (8 * i + j) := by
  simp [byteAt, hj]

/-- The bits of a loaded value are those of its bytes, lowest first. -/
theorem getLsbD_load (mem : Nat → Byte) (a n : Nat) {i : Nat} (hi : i < 64) :
    (load mem a n).getLsbD i = (decide (i < 8 * n) && (mem (a + i / 8)).getLsbD (i % 8)) := by
  induction n generalizing a i with
  | zero => simp [load]
  | succ n ih =>
    rw [load, BitVec.getLsbD_or, BitVec.getLsbD_shiftLeft, BitVec.getLsbD_setWidth]
    by_cases hlt : i < 8
    · have h8 : i < 8 * (n + 1) := by omega
      simp [hlt, hi, h8, Nat.div_eq_of_lt hlt, Nat.mod_eq_of_lt hlt]
    · have hge : 8 ≤ i := Nat.le_of_not_lt hlt
      rw [ih (a + 1) (by omega), show a + 1 + (i - 8) / 8 = a + i / 8 by omega, show (i - 8) % 8 = i % 8 by omega,
        show decide (i - 8 < 8 * n) = decide (i < 8 * (n + 1)) by simp only [decide_eq_decide]; omega,
        BitVec.getLsbD_of_ge (mem a) i hge]
      simp [hlt, hi]

/-- The bits of the mask `~(1 << k)`, extended to 64 bits: those above the `int` are copies of its sign. -/
theorem getLsbD_mask (o : Overshift) {k : Word} (hk : k.toNat < 32) {j : Nat} (hj : j < 64) :
    ((~~~(o.one k)).signExtend 64).getLsbD j = if j < 32 then decide (j ≠ k.toNat) else decide (k.toNat ≠ 31) := by
  have hone (i : Nat) : (o.one k).getLsbD i = decide (k.toNat = i) := by
    rw [Overshift.one, if_pos hk, show (1 : BitVec 32) <<< k.toNat = BitVec.twoPow 32 k.toNat from rfl,
      BitVec.getLsbD_twoPow, decide_eq_true hk, Bool.true_and]
  rw [BitVec.getLsbD_signExtend, decide_eq_true hj, Bool.true_and]
  by_cases hlt : j < 32
  · rw [if_pos hlt, if_pos hlt, BitVec.getLsbD_not, decide_eq_true hlt, Bool.true_and, hone j, ← decide_not]
    exact decide_eq_decide.mpr ne_comm
  · rw [if_neg hlt, if_neg hlt, BitVec.msb_eq_getLsbD_last, BitVec.getLsbD_not, hone, ← decide_not]
    rfl

theorem getLsbD_and_one {w : Nat} (v : BitVec w) (i : Nat) : (v &&& 1).getLsbD i = (decide (i = 0) && v.getLsbD 0) := by
  rw [BitVec.getLsbD_and, show (1 : BitVec w).getLsbD i = (decide (0 < w) && decide (i = 0)) from BitVec.getLsbD_one]
  by_cases hi : i = 0
  · cases w <;> simp [hi]
  · simp [hi]

/-- The new value of a bit update, in 64 bits. -/
theorem getLsbD_replaceBit (o : Overshift) (stored value : BitVec 64) {k : Word} (hk : k.toNat < 32) {j : Nat}
    (hj : j < 64) : (o.replaceBit stored value k).getLsbD j =
      (stored.getLsbD j && (if j < 32 then decide (j ≠ k.toNat) else decide (k.toNat ≠ 31)) ||
        decide (j = k.toNat) && value.getLsbD 0) := by
  have hshl : (o.shl (value &&& 1) k).getLsbD j = (decide (j = k.toNat) && value.getLsbD 0) := by
    rw [Overshift.shl, if_pos (by omega), BitVec.getLsbD_shiftLeft, getLsbD_and_one, decide_eq_true hj, Bool.true_and]
    obtain hlt | heq | hgt := Nat.lt_trichotomy j k.toNat
    · simp [hlt, hlt.ne]
    · simp [heq]
    · simp [hgt.not_gt, hgt.ne', Nat.sub_ne_zero_of_lt hgt]
  rw [Overshift.replaceBit, BitVec.getLsbD_or, BitVec.getLsbD_and, getLsbD_mask o hk hj, hshl]

/-- Writing one bit of a bitmap byte. -/
theorem getLsbD_replaceBitmapBit (stored value : Byte) {k j : Nat} (hk : k < 8) (hj : j < 8) :
    (replaceBitmapBit stored value k).getLsbD j = if j = k then value.getLsbD 0 else stored.getLsbD j := by
  have hj32 : j < 32 := by omega
  have hk32 : k < 32 := by omega
  rw [replaceBitmapBit, BitVec.getLsbD_setWidth, BitVec.getLsbD_or, BitVec.getLsbD_and, BitVec.getLsbD_not,
    show (1 : BitVec 32) <<< k = BitVec.twoPow 32 k from rfl, BitVec.getLsbD_twoPow, BitVec.getLsbD_shiftLeft,
    getLsbD_and_one, BitVec.getLsbD_setWidth, BitVec.getLsbD_setWidth]
  obtain hlt | rfl | hgt := Nat.lt_trichotomy j k
  · simp [hj, hj32, hk32, hlt, hlt.ne, hlt.ne']
  · simp [hj, hj32]
  · simp [hj, hj32, hk32, hgt.ne, hgt.ne', hgt.not_gt, Nat.sub_ne_zero_of_lt hgt]

/-- How a signal is marked. -/
inductive MarkKind
  | signal (elementSize elementNum : Word)
  | bitmap (bitNum elementNum : Word)
  | bound (elementSize elementNum : Word)

structure Mark where
  domain : Domain
  name : String
  kind : MarkKind

namespace Mark

def info (m : Mark) : FieldInfo :=
  match m.kind with
  | .signal elementSize elementNum => TraceDatabase.signalInfo m.name elementSize elementNum
  | .bitmap bitNum elementNum => TraceDatabase.bitmapInfo m.name bitNum elementNum
  | .bound elementSize elementNum => TraceDatabase.signalInfo m.name elementSize elementNum

def isBound (m : Mark) : Bool :=
  match m.kind with
  | .signal _ _ | .bitmap _ _ => false
  | .bound _ _ => true

/-- The call that marks it. -/
def apply (db : TraceDatabase) (m : Mark) : Option TraceDatabase :=
  match m.kind with
  | .signal elementSize elementNum => db.markSignal m.domain m.name elementSize elementNum
  | .bitmap bitNum elementNum => db.markSignalBitmap m.domain m.name bitNum elementNum
  | .bound elementSize elementNum => db.bindSignal m.domain m.name elementSize elementNum

theorem apply_eq (db : TraceDatabase) (m : Mark) : apply db m = db.mark m.domain m.info m.isBound := by
  obtain ⟨domain, name, kind⟩ := m
  cases kind <;> rfl

@[simp] theorem info_name (m : Mark) : m.info.name = m.name := by
  obtain ⟨domain, name, kind⟩ := m
  cases kind <;> rfl

theorem info_size (m : Mark) : m.info.size = m.info.elementSize * m.info.elementNum := by
  obtain ⟨domain, name, kind⟩ := m
  cases kind <;> rfl

end Mark

/-- A database that is created, marked, laid out and switched on. -/
def traced (heap : Nat → Byte) (marks : List Mark) : Option TraceDatabase := do
  let db ← (TraceDatabase.new true).create true
  let db ← marks.foldlM Mark.apply db
  let db ← db.writeMetainfo heap
  db.traceOn

/-- What is written to the addressed element. -/
inductive Action
  | raw (buf : Nat → Byte)
  | signal (t : UnitType) (value : BitVec 64)
  | bit (t : UnitType) (value : BitVec 64) (bitIndex : Word)
  | bitmap (value : Byte) (bitIndex : Word)
  | bitmapAll (value : Byte)

structure Update where
  domain : Domain
  name : String
  index : Word
  action : Action

namespace TraceDatabase

/-- An update call. -/
def update (o : Overshift) (db : TraceDatabase) (u : Update) : Option TraceDatabase :=
  match u.action with
  | .raw buf => db.updateSignalRaw u.domain u.name buf u.index
  | .signal t value => db.updateSignal t u.domain u.name value u.index
  | .bit t value bitIndex => db.updateSignalBit o t u.domain u.name value bitIndex u.index
  | .bitmap value bitIndex => db.updateSignalBitmap u.domain u.name value bitIndex u.index
  | .bitmapAll value => db.updateSignalBitmapAll u.domain u.name value u.index

/-- The states that updates and written rows lead to. -/
inductive Reached (o : Overshift) (db : TraceDatabase) : TraceDatabase → Prop
  | refl : Reached o db db
  | update {db₁ db₂ : TraceDatabase} {u : Update} (h : Reached o db db₁) (hu : db₁.update o u = some db₂) :
    Reached o db db₂
  | writeRow {db₁ db₂ : TraceDatabase} (h : Reached o db db₁) (hw : db₁.writeRow = some db₂) : Reached o db db₂

/-- The fields in the order of the row. -/
def fields (db : TraceDatabase) : List FieldInfo :=
  (db.tables .input).fieldinfoList ++ (db.tables .output).fieldinfoList ++ (db.tables .status).fieldinfoList

end TraceDatabase

/-- The number of bytes of a field. -/
def FieldInfo.extent (item : FieldInfo) : Nat := item.elementSize.toNat * item.elementNum.toNat

/-- The bytes of a field. -/
def FieldInfo.bytes (item : FieldInfo) : List Nat := List.range' item.offset.toNat item.extent

/-- The first byte of an element. -/
def FieldInfo.element (item : FieldInfo) (index : Word) : Nat :=
  item.offset.toNat + item.elementSize.toNat * index.toNat

/-- The element at `addr` of `n` bytes becomes `buf`, and nothing else changes. -/
def SetsElement (db db' : TraceDatabase) (addr n : Nat) (buf : Nat → Byte) : Prop :=
  ∃ row, db' = { db with rowBuffer := row } ∧
    ∀ a, row a = if addr ≤ a ∧ a < addr + n then buf (a - addr) else db.rowBuffer a

/-- Bit `k` of the element at `addr` of `n` bytes becomes `b`, and nothing else changes. -/
def SetsBit (db db' : TraceDatabase) (addr n k : Nat) (b : Bool) : Prop :=
  k < 8 * n ∧ ∃ row, db' = { db with rowBuffer := row } ∧ ∀ a j, j < 8 →
    (row a).getLsbD j = if a = addr + k / 8 ∧ j = k % 8 then b else (db.rowBuffer a).getLsbD j

/-- The effect that an update is meant to have. -/
def Effect (db : TraceDatabase) (u : Update) (db' : TraceDatabase) : Prop :=
  let item := db.field u.domain u.name
  let addr := item.element u.index
  let n := item.elementSize.toNat
  match u.action with
  | .raw buf => SetsElement db db' addr n buf
  | .signal _ value => SetsElement db db' addr n (byteAt value)
  | .bit _ value bitIndex => SetsBit db db' addr n bitIndex.toNat (value.getLsbD 0)
  | .bitmap value bitIndex => SetsBit db db' addr n bitIndex.toNat (value.getLsbD 0)
  | .bitmapAll value => SetsElement db db' addr n fun _ => if value = 0 then 0 else 0xff

/-- The bits of an element: `8 * n` of them if it is marked by its `n` bytes, and as many as a bitmap is marked with. -/
def Mark.elementBits (m : Mark) : Nat :=
  match m.kind with
  | .signal elementSize _ | .bound elementSize _ => 8 * elementSize.toNat
  | .bitmap bitNum _ => bitNum.toNat

/-- The row of a database is framed: its fields tile it, an accepted update has its effect and no other, and
`update_signal_bit` accepts the bits of an element. -/
structure Framed (o : Overshift) (marks : List Mark) (db : TraceDatabase) : Prop where
  tiles : (db.fields.flatMap FieldInfo.bytes).Perm (List.range db.rowSize.toNat)
  effect : ∀ db₁, db.Reached o db₁ → ∀ u db₂, db₁.update o u = some db₂ → Effect db₁ u db₂
  bits : ∀ db₁, db.Reached o db₁ → ∀ m ∈ marks, m.isBound = false → ∀ t : UnitType, m.info.elementSize.toNat = t.bytes →
    ∀ index < m.info.elementNum, ∀ value bitIndex,
    (db₁.updateSignalBit o t m.domain m.name value bitIndex index).isSome = true ↔ bitIndex.toNat < m.elementBits

/-- When a marked signal does not break the frame. A field without elements never does. -/
def Mark.Fits (m : Mark) : Prop :=
  match m.kind with
  | .signal elementSize elementNum => elementNum = 0 ∨
    (((∃ t : UnitType, elementSize.toNat = t.bytes) → elementNum * 8 = elementSize * 8) ∧ elementSize ≠ 8 ∧
      (elementNum * 8).toNat ≤ 8 * elementSize.toNat)
  | .bitmap bitNum elementNum => elementNum = 0 ∨
    (bitNum.toNat + 7 < 2 ^ 32 ∧ ¬ (56 < bitNum.toNat ∧ bitNum.toNat ≤ 64))
  | .bound _ _ => True

section Tables

variable {marks done : List Mark} {db db' : TraceDatabase} {m : Mark} {heap : Nat → Byte}

/-- The marks of a domain. -/
def marksOf (domain : Domain) (marks : List Mark) : List Mark := marks.filter (·.domain = domain)

theorem marksOf_snoc (domain : Domain) (marks : List Mark) (m : Mark) :
    marksOf domain (marks ++ [m]) = marksOf domain marks ++ if m.domain = domain then [m] else [] := by
  rw [marksOf, List.filter_append, List.filter_singleton]
  by_cases hd : m.domain = domain <;> simp [hd, marksOf]

/-- The table of a domain with one more signal. -/
def DomainTable.add (t : DomainTable) (m : Mark) : DomainTable where
  fieldidMap := Function.update t.fieldidMap m.name t.fieldinfoList.length
  bindList := Function.update t.bindList m.name (some m.isBound)
  fieldinfoList := t.fieldinfoList ++ [m.info]

/-- The table of a domain whose signals are `l`. -/
structure TableOk (l : List Mark) (t : DomainTable) : Prop where
  infos : t.fieldinfoList = l.map Mark.info
  binds : ∀ name b, t.bindList name = some b ↔ ∃ m ∈ l, m.name = name ∧ m.isBound = b
  ids : ∀ i m, l[i]? = some m → t.fieldidMap m.name = i

/-- A signal with a new name. -/
theorem TableOk.add {l : List Mark} {t : DomainTable} (h : TableOk l t) (hnew : t.bindList m.name = none) :
    TableOk (l ++ [m]) (t.add m) := by
  -- the new name is not among the old ones
  have hother (m' : Mark) (hm' : m' ∈ l) : m'.name ≠ m.name := by
    intro hname
    have := (h.binds m.name m'.isBound).mpr ⟨m', hm', hname, rfl⟩
    rw [hnew] at this
    cases this
  refine ⟨?_, fun name b => ?_, fun i m' hm' => ?_⟩
  · rw [DomainTable.add, h.infos, List.map_append, List.map_singleton]
  · dsimp only [DomainTable.add]
    by_cases hname : name = m.name
    · subst hname
      rw [Function.update_self]
      constructor
      · rintro ⟨rfl⟩
        exact ⟨m, List.mem_append_right _ List.mem_cons_self, rfl, rfl⟩
      · rintro ⟨m', hm', hname', rfl⟩
        obtain hm' | hm' := List.mem_append.mp hm'
        · exact absurd hname' (hother m' hm')
        · rw [List.mem_singleton.mp hm']
    · rw [Function.update_of_ne hname, h.binds]
      refine exists_congr fun m' => and_congr_left fun hm' => ?_
      refine ⟨List.mem_append_left _, fun hmem => (List.mem_append.mp hmem).resolve_right fun hlast => ?_⟩
      rw [List.mem_singleton.mp hlast] at hm'
      exact hname hm'.1.symm
  · dsimp only [DomainTable.add]
    by_cases hi : i < l.length
    · rw [List.getElem?_append_left hi] at hm'
      rw [Function.update_of_ne (hother m' (List.mem_of_getElem? hm'))]
      exact h.ids i m' hm'
    · rw [List.getElem?_append_right (Nat.le_of_not_lt hi)] at hm'
      cases hsub : i - l.length with
      | zero =>
        rw [hsub] at hm'
        cases hm'
        rw [Function.update_self, h.infos, List.length_map]
        omega
      | succ k =>
        rw [hsub] at hm'
        cases hm'

/-- A database whose signals are `done`, before `write_metainfo`. -/
structure MarkedOk (done : List Mark) (db : TraceDatabase) : Prop where
  enabled : db.isEnabled = true
  fresh : db.isOpen = true ∧ db.metainfoOk = false
  tables : ∀ domain, TableOk (marksOf domain done) (db.tables domain)

/-- A new database has no signal. -/
theorem created_ok (h : (TraceDatabase.new true).create true = some db) : MarkedOk [] db := by
  cases h
  refine ⟨rfl, ⟨rfl, rfl⟩, fun domain => ⟨rfl, fun name b => ⟨fun hb => ?_, ?_⟩, fun i m hm => ?_⟩⟩
  · cases hb
  · rintro ⟨m, hm, -⟩
    exact absurd hm List.not_mem_nil
  · cases hm

/-- Marking one more signal. -/
theorem MarkedOk.mark (h : MarkedOk done db) (hmark : Mark.apply db m = some db') : MarkedOk (done ++ [m]) db' := by
  rw [Mark.apply_eq, TraceDatabase.mark, if_pos h.enabled] at hmark
  obtain ⟨hnew, hmark⟩ := guard_bind_eq_some.mp hmark
  obtain ⟨-, hmark⟩ := guard_bind_eq_some.mp hmark
  rw [Mark.info_name] at hnew hmark
  obtain rfl : { db with tables := Function.update db.tables m.domain ((db.tables m.domain).add m) } = db' :=
    Option.some.inj hmark
  refine ⟨h.enabled, h.fresh, fun domain => ?_⟩
  rw [marksOf_snoc]
  by_cases hd : m.domain = domain
  · subst hd
    rw [if_pos rfl]
    show TableOk _ (Function.update db.tables m.domain ((db.tables m.domain).add m) m.domain)
    rw [Function.update_self]
    exact (h.tables m.domain).add hnew
  · rw [if_neg hd, List.append_nil]
    show TableOk _ (Function.update db.tables m.domain ((db.tables m.domain).add m) domain)
    rw [Function.update_of_ne (Ne.symm hd)]
    exact h.tables domain

/-- Marking a list of signals. -/
theorem MarkedOk.foldlM (h : MarkedOk done db) (hmarks : marks.foldlM Mark.apply db = some db') :
    MarkedOk (done ++ marks) db' := by
  induction marks generalizing done db with
  | nil =>
    cases hmarks
    rwa [List.append_nil]
  | cons m marks ih =>
    rw [List.foldlM_cons, Option.bind_eq_bind, Option.bind_eq_some_iff] at hmarks
    obtain ⟨db₁, hone, hmarks⟩ := hmarks
    have := ih (h.mark hone) hmarks
    rwa [List.append_assoc] at this

end Tables

/-! ## The layout of the row

The signals are laid out one after the other: inputs, outputs, status. -/

section Layout

/-- Laying out changes the offsets only. -/
theorem layOut_getElem? (r : Word) (l : List FieldInfo) (i : Nat) :
    ∃ offset, (TraceDatabase.layOut r l).1[i]? = l[i]?.map fun item => { item with offset := offset } := by
  induction l generalizing r i with
  | nil => exact ⟨0, rfl⟩
  | cons item l ih =>
    cases i with
    | zero => exact ⟨r, rfl⟩
    | succ i => exact ih (r + item.size) i

/-- Laying out only sets the places. -/
theorem layOut_extents (r : Word) (l : List FieldInfo) :
    (TraceDatabase.layOut r l).1.map FieldInfo.extent = l.map FieldInfo.extent := by
  induction l generalizing r with
  | nil => rfl
  | cons item l ih => exact congrArg (item.extent :: ·) (ih (r + item.size))

/-- Without overflow, the fields of a domain follow each other. -/
theorem layOut_tiles {r : Word} {l : List FieldInfo} (hsize : ∀ item ∈ l, item.size = item.elementSize * item.elementNum)
    (hfit : r.toNat + (l.map FieldInfo.extent).sum < 2 ^ 32) :
    (TraceDatabase.layOut r l).2.toNat = r.toNat + (l.map FieldInfo.extent).sum ∧
      (TraceDatabase.layOut r l).1.flatMap FieldInfo.bytes = List.range' r.toNat (l.map FieldInfo.extent).sum := by
  induction l generalizing r with
  | nil => exact ⟨rfl, rfl⟩
  | cons item l ih =>
    rw [List.map_cons, List.sum_cons] at hfit ⊢
    have hitem : item.size.toNat = item.extent := by
      rw [hsize item List.mem_cons_self, BitVec.toNat_mul, FieldInfo.extent]
      exact Nat.mod_eq_of_lt (by unfold FieldInfo.extent at hfit; omega)
    have hnext : (r + item.size).toNat = r.toNat + item.extent := by
      rw [BitVec.toNat_add, hitem]
      exact Nat.mod_eq_of_lt (by omega)
    obtain ⟨hend, hbytes⟩ := ih (r := r + item.size) (fun x hx => hsize x (List.mem_cons_of_mem _ hx))
      (by rw [hnext]; omega)
    rw [hnext] at hend hbytes
    refine ⟨hend.trans (Nat.add_assoc _ _ _), ?_⟩
    rw [← List.range'_append_1, ← hbytes]
    rfl

/-- The bytes that the marked signals need. -/
def totalBytes (marks : List Mark) : Nat := (marks.map (·.info.extent)).sum

theorem sum_marksOf (marks : List Mark) : ((marksOf .input marks).map (·.info.extent)).sum +
    ((marksOf .output marks).map (·.info.extent)).sum + ((marksOf .status marks).map (·.info.extent)).sum =
      totalBytes marks := by
  induction marks with
  | nil => rfl
  | cons m marks ih =>
    unfold marksOf totalBytes at ih ⊢
    rw [List.map_cons, List.sum_cons, ← ih]
    cases hd : m.domain <;> simp [hd] <;> omega

end Layout

section On

variable {marks : List Mark} {db : TraceDatabase} {heap : Nat → Byte} {m : Mark}

/-- What a database holds when tracing begins, and while it goes on. -/
structure OnOk (marks : List Mark) (db : TraceDatabase) : Prop where
  tracing : db.isTracing = true
  binds : ∀ domain name b, (db.tables domain).bindList name = some b ↔
    ∃ m ∈ marksOf domain marks, m.name = name ∧ m.isBound = b
  field : ∀ m ∈ marks, ∃ offset, db.field m.domain m.name = { m.info with offset := offset }
  tiles : totalBytes marks < 2 ^ 32 → (db.fields.flatMap FieldInfo.bytes).Perm (List.range db.rowSize.toNat)
  extents : (db.fields.map FieldInfo.extent).sum = totalBytes marks

/-- The fields of a domain as they are marked. -/
def infosOf (marks : List Mark) (domain : Domain) : List FieldInfo := (marksOf domain marks).map Mark.info

theorem infosOf_size {domain : Domain} {item : FieldInfo} (h : item ∈ infosOf marks domain) :
    item.size = item.elementSize * item.elementNum := by
  obtain ⟨m, -, rfl⟩ := List.mem_map.mp h
  exact m.info_size

/-- Where the fields of a domain begin. -/
def start (marks : List Mark) : Domain → Word
  | .input => 0
  | .output => (TraceDatabase.layOut 0 (infosOf marks .input)).2
  | .status =>
    (TraceDatabase.layOut (TraceDatabase.layOut 0 (infosOf marks .input)).2 (infosOf marks .output)).2

/-- The fields of a domain with their places. -/
def placed (marks : List Mark) (domain : Domain) : List FieldInfo :=
  (TraceDatabase.layOut (start marks domain) (infosOf marks domain)).1

/-- What `write_metainfo` and `trace_on` make of a marked database. -/
theorem MarkedOk.on {db₁ db₂ : TraceDatabase} (h : MarkedOk marks db) (hmeta : db.writeMetainfo heap = some db₁)
    (hon : db₁.traceOn = some db₂) : db₂.isTracing = true ∧
      db₂.tables = (fun domain => { db.tables domain with fieldinfoList := placed marks domain }) ∧
      db₂.rowSize = (TraceDatabase.layOut (start marks .status) (infosOf marks .status)).2 := by
  have hinfos (domain : Domain) : (db.tables domain).fieldinfoList = infosOf marks domain := (h.tables domain).infos
  rw [TraceDatabase.writeMetainfo, if_pos h.enabled] at hmeta
  obtain ⟨-, hmeta⟩ := guard_bind_eq_some.mp hmeta
  rw [hinfos, hinfos, hinfos] at hmeta
  cases hmeta
  rw [TraceDatabase.traceOn, if_pos h.enabled] at hon
  obtain ⟨-, hon⟩ := guard_bind_eq_some.mp hon
  cases hon
  refine ⟨rfl, funext fun domain => ?_, rfl⟩
  cases domain <;> rfl

/-- Each marked signal has a field. -/
theorem MarkedOk.field (h : MarkedOk marks db) (hm : m ∈ marks) :
    ∃ offset, ((placed marks m.domain)[(db.tables m.domain).fieldidMap m.name]?).getD default =
      { m.info with offset := offset } := by
  have hmem : m ∈ marksOf m.domain marks := List.mem_filter.mpr ⟨hm, decide_eq_true rfl⟩
  obtain ⟨i, hi⟩ := List.mem_iff_getElem?.mp hmem
  obtain ⟨offset, hlay⟩ := layOut_getElem? (start marks m.domain) (infosOf marks m.domain) i
  refine ⟨offset, ?_⟩
  rw [(h.tables m.domain).ids i m hi, placed, hlay, infosOf, List.getElem?_map, hi]
  rfl

/-- The fields of the three domains, one after the other, fill the row. -/
theorem placed_tiles (hfit : totalBytes marks < 2 ^ 32) :
    (placed marks .input ++ placed marks .output ++ placed marks .status).flatMap FieldInfo.bytes =
      List.range (TraceDatabase.layOut (start marks .status) (infosOf marks .status)).2.toNat := by
  have hsum := sum_marksOf marks
  have hextents (domain : Domain) : ((infosOf marks domain).map FieldInfo.extent).sum =
      ((marksOf domain marks).map (·.info.extent)).sum := by
    rw [infosOf, List.map_map]
    rfl
  rw [← hextents, ← hextents, ← hextents] at hsum
  have hzero : (start marks .input).toNat = 0 := rfl
  obtain ⟨houtput, hin⟩ := layOut_tiles (r := start marks .input) (l := infosOf marks .input)
    (fun _ => infosOf_size) (by rw [hzero]; omega)
  change (start marks .output).toNat = _ at houtput
  obtain ⟨hstatus, hout⟩ := layOut_tiles (r := start marks .output) (l := infosOf marks .output)
    (fun _ => infosOf_size) (by rw [houtput]; omega)
  change (start marks .status).toNat = _ at hstatus
  obtain ⟨hend, hst⟩ := layOut_tiles (r := start marks .status) (l := infosOf marks .status)
    (fun _ => infosOf_size) (by rw [hstatus]; omega)
  rw [List.flatMap_append, List.flatMap_append, placed, placed, placed, hin, hout, hst, hend, hstatus, houtput, hzero,
    Nat.zero_add, List.range_eq_range', ← List.range'_append_1, ← List.range'_append_1, Nat.zero_add, Nat.zero_add]

theorem placed_extents (marks : List Mark) :
    ((placed marks .input ++ placed marks .output ++ placed marks .status).map FieldInfo.extent).sum =
      totalBytes marks := by
  rw [← sum_marksOf, List.map_append, List.map_append, List.sum_append, List.sum_append, placed, placed, placed,
    layOut_extents, layOut_extents, layOut_extents, infosOf, infosOf, infosOf, List.map_map, List.map_map, List.map_map]
  rfl

/-- Switching on fixes the places. -/
theorem traced_ok (h : traced heap marks = some db) : OnOk marks db := by
  unfold traced at h
  simp only [Option.bind_eq_bind, Option.bind_eq_some_iff] at h
  obtain ⟨db₀, hcreate, db₁, hmarks, db₂, hmeta, hon⟩ := h
  have h₁ : MarkedOk marks db₁ := (created_ok hcreate).foldlM hmarks
  obtain ⟨htracing, htables, hrow⟩ := h₁.on hmeta hon
  have hfields : db.fields = placed marks .input ++ placed marks .output ++ placed marks .status := by
    rw [TraceDatabase.fields, htables]
  refine ⟨htracing, fun domain => ?_, fun m hm => ?_, fun hfit => ?_, ?_⟩
  · rw [htables]
    exact (h₁.tables domain).binds
  · rw [TraceDatabase.field, htables]
    exact h₁.field hm
  · rw [hfields, hrow, placed_tiles hfit]
  · rw [hfields, placed_extents]

/-- Only the row changes from then on. -/
theorem OnOk.row (h : OnOk marks db) (row : Nat → Byte) : OnOk marks { db with rowBuffer := row } :=
  ⟨h.tracing, h.binds, h.field, h.tiles, h.extents⟩

/-- The names that are not bound to a variable are those of the free marks. -/
theorem OnOk.free_iff (h : OnOk marks db) (domain : Domain) (name : String) :
    (db.tables domain).bindList name = some false ↔
      ∃ m ∈ marks, m.domain = domain ∧ m.name = name ∧ m.isBound = false := by
  rw [h.binds]
  refine exists_congr fun m => ?_
  rw [marksOf, List.mem_filter, decide_eq_true_iff, and_assoc]

end On

section Step

variable {o : Overshift} {marks : List Mark} {db db' : TraceDatabase} {u : Update} {m : Mark}

/-- What an update asserts about the field, beyond the index. -/
def Action.Accepts (item : FieldInfo) : Action → Prop
  | .raw _ | .bitmapAll _ => True
  | .signal t _ => item.elementSize.toNat = t.bytes
  | .bit t _ bitIndex => item.elementSize.toNat = t.bytes ∧ bitIndex < item.elementBitsize
  | .bitmap _ bitIndex => bitIndex < item.elementBitsize

/-- The row after an update. -/
def Action.write (o : Overshift) (row : Nat → Byte) (item : FieldInfo) (index : Word) : Action → Nat → Byte
  | .raw buf => memcpy row (TraceDatabase.elementAddr item index) buf item.elementSize.toNat
  | .signal _ value => memcpy row (TraceDatabase.elementAddr item index) (byteAt value) item.elementSize.toNat
  | .bit t value bitIndex =>
    let addr := TraceDatabase.elementAddr item index
    memcpy row addr (byteAt (o.replaceBit (load row addr t.bytes) value bitIndex)) t.bytes
  | .bitmap value bitIndex =>
    let addr := TraceDatabase.elementAddr item index + bitIndex.toNat / 8
    Function.update row addr (replaceBitmapBit (row addr) value (bitIndex.toNat % 8))
  | .bitmapAll value =>
    memcpy row (TraceDatabase.elementAddr item index) (fun _ => if value = 0 then 0 else 0xff) item.elementSize.toNat

/-- An update goes through its checks: name, binding and index. -/
theorem checked_bind_eq_some {α : Type} {domain : Domain} {name : String} {index : Word} {f : FieldInfo → Option α}
    {a : α} : (db.checked domain name index >>= f) = some a ↔ (db.tables domain).bindList name = some false ∧
      index < (db.field domain name).elementNum ∧ f (db.field domain name) = some a := by
  rw [TraceDatabase.checked]
  by_cases hfree : (db.tables domain).bindList name = some false
  · by_cases hindex : index < (db.field domain name).elementNum
    · simp [guard, hfree, hindex]
    · simp [guard, hfree, hindex]
  · cases hbind : (db.tables domain).bindList name with
    | none => simp [guard]
    | some b =>
      rw [hbind] at hfree
      simp [guard, hfree]

/-- An update is accepted when its assertions hold, and then it writes the row. -/
theorem update_eq_some (htracing : db.isTracing = true) : db.update o u = some db' ↔
    (db.tables u.domain).bindList u.name = some false ∧ u.index < (db.field u.domain u.name).elementNum ∧
      u.action.Accepts (db.field u.domain u.name) ∧
      { db with rowBuffer := u.action.write o db.rowBuffer (db.field u.domain u.name) u.index } = db' := by
  obtain ⟨domain, name, index, action⟩ := u
  -- one case for each function of the interface
  cases action with
  | raw buf =>
    show db.updateSignalRaw domain name buf index = _ ↔ _
    rw [TraceDatabase.updateSignalRaw, if_pos htracing, checked_bind_eq_some]
    simp [Action.Accepts, Action.write]
  | signal t value =>
    show db.updateSignal t domain name value index = _ ↔ _
    rw [TraceDatabase.updateSignal, if_pos htracing, guard_bind_eq_some, guard_bind_eq_some,
      TraceDatabase.updateSignalRaw, if_pos htracing, checked_bind_eq_some]
    constructor
    · rintro ⟨-, hsize, hfree, hindex, hrow⟩
      exact ⟨hfree, hindex, hsize, Option.some.inj hrow⟩
    · rintro ⟨hfree, hindex, hsize, hrow⟩
      exact ⟨by simp [hfree], hsize, hfree, hindex, congrArg some hrow⟩
  | bit t value bitIndex =>
    show db.updateSignalBit o t domain name value bitIndex index = _ ↔ _
    rw [TraceDatabase.updateSignalBit, if_pos htracing, checked_bind_eq_some, guard_bind_eq_some, guard_bind_eq_some]
    simp [Action.Accepts, Action.write, and_assoc]
  | bitmap value bitIndex =>
    show db.updateSignalBitmap domain name value bitIndex index = _ ↔ _
    rw [TraceDatabase.updateSignalBitmap, if_pos htracing, checked_bind_eq_some, guard_bind_eq_some]
    simp [Action.Accepts, Action.write]
  | bitmapAll value =>
    show db.updateSignalBitmapAll domain name value index = _ ↔ _
    rw [TraceDatabase.updateSignalBitmapAll, if_pos htracing, checked_bind_eq_some]
    simp [Action.Accepts, Action.write]

/-- Updates and written rows change the row only. -/
theorem OnOk.reached (h : OnOk marks db) {db₁ : TraceDatabase} (hreach : db.Reached o db₁) : OnOk marks db₁ := by
  induction hreach with
  | refl => exact h
  | update _ hu ih =>
    obtain ⟨-, -, -, rfl⟩ := (update_eq_some ih.tracing).mp hu
    exact ih.row _
  | @writeRow db₁ _ _ hw ih =>
    rw [TraceDatabase.writeRow, if_pos ih.tracing] at hw
    by_cases henabled : db₁.isEnabled
    · rw [if_pos henabled] at hw
      obtain ⟨-, hw⟩ := guard_bind_eq_some.mp hw
      cases hw
      exact ih.row _
    · rw [if_neg henabled] at hw
      cases hw
      exact ih

/-- An update of an unbound signal. -/
theorem OnOk.update_isSome_iff (h : OnOk marks db) (hm : m ∈ marks) (hfree : m.isBound = false) (index : Word)
    (action : Action) : (db.update o ⟨m.domain, m.name, index, action⟩).isSome = true ↔
      index < m.info.elementNum ∧ action.Accepts m.info := by
  obtain ⟨offset, hfield⟩ := h.field m hm
  have hbind := (h.free_iff m.domain m.name).mpr ⟨m, hm, rfl, rfl, hfree⟩
  have haccepts : action.Accepts { m.info with offset := offset } ↔ action.Accepts m.info := by
    cases action <;> exact Iff.rfl
  rw [Option.isSome_iff_exists, ← haccepts]
  simp only [update_eq_some h.tracing, hfield]
  exact ⟨fun ⟨_, _, hindex, hok, _⟩ => ⟨hindex, hok⟩, fun ⟨hindex, hok⟩ => ⟨_, hbind, hindex, hok, rfl⟩⟩

end Step

/-! ## Where the effect is the intended one

An update writes the element it names, and nothing else, as long as the fields do not overlap. -/

section Effect

variable {o : Overshift} {marks : List Mark} {db db' : TraceDatabase} {u : Update} {m : Mark}

/-- When the bits of the elements of a field are the right ones. -/
theorem fits_iff (hfree : m.isBound = false) : m.Fits ↔ m.info.elementNum = 0 ∨
    (m.info.elementBitsize.toNat ≤ 8 * m.info.elementSize.toNat ∧ m.info.elementSize ≠ 8 ∧
      ((∃ t : UnitType, m.info.elementSize.toNat = t.bytes) → m.info.elementBitsize.toNat = m.elementBits)) := by
  obtain ⟨domain, name, kind⟩ := m
  cases kind with
  | signal elementSize elementNum =>
    -- with elements of at most 8 bytes the multiplication does not wrap
    have hbits (h : ∃ t : UnitType, elementSize.toNat = t.bytes) :
        elementNum * 8 = elementSize * 8 ↔ (elementNum * 8).toNat = 8 * elementSize.toNat := by
      obtain ⟨t, ht⟩ := h
      have hle : elementSize.toNat ≤ 8 := by
        rw [ht]
        cases t <;> decide
      rw [← BitVec.toNat_inj, BitVec.toNat_mul elementSize, show BitVec.toNat (8 : Word) = 8 from rfl]
      omega
    refine or_congr_right ⟨?_, ?_⟩
    · rintro ⟨hunit, hsize, hle⟩
      exact ⟨hle, hsize, fun h => (hbits h).mp (hunit h)⟩
    · rintro ⟨hle, hsize, hunit⟩
      exact ⟨fun h => (hbits h).mpr (hunit h), hsize, hle⟩
  | bitmap bitNum elementNum =>
    refine or_congr_right ?_
    dsimp only [Mark.info, TraceDatabase.bitmapInfo, Mark.elementBits]
    rw [ne_eq, ← BitVec.toNat_inj, BitVec.toNat_udiv, BitVec.toNat_sub, BitVec.toNat_add]
    simp
    omega
  | bound elementSize elementNum => cases hfree

theorem extent_le_totalBytes (hm : m ∈ marks) : m.info.extent ≤ totalBytes marks :=
  List.le_sum_of_mem (List.mem_map.mpr ⟨m, hm, rfl⟩)

/-- Without overflow, an element is where it should be. -/
theorem elementAddr_eq {item : FieldInfo} {index : Word} (hfit : item.extent < 2 ^ 32) (hindex : index < item.elementNum) :
    TraceDatabase.elementAddr item index = item.element index := by
  have hle : item.elementSize.toNat * index.toNat ≤ item.extent := Nat.mul_le_mul_left _ (BitVec.lt_def.mp hindex).le
  rw [TraceDatabase.elementAddr, BitVec.toNat_mul, Nat.mod_eq_of_lt (by omega), FieldInfo.element]

/-- The bits after `update_signal_bit`, on an element of at most 4 bytes. -/
theorem write_bit (row : Nat → Byte) (addr : Nat) {n : Nat} (hn : n ≤ 4) (value : BitVec 64) {k : Word}
    (hk : k.toNat < 8 * n) (a : Nat) {j : Nat} (hj : j < 8) :
    (memcpy row addr (byteAt (o.replaceBit (load row addr n) value k)) n a).getLsbD j =
      if a = addr + k.toNat / 8 ∧ j = k.toNat % 8 then value.getLsbD 0 else (row a).getLsbD j := by
  rw [memcpy]
  split_ifs with hin hbit hbit
  · have hi : 8 * (a - addr) + j = k.toNat := by omega
    rw [getLsbD_byteAt _ _ hj, hi, getLsbD_replaceBit o _ _ (by omega) (by omega), if_pos (by omega)]
    simp
  · have hi : 8 * (a - addr) + j ≠ k.toNat := by omega
    rw [getLsbD_byteAt _ _ hj, getLsbD_replaceBit o _ _ (by omega) (by omega), if_pos (by omega),
      getLsbD_load _ _ _ (by omega), show addr + (8 * (a - addr) + j) / 8 = a by omega,
      show (8 * (a - addr) + j) % 8 = j by omega]
    simp [hi, show 8 * (a - addr) + j < 8 * n by omega]
  · omega
  · rfl

/-- One bit of the row. -/
theorem write_bitmap (row : Nat → Byte) (addr : Nat) (value : Byte) (k a : Nat) {j : Nat} (hj : j < 8) :
    (Function.update row (addr + k / 8) (replaceBitmapBit (row (addr + k / 8)) value (k % 8)) a).getLsbD j =
      if a = addr + k / 8 ∧ j = k % 8 then value.getLsbD 0 else (row a).getLsbD j := by
  by_cases ha : a = addr + k / 8
  · rw [ha, Function.update_self, getLsbD_replaceBitmapBit _ _ (Nat.mod_lt k (by decide)) hj]
    simp
  · rw [Function.update_of_ne ha, if_neg (fun h => ha h.1)]

/-- The effect of an update on a database whose signals fit. -/
theorem OnOk.effect (h : OnOk marks db) (hfit : totalBytes marks < 2 ^ 32) (hfits : ∀ m ∈ marks, m.Fits)
    (hu : db.update o u = some db') : Effect db u db' := by
  obtain ⟨hbind, hindex, haccepts, rfl⟩ := (update_eq_some h.tracing).mp hu
  obtain ⟨m, hm, hdomain, hname, hfree⟩ := (h.free_iff u.domain u.name).mp hbind
  obtain ⟨offset, hfield⟩ := h.field m hm
  rw [hdomain, hname] at hfield
  rw [Effect, hfield]
  rw [hfield] at hindex haccepts
  -- no element lies beyond the fields, so addresses do not wrap
  have haddr : TraceDatabase.elementAddr { m.info with offset := offset } u.index = _ :=
    elementAddr_eq ((extent_le_totalBytes hm).trans_lt hfit) hindex
  obtain hnone | ⟨hbits, hsize, -⟩ := (fits_iff hfree).mp (hfits m hm)
  · simp [hnone] at hindex
  · obtain ⟨domain, name, index, action⟩ := u
    cases action with
    | raw buf =>
      refine ⟨_, rfl, fun a => ?_⟩
      rw [← haddr]
      rfl
    | signal t value =>
      refine ⟨_, rfl, fun a => ?_⟩
      rw [← haddr]
      rfl
    | bit t value bitIndex =>
      obtain ⟨hunit, hbit⟩ := haccepts
      have hk : bitIndex.toNat < 8 * m.info.elementSize.toNat := (BitVec.lt_def.mp hbit).trans_le hbits
      have hsmall : t.bytes ≤ 4 := by
        cases t with
        | uint64 => exact absurd (BitVec.eq_of_toNat_eq hunit) hsize
        | _ => decide
      refine ⟨hk, _, rfl, fun a j hj => ?_⟩
      rw [← haddr]
      exact write_bit _ _ hsmall _ (hunit ▸ hk) a hj
    | bitmap value bitIndex =>
      refine ⟨(BitVec.lt_def.mp haccepts).trans_le hbits, _, rfl, fun a j hj => ?_⟩
      rw [← haddr]
      exact write_bitmap _ _ _ _ _ hj
    | bitmapAll value =>
      refine ⟨_, rfl, fun a => ?_⟩
      rw [← haddr]
      rfl

/-- `update_signal_bit` accepts the bits of an element. -/
theorem OnOk.bits (h : OnOk marks db) (hfits : ∀ m ∈ marks, m.Fits) (hm : m ∈ marks) (hfree : m.isBound = false)
    {t : UnitType} (hunit : m.info.elementSize.toNat = t.bytes) {index : Word} (hindex : index < m.info.elementNum)
    (value : BitVec 64) (bitIndex : Word) :
    (db.updateSignalBit o t m.domain m.name value bitIndex index).isSome = true ↔ bitIndex.toNat < m.elementBits := by
  have hiff := h.update_isSome_iff (o := o) hm hfree index (.bit t value bitIndex)
  obtain hnone | ⟨-, -, hbits⟩ := (fits_iff hfree).mp (hfits m hm)
  · simp [hnone] at hindex
  · rw [← hbits ⟨t, hunit⟩, ← BitVec.lt_def]
    exact hiff.trans ⟨fun ⟨_, _, hbit⟩ => hbit, fun hbit => ⟨hindex, hunit, hbit⟩⟩

end Effect

section Broken

variable {o : Overshift} {marks : List Mark} {db : TraceDatabase} {m : Mark}

theorem Framed.totalBytes_lt (hframed : Framed o marks db) (h : OnOk marks db) : totalBytes marks < 2 ^ 32 := by
  have hlen := hframed.tiles.length_eq
  have hextent (item : FieldInfo) : item.bytes.length = item.extent := List.length_range'
  simp only [List.length_range, List.length_flatMap, hextent] at hlen
  rw [← h.extents, hlen]
  exact db.rowSize.isLt

/-- An update of the first element that is accepted, and its effect. -/
theorem Framed.update (hframed : Framed o marks db) (h : OnOk marks db) (hm : m ∈ marks) (hfree : m.isBound = false)
    (hsome : m.info.elementNum ≠ 0) {db₁ : TraceDatabase} (hreach : db.Reached o db₁) (action : Action)
    (haccepts : action.Accepts m.info) : ∃ db₂, db₁.update o ⟨m.domain, m.name, 0, action⟩ = some db₂ ∧
      Effect db₁ ⟨m.domain, m.name, 0, action⟩ db₂ := by
  have hpos : 0 < m.info.elementNum := BitVec.lt_def.mpr (Nat.pos_of_ne_zero fun h => hsome (BitVec.eq_of_toNat_eq h))
  have hisSome := ((h.reached hreach).update_isSome_iff (o := o) hm hfree 0 action).mpr ⟨hpos, haccepts⟩
  obtain ⟨db₂, hu⟩ := Option.isSome_iff_exists.mp hisSome
  exact ⟨db₂, hu, hframed.effect db₁ hreach _ db₂ hu⟩

/-- An element has room for its bits: `update_signal_bitmap` would leave it otherwise. -/
theorem Framed.bitsize_le (hframed : Framed o marks db) (h : OnOk marks db) (hm : m ∈ marks) (hfree : m.isBound = false)
    (hsome : m.info.elementNum ≠ 0) : m.info.elementBitsize.toNat ≤ 8 * m.info.elementSize.toNat := by
  by_contra hlt
  have hk : (BitVec.ofNat 32 (8 * m.info.elementSize.toNat)).toNat = 8 * m.info.elementSize.toNat := by
    rw [BitVec.toNat_ofNat]
    omega
  obtain ⟨db₁, -, hin, -⟩ := hframed.update h hm hfree hsome .refl
    (.bitmap 0 (BitVec.ofNat 32 (8 * m.info.elementSize.toNat))) (BitVec.lt_def.mpr (by omega))
  obtain ⟨offset, hfield⟩ := h.field m hm
  rw [hfield, hk] at hin
  exact lt_irrefl _ hin

/-- The bits that `update_signal_bit` accepts are counted by `elementBitsize`. -/
theorem Framed.bitsize_eq (hframed : Framed o marks db) (h : OnOk marks db) (hm : m ∈ marks) (hfree : m.isBound = false)
    (hsome : m.info.elementNum ≠ 0) {t : UnitType} (hunit : m.info.elementSize.toNat = t.bytes) :
    m.info.elementBitsize.toNat = m.elementBits := by
  have hpos : 0 < m.info.elementNum := BitVec.lt_def.mpr (Nat.pos_of_ne_zero fun h => hsome (BitVec.eq_of_toNat_eq h))
  have hiff (k : Word) : k < m.info.elementBitsize ↔ k.toNat < m.elementBits := by
    rw [← hframed.bits db .refl m hm hfree t hunit 0 hpos 0 k]
    refine Iff.trans ?_ (h.update_isSome_iff hm hfree 0 (.bit t 0 k)).symm
    exact ⟨fun hbit => ⟨hpos, hunit, hbit⟩, fun ⟨_, _, hbit⟩ => hbit⟩
  have hself := hiff m.info.elementBitsize
  refine le_antisymm (Nat.le_of_not_lt fun hlt => ?_) (Nat.le_of_not_lt fun hlt => ?_)
  · have hlast := hiff (BitVec.ofNat 32 m.elementBits)
    rw [BitVec.lt_def, BitVec.toNat_ofNat, Nat.mod_eq_of_lt (by omega)] at hlast
    exact lt_irrefl _ (hlast.mp hlt)
  · exact BitVec.lt_irrefl _ (hself.mpr hlt)

/-- In an 8-byte element the mask of bit 31 has no upper half. -/
theorem write_bit_31 (row : Nat → Byte) (addr : Nat) :
    (memcpy row addr (byteAt (o.replaceBit (load row addr 8) 0 31)) 8 (addr + 4)).getLsbD 0 = false := by
  rw [memcpy, if_pos (by omega), getLsbD_byteAt _ _ (by decide), Nat.add_sub_cancel_left,
    getLsbD_replaceBit o _ _ (by decide) (by decide)]
  simp

/-- 8-byte elements are not framed: clearing bit 31 clears bit 32. -/
theorem Framed.elementSize_ne (hframed : Framed o marks db) (h : OnOk marks db) (hm : m ∈ marks)
    (hfree : m.isBound = false) (hsome : m.info.elementNum ≠ 0) : m.info.elementSize ≠ 8 := by
  intro hsize
  have hunit : m.info.elementSize.toNat = UnitType.uint64.bytes := congrArg BitVec.toNat hsize
  have heq := hframed.bitsize_eq h hm hfree hsome hunit
  have hbit : (31 : Word) < m.info.elementBitsize := by
    refine BitVec.lt_def.mpr ?_
    rw [heq, show BitVec.toNat (31 : Word) = 31 from rfl]
    obtain ⟨domain, name, kind⟩ := m
    cases kind with
    | signal elementSize elementNum =>
      change elementSize.toNat = 8 at hunit
      show 31 < 8 * elementSize.toNat
      omega
    | bitmap bitNum elementNum =>
      change ((bitNum + 8 - 1) / 8).toNat = 8 at hunit
      show 31 < bitNum.toNat
      rw [BitVec.toNat_udiv, BitVec.toNat_sub, BitVec.toNat_add] at hunit
      simp at hunit
      omega
    | bound elementSize elementNum => cases hfree
  -- All bits of the element are set, and then bit 31 is cleared.
  obtain ⟨db₁, hfill, -⟩ := hframed.update h hm hfree hsome .refl (.bitmapAll 1) trivial
  have hreach : db.Reached o db₁ := .update .refl hfill
  obtain ⟨db₂, hclear, -, row, hrow, hbits⟩ := hframed.update h hm hfree hsome hreach
    (.bit .uint64 0 31) ⟨hunit, hbit⟩
  obtain ⟨-, -, -, rfl⟩ := (update_eq_some h.tracing).mp hfill
  obtain ⟨-, -, -, rfl⟩ := (update_eq_some (h.reached hreach).tracing).mp hclear
  obtain rfl := congrArg TraceDatabase.rowBuffer hrow
  obtain ⟨offset, hfield⟩ := h.field m hm
  have hupper := hbits (TraceDatabase.elementAddr (db.field m.domain m.name) 0 + 4) 0 (by decide)
  have hfull : Action.write o db.rowBuffer (db.field m.domain m.name) 0 (.bitmapAll 1)
      (TraceDatabase.elementAddr (db.field m.domain m.name) 0 + 4) = 0xff := by
    rw [Action.write, memcpy, hfield]
    exact if_pos (by rw [hsize, show BitVec.toNat (8 : Word) = 8 from rfl]; omega)
  rw [if_neg (fun hbit => absurd hbit.2 (by decide))] at hupper
  have hset : false = (0xff : Byte).getLsbD 0 :=
    (write_bit_31 _ _).symm.trans (hupper.trans (congrArg (·.getLsbD 0) hfull))
  exact absurd hset (by decide)

end Broken

/-- A row is framed exactly when its size fits in 32 bits and every marked signal fits: an unbound signal with elements
has as many of them as each has bytes, if an update can address its bits, those are not 8 bytes, and the bits that
`update_signal_bitmap` accepts lie in the element. -/
theorem trace_rows (o : Overshift) {heap : Nat → Byte} {marks : List Mark} {db : TraceDatabase}
    (h : traced heap marks = some db) :
    Framed o marks db ↔ totalBytes marks < 2 ^ 32 ∧ ∀ m ∈ marks, m.Fits := by
  have hon := traced_ok h
  constructor
  · intro hframed
    refine ⟨hframed.totalBytes_lt hon, fun m hm => ?_⟩
    cases hfree : m.isBound with
    | true =>
      obtain ⟨domain, name, kind⟩ := m
      cases kind with
      | bound elementSize elementNum => trivial
      | _ => cases hfree
    | false =>
      refine (fits_iff hfree).mpr (or_iff_not_imp_left.mpr fun hsome => ?_)
      exact ⟨hframed.bitsize_le hon hm hfree hsome, hframed.elementSize_ne hon hm hfree hsome,
        fun ⟨_, hunit⟩ => hframed.bitsize_eq hon hm hfree hsome hunit⟩
  · rintro ⟨hfit, hfits⟩
    exact ⟨hon.tiles hfit, fun db₁ hreach u db₂ hu => (hon.reached hreach).effect hfit hfits hu,
      fun db₁ hreach m hm hfree t hunit index hindex value bitIndex =>
        (hon.reached hreach).bits hfits hm hfree hunit hindex value bitIndex⟩

/-- Shifts that take the shift amount modulo the width. -/
def Overshift.masked : Overshift where
  int k := (1 : BitVec 32) <<< (k.toNat % 32)
  long v k := v <<< (k.toNat % 64)

/-- Three signals that fit. -/
def fittingMarks : List Mark :=
  [⟨.input, "pc", .signal 4 4⟩, ⟨.output, "valid", .bitmap 12 3⟩, ⟨.status, "clock", .bound 8 1⟩]

theorem trace_rows_fittingMarks :
    ∃ db, traced (fun _ => 0) fittingMarks = some db ∧ Framed .masked fittingMarks db := by
  have htraced : (traced (fun _ => 0) fittingMarks).isSome = true := by decide +kernel
  obtain ⟨db, hdb⟩ := Option.isSome_iff_exists.mp htraced
  refine ⟨db, hdb, (trace_rows .masked hdb).mpr ⟨by decide, ?_⟩⟩
  intro m hm
  obtain rfl | rfl | rfl := by simpa only [fittingMarks, List.mem_cons, List.not_mem_nil, or_false] using hm
  · exact .inr ⟨fun _ => rfl, by decide, by decide⟩
  · exact .inr ⟨by decide, by decide⟩
  · trivial

/-- The rename stage marks four 16-bit checkpoint identifiers. A bit update of the first accepts bit 16, which is not a
bit of it, and through the bitmap function that bit is one of the second. -/
theorem cpbufId_not_framed :
    ∃ db, traced (fun _ => 0) [⟨.output, "rename_cpbuf_id", .signal 2 4⟩] = some db ∧
      (db.updateSignalBit .masked .uint16 .output "rename_cpbuf_id" 1 16 0).isSome = true ∧
      db.rowBuffer 2 = 0 ∧
      (∃ db', db.updateSignalBitmap .output "rename_cpbuf_id" 1 16 0 = some db' ∧ db'.rowBuffer 2 = 1) ∧
      ¬ Framed .masked [⟨.output, "rename_cpbuf_id", .signal 2 4⟩] db := by
  have hrun : (traced (fun _ => 0) [⟨.output, "rename_cpbuf_id", .signal 2 4⟩]).any (fun db =>
      (db.updateSignalBit .masked .uint16 .output "rename_cpbuf_id" 1 16 0).isSome && decide (db.rowBuffer 2 = 0) &&
        (db.updateSignalBitmap .output "rename_cpbuf_id" 1 16 0).any fun db' => decide (db'.rowBuffer 2 = 1)) = true := by
    decide +kernel
  obtain ⟨db, hdb, hcalls⟩ := (Option.any_eq_true _ _).mp hrun
  rw [Bool.and_eq_true, Bool.and_eq_true] at hcalls
  obtain ⟨⟨hbit, hzero⟩, hbitmap⟩ := hcalls
  obtain ⟨db', hdb', hone⟩ := (Option.any_eq_true _ _).mp hbitmap
  refine ⟨db, hdb, hbit, of_decide_eq_true hzero, ⟨db', hdb', of_decide_eq_true hone⟩, fun hframed => ?_⟩
  have hbits := hframed.bits db .refl _ List.mem_cons_self rfl .uint16 rfl 0 (by decide) 1 16
  exact absurd (hbits.mp hbit) (by decide)

end MyRiscvCore.Trace
