import MyRiscvCore.Basic

/-!
# MyRiscvCore — the trace database

`tools/trace/trace.cpp`: every component marks its signals in three domains, `write_metainfo` gives each field its place
in a row, and from then on the stages update the row in memory, element by element or bit by bit.

All sizes and indices are `uint32_t` and wrap around; addresses into the row do not. The row is the beginning of
`rowBuffer`, which goes on with whatever lies behind it in memory, so that an update which leaves the row is seen. A
violated `debug_assert` aborts: the answer is `none`. Left out are the file that the header and the rows are written
to, and the signals' bound buffers, of which only is kept whether there is one.
-/

namespace MyRiscvCore.Trace

/-- `FIELDNAME_LENGTH`. -/
abbrev fieldnameLength : Nat := 255

/-- `domain_t`. -/
inductive Domain
  | input | output | status
  deriving DecidableEq

/-- `fieldinfo_t`. -/
structure FieldInfo where
  name : String
  offset : Word
  size : Word
  elementBitsize : Word
  elementSize : Word
  elementNum : Word
  deriving Inhabited

/-- The lists and maps of one domain. `bindList` answers whether a name is marked, and then whether a buffer is
bound to it. -/
structure DomainTable where
  fieldidMap : String → Nat
  bindList : String → Option Bool
  fieldinfoList : List FieldInfo

structure TraceDatabase where
  isEnabled : Bool
  isTracing : Bool
  isOpen : Bool
  metainfoOk : Bool
  tables : Domain → DomainTable
  rowSize : Word
  rowBuffer : Nat → Byte

/-! ## Memory -/

/-- `memcpy(dst, src, n)`. -/
def memcpy (mem : Nat → Byte) (dst : Nat) (src : Nat → Byte) (n : Nat) : Nat → Byte :=
  fun a => if dst ≤ a ∧ a < dst + n then src (a - dst) else mem a

/-- Byte `i` of a value in memory; the host is little endian. -/
def byteAt (value : BitVec 64) (i : Nat) : Byte := value.extractLsb' (8 * i) 8

/-- The value of the `n` bytes at `a`. -/
def load (mem : Nat → Byte) (a : Nat) : Nat → BitVec 64
  | 0 => 0
  | n + 1 => (load mem (a + 1) n <<< 8) ||| (mem a).setWidth 64

/-- The types that the update templates are instantiated with. -/
inductive UnitType
  | uint8 | uint16 | uint32 | uint64
  deriving DecidableEq

/-- `sizeof(T)`. -/
def UnitType.bytes : UnitType → Nat
  | uint8 => 1
  | uint16 => 2
  | uint32 => 4
  | uint64 => 8

/-- What shifts by at least the width of their operand leave, on which the language says nothing: `1 << k` of an `int`
and `v << k` of a `uint64_t`. -/
structure Overshift where
  int : Word → BitVec 32
  long : BitVec 64 → Word → BitVec 64

namespace Overshift

/-- `1 << k`. -/
def one (o : Overshift) (k : Word) : BitVec 32 := if k.toNat < 32 then (1 : BitVec 32) <<< k.toNat else o.int k

/-- `v << k` of a `uint64_t`. -/
def shl (o : Overshift) (v : BitVec 64) (k : Word) : BitVec 64 := if k.toNat < 64 then v <<< k.toNat else o.long v k

/-- `(stored & (~(1 << k))) | ((value & 0x01) << k)`: the complement is one of an `int`, which a wider operand extends
by its sign. -/
def replaceBit (o : Overshift) (stored value : BitVec 64) (k : Word) : BitVec 64 :=
  (stored &&& (~~~(o.one k)).signExtend 64) ||| o.shl (value &&& 1) k

end Overshift

/-- The same for a byte, whose bit index is below 8. -/
def replaceBitmapBit (stored value : Byte) (k : Nat) : Byte :=
  ((stored.setWidth 32 &&& ~~~((1 : BitVec 32) <<< k)) ||| ((value.setWidth 32 &&& 1) <<< k)).setWidth 8

namespace TraceDatabase

/-- The constructor; `isEnabled` is one of the flags of `config.h`. -/
def new (isEnabled : Bool) : TraceDatabase where
  isEnabled := isEnabled
  isTracing := false
  isOpen := false
  metainfoOk := false
  tables := fun _ => ⟨fun _ => 0, fun _ => none, []⟩
  rowSize := 0
  rowBuffer := fun _ => 0

/-- `create`; `opened` is whether the file could be opened. -/
def create (db : TraceDatabase) (opened : Bool) : Option TraceDatabase :=
  if db.isEnabled then do
    guard opened
    return { db with
      isOpen := opened, isTracing := false, metainfoOk := false
      tables := fun _ => ⟨fun _ => 0, fun _ => none, []⟩ }
  else some db

/-! ## Marking -/

/-- What the three marking functions share: the name has to be new in its domain and short enough. -/
def mark (db : TraceDatabase) (domain : Domain) (info : FieldInfo) (bound : Bool) : Option TraceDatabase :=
  if db.isEnabled then do
    let t := db.tables domain
    guard (t.bindList info.name = none)
    guard (info.name.utf8ByteSize ≤ fieldnameLength)
    return { db with
      tables := Function.update db.tables domain {
        fieldidMap := Function.update t.fieldidMap info.name t.fieldinfoList.length
        bindList := Function.update t.bindList info.name (some bound)
        fieldinfoList := t.fieldinfoList ++ [info] } }
  else some db

/-- The field of `mark_signal`: `element_bitsize` is computed from the number of elements. -/
def signalInfo (name : String) (elementSize elementNum : Word) : FieldInfo where
  name := name
  offset := 0
  size := elementSize * elementNum
  elementBitsize := elementNum * 8
  elementSize := elementSize
  elementNum := elementNum

/-- The field of `mark_signal_bitmap`. -/
def bitmapInfo (name : String) (bitNum elementNum : Word) : FieldInfo :=
  let elementSize := (bitNum + 8 - 1) / 8
  { name := name
    offset := 0
    size := elementSize * elementNum
    elementBitsize := bitNum
    elementSize := elementSize
    elementNum := elementNum }

/-- `mark_signal`. -/
def markSignal (db : TraceDatabase) (domain : Domain) (name : String) (elementSize elementNum : Word) :
    Option TraceDatabase :=
  db.mark domain (signalInfo name elementSize elementNum) false

/-- `mark_signal_bitmap`. -/
def markSignalBitmap (db : TraceDatabase) (domain : Domain) (name : String) (bitNum elementNum : Word) :
    Option TraceDatabase :=
  db.mark domain (bitmapInfo name bitNum elementNum) false

/-- `bind_signal`. -/
def bindSignal (db : TraceDatabase) (domain : Domain) (name : String) (elementSize elementNum : Word) :
    Option TraceDatabase :=
  db.mark domain (signalInfo name elementSize elementNum) true

/-- The loop of `write_metainfo` over the fields of a domain, from row size `rowSize` on. -/
def layOut (rowSize : Word) : List FieldInfo → List FieldInfo × Word
  | [] => ([], rowSize)
  | item :: rest =>
    let (rest, rowSize') := layOut (rowSize + item.size) rest
    ({ item with offset := rowSize } :: rest, rowSize')

/-- `write_metainfo`; `heap` is what lies at the address that the row gets. -/
def writeMetainfo (db : TraceDatabase) (heap : Nat → Byte) : Option TraceDatabase :=
  if db.isEnabled then do
    guard (!db.metainfoOk)
    let input := layOut 0 (db.tables .input).fieldinfoList
    let output := layOut input.2 (db.tables .output).fieldinfoList
    let status := layOut output.2 (db.tables .status).fieldinfoList
    let placed := fun
      | .input => input.1
      | .output => output.1
      | .status => status.1
    return { db with
      tables := fun domain => { db.tables domain with fieldinfoList := placed domain }
      rowSize := status.2
      rowBuffer := memcpy heap 0 (fun _ => 0) status.2.toNat
      metainfoOk := true }
  else some db

/-- `trace_on`. -/
def traceOn (db : TraceDatabase) : Option TraceDatabase :=
  if db.isEnabled then do
    guard (db.isOpen && db.metainfoOk)
    return { db with isTracing := true }
  else some db

/-! ## Updates -/

/-- `fieldinfo_list[fieldid_map[name]]`. -/
def field (db : TraceDatabase) (domain : Domain) (name : String) : FieldInfo :=
  ((db.tables domain).fieldinfoList[(db.tables domain).fieldidMap name]?).getD default

/-- `row_buffer + item.offset + item.element_size * index`. -/
def elementAddr (item : FieldInfo) (index : Word) : Nat :=
  item.offset.toNat + (item.elementSize * index).toNat

/-- The assertions that all updates make: the name is marked and not bound, and the index is one of an element. -/
def checked (db : TraceDatabase) (domain : Domain) (name : String) (index : Word) : Option FieldInfo := do
  guard ((db.tables domain).bindList name).isSome
  guard ((db.tables domain).bindList name = some false)
  let item := db.field domain name
  guard (index < item.elementNum)
  return item

/-- `update_signal_raw`; the `void *` overload of `update_signal_bitmap` is the same. -/
def updateSignalRaw (db : TraceDatabase) (domain : Domain) (name : String) (buf : Nat → Byte) (index : Word) :
    Option TraceDatabase :=
  if db.isTracing then do
    let item ← db.checked domain name index
    return { db with rowBuffer := memcpy db.rowBuffer (elementAddr item index) buf item.elementSize.toNat }
  else some db

/-- `update_signal<T>`. -/
def updateSignal (db : TraceDatabase) (t : UnitType) (domain : Domain) (name : String) (value : BitVec 64)
    (index : Word) : Option TraceDatabase :=
  if db.isTracing then do
    guard ((db.tables domain).bindList name).isSome
    guard ((db.field domain name).elementSize.toNat = t.bytes)
    db.updateSignalRaw domain name (byteAt value) index
  else some db

/-- `update_signal_bit<T>`. -/
def updateSignalBit (o : Overshift) (db : TraceDatabase) (t : UnitType) (domain : Domain) (name : String)
    (value : BitVec 64) (bitIndex index : Word) : Option TraceDatabase :=
  if db.isTracing then do
    let item ← db.checked domain name index
    guard (item.elementSize.toNat = t.bytes)
    guard (bitIndex < item.elementBitsize)
    let addr := elementAddr item index
    let stored := load db.rowBuffer addr t.bytes
    return { db with rowBuffer := memcpy db.rowBuffer addr (byteAt (o.replaceBit stored value bitIndex)) t.bytes }
  else some db

/-- `update_signal_bitmap` of one bit. -/
def updateSignalBitmap (db : TraceDatabase) (domain : Domain) (name : String) (value : Byte) (bitIndex index : Word) :
    Option TraceDatabase :=
  if db.isTracing then do
    let item ← db.checked domain name index
    guard (bitIndex < item.elementBitsize)
    let groupIndex := bitIndex.toNat / 8
    let groupBitIndex := bitIndex.toNat % 8
    let addr := elementAddr item index + groupIndex
    let stored := replaceBitmapBit (db.rowBuffer addr) value groupBitIndex
    return { db with rowBuffer := Function.update db.rowBuffer addr stored }
  else some db

/-- `update_signal_bitmap_all`. -/
def updateSignalBitmapAll (db : TraceDatabase) (domain : Domain) (name : String) (value : Byte) (index : Word) :
    Option TraceDatabase :=
  if db.isTracing then do
    let item ← db.checked domain name index
    let fill : Byte := if value = 0 then 0 else 0xff
    return { db with
      rowBuffer := memcpy db.rowBuffer (elementAddr item index) (fun _ => fill) item.elementSize.toNat }
  else some db

/-- `write_row`: the row goes to the file and is cleared. -/
def writeRow (db : TraceDatabase) : Option TraceDatabase :=
  if db.isEnabled then do
    guard db.metainfoOk
    if db.isTracing then
      return { db with rowBuffer := memcpy db.rowBuffer 0 (fun _ => 0) db.rowSize.toNat }
    else
      return db
  else some db

end TraceDatabase

end MyRiscvCore.Trace
