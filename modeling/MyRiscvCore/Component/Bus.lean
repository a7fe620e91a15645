import MyRiscvCore.Component.Csr

/-!
# MyRiscvCore — bus, memory slave, and CLINT

`bus.h`, `slave_base.h`, `slave/memory.h` and `slave/clint.h`. The bus decodes an address to one of
the mapped slaves and hands it the offset; an address no slave maps reads as 0 and ignores writes.
Before an access a slave checks alignment and bounds by assertion, so a misaligned access to a
mapped address aborts the simulation while one to an unmapped address does not.
-/

namespace MyRiscvCore

/-- The slaves that `init` of `main.cpp` maps. -/
inductive Slave
  | memory | clint
  deriving DecidableEq

/-- `slave_info_t`. -/
structure SlaveInfo where
  base : Word
  size : Word
  slave : Slave
  deriving DecidableEq

/-- `slave_info_list` after the `bus.map` calls of `init`. -/
def slaveInfoList : List SlaveInfo :=
  [⟨0x80000000, 1048576, .memory⟩, ⟨0x20000000, 0x10000, .clint⟩]

/-- `find_slave_info`: the first region that contains `addr`. -/
def findSlaveInfo (slaves : List SlaveInfo) (addr : Word) : Option SlaveInfo :=
  slaves.find? fun info => addr ≥ info.base && addr < info.base + info.size

/-- `convert_to_slave_addr`: the offset in the region that contains `addr`, or `addr` itself. -/
def convertToSlaveAddr (slaves : List SlaveInfo) (addr : Word) : Word :=
  match findSlaveInfo slaves addr with
  | some info => addr - info.base
  | none => addr

/-- `check_addr_override`: whether a region meets one that is mapped already. -/
def checkAddrOverride (slaves : List SlaveInfo) (base size : Word) : Bool :=
  slaves.any fun info => (base ≥ info.base && base < info.base + info.size)
    || (base < info.base && base + size > info.base)

/-- `map`. -/
def mapSlave (slaves : List SlaveInfo) (base size : Word) (slave : Slave) : Except Halt (List SlaveInfo) := do
  assert .bus (!checkAddrOverride slaves base size)
  return slaves ++ [⟨base, size, slave⟩]

/-! ## CLINT -/

structure Clint where
  msip : Bool
  mtimecmp : BitVec 64
  mtime : BitVec 64
  deriving DecidableEq

namespace Clint

abbrev msipAddr : Word := 0x0
abbrev mtimecmpAddr : Word := 0x4000
abbrev mtimeAddr : Word := 0xBFF8

def reset : Clint := ⟨false, 0, 0⟩

def setLow (x : BitVec 64) (value : Word) : BitVec 64 :=
  (x &&& 0xFFFFFFFF00000000) ||| value.setWidth 64

def setHigh (x : BitVec 64) (value : Word) : BitVec 64 :=
  (x &&& 0xFFFFFFFF) ||| (value.setWidth 64 <<< 32)

/-- `_write32`. -/
def write32 (c : Clint) (addr value : Word) : Clint :=
  if addr = msipAddr then { c with msip := value &&& 1 != 0 }
  else if addr = mtimecmpAddr then { c with mtimecmp := setLow c.mtimecmp value }
  else if addr = mtimecmpAddr + 4 then { c with mtimecmp := setHigh c.mtimecmp value }
  else if addr = mtimeAddr then { c with mtime := setLow c.mtime value }
  else if addr = mtimeAddr + 4 then { c with mtime := setHigh c.mtime value }
  else c

/-- `_read32`. -/
def read32 (c : Clint) (addr : Word) : Word :=
  if addr = msipAddr then (if c.msip then 1 else 0)
  else if addr = mtimecmpAddr then c.mtimecmp.setWidth 32
  else if addr = mtimecmpAddr + 4 then (c.mtimecmp >>> 32).setWidth 32
  else if addr = mtimeAddr then c.mtime.setWidth 32
  else if addr = mtimeAddr + 4 then (c.mtime >>> 32).setWidth 32
  else 0

/-- `run_pre`: raise or lower the timer and software lines. -/
def runPre (c : Clint) (ii : InterruptInterface) : InterruptInterface :=
  { ii with mtip := c.mtime ≥ c.mtimecmp, msip := c.msip }

/-- `run_post`. -/
def runPost (c : Clint) : Clint :=
  { c with mtime := c.mtime + 1 }

end Clint

/-! ## Memory slave -/

/-- Access widths. -/
inductive AccessSize
  | byte | half | word
  deriving DecidableEq, Inhabited

/-- The width in bytes. -/
def AccessSize.bytes : AccessSize → Nat
  | byte => 1
  | half => 2
  | word => 4

/-- The memory array, by offset. -/
abbrev Memory := Nat → Byte

/-- `_read8`, `_read16`, `_read32` of the memory slave: little-endian. -/
def Memory.read (mem : Memory) (addr : Nat) : AccessSize → Word
  | .byte => (mem addr).setWidth 32
  | .half => (mem (addr + 1) ++ mem addr).setWidth 32
  | .word => mem (addr + 3) ++ mem (addr + 2) ++ mem (addr + 1) ++ mem addr

/-- Byte `k` of a word. -/
def byteOf (value : Word) (k : Nat) : Byte :=
  value.extractLsb' (8 * k) 8

/-- `_write8`, `_write16`, `_write32` of the memory slave: little-endian. -/
def Memory.write (mem : Memory) (addr : Nat) (size : AccessSize) (value : Word) : Memory :=
  fun i => if addr ≤ i ∧ i < addr + size.bytes then byteOf value (i - addr) else mem i

/-! ## Bus -/

structure Bus where
  memory : Memory
  clint : Clint

namespace Bus

/-- `check_align`. -/
def checkAlign (addr : Word) (size : AccessSize) : Bool :=
  isAlign addr (BitVec.ofNat 32 size.bytes)

/-- `slave_base::check` outside test mode: alignment and bounds of the offset. -/
def slaveCheck (info : SlaveInfo) (offset : Word) (size : AccessSize) : Except Halt Unit := do
  assert .slaveBase (isAlign offset (BitVec.ofNat 32 size.bytes))
  assert .slaveBase (offset < info.size)
  assert .slaveBase (info.size - offset ≥ BitVec.ofNat 32 size.bytes)

/-- `read8`, `read16`, `read32`, zero-extended. The CLINT answers 0 to the narrow ones. -/
def read (b : Bus) (addr : Word) (size : AccessSize) : Except Halt Word :=
  match findSlaveInfo slaveInfoList addr with
  | none => .ok 0
  | some info => do
    let offset := addr - info.base
    slaveCheck info offset size
    match info.slave, size with
    | .memory, size => return b.memory.read offset.toNat size
    | .clint, .word => return b.clint.read32 offset
    | .clint, _ => return 0

def read8 (b : Bus) (addr : Word) : Except Halt Word := b.read addr .byte
def read16 (b : Bus) (addr : Word) : Except Halt Word := b.read addr .half
def read32 (b : Bus) (addr : Word) : Except Halt Word := b.read addr .word

/-- `write8`, `write16`, `write32`; only the low bytes of `value` are written. The CLINT ignores
the narrow ones. -/
def write (b : Bus) (addr : Word) (size : AccessSize) (value : Word) : Except Halt Bus :=
  match findSlaveInfo slaveInfoList addr with
  | none => .ok b
  | some info => do
    let offset := addr - info.base
    slaveCheck info offset size
    match info.slave, size with
    | .memory, size => return { b with memory := b.memory.write offset.toNat size value }
    | .clint, .word => return { b with clint := b.clint.write32 offset value }
    | .clint, _ => return b

/-- A `write8_sync`, `write16_sync` or `write32_sync` request. -/
structure Request where
  addr : Word
  size : AccessSize
  data : Word
  deriving DecidableEq

/-- `sync`: the queued writes, in order. -/
def sync (b : Bus) (requests : List Request) : Except Halt Bus :=
  requests.foldlM (fun b r => b.write r.addr r.size r.data) b

end Bus

end MyRiscvCore
