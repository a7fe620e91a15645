import MyRiscvCore.Basic

/-!
# MyRiscvCore — control and status registers, and the interrupt interface

`csrfile.h` with the registers under `component/csr`, and `interrupt_interface.h`.

* `csrMapTable` is the table the `csr_file.map` calls of `main.cpp` build: which addresses exist,
  which are read-only, what value they start with and which bits a write keeps (`filter`).
* `charfifo` is the one register whose read and write touch something else: the two queues shared
  with the terminal. Its `filter` loops until the queue operation succeeds; a write that finds the
  queue unable to serve it does not return (`Halt.charfifo`).
* Writes are queued during the cycle and applied by `sync`.
-/

namespace MyRiscvCore

/-! ## Addresses (`csr_all.h`) -/

abbrev csrMvendorid : Nat := 0xf11
abbrev csrMarchid : Nat := 0xf12
abbrev csrMimpid : Nat := 0xf13
abbrev csrMhartid : Nat := 0xf14
abbrev csrMconfigptr : Nat := 0xf15
abbrev csrMstatus : Nat := 0x300
abbrev csrMisa : Nat := 0x301
abbrev csrMie : Nat := 0x304
abbrev csrMtvec : Nat := 0x305
abbrev csrMcounteren : Nat := 0x306
abbrev csrMstatush : Nat := 0x310
abbrev csrMscratch : Nat := 0x340
abbrev csrMepc : Nat := 0x341
abbrev csrMcause : Nat := 0x342
abbrev csrMtval : Nat := 0x343
abbrev csrMip : Nat := 0x344
abbrev csrCharfifo : Nat := 0x800
abbrev csrFinish : Nat := 0x804
abbrev csrMcycle : Nat := 0xB00
abbrev csrMinstret : Nat := 0xB02
abbrev csrMcycleh : Nat := 0xB80
abbrev csrMinstreth : Nat := 0xB82
/-- `CSR_BRANCHNUM`; the other performance counters follow it up to `CSR_FNF`. -/
abbrev csrBranchnum : Nat := 0xB03
/-- `CSR_FNF`. -/
abbrev csrFnf : Nat := 0xB0F
/-- `CSR_BRANCHNUMH`. -/
abbrev csrBranchnumh : Nat := 0xB83
/-- `CSR_FNFH`. -/
abbrev csrFnfh : Nat := 0xB8F

/-- What a write keeps of the value: the `filter` overrides. -/
inductive CsrFilter
  /-- `value & mask`; `csr_base::filter` is the mask of all ones. -/
  | mask (m : Word)
  /-- The terminal queues. -/
  | charfifo
  deriving DecidableEq

/-- `csr_item_t`, with the initial value and the filter of the register object. -/
structure CsrItem where
  readonly : Bool
  initValue : Word
  filter : CsrFilter
  deriving DecidableEq

/-- The unfiltered register. -/
abbrev CsrFilter.all : CsrFilter := .mask 0xFFFFFFFF

/-- `csr_map_table`, as `init` fills it. -/
def csrMapTable (addr : Nat) : Option CsrItem :=
  if addr = csrMvendorid then some ⟨true, 0, .all⟩
  else if addr = csrMarchid then some ⟨true, 0x19981001, .all⟩
  else if addr = csrMimpid then some ⟨true, 0x20220201, .all⟩
  else if addr = csrMhartid then some ⟨true, 0, .all⟩
  else if addr = csrMconfigptr then some ⟨true, 0, .all⟩
  else if addr = csrMstatus then some ⟨false, 0, .mask 0x88⟩
  else if addr = csrMisa then some ⟨false, 0x40001100, .all⟩
  else if addr = csrMie then some ⟨false, 0, .mask 0x888⟩
  else if addr = csrMtvec then some ⟨false, 0, .mask 0xFFFFFFFC⟩
  else if addr = csrMcounteren then some ⟨false, 0, .mask 0x07⟩
  else if addr = csrMstatush then some ⟨false, 0, .mask 0⟩
  else if addr = csrMscratch then some ⟨false, 0, .all⟩
  else if addr = csrMepc then some ⟨false, 0, .mask 0xFFFFFFFC⟩
  else if addr = csrMcause then some ⟨false, 0, .all⟩
  else if addr = csrMtval then some ⟨false, 0, .all⟩
  else if addr = csrMip then some ⟨false, 0, .mask 0x888⟩
  else if addr = csrCharfifo then some ⟨false, 0, .charfifo⟩
  else if addr = csrFinish then some ⟨false, 0xFFFFFFFF, .all⟩
  else if addr = csrMcycle then some ⟨false, 0, .all⟩
  else if addr = csrMinstret then some ⟨false, 0, .all⟩
  else if addr = csrMcycleh then some ⟨false, 0, .all⟩
  else if addr = csrMinstreth then some ⟨false, 0, .all⟩
  else if csrBranchnum ≤ addr ∧ addr ≤ csrFnf then some ⟨true, 0, .all⟩
  else if csrBranchnumh ≤ addr ∧ addr ≤ csrFnfh then some ⟨true, 0, .all⟩
  -- `pmpcfg0..15` and `pmpaddr0..63`
  else if 0x3A0 ≤ addr ∧ addr < 0x3A0 + 16 then some ⟨false, 0, .mask 0⟩
  else if 0x3B0 ≤ addr ∧ addr < 0x3B0 + 64 then some ⟨false, 0, .mask 0⟩
  else none

/-- The register objects' values, and the two terminal queues (`spsc_queue`s of capacity 1024):
`sendFifo` from the core to the terminal, `revFifo` from the terminal to the core. -/
structure Csrfile where
  value : Nat → Word
  sendFifo : List Byte
  revFifo : List Byte

abbrev charfifoCapacity : Nat := 1024

namespace Csrfile

/-- Every register at its initial value. -/
def reset : Csrfile where
  value := fun addr => match csrMapTable addr with
    | some item => item.initValue
    | none => 0
  sendFifo := []
  revFifo := []

/-- `csrfile::reset` on a file in use: the registers; the queues belong to the terminal and stay. -/
def resetFrom (c : Csrfile) : Csrfile :=
  { c with value := reset.value }

/-- `csr_base::read`, and `charfifo::read`: the character at the head of the receive queue, as a
(signed) `char`, with bit 31 set. -/
def readItem (c : Csrfile) (addr : Nat) (item : CsrItem) : Word :=
  match item.filter with
  | .mask _ => c.value addr
  | .charfifo =>
    match c.revFifo with
    | [] => 0
    | ch :: _ => 0x80000000 ||| ch.signExtend 32

/-- `csr_base::write`: store the filtered value. -/
def writeItem (c : Csrfile) (addr : Nat) (item : CsrItem) (value : Word) : Except Halt Csrfile :=
  match item.filter with
  | .mask m => .ok { c with value := Function.update c.value addr (value &&& m) }
  | .charfifo =>
    if value &&& 0x80000000 != 0 then
      match c.revFifo with
      | [] => .error .charfifo
      | _ :: rest => .ok { c with value := Function.update c.value addr 0, revFifo := rest }
    else if c.sendFifo.length < charfifoCapacity then
      .ok { c with
        value := Function.update c.value addr 0
        sendFifo := c.sendFifo ++ [value.setWidth 8] }
    else .error .charfifo

/-- `read`; `none` is the answer `false`. -/
def read (c : Csrfile) (addr : Nat) : Option Word :=
  (csrMapTable addr).map (c.readItem addr)

/-- `read_sys`. -/
def readSys (c : Csrfile) (addr : Nat) : Except Halt Word :=
  match csrMapTable addr with
  | some item => .ok (c.readItem addr item)
  | none => .error (.assertion .csrfile)

/-- `write_sys`. -/
def writeSys (c : Csrfile) (addr : Nat) (value : Word) : Except Halt Csrfile :=
  match csrMapTable addr with
  | some item => c.writeItem addr item value
  | none => .error (.assertion .csrfile)

/-- `write_check`; the value is not looked at. -/
def writeCheck (addr : Nat) : Bool :=
  match csrMapTable addr with
  | some item => !item.readonly
  | none => false

/-- A request queued during the cycle. -/
inductive Request
  | write (addr : Nat) (value : Word)
  | writeSys (addr : Nat) (value : Word)
  deriving DecidableEq

/-- One queued request: `assert(write(..))` for an instruction's write. -/
def apply (c : Csrfile) : Request → Except Halt Csrfile
  | .write addr value => do
    assert .csrfile (writeCheck addr)
    c.writeSys addr value
  | .writeSys addr value => c.writeSys addr value

/-- `sync`: the queued requests, in order. -/
def sync (c : Csrfile) (requests : List Request) : Except Halt Csrfile :=
  requests.foldlM apply c

end Csrfile

/-! ## Bits of `mstatus`, `mie` and `mip` -/

/-- `csr_base::getbit`. -/
def getbit (value : Word) (bit : Nat) : Bool :=
  value &&& ((1 : Word) <<< bit) != 0

/-- `csr_base::setbit`, followed by the register's own filter. -/
def setbit (mask value : Word) (bit : Nat) (v : Bool) : Word :=
  ((value &&& ~~~((1 : Word) <<< bit)) ||| ((if v then 1 else 0 : Word) <<< bit)) &&& mask

/-- `mstatus::get_mie`. -/
def getMie (mstatus : Word) : Bool := getbit mstatus 3

/-- `mstatus::set_mie`. -/
def setMie (mstatus : Word) (v : Bool) : Word := setbit 0x88 mstatus 3 v

/-- `mstatus::get_mpie`. -/
def getMpie (mstatus : Word) : Bool := getbit mstatus 7

/-- `mstatus::set_mpie`. -/
def setMpie (mstatus : Word) (v : Bool) : Word := setbit 0x88 mstatus 7 v

/-- `mie::get_msie`. -/
def getMsie (mie : Word) : Bool := getbit mie 3

/-- `mie::get_mtie`. -/
def getMtie (mie : Word) : Bool := getbit mie 7

/-- `mie::get_meie`. -/
def getMeie (mie : Word) : Bool := getbit mie 11

/-! ## Interrupt interface -/

structure InterruptInterface where
  meip : Bool
  msip : Bool
  mtip : Bool
  meiAck : Bool
  msiAck : Bool
  mtiAck : Bool
  deriving DecidableEq

namespace InterruptInterface

def reset : InterruptInterface := ⟨false, false, false, false, false, false⟩

/-- `interrupt_interface::reset` on an interface in use: the acknowledgements; the lines stay. -/
def resetFrom (ii : InterruptInterface) : InterruptInterface :=
  { ii with meiAck := false, msiAck := false, mtiAck := false }

/-- `get_cause`: the accepted interrupt, if any. -/
def getCause (ii : InterruptInterface) (csr : Csrfile) : Except Halt (Option RiscvInterrupt) := do
  let mie ← csr.readSys csrMie
  let mstatus ← csr.readSys csrMstatus
  if !getMie mstatus then return none
  else if ii.meip && getMeie mie then return some .machineExternal
  else if ii.msip && getMsie mie then return some .machineSoftware
  else if ii.mtip && getMtie mie then return some .machineTimer
  else return none

/-- `run`: drop the acknowledgements and queue the pending lines for `mip`. -/
def run (ii : InterruptInterface) (csr : Csrfile) :
    Except Halt (InterruptInterface × List Csrfile.Request) := do
  let mip ← csr.readSys csrMip
  let mip := setbit 0x888 mip 11 ii.meip
  let mip := setbit 0x888 mip 3 ii.msip
  let mip := setbit 0x888 mip 7 ii.mtip
  return ({ ii with meiAck := false, msiAck := false, mtiAck := false },
    [.writeSys csrMip mip])

/-- `set_ack`. -/
def setAck (ii : InterruptInterface) : RiscvInterrupt → InterruptInterface
  | .machineExternal => { ii with meiAck := true }
  | .machineSoftware => { ii with msiAck := true }
  | .machineTimer => { ii with mtiAck := true }

/-- `sync`: the queued acknowledgements. -/
def sync (ii : InterruptInterface) (acks : List RiscvInterrupt) : InterruptInterface :=
  acks.foldl setAck ii

end InterruptInterface

end MyRiscvCore
