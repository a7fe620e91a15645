import MyRiscvCore.Debugger.Text
import MyRiscvCore.Machine

/-!
# MyRiscvCore — the debug server

The loop of `run` around the clock cycle, with the threads of the debugger. Three threads share the flags and queues of
`main.cpp`:

* the main thread runs cycles and, at a cycle boundary, stops for commands: it takes packets from `recv_ioc`, one at a
  time, and executes them until one of them lets it go on;
* the receive thread cuts the stream of the client into packets, sets `ctrl_c_detected` for a `pause` and posts every
  packet to `recv_ioc`;
* the server thread sends the replies posted to `send_ioc`.

A step of the model is what a thread does between two accesses to what the others can change, and an `Action` says
which thread does it; a thread that cannot go on leaves the state as it is. A property of every list of actions is a
property of every interleaving. The connection is made once, and the two reports that are texts for a reader (`read_csr`
and `get_pipeline_status`) are left open.

`run_one` and `run_one_for` are those of the Windows implementation (`win_iocp_io_context`), for which a handler that is
posted later still runs. The scheduler of the other platforms stops an `io_context` that runs out of work, and as
`main.cpp` never calls `restart` no packet would be handled after that.

A step also answers what happened in it (`Obs`); no step reads it.
-/

namespace MyRiscvCore

open Framing (Receiver)

/-! ## State -/

/-- What a session depends on. -/
structure DebugEnv extends Env where
  /-- `csrfile::get_info_packet`. -/
  csrInfo : Csrfile → Text
  /-- The JSON text of `socket_cmd_get_pipeline_status`. -/
  pipelineStatus : Nat → Machine → Text

/-- Where the main thread is in the loop of `run`: before the condition, behind it, in the loop for commands, behind
that loop, before the cycle, or behind the whole loop. -/
inductive Loc
  | head | enter | pausing | leave | cycle | stopped
  deriving DecidableEq

/-- Where the receive thread is: it waits for the stream, or it has a packet and has not yet looked for a `pause`, or
it has not yet posted the packet. -/
inductive RecvThread
  | receiving (r : Receiver Byte)
  | received (packet : Text)
  | noticed (packet : Text)

structure Debugger where
  machine : Machine
  /-- `commit_num` of the ROB, which the client reads and clears. -/
  commitNum : BitVec 32
  /-- The cycles of the session so far. -/
  passes : Nat
  loc : Loc
  pauseState : Bool
  stepState : Bool
  waitCommit : Bool
  /-- `ctrl_c_detected`. -/
  ctrlC : Bool
  programStop : Bool
  recvThread : RecvThread
  recvIoc : List Text
  sendIoc : List Text

/-- What happened in a step. -/
inductive Obs
  /-- A piece of the stream arrived. -/
  | received (chunk : Text)
  /-- `ctrl_c_detected` was set. -/
  | noticed
  | posted (packet : Text)
  /-- The machine stops for commands. -/
  | paused
  | handled (packet : Text) (reply : Option Text)
  /-- The machine goes on. -/
  | resumed
  /-- A cycle, and whether an instruction retired or a trap was taken in it (`committed` of the ROB). -/
  | cycle (log : CycleLog) (committed : Bool)
  | sent (reply : Text)

/-! ## Commands -/

inductive SocketCmd
  | quit | reset | cont | pause | step | stepcommit | readMemory | writeMemory | readArchreg | readCsr | getPc
  | getCycle | getPipelineStatus | getCommitNum | getFinish
  deriving DecidableEq

/-- `socket_cmd_list`. -/
def socketCmdList : List (Text × SocketCmd) :=
  [(text "quit", .quit), (text "reset", .reset), (text "continue", .cont), (text "pause", .pause),
    (text "step", .step), (text "stepcommit", .stepcommit), (text "read_memory", .readMemory),
    (text "write_memory", .writeMemory), (text "read_archreg", .readArchreg), (text "read_csr", .readCsr),
    (text "get_pc", .getPc), (text "get_cycle", .getCycle), (text "get_pipeline_status", .getPipelineStatus),
    (text "get_commit_num", .getCommitNum), (text "get_finish", .getFinish)]

/-- A handler: it changes the state and answers a text. -/
abbrev Handler := Debugger → Except Halt (Debugger × Text)

/-- A command with this number of arguments. -/
def withArgs (num : Nat) (args : List Text) (f : Handler) : Handler := fun d =>
  if args.length ≠ num then .ok (d, text "argerror") else f d

/-- The flags of the main thread. -/
def setFlags (pauseState stepState waitCommit : Bool) (d : Debugger) : Debugger :=
  { d with pauseState := pauseState, stepState := stepState, waitCommit := waitCommit }

def socketCmdQuit : Handler := fun d => .ok ({ d with programStop := true }, text "ok")

def socketCmdReset : Handler := fun d => do
  let machine ← d.machine.resetFrom
  return ({ d with machine := machine, commitNum := 0 }, text "ok")

def socketCmdContinue : Handler := fun d => .ok (setFlags false false false d, text "ok")

def socketCmdPause : Handler := fun d => .ok (setFlags d.pauseState true false d, text "ok")

def socketCmdStep : Handler := fun d => .ok (setFlags false true false d, text "ok")

def socketCmdStepcommit : Handler := fun d => .ok (setFlags false true true d, text "ok")

/-- The addresses of the loop `for(addr = address; addr < address + size; addr++)`. -/
def readRange (address size : Word) : List Word :=
  (List.range ((address + size).toNat - address.toNat)).map fun i => address + BitVec.ofNat 32 i

def socketCmdReadMemory (args : List Text) : Handler := fun d => do
  let address := readUnsigned 16 (args.getD 0 [])
  let size := readUnsigned 10 (args.getD 1 [])
  let bytes ← (readRange address size).mapM d.machine.bus.read8
  return (d, hex address.toNat ++ bytes.flatMap fun v => ascii ',' :: hex v.toNat)

/-- `substr(offset << 1, 2)` for each offset below half of the length. -/
def pairs : Text → List Text
  | a :: b :: t => [a, b] :: pairs t
  | _ => []

/-- `bus.write8` at one address after the other. -/
def writeBytes (bus : Bus) (address : Word) : List Word → Except Halt Bus
  | [] => .ok bus
  | value :: values => do writeBytes (← bus.write address .byte value) (address + 1) values

def socketCmdWriteMemory (args : List Text) : Handler := fun d => do
  let address := readUnsigned 16 (args.getD 0 [])
  let bus ← writeBytes d.machine.bus address ((pairs (args.getD 1 [])).map (readUnsigned 16))
  return ({ d with machine := { d.machine with bus := bus } }, text "ok")

def socketCmdReadArchreg : Handler := fun d => do
  let values ← (List.range' 1 31).mapM (MyRiscvCore.readArchreg d.machine)
  return (d, hex 0 ++ values.flatMap fun v => ascii ',' :: hex v.toNat)

def socketCmdReadCsr (env : DebugEnv) : Handler := fun d => .ok (d, env.csrInfo d.machine.csrFile)

def socketCmdGetPc : Handler := fun d => .ok (d, outhex (getCurrentPc d.machine).toNat)

def socketCmdGetCycle : Handler := fun d => .ok (d, dec d.machine.cpuClockCycle.toNat)

def socketCmdGetPipelineStatus (env : DebugEnv) : Handler := fun d => .ok (d, env.pipelineStatus d.passes d.machine)

def socketCmdGetCommitNum : Handler := fun d => .ok ({ d with commitNum := 0 }, dec d.commitNum.toNat)

def socketCmdGetFinish : Handler := fun d => do
  let v ← d.machine.csrFile.readSys csrFinish
  return (d, decInt v.toInt)

/-- The handlers of `socket_cmd_list`. -/
def socketCmd (env : DebugEnv) (cmd : SocketCmd) (args : List Text) : Handler :=
  match cmd with
  | .quit => withArgs 0 args socketCmdQuit
  | .reset => withArgs 0 args socketCmdReset
  | .cont => withArgs 0 args socketCmdContinue
  | .pause => withArgs 0 args socketCmdPause
  | .step => withArgs 0 args socketCmdStep
  | .stepcommit => withArgs 0 args socketCmdStepcommit
  | .readMemory => withArgs 2 args (socketCmdReadMemory args)
  | .writeMemory => withArgs 2 args (socketCmdWriteMemory args)
  | .readArchreg => withArgs 0 args socketCmdReadArchreg
  | .readCsr => withArgs 0 args (socketCmdReadCsr env)
  | .getPc => withArgs 0 args socketCmdGetPc
  | .getCycle => withArgs 0 args socketCmdGetCycle
  | .getPipelineStatus => withArgs 0 args (socketCmdGetPipelineStatus env)
  | .getCommitNum => withArgs 0 args socketCmdGetCommitNum
  | .getFinish => withArgs 0 args socketCmdGetFinish

/-- The command of that name. -/
def findCmd (cmd : Text) : Option SocketCmd :=
  (socketCmdList.find? (·.1 == cmd)).map (·.2)

/-- The loop over `socket_cmd_list`. -/
def socketCmdCall (env : DebugEnv) (cmd : Text) (args : List Text) : Handler := fun d =>
  match findCmd cmd with
  | some c => socketCmd env c args d
  | none => .ok (d, text "notfound")

/-- The text that is sent for a command and its result. -/
def replyText (tag cmd ret : Text) : Text :=
  tag ++ text " " ++ cmd ++ text " " ++ ret

/-- `socket_cmd_handle`, with the reply that it posts. A packet of fewer than two words is dropped. -/
def socketCmdHandle (env : DebugEnv) (revStr : Text) (d : Debugger) : Except Halt (Debugger × Option Text) :=
  match cmdArgList revStr with
  | tag :: cmd :: args => do
    let (d, ret) ← socketCmdCall env cmd args d
    let reply := replyText tag cmd ret
    return ({ d with sendIoc := d.sendIoc ++ [reply] }, some reply)
  | _ => .ok (d, none)

/-! ## Steps -/

/-- Which thread goes on; the stream gives the receive thread a piece, and a key may set `ctrl_c_detected`. -/
inductive Action
  | main
  | receive (chunk : Text)
  | recv
  | send
  | key

/-- The condition of the loop. -/
def Debugger.stops (d : Debugger) : Bool :=
  d.ctrlC || (d.stepState && (!d.waitCommit || (d.waitCommit && d.machine.rob.committed)))

/-- The main thread. -/
def mainStep (env : DebugEnv) (d : Debugger) : Except Halt (Debugger × List Obs) :=
  match d.loc with
  | .head => .ok ({ d with loc := if d.stops then .enter else .cycle }, [])
  | .enter =>
    let d := if d.ctrlC then { d with stepState := true, waitCommit := false } else d
    .ok ({ d with pauseState := true, loc := .pausing }, [.paused])
  | .pausing =>
    if d.pauseState then
      -- `recv_ioc.run_one()`; without a packet it is called again
      match d.recvIoc with
      | [] => .ok (d, [])
      | packet :: rest => do
        let (d, reply) ← socketCmdHandle env packet { d with recvIoc := rest }
        return ({ d with loc := if d.programStop then .stopped else .pausing }, [.handled packet reply])
    else .ok ({ d with loc := .leave }, [])
  | .leave =>
    if d.programStop then .ok ({ d with loc := .stopped }, [])
    else .ok ({ d with ctrlC := false, loc := .cycle }, [.resumed])
  | .cycle => do
    let (machine, log) ← MyRiscvCore.cycle env.toEnv d.passes d.machine
    let commits := machine.rob.globalCommitNum - d.machine.rob.globalCommitNum
    return ({ d with
      machine := machine, commitNum := d.commitNum + commits.setWidth 32, passes := d.passes + 1, loc := .head },
      [.cycle log machine.rob.committed])
  | .stopped => .ok (d, [])

/-- The packet asks for a pause. -/
def asksPause (packet : Text) : Bool :=
  match cmdArgList packet with
  | _ :: cmd :: _ => cmd == text "pause"
  | _ => false

/-- The stream answers the receive thread. -/
def receiveStep (chunk : Text) (d : Debugger) : Debugger × List Obs :=
  match d.recvThread with
  | .receiving r =>
    if r.Accepts packetFormat chunk then
      match r.receive packetFormat chunk with
      | (r', none) => ({ d with recvThread := .receiving r' }, [.received chunk])
      | (_, some packet) => ({ d with recvThread := .received packet }, [.received chunk])
    else (d, [])
  | _ => (d, [])

/-- The receive thread with a packet. -/
def recvStep (d : Debugger) : Debugger × List Obs :=
  match d.recvThread with
  | .receiving _ => (d, [])
  | .received packet =>
    if asksPause packet then ({ d with ctrlC := true, recvThread := .noticed packet }, [.noticed])
    else ({ d with recvThread := .noticed packet }, [])
  | .noticed packet =>
    ({ d with recvIoc := d.recvIoc ++ [packet], recvThread := .receiving (.header []) }, [.posted packet])

/-- The server thread. -/
def sendStep (d : Debugger) : Debugger × List Obs :=
  match d.sendIoc with
  | [] => (d, [])
  | reply :: rest => ({ d with sendIoc := rest }, [.sent reply])

/-- One step. -/
def Debugger.step (env : DebugEnv) (a : Action) (d : Debugger) : Except Halt (Debugger × List Obs) :=
  match a with
  | .main => mainStep env d
  | .receive chunk => .ok (receiveStep chunk d)
  | .recv => .ok (recvStep d)
  | .send => .ok (sendStep d)
  | .key => .ok ({ d with ctrlC := true }, [.noticed])

/-- The start of `run`: after `init` and `reset` the machine is to be stepped. -/
def Debugger.init (env : DebugEnv) : Except Halt Debugger := do
  let machine ← Machine.reset env.toEnv
  return {
    machine := machine
    commitNum := 0
    passes := 0
    loc := .head
    pauseState := false
    stepState := true
    waitCommit := false
    ctrlC := false
    programStop := false
    recvThread := .receiving (.header [])
    recvIoc := []
    sendIoc := [] }

/-- The state after these actions, with what happened. -/
def Debugger.run (env : DebugEnv) (actions : List Action) : Except Halt (Debugger × List Obs) := do
  let d ← Debugger.init env
  actions.foldlM (fun (d, obs) a => do
    let (d', new) ← d.step env a
    return (d', obs ++ new)) (d, [])

end MyRiscvCore
