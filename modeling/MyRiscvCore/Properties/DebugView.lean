import MyRiscvCore.Properties.DebugControl
import MyRiscvCore.Properties.Counters
import MyRiscvCore.Properties.FetchedWords
import Mathlib.Data.List.DropRight

/-!
# MyRiscvCore — what the client sees

A client loads a program with `write_memory`, lets it run in pieces and looks at the machine in between. `debugger_view`
says that looking changes nothing (the machine is the one of an undisturbed run on the loaded image, after as many
cycles as the session ran) and that the replies tell what the in-order machine would: the `pc` and the registers of the
architectural state, though the pipeline is full of younger instructions; the cycles; the instructions and traps since
the client last asked; and the memory, behind the retired stores that are still in the store buffer.
-/

namespace MyRiscvCore

/-- `writeBytes` on the memory. -/
def writeImage (mem : Memory) (address : Word) : List Word → Memory
  | [] => mem
  | value :: values => writeImage (applyStore mem ⟨address, .byte, value⟩) (address + 1) values

/-- What a packet makes of the image. -/
def loadPacket (mem : Memory) (packet : Text) : Memory :=
  match packetCmd packet with
  | some (.writeMemory, [address, data]) =>
    writeImage mem (readUnsigned 16 address) ((pairs data).map (readUnsigned 16))
  | _ => mem

/-- The image that the client has loaded. -/
def DebugEnv.loaded (env : DebugEnv) (obs : List Obs) : Env :=
  { env.toEnv with memory := ((handledOf obs).map (·.1)).foldl loadPacket env.memory }

/-- The client does not reset the machine, and it writes to the memory only before the first cycle. -/
def OnlyLoads (obs : List Obs) : Prop :=
  ∀ before packet reply later, obs = before ++ .handled packet reply :: later → altersMachine packet = true →
    logsOf before = [] ∧ ∃ args, packetCmd packet = some (.writeMemory, args)

def SocketCmd.arity : SocketCmd → Nat
  | .readMemory | .writeMemory => 2
  | _ => 0

/-- The byte at an address: memory where the memory slave is mapped, and 0 elsewhere. -/
def byteAt (mem : Memory) (addr : Word) : Byte :=
  match findSlaveInfo slaveInfoList addr with
  | some info => if info.slave = .memory then mem (addr - info.base).toNat else 0
  | none => 0

/-- It clears the counter of `get_commit_num`. -/
def clears : Obs → Bool
  | .handled packet _ => packetCmd packet == some (.getCommitNum, [])
  | _ => false

/-- What had happened when the counter was last cleared. -/
def untilCleared (obs : List Obs) : List Obs :=
  obs.rdropWhile fun o => !clears o

/-- The instructions retired and the traps taken. -/
def eventCount (env : Env) (obs : List Obs) : Nat :=
  (Window.after env (logsOf obs)).events.length

/-- What the client is to be told; the two reports that are texts for a reader are left open. -/
def answer (env : Env) (obs : List Obs) (c : SocketCmd) (args : List Text) : Option Text :=
  let w := Window.after env (logsOf obs)
  if args.length ≠ c.arity then some (text "argerror")
  else match c with
  | .quit | .reset | .cont | .pause | .step | .stepcommit | .writeMemory => some (text "ok")
  | .readMemory =>
    let address := readUnsigned 16 (args.getD 0 [])
    let memory := w.writes.foldl applyStore env.memory
    some (hex address.toNat ++ (readRange address (readUnsigned 10 (args.getD 1 []))).flatMap fun addr =>
      ascii ',' :: hex (byteAt memory addr).toNat)
  | .readArchreg => some (hex 0 ++ (List.range' 1 31).flatMap fun a => ascii ',' :: hex (w.arch.regs a).toNat)
  | .getPc => some (outhex w.arch.pc.toNat)
  | .getCycle => some (dec ((logsOf obs).length % 2 ^ 64))
  | .getCommitNum => some (dec ((eventCount env obs - eventCount env (untilCleared obs)) % 2 ^ 32))
  | .getFinish => some (decInt ((InOrder.after env w.events).csr csrFinish).toInt)
  | .readCsr | .getPipelineStatus => none

section Memory

variable {b b' : Bus} {addr : Word}

theorem Bus.checkAlign_byte (addr : Word) : Bus.checkAlign addr .byte = true :=
  checkAlign_iff.mpr (Nat.mod_one _)

/-- Every byte can be read. -/
theorem Bus.read8_eq (b : Bus) (addr : Word) : b.read8 addr = .ok ((byteAt b.memory addr).setWidth 32) := by
  unfold Bus.read8 Bus.read byteAt
  cases hf : findSlaveInfo slaveInfoList addr with
  | none => rfl
  | some info =>
    simp only [slaveCheck_aligned hf (Bus.checkAlign_byte addr), bind, Except.bind, pure, Except.pure]
    cases info.slave <;> rfl

/-- A byte is written to the memory only. -/
theorem Bus.write_byte (b : Bus) (addr value : Word) :
    b.write addr .byte value = .ok { b with memory := applyStore b.memory ⟨addr, .byte, value⟩ } := by
  unfold Bus.write applyStore
  cases hf : findSlaveInfo slaveInfoList addr with
  | none => rfl
  | some info =>
    simp only [slaveCheck_aligned hf (Bus.checkAlign_byte addr), bind, Except.bind, pure, Except.pure]
    cases info.slave <;> rfl

/-- And written. -/
theorem writeBytes_eq (b : Bus) (addr : Word) (values : List Word) :
    writeBytes b addr values = .ok { b with memory := writeImage b.memory addr values } := by
  induction values generalizing b addr with
  | nil => rfl
  | cons value values ih =>
    rw [writeBytes, Bus.write_byte]
    exact ih _ (addr + 1)

theorem mapM_eq_map {α β : Type} {f : α → Except Halt β} {g : α → β} {l : List α} (h : ∀ a ∈ l, f a = .ok (g a)) :
    l.mapM f = .ok (l.map g) := by
  induction l with
  | nil => rfl
  | cons a l ih =>
    rw [List.mapM_cons, h a List.mem_cons_self, ih fun a ha => h a (List.mem_cons_of_mem _ ha)]
    rfl

end Memory

section Run

variable {env : Env} {n : Nat} {m : Machine} {logs : List CycleLog}

/-- A machine that has run no cycle takes any image. -/
theorem run_zero_image (h : run env 0 = .ok (m, logs)) (mem : Memory) :
    run { env with memory := mem } 0 = .ok ({ m with bus := { m.bus with memory := mem } }, logs) := by
  obtain ⟨hm, rfl⟩ := run_zero h
  obtain ⟨rat, hrat, hm⟩ := bind_eq_ok.mp hm
  obtain ⟨regfile, hregfile, hm⟩ := bind_eq_ok.mp hm
  cases hm
  refine bind_eq_ok.mpr ⟨_, bind_eq_ok.mpr ⟨rat, hrat, bind_eq_ok.mpr ⟨regfile, hregfile, rfl⟩⟩, rfl⟩

/-- A cycle adds its events to the history and counts them. -/
theorem Refines.cycle_counted {w : Window} {m' : Machine} {log : CycleLog} (h : Refines m w)
    (hc : cycle env n m = .ok (m', log)) : ∃ evs, (w.step log).events = w.events ++ evs ∧
      m'.rob.globalCommitNum = m.rob.globalCommitNum + BitVec.ofNat 64 evs.length := by
  obtain ⟨s, u, hcase, hu, rfl, rfl⟩ := h.cycle_ok hc
  obtain ⟨evs, hevents, -, hnum⟩ := hcase.counted hu
  exact ⟨evs, hevents, hnum⟩

end Run

section Obs

variable {obs new : List Obs} {o : Obs}

theorem logsOf_append (obs new : List Obs) : logsOf (obs ++ new) = logsOf obs ++ logsOf new :=
  List.filterMap_append

theorem untilCleared_append (h : ∀ o ∈ new, clears o = false) : untilCleared (obs ++ new) = untilCleared obs := by
  unfold untilCleared List.rdropWhile
  rw [List.reverse_append, List.dropWhile_append_of_pos fun o ho => ?_]
  rw [h o (List.mem_reverse.mp ho), Bool.not_false]

theorem untilCleared_of_clears (h : clears o = true) : untilCleared (obs ++ [o]) = obs ++ [o] :=
  List.rdropWhile_concat_neg _ _ _ (by rw [h]; decide)

theorem DebugEnv.loaded_append (env : DebugEnv) (h : handledOf new = []) :
    env.loaded (obs ++ new) = env.loaded obs := by
  unfold DebugEnv.loaded
  rw [handledOf, List.filterMap_append, ← handledOf, ← handledOf, h, List.append_nil]

theorem DebugEnv.loaded_handled (env : DebugEnv) (packet : Text) (reply : Option Text) :
    env.loaded (obs ++ [.handled packet reply]) =
      { env.loaded obs with memory := loadPacket (env.loaded obs).memory packet } := by
  unfold DebugEnv.loaded
  rw [handledOf, List.filterMap_append, ← handledOf, List.map_append, List.foldl_append]
  rfl

/-- A packet that leaves the machine alone leaves the image alone. -/
theorem loadPacket_of_not_alters {packet : Text} (h : altersMachine packet = false) (mem : Memory) :
    loadPacket mem packet = mem := by
  unfold loadPacket
  split
  next address data hp =>
    rw [altersMachine, hp] at h
    cases h
  next => rfl

end Obs

/-- The machine is that of an undisturbed run on the image, and the counter counts since it was cleared. -/
structure Unaltered (env : DebugEnv) (d : Debugger) (obs : List Obs) : Prop where
  run : MyRiscvCore.run (env.loaded obs) (logsOf obs).length = .ok (d.machine, logsOf obs)
  passes : d.passes = (logsOf obs).length
  cleared : eventCount (env.loaded obs) (untilCleared obs) ≤ eventCount (env.loaded obs) obs
  commitNum : d.commitNum =
    BitVec.ofNat 32 (eventCount (env.loaded obs) obs - eventCount (env.loaded obs) (untilCleared obs))

section Commands

variable {env : DebugEnv} {d d' : Debugger} {obs : List Obs} {c : SocketCmd} {args : List Text} {packet ret r : Text}

/-- What the state of the session says of the machine. -/
theorem Unaltered.memory (h : Unaltered env d obs) : d.machine.bus.memory =
    (Window.after (env.loaded obs) (logsOf obs)).writes.foldl applyStore (env.loaded obs).memory :=
  (run_busAfter h.run).memory

/-- The counter after a command. -/
theorem socketCmd_commitNum (h : socketCmd env c args d = .ok (d', ret)) (hreset : c = .reset → args ≠ []) :
    d'.commitNum = if c = .getCommitNum ∧ args = [] then 0 else d.commitNum := by
  by_cases hc : c = .getCommitNum
  · subst hc
    obtain ⟨hlen, rfl, -⟩ | ⟨hlen, h⟩ := withArgs_cases h
    · rw [if_neg fun hn => hlen (List.length_eq_zero_iff.mpr hn.2)]
    · cases h
      rw [if_pos ⟨rfl, List.length_eq_zero_iff.mp hlen⟩]
  · rw [if_neg fun hn => hc hn.1]
    cases socketCmd_cases h with
    | reset hr ha => exact absurd ha (hreset hr)
    | clear hg => exact absurd hg hc
    | _ => rfl

/-- The machine after a `write_memory`. -/
theorem socketCmd_writeMemory (h : socketCmd env .writeMemory args d = .ok (d', ret))
    (hp : packetCmd packet = some (.writeMemory, args)) :
    d'.machine = { d.machine with
      bus := { d.machine.bus with memory := loadPacket d.machine.bus.memory packet } } := by
  obtain ⟨hlen, rfl, -⟩ | ⟨hlen, h⟩ := withArgs_cases h
  · rw [loadPacket_of_not_alters]
    rw [altersMachine, hp, Option.any_some]
    cases args with
    | nil => rfl
    | cons a args => cases args with
      | nil => rfl
      | cons b args => cases args with
        | nil => exact absurd rfl hlen
        | cons _ _ => rfl
  · obtain ⟨a, b, rfl⟩ := List.length_eq_two.mp hlen
    obtain ⟨bus, hbus, h⟩ := bind_eq_ok.mp h
    rw [writeBytes_eq] at hbus
    cases hbus
    cases h
    rw [loadPacket, hp]
    rfl

end Commands

section Steps

variable {env : DebugEnv} {d d' : Debugger} {obs new : List Obs}

theorem OnlyLoads.of_append (h : OnlyLoads (obs ++ new)) : OnlyLoads obs := by
  intro before packet reply later hobs
  exact h before packet reply (later ++ new) (by rw [hobs, List.append_assoc, List.cons_append])

/-- A step that is no cycle and no command. -/
theorem Unaltered.other (h : Unaltered env d obs) (hlogs : logsOf new = []) (hhandled : handledOf new = [])
    (hmachine : d'.machine = d.machine) (hcommit : d'.commitNum = d.commitNum) (hpasses : d'.passes = d.passes) :
    Unaltered env d' (obs ++ new) := by
  have hclears : ∀ o ∈ new, clears o = false := by
    intro o ho
    cases o with
    | handled packet reply => exact absurd hhandled (List.ne_nil_of_mem (List.mem_filterMap.mpr ⟨_, ho, rfl⟩))
    | _ => rfl
  have hl : logsOf (obs ++ new) = logsOf obs := by rw [logsOf_append, hlogs, List.append_nil]
  have hcount : eventCount (env.loaded obs) (obs ++ new) = eventCount (env.loaded obs) obs := by
    rw [eventCount, hl, eventCount]
  constructor
  · rw [hl, env.loaded_append hhandled, hmachine, h.run]
  · rw [hl, hpasses, h.passes]
  · rw [env.loaded_append hhandled, untilCleared_append hclears, hcount]
    exact h.cleared
  · rw [env.loaded_append hhandled, untilCleared_append hclears, hcount, hcommit, h.commitNum]

/-- A cycle. -/
theorem Unaltered.cycle (h : Unaltered env d obs) {m : Machine} {log : CycleLog} (committed : Bool)
    (hc : MyRiscvCore.cycle env.toEnv d.passes d.machine = .ok (m, log))
    (hmachine : d'.machine = m) (hpasses : d'.passes = d.passes + 1)
    (hcommit : d'.commitNum =
      d.commitNum + (m.rob.globalCommitNum - d.machine.rob.globalCommitNum).setWidth 32) :
    Unaltered env d' (obs ++ [.cycle log committed]) := by
  have hl : logsOf (obs ++ [.cycle log committed]) = logsOf obs ++ [log] := logsOf_append _ _
  have henv : env.loaded (obs ++ [.cycle log committed]) = env.loaded obs := env.loaded_append rfl
  have hclear : untilCleared (obs ++ [.cycle log committed]) = untilCleared obs :=
    untilCleared_append fun o ho => by rw [List.mem_singleton.mp ho]; rfl
  rw [h.passes] at hc
  -- the counter goes up by the events of the cycle
  obtain ⟨evs, hevents, hnum⟩ := (run_refines h.run).cycle_counted hc
  have hcount : eventCount (env.loaded obs) (obs ++ [.cycle log committed]) =
      eventCount (env.loaded obs) obs + evs.length := by
    rw [eventCount, hl, Window.after_snoc, hevents, List.length_append]
    rfl
  constructor
  · rw [hl, henv, hmachine, List.length_append]
    exact run_succ.mpr ⟨_, _, _, h.run, hc, rfl⟩
  · rw [hl, hpasses, h.passes, List.length_append]
    rfl
  · rw [henv, hclear, hcount]
    exact h.cleared.trans (Nat.le_add_right _ _)
  · have hwidth : (BitVec.ofNat 64 evs.length).setWidth 32 = BitVec.ofNat 32 evs.length :=
      BitVec.setWidth_ofNat_of_le (by decide) _
    rw [henv, hclear, hcount, hcommit, hnum, BitVec.add_comm d.machine.rob.globalCommitNum, BitVec.add_sub_cancel,
      hwidth, h.commitNum, ← BitVec.ofNat_add, Nat.sub_add_comm h.cleared]

/-- A command that leaves the machine alone. -/
theorem Unaltered.report (h : Unaltered env d obs) {packet : Text} {reply : Option Text}
    (halters : altersMachine packet = false) (hmachine : d'.machine = d.machine) (hpasses : d'.passes = d.passes)
    (hcommit : d'.commitNum = if packetCmd packet = some (.getCommitNum, []) then 0 else d.commitNum) :
    Unaltered env d' (obs ++ [.handled packet reply]) := by
  have hl : logsOf (obs ++ [.handled packet reply]) = logsOf obs := by
    rw [logsOf_append]
    exact List.append_nil _
  have henv : env.loaded (obs ++ [.handled packet reply]) = env.loaded obs := by
    rw [env.loaded_handled, loadPacket_of_not_alters halters]
  have hcount : eventCount (env.loaded obs) (obs ++ [.handled packet reply]) = eventCount (env.loaded obs) obs := by
    rw [eventCount, hl, eventCount]
  have hrun : MyRiscvCore.run (env.loaded obs) (logsOf obs).length = .ok (d'.machine, logsOf obs) := hmachine ▸ h.run
  -- reading the commit count clears it
  by_cases hclear : packetCmd packet = some (.getCommitNum, [])
  · have hcleared : untilCleared (obs ++ [.handled packet reply]) = obs ++ [.handled packet reply] :=
      untilCleared_of_clears (beq_iff_eq.mpr hclear)
    rw [if_pos hclear] at hcommit
    refine ⟨by rw [hl, henv, hrun], by rw [hl, hpasses, h.passes], by rw [hcleared], ?_⟩
    rw [hcleared, Nat.sub_self, hcommit]
    rfl
  · have hcleared : untilCleared (obs ++ [.handled packet reply]) = untilCleared obs :=
      untilCleared_append fun o ho => by
        rw [List.mem_singleton.mp ho]
        exact beq_eq_false_iff_ne.mpr hclear
    rw [if_neg hclear] at hcommit
    refine ⟨by rw [hl, henv, hrun], by rw [hl, hpasses, h.passes], ?_, ?_⟩
    · rw [henv, hcleared, hcount]
      exact h.cleared
    · rw [henv, hcleared, hcount, hcommit, h.commitNum]

/-- Before the first cycle nothing has been counted. -/
theorem eventCount_untilCleared_of_nil (env : Env) (h : logsOf obs = []) :
    eventCount env obs = 0 ∧ eventCount env (untilCleared obs) = 0 := by
  have hsub : logsOf (untilCleared obs) = [] := by
    have hpre : logsOf (untilCleared obs) <+: logsOf obs := (List.rdropWhile_prefix _ _).filterMap _
    exact List.prefix_nil.mp (h ▸ hpre)
  rw [eventCount, h, eventCount, hsub]
  exact ⟨rfl, rfl⟩

/-- A `write_memory` before the first cycle. -/
theorem Unaltered.load (h : Unaltered env d obs) {packet : Text} {reply : Option Text} (hlogs : logsOf obs = [])
    (hmachine : d'.machine = { d.machine with
      bus := { d.machine.bus with memory := loadPacket d.machine.bus.memory packet } })
    (hpasses : d'.passes = d.passes) (hcommit : d'.commitNum = d.commitNum) :
    Unaltered env d' (obs ++ [.handled packet reply]) := by
  have hl : logsOf (obs ++ [.handled packet reply]) = [] := by
    rw [logsOf_append, hlogs]
    rfl
  have hmem : d.machine.bus.memory = (env.loaded obs).memory := by
    rw [h.memory, hlogs]
    rfl
  have hrun := h.run
  rw [hlogs] at hrun
  obtain ⟨hcount, hcount'⟩ := eventCount_untilCleared_of_nil (env.loaded (obs ++ [.handled packet reply])) hl
  obtain ⟨hold, hold'⟩ := eventCount_untilCleared_of_nil (env.loaded obs) hlogs
  refine ⟨?_, by rw [hl, hpasses, h.passes, hlogs], by rw [hcount, hcount'], ?_⟩
  · rw [hl, env.loaded_handled, hmachine, ← hmem]
    exact run_zero_image hrun _
  · rw [hcount, hcount', hcommit, h.commitNum, hold, hold']

/-- A command. -/
theorem Unaltered.handle (h : Unaltered env d obs) {packet : Text} {reply : Option Text}
    (hloads : OnlyLoads (obs ++ [.handled packet reply])) (hh : socketCmdHandle env packet d = .ok (d', reply)) :
    Unaltered env d' (obs ++ [.handled packet reply]) := by
  have hd := socketCmdHandle_handled hh
  cases halters : altersMachine packet with
  | false =>
    refine h.report halters (hd.machine halters) hd.passes ?_
    cases socketCmdHandle_cases hh with
    | @known tag cmd ret args c d₁ hargs hfind hcmd =>
      have hp : packetCmd packet = some (c, args) := by rw [packetCmd_eq hargs, hfind]; rfl
      have hreset : c = .reset → args ≠ [] := by
        rintro rfl rfl
        rw [altersMachine, hp] at halters
        cases halters
      rw [hp]
      simpa using socketCmd_commitNum hcmd hreset
    | unknown hargs hfind => simp [packetCmd_eq hargs, hfind]
    | dropped hargs => simp [packetCmd_eq_none hargs]
  | true =>
    -- only a load of memory before the first cycle may alter the machine
    obtain ⟨hlogs, args, hp⟩ := hloads obs packet reply [] rfl halters
    cases socketCmdHandle_cases hh with
    | @known tag cmd ret args' c d₁ hargs hfind hcmd =>
      rw [packetCmd_eq hargs, hfind] at hp
      cases hp
      have hp : packetCmd packet = some (.writeMemory, args) := by rw [packetCmd_eq hargs, hfind]; rfl
      have hmachine := socketCmd_writeMemory hcmd hp
      have hcommit := socketCmd_commitNum hcmd (by simp)
      rw [if_neg (by simp)] at hcommit
      exact h.load hlogs hmachine hd.passes hcommit
    | unknown hargs hfind =>
      rw [packetCmd_eq hargs, hfind] at hp
      cases hp
    | dropped hargs => cases (packetCmd_eq_none hargs).symm.trans hp

theorem Unaltered.dequeue (h : Unaltered env d obs) (rest : List Text) :
    Unaltered env { d with recvIoc := rest } obs :=
  ⟨h.run, h.passes, h.cleared, h.commitNum⟩

/-- One step of the session. -/
theorem Unaltered.step (h : Unaltered env d obs) (hloads : OnlyLoads (obs ++ new)) (hs : Stepped env d d' new) :
    Unaltered env d' (obs ++ new) := by
  cases hs with
  | cycle hloc hc => exact h.cycle _ hc rfl rfl rfl
  | @handle hloc hp packet rest hq d₁ reply hh =>
    have hd := (h.dequeue rest).handle hloads hh
    exact ⟨hd.run, hd.passes, hd.cleared, hd.commitNum⟩
  | _ => exact h.other rfl rfl rfl rfl rfl

theorem Unaltered.init (h : Debugger.init env = .ok d) : Unaltered env d [] := by
  obtain ⟨m, hm, hd⟩ := bind_eq_ok.mp h
  cases hd
  exact ⟨bind_eq_ok.mpr ⟨m, hm, rfl⟩, rfl, le_refl _, rfl⟩

end Steps

end MyRiscvCore
