import MyRiscvCore.Debugger.Server
import MyRiscvCore.Refine.Run

/-!
# MyRiscvCore — what a step of the debug server does

`Stepped` lists the transitions of the three threads with their conditions, and `step_cases` says that there are no
others; every invariant of the debugger is an analysis of these cases (`run_induction`). `Handled` says the same of the
commands: which of the flags, the machine and the counter a command changes, and that it posts its reply.
-/

namespace MyRiscvCore

open Framing (Receiver)

/-! ## Commands

Each handler is described by what it changes; most only answer. -/

/-- The commands that let the machine go on. -/
inductive Release
  | cont | step | stepcommit
  deriving DecidableEq

/-- `step_state` and `wait_commit` after such a command. -/
def Release.flags : Release → Bool × Bool
  | .cont => (false, false)
  | .step => (true, false)
  | .stepcommit => (true, true)

/-- The command lets the machine go on. -/
def releaseCmd : SocketCmd → List Text → Option Release
  | .cont, [] => some .cont
  | .step, [] => some .step
  | .stepcommit, [] => some .stepcommit
  | _, _ => none

/-- The command changes the machine. -/
def altersCmd : SocketCmd → List Text → Bool
  | .reset, [] => true
  | .writeMemory, [_, _] => true
  | _, _ => false

/-- The command that a packet holds, with its arguments. -/
def packetCmd (packet : Text) : Option (SocketCmd × List Text) :=
  match cmdArgList packet with
  | _ :: cmd :: args => (findCmd cmd).map (·, args)
  | _ => none

/-- The packet lets the machine go on. -/
def releaseOf (packet : Text) : Option Release :=
  (packetCmd packet).bind fun (c, args) => releaseCmd c args

/-- The packet changes the machine. -/
def altersMachine (packet : Text) : Bool :=
  (packetCmd packet).any fun (c, args) => altersCmd c args

/-- What a command does. -/
inductive Outcome (c : SocketCmd) (args : List Text) (d : Debugger) : Debugger → Prop
  | same (h : releaseCmd c args = none) : Outcome c args d d
  | quit (h : c = .quit) : Outcome c args d { d with programStop := true }
  | reset (h : c = .reset) (ha : args = []) {r : Machine} (hr : d.machine.resetFrom = .ok r) :
    Outcome c args d { d with machine := r, commitNum := 0 }
  | pause (h : c = .pause) : Outcome c args d (setFlags d.pauseState true false d)
  | release {r : Release} (h : releaseCmd c args = some r) : Outcome c args d (setFlags false r.flags.1 r.flags.2 d)
  | write (h : c = .writeMemory) (ha : altersCmd c args = true) (bus : Bus) :
    Outcome c args d { d with machine := { d.machine with bus := bus } }
  | clear (h : c = .getCommitNum) : Outcome c args d { d with commitNum := 0 }

/-- What a packet leaves of the state. -/
structure Handled (packet : Text) (d d' : Debugger) (reply : Option Text) : Prop where
  passes : d'.passes = d.passes
  ctrlC : d'.ctrlC = d.ctrlC
  recvThread : d'.recvThread = d.recvThread
  recvIoc : d'.recvIoc = d.recvIoc
  sendIoc : d'.sendIoc = d.sendIoc ++ reply.toList
  machine : altersMachine packet = false → d'.machine = d.machine
  released : ∀ r, releaseOf packet = some r →
    d'.pauseState = false ∧ d'.stepState = r.flags.1 ∧ d'.waitCommit = r.flags.2
  kept : releaseOf packet = none → d'.pauseState = d.pauseState

section Commands

variable {env : DebugEnv} {d d' : Debugger} {c : SocketCmd} {args : List Text} {packet ret : Text}

theorem withArgs_cases {num : Nat} {f : Handler} (h : withArgs num args f d = .ok (d', ret)) :
    (args.length ≠ num ∧ d' = d ∧ ret = text "argerror") ∨ (args.length = num ∧ f d = .ok (d', ret)) := by
  unfold withArgs at h
  split_ifs at h with hlen
  · cases h
    exact .inl ⟨hlen, rfl, rfl⟩
  · exact .inr ⟨not_not.mp hlen, h⟩

/-- A command that lets the machine go on. -/
theorem release_outcome {r : Release} (hc : releaseCmd c [] = some r) (hne : args ≠ [] → releaseCmd c args = none)
    (h : withArgs 0 args (fun d => .ok (setFlags false r.flags.1 r.flags.2 d, text "ok")) d = .ok (d', ret)) :
    Outcome c args d d' := by
  obtain ⟨hlen, rfl, -⟩ | ⟨hlen, h⟩ := withArgs_cases h
  · exact .same (hne fun hnil => hlen (List.length_eq_zero_iff.mpr hnil))
  · cases h
    rw [List.length_eq_zero_iff.mp hlen]
    exact .release hc

/-- A command that only answers. -/
theorem report_outcome {num : Nat} {f : Handler} (hc : releaseCmd c args = none)
    (hf : ∀ d' ret, f d = .ok (d', ret) → d' = d) (h : withArgs num args f d = .ok (d', ret)) :
    Outcome c args d d' := by
  obtain ⟨-, rfl, -⟩ | ⟨-, h⟩ := withArgs_cases h
  · exact .same hc
  · rw [hf d' ret h]
    exact .same hc

theorem pure_same {v ret : Text} (h : (.ok (d, v) : Except Halt (Debugger × Text)) = .ok (d', ret)) : d' = d := by
  cases h
  rfl

theorem bind_same {α : Type} {x : Except Halt α} {v : α → Text}
    (h : (do let a ← x; return (d, v a) : Except Halt (Debugger × Text)) = .ok (d', ret)) : d' = d := by
  obtain ⟨a, -, h⟩ := bind_eq_ok.mp h
  exact pure_same h

/-- Every command has one of the outcomes. -/
theorem socketCmd_cases (h : socketCmd env c args d = .ok (d', ret)) : Outcome c args d d' := by
  cases c with
  | quit =>
    obtain ⟨-, rfl, -⟩ | ⟨-, h⟩ := withArgs_cases h
    · exact .same rfl
    · cases h
      exact .quit rfl
  | reset =>
    obtain ⟨-, rfl, -⟩ | ⟨hlen, h⟩ := withArgs_cases h
    · exact .same rfl
    · obtain ⟨r, hr, h⟩ := bind_eq_ok.mp h
      cases h
      exact .reset rfl (List.length_eq_zero_iff.mp hlen) hr
  | cont => exact release_outcome (r := .cont) rfl (fun hne => by cases args <;> trivial) h
  | pause =>
    obtain ⟨-, rfl, -⟩ | ⟨-, h⟩ := withArgs_cases h
    · exact .same rfl
    · cases h
      exact .pause rfl
  | step => exact release_outcome (r := .step) rfl (fun hne => by cases args <;> trivial) h
  | stepcommit => exact release_outcome (r := .stepcommit) rfl (fun hne => by cases args <;> trivial) h
  | writeMemory =>
    obtain ⟨-, rfl, -⟩ | ⟨hlen, h⟩ := withArgs_cases h
    · exact .same rfl
    · obtain ⟨bus, -, h⟩ := bind_eq_ok.mp h
      cases h
      obtain ⟨a, b, rfl⟩ := List.length_eq_two.mp hlen
      exact .write rfl rfl bus
  | getCommitNum =>
    obtain ⟨-, rfl, -⟩ | ⟨-, h⟩ := withArgs_cases h
    · exact .same rfl
    · cases h
      exact .clear rfl
  -- the rest only report
  | readMemory => exact report_outcome rfl (fun _ _ => bind_same) h
  | readArchreg => exact report_outcome rfl (fun _ _ => bind_same) h
  | readCsr => exact report_outcome rfl (fun _ _ => pure_same) h
  | getPc => exact report_outcome rfl (fun _ _ => pure_same) h
  | getCycle => exact report_outcome rfl (fun _ _ => pure_same) h
  | getPipelineStatus => exact report_outcome rfl (fun _ _ => pure_same) h
  | getFinish => exact report_outcome rfl (fun _ _ => bind_same) h

/-- A command changes the flags, the machine and the counter only, each as its outcome says. -/
theorem Outcome.handled (h : Outcome c args d d') (hp : packetCmd packet = some (c, args)) (reply : Text) :
    Handled packet d { d' with sendIoc := d'.sendIoc ++ [reply] } (some reply) := by
  have hrelease : releaseOf packet = releaseCmd c args := by rw [releaseOf, hp, Option.bind_some]
  have halters : altersMachine packet = altersCmd c args := by rw [altersMachine, hp, Option.any_some]
  -- all but one of the outcomes leave `pause_state` alone
  have hkept (hnone : releaseCmd c args = none) (hpause : d'.pauseState = d.pauseState) :
      (∀ r, releaseOf packet = some r →
        d'.pauseState = false ∧ d'.stepState = r.flags.1 ∧ d'.waitCommit = r.flags.2) ∧
      (releaseOf packet = none → d'.pauseState = d.pauseState) := by
    refine ⟨fun r hr => ?_, fun _ => hpause⟩
    cases hnone.symm.trans (hrelease.symm.trans hr)
  cases h with
  | same hnone =>
    obtain ⟨hreleased, hkept⟩ := hkept hnone rfl
    exact ⟨rfl, rfl, rfl, rfl, rfl, fun _ => rfl, hreleased, hkept⟩
  | quit hc =>
    obtain ⟨hreleased, hkept⟩ := hkept (by rw [hc]; rfl) rfl
    exact ⟨rfl, rfl, rfl, rfl, rfl, fun _ => rfl, hreleased, hkept⟩
  | reset hc ha hr =>
    obtain ⟨hreleased, hkept⟩ := hkept (by rw [hc]; rfl) rfl
    refine ⟨rfl, rfl, rfl, rfl, rfl, fun hn => ?_, hreleased, hkept⟩
    rw [halters, hc, ha] at hn
    cases hn
  | pause hc =>
    obtain ⟨hreleased, hkept⟩ := hkept (by rw [hc]; rfl) rfl
    exact ⟨rfl, rfl, rfl, rfl, rfl, fun _ => rfl, hreleased, hkept⟩
  | @release r hr =>
    refine ⟨rfl, rfl, rfl, rfl, rfl, fun _ => rfl, fun r' hr' => ?_, fun hn => ?_⟩
    · cases hr.symm.trans (hrelease.symm.trans hr')
      exact ⟨rfl, rfl, rfl⟩
    · cases hr.symm.trans (hrelease.symm.trans hn)
  | write hc ha bus =>
    obtain ⟨hreleased, hkept⟩ := hkept (by rw [hc]; rfl) rfl
    refine ⟨rfl, rfl, rfl, rfl, rfl, fun hn => ?_, hreleased, hkept⟩
    cases ha.symm.trans (halters.symm.trans hn)
  | clear hc =>
    obtain ⟨hreleased, hkept⟩ := hkept (by rw [hc]; rfl) rfl
    exact ⟨rfl, rfl, rfl, rfl, rfl, fun _ => rfl, hreleased, hkept⟩

/-- A packet that holds no command. -/
theorem Handled.unknown (h : packetCmd packet = none) (d : Debugger) (reply : Option Text) :
    Handled packet d { d with sendIoc := d.sendIoc ++ reply.toList } reply := by
  have hr : releaseOf packet = none := by rw [releaseOf, h, Option.bind_none]
  refine ⟨rfl, rfl, rfl, rfl, rfl, fun _ => rfl, fun r hr' => ?_, fun _ => rfl⟩
  cases hr.symm.trans hr'

theorem packetCmd_eq {tag cmd : Text} (h : cmdArgList packet = tag :: cmd :: args) :
    packetCmd packet = (findCmd cmd).map (·, args) := by
  rw [packetCmd, h]

theorem packetCmd_eq_none (h : ∀ tag cmd args, cmdArgList packet ≠ tag :: cmd :: args) : packetCmd packet = none := by
  unfold packetCmd
  split
  next tag cmd args hargs => exact absurd hargs (h tag cmd args)
  next => rfl

/-- How a packet is handled. -/
inductive HandledBy (env : DebugEnv) (packet : Text) (d : Debugger) : Debugger → Option Text → Prop
  | known {tag cmd ret : Text} {args : List Text} {c : SocketCmd} {d₁ : Debugger}
    (hargs : cmdArgList packet = tag :: cmd :: args) (hfind : findCmd cmd = some c)
    (hcmd : socketCmd env c args d = .ok (d₁, ret)) :
    HandledBy env packet d { d₁ with sendIoc := d₁.sendIoc ++ [replyText tag cmd ret] } (some (replyText tag cmd ret))
  | unknown {tag cmd : Text} {args : List Text} (hargs : cmdArgList packet = tag :: cmd :: args)
    (hfind : findCmd cmd = none) :
    HandledBy env packet d { d with sendIoc := d.sendIoc ++ [replyText tag cmd (text "notfound")] }
      (some (replyText tag cmd (text "notfound")))
  | dropped (hargs : ∀ tag cmd args, cmdArgList packet ≠ tag :: cmd :: args) : HandledBy env packet d d none

/-- A packet is refused or handed to the command that it names. -/
theorem socketCmdHandle_cases {reply : Option Text} (h : socketCmdHandle env packet d = .ok (d', reply)) :
    HandledBy env packet d d' reply := by
  unfold socketCmdHandle at h
  split at h
  next tag cmd args hargs =>
    obtain ⟨⟨d₁, ret⟩, hcmd, h⟩ := bind_eq_ok.mp h
    cases h
    unfold socketCmdCall at hcmd
    split at hcmd
    next c hfind => exact .known hargs hfind hcmd
    next hfind =>
      cases hcmd
      exact .unknown hargs hfind
  next hargs =>
    cases h
    exact .dropped hargs

theorem socketCmdHandle_handled {reply : Option Text} (h : socketCmdHandle env packet d = .ok (d', reply)) :
    Handled packet d d' reply := by
  cases socketCmdHandle_cases h with
  | known hargs hfind hcmd => exact (socketCmd_cases hcmd).handled (by rw [packetCmd_eq hargs, hfind]; rfl) _
  | unknown hargs hfind => exact .unknown (by rw [packetCmd_eq hargs, hfind]; rfl) d (some _)
  | dropped hargs =>
    have hkeep := Handled.unknown (packetCmd_eq_none hargs) d none
    simpa using hkeep

end Commands

/-- The pieces of the stream. -/
def chunksOf (obs : List Obs) : List Text :=
  obs.filterMap fun
    | .received chunk => some chunk
    | _ => none

def postedOf (obs : List Obs) : List Text :=
  obs.filterMap fun
    | .posted packet => some packet
    | _ => none

/-- The packets handled, with their replies. -/
def handledOf (obs : List Obs) : List (Text × Option Text) :=
  obs.filterMap fun
    | .handled packet reply => some (packet, reply)
    | _ => none

def sentOf (obs : List Obs) : List Text :=
  obs.filterMap fun
    | .sent reply => some reply
    | _ => none

/-- The logs of the cycles. -/
def logsOf (obs : List Obs) : List CycleLog :=
  obs.filterMap fun
    | .cycle log _ => some log
    | _ => none

/-! ## Steps

The same for the threads: `Stepped` lists what one step can do. -/

/-- The transitions. -/
inductive Stepped (env : DebugEnv) (d : Debugger) : Debugger → List Obs → Prop
  | idle : Stepped env d d []
  | stop (h : d.loc = .head) (hs : d.stops = true) : Stepped env d { d with loc := .enter } []
  | go (h : d.loc = .head) (hs : d.stops = false) : Stepped env d { d with loc := .cycle } []
  | enter (h : d.loc = .enter) (stepState waitCommit : Bool)
    (hc : d.ctrlC = false → stepState = d.stepState ∧ waitCommit = d.waitCommit) :
    Stepped env d { d with
      stepState := stepState, waitCommit := waitCommit, pauseState := true, loc := .pausing } [.paused]
  | handle (h : d.loc = .pausing) (hp : d.pauseState = true) {packet : Text} {rest : List Text}
    (hq : d.recvIoc = packet :: rest) {d' : Debugger} {reply : Option Text}
    (hh : socketCmdHandle env packet { d with recvIoc := rest } = .ok (d', reply)) :
    Stepped env d { d' with loc := if d'.programStop then .stopped else .pausing } [.handled packet reply]
  | leave (h : d.loc = .pausing) (hp : d.pauseState = false) : Stepped env d { d with loc := .leave } []
  | quit (h : d.loc = .leave) (hp : d.programStop = true) : Stepped env d { d with loc := .stopped } []
  | resume (h : d.loc = .leave) (hp : d.programStop = false) :
    Stepped env d { d with ctrlC := false, loc := .cycle } [.resumed]
  | cycle (h : d.loc = .cycle) {m : Machine} {log : CycleLog}
    (hc : MyRiscvCore.cycle env.toEnv d.passes d.machine = .ok (m, log)) :
    Stepped env d { d with
      machine := m
      commitNum := d.commitNum + (m.rob.globalCommitNum - d.machine.rob.globalCommitNum).setWidth 32
      passes := d.passes + 1
      loc := .head } [.cycle log m.rob.committed]
  | receive {r : Receiver Byte} (h : d.recvThread = .receiving r) {chunk : Text} (ha : r.Accepts packetFormat chunk)
    (hr : (r.receive packetFormat chunk).2 = none) :
    Stepped env d { d with recvThread := .receiving (r.receive packetFormat chunk).1 } [.received chunk]
  | complete {r : Receiver Byte} (h : d.recvThread = .receiving r) {chunk packet : Text}
    (ha : r.Accepts packetFormat chunk) (hr : (r.receive packetFormat chunk).2 = some packet) :
    Stepped env d { d with recvThread := .received packet } [.received chunk]
  | notice {packet : Text} (h : d.recvThread = .received packet) (hp : asksPause packet = true) :
    Stepped env d { d with ctrlC := true, recvThread := .noticed packet } [.noticed]
  | pass {packet : Text} (h : d.recvThread = .received packet) (hp : asksPause packet = false) :
    Stepped env d { d with recvThread := .noticed packet } []
  | post {packet : Text} (h : d.recvThread = .noticed packet) :
    Stepped env d { d with recvIoc := d.recvIoc ++ [packet], recvThread := .receiving (.header []) } [.posted packet]
  | send {reply : Text} {rest : List Text} (h : d.sendIoc = reply :: rest) :
    Stepped env d { d with sendIoc := rest } [.sent reply]
  | key : Stepped env d { d with ctrlC := true } [.noticed]

section Steps

variable {env : DebugEnv} {d d' : Debugger} {a : Action} {new : List Obs}

/-- The main thread takes only these steps. -/
theorem mainStep_cases (h : mainStep env d = .ok (d', new)) : Stepped env d d' new := by
  unfold mainStep at h
  -- one case for each place the main thread can be at
  split at h
  next hloc =>
    split_ifs at h with hs
    · cases h
      exact .stop hloc hs
    · cases h
      exact .go hloc (Bool.not_eq_true _ ▸ hs)
  next hloc =>
    split_ifs at h with hc
    · cases h
      exact .enter hloc true false fun hn => by cases hc.symm.trans hn
    · cases h
      exact .enter hloc d.stepState d.waitCommit fun _ => ⟨rfl, rfl⟩
  next hloc =>
    split_ifs at h with hp
    · split at h
      next =>
        cases h
        exact .idle
      next packet rest hq =>
        obtain ⟨⟨d₁, reply⟩, hh, h⟩ := bind_eq_ok.mp h
        cases h
        exact .handle hloc hp hq hh
    · cases h
      exact .leave hloc (Bool.not_eq_true _ ▸ hp)
  next hloc =>
    split_ifs at h with hp
    · cases h
      exact .quit hloc hp
    · cases h
      exact .resume hloc (Bool.not_eq_true _ ▸ hp)
  next hloc =>
    obtain ⟨⟨m, log⟩, hc, h⟩ := bind_eq_ok.mp h
    cases h
    exact .cycle hloc hc
  next =>
    cases h
    exact .idle

/-- The receiver takes only these steps. -/
theorem receiveStep_cases {chunk : Text} (h : receiveStep chunk d = (d', new)) : Stepped env d d' new := by
  unfold receiveStep at h
  split at h
  next r hr =>
    split_ifs at h with ha
    · split at h
      next r' hp =>
        cases h
        have hnone : (r.receive packetFormat chunk).2 = none := by rw [hp]
        have hr' : r' = (r.receive packetFormat chunk).1 := by rw [hp]
        rw [hr']
        exact .receive hr ha hnone
      next r' packet hp =>
        cases h
        have hsome : (r.receive packetFormat chunk).2 = some packet := by rw [hp]
        exact .complete hr ha hsome
    · cases h
      exact .idle
  next =>
    cases h
    exact .idle

theorem recvStep_cases (h : recvStep d = (d', new)) : Stepped env d d' new := by
  unfold recvStep at h
  split at h
  next =>
    cases h
    exact .idle
  next packet hr =>
    split_ifs at h with hp
    · cases h
      exact .notice hr hp
    · cases h
      exact .pass hr (Bool.not_eq_true _ ▸ hp)
  next packet hr =>
    cases h
    exact .post hr

/-- So does the whole server. -/
theorem step_cases (h : d.step env a = .ok (d', new)) : Stepped env d d' new := by
  cases a with
  | main => exact mainStep_cases h
  | receive chunk => exact receiveStep_cases (Except.ok.inj h)
  | recv => exact recvStep_cases (Except.ok.inj h)
  | send =>
    simp only [Debugger.step, sendStep] at h
    split at h
    next =>
      cases h
      exact .idle
    next reply rest hq =>
      cases h
      exact .send hq
  | key =>
    cases h
    exact .key

/-- A step is seen at most once. -/
theorem Stepped.short (h : Stepped env d d' new) : new = [] ∨ ∃ o, new = [o] := by
  cases h <;> simp

/-- So what holds of everything that happens, after what has happened before, is proved step by step. -/
theorem Stepped.splits {P : List Obs → Obs → Prop} (h : Stepped env d d' new) {obs : List Obs}
    (hold : ∀ before o later, obs = before ++ o :: later → P before o) (hnew : ∀ o ∈ new, P obs o) :
    ∀ before o later, obs ++ new = before ++ o :: later → P before o := by
  intro before o later hsplit
  obtain rfl | ⟨o', rfl⟩ := h.short
  · rw [List.append_nil] at hsplit
    exact hold before o later hsplit
  · obtain ⟨later', hearlier⟩ | ⟨rfl, rfl⟩ := split_snoc hsplit
    · exact hold before o later' hearlier
    · exact hnew _ List.mem_cons_self

/-- What holds at the start and is kept by every transition holds after every list of actions. -/
theorem Debugger.run_induction {P : Debugger → List Obs → Prop} (hinit : ∀ d, Debugger.init env = .ok d → P d [])
    (hstep : ∀ d obs d' new, P d obs → Stepped env d d' new → P d' (obs ++ new)) {actions : List Action}
    {obs : List Obs} (h : Debugger.run env actions = .ok (d, obs)) : P d obs := by
  induction actions using List.reverseRecOn generalizing d obs with
  | nil =>
    obtain ⟨d₀, hd₀, h⟩ := bind_eq_ok.mp h
    cases h
    exact hinit d hd₀
  | append_singleton actions a ih =>
    obtain ⟨d₀, hd₀, h⟩ := bind_eq_ok.mp h
    rw [List.foldlM_append, bind_eq_ok] at h
    obtain ⟨⟨d₁, obs₁⟩, hbefore, h⟩ := h
    rw [List.foldlM_cons, bind_eq_ok] at h
    obtain ⟨⟨d₂, obs₂⟩, hlast, h⟩ := h
    cases h
    obtain ⟨⟨d₃, new⟩, hs, hlast⟩ := bind_eq_ok.mp hlast
    cases hlast
    exact hstep d₁ obs₁ d new (ih (bind_eq_ok.mpr ⟨d₀, hd₀, hbefore⟩)) (step_cases hs)

end Steps

end MyRiscvCore
