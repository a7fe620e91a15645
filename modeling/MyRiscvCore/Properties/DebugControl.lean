import MyRiscvCore.Debugger.ServerFacts
import MyRiscvCore.Properties.Renaming

/-!
# MyRiscvCore — run control of the debugger

What the client may rely on when it steps the machine: `Control` is an automaton over what happens in a session, which
knows whether the machine is paused, which command let it go on, and what it has done since. `Control.Admits` says what
may come next. A pause ends one cycle after a `step`, with the first cycle that commits after a `stepcommit` or with
the cycle in which the machine sees that a pause is asked for, and only with the latter after a `continue`; commands are
handled in pauses only, and a cycle never runs in one. `run_control` says that all interleavings of the three threads
keep to it.

The automaton forgets, when the machine goes on, that a pause was asked for, because the main thread does: it clears
`ctrl_c_detected` after the commands. A `pause` that the receive thread sees before that moment does not stop the
machine again, so that after a `continue` nothing is answered until the next `pause`.
-/

namespace MyRiscvCore

structure Control where
  paused : Bool
  /-- The command that lets, or let, the machine go on. -/
  command : Option Release
  /-- The cycles since it went on, and whether they committed. -/
  cycles : List Bool
  /-- Since then a pause was asked for. -/
  noticed : Bool
  /-- The cycles after that. -/
  late : Nat

namespace Control

/-- Before the first pause. -/
def init : Control := ⟨false, none, [], false, 0⟩

def next (c : Control) : Obs → Control
  | .paused => { c with paused := true, command := none }
  | .handled packet _ => { c with command := releaseOf packet }
  | .resumed => { c with paused := false, cycles := [], noticed := false, late := 0 }
  | .cycle _ committed =>
    { c with cycles := c.cycles ++ [committed], late := if c.noticed then c.late + 1 else c.late }
  | .noticed => { c with noticed := true }
  | .received _ | .posted _ | .sent _ => c

def after (obs : List Obs) : Control := obs.foldl next init

/-- The machine may stop. -/
def MayPause (c : Control) : Prop :=
  match c.command with
  | none => c.cycles = []
  | some .step => c.cycles.length = 1
  | some .stepcommit => ∃ before last, c.cycles = before ++ [last] ∧ true ∉ before ∧ (last = true ∨ c.noticed = true)
  | some .cont => c.cycles ≠ [] ∧ c.noticed = true

/-- The machine may run another cycle. -/
def MayRun (c : Control) : Prop :=
  c.late = 0 ∧
    match c.command with
    | none => False
    | some .step => c.cycles = []
    | some .stepcommit => true ∉ c.cycles
    | some .cont => True

/-- What may happen next. -/
def Admits (c : Control) : Obs → Prop
  | .paused => c.paused = false ∧ c.MayPause ∧ c.late ≤ 1
  | .handled _ _ => c.paused = true ∧ c.command = none
  | .resumed => c.paused = true ∧ c.command ≠ none
  | .cycle _ _ => c.paused = false ∧ c.MayRun
  | .noticed | .received _ | .posted _ | .sent _ => True

end Control

/-! ## The main thread

The invariant ties the flags of the source to the automaton's state. -/

/-- The flags are those of the command. -/
def HasFlags (d : Debugger) (r : Release) : Prop :=
  d.stepState = r.flags.1 ∧ d.waitCommit = r.flags.2

/-- The last cycle ended as the ROB says, and those before it did not end the wait of the command. -/
def Ran (d : Debugger) (r : Release) (cycles : List Bool) : Prop :=
  ∃ before, cycles = before ++ [d.machine.rob.committed] ∧ (r = .step → before = []) ∧
    (r = .stepcommit → true ∉ before)

/-- What the automaton and the main thread agree on, by where the thread is. -/
def AtLoc (d : Debugger) (c : Control) : Prop :=
  match d.loc with
  | .head => c.paused = false ∧
    match c.command with
    | none => c.cycles = [] ∧ d.stepState = true ∧ d.waitCommit = false
    | some r => HasFlags d r ∧ Ran d r c.cycles
  | .enter => c.paused = false ∧ c.MayPause
  | .pausing => c.paused = true ∧
    match c.command with
    | none => d.pauseState = true
    | some r => d.pauseState = false ∧ HasFlags d r
  | .leave => c.paused = true ∧ ∃ r, c.command = some r ∧ HasFlags d r
  | .cycle => c.paused = false ∧ c.MayRun ∧ ∃ r, c.command = some r ∧ HasFlags d r
  | .stopped => True

structure Controlled (d : Debugger) (c : Control) : Prop where
  noticed : c.noticed = d.ctrlC
  late : c.late ≤ 1 ∧ (c.noticed = false → c.late = 0)
  loc : AtLoc d c

section Steps

variable {env : DebugEnv} {d d' : Debugger} {c : Control} {new : List Obs}

/-- A pause is asked for; what the main thread may do does not get less. -/
theorem Controlled.notice (h : Controlled d c) :
    Controlled { d with ctrlC := true } { c with noticed := true } := by
  have hpause (hpause : c.MayPause) : Control.MayPause { c with noticed := true } := by
    unfold Control.MayPause at hpause ⊢
    split at hpause
    next hc => simpa [hc] using hpause
    next hc => simpa [hc] using hpause
    next hc =>
      obtain ⟨before, last, heq, hnot, -⟩ := hpause
      rw [hc]
      exact ⟨before, last, heq, hnot, .inr rfl⟩
    next hc =>
      rw [hc]
      exact ⟨hpause.1, rfl⟩
  refine ⟨rfl, ⟨h.late.1, fun hn => by cases hn⟩, ?_⟩
  have hloc := h.loc
  unfold AtLoc at hloc ⊢
  cases hcase : d.loc with
  | enter =>
    rw [hcase] at hloc
    exact ⟨hloc.1, hpause hloc.2⟩
  | _ =>
    rw [hcase] at hloc
    exact hloc

/-- The condition of the loop holds: the command has done what it was to do, or a pause was asked for. -/
theorem Controlled.mayPause (h : Controlled d c) (hloc : d.loc = .head) (hs : d.stops = true) :
    c.paused = false ∧ c.MayPause := by
  have hat := h.loc
  rw [AtLoc, hloc] at hat
  obtain ⟨hpaused, hat⟩ := hat
  refine ⟨hpaused, ?_⟩
  unfold Control.MayPause
  cases hc : c.command with
  | none =>
    rw [hc] at hat
    exact hat.1
  | some r =>
    rw [hc] at hat
    obtain ⟨⟨hstep, hwait⟩, before, hcycles, hone, hnone⟩ := hat
    rw [hcycles]
    unfold Debugger.stops at hs
    rw [← h.noticed, hstep, hwait] at hs
    cases r with
    | step => simp [hone rfl]
    | stepcommit =>
      refine ⟨before, _, rfl, hnone rfl, ?_⟩
      simpa [Release.flags, or_comm] using hs
    | cont => simpa [Release.flags] using hs

/-- The condition does not hold: the wait goes on. -/
theorem Controlled.mayRun (h : Controlled d c) (hloc : d.loc = .head) (hs : d.stops = false) :
    c.paused = false ∧ c.MayRun ∧ ∃ r, c.command = some r ∧ HasFlags d r := by
  have hat := h.loc
  rw [AtLoc, hloc] at hat
  obtain ⟨hpaused, hat⟩ := hat
  unfold Debugger.stops at hs
  rw [← h.noticed, Bool.or_eq_false_iff] at hs
  obtain ⟨hnoticed, hs⟩ := hs
  refine ⟨hpaused, ?_⟩
  unfold Control.MayRun
  cases hc : c.command with
  | none =>
    rw [hc] at hat
    rw [hat.2.1, hat.2.2] at hs
    cases hs
  | some r =>
    rw [hc] at hat
    obtain ⟨hflags, before, hcycles, hone, hnone⟩ := hat
    refine ⟨⟨h.late.2 hnoticed, ?_⟩, r, rfl, hflags⟩
    rw [hflags.1, hflags.2] at hs
    rw [hcycles]
    cases r with
    | step => cases hs
    -- it stops after the first cycle that commits
    | stepcommit =>
      have hcommitted : d.machine.rob.committed = false := by simpa [Release.flags] using hs
      rw [hcommitted]
      simpa using hnone rfl
    | cont => trivial

theorem Controlled.step (h : Controlled d c) (hs : Stepped env d d' new) :
    Controlled d' (new.foldl Control.next c) ∧ ∀ o ∈ new, c.Admits o := by
  cases hs with
  | idle => exact ⟨h, by simp⟩
  | stop hloc hs => exact ⟨⟨h.noticed, h.late, h.mayPause hloc hs⟩, by simp⟩
  | go hloc hs => exact ⟨⟨h.noticed, h.late, h.mayRun hloc hs⟩, by simp⟩
  -- the main thread: it pauses, handles commands, and runs again
  | enter hloc stepState waitCommit hc =>
    have hat := h.loc
    rw [AtLoc, hloc] at hat
    refine ⟨⟨h.noticed, h.late, rfl, rfl⟩, ?_⟩
    rintro o ho
    rw [List.mem_singleton.mp ho]
    exact ⟨hat.1, hat.2, h.late.1⟩
  | @handle hloc hp packet rest hq d₁ reply hh =>
    have hat := h.loc
    rw [AtLoc, hloc] at hat
    obtain ⟨hpaused, hat⟩ := hat
    have hnone : c.command = none := by
      cases hc : c.command with
      | none => rfl
      | some r =>
        rw [hc] at hat
        cases hp.symm.trans hat.1
    have hd := socketCmdHandle_handled hh
    refine ⟨⟨h.noticed.trans hd.ctrlC.symm, h.late, ?_⟩, ?_⟩
    · unfold AtLoc
      cases hstop : d₁.programStop with
      | true => trivial
      | false =>
        refine ⟨hpaused, ?_⟩
        show match releaseOf packet with
          | none => d₁.pauseState = true
          | some r => d₁.pauseState = false ∧ HasFlags _ r
        cases hr : releaseOf packet with
        | none => exact (hd.kept hr).trans hp
        | some r => exact hd.released r hr
    · rintro o ho
      rw [List.mem_singleton.mp ho]
      exact ⟨hpaused, hnone⟩
  | leave hloc hp =>
    have hat := h.loc
    rw [AtLoc, hloc] at hat
    obtain ⟨hpaused, hat⟩ := hat
    refine ⟨⟨h.noticed, h.late, hpaused, ?_⟩, by simp⟩
    cases hc : c.command with
    | none =>
      rw [hc] at hat
      cases hp.symm.trans hat
    | some r =>
      rw [hc] at hat
      exact ⟨r, hc, hat.2⟩
  | quit hloc hp => exact ⟨⟨h.noticed, h.late, trivial⟩, by simp⟩
  | resume hloc hp =>
    have hat := h.loc
    rw [AtLoc, hloc] at hat
    obtain ⟨hpaused, r, hc, hflags⟩ := hat
    refine ⟨⟨rfl, ⟨Nat.zero_le 1, fun _ => rfl⟩, rfl, ⟨rfl, ?_⟩, r, hc, hflags⟩, ?_⟩
    · show match c.command with
        | none => False
        | some .step => ([] : List Bool) = []
        | some .stepcommit => true ∉ []
        | some .cont => True
      rw [hc]
      cases r <;> simp
    · rintro o ho
      rw [List.mem_singleton.mp ho]
      refine ⟨hpaused, ?_⟩
      rw [hc]
      exact Option.some_ne_none r
  | @cycle hloc m log hcyc =>
    have hat := h.loc
    rw [AtLoc, hloc] at hat
    obtain ⟨hpaused, hrun, r, hc, hflags⟩ := hat
    refine ⟨⟨h.noticed, ?_, hpaused, ?_⟩, ?_⟩
    · show (if c.noticed then c.late + 1 else c.late) ≤ 1 ∧
        (c.noticed = false → (if c.noticed then c.late + 1 else c.late) = 0)
      rw [hrun.1]
      cases c.noticed <;> simp
    · show match c.command with
        | none => _
        | some r => _
      rw [hc]
      refine ⟨hflags, c.cycles, rfl, ?_, ?_⟩
      · rintro rfl
        have hcycles := hrun.2
        rw [hc] at hcycles
        exact hcycles
      · rintro rfl
        have hcycles := hrun.2
        rw [hc] at hcycles
        exact hcycles
    · rintro o ho
      rw [List.mem_singleton.mp ho]
      exact ⟨hpaused, hrun⟩
  -- the other threads leave the main thread where it is
  | receive hr ha hn => exact ⟨⟨h.noticed, h.late, h.loc⟩, by simp [Control.Admits]⟩
  | complete hr ha hn => exact ⟨⟨h.noticed, h.late, h.loc⟩, by simp [Control.Admits]⟩
  | notice hr hp => exact ⟨⟨h.notice.noticed, h.notice.late, h.notice.loc⟩, by simp [Control.Admits]⟩
  | pass hr hp => exact ⟨⟨h.noticed, h.late, h.loc⟩, by simp⟩
  | post hr => exact ⟨⟨h.noticed, h.late, h.loc⟩, by simp [Control.Admits]⟩
  | send hq => exact ⟨⟨h.noticed, h.late, h.loc⟩, by simp [Control.Admits]⟩
  | key => exact ⟨h.notice, by simp [Control.Admits]⟩

end Steps

/-- In every session, whatever the order of the threads, everything that happens is what the automaton admits. -/
theorem run_control {env : DebugEnv} {actions : List Action} {d : Debugger} {obs : List Obs}
    (h : Debugger.run env actions = .ok (d, obs)) :
    ∀ before o later, obs = before ++ o :: later → (Control.after before).Admits o := by
  refine (Debugger.run_induction (P := fun d obs => Controlled d (Control.after obs) ∧
    ∀ before o later, obs = before ++ o :: later → (Control.after before).Admits o) ?_ ?_ h).2
  · intro d hd
    obtain ⟨m, -, hd⟩ := bind_eq_ok.mp hd
    cases hd
    refine ⟨⟨rfl, ⟨Nat.zero_le 1, fun _ => rfl⟩, rfl, rfl, rfl, rfl⟩, ?_⟩
    intro before o later hsplit
    cases before <;> cases hsplit
  · rintro d obs d' new ⟨hc, hadmits⟩ hstep
    obtain ⟨hc', hnew⟩ := hc.step hstep
    exact ⟨by rwa [Control.after, List.foldl_append], hstep.splits hadmits hnew⟩

def DebugEnv.ofProgram (words : List Word) : DebugEnv where
  toEnv := Env.ofProgram words
  csrInfo := fun _ => []
  pipelineStatus := fun _ _ => []

/-- A packet arrives and is handled. -/
def serve (packet : Text) : List Action :=
  [.receive (packetFormat.header packet.length), .receive packet, .recv, .recv, .main]

/-- The machine leaves a pause, runs a cycle and stops again. -/
def stepOnce : List Action := List.replicate 5 .main

/-- The session answers, and this holds at its end. -/
def sessionEnds (P : Debugger → List Obs → Bool) : Except Halt (Debugger × List Obs) → Bool
  | .ok (d, obs) => P d obs
  | .error _ => false

theorem exists_session_of (env : DebugEnv) (actions : List Action) {P : Debugger → List Obs → Bool}
    (h : sessionEnds P (Debugger.run env actions) = true) :
    ∃ d obs, Debugger.run env actions = .ok (d, obs) ∧ P d obs = true := by
  cases hrun : Debugger.run env actions with
  | error err =>
    rw [hrun] at h
    cases h
  | ok x =>
    rw [hrun] at h
    exact ⟨x.1, x.2, rfl, h⟩

/-- The client lets the machine do one cycle. -/
def stepSession : List Action := [.main, .main] ++ serve (text "1 step") ++ stepOnce

theorem run_control_step : ∃ d obs, Debugger.run (.ofProgram [0x00100093]) stepSession = .ok (d, obs) ∧
      (logsOf obs).length = 1 ∧ d.loc = .pausing ∧
      ∀ before o later, obs = before ++ o :: later → (Control.after before).Admits o := by
  obtain ⟨d, obs, h, hP⟩ := exists_session_of (.ofProgram [0x00100093]) stepSession
    (P := fun d obs => (logsOf obs).length == 1 && d.loc == .pausing) (by decide +kernel)
  simp only [Bool.and_eq_true, beq_iff_eq] at hP
  exact ⟨d, obs, h, hP.1, hP.2, run_control h⟩

end MyRiscvCore
