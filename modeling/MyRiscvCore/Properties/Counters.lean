import MyRiscvCore.Lib.Bits
import MyRiscvCore.Pipeline.CommitFacts
import MyRiscvCore.Properties.Renaming

/-!
# MyRiscvCore — the retired-instruction counter

`minstret` and `minstreth` are rewritten at the end of every cycle from `global_commit_num`, which commit adds
to at every retirement, and also when it enters a handler: an instruction that traps is counted though it does
not retire, and one that an interrupt preempts is counted again when it is executed later. So the counter is
the number of events of the history (`run_minstret`), and it is the number of retirements as long as no trap
is taken.
-/

namespace MyRiscvCore

/-- `minstreth` and `minstret` as one number. -/
def minstret (m : Machine) : BitVec 64 :=
  m.csrFile.value csrMinstreth ++ m.csrFile.value csrMinstret

/-- The instructions retired so far. -/
def retiredCount (events : List Event) : Nat := events.countP (·.isRetire)

/-- The traps taken so far. -/
def trapCount (events : List Event) : Nat := events.countP (!·.isRetire)

theorem retiredCount_add_trapCount (events : List Event) :
    retiredCount events + trapCount events = events.length := by
  rw [retiredCount, trapCount, List.length_eq_countP_add_countP (·.isRetire)]
  simp

theorem trapCount_append (events events' : List Event) :
    trapCount (events ++ events') = trapCount events + trapCount events' :=
  List.countP_append

theorem trapCount_retireEvents (mepc : Word) (b : Arch) (es : List Entry) :
    trapCount (retireEvents mepc b es) = 0 := by
  induction es generalizing b with
  | nil => rfl
  | cons e es ih => simpa [retireEvents, trapCount, Event.isRetire] using ih _

section Cycle

variable {env : Env} {n : Nat} {m : Machine} {w : Window} {s : Stages} {u : Updates}

/-- The CSR pair shows the commit count at the end of the cycle. -/
theorem Stages.Synced.minstret (h : s.Synced env n m u) :
    MyRiscvCore.minstret (s.machine env n m u) = s.rn.rob.globalCommitNum := by
  have hlow := sysWrites_value h.counted
    (r := .writeSys csrMinstret (s.rn.rob.globalCommitNum.setWidth 32)) (by simp [sysWrites, counterRequests])
  have hhigh := sysWrites_value h.counted
    (r := .writeSys csrMinstreth ((s.rn.rob.globalCommitNum >>> 32).setWidth 32))
    (by simp [sysWrites, counterRequests])
  calc MyRiscvCore.minstret (s.machine env n m u)
      = (s.rn.rob.globalCommitNum >>> 32).setWidth 32 ++ s.rn.rob.globalCommitNum.setWidth 32 :=
        congrArg₂ (fun a b : Word => a ++ b) hhigh hlow
    _ = s.rn.rob.globalCommitNum := Bits.append_parts (n := 32) (w := 32) _

/-- What a cycle adds to the history: the instructions it retires, or the trap it enters; commit counts each. -/
theorem CycleCase.counted (h : CycleCase env n m w s) (hu : s.Synced env n m u) :
    ∃ evs, (w.step (s.log env n m u)).events = w.events ++ evs ∧ trapCount evs ≤ 1 ∧
      s.rn.rob.globalCommitNum = m.rob.globalCommitNum + BitVec.ofNat 64 evs.length := by
  cases h with
  | flow h f =>
    refine ⟨_, f.step_events h u, by rw [trapCount_retireEvents]; exact zero_le_one, ?_⟩
    rw [f.rename.rob, (Commit.run_normal h.phase f.ran.commit).1, f.commit.retired, length_retiredItems,
      length_retireEvents]
  | flush h g =>
    refine ⟨_, g.step_events h hu, by rw [trapCount_retireEvents]; exact zero_le_one, ?_⟩
    rw [g.stages.rename, (Commit.run_normal h.phase g.stages.ran.commit).1, g.commit.retired, length_retiredItems,
      length_retireEvents]
  | walk v h =>
    by_cases hpre : v.pre = []
    · refine ⟨[w.trapEvent (s.log env n m u)], by rw [v.step_last h (v.updated h hu) hpre], List.countP_le_length,
        ?_⟩
      rw [v.stages.rename, (v.commit.last hpre).2.2.1]
      rfl
    · refine ⟨[], by rw [v.step_eq h (v.updated h hu) hpre, List.append_nil], Nat.zero_le _, ?_⟩
      obtain ⟨pre', x, hpre'⟩ := (List.eq_nil_or_concat v.pre).resolve_left hpre
      rw [v.stages.rename, (v.commit.step pre' x (by rw [hpre', List.concat_eq_append])).2.2.1]
      exact (BitVec.add_zero _).symm

end Cycle

section Run

variable {env : Env} {n : Nat} {m : Machine} {logs : List CycleLog}

/-- The counter is the number of events, retirements and traps alike. -/
theorem run_minstret (h : run env n = .ok (m, logs)) :
    minstret m = BitVec.ofNat 64 (Window.after env logs).events.length := by
  refine ((run_induction (P := fun _ m logs =>
    m.rob.globalCommitNum = BitVec.ofNat 64 (Window.after env logs).events.length ∧
      minstret m = BitVec.ofNat 64 (Window.after env logs).events.length)
    (fun m hm _ => ?_) (fun n m logs s u _ hP hcase hu => ?_) h).2).2
  · obtain ⟨rat, -, hm⟩ := bind_eq_ok.mp hm
    obtain ⟨regfile, -, hm⟩ := bind_eq_ok.mp hm
    cases hm
    refine ⟨rfl, ?_⟩
    show Csrfile.reset.value csrMinstreth ++ Csrfile.reset.value csrMinstret = BitVec.ofNat 64 0
    decide
  · obtain ⟨evs, hevents, -, hcount⟩ := hcase.counted hu
    have hlen : s.rn.rob.globalCommitNum =
        BitVec.ofNat 64 (Window.after env (logs ++ [s.log env n m u])).events.length := by
      rw [Window.after_snoc, hevents, List.length_append, hcount, hP.1, BitVec.ofNat_add]
    exact ⟨hlen, hu.minstret.trans hlen⟩

/-- The traps only grow, by one a cycle. -/
theorem trapCount_succ {m' : Machine} {logs' : List CycleLog} (h : run env n = .ok (m, logs))
    (h' : run env (n + 1) = .ok (m', logs')) :
    trapCount (Window.after env logs').events = trapCount (Window.after env logs).events ∨
      trapCount (Window.after env logs').events = trapCount (Window.after env logs).events + 1 := by
  obtain ⟨m₀, logs₀, log, hrun, hc, rfl⟩ := run_succ.mp h'
  cases h.symm.trans hrun
  obtain ⟨s, u, hcase, hu, rfl, rfl⟩ := (run_refines h).cycle_ok hc
  obtain ⟨evs, hevents, hle, -⟩ := hcase.counted hu
  rw [Window.after_snoc, hevents, trapCount_append]
  omega

/-- The counter of a run: at every cycle boundary up to the `n`-th it is the number of instructions retired,
and a cycle that takes a trap leaves it alone. -/
structure InstretOk (env : Env) (n : Nat) : Prop where
  counts : ∀ k ≤ n, ∀ m logs, run env k = .ok (m, logs) →
    minstret m = BitVec.ofNat 64 (retiredCount (Window.after env logs).events)
  traps : ∀ k < n, ∀ m logs m' logs', run env k = .ok (m, logs) → run env (k + 1) = .ok (m', logs') →
    trapCount (Window.after env logs').events ≠ trapCount (Window.after env logs).events →
    minstret m' = minstret m

/-- A run that has taken a trap has a boundary with exactly one trap behind it. -/
theorem exists_first_trap (h : run env n = .ok (m, logs)) (htrap : trapCount (Window.after env logs).events ≠ 0) :
    ∃ k ≤ n, ∃ m' logs', run env k = .ok (m', logs') ∧ trapCount (Window.after env logs').events = 1 := by
  induction n generalizing m logs with
  | zero =>
    obtain ⟨-, rfl⟩ := run_zero h
    exact absurd rfl htrap
  | succ n ih =>
    obtain ⟨m₀, logs₀, log, hrun, -, -⟩ := run_succ.mp h
    by_cases hzero : trapCount (Window.after env logs₀).events = 0
    · refine ⟨n + 1, le_rfl, m, logs, h, ?_⟩
      have := trapCount_succ hrun h
      omega
    · obtain ⟨k, hk, hrest⟩ := ih hrun hzero
      exact ⟨k, hk.trans (Nat.le_succ n), hrest⟩

/-- The counter counts the retired instructions exactly as long as no trap is taken. -/
theorem retired_counter (h : run env n = .ok (m, logs)) :
    InstretOk env n ↔ trapCount (Window.after env logs).events = 0 := by
  constructor
  · intro hok
    by_contra htrap
    obtain ⟨k, hk, m', logs', h', hone⟩ := exists_first_trap h htrap
    have hcount := hok.counts k hk m' logs' h'
    rw [run_minstret h', ← retiredCount_add_trapCount, hone, BitVec.ofNat_add] at hcount
    exact absurd (BitVec.add_right_eq_self.mp hcount) (by decide)
  · intro hzero
    have hnone {k : Nat} (hk : k ≤ n) {m' : Machine} {logs' : List CycleLog} (h' : run env k = .ok (m', logs')) :
        trapCount (Window.after env logs').events = 0 := by
      obtain ⟨evs, hevs⟩ := Window.after_events env (run_logs h' hk h)
      rw [hevs, trapCount_append] at hzero
      omega
    refine ⟨fun k hk m' logs' h' => ?_, fun k hk m₁ logs₁ m₂ logs₂ h₁ h₂ hne => ?_⟩
    · rw [run_minstret h', ← retiredCount_add_trapCount, hnone hk h', Nat.add_zero]
    · exact absurd ((hnone hk h₂).trans (hnone hk.le h₁).symm) hne

theorem retired_counter_doubleWrite : ∃ m logs, run (Env.ofProgram doubleWrite) 13 = .ok (m, logs) ∧
    trapCount (Window.after (Env.ofProgram doubleWrite) logs).events = 0 ∧
    0 < retiredCount (Window.after (Env.ofProgram doubleWrite) logs).events ∧
    InstretOk (Env.ofProgram doubleWrite) 13 := by
  obtain ⟨m, logs, h, hP⟩ := exists_run_of (show endsWith (fun _ logs =>
    let events := (Window.after (Env.ofProgram doubleWrite) logs).events
    decide (trapCount events = 0 ∧ 0 < retiredCount events)) (run (Env.ofProgram doubleWrite) 13) = true by
      decide +kernel)
  obtain ⟨hzero, hpos⟩ := of_decide_eq_true hP
  exact ⟨m, logs, h, hzero, hpos, (retired_counter h).mpr hzero⟩

/-- `ecall`, with a `fence.i` behind it that keeps the pipeline short. -/
def ecallOnly : List Word := [0x00000073, 0x0000100f]

/-- The exception is counted. -/
theorem retired_counter_ecall : ∃ m logs, run (Env.ofProgram ecallOnly) 12 = .ok (m, logs) ∧
    retiredCount (Window.after (Env.ofProgram ecallOnly) logs).events = 0 ∧ minstret m = 1 ∧
    ¬ InstretOk (Env.ofProgram ecallOnly) 12 := by
  obtain ⟨m, logs, h, hP⟩ := exists_run_of (show endsWith (fun m logs =>
    decide (retiredCount (Window.after (Env.ofProgram ecallOnly) logs).events = 0 ∧ minstret m = 1))
      (run (Env.ofProgram ecallOnly) 12) = true by decide +kernel)
  obtain ⟨hzero, hone⟩ := of_decide_eq_true hP
  refine ⟨m, logs, h, hzero, hone, fun hok => ?_⟩
  have hcount := hok.counts 12 le_rfl m logs h
  rw [hzero, hone] at hcount
  exact absurd hcount (by decide)

end Run

end MyRiscvCore
