import MyRiscvCore.Properties.Assertions
import MyRiscvCore.Properties.Traps
import MyRiscvCore.Refine.FrontProgress

/-!
# MyRiscvCore — jumps to misaligned addresses

A jump to an address that is 2 modulo 4 retires, and its target is fetched as a word with an
instruction-address-misaligned exception. Two things can go wrong before that is taken: fetch reads the words of
the group for its trace and a slave asserts their alignment (`Unreadable`), or an interrupt comes first.
-/

namespace MyRiscvCore

/-! ## Progress of the front end

With nothing in flight, a misaligned pc is fetched, decoded and renamed in at most four cycles. -/

section Front

variable {env : Env} {n : Nat} {m m' : Machine} {w : Window} {s : Stages} {u : Updates} {logs logs' : List CycleLog}

/-- A front that begins at a misaligned pc begins with a word that was fetched with an exception. -/
theorem PackOk.misaligned {x : DecodeRenamePack} (h : PackOk x) (hmis : Bus.checkAlign x.pc .word = false) :
    x.enable = true ∧ x.valid = false ∧ x.hasException = true ∧ x.op = .add ∧ x.opUnit = .alu ∧
      x.exceptionId = .instructionAddressMisaligned ∧ x.exceptionValue = x.pc := by
  obtain ⟨p, hf, rfl⟩ := h
  rw [decodePack_pc] at hmis ⊢
  have hex : p.hasException = true := by rw [hf.misaligned, hmis]; rfl
  obtain ⟨hid, hvalue⟩ := hf.cause hex
  have hinfo : (Decode.decodePack p).toDecodeInfo = Decode.decodeWord p.pc 0 true := by
    rw [← hf.exception hex, ← hex]
    rfl
  rw [hinfo]
  exact ⟨rfl, rfl, hex, rfl, rfl, hid, hvalue⟩

/-- With nothing in flight at a misaligned pc, the next event waits for an instruction to be renamed, which takes
as many cycles as its distance. -/
theorem front_run {k : Nat} (h : run env n = .ok (m, logs)) (hflight : (Window.after env logs).flight = [])
    (hmis : Bus.checkAlign (Window.after env logs).arch.pc .word = false) (hk : frontDistance m ≤ k)
    (h' : run env (n + k) = .ok (m', logs')) :
    ∃ j ≤ k, ∃ m₁ logs₁, run env (n + j) = .ok (m₁, logs₁) ∧
      (Window.after env logs₁).events = (Window.after env logs).events ∧ (Window.after env logs₁).flight ≠ [] := by
  induction k generalizing n m logs with
  | zero => exact absurd hk (Nat.not_le_of_lt (frontDistance_pos m))
  | succ k ih =>
    obtain ⟨m₁, logs₁, h₁⟩ := exists_run_le (k := n + 1) h' (by omega)
    obtain ⟨m₀, logs₀, log, hrun, hc, rfl⟩ := run_succ.mp h₁
    cases h.symm.trans hrun
    obtain ⟨s, u, hcase, hu, rfl, rfl⟩ := (run_refines h).cycle_ok hc
    obtain ⟨hnormal, ⟨f⟩⟩ := hcase.flow_of_empty hflight
    obtain ⟨hret, hrest⟩ := List.append_eq_nil_iff.mp (f.flight.symm.trans hflight)
    have hevents : (Window.after env (logs ++ [s.log env n m u])).events = (Window.after env logs).events := by
      rw [Window.after_snoc, f.step_events hnormal u, hret, retireEvents, List.append_nil]
    have hnew : (Window.after env (logs ++ [s.log env n m u])).flight = f.news := by
      rw [Window.after_snoc, f.step_eq hnormal u, f.window_flight u, hrest]
      rfl
    -- no `fence.i` is read at a misaligned `pc`, so fetch does not wait
    have hstep : f.news ≠ [] ∨ frontDistance (s.machine env n m u) < frontDistance m :=
      (f.front_step hnormal hflight u).imp_right fun hnear => hnear.resolve_right fun hwaits => by
        cases hmis.symm.trans hwaits.2.1
    obtain hnews | hnear := hstep
    · exact ⟨1, Nat.succ_le_succ (Nat.zero_le k), _, _, h₁, hevents, by rw [hnew]; exact hnews⟩
    · by_cases hnil : f.news = []
      · have harch : (Window.after env (logs ++ [s.log env n m u])).arch = (Window.after env logs).arch := by
          rw [← (run_inOrder h₁).arch, ← (run_inOrder h).arch, hevents]
        obtain ⟨j, hj, m₂, logs₂, h₂, hev₂, hne⟩ := ih h₁ (hnew.trans hnil) (by rw [harch]; exact hmis)
          (Nat.le_of_lt_succ (hnear.trans_le hk)) (by rw [← h']; congr 1; omega)
        exact ⟨j + 1, Nat.succ_le_succ hj, m₂, logs₂, by rw [← h₂]; congr 1; omega, hev₂.trans hevents, hne⟩
      · exact ⟨1, Nat.succ_le_succ (Nat.zero_le k), _, _, h₁, hevents, by rw [hnew]; exact hnil⟩

end Front

section Trap

variable {env : Env} {n : Nat} {m m' m₁ : Machine} {w : Window} {s : Stages} {u : Updates}
  {logs logs' : List CycleLog} {e : Entry} {rest : List Entry}

/-- The oldest instruction is the one at the architectural pc. -/
theorem Refines.head_pc (h : Refines m w) (hf : w.flight = e :: rest) : e.op.pc = w.arch.pc := by
  obtain h | ⟨j, h⟩ := h
  · have hpath := h.path
    rw [hf] at hpath
    exact hpath.1
  · have hpc := h.pc
    rw [hf] at hpc
    exact Option.some.inj hpc

/-- The ALU passes on the exception of a word that was fetched with one. -/
theorem UnitResult.raised {regs : Nat → Word} {op : RenameReadregOp} {r : ExecuteWbPack}
    (h : UnitResult (archPack regs op) r) (hv : op.valid = false) (hunit : op.opUnit = .alu)
    (hexc : op.hasException = true) : r.toExceptionInfo = op.toExceptionInfo := by
  have hinfo : (archPack regs op).toDecodeInfo = op.toDecodeInfo := by rw [archPack, packOf_info]
  have hunit' : (archPack regs op).opUnit = .alu := (congrArg (·.opUnit) hinfo).trans hunit
  have hraised : (archPack regs op).toExceptionInfo = op.toExceptionInfo := packOf_exception (by rw [hv]; rfl)
  have hexc' : (archPack regs op).hasException = true := (congrArg (·.hasException) hraised).trans hexc
  unfold UnitResult at h
  rw [hunit'] at h
  have h : r = Execute.alu (archPack regs op) := h
  rw [h, Execute.alu, hexc', Bool.not_true, Bool.and_false, if_neg Bool.false_ne_true, ← hraised]
  rfl

/-- The exception of the misaligned address `target`, from `m` to `m₁`. -/
structure TargetTrap (m m₁ : Machine) (target : Word) (evs : List Event) : Prop where
  event : ∃ b e handler writes, evs = [.exception b e handler writes]
  trapped : Trapped m m₁ (target &&& 0xFFFFFFFC) .instructionAddressMisaligned target

/-- An instruction at a misaligned pc that has become the oldest one traps. -/
theorem misaligned_head {k : Nat} (h : run env n = .ok (m, logs)) (hf : (Window.after env logs).flight = e :: rest)
    (hmis : Bus.checkAlign (Window.after env logs).arch.pc .word = false) (hk : robSize + 9 ≤ k)
    (h' : run env (n + k) = .ok (m', logs')) :
    ∃ j ≤ k, ∃ m₁ logs₁ evs, run env (n + j) = .ok (m₁, logs₁) ∧
      (Window.after env logs₁).events = (Window.after env logs).events ++ evs ∧
      (Preempted evs ∨ ∃ b e r handler writes, evs = [.exception b e handler writes] ∧ e.status = .finished r ∧
        e.op.pc = (Window.after env logs).arch.pc ∧ r.exceptionId = .instructionAddressMisaligned ∧
        r.exceptionValue = (Window.after env logs).arch.pc) := by
  have hpc := (run_refines h).head_pc hf
  obtain ⟨-, hv, hexc, hop, hunit, hid, hvalue⟩ :=
    (run_packOk h e (by rw [hf]; exact List.mem_cons_self)).misaligned (by rw [← hpc] at hmis; exact hmis)
  obtain ⟨j, hj, m₁, logs₁, evs, h₁, hevents, hfate⟩ :=
    oldest_fate h hf (by rw [show e.op.op = .add from hop]; decide) hk h'
  refine ⟨j, hj, m₁, logs₁, evs, h₁, hevents, ?_⟩
  -- it cannot retire: the ALU passes the exception on
  cases hfate with
  | interrupt b handler writes => exact .inl ⟨b, handler, writes, rfl⟩
  | @trap r b handler writes hx hr ht =>
    have hinfo := hr.result.raised hv hunit hexc
    refine .inr ⟨b, _, r, handler, writes, rfl, rfl, hpc, ?_, ?_⟩
    · rw [← hid]
      exact congrArg (·.exceptionId) hinfo
    · rw [← hpc]
      exact (congrArg (·.exceptionValue) hinfo).trans hvalue
  | @retire r b mepc evs hx hr =>
    have hraised : r.hasException = true := (congrArg (·.hasException) (hr.result.raised hv hunit hexc)).trans hexc
    rw [hx] at hraised
    cases hraised

/-- A run that goes on from a misaligned pc takes the exception, unless an interrupt comes first. -/
theorem misaligned_next {k : Nat} (h : run env n = .ok (m, logs))
    (hmis : Bus.checkAlign (Window.after env logs).arch.pc .word = false) (hk : robSize + 13 ≤ k)
    (h' : run env (n + k) = .ok (m', logs')) :
    ∃ j ≤ k, ∃ m₁ logs₁ evs, run env (n + j) = .ok (m₁, logs₁) ∧
      (Window.after env logs₁).events = (Window.after env logs).events ++ evs ∧
      (TargetTrap m m₁ (Window.after env logs).arch.pc evs ↔ ¬ Preempted evs) := by
  -- the instruction is in flight after at most four cycles
  obtain ⟨i, hi, m₀, logs₀, h₀, hevents₀, hne⟩ : ∃ i ≤ 4, ∃ m₀ logs₀, run env (n + i) = .ok (m₀, logs₀) ∧
      (Window.after env logs₀).events = (Window.after env logs).events ∧ (Window.after env logs₀).flight ≠ [] := by
    by_cases hflight : (Window.after env logs).flight = []
    · obtain ⟨m₂, logs₂, h₂⟩ := exists_run_le (k := n + 4) h' (by omega)
      exact front_run h hflight hmis (frontDistance_le m) h₂
    · exact ⟨0, Nat.zero_le 4, m, logs, h, rfl, hflight⟩
  have harch : (Window.after env logs₀).arch = (Window.after env logs).arch := by
    rw [← (run_inOrder h₀).arch, ← (run_inOrder h).arch, hevents₀]
  obtain ⟨e, rest, hf⟩ := List.exists_cons_of_ne_nil hne
  obtain ⟨j, hj, m₁, logs₁, evs, h₁, hevents, hend⟩ := misaligned_head (k := k - i) h₀ hf (by rw [harch]; exact hmis)
    (by omega) (by rw [← h']; congr 1; omega)
  rw [harch] at hend
  rw [hevents₀] at hevents
  refine ⟨i + j, by omega, m₁, logs₁, evs, by rw [← h₁, Nat.add_assoc], hevents, ?_⟩
  obtain ⟨b, handler, writes, rfl⟩ | ⟨b, x, r, handler, writes, rfl, hs, hpc, hid, hvalue⟩ := hend
  · refine iff_of_false (fun ht => ?_) (not_not_intro ⟨b, handler, writes, rfl⟩)
    obtain ⟨b', e', handler', writes', heq⟩ := ht.event
    cases heq
  · refine iff_of_true ⟨⟨b, x, handler, writes, rfl⟩, ?_⟩ ?_
    · have ht := exception_trapped h h₁ hevents hs
      rw [hpc, hid, hvalue] at ht
      exact ht
    · rintro ⟨b', handler', writes', heq⟩
      cases heq

/-- A jump is the last instruction to retire in its cycle. -/
theorem CycleCase.jump_last (h : CycleCase env n m w s) (hu : s.Synced env n m u) :
    ∃ evs, (w.step (s.log env n m u)).events = w.events ++ evs ∧ ∀ pre b mepc e post,
      evs = pre ++ .retire b mepc e :: post → e.op.opUnit = .bru → post = [] := by
  -- a jump is the last of its group
  have hretired {ret : List Entry} {mepc : Word} {b : Arch}
      (hinner : ∀ pre e post, ret = pre ++ e :: post → e.op.opUnit = .bru → post = []) :
      ∀ pre b' mepc' e post, retireEvents mepc b ret = pre ++ .retire b' mepc' e :: post →
        e.op.opUnit = .bru → post = [] := by
    intro pre b' mepc' e post hsplit hbru
    obtain ⟨pre', post', hret, hlen⟩ := retireEvents_split hsplit
    obtain rfl := hinner pre' e post' hret hbru
    have hcount := congrArg List.length hsplit
    rw [length_retireEvents, hret] at hcount
    simp only [List.length_append, List.length_cons, List.length_nil] at hcount
    exact List.eq_nil_of_length_eq_zero (by omega)
  cases h with
  | flow h f => exact ⟨_, f.step_events h u, hretired f.commit.inner⟩
  | flush h g => exact ⟨_, g.step_events h hu, hretired g.commit.inner⟩
  | walk v h =>
    by_cases hpre : v.pre = []
    · refine ⟨[w.trapEvent (s.log env n m u)], by rw [v.step_last h (v.updated h hu) hpre], ?_⟩
      intro pre b mepc e post hsplit _
      have hcount := congrArg List.length hsplit
      simp only [List.length_append, List.length_cons, List.length_nil] at hcount
      exact List.eq_nil_of_length_eq_zero (by omega)
    · exact ⟨[], by rw [v.step_eq h (v.updated h hu) hpre, List.append_nil], fun pre b mepc e post hsplit => by
        simp at hsplit⟩

/-- A retired jump is the last event of some cycle. -/
theorem exists_jump_cycle {b : Arch} {mepc : Word} (h : run env n = .ok (m, logs))
    (hmem : .retire b mepc e ∈ (Window.after env logs).events) (hbru : e.op.opUnit = .bru) :
    ∃ k ≤ n, ∃ m₀ logs₀ evs, run env k = .ok (m₀, logs₀) ∧
      (Window.after env logs₀).events = evs ++ [.retire b mepc e] := by
  induction n generalizing m logs with
  | zero =>
    obtain ⟨-, rfl⟩ := run_zero h
    exact absurd hmem List.not_mem_nil
  | succ n ih =>
    obtain ⟨m₀, logs₀, log, hrun, hc, rfl⟩ := run_succ.mp h
    obtain ⟨s, u, hcase, hu, rfl, rfl⟩ := (run_refines hrun).cycle_ok hc
    obtain ⟨evs, hevents, hlast⟩ := hcase.jump_last hu
    rw [Window.after_snoc, hevents] at hmem
    obtain hold | hnew := List.mem_append.mp hmem
    · obtain ⟨k, hk, hrest⟩ := ih hrun hold
      exact ⟨k, hk.trans (Nat.le_succ n), hrest⟩
    · obtain ⟨pre, post, hsplit⟩ := List.append_of_mem hnew
      obtain rfl := hlast pre b mepc e post hsplit hbru
      refine ⟨n + 1, le_rfl, _, _, (Window.after env logs₀).events ++ pre, h, ?_⟩
      rw [Window.after_snoc, hevents, hsplit, List.append_assoc]

end Trap

section Target

variable {env : Env} {n : Nat} {m : Machine} {logs : List CycleLog}

/-- A run ends with the slave's assertion exactly if one of its cycles fetches where a slave refuses to be read. -/
theorem run_assertion_iff : run env n = .error (.assertion .slaveBase) ↔ ∃ k < n, ∃ m logs s pc,
    run env k = .ok (m, logs) ∧ Stages.RanBack env k m s ∧ Fetches m.fetch s.cm.fb pc ∧ Unreadable pc := by
  constructor
  · intro h
    obtain ⟨k, hk, m, logs, hrun, hc⟩ := exists_cycle_of_run_error h
    obtain ⟨-, s, pc, hrest⟩ := (run_refines hrun).cycle_assertion hc
    exact ⟨k, hk, m, logs, s, pc, hrun, hrest⟩
  · rintro ⟨k, hk, m, logs, s, pc, hrun, hback, hpc, hbad⟩
    have hc : cycle env k m = .error (.assertion .slaveBase) :=
      cycle_error_fetch hback (fetch_error_iff.mpr ⟨rfl, pc, hpc, hbad⟩)
    exact run_error_of_cycle hrun hc hk

/-- The state a retired jump leaves is the one at its target. -/
theorem target_pc {b : Arch} {mepc : Word} {e : Entry} {pre : List Event} (h : run env n = .ok (m, logs))
    (hevents : (Window.after env logs).events = pre ++ [.retire b mepc e]) :
    (Window.after env logs).arch.pc = (b.retire mepc e).pc := by
  obtain ⟨rfl, -⟩ := (run_inOrder h).events pre _ [] hevents
  rw [← (run_inOrder h).arch, hevents, InOrder.after_snoc]
  rfl

end Target

/-- A misaligned target of a retired branch, `jal` or `jalr` (whatever the BRU executes) is not reached in every run:
the simulator aborts, on the right path or a wrong one, exactly if fetch comes to a misaligned pc while one of the four
words of the group has a slave to be read from. A run that goes on takes the exception, with the target in `mtval`, and
continues at `mtvec`, exactly if no interrupt is accepted first. -/
theorem misaligned_target (env : Env) :
    (∀ n, run env n = .error (.assertion .slaveBase) ↔ ∃ k < n, ∃ m logs s pc, run env k = .ok (m, logs) ∧
      Stages.RanBack env k m s ∧ Fetches m.fetch s.cm.fb pc ∧ Unreadable pc) ∧
    ∀ n m logs b mepc e, run env n = .ok (m, logs) → .retire b mepc e ∈ (Window.after env logs).events →
      e.op.opUnit = .bru → (b.retire mepc e).pc.toNat % 4 = 2 →
      ∃ n₀ ≤ n, ∃ m₀ logs₀ pre, run env n₀ = .ok (m₀, logs₀) ∧
        (Window.after env logs₀).events = pre ++ [.retire b mepc e] ∧
        ∀ k m' logs', robSize + 13 ≤ k → run env (n₀ + k) = .ok (m', logs') →
          ∃ j ≤ k, ∃ m₁ logs₁ evs, run env (n₀ + j) = .ok (m₁, logs₁) ∧
            (Window.after env logs₁).events = pre ++ .retire b mepc e :: evs ∧
            (TargetTrap m₀ m₁ (b.retire mepc e).pc evs ↔ ¬ Preempted evs) := by
  refine ⟨fun n => run_assertion_iff, fun n m logs b mepc e h hmem hbru htarget => ?_⟩
  obtain ⟨n₀, hn, m₀, logs₀, pre, h₀, hevents⟩ := exists_jump_cycle h hmem hbru
  have hpc := target_pc h₀ hevents
  have hmis : Bus.checkAlign (Window.after env logs₀).arch.pc .word = false := by
    rw [← Bool.not_eq_true, checkAlign_iff, hpc]
    exact fun hzero => absurd (htarget.symm.trans hzero) (by decide)
  refine ⟨n₀, hn, m₀, logs₀, pre, h₀, hevents, fun k m' logs' hk h' => ?_⟩
  obtain ⟨j, hj, m₁, logs₁, evs, h₁, hevents₁, hiff⟩ := misaligned_next h₀ hmis hk h'
  rw [hpc] at hiff
  refine ⟨j, hj, m₁, logs₁, evs, h₁, ?_, hiff⟩
  rw [hevents₁, hevents, List.append_assoc]
  rfl

/-- The `jalr` to the unmapped address 2 retires in the first 11 cycles, and its target traps. -/
theorem misaligned_target_jumpMisaligned :
    ∃ (m : Machine) (logs : List CycleLog) (b : Arch) (mepc : Word) (e : Entry),
      run (Env.ofProgram jumpMisaligned) 11 = .ok (m, logs) ∧
      .retire b mepc e ∈ (Window.after (Env.ofProgram jumpMisaligned) logs).events ∧ e.op.opUnit = .bru ∧
      (b.retire mepc e).pc.toNat % 4 = 2 ∧
      ∃ n₀ ≤ 11, ∃ m₀ logs₀ pre, run (Env.ofProgram jumpMisaligned) n₀ = .ok (m₀, logs₀) ∧
        (Window.after (Env.ofProgram jumpMisaligned) logs₀).events = pre ++ [.retire b mepc e] ∧
        ∃ j ≤ 77, ∃ m₁ logs₁ evs, run (Env.ofProgram jumpMisaligned) (n₀ + j) = .ok (m₁, logs₁) ∧
          (Window.after (Env.ofProgram jumpMisaligned) logs₁).events = pre ++ .retire b mepc e :: evs ∧
          (TargetTrap m₀ m₁ (b.retire mepc e).pc evs ↔ ¬ Preempted evs) := by
  obtain ⟨m, logs, pre, ev, post, h, hevents, hP⟩ := exists_event (show eventAt (fun _ ev => match ev with
      | .retire b mepc e => e.op.opUnit == .bru && (b.retire mepc e).pc.toNat % 4 == 2
      | _ => false) (Env.ofProgram jumpMisaligned) 0 (run (Env.ofProgram jumpMisaligned) 11) = true by decide +kernel)
  obtain ⟨m', logs', h', -⟩ := exists_run_of (show endsWith (fun _ _ => true)
    (run (Env.ofProgram jumpMisaligned) 88) = true by decide +kernel)
  cases ev with
  | exception b e handler writes => cases hP
  | interrupt b handler writes => cases hP
  | retire b mepc e =>
    obtain ⟨hbru, htarget⟩ := Bool.and_eq_true_iff.mp hP
    have hmem : .retire b mepc e ∈ (Window.after (Env.ofProgram jumpMisaligned) logs).events := by
      rw [hevents]
      exact List.mem_append_right _ List.mem_cons_self
    obtain ⟨n₀, hn, m₀, logs₀, pre₀, h₀, hevents₀, hends⟩ := (misaligned_target _).2 11 m logs b mepc e h hmem
      (eq_of_beq hbru) (eq_of_beq htarget)
    obtain ⟨m₂, logs₂, h₂⟩ := exists_run_le (k := n₀ + 77) h' (by omega)
    exact ⟨m, logs, b, mepc, e, h, hmem, eq_of_beq hbru, eq_of_beq htarget, n₀, hn, m₀, logs₀, pre₀, h₀, hevents₀,
      hends 77 m₂ logs₂ (by decide) h₂⟩

/-- `jal x0, 6`: a target that is 2 modulo 4, in memory. -/
def jumpMapped : List Word := [0x0060006f]

/-- The third cycle fetches at the target, and the memory refuses to be read there. -/
theorem jumpMapped_aborts : run (Env.ofProgram jumpMapped) 3 = .error (.assertion .slaveBase) := by
  obtain ⟨m, logs, h, hc⟩ := exists_cycle_error (show failsWith (.assertion .slaveBase)
    (run (Env.ofProgram jumpMapped) 2) (run (Env.ofProgram jumpMapped) (2 + 1)) = true by decide +kernel)
  exact run_error_of_cycle h hc (Nat.lt_succ_self 2)

end MyRiscvCore
