import MyRiscvCore.Properties.Memory
import MyRiscvCore.Refine.Progress

/-!
# MyRiscvCore — how the oldest instruction ends

An instruction at the head of the reorder buffer retires or traps within a bounded number of cycles, unless an
interrupt is taken first or it is a `fence` that waits for the store buffer (`oldest_fate`). If it traps, the
machine is at the handler when the walk ends, the trap CSRs say which instruction it was and why, and the
registers and every other CSR are what they were when it became the oldest (`Trapped`).
-/

namespace MyRiscvCore

section First

variable {env : Env} {n : Nat} {m m' : Machine} {w : Window} {s : Stages} {u : Updates}
  {logs logs' : List CycleLog}

/-- Of the instructions that retire together only the oldest can write CSRs: the instructions that do so are sent to
their unit as the oldest. -/
theorem Normal.quiet (h : Normal m w) {ret rest : List Entry} (hf : w.flight = ret ++ rest) (hret : Retired ret)
    (mepc : Word) (b : Arch) : ∀ ev ∈ (retireEvents mepc b ret).tail, ∀ csr, ev.csrWrites csr = [] := by
  intro ev hev csr
  cases ret with
  | nil => cases hev
  | cons e₀ es =>
    obtain ⟨b', e, rfl, he⟩ := exists_of_mem_retireEvents hev
    obtain ⟨pre, post, rfl⟩ := List.append_of_mem he
    obtain ⟨r, hs, -⟩ := hret e (List.mem_cons_of_mem _ he)
    have hr : e.result = some r := by simp [Entry.result, hs]
    have hsplit : w.flight = (e₀ :: pre) ++ e :: (post ++ rest) := by rw [hf]; simp
    have hserial : ¬ (e.op.opUnit == .csr || e.op.op == .mret) = true := fun hser =>
      absurd (h.serial.oldest _ e _ hsplit hser (.inl (by rw [Entry.isWaiting_eq_result, hr]; rfl)))
        (List.cons_ne_nil _ _)
    rw [Bool.not_eq_true, Bool.or_eq_false_iff] at hserial
    have hno : r.csrNewvalueValid = false := by
      by_contra hv
      obtain ⟨hunit, -⟩ := (h.flight _ e _ hsplit).csr_write hr (by simpa using hv)
      simp [hunit] at hserial
    simp [Event.csrWrites, retireCsrRequests, hs, hno, hserial.2]

/-- A cycle retires instructions, or enters a handler. -/
theorem CycleCase.events (h : CycleCase env n m w s) (hu : s.Synced env n m u) :
    (∃ mepc es, (w.step (s.log env n m u)).events = w.events ++ retireEvents mepc w.arch es ∧
        ∀ ev ∈ (retireEvents mepc w.arch es).tail, ∀ csr, ev.csrWrites csr = []) ∨
      (w.step (s.log env n m u)).events = w.events ++ [w.trapEvent (s.log env n m u)] := by
  cases h with
  | flow h f => exact .inl ⟨_, _, f.step_events h u, h.quiet f.flight f.retired _ _⟩
  | flush h g => exact .inl ⟨_, _, g.step_events h hu, h.quiet g.flight g.retired _ _⟩
  | walk v h =>
    by_cases hpre : v.pre = []
    · exact .inr (by rw [v.step_last h (v.updated h hu) hpre])
    · refine .inl ⟨0, [], ?_, fun ev hev => absurd hev List.not_mem_nil⟩
      rw [v.step_eq h (v.updated h hu) hpre, retireEvents, List.append_nil]

/-- A run with more events has a first cycle that adds to them; a trap is the only event of its cycle, and no event but
the first writes CSRs. -/
theorem exists_first_event {k : Nat} (h : run env n = .ok (m, logs)) (h' : run env (n + k) = .ok (m', logs'))
    {ev : Event} {evs : List Event}
    (hevents : (Window.after env logs').events = (Window.after env logs).events ++ ev :: evs) :
    ∃ j ≤ k, ∃ m₁ logs₁ evs₁, run env (n + j) = .ok (m₁, logs₁) ∧
      (Window.after env logs₁).events = (Window.after env logs).events ++ ev :: evs₁ ∧
      (ev.isRetire = false → evs₁ = []) ∧ ∀ x ∈ evs₁, ∀ csr, x.csrWrites csr = [] := by
  induction k generalizing m' logs' ev evs with
  | zero =>
    cases h.symm.trans h'
    exact absurd hevents (by simp)
  | succ k ih =>
    obtain ⟨m₀, logs₀, log, hrun, hc, rfl⟩ := run_succ (n := n + k).mp h'
    obtain ⟨x, hx⟩ := Window.after_events env (run_logs h (Nat.le_add_right n k) hrun)
    obtain ⟨s, u, hcase, hu, rfl, rfl⟩ := (run_refines hrun).cycle_ok hc
    cases x with
    | cons y ys =>
      obtain ⟨z, hz⟩ := (Window.after env logs₀).step_events (s.log env (n + k) m₀ u)
      rw [Window.after_snoc, hz, hx, List.append_assoc, List.append_cancel_left_eq, List.cons_append,
        List.cons.injEq] at hevents
      obtain ⟨j, hj, hrest⟩ := ih hrun (hevents.1 ▸ hx)
      exact ⟨j, hj.trans (Nat.le_succ k), hrest⟩
    | nil =>
      -- this cycle adds the first event
      refine ⟨k + 1, le_rfl, _, _, evs, h', hevents, ?_⟩
      rw [List.append_nil] at hx
      rw [Window.after_snoc] at hevents
      obtain ⟨mepc, es, hes, hquiet⟩ | htrap := hcase.events hu
      · rw [hes, hx, List.append_cancel_left_eq] at hevents
        rw [hevents] at hquiet
        refine ⟨fun hretire => ?_, hquiet⟩
        cases es with
        | nil => cases hevents
        | cons e es =>
          rw [← (List.cons.inj hevents).1] at hretire
          cases hretire
      · rw [htrap, hx, List.append_cancel_left_eq] at hevents
        rw [← (List.cons.inj hevents).2]
        exact ⟨fun _ => rfl, fun x hx => absurd hx List.not_mem_nil⟩

/-- Every instruction in flight was decoded from a fetched word. -/
theorem run_packOk (h : run env n = .ok (m, logs)) :
    ∀ e ∈ (Window.after env logs).flight, PackOk e.op.toDecodeRenamePack := by
  have hnormal {m : Machine} {w : Window} (h : Normal m w) : ∀ e ∈ w.flight, PackOk e.op.toDecodeRenamePack :=
    fun e he => (h.entry he).choose_spec.pack
  refine (run_induction (P := fun _ _ logs =>
    ∀ e ∈ (Window.after env logs).flight, PackOk e.op.toDecodeRenamePack)
    (fun m _ hm => hnormal hm) (fun n m logs s u _ hP hcase hu => ?_) h).2
  rw [Window.after_snoc]
  cases hcase with
  | flow h f => exact hnormal (f.normal h hu)
  | flush h g =>
    rw [g.step_eq h (g.updated h hu)]
    exact fun e he => hP e (g.mem_kept he)
  | walk v h =>
    by_cases hpre : v.pre = []
    · rw [v.step_last h (v.updated h hu) hpre]
      exact fun e he => absurd he List.not_mem_nil
    · rw [v.step_eq h (v.updated h hu) hpre]
      exact hP

end First

/-! ## The oldest instruction

It retires, traps or is preempted by an interrupt, within a bound. -/

/-- From `m` to `m₁` an instruction has trapped, and nothing else has happened to the architectural state: the
handler is next, with these values in `mepc`, `mcause` and `mtval`. -/
structure Trapped (m m₁ : Machine) (pc : Word) (cause : RiscvException) (value : Word) : Prop where
  mepc : m₁.csrFile.value csrMepc = pc
  mcause : m₁.csrFile.value csrMcause = cause.code
  mtval : m₁.csrFile.value csrMtval = value
  csr : ∀ a, StableCsr a → a ∉ [csrMepc, csrMcause, csrMtval] → m₁.csrFile.value a = m.csrFile.value a
  regs : ∀ a ∈ archRegs, readArchreg m₁ a = readArchreg m a
  pc : getCurrentPc m₁ = m.csrFile.value csrMtvec

/-- How the stay of an operation at the head of the reorder buffer of `m` ends: the events of the cycle that
leaves `m₁`, after the history `events`. -/
inductive Fate (env : Env) (events : List Event) (op : RenameReadregOp) (m m₁ : Machine) : List Event → Prop
  | interrupt (b : Arch) (handler : Word) (writes : List Csrfile.Request) :
    Fate env events op m m₁ [.interrupt b handler writes]
  | trap {r : ExecuteWbPack} (b : Arch) (handler : Word) (writes : List Csrfile.Request)
    (hx : r.hasException = true)
    (hr : Computes (InOrder.after env events).arch (InOrder.after env events).csr ⟨op, .finished r⟩ r)
    (ht : Trapped m m₁ (op.pc &&& 0xFFFFFFFC) r.exceptionId r.exceptionValue) :
    Fate env events op m m₁ [.exception b ⟨op, .finished r⟩ handler writes]
  | retire {r : ExecuteWbPack} (b : Arch) (mepc : Word) (evs : List Event) (hx : r.hasException = false)
    (hr : Computes (InOrder.after env events).arch (InOrder.after env events).csr ⟨op, .finished r⟩ r)
    (hcsr : ∀ a, StableCsr a →
      m₁.csrFile.value a = (InOrder.after env (events ++ [.retire b mepc ⟨op, .finished r⟩])).csr a) :
    Fate env events op m m₁ (.retire b mepc ⟨op, .finished r⟩ :: evs)

section Fate

variable {env : Env} {n : Nat} {m m' m₁ : Machine} {logs logs' logs₁ : List CycleLog} {e : Entry}
  {rest : List Entry}

theorem csrAfter_exceptionWrites (csr : Nat → Word) (pc : Word) (x : ExceptionInfo) :
    csrAfter csr (exceptionWrites pc x) = Function.update (Function.update (Function.update csr
      csrMepc (pc &&& 0xFFFFFFFC)) csrMtval x.exceptionValue) csrMcause x.exceptionId.code := by
  have hall (v : Word) : v &&& 0xFFFFFFFF = v := BitVec.and_allOnes
  rw [show csrAfter csr (exceptionWrites pc x) = Function.update (Function.update (Function.update csr
    csrMepc (pc &&& 0xFFFFFFFC)) csrMtval (x.exceptionValue &&& 0xFFFFFFFF)) csrMcause
    (x.exceptionId.code &&& 0xFFFFFFFF) from rfl, hall, hall]

/-- `mepc` keeps an aligned pc. -/
theorem mepc_of_aligned {pc : Word} (h : pc &&& 3 = 0) : pc &&& 0xFFFFFFFC = pc := by
  have hparts : pc &&& 0xFFFFFFFC ||| pc &&& 3 = pc := by
    rw [← BitVec.and_or_distrib_left]
    exact BitVec.and_allOnes
  rw [h] at hparts
  exact BitVec.or_zero.symm.trans hparts

/-- The trap of an instruction, from a boundary with nothing between it and the trap to the one right after. -/
theorem exception_trapped {k : Nat} {b : Arch} {handler : Word} {writes : List Csrfile.Request}
    {r : ExecuteWbPack} (h : run env n = .ok (m, logs)) (h₁ : run env k = .ok (m₁, logs₁))
    (hevents : (Window.after env logs₁).events = (Window.after env logs).events ++ [.exception b e handler writes])
    (hs : e.status = .finished r) :
    Trapped m m₁ (e.op.pc &&& 0xFFFFFFFC) r.exceptionId r.exceptionValue := by
  have hin := run_inOrder h
  have hin₁ := run_inOrder h₁
  obtain ⟨-, rfl, r', hs', -, -, rfl⟩ := hin₁.events _ _ [] hevents
  obtain rfl : r = r' := by
    rw [hs] at hs'
    exact Status.finished.inj hs'
  have hcsr (a : Nat) (ha : StableCsr a) : m₁.csrFile.value a =
      csrAfter (InOrder.after env (Window.after env logs).events).csr
        (exceptionWrites e.op.pc r.toExceptionInfo) a := by
    rw [hin₁.csr a ha, hevents, InOrder.after_snoc]
    rfl
  -- a trap changes the `pc` only
  have harch : (Window.after env logs₁).arch = { (Window.after env logs).arch with
      pc := (InOrder.after env (Window.after env logs).events).csr csrMtvec } := by
    rw [← hin₁.arch, hevents, InOrder.after_snoc, ← hin.arch]
    rfl
  simp only [csrAfter_exceptionWrites] at hcsr
  exact {
    mepc := hcsr _ (by decide)
    mcause := hcsr _ (by decide)
    mtval := hcsr _ (by decide)
    csr := fun a ha hne => by
      simp only [List.mem_cons, List.not_mem_nil, or_false, not_or] at hne
      rw [hcsr a ha, Function.update_of_ne hne.2.1, Function.update_of_ne hne.2.2, Function.update_of_ne hne.1,
        hin.csr a ha]
    regs := fun a ha => by
      rw [(run_refines h₁).readArchreg_eq ha, (run_refines h).readArchreg_eq ha, harch]
    pc := by
      rw [(run_refines h₁).getCurrentPc_eq, harch, hin.csr _ (by decide)] }

/-- The oldest instruction retires or traps, or an interrupt is taken first. -/
theorem oldest_fate {k : Nat} (h : run env n = .ok (m, logs)) (hf : (Window.after env logs).flight = e :: rest)
    (hop : e.op.op ≠ .fence) (hk : robSize + 9 ≤ k) (h' : run env (n + k) = .ok (m', logs')) :
    ∃ j ≤ k, ∃ m₁ logs₁ evs, run env (n + j) = .ok (m₁, logs₁) ∧
      (Window.after env logs₁).events = (Window.after env logs).events ++ evs ∧
      Fate env (Window.after env logs).events e.op m m₁ evs := by
  obtain ⟨ev, evs, hevents, hends⟩ := oldest_event h hf hop hk h'
  -- stop at the cycle of the first event
  obtain ⟨j, hj, m₁, logs₁, evs₁, h₁, hevents₁, htrap, hquiet⟩ := exists_first_event h h' hevents
  refine ⟨j, hj, m₁, logs₁, ev :: evs₁, h₁, hevents₁, ?_⟩
  have hok := (run_inOrder h₁).events _ _ _ hevents₁
  cases ev with
  | interrupt b handler writes =>
    rw [htrap rfl]
    exact .interrupt b handler writes
  | exception b x handler writes =>
    rw [htrap rfl] at hevents₁ ⊢
    obtain ⟨-, -, r, hs, hx, hcomp, -⟩ := hok
    obtain ⟨op, status⟩ := x
    obtain rfl : op = e.op := hends
    obtain rfl : status = .finished r := hs
    exact .trap b handler writes hx hcomp (exception_trapped (e := ⟨e.op, .finished r⟩) h h₁ hevents₁ rfl)
  | retire b mepc x =>
    obtain ⟨-, -, r, hs, hx, hcomp⟩ := hok
    obtain ⟨op, status⟩ := x
    obtain rfl : op = e.op := hends
    obtain rfl : status = .finished r := hs
    refine .retire b mepc evs₁ hx hcomp fun a ha => ?_
    rw [(run_inOrder h₁).csr a ha, hevents₁, List.append_cons, InOrder.csr_after_quiet hquiet]

end Fate

/-- The run answers, and this holds of its oldest instruction. -/
def oldestIs (env : Env) (P : Entry → Bool) : Except Halt (Machine × List CycleLog) → Bool :=
  endsWith fun _ logs => (Window.after env logs).flight.head?.any P

theorem exists_oldest {env : Env} {n : Nat} {P : Entry → Bool} (h : oldestIs env P (run env n) = true) :
    ∃ m logs e rest, run env n = .ok (m, logs) ∧ (Window.after env logs).flight = e :: rest ∧ P e = true := by
  obtain ⟨m, logs, hrun, hany⟩ := exists_run_of h
  obtain ⟨e, he, hP⟩ := (Option.any_eq_true _ _).mp hany
  obtain ⟨rest, hrest⟩ := List.head?_eq_some_iff.mp he
  exact ⟨m, logs, e, rest, hrun, hrest, hP⟩

/-- A CSR write, a load from address 1 and a `fence.i` that keeps the pipeline short; the handler is at address
0, where no memory is mapped and every word reads as 0. -/
def faulty : List Word := [0x3402d0f3, 0x00102083, 0x0000100f]

theorem run_faulty {n : Nat} (hn : n ≤ 92) : ∃ m logs, run (Env.ofProgram faulty) n = .ok (m, logs) := by
  obtain ⟨m, logs, h, -⟩ := exists_run_of
    (show endsWith (fun _ _ => true) (run (Env.ofProgram faulty) 92) = true by decide +kernel)
  exact exists_run_le h hn

end MyRiscvCore
