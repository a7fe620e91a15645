import MyRiscvCore.Refine.Run

/-!
# MyRiscvCore — the in-order machine

The history of a run is one of a machine that executes an instruction at a time: `InOrder` is its state,
the architectural state with the CSR values, `InOrder.step` the effect of an event, and `EventOk` says
which events it allows. An instruction may retire if its result is what the architecture asks for in that
state, it may trap if that result is an exception, and an interrupt may be taken if it is enabled.

`run_inOrder` says that every event of a run is allowed in the state that the events before it leave, and
that the machine's CSR file holds the CSR values of that state, apart from the CSRs that change by
themselves.
-/

namespace MyRiscvCore

open Renaming (mapAfter)

structure InOrder where
  arch : Arch
  csr : Nat → Word

/-- The CSR values after these writes. -/
def csrAfter (csr : Nat → Word) (writes : List Csrfile.Request) : Nat → Word :=
  mapAfter csr (writes.map fun r => (r.addr, r.stored))

/-- The CSR writes of an exception. -/
def exceptionWrites (pc : Word) (x : ExceptionInfo) : List Csrfile.Request :=
  [.writeSys csrMepc pc, .writeSys csrMtval x.exceptionValue, .writeSys csrMcause x.exceptionId.code]

/-- The CSR writes of an interrupt. -/
def interruptWrites (csr : Nat → Word) (pc : Word) (id : RiscvInterrupt) : List Csrfile.Request :=
  [.writeSys csrMepc pc, .writeSys csrMtval 0, .writeSys csrMcause (0x80000000 ||| id.code),
    .writeSys csrMstatus (setMie (setMpie (csr csrMstatus) (getMie (csr csrMstatus))) false)]

/-- The instruction that an event ends. -/
def Event.entry? : Event → Option Entry
  | .retire _ _ e | .exception _ e _ _ => some e
  | .interrupt _ _ _ => none

/-- The CSR writes of an event. -/
def Event.csrWrites (csr : Nat → Word) : Event → List Csrfile.Request
  | .retire _ _ e => retireCsrRequests ⟨csr, [], []⟩ e
  | .exception _ _ _ writes | .interrupt _ _ writes => writes

/-- The architectural state after an event. -/
def Event.archAfter (b : Arch) : Event → Arch
  | .retire _ mepc e => b.retire mepc e
  | .exception _ _ handler _ | .interrupt _ handler _ => { b with pc := handler }

namespace InOrder

def init (env : Env) : InOrder := ⟨(Window.init env).arch, Csrfile.reset.value⟩

def step (st : InOrder) (ev : Event) : InOrder :=
  ⟨ev.archAfter st.arch, csrAfter st.csr (ev.csrWrites st.csr)⟩

/-- The state after these events. -/
def after (env : Env) (events : List Event) : InOrder :=
  events.foldl step (init env)

theorem after_snoc (env : Env) (events : List Event) (ev : Event) :
    after env (events ++ [ev]) = (after env events).step ev := by
  simp [after]

/-- Events without CSR writes keep the CSRs. -/
theorem csr_after_quiet {env : Env} {events evs : List Event} (h : ∀ ev ∈ evs, ∀ csr, ev.csrWrites csr = []) :
    (after env (events ++ evs)).csr = (after env events).csr := by
  induction evs using List.reverseRecOn with
  | nil => rw [List.append_nil]
  | append_singleton evs ev ih =>
    rw [← List.append_assoc, after_snoc, step, h ev (by simp)]
    exact ih fun x hx => h x (List.mem_append_left _ hx)

end InOrder

/-- What the events of a history contribute, in order; `f` sees the events before each. -/
def overHistory {α : Type} (f : List Event → Event → List α) (events : List Event) : List α :=
  (List.range events.length).flatMap fun i => events[i]?.elim [] (f (events.take i))

theorem overHistory_snoc {α : Type} (f : List Event → Event → List α) (events : List Event) (ev : Event) :
    overHistory f (events ++ [ev]) = overHistory f events ++ f events ev := by
  rw [overHistory, List.length_append, List.length_singleton, List.range_succ, List.flatMap_append,
    List.flatMap_singleton, List.getElem?_append_right (le_refl _), Nat.sub_self, List.take_left' rfl]
  refine congrArg (· ++ _) (List.flatMap_congr fun i hi => ?_)
  have hlt := List.mem_range.mp hi
  rw [List.getElem?_append_left hlt, List.take_append_of_le_length (Nat.le_of_lt hlt)]

/-- The events that the in-order machine allows in a state. -/
def EventOk (st : InOrder) : Event → Prop
  | .retire before mepc e => before = st.arch ∧ (e.op.op = .mret → mepc = st.csr csrMepc) ∧
    ∃ r, e.status = .finished r ∧ r.hasException = false ∧ Computes st.arch st.csr e r
  | .exception before e handler writes => before = st.arch ∧ handler = st.csr csrMtvec ∧
    ∃ r, e.status = .finished r ∧ r.hasException = true ∧ Computes st.arch st.csr e r ∧
      writes = exceptionWrites e.op.pc r.toExceptionInfo
  | .interrupt before handler writes => before = st.arch ∧ handler = st.csr csrMtvec ∧
    ∃ id, InterruptEnabled st.csr id = true ∧ writes = interruptWrites st.csr st.arch.pc id

/-- The history of the window is one of the in-order machine, and `csr` are its CSR values. -/
structure InOrderOk (env : Env) (csr : Nat → Word) (w : Window) : Prop where
  events : ∀ pre ev post, w.events = pre ++ ev :: post → EventOk (InOrder.after env pre) ev
  arch : (InOrder.after env w.events).arch = w.arch
  csr : ∀ a, StableCsr a → csr a = (InOrder.after env w.events).csr a

section Step

variable {env : Env} {csr csr' : Nat → Word} {w w' : Window} {ev : Event} {e : Entry}

/-- The writes to a register do not depend on the others. -/
theorem csrAfter_congr {a : Nat} (h : csr a = csr' a) (writes : List Csrfile.Request) :
    csrAfter csr writes a = csrAfter csr' writes a :=
  Renaming.mapAfter_congr h _

theorem csrAfter_append (csr : Nat → Word) (xs ys : List Csrfile.Request) :
    csrAfter csr (xs ++ ys) = csrAfter (csrAfter csr xs) ys := by
  rw [csrAfter, List.map_append, Renaming.mapAfter_append]
  rfl

/-- An instruction's CSR writes depend on the CSRs only for an `mret`. -/
theorem retireCsrRequests_congr {file file' : Csrfile}
    (h : e.op.op = .mret → file.value csrMstatus = file'.value csrMstatus) :
    retireCsrRequests file e = retireCsrRequests file' e := by
  unfold retireCsrRequests
  cases e.status with
  | finished r =>
    by_cases hop : e.op.op = .mret
    · simp only [h hop]
    · simp [hop]
  | _ => rfl

/-- A window with the same history and state. -/
theorem InOrderOk.congr (h : InOrderOk env csr w) (hevents : w'.events = w.events)
    (harch : w'.arch = w.arch) (hcsr : ∀ a, StableCsr a → csr' a = csr a) : InOrderOk env csr' w' where
  events := by
    rw [hevents]
    exact h.events
  arch := by
    rw [hevents, harch]
    exact h.arch
  csr a ha := by
    rw [hevents, hcsr a ha]
    exact h.csr a ha

/-- One more event. -/
theorem InOrderOk.snoc (h : InOrderOk env csr w) (hok : EventOk (InOrder.after env w.events) ev)
    (hevents : w'.events = w.events ++ [ev]) (harch : w'.arch = ev.archAfter w.arch)
    (hcsr : ∀ a, StableCsr a →
      csr' a = csrAfter csr (ev.csrWrites (InOrder.after env w.events).csr) a) :
    InOrderOk env csr' w' where
  events pre x post hf := by
    rw [hevents] at hf
    obtain ⟨post', hold⟩ | ⟨rfl, rfl⟩ := split_snoc hf
    · exact h.events pre x post' hold
    · exact hok
  arch := by
    rw [hevents, InOrder.after_snoc, harch, ← h.arch]
    rfl
  csr a ha := by
    rw [hevents, InOrder.after_snoc, hcsr a ha]
    exact csrAfter_congr (h.csr a ha) _

end Step

section Retire

variable {env : Env} {n : Nat} {m : Machine} {w : Window} {ret rest : List Entry} {file : Csrfile}

theorem Window.retireAll_snoc (mepc : Word) (w : Window) (es : List Entry) (e : Entry) :
    w.retireAll mepc (es ++ [e]) = (w.retireAll mepc es).retire mepc e := by
  simp [Window.retireAll]

/-- Retirement changes the state and the history alone, and depends on nothing else. -/
theorem Window.retireAll_congr {w w' : Window} (harch : w.arch = w'.arch) (hevents : w.events = w'.events)
    (mepc : Word) (es : List Entry) : (w.retireAll mepc es).arch = (w'.retireAll mepc es).arch ∧
      (w.retireAll mepc es).events = (w'.retireAll mepc es).events := by
  induction es generalizing w w' with
  | nil => exact ⟨harch, hevents⟩
  | cons e es ih =>
    refine ih ?_ ?_
    · rw [Window.retire, Window.retire, harch]
    · rw [Window.retire, Window.retire, harch, hevents]

/-- The instructions at the head of the window retire one after the other. -/
theorem Normal.retire_inOrder (h : Normal m w) (hin : InOrderOk env m.csrFile.value w)
    (hfile : file.value = m.csrFile.value) (hf : w.flight = ret ++ rest) (hret : Retired ret)
    (hfol : ∀ pre e post, ret = pre ++ e :: post → Followed w.arch.regs (m.csrFile.value csrMepc) pre) :
    InOrderOk env (csrAfter m.csrFile.value (ret.flatMap (retireCsrRequests file)))
      (w.retireAll (m.csrFile.value csrMepc) ret) := by
  induction ret using List.reverseRecOn generalizing rest with
  | nil => exact hin
  | append_singleton pre e ih =>
    have hsplit : w.flight = pre ++ e :: rest := by rw [hf, List.append_assoc, List.singleton_append]
    have hpre : Retired pre := fun x hx => hret x (List.mem_append_left _ hx)
    have hok := ih hsplit hpre fun p x q hpq => hfol p x (q ++ [e]) (by rw [hpq]; simp)
    obtain ⟨r, hs, hx⟩ := hret e (by simp)
    have hr : e.result = some r := by simp [Entry.result, hs]
    -- the CSRs still have the values of the start of the cycle when a serial instruction retires
    have hcsr (hnil : pre = []) (a : Nat) (ha : StableCsr a) : m.csrFile.value a =
        (InOrder.after env (w.retireAll (m.csrFile.value csrMepc) pre).events).csr a := by
      rw [hnil]
      exact hin.csr a ha
    have hcomp := h.computes hsplit hpre (hfol pre e [] rfl) hr hcsr
    have hmret (hop : e.op.op = .mret) : pre = [] :=
      h.serial.oldest pre e rest hsplit (by simp [hop])
        (.inl (by rw [Entry.isWaiting_eq_result, hr]; rfl))
    have hev : EventOk (InOrder.after env (w.retireAll (m.csrFile.value csrMepc) pre).events)
        (.retire (w.retireAll (m.csrFile.value csrMepc) pre).arch (m.csrFile.value csrMepc) e) := by
      refine ⟨hok.arch.symm, fun hop => hcsr (hmret hop) _ (by decide), r, hs, hx, ?_⟩
      rw [hok.arch]
      exact hcomp
    rw [Window.retireAll_snoc, List.flatMap_append, List.flatMap_singleton, csrAfter_append]
    refine hok.snoc hev rfl rfl fun a ha => ?_
    rw [Event.csrWrites, retireCsrRequests_congr fun hop => ?_]
    rw [hfile]
    exact hcsr (hmret hop) _ (by decide)

end Retire

/-! ## Cycles

The machine's events of a cycle are steps of the in-order machine. -/

section Cycle

variable {env : Env} {n : Nat} {m : Machine} {w : Window} {s : Stages} {u : Updates}

/-- The events of a cycle without flush are those of its group. -/
theorem FlowStages.step_events (f : FlowStages env n m w s) (h : Normal m w) (u : Updates) :
    (w.step (s.log env n m u)).events = w.events ++ retireEvents (m.csrFile.value csrMepc) w.arch f.ret := by
  rw [f.step_eq h u]
  exact Window.events_retireAll

theorem NormalFlush.step_events (g : NormalFlush env n m w s) (h : Normal m w) (hu : s.Synced env n m u) :
    (w.step (s.log env n m u)).events = w.events ++ retireEvents (m.csrFile.value csrMepc) w.arch g.ret := by
  rw [g.step_eq h (g.updated h hu)]
  exact Window.events_retireAll

/-- They are steps. -/
theorem FlowStages.inOrder (f : FlowStages env n m w s) (h : Normal m w)
    (hin : InOrderOk env m.csrFile.value w) (hu : s.Synced env n m u) :
    InOrderOk env (s.machine env n m u).csrFile.value (w.step (s.log env n m u)) := by
  have hfl := h.flight
  rw [f.flight] at hfl
  have hok := h.retire_inOrder hin (Machine.csrAt_value env n m) f.flight f.retired
    fun pre e post hf => f.commit.followed_before hfl (f.mret_retired h) hf
  rw [f.step_eq h u]
  obtain ⟨harch, hevents⟩ := Window.retireAll_congr
    (show (Window.advance s.ex.ports { w with writes := w.writes ++ u.writes }).arch = w.arch from rfl) rfl
    (m.csrFile.value csrMepc) f.ret
  refine hok.congr hevents harch fun a ha => ?_
  show u.counted.value a = _
  rw [hu.value ha.1 ha.2.1, f.commit.csrRequests]
  rfl

/-- So are those before a flush. -/
theorem NormalFlush.inOrder (g : NormalFlush env n m w s) (h : Normal m w)
    (hin : InOrderOk env m.csrFile.value w) (hu : s.Synced env n m u) :
    InOrderOk env (s.machine env n m u).csrFile.value (w.step (s.log env n m u)) := by
  have hok := h.retire_inOrder hin (Machine.csrAt_value env n m) g.flight g.retired
    fun pre e post hf => g.commit.followed_before (g.flight_retired h) (g.mret_retired h) hf
  rw [g.step_eq h (g.updated h hu)]
  refine hok.congr rfl rfl fun a ha => ?_
  show u.counted.value a = _
  rw [hu.value ha.1 ha.2.1, g.commit.csrRequests]
  rfl

/-- The event that ends a walk which begins in the window `w` and the commit state `c`. -/
def WalkEvent (w : Window) (c : CommitState) (csr : Nat → Word) (ev : Event) : Prop :=
  ∃ e rest, w.flight = e :: rest ∧ e.op.pc = w.arch.pc ∧
    ((c.curState = .flush ∧ ∃ r, e.status = .finished r ∧ r.hasException = true ∧ Computes w.arch csr e r ∧
        ev = .exception w.arch e (csr csrMtvec) (exceptionWrites e.op.pc r.toExceptionInfo)) ∨
      (c.curState = .interruptFlush ∧
        ev = .interrupt w.arch (csr csrMtvec) (interruptWrites csr e.op.pc c.interruptId)))

/-- The trap at the end of a walk. -/
theorem WalkStages.walkEvent (v : WalkStages env n m w s) {j : Nat} (h : Walk m w j) (hpre : v.pre = [])
    (u : Updates) : WalkEvent w m.commit m.csrFile.value (w.trapEvent (s.log env n m u)) := by
  obtain ⟨-, -, -, hreq, -, -, hpc⟩ := v.commit.last hpre
  have hphase : (s.log env n m u).phaseBefore = m.commit.curState := rfl
  have hpc' : (s.log env n m u).fb.exceptionPc = m.csrFile.value csrMtvec := hpc
  have hreq' : (s.log env n m u).csrWrites = trapRequests (m.csrAt env n) m.commit := hreq
  have hhead := h.pc
  unfold Window.trapEvent
  rw [hphase, hpc', hreq']
  -- the state tells which trap the walk began with
  cases hst : m.commit.curState with
  | normal => exact absurd hst h.phase
  | flush =>
    obtain ⟨e, rest, r, hf, hs, hx, hitem, hcomp⟩ := h.exception hst
    rw [hf] at hhead ⊢
    refine ⟨e, rest, hf, Option.some.inj hhead, .inl ⟨hst, r, hs, hx, hcomp, ?_⟩⟩
    rw [trapRequests, if_pos hst, Commit.exceptionEntry, hitem, robItemOf_pc, robItemOf_finished hs]
    rfl
  | interruptFlush =>
    obtain ⟨hpc, -⟩ := h.interrupt hst
    have hnot : m.commit.curState ≠ .flush := by rw [hst]; decide
    cases hf : w.flight with
    | nil =>
      rw [hf] at hhead
      cases hhead
    | cons e rest =>
      rw [hf] at hhead
      refine ⟨e, rest, hf, Option.some.inj hhead, .inr ⟨hst, ?_⟩⟩
      rw [trapRequests, if_neg hnot, interruptWrites, hpc, ← Option.some.inj hhead, Machine.csrAt_value]

/-- The trap at the end of a walk is a step. -/
theorem WalkStages.trapEvent_ok (v : WalkStages env n m w s) {j : Nat} (h : Walk m w j)
    (hpre : v.pre = []) {st : InOrder} (harch : st.arch = w.arch)
    (hcsr : ∀ a, StableCsr a → m.csrFile.value a = st.csr a) :
    EventOk st (w.trapEvent (s.log env n m u)) ∧
      (w.trapEvent (s.log env n m u)).archAfter w.arch = { w.arch with pc := m.csrFile.value csrMtvec } ∧
      (w.trapEvent (s.log env n m u)).csrWrites st.csr = s.cm.csrRequests := by
  have hwrites : (w.trapEvent (s.log env n m u)).csrWrites st.csr = s.cm.csrRequests := by
    unfold Window.trapEvent
    split <;> rfl
  obtain ⟨e, rest, -, hpc, ⟨hst, r, hs, hx, hcomp, hev⟩ | ⟨hst, hev⟩⟩ := v.walkEvent h hpre u
  · rw [hev] at hwrites ⊢
    refine ⟨⟨harch.symm, hcsr _ (by decide), r, hs, hx, ?_, rfl⟩, rfl, hwrites⟩
    rw [harch]
    exact hcomp.congr hcsr
  · obtain ⟨-, hen⟩ := h.interrupt hst
    rw [hev] at hwrites ⊢
    refine ⟨⟨harch.symm, hcsr _ (by decide), m.commit.interruptId, ?_, ?_⟩, rfl, hwrites⟩
    · rw [← hen]
      exact (interruptEnabled_congr (hcsr _ (by decide)) (hcsr _ (by decide))).symm
    · rw [hpc, harch, interruptWrites, interruptWrites, hcsr csrMstatus (by decide)]

/-- Up to there the walk has no event. -/
theorem WalkStages.inOrder (v : WalkStages env n m w s) (h : Walk m w (v.pre.length + 1))
    (hin : InOrderOk env m.csrFile.value w) (hu : s.Synced env n m u) :
    InOrderOk env (s.machine env n m u).csrFile.value (w.step (s.log env n m u)) := by
  have hvalue (a : Nat) (ha : StableCsr a) : (s.machine env n m u).csrFile.value a =
      csrAfter m.csrFile.value s.cm.csrRequests a := hu.value ha.1 ha.2.1
  by_cases hpre : v.pre = []
  · obtain ⟨hok, harch, hwrites⟩ := v.trapEvent_ok (u := u) h hpre hin.arch hin.csr
    rw [v.step_last h (v.updated h hu) hpre]
    refine hin.snoc hok rfl harch.symm fun a ha => ?_
    rw [hvalue a ha, hwrites]
  · obtain ⟨pre', x, hpre'⟩ := (List.eq_nil_or_concat v.pre).resolve_left hpre
    rw [v.step_eq h (v.updated h hu) hpre]
    refine hin.congr rfl rfl fun a ha => ?_
    rw [hvalue a ha, (v.commit.step pre' x (by rw [hpre', List.concat_eq_append])).2.2.2.1]
    rfl

/-- Every kind of cycle is a run of the in-order machine. -/
theorem CycleCase.inOrder (h : CycleCase env n m w s) (hin : InOrderOk env m.csrFile.value w)
    (hu : s.Synced env n m u) :
    InOrderOk env (s.machine env n m u).csrFile.value (w.step (s.log env n m u)) := by
  cases h with
  | flow h f => exact f.inOrder h hin hu
  | flush h g => exact g.inOrder h hin hu
  | walk v h => exact v.inOrder h hin hu

end Cycle

section Run

variable {env : Env} {n : Nat} {m : Machine} {logs : List CycleLog}

theorem reset_csrFile (h : Machine.reset env = .ok m) : m.csrFile = Csrfile.reset := by
  obtain ⟨rat, -, h⟩ := bind_eq_ok.mp h
  obtain ⟨regfile, -, h⟩ := bind_eq_ok.mp h
  cases h
  rfl

/-- The history of a run is one of the in-order machine. -/
theorem run_inOrder (h : run env n = .ok (m, logs)) :
    InOrderOk env m.csrFile.value (Window.after env logs) := by
  refine (run_induction (P := fun _ m logs => InOrderOk env m.csrFile.value (Window.after env logs))
    (fun m hm _ => ?_) (fun n m logs s u _ hP hcase hu => ?_) h).2
  · refine ⟨fun pre ev post hf => absurd (show [] = pre ++ ev :: post from hf) (by simp), rfl, ?_⟩
    rw [reset_csrFile hm]
    exact fun _ _ => rfl
  · rw [Window.after_snoc]
    exact hcase.inOrder hP hu

end Run

end MyRiscvCore
