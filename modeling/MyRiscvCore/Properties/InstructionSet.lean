import MyRiscvCore.Isa.Soundness

/-!
# MyRiscvCore — the machine executes the instruction set

`follows_instruction_set`: for as long as the interpreter of the instruction set has an answer, the instructions that
the machine has retired are those that the interpreter executes from the initial memory, and what the machine then shows
of its registers, `pc`, CSRs and memory is the interpreter's state.

Between the two stands the in-order machine. Its events carry the words that fetch has read, at some time before; the
interpreter reads the word at the `pc` when it gets there. `Unsynced` makes the two the same: the stores that a fetched
word can miss are among those since the last `fence.i`.
-/

namespace MyRiscvCore

open Isa

/-- A word that was read after what the `fence.i`s ask for misses none but these stores. -/
def Unsynced (events : List Event) (stores : List Bus.Request) : Prop :=
  ∃ clean, retiredStores events = clean ++ stores ∧ ∀ old, Fenced events old → clean <+: old

section Unsynced

variable {events : List Event} {stores old rest : List Bus.Request} {ev : Event}

theorem Fenced.of_snoc (h : Fenced (events ++ [ev]) old) : Fenced events old :=
  fun evs b mepc e evs' hsplit => h evs b mepc e (evs' ++ [ev]) (by rw [hsplit]; simp)

theorem Unsynced.snoc (h : Unsynced events stores) : Unsynced (events ++ [ev]) (stores ++ retiredStores [ev]) := by
  obtain ⟨clean, hstores, hclean⟩ := h
  refine ⟨clean, ?_, fun old hold => hclean old hold.of_snoc⟩
  rw [retiredStores_append, hstores, List.append_assoc]

/-- After a `fence.i` fetch has seen every store. -/
theorem Unsynced.fence {e : Entry} (hr : ev.isRetire = true) (he : ev.entry? = some e)
    (hfence : Fetch.isFenceI e.op.value = true) (hnone : retiredStores [ev] = []) : Unsynced (events ++ [ev]) [] := by
  refine ⟨retiredStores events, by rw [retiredStores_append, hnone], fun old hold => ?_⟩
  cases ev with
  | retire b mepc e' =>
    cases he
    exact hold events b mepc e [] rfl hfence
  | exception | interrupt => cases hr

/-- What is not fenced is among the unsynced stores. -/
theorem Unsynced.missed (h : Unsynced events stores) (hold : Fenced events old)
    (hrest : retiredStores events = old ++ rest) : ∀ r ∈ rest, r ∈ stores := by
  obtain ⟨clean, hstores, hclean⟩ := h
  obtain ⟨more, rfl⟩ := hclean old hold
  have heq : stores = more ++ rest := by
    rw [hstores, List.append_assoc] at hrest
    exact List.append_cancel_left hrest
  exact fun r hr => by rw [heq]; exact List.mem_append_right _ hr

end Unsynced

theorem PackOk.hasException_of_aligned {x : DecodeRenamePack} (h : PackOk x) (hal : x.pc.toNat % 4 = 0) :
    x.hasException = false := by
  obtain ⟨p, hf, rfl⟩ := h
  show p.hasException = false
  have hpc : (Decode.decodePack p).pc = p.pc := decodePack_pc p
  rw [hpc] at hal
  rw [hf.misaligned, checkAlign_iff.mpr hal]
  rfl

theorem isFenceI_of_matches {v : Word} (h : fenceIZero.Matches v) : Fetch.isFenceI v = true := by
  have hopc : opcodeOf v = 0x0f := (opcodeOf_iff (by decide)).mpr (h (opc 0x0f) (by simp [fenceIZero]))
  have hf3 : funct3Of v = 1 := (funct3Of_iff (by decide)).mpr (h (f3 1) (by simp [fenceIZero]))
  rw [Fetch.isFenceI, hopc, hf3]
  rfl

/-- The `fence.i` of the table completes and stores nothing. -/
theorem fence_effect {st : InOrder} {v : Word} {x : Effect} (h : fenceIZero.Matches v) (hx : effect st v = some x) :
    x.completes = true ∧ x.stores = [] := by
  have hrow : Isa.lookup v = some fenceIZero := List.find?_cons_of_pos (by simpa using h)
  have hmis : ¬ MisjudgedSource (instruction fenceIZero st.arch.pc v) := by
    rintro (⟨hop, -⟩ | ⟨hop | hop, -⟩) <;> cases hop
  have hexn : exception st (instruction fenceIZero st.arch.pc v) v = none := rfl
  simp only [effect, hrow, if_neg hmis, hexn, Option.bind_eq_bind, Option.bind_eq_some_iff,
    Option.ite_none_right_eq_some, Option.some.injEq] at hx
  obtain ⟨-, -, -, rfl⟩ := hx
  exact ⟨rfl, rfl⟩

theorem fetchWord_memory {bus : Bus} {pc v : Word} {info : SlaveInfo} (hal : pc.toNat % 4 = 0)
    (hinfo : findSlaveInfo slaveInfoList pc = some info) (hslave : info.slave = .memory)
    (h : Fetch.fetchWord bus pc = .ok v) : v = bus.memory.read (pc - info.base).toNat .word := by
  have hcheck : Bus.checkAlign pc .word = true := checkAlign_iff.mpr hal
  simp only [Fetch.fetchWord, hcheck, Bool.not_true, Bool.false_eq_true, if_false, Bus.read32, Bus.read, hinfo,
    hslave] at h
  obtain ⟨-, -, hv⟩ := bind_eq_ok.mp h
  exact (Except.ok.inj hv).symm

section Run

variable {env : Env} {n : Nat} {m : Machine} {logs : List CycleLog} {evs evs' : List Event} {ev : Event} {e : Entry}
  {st : State} {v : Word}

/-- The word of an event is the one that the interpreter fetches. -/
theorem fetched_word (hrun : run env n = .ok (m, logs)) (hev : (Window.after env logs).events = evs ++ ev :: evs')
    (he : ev.entry? = some e) (hst : InOrder.after env evs = st.toInOrder) (hun : Unsynced evs st.unsynced)
    (hfetch : st.fetch = some v) : e.op.pc = st.arch.pc ∧ e.op.value = v ∧ e.op.hasException = false := by
  obtain ⟨r, -, hc, -⟩ := ((run_inOrder hrun).events evs ev evs' hev).computes he
  have hpc : e.op.pc = st.arch.pc := by rw [hc.pc, hst]
  simp only [State.fetch, Option.bind_eq_bind, Option.bind_eq_some_iff, Option.ite_none_right_eq_some,
    Option.some.injEq] at hfetch
  obtain ⟨offset, hoff, ⟨hal, hclean⟩, rfl⟩ := hfetch
  refine ⟨hpc, ?_, hc.pack.hasException_of_aligned (by rw [hpc]; exact hal)⟩
  obtain ⟨info, hinfo, hslave, rfl⟩ := memoryOffset_eq hoff
  obtain ⟨old, ⟨rest, hrest⟩, hfenced, bus, hbus, hword⟩ := (run_fetched hrun).history evs ev evs' e hev he
  -- the memory of the in-order machine is that of the bus with the stores that the word may have missed
  have hmem : st.arch.mem = rest.foldl applyStore bus.memory := by
    have heq := programStores_eq fun pre x post (hpre : evs = pre ++ x :: post) =>
      (run_inOrder hrun).events pre x (post ++ ev :: evs') (by rw [hev, hpre, List.append_assoc, List.cons_append])
    rw [show st.arch.mem = (InOrder.after env evs).arch.mem by rw [hst], heq.2, ← heq.1, ← hrest, List.foldl_append,
      hbus.memory]
  have hmissed := hun.missed hfenced hrest.symm
  rw [show e.op.toDecodeRenamePack.pc = st.arch.pc from hpc] at hword
  rw [hmem, foldl_applyStore_read hinfo hslave (fun r hr => hclean r (hmissed r hr))]
  exact fetchWord_memory hal hinfo hslave hword

/-! ## Runs

The steps of the interpreter are read off the events: an instruction for each that ends one, and the interrupt whose
cause is written to `mcause` for each of the others. -/

/-- The interrupt whose cause is among the writes. -/
def writtenCause (writes : List Csrfile.Request) : Option RiscvInterrupt :=
  [RiscvInterrupt.machineSoftware, .machineTimer, .machineExternal].find? fun id =>
    .writeSys csrMcause (0x80000000 ||| id.code) ∈ writes

/-- What the interpreter is to do for the event. -/
def Event.input : Event → Option RiscvInterrupt
  | .retire _ _ _ | .exception _ _ _ _ => none
  | .interrupt _ _ writes => writtenCause writes

@[simp]
theorem writtenCause_interruptWrites {csr : Nat → Word} {pc : Word} {id : RiscvInterrupt} :
    writtenCause (interruptWrites csr pc id) = some id := by
  cases id <;> simp [writtenCause, interruptWrites, RiscvInterrupt.code, csrMcause, csrMepc, csrMtval, csrMstatus]

theorem Event.input_of_entry (he : ev.entry? = some e) : ev.input = none := by
  cases ev with
  | retire | exception => rfl
  | interrupt => cases he

/-- The interpreter, if it has got through the events, has executed their instructions. -/
def Tracks (env : Env) (events : List Event) : Prop :=
  ∀ st, Isa.run env (events.map Event.input) = some st →
    InOrder.after env events = st.toInOrder ∧ Unsynced events st.unsynced

theorem run_snoc {inputs : List (Option RiscvInterrupt)} {input : Option RiscvInterrupt} :
    Isa.run env (inputs ++ [input]) = (Isa.run env inputs).bind (·.step input) := by
  simp [Isa.run, List.foldlM_append]

/-- One event is one step of the interpreter. -/
theorem Tracks.snoc (hrun : run env n = .ok (m, logs)) (hev : (Window.after env logs).events = evs ++ ev :: evs')
    (h : Tracks env evs) : Tracks env (evs ++ [ev]) := by
  intro st hst
  rw [List.map_append, List.map_singleton, run_snoc, Option.bind_eq_some_iff] at hst
  obtain ⟨st₀, hst₀, hstep⟩ := hst
  obtain ⟨hstate, hun⟩ := h st₀ hst₀
  have hok := (run_inOrder hrun).events evs ev evs' hev
  rw [hstate] at hok
  cases he : ev.entry? with
  | some e =>
    rw [Event.input_of_entry he] at hstep
    simp only [State.step, Option.bind_eq_bind, Option.bind_eq_some_iff, Option.pure_def, Option.some.injEq] at hstep
    obtain ⟨v, hfetch, x, heff, rfl⟩ := hstep
    obtain ⟨-, rfl, hexc⟩ := fetched_word hrun hev he hstate hun hfetch
    obtain ⟨hafter, hstores, hretire⟩ := effect_sound hok he hexc heff
    refine ⟨by rw [InOrder.after_snoc, hstate, hafter], ?_⟩
    -- a `fence.i` makes fetch see all stores so far
    by_cases hfence : fenceIZero.Matches e.op.value
    · obtain ⟨hcomplete, hnone⟩ := fence_effect hfence heff
      simp only [if_pos hfence]
      exact .fence (hretire.trans hcomplete) he (isFenceI_of_matches hfence) (hstores.trans hnone)
    · simp only [if_neg hfence, ← hstores]
      exact hun.snoc
  | none =>
    cases ev with
    | retire | exception => cases he
    | interrupt before handler writes =>
      obtain ⟨rfl, rfl, id, hid, rfl⟩ := hok
      simp only [Event.input, writtenCause_interruptWrites, State.step, if_pos hid, Option.some.injEq] at hstep
      subst hstep
      refine ⟨by rw [InOrder.after_snoc, hstate]; rfl, ?_⟩
      exact List.append_nil st₀.unsynced ▸ hun.snoc

/-- What the machine shows of its state is this state. -/
structure Shows (m : Machine) (st : InOrder) : Prop where
  pc : getCurrentPc m = st.arch.pc
  regs : ∀ a ∈ archRegs, readArchreg m a = .ok (st.arch.regs a)
  csr : ∀ a, StableCsr a → m.csrFile.value a = st.csr a
  /-- The retired stores that are still in the store buffer are on their way to the memory. -/
  memory : ((m.storeBuffer.toList.filter (·.committed)).map (·.request)).foldl applyStore m.bus.memory = st.arch.mem

/-- A run shows the state that its events lead to. -/
theorem run_shows (h : run env n = .ok (m, logs)) : Shows m (InOrder.after env (Window.after env logs).events) := by
  have href := run_refines h
  have hin := run_inOrder h
  refine ⟨?_, fun a ha => ?_, hin.csr, ?_⟩
  · rw [href.getCurrentPc_eq, hin.arch]
  · rw [href.readArchreg_eq ha, hin.arch]
  · obtain ⟨com, unc, hlist, hcom, hunc⟩ := href.store_items
    rw [hlist, List.filter_append, List.filter_eq_self.mpr hcom.committed,
      List.filter_eq_nil_iff.mpr fun i hi => by simp [hunc i hi], List.append_nil, hin.arch, ← hcom.memory]
    rfl

/-- The events of a run are the interpreter's steps, up to each of them. -/
theorem run_tracks (hrun : run env n = .ok (m, logs)) (evs evs' : List Event)
    (hev : (Window.after env logs).events = evs ++ evs') : Tracks env evs := by
  induction evs using List.reverseRecOn generalizing evs' with
  | nil =>
    intro st hst
    cases hst
    exact ⟨rfl, [], rfl, fun _ _ => List.nil_prefix⟩
  | append_singleton evs ev ih =>
    have hev : (Window.after env logs).events = evs ++ ev :: evs' := by rw [hev]; simp
    exact (ih (ev :: evs') hev).snoc hrun hev

/-- Whatever the machine predicts, renames and reorders: with the interrupts where it takes them, its instructions are
those that the interpreter executes, one for one, and after any number of cycles what it shows is the interpreter's
state after as many instructions as have retired. An interrupt that the machine takes is one that the interpreter has
enabled, with the interpreter's handler and CSR writes, so that it never ends the interpreter's run. -/
theorem follows_instruction_set (h : run env n = .ok (m, logs)) :
    (∀ evs ev evs' st, (Window.after env logs).events = evs ++ ev :: evs' →
      Isa.run env (evs.map Event.input) = some st →
      (∀ e, ev.entry? = some e →
        ev.input = none ∧ ∀ v, st.fetch = some v → e.op.pc = st.arch.pc ∧ e.op.value = v) ∧
      (ev.entry? = none → ∃ id, ev.input = some id ∧ InterruptEnabled st.csr id = true ∧
        ev = .interrupt st.arch (st.csr csrMtvec) (interruptWrites st.csr st.arch.pc id))) ∧
    ∀ st, Isa.run env ((Window.after env logs).events.map Event.input) = some st → Shows m st.toInOrder := by
  refine ⟨fun evs ev evs' st hev hst => ?_, fun st hst => ?_⟩
  · obtain ⟨hstate, hun⟩ := run_tracks h evs (ev :: evs') hev st hst
    refine ⟨fun e he => ⟨Event.input_of_entry he, fun v hfetch => ?_⟩, fun he => ?_⟩
    · obtain ⟨hpc, hword, -⟩ := fetched_word h hev he hstate hun hfetch
      exact ⟨hpc, hword⟩
    · have hok := (run_inOrder h).events evs ev evs' hev
      cases ev with
      | retire | exception => cases he
      | interrupt before handler writes =>
        rw [hstate] at hok
        obtain ⟨rfl, rfl, id, hid, rfl⟩ := hok
        exact ⟨id, writtenCause_interruptWrites, hid, rfl⟩
  · rw [← (run_tracks h _ [] (List.append_nil _).symm st hst).1]
    exact run_shows h

/-- `addi x1, x0, 128`, `csrrw x0, mie, x1` and `csrrsi x0, mstatus, 8`, which enable the timer interrupt, and a jump
to itself. -/
def enableTimer : List Word := [0x08000093, 0x30409073, 0x30046073, 0x0000006f]

/-- The interrupt comes after the three instructions, in the machine and in the interpreter. -/
theorem follows_instruction_set_enableTimer : ∃ m logs st, run (Env.ofProgram enableTimer) 36 = .ok (m, logs) ∧
    (Window.after (Env.ofProgram enableTimer) logs).events.map Event.input = [none, none, none, some .machineTimer] ∧
    Isa.run (Env.ofProgram enableTimer) [none, none, none, some .machineTimer] = some st ∧
    st.csr csrMcause = 0x80000007 ∧ Shows m st.toInOrder := by
  obtain ⟨m, logs, h, hev⟩ := exists_run_of (show endsWith (fun _ logs =>
    (Window.after (Env.ofProgram enableTimer) logs).events.map Event.input == [none, none, none, some .machineTimer])
    (run (Env.ofProgram enableTimer) 36) = true by decide +kernel)
  obtain ⟨st, hst, hcause⟩ := (Option.any_eq_true _ _).mp (show
    (Isa.run (Env.ofProgram enableTimer) [none, none, none, some .machineTimer]).any
      (·.csr csrMcause == 0x80000007) = true by decide +kernel)
  have hev := eq_of_beq hev
  exact ⟨m, logs, st, h, hev, hst, eq_of_beq hcause, (follows_instruction_set h).2 st (by rw [hev]; exact hst)⟩

end Run

end MyRiscvCore
