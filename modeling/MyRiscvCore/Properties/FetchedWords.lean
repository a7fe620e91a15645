import MyRiscvCore.Properties.Fences

/-!
# MyRiscvCore — the words that are executed

Fetch reads an instruction word long before the instruction retires, and past the stores in between. `FetchedOk` says
from which memory every word in flight was read: one that holds a prefix of the retired stores, and at least those
before the last `fence.i` that is older than the word. It is kept by what a cycle does to the instructions in flight: the
oldest retires or traps, the youngest are dropped, new ones are pushed, and the store buffer writes.

`run_fetched` states it for every run; for the history it says that each executed word was read so.
-/

namespace MyRiscvCore

/-- The memory slave maps the address. -/
def MemoryBacked (addr : Word) : Prop :=
  ∃ info, findSlaveInfo slaveInfoList addr = some info ∧ info.slave = .memory

/-- The bus after these writes: the memory holds them, and if no write goes elsewhere, the CLINT only counts. -/
structure BusAfter (env : Env) (written : List Bus.Request) (bus : Bus) : Prop where
  memory : bus.memory = written.foldl applyStore env.memory
  clint : (∀ r ∈ written, MemoryBacked r.addr) → bus.clint = { Clint.reset with mtime := bus.clint.mtime }

theorem Bus.write_clint {b b' : Bus} {r : Bus.Request} (h : b.write r.addr r.size r.data = .ok b')
    (hr : MemoryBacked r.addr) : b'.clint = b.clint := by
  obtain ⟨info, hinfo, hslave⟩ := hr
  unfold Bus.write at h
  rw [hinfo] at h
  obtain ⟨-, -, h⟩ := bind_eq_ok.mp h
  rw [hslave] at h
  cases h
  rfl

/-- Stores to memory leave the timer alone. -/
theorem Bus.sync_clint {b b' : Bus} {rs : List Bus.Request} (h : b.sync rs = .ok b')
    (hrs : ∀ r ∈ rs, MemoryBacked r.addr) : b'.clint = b.clint := by
  induction rs generalizing b with
  | nil =>
    cases h
    rfl
  | cons r rs ih =>
    rw [Bus.sync, List.foldlM_cons] at h
    obtain ⟨b₁, h₁, h⟩ := bind_eq_ok.mp h
    rw [ih h fun x hx => hrs x (List.mem_cons_of_mem _ hx), Bus.write_clint h₁ (hrs r List.mem_cons_self)]

/-- The bus has served the writes of the run. -/
theorem run_busAfter {env : Env} {n : Nat} {m : Machine} {logs : List CycleLog} (h : run env n = .ok (m, logs)) :
    BusAfter env (Window.after env logs).writes m.bus := by
  refine ⟨by rw [run_memory h, Window.writes_after], ?_⟩
  rw [Window.writes_after]
  refine (run_induction (P := fun _ m logs => (∀ r ∈ logs.flatMap (·.writes), MemoryBacked r.addr) →
    m.bus.clint = { Clint.reset with mtime := m.bus.clint.mtime }) (fun m hm _ _ => ?_)
    (fun n m logs s u _ hP _ hu hall => ?_) h).2
  · obtain ⟨rat, -, hm⟩ := bind_eq_ok.mp hm
    obtain ⟨regfile, -, hm⟩ := bind_eq_ok.mp hm
    cases hm
    rfl
  · rw [List.flatMap_append, List.flatMap_singleton] at hall
    have hold := hP fun r hr => hall r (List.mem_append_left _ hr)
    have hclint : u.bus.clint = m.bus.clint.runPost :=
      Bus.sync_clint hu.bus fun r hr => hall r (List.mem_append_right _ hr)
    show u.bus.clint = { Clint.reset with mtime := u.bus.clint.mtime }
    rw [hclint, Clint.runPost, hold]

/-- These writes have the stores before every retired `fence.i`. -/
def Fenced (events : List Event) (written : List Bus.Request) : Prop :=
  ∀ evs b mepc e evs', events = evs ++ .retire b mepc e :: evs' → Fetch.isFenceI e.op.value = true →
    retiredStores evs <+: written

/-- The word of a pack is what fetch reads after these writes. -/
def ReadAfter (env : Env) (written : List Bus.Request) (x : DecodeRenamePack) : Prop :=
  ∃ bus, BusAfter env written bus ∧ Fetch.fetchWord bus x.pc = .ok x.value

/-- What holds of the packs in flight, the history and the writes: a `fence.i` is the oldest instruction and every store
before it is written, and every word was read after some of the writes, with at least the stores before the `fence.i`s
that are older than it. -/
structure FetchedOk (env : Env) (packs : List DecodeRenamePack) (events : List Event) (writes : List Bus.Request) :
    Prop where
  written : writes <+: retiredStores events
  fenced : Fenced events writes
  first : ∀ pre x post, packs = pre ++ x :: post → Fetch.isFenceI x.value = true → pre = []
  drained : ∀ x ∈ packs, Fetch.isFenceI x.value = true → retiredStores events <+: writes
  words : ∀ pre x post, packs = pre ++ x :: post → ∃ old, old <+: writes ∧ Fenced events old ∧
    (∀ y ∈ pre, Fetch.isFenceI y.value = true → retiredStores events <+: old) ∧ ReadAfter env old x
  history : ∀ evs ev evs' e, events = evs ++ ev :: evs' → ev.entry? = some e → ∃ old, old <+: retiredStores evs ∧
    Fenced evs old ∧ ReadAfter env old e.op.toDecodeRenamePack

section Step

variable {env : Env} {packs new : List DecodeRenamePack} {x : DecodeRenamePack} {events : List Event}
  {writes writes' : List Bus.Request} {ev : Event} {e : Entry}

theorem Fenced.snoc (h : Fenced events writes) (hnew : ∀ b mepc e, ev = .retire b mepc e →
    Fetch.isFenceI e.op.value = true → retiredStores events <+: writes) : Fenced (events ++ [ev]) writes := by
  intro evs b mepc e evs' hsplit hfence
  obtain ⟨post, hold⟩ | ⟨rfl, hlast⟩ := split_snoc hsplit
  · exact h evs b mepc e post hold hfence
  · exact hnew b mepc e hlast.symm hfence

theorem retiredStores_mono (events : List Event) (ev : Event) :
    retiredStores events <+: retiredStores (events ++ [ev]) := by
  rw [retiredStores, retiredStores, List.flatMap_append]
  exact List.prefix_append _ _

namespace FetchedOk

/-- Nothing is fetched at reset. -/
theorem init (env : Env) : FetchedOk env [] [] [] where
  written := List.nil_prefix
  fenced _ _ _ _ _ hsplit := absurd hsplit (by simp)
  first _ _ _ hsplit := absurd hsplit (by simp)
  drained _ hx := absurd hx List.not_mem_nil
  words _ _ _ hsplit := absurd hsplit (by simp)
  history _ _ _ _ hsplit := absurd hsplit (by simp)

/-- An event of the oldest instruction; the others stay. -/
theorem event (h : FetchedOk env (x :: packs) events writes) (hev : ev.entry? = some e)
    (hx : e.op.toDecodeRenamePack = x) : FetchedOk env packs (events ++ [ev]) writes := by
  -- only the oldest can be a `fence.i`
  have hplain (y : DecodeRenamePack) (hy : y ∈ packs) : Fetch.isFenceI y.value ≠ true := by
    intro hfence
    obtain ⟨pre, post, rfl⟩ := List.append_of_mem hy
    exact List.cons_ne_nil _ _ (h.first (x :: pre) y post rfl hfence)
  have hnew (b : Arch) (mepc : Word) (e' : Entry) (he' : ev = .retire b mepc e') : e' = e := by
    rw [he'] at hev
    exact Option.some.inj hev
  refine ⟨h.written.trans (retiredStores_mono _ _), ?_, ?_, fun y hy hfence => absurd hfence (hplain y hy), ?_, ?_⟩
  · refine h.fenced.snoc fun b mepc e' he' hfence => ?_
    rw [hnew b mepc e' he'] at hfence
    exact h.drained x List.mem_cons_self (by rw [← hx]; exact hfence)
  · rintro pre y post rfl hfence
    exact absurd hfence (hplain y (List.mem_append_right _ List.mem_cons_self))
  · rintro pre y post rfl
    obtain ⟨old, hold, hfenced, holder, hread⟩ := h.words (x :: pre) y post rfl
    refine ⟨old, hold, hfenced.snoc fun b mepc e' he' hfence => ?_, fun z hz hfence => ?_, hread⟩
    · rw [hnew b mepc e' he'] at hfence
      exact holder x List.mem_cons_self (by rw [← hx]; exact hfence)
    · exact absurd hfence (hplain z (List.mem_append_left _ hz))
  · intro evs ev' evs' e' hsplit hentry
    obtain ⟨post, hold⟩ | ⟨rfl, rfl⟩ := split_snoc hsplit
    · exact h.history evs ev' post e' hold hentry
    · obtain ⟨old, hold, hfenced, -, hread⟩ := h.words [] x packs rfl
      rw [hev] at hentry
      cases hentry
      exact ⟨old, hold.trans h.written, hfenced, hx ▸ hread⟩

/-- The youngest instructions are dropped. -/
theorem drop {kept dropped : List DecodeRenamePack} (h : FetchedOk env (kept ++ dropped) events writes) :
    FetchedOk env kept events writes where
  written := h.written
  fenced := h.fenced
  first pre x post hsplit := h.first pre x (post ++ dropped) (by rw [hsplit, List.append_assoc, List.cons_append])
  drained x hx := h.drained x (List.mem_append_left _ hx)
  words pre x post hsplit := h.words pre x (post ++ dropped) (by rw [hsplit, List.append_assoc, List.cons_append])
  history := h.history

/-- A flush discards the words. -/
theorem clear (h : FetchedOk env packs events writes) : FetchedOk env [] events writes := by
  have hall : FetchedOk env ([] ++ packs) events writes := h
  exact hall.drop

/-- An interrupt, which drops everything in flight. -/
theorem interrupt (h : FetchedOk env packs events writes) (hev : ev.entry? = none) :
    FetchedOk env [] (events ++ [ev]) writes where
  written := h.written.trans (retiredStores_mono _ _)
  fenced := h.fenced.snoc fun b mepc e he => by
    rw [he] at hev
    cases hev
  first pre x post hsplit := absurd hsplit (by simp)
  drained x hx := absurd hx List.not_mem_nil
  words pre x post hsplit := absurd hsplit (by simp)
  history evs ev' evs' e hsplit hentry := by
    obtain ⟨post, hold⟩ | ⟨rfl, rfl⟩ := split_snoc hsplit
    · exact h.history evs ev' post e hold hentry
    · rw [hev] at hentry
      cases hentry

/-- Words are fetched. A `fence.i` is fetched when nothing is in flight and every store is written, before the others. -/
theorem push (h : FetchedOk env packs events writes) (hread : ∀ x ∈ new, ReadAfter env writes x)
    (hfence : ∀ x ∈ new, Fetch.isFenceI x.value = true →
      packs = [] ∧ retiredStores events <+: writes ∧ ∀ pre y post, new = pre ++ y :: post →
        Fetch.isFenceI y.value = true → pre = []) :
    FetchedOk env (packs ++ new) events writes where
  written := h.written
  fenced := h.fenced
  first pre x post hsplit hx := by
    obtain ⟨post', hold, -⟩ | ⟨pre', rfl, hnew⟩ := split_append hsplit
    · exact h.first pre x post' hold hx
    · obtain ⟨hnil, -, hfirst⟩ := hfence x (by rw [hnew]; exact List.mem_append_right _ List.mem_cons_self) hx
      rw [hnil, hfirst pre' x post hnew hx, List.append_nil]
  drained x hx hf := by
    obtain hx | hx := List.mem_append.mp hx
    · exact h.drained x hx hf
    · exact (hfence x hx hf).2.1
  words pre x post hsplit := by
    obtain ⟨post', hold, -⟩ | ⟨pre', rfl, hnew⟩ := split_append hsplit
    · exact h.words pre x post' hold
    · refine ⟨writes, List.prefix_rfl, h.fenced, fun y hy hf => ?_, hread x (by rw [hnew]; simp)⟩
      obtain hy | hy := List.mem_append.mp hy
      · exact h.drained y hy hf
      · exact (hfence y (by rw [hnew]; exact List.mem_append_left _ hy) hf).2.1
  history := h.history

/-- The store buffer writes. -/
theorem write (h : FetchedOk env packs events writes) (hle : writes <+: writes')
    (hwritten : writes' <+: retiredStores events) : FetchedOk env packs events writes' where
  written := hwritten
  fenced evs b mepc e evs' hsplit hf := (h.fenced evs b mepc e evs' hsplit hf).trans hle
  first := h.first
  drained x hx hf := (h.drained x hx hf).trans hle
  words pre x post hsplit := by
    obtain ⟨old, hold, hrest⟩ := h.words pre x post hsplit
    exact ⟨old, hold.trans hle, hrest⟩
  history := h.history

/-- The oldest instructions retire, one after the other. -/
theorem retire {es : List Entry} (mepc : Word) (b : Arch)
    (h : FetchedOk env (es.map (·.op.toDecodeRenamePack) ++ packs) events writes) :
    FetchedOk env packs (events ++ retireEvents mepc b es) writes := by
  induction es generalizing b events with
  | nil =>
    rw [retireEvents, List.append_nil]
    exact h
  | cons e es ih =>
    have hone : FetchedOk env _ (events ++ [.retire b mepc e]) writes := h.event rfl rfl
    rw [retireEvents, List.append_cons]
    exact ih _ hone

end FetchedOk

end Step

section Cycle

variable {env : Env} {n : Nat} {m : Machine} {w : Window} {s : Stages} {u : Updates}

theorem Refines.written (h : Refines m w) : w.writes <+: retiredStores w.events := by
  obtain ⟨com, unc, -, hcom, -⟩ := h.store_items
  exact ⟨_, hcom.writes⟩

/-- In a cycle without a flush, the head retires and words are fetched. -/
theorem FlowStages.fetchedOk (f : FlowStages env n m w s) (h : Normal m w) (hp : PortsOnce m)
    (hbus : BusAfter env w.writes m.bus) (hold : FetchedOk env (inFlight m w) w.events w.writes)
    (hu : s.Synced env n m u) :
    FetchedOk env (inFlight (s.machine env n m u) (w.step (s.log env n m u))) (w.step (s.log env n m u)).events
      (w.step (s.log env n m u)).writes := by
  have hwritten := ((CycleCase.flow h f).refines hu).written
  have hevents := f.step_events h u
  have hwrites : (w.step (s.log env n m u)).writes = w.writes ++ u.writes := by
    rw [f.step_eq h u]
    exact Window.writes_retireAll
  rw [f.inFlight_before] at hold
  have hret := hold.retire (m.csrFile.value csrMepc) w.arch
  obtain ⟨hwords, hfence⟩ := fetchRun_words f.decode.fetchDecode f.ran.fetch f.fetch.list
  rw [f.inFlight_after h, hevents, hwrites]
  rw [hevents, hwrites] at hwritten
  -- some retire, the fetched join, then the stores of the cycle are written
  refine (hret.push (fun x hx => ?_) fun x hx hx' => ?_).write (List.prefix_append _ _) hwritten
  · obtain ⟨p, hp, rfl⟩ := List.mem_map.mp hx
    exact ⟨m.bus, hbus, (congrArg _ (decodePack_pc p)).trans (hwords p hp)⟩
  · obtain ⟨p, hmem, rfl⟩ := List.mem_map.mp hx
    obtain ⟨pre, post, hsplit⟩ := List.append_of_mem hmem
    obtain ⟨-, hidle, hridle, hen, hempty⟩ := hfence pre p post hsplit hx'
    obtain ⟨hdrained, hflight⟩ := f.drained h hp hidle hridle hen hempty
    refine ⟨?_, (f.writes_eq h hempty).symm ▸ List.prefix_rfl, fun pre y post hsplit hy => ?_⟩
    · rw [f.flight, List.append_eq_nil_iff] at hflight
      rw [hflight.2, frontPacks, hdrained.decodeRename.1, hdrained.fetchDecode.1]
      rfl
    · obtain ⟨pre', rest', hfetched, rfl, hrest⟩ := List.map_eq_append_iff.mp hsplit
      obtain ⟨q, post', rfl, rfl, -⟩ := List.map_eq_cons_iff.mp hrest
      rw [(hfence pre' q post' hfetched hy).1, List.map_nil]

/-- A flush drops what it does not keep. -/
theorem NormalFlush.fetchedOk (g : NormalFlush env n m w s) (h : Normal m w)
    (hold : FetchedOk env (inFlight m w) w.events w.writes) (hu : s.Synced env n m u) :
    FetchedOk env (inFlight (s.machine env n m u) (w.step (s.log env n m u))) (w.step (s.log env n m u)).events
      (w.step (s.log env n m u)).writes := by
  have hwrites : (w.step (s.log env n m u)).writes = w.writes := by
    rw [g.step_eq h (g.updated h hu)]
    exact Window.writes_retireAll
  have hpacks : inFlight (s.machine env n m u) (w.step (s.log env n m u)) = g.kept.map (·.op.toDecodeRenamePack) := by
    rw [g.stages.inFlight_after, g.step_eq h (g.updated h hu)]
    rfl
  rw [inFlight, g.flight, List.map_append, List.append_assoc] at hold
  have hret := hold.retire (m.csrFile.value csrMepc) w.arch
  rw [hpacks, g.step_events h hu, hwrites, NormalFlush.kept]
  by_cases hst : g.stop = .miss
  · rw [if_pos hst, List.map_nil]
    exact hret.clear
  · rw [if_neg hst]
    exact hret.drop

/-- A walk ends with the event of the oldest instruction or an interrupt. -/
theorem WalkStages.fetchedOk (v : WalkStages env n m w s) (h : Walk m w (v.pre.length + 1))
    (hold : FetchedOk env (inFlight m w) w.events w.writes) (hu : s.Synced env n m u) :
    FetchedOk env (inFlight (s.machine env n m u) (w.step (s.log env n m u))) (w.step (s.log env n m u)).events
      (w.step (s.log env n m u)).writes := by
  rw [v.stages.inFlight_after]
  by_cases hpre : v.pre = []
  · rw [v.step_last h (v.updated h hu) hpre]
    obtain ⟨e, rest, hflight, -, ⟨-, r, -, -, -, hev⟩ | ⟨-, hev⟩⟩ := v.walkEvent h hpre u
    · rw [inFlight, hflight] at hold
      rw [hev]
      exact (hold.event rfl rfl).clear
    · rw [hev]
      exact hold.interrupt rfl
  · rw [v.step_eq h (v.updated h hu) hpre]
    exact hold.drop

/-- Every word in the machine was read from memory after some of the retired stores. -/
theorem run_fetched {m : Machine} {logs : List CycleLog} (h : run env n = .ok (m, logs)) :
    FetchedOk env (inFlight m (Window.after env logs)) (Window.after env logs).events (Window.after env logs).writes := by
  refine (run_induction (P := fun _ m logs => FetchedOk env (inFlight m (Window.after env logs))
    (Window.after env logs).events (Window.after env logs).writes) (fun m hm hn => ?_)
    (fun n m logs s u hrun hP hcase hu => ?_) h).2
  · rw [show inFlight m (Window.after env []) = [] from reset_inFlight hm]
    exact FetchedOk.init env
  · rw [Window.after_snoc]
    cases hcase with
    | flow hn f => exact f.fetchedOk hn (run_portsOnce hrun) (run_busAfter hrun) hP hu
    | flush hn g => exact g.fetchedOk hn hP hu
    | walk v hw => exact v.fetchedOk hw hP hu

end Cycle

end MyRiscvCore
