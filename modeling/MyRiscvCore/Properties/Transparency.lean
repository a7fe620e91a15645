import MyRiscvCore.Properties.ArchResult

/-!
# MyRiscvCore — prediction changes only timing

Two runs of one program with different predictors retire the same instructions, with the same operands, results, stores
and traps: the in-order machine determines them (`EventOk.observed_eq`), as long as nothing comes in that depends on
time. `Quiet` says this of a history. The instruction words come into it through `run_fetched`: unless a program
stores to its own code without a `fence.i`, fetch reads what the in-order machine would read (`Quiet.word_eq`).
-/

namespace MyRiscvCore

/-- What the architecture sees of an instruction. -/
structure Observed where
  pc : Word
  word : Word
  operands : Option (Word × Word)
  /-- The destination and its value. -/
  result : Option (Nat × Word)
  store : Option Bus.Request
  csrWrite : Option (Nat × Word)
  /-- The handler and the CSR writes. -/
  trap : Option (Word × List Csrfile.Request)
  deriving DecidableEq

def Entry.observed (e : Entry) (trap : Option (Word × List Csrfile.Request)) : Observed where
  pc := e.op.pc
  word := e.op.value
  operands := e.result.map fun r => (r.src1Value, r.src2Value)
  result := if e.writes then e.value?.map fun v => (e.op.rd, v) else none
  store := e.storeItem?.map (·.request)
  csrWrite := e.result.bind fun r =>
    if r.csrNewvalueValid && !r.hasException then some (r.csr, r.csrNewvalue) else none
  trap := trap

/-- What is seen of an event; interrupts do not belong to an instruction. -/
def Event.observed : Event → Option Observed
  | .retire _ _ e => some (e.observed none)
  | .exception _ e handler writes => some (e.observed (some (handler, writes)))
  | .interrupt _ _ _ => none

def observations (events : List Event) : List Observed := events.filterMap Event.observed

/-- The addresses of `mtime`. -/
def timeAddrs : List Word := [0x20000000 + Clint.mtimeAddr, 0x20000000 + (Clint.mtimeAddr + 4)]

/-- The write changes a byte of the word at the pc. -/
def Bus.Request.Touches (r : Bus.Request) (pc : Word) : Prop :=
  r.addr.toNat < pc.toNat + 4 ∧ pc.toNat < r.addr.toNat + r.size.bytes

/-- Nothing comes into the history that depends on time: no interrupt, no access to a device, no CSR that changes by
itself, and no instruction word that is read before the store to it is written. -/
structure Quiet (events : List Event) : Prop where
  uninterrupted : ∀ ev ∈ events, ev.entry?.isSome = true
  data : ∀ b mepc e, .retire b mepc e ∈ events → (isLoadOp e.op.toDecodeInfo || isStoreOp e.op.toDecodeInfo) = true →
    MemoryBacked (archPack b.regs e.op).lsuAddr
  csr : ∀ b mepc e, .retire b mepc e ∈ events → e.op.readsCsr = true → StableCsr e.op.csr
  time : ∀ ev ∈ events, ∀ e, ev.entry? = some e → e.op.pc ∉ timeAddrs
  code : ∀ evs b mepc e evs' ev e' evs'', events = evs ++ .retire b mepc e :: evs' ++ ev :: evs'' →
    ev.entry? = some e' → ∀ r ∈ archStores b.regs e.op, r.Touches e'.op.pc →
    ∃ b' mepc' f, .retire b' mepc' f ∈ evs' ∧ Fetch.isFenceI f.op.value = true

section Words

variable {env : Env}

theorem findSlaveInfo_clint {addr : Word} {info : SlaveInfo} (h : findSlaveInfo slaveInfoList addr = some info)
    (hc : info.slave = .clint) : info.base = 0x20000000 := by
  have hmem := List.mem_of_find?_eq_some h
  obtain rfl | rfl : info = ⟨0x80000000, 1048576, .memory⟩ ∨ info = ⟨0x20000000, 0x10000, .clint⟩ := by
    simpa [slaveInfoList] using hmem
  · cases hc
  · rfl

/-- A fetched word depends on the memory or device at its address. -/
theorem fetchWord_congr {bus bus' : Bus} {pc : Word}
    (hmemory : ∀ info, findSlaveInfo slaveInfoList pc = some info → info.slave = .memory →
      bus.memory.read (pc - info.base).toNat .word = bus'.memory.read (pc - info.base).toNat .word)
    (hclint : ∀ info, findSlaveInfo slaveInfoList pc = some info → info.slave = .clint →
      bus.clint.read32 (pc - info.base) = bus'.clint.read32 (pc - info.base)) :
    Fetch.fetchWord bus pc = Fetch.fetchWord bus' pc := by
  unfold Fetch.fetchWord Bus.read32 Bus.read
  cases hinfo : findSlaveInfo slaveInfoList pc with
  | none => rfl
  | some info =>
    cases hslave : info.slave with
    | memory => simp only [hslave, hmemory info hinfo hslave]
    | clint => simp only [hslave, hclint info hinfo hslave]

theorem Clint.read32_mtime {offset : Word} (h : offset ≠ mtimeAddr) (h' : offset ≠ mtimeAddr + 4) (mtime : BitVec 64) :
    ({ Clint.reset with mtime := mtime } : Clint).read32 offset = Clint.reset.read32 offset := by
  unfold Clint.read32
  rw [if_neg h, if_neg h', if_neg h, if_neg h']

/-- A store elsewhere leaves a word of the memory as it is. -/
theorem applyStore_read {mem : Memory} {r : Bus.Request} {pc : Word} {info : SlaveInfo}
    (hinfo : findSlaveInfo slaveInfoList pc = some info) (hslave : info.slave = .memory) (hr : ¬ r.Touches pc) :
    (applyStore mem r).read (pc - info.base).toNat .word = mem.read (pc - info.base).toNat .word := by
  unfold applyStore
  cases hinfo' : findSlaveInfo slaveInfoList r.addr with
  | none => rfl
  | some info' =>
    dsimp only
    split_ifs with hslave'
    · obtain ⟨rfl, hpc, hlt⟩ := findSlaveInfo_memory hinfo hslave
      obtain ⟨rfl, hr₁, hr₂⟩ := findSlaveInfo_memory hinfo' hslave'
      have hoff {a : Word} (ha : 2147483648 ≤ a.toNat) : (a - memoryInfo.base).toNat = a.toNat - 2147483648 :=
        BitVec.toNat_sub_of_le ha
      have hbyte (k : Nat) (hk : k < 4) : mem.write (r.addr - memoryInfo.base).toNat r.size r.data
          ((pc - memoryInfo.base).toNat + k) = mem ((pc - memoryInfo.base).toNat + k) := by
        rw [Memory.write, if_neg]
        rw [hoff hpc, hoff hr₁]
        rintro ⟨h₁, h₂⟩
        exact hr ⟨by omega, by omega⟩
      have hfirst := hbyte 0 (by decide)
      rw [Nat.add_zero] at hfirst
      simp only [Memory.read]
      rw [hbyte 1 (by decide), hbyte 2 (by decide), hbyte 3 (by decide), hfirst]
    · rfl

theorem foldl_applyStore_read {rs : List Bus.Request} {pc : Word} {info : SlaveInfo}
    (hinfo : findSlaveInfo slaveInfoList pc = some info) (hslave : info.slave = .memory)
    (hrs : ∀ r ∈ rs, ¬ r.Touches pc) (mem : Memory) :
    (rs.foldl applyStore mem).read (pc - info.base).toNat .word = mem.read (pc - info.base).toNat .word := by
  induction rs generalizing mem with
  | nil => rfl
  | cons r rs ih =>
    rw [List.foldl_cons, ih (fun x hx => hrs x (List.mem_cons_of_mem _ hx)),
      applyStore_read hinfo hslave (hrs r List.mem_cons_self)]

theorem retiredStores_append (events events' : List Event) :
    retiredStores (events ++ events') = retiredStores events ++ retiredStores events' := List.flatMap_append

/-- Which event a retired store comes from. -/
theorem retiredStores_split {events : List Event} {old rest : List Bus.Request} {r : Bus.Request}
    (h : retiredStores events = old ++ r :: rest) : ∃ evs b mepc e evs', events = evs ++ .retire b mepc e :: evs' ∧
      r ∈ archStores b.regs e.op ∧ old.length < (retiredStores (evs ++ [.retire b mepc e])).length := by
  induction events using List.reverseRecOn generalizing rest with
  | nil => exact absurd h (by simp [retiredStores])
  | append_singleton events ev ih =>
    have hsplit := h
    rw [retiredStores_append] at hsplit
    obtain ⟨rest', hold, -⟩ | ⟨old', rfl, hnew⟩ := split_append hsplit
    · obtain ⟨evs, b, mepc, e, evs', rfl, hr, hlen⟩ := ih hold
      exact ⟨evs, b, mepc, e, evs' ++ [ev], by simp, hr, hlen⟩
    · obtain ⟨b, mepc, e, rfl, hr⟩ : ∃ b mepc e, ev = .retire b mepc e ∧ r ∈ archStores b.regs e.op := by
        have hr : r ∈ retiredStores [ev] := by rw [hnew]; simp
        rw [retiredStores, List.flatMap_singleton] at hr
        cases ev with
        | retire b mepc e => exact ⟨b, mepc, e, rfl, hr⟩
        | exception | interrupt => cases hr
      refine ⟨events, b, mepc, e, [], rfl, hr, ?_⟩
      rw [h]
      simp only [List.length_append, List.length_cons]
      omega

namespace Quiet

variable {events evs evs' : List Event} {ev : Event} {e : Entry} {old rest : List Bus.Request}

/-- The stores that a word was read before are not to it. -/
theorem not_touches (h : Quiet events) (hev : events = evs ++ ev :: evs') (he : ev.entry? = some e)
    (hfenced : Fenced evs old) (hrest : retiredStores evs = old ++ rest) : ∀ r ∈ rest, ¬ r.Touches e.op.pc := by
  intro r hr htouch
  obtain ⟨rs, rs', rfl⟩ := List.append_of_mem hr
  have hsplit : retiredStores evs = (old ++ rs) ++ r :: rs' := by rw [hrest, List.append_assoc]
  obtain ⟨pre, b, mepc, e₁, post, rfl, hmem, hlen⟩ := retiredStores_split hsplit
  obtain ⟨b', mepc', f, hf, hfence⟩ := h.code pre b mepc e₁ post ev e evs' hev he r hmem htouch
  -- the stores before the `fence.i` are in `old`, and this one is not
  obtain ⟨post₁, post₂, rfl⟩ := List.append_of_mem hf
  have hprefix := (hfenced (pre ++ .retire b mepc e₁ :: post₁) b' mepc' f post₂ (by simp) hfence).length_le
  have hle : (retiredStores (pre ++ [.retire b mepc e₁])).length ≤
      (retiredStores (pre ++ .retire b mepc e₁ :: post₁)).length := by
    simp [retiredStores]
  simp only [List.length_append] at hlen
  omega

/-- The stores of a quiet history go to memory. -/
theorem stores_backed (h : Quiet events) (hev : events = evs ++ evs') :
    ∀ r ∈ retiredStores evs, MemoryBacked r.addr := by
  intro r hr
  obtain ⟨rs, rs', hsplit⟩ := List.append_of_mem hr
  obtain ⟨pre, b, mepc, e₁, post, rfl, hmem, -⟩ := retiredStores_split hsplit
  unfold archStores at hmem
  split_ifs at hmem with hstore
  · rw [List.mem_singleton.mp hmem]
    exact h.data b mepc e₁ (by rw [hev]; simp) (by rw [hstore, Bool.or_true])
  · cases hmem

end Quiet

/-- The word of an event is the one that the in-order machine has at its pc. -/
theorem Quiet.word_eq {n : Nat} {m : Machine} {logs : List CycleLog} {evs evs' : List Event} {ev : Event} {e : Entry}
    (hrun : run env n = .ok (m, logs)) (h : Quiet (Window.after env logs).events)
    (hev : (Window.after env logs).events = evs ++ ev :: evs') (he : ev.entry? = some e) :
    Fetch.fetchWord ⟨(InOrder.after env evs).arch.mem, Clint.reset⟩ e.op.pc = .ok e.op.value := by
  obtain ⟨old, ⟨rest, hrest⟩, hfenced, bus, hbus, hword⟩ := (run_fetched hrun).history evs ev evs' e hev he
  rw [← hword]
  have hmem : (InOrder.after env evs).arch.mem = (old ++ rest).foldl applyStore env.memory := by
    have heq := programStores_eq fun pre x post (hpre : evs = pre ++ x :: post) =>
      (run_inOrder hrun).events pre x (post ++ ev :: evs') (by rw [hev, hpre, List.append_assoc, List.cons_append])
    rw [heq.2, ← heq.1, hrest]
  have hbacked := h.stores_backed hev
  have hclint := hbus.clint fun r hr => hbacked r (by rw [← hrest]; exact List.mem_append_left _ hr)
  refine fetchWord_congr (fun info hinfo hslave => ?_) (fun info hinfo hslave => ?_)
  · show (InOrder.after env evs).arch.mem.read _ .word = _
    rw [hmem, List.foldl_append, ← hbus.memory]
    exact foldl_applyStore_read hinfo hslave (h.not_touches hev he hfenced hrest.symm) bus.memory
  · have htime := h.time ev (by rw [hev]; simp) e he
    have hpc {offset : Word} (hoff : e.op.pc - 0x20000000 = offset) : e.op.pc = 0x20000000 + offset := by
      rw [← hoff, BitVec.add_comm, BitVec.sub_add_cancel]
    rw [findSlaveInfo_clint hinfo hslave, hclint]
    refine (Clint.read32_mtime (fun hoff => htime ?_) (fun hoff => htime ?_) _).symm
    · exact hpc hoff ▸ List.mem_cons_self
    · exact hpc hoff ▸ List.mem_cons_of_mem _ List.mem_cons_self

end Words

/-! ## One event

Two entries with one architectural result make one event. -/

/-- The states of two runs, but for the CSRs that change by themselves. -/
structure SameState (st st' : InOrder) : Prop where
  arch : st'.arch = st.arch
  csr : ∀ a, StableCsr a → st'.csr a = st.csr a

/-- One instruction with its results in two runs. -/
structure SameEntry (e e' : Entry) (r r' : ExecuteWbPack) : Prop where
  op : SameDecoded e.op.toDecodeRenamePack e'.op.toDecodeRenamePack
  status : e.status = .finished r
  status' : e'.status = .finished r'
  info : r.toDecodeInfo = e.op.toDecodeInfo
  result : SameResult r r'

namespace SameEntry

variable {e e' : Entry} {r r' : ExecuteWbPack} (h : SameEntry e e' r r')

include h

theorem writes_eq : e'.writes = e.writes := by rw [Entry.writes, Entry.writes, h.op.info]

/-- The value it writes. -/
theorem value_eq (hw : e.writes = true) : e'.value? = e.value? := by
  have hvalue : e.value? = if r.hasException then none else some r.rdValue := by
    simp [Entry.value?, Entry.result, h.status]
  have hvalue' : e'.value? = if r'.hasException then none else some r'.rdValue := by
    simp [Entry.value?, Entry.result, h.status']
  rw [hvalue, hvalue', h.result.hasException]
  split_ifs with hx
  · rfl
  · refine congrArg some (h.result.rdValue ?_)
    rw [h.info, Bool.eq_false_iff.mpr hx]
    simpa [Entry.writes] using hw

/-- The store it makes. -/
theorem store_eq : e'.storeItem?.map (·.request) = e.storeItem?.map (·.request) := by
  simp only [Entry.storeItem?, Entry.result, h.status, h.status', Option.bind_some]
  rw [h.result.info, h.result.hasException, h.result.src1Value, h.result.src2Value]
  split_ifs <;> rfl

/-- Equal results are observed alike. -/
theorem observed_eq (trap : Option (Word × List Csrfile.Request)) : e'.observed trap = e.observed trap := by
  have hresult : (if e'.writes then e'.value?.map fun v => (e'.op.rd, v) else none) =
      if e.writes then e.value?.map fun v => (e.op.rd, v) else none := by
    rw [h.writes_eq, h.op.info]
    split_ifs with hw
    · rw [h.value_eq hw]
    · rfl
  have hcsr : (if r'.csrNewvalueValid && !r'.hasException then some (r'.csr, r'.csrNewvalue) else none) =
      if r.csrNewvalueValid && !r.hasException then some (r.csr, r.csrNewvalue) else none := by
    rw [h.result.csrNewvalueValid, h.result.hasException, h.result.info]
    split_ifs with hc
    · rw [h.result.csrNewvalue (by simpa using (Bool.and_eq_true_iff.mp hc).2)]
    · rfl
  unfold Entry.observed
  rw [hresult, h.store_eq, h.op.info]
  simp only [Entry.result, h.status, h.status', Option.bind_some, Option.map_some, hcsr, h.result.src1Value,
    h.result.src2Value]

/-- The CSR writes of an instruction that retires. -/
theorem csrWrites_eq (hx : r.hasException = false) {csr csr' : Nat → Word}
    (hcsr : ∀ a, StableCsr a → csr' a = csr a) :
    retireCsrRequests ⟨csr', [], []⟩ e' = retireCsrRequests ⟨csr, [], []⟩ e := by
  simp only [retireCsrRequests, h.status, h.status']
  rw [h.result.csrNewvalueValid, h.result.csrNewvalue hx, h.result.info, h.op.info, hcsr csrMstatus (by decide)]

/-- The state after it. -/
theorem retire_eq (hpack : PackOk e.op.toDecodeRenamePack) (b : Arch) {mepc mepc' : Word}
    (hmepc : e.op.op = .mret → mepc' = mepc) : b.retire mepc' e' = b.retire mepc e := by
  unfold Arch.retire
  rw [h.op.archStores, h.op.archNext b.regs hpack hmepc, h.writes_eq, h.op.info]
  split_ifs with hw
  · rw [h.value_eq hw]
  · rfl

end SameEntry

/-- What an event asks for when it retires: a load goes to the memory, and a CSR that changes by itself is not read. -/
def Event.Stable : Event → Prop
  | .retire b _ e => (isLoadOp e.op.toDecodeInfo = true → MemoryBacked (archPack b.regs e.op).lsuAddr) ∧
    (e.op.readsCsr = true → StableCsr e.op.csr)
  | .exception _ _ _ _ | .interrupt _ _ _ => True

/-- What `EventOk` says of an event of an instruction. -/
theorem EventOk.computes {st : InOrder} {ev : Event} {e : Entry} (h : EventOk st ev) (he : ev.entry? = some e) :
    ∃ r, e.status = .finished r ∧ Computes st.arch st.csr e r ∧
      ((∃ mepc, ev = .retire st.arch mepc e ∧ r.hasException = false ∧ (e.op.op = .mret → mepc = st.csr csrMepc)) ∨
        ev = .exception st.arch e (st.csr csrMtvec) (exceptionWrites e.op.pc r.toExceptionInfo) ∧
          r.hasException = true) := by
  cases ev with
  | retire b mepc e₁ =>
    cases he
    obtain ⟨rfl, hmepc, r, hs, hx, hc⟩ := h
    exact ⟨r, hs, hc, .inl ⟨mepc, rfl, hx, hmepc⟩⟩
  | exception b e₁ handler writes =>
    cases he
    obtain ⟨rfl, rfl, r, hs, hx, hc, rfl⟩ := h
    exact ⟨r, hs, hc, .inr ⟨rfl, hx⟩⟩
  | interrupt => cases he

/-- In states that agree, the next events with one instruction word look the same and lead to states that agree. -/
theorem EventOk.observed_eq {st st' : InOrder} {ev ev' : Event} {e e' : Entry} (hst : SameState st st')
    (h : EventOk st ev) (h' : EventOk st' ev') (he : ev.entry? = some e) (he' : ev'.entry? = some e')
    (hword : e'.op.value = e.op.value) (hstable : ev.Stable) :
    ev'.observed = ev.observed ∧ SameState (st.step ev) (st'.step ev') := by
  obtain ⟨r, hs, hc, hcase⟩ := h.computes he
  obtain ⟨r', hs', hc', hcase'⟩ := h'.computes he'
  rw [hst.arch] at hc' hcase'
  have hop := hc.pack.sameDecoded hc'.pack (by rw [hc.pc, hc'.pc]) hword
  have hinfo : r.toDecodeInfo = e.op.toDecodeInfo := hc.result.resultOf.info
  have hres : SameResult r r' := by
    refine hc.sameResult hc' hst.csr hop (fun hx _ hload => ?_) (fun hx _ hread => ?_)
    · obtain ⟨mepc, rfl, -⟩ | ⟨-, hexc⟩ := hcase
      · exact hstable.1 hload
      · rw [hexc] at hx
        cases hx
    · obtain ⟨mepc, rfl, -⟩ | ⟨-, hexc⟩ := hcase
      · exact hstable.2 hread
      · rw [hexc] at hx
        cases hx
  have hsame : SameEntry e e' r r' := ⟨hop, hs, hs', hinfo, hres⟩
  -- the results agree, so both retire or both trap
  obtain ⟨mepc, rfl, hx, hmepc⟩ | ⟨rfl, hx⟩ := hcase
  · obtain ⟨mepc', rfl, -, hmepc'⟩ | ⟨-, hx'⟩ := hcase'
    · refine ⟨congrArg some (hsame.observed_eq none), ?_, fun a ha => ?_⟩
      · show st'.arch.retire mepc' e' = st.arch.retire mepc e
        rw [hst.arch]
        refine hsame.retire_eq hc.pack st.arch fun hop => ?_
        rw [hmepc hop, hmepc' (by rw [hsame.op.info]; exact hop), hst.csr csrMepc (by decide)]
      · show csrAfter st'.csr (retireCsrRequests _ e') a = csrAfter st.csr (retireCsrRequests _ e) a
        rw [hsame.csrWrites_eq hx hst.csr]
        exact csrAfter_congr (hst.csr a ha) _
    · rw [hres.hasException, hx] at hx'
      cases hx'
  · obtain ⟨mepc', -, hx', -⟩ | ⟨rfl, hx'⟩ := hcase'
    · rw [hres.hasException, hx] at hx'
      cases hx'
    · rw [hres.exception hx, hop.info, hst.csr csrMtvec (by decide)]
      refine ⟨congrArg some (hsame.observed_eq _), ?_, fun a ha => csrAfter_congr (hst.csr a ha) _⟩
      show Arch.mk st'.arch.regs st'.arch.mem _ = Arch.mk st.arch.regs st.arch.mem _
      rw [hst.arch]

/-! ## Whole runs

By induction on the events: both runs show the same prefix. -/

theorem exists_take_succ {α : Type} {as : List α} {k : Nat} (hk : k < as.length) :
    ∃ a post, as = as.take k ++ a :: post ∧ as.take (k + 1) = as.take k ++ [a] := by
  refine ⟨as[k], as.drop (k + 1), ?_, List.take_succ_eq_append_getElem hk⟩
  rw [← List.drop_eq_getElem_cons hk, List.take_append_drop]

section Runs

variable {env env' : Env} {n n' : Nat} {m m' : Machine} {logs logs' : List CycleLog}

theorem Quiet.stable {events : List Event} {ev : Event} (h : Quiet events) (hev : ev ∈ events) : ev.Stable := by
  cases ev with
  | retire b mepc e => exact ⟨fun hload => h.data b mepc e hev (by rw [hload]; rfl), h.csr b mepc e hev⟩
  | exception | interrupt => trivial

/-- After as many events, the two histories look the same and the states agree. -/
theorem observations_take (hmemory : env'.memory = env.memory) (h : run env n = .ok (m, logs))
    (h' : run env' n' = .ok (m', logs')) (hq : Quiet (Window.after env logs).events)
    (hq' : Quiet (Window.after env' logs').events) (k : Nat) (hk : k ≤ (Window.after env logs).events.length)
    (hk' : k ≤ (Window.after env' logs').events.length) :
    observations ((Window.after env' logs').events.take k) = observations ((Window.after env logs).events.take k) ∧
      SameState (InOrder.after env ((Window.after env logs).events.take k))
        (InOrder.after env' ((Window.after env' logs').events.take k)) := by
  induction k with
  | zero =>
    refine ⟨rfl, ?_, fun _ _ => rfl⟩
    show Arch.mk _ env'.memory _ = Arch.mk _ env.memory _
    rw [hmemory]
  | succ k ih =>
    obtain ⟨hobs, hst⟩ := ih (by omega) (by omega)
    obtain ⟨ev, post, hev, htake⟩ := exists_take_succ hk
    obtain ⟨ev', post', hev', htake'⟩ := exists_take_succ hk'
    obtain ⟨e, he⟩ := Option.isSome_iff_exists.mp (hq.uninterrupted ev (by rw [hev]; simp))
    obtain ⟨e', he'⟩ := Option.isSome_iff_exists.mp (hq'.uninterrupted ev' (by rw [hev']; simp))
    have hok := (run_inOrder h).events _ ev post hev
    have hok' := (run_inOrder h').events _ ev' post' hev'
    -- both read the word that the in-order machine has at its pc
    have hword : e'.op.value = e.op.value := by
      obtain ⟨r, -, hc, -⟩ := hok.computes he
      obtain ⟨r', -, hc', -⟩ := hok'.computes he'
      have hw := hq.word_eq h hev he
      have hw' := hq'.word_eq h' hev' he'
      rw [hc'.pc, hst.arch, ← hc.pc, hw] at hw'
      exact (Except.ok.inj hw').symm
    obtain ⟨hsame, hnext⟩ := hok.observed_eq hst hok' he he' hword (hq.stable (by rw [hev]; simp))
    rw [htake, htake', InOrder.after_snoc, InOrder.after_snoc]
    refine ⟨?_, hnext⟩
    rw [observations, observations, List.filterMap_append, List.filterMap_append]
    rw [observations, observations] at hobs
    rw [hobs, List.filterMap_cons, List.filterMap_cons, hsame]

/-- Two runs of one program, with any two predictors: as far as both go, they retire the same instructions with the same
operands, results, stores and traps. -/
theorem prediction_only_timing (hmemory : env'.memory = env.memory) (h : run env n = .ok (m, logs))
    (h' : run env' n' = .ok (m', logs')) (hq : Quiet (Window.after env logs).events)
    (hq' : Quiet (Window.after env' logs').events) :
    observations (Window.after env logs).events <+: observations (Window.after env' logs').events ∨
      observations (Window.after env' logs').events <+: observations (Window.after env logs).events := by
  obtain hle | hle := Nat.le_total (Window.after env logs).events.length (Window.after env' logs').events.length
  · left
    have heq := (observations_take hmemory h h' hq hq' _ (Nat.le_refl _) hle).1
    rw [List.take_length] at heq
    rw [← heq]
    exact (List.take_prefix _ _).filterMap _
  · right
    have heq := (observations_take hmemory h h' hq hq' _ hle (Nat.le_refl _)).1
    rw [List.take_length] at heq
    rw [heq]
    exact (List.take_prefix _ _).filterMap _

/-! ### A program -/

instance (addr : Word) : Decidable (MemoryBacked addr) :=
  decidable_of_iff ((findSlaveInfo slaveInfoList addr).any (·.slave == .memory) = true)
    (by simp [MemoryBacked, Option.any_eq_true])

instance (r : Bus.Request) (pc : Word) : Decidable (r.Touches pc) :=
  inferInstanceAs (Decidable (_ ∧ _))

/-- The event asks for nothing that depends on time, and its stores are to none of these instructions. -/
def Event.isQuiet (events : List Event) : Event → Bool
  | .retire b _ e => decide (e.op.pc ∉ timeAddrs) &&
    (!(isLoadOp e.op.toDecodeInfo || isStoreOp e.op.toDecodeInfo) || decide (MemoryBacked (archPack b.regs e.op).lsuAddr)) &&
    (!e.op.readsCsr || decide (StableCsr e.op.csr)) &&
    (archStores b.regs e.op).all fun r => events.all fun ev => ev.entry?.all fun e' => !decide (r.Touches e'.op.pc)
  | .exception _ e _ _ => decide (e.op.pc ∉ timeAddrs)
  | .interrupt _ _ _ => false

/-- A program that leaves its own code alone. -/
theorem Quiet.of_isQuiet {events : List Event} (h : ∀ ev ∈ events, ev.isQuiet events = true) : Quiet events where
  uninterrupted ev hev := by
    have hq := h ev hev
    cases ev with
    | interrupt => cases hq
    | retire | exception => rfl
  data b mepc e hev hop := by
    have hq := h _ hev
    simp only [Event.isQuiet, Bool.and_eq_true, hop, Bool.not_true, Bool.false_or, decide_eq_true_eq] at hq
    exact hq.1.1.2
  csr b mepc e hev hop := by
    have hq := h _ hev
    simp only [Event.isQuiet, Bool.and_eq_true, hop, Bool.not_true, Bool.false_or, decide_eq_true_eq] at hq
    exact hq.1.2
  time ev hev e he := by
    have hq := h ev hev
    cases ev with
    | retire =>
      cases he
      simp only [Event.isQuiet, Bool.and_eq_true, decide_eq_true_eq] at hq
      exact hq.1.1.1
    | exception =>
      cases he
      exact of_decide_eq_true hq
    | interrupt => cases he
  -- no store touches the word of a later instruction
  code evs b mepc e evs' ev e' evs'' hsplit he r hr htouch := by
    have hq := h (.retire b mepc e) (by rw [hsplit]; simp)
    simp only [Event.isQuiet, Bool.and_eq_true] at hq
    have hno := List.all_eq_true.mp (List.all_eq_true.mp hq.2 r hr) ev (by rw [hsplit]; simp)
    rw [he] at hno
    simp [htouch] at hno

/-- A branch over one word, a store and a load. -/
def branchStoreLoad : List Word := [0x00000463, 0x0000100f, 0x800000b7, 0x0410a023, 0x0400a183, 0x0000100f]

/-- A predictor that expects every branch to be taken. -/
def expectTaken : BranchPredictor := { BranchPredictor.zero with gsharePht := fun _ => 3, localPht := fun _ => 3 }

/-- After 21 cycles with the branch mispredicted, and after 14 with it predicted. -/
theorem prediction_only_timing_branchStoreLoad : ∃ m logs m' logs',
    run (Env.ofProgram branchStoreLoad) 21 = .ok (m, logs) ∧
    run { Env.ofProgram branchStoreLoad with predictor := expectTaken } 14 = .ok (m', logs') ∧
    (observations (Window.after (Env.ofProgram branchStoreLoad) logs).events).length = 2 ∧
    (observations (Window.after { Env.ofProgram branchStoreLoad with predictor := expectTaken } logs').events).length = 4 ∧
    (observations (Window.after (Env.ofProgram branchStoreLoad) logs).events <+:
        observations (Window.after { Env.ofProgram branchStoreLoad with predictor := expectTaken } logs').events ∨
      observations (Window.after { Env.ofProgram branchStoreLoad with predictor := expectTaken } logs').events <+:
        observations (Window.after (Env.ofProgram branchStoreLoad) logs).events) := by
  let quietWith (env : Env) (k : Nat) : Machine → List CycleLog → Bool := fun _ logs =>
    let events := (Window.after env logs).events
    events.all (·.isQuiet events) && (observations events).length == k
  obtain ⟨m, logs, h, hP⟩ := exists_run_of (show endsWith (quietWith (Env.ofProgram branchStoreLoad) 2)
    (run (Env.ofProgram branchStoreLoad) 21) = true by decide +kernel)
  obtain ⟨m', logs', h', hP'⟩ := exists_run_of (show endsWith
    (quietWith { Env.ofProgram branchStoreLoad with predictor := expectTaken } 4)
    (run { Env.ofProgram branchStoreLoad with predictor := expectTaken } 14) = true by decide +kernel)
  simp only [quietWith, Bool.and_eq_true, beq_iff_eq] at hP hP'
  exact ⟨m, logs, m', logs', h, h', hP.2, hP'.2, prediction_only_timing rfl h h'
    (Quiet.of_isQuiet (List.all_eq_true.mp hP.1)) (Quiet.of_isQuiet (List.all_eq_true.mp hP'.1))⟩

end Runs

end MyRiscvCore
