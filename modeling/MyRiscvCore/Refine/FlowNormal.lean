import MyRiscvCore.Refine.FlowStep

/-!
# MyRiscvCore — the relation after a cycle without a flush

Each part of `Normal` after a cycle in which nothing is flushed, from the part before it and what the stages
did, and `FlowStages.normal`, which collects them.
-/

namespace MyRiscvCore

open Renaming (mapAfter live)

namespace FlowStages

variable {env : Env} {n : Nat} {m : Machine} {w : Window} {s : Stages} {u : Updates}

variable (f : FlowStages env n m w s)

include f

/-! ## The window

`window u` is the window after the cycle, as the observer computes it. -/

/-- The window after the cycle. -/
def window (f : FlowStages env n m w s) (u : Updates) : Window :=
  { ({ w with writes := w.writes ++ u.writes }.advance s.ex.ports).retireAll
      (m.csrFile.value csrMepc) f.ret with
    flight := f.rest.map (Entry.advance s.ex.ports) ++ f.news }

/-- The retired entries have their results already. -/
theorem flight_advance :
    w.flight.map (Entry.advance s.ex.ports) = f.ret ++ f.rest.map (Entry.advance s.ex.ports) := by
  rw [f.flight, List.map_append, f.retired.advance]

/-- New instructions have no result. -/
theorem waiting : ∀ e ∈ f.news, e.status = .waiting := by
  obtain ⟨cp, hg⟩ := f.group
  exact hg.waiting

theorem renamed_eq :
    s.rn.renamed.map (fun op => (⟨op, .waiting⟩ : Entry)) = f.news := by
  obtain ⟨cp, hg⟩ := f.group
  rw [hg.ops, List.map_map]
  refine (List.map_congr_left fun e he => ?_).trans (List.map_id _)
  obtain ⟨op, status⟩ := e
  have hs : status = .waiting := f.waiting _ he
  subst hs
  rfl

/-- The window that observes the log of the cycle. -/
theorem step_eq (h : Normal m w) (u : Updates) :
    w.step (s.log env n m u) = f.window u := by
  have hphase : (s.log env n m u).phaseBefore = .normal := h.phase
  have hfb : (s.log env n m u).fb.flushing = false := f.flushing
  have htake : (w.flight.map (Entry.advance s.ex.ports)).take s.cm.retired.length = f.ret := by
    rw [f.flight_advance, f.commit.retired, length_retiredItems, List.take_left' rfl]
  unfold Window.step
  simp only [hphase, hfb, if_true]
  rw [if_neg (by simp)]
  simp only [Window.retireN, Stages.log, Machine.csrAt_value, window]
  have hw : (Window.advance s.ex.ports { w with writes := w.writes ++ u.writes }).flight =
      f.ret ++ f.rest.map (Entry.advance s.ex.ports) := f.flight_advance
  rw [f.renamed_eq, show (Window.advance s.ex.ports { w with writes := w.writes ++ u.writes }).flight.take
    s.cm.retired.length = f.ret from htake, Window.flight_retireAll hw]

section Fields

variable (u : Updates)

@[simp] theorem window_flight :
    (f.window u).flight = f.rest.map (Entry.advance s.ex.ports) ++ f.news := rfl

@[simp] theorem window_cmap : (f.window u).cmap = mapAt w.cmap f.ret :=
  Window.cmap_retireAll

@[simp] theorem window_regs : (f.window u).arch.regs = regsAfter w.arch.regs f.ret :=
  Window.regs_retireAll

end Fields

/-! ## Instructions in flight

Each part of the relation, for the window after the cycle: results arrive, the group retires, rename appends. -/

/-- The reorder buffer after rename, before anything retires. -/
theorem robOk : RobOk s.rn.rob.fifo w.cmap (w.flight ++ f.news) := by
  obtain ⟨cp, hg⟩ := f.group
  exact hg.rob

/-- The results of the cycle are not for the instructions renamed in it. -/
theorem news_advance (h : Normal m w) :
    f.news.map (Entry.advance s.ex.ports) = f.news := by
  refine (List.map_congr_left fun e he => ?_).trans (List.map_id _)
  obtain ⟨x, hx, hid, -⟩ | ⟨-, hs⟩ := (f.executedOk h).advance_cases (f.waiting e he)
  · obtain ⟨pre, y, post, v1, v2, hf, -, -, hp, -⟩ := (f.executedOk h).entry hx
    have hy : y ∈ w.flight := by rw [hf]; simp
    rw [hp, packOf_robId] at hid
    have hnd := f.robOk.nodup
    rw [List.map_append, List.nodup_append] at hnd
    exact absurd hid (hnd.2.2 _ (List.mem_map_of_mem hy) _ (List.mem_map_of_mem he))
  · obtain ⟨op, status⟩ := e
    have hs' : status = .waiting := f.waiting _ he
    rw [hs'] at hs ⊢
    exact congrArg (Entry.mk op) hs

/-- No result of the cycle is one of a new instruction. -/
theorem rest_news_advance (h : Normal m w) :
    (f.rest ++ f.news).map (Entry.advance s.ex.ports) =
      f.rest.map (Entry.advance s.ex.ports) ++ f.news := by
  rw [List.map_append, f.news_advance h]

/-- The reorder buffer after the requests of the cycle. -/
theorem rob_normal (h : Normal m w) :
    RobOk (s.rn.rob.fifo.sync s.cm.robRequests) (mapAt w.cmap f.ret)
      (f.rest.map (Entry.advance s.ex.ports) ++ f.news) := by
  have hrob := f.robOk
  rw [f.flight, List.append_assoc] at hrob
  have hpop := hrob.sync_pop
  rw [f.commit.robRequests, if_pos f.flows, Fifo.sync_append, ← f.rest_news_advance h]
  refine hpop.sync_finish (fun r => ?_) (fun e he r hr => ?_) fun e he hs => ?_
  · rw [h.port.written, f.flight, f.retired.exists_status (fun r => by simp)]
    constructor
    · rintro ⟨e, he, hs⟩
      exact ⟨e, List.mem_append_left _ he, hs⟩
    · rintro ⟨e, he, hs⟩
      obtain he | he := List.mem_append.mp he
      · exact ⟨e, he, hs⟩
      · rw [f.waiting e he] at hs
        cases hs
  · obtain he | he := List.mem_append.mp he
    · obtain ⟨pre, hok⟩ := h.entry (f.mem_rest he)
      exact (hok.resultOf hr).robId
    · rw [Entry.result, f.waiting e he] at hr
      cases hr
  · obtain he | he := List.mem_append.mp he
    · -- both buffers hold the entry as it was before the cycle
      obtain ⟨pre, post, hrest⟩ := List.append_of_mem he
      rw [h.rob.item (f.ret ++ pre) e post (by rw [f.flight, hrest, List.append_assoc]),
        hpop.item pre e (post ++ f.news) (by rw [hrest, List.append_assoc, List.cons_append]),
        mapAt_append]
    · obtain ⟨r, hs⟩ := hs
      rw [f.waiting e he] at hs
      cases hs

/-- The entries stay what the operands say. -/
theorem flight_normal (h : Normal m w) :
    FlightOk (mapAt w.cmap f.ret) (regsAfter w.arch.regs f.ret)
      (f.rest.map (Entry.advance s.ex.ports) ++ f.news) := by
  have hadv := (f.executedOk h).flightOk h.flight
  refine FlightOk.retire f.retired fun pre e post hf => ?_
  rw [← List.append_assoc, ← f.flight_advance] at hf
  obtain ⟨post', hf', -⟩ | ⟨pre', rfl, hf'⟩ := split_append hf
  · exact hadv pre e post' hf'
  · -- a renamed instruction has no result yet, and its sources do not look at the results
    obtain ⟨cp, hg⟩ := f.group
    have hok := hg.entry pre' e post hf'
    have hmap : mapAt w.cmap (w.flight.map (Entry.advance s.ex.ports) ++ pre') =
        mapAt w.cmap (w.flight ++ pre') := by
      rw [mapAt_append, mapAt_append, mapAt_advance]
    refine ⟨hok.pack, fun hv hn => ?_, fun hv hn => ?_, fun r hr => ?_⟩
    · rw [hmap]
      exact hok.source1 hv hn
    · rw [hmap]
      exact hok.source2 hv hn
    · have he : e ∈ f.news := by rw [hf']; simp
      rw [Entry.result, f.waiting e he] at hr
      cases hr

/-- The ports carry the results that arrived one and two cycles ago. -/
theorem port_normal (h : Normal m w) :
    PortOk s.ex.ports (Wb.run m.executeWbPorts s.cm.fb).1
      (f.rest.map (Entry.advance s.ex.ports) ++ f.news) := by
  have hadv := h.port.advance (f.executedOk h)
  rw [f.flight_advance] at hadv
  have hret := hadv.retire f.retired
  have hwb : (Wb.run m.executeWbPorts s.cm.fb).1 = m.executeWbPorts := by simp [Wb.run, f.flushing]
  rw [hwb]
  have hnews {st : Status} (hst : st ≠ .waiting) :
      (∃ e ∈ f.rest.map (Entry.advance s.ex.ports) ++ f.news, e.status = st) ↔
        ∃ e ∈ f.rest.map (Entry.advance s.ex.ports), e.status = st := by
    constructor
    · rintro ⟨e, he, hs⟩
      obtain he | he := List.mem_append.mp he
      · exact ⟨e, he, hs⟩
      · exact absurd (hs.symm.trans (f.waiting e he)) hst
    · rintro ⟨e, he, hs⟩
      exact ⟨e, List.mem_append_left _ he, hs⟩
  exact ⟨fun r => (hret.executed r).trans (hnews (by simp)).symm,
    fun r => (hret.written r).trans (hnews (by simp)).symm⟩

/-- What a stage reads from the register file or the forwarding channels is right. -/
theorem readHyp (h : Normal m w) :
    ReadHyp m.regfile (channels s.ex.ports m.executeWbPorts) w.cmap w.arch.regs w.flight s.ex.ports :=
  h.readHyp f.execute

theorem news_enable : ∀ o ∈ f.news.map (·.op), o.enable = true := by
  intro o ho
  obtain ⟨e, he, rfl⟩ := List.mem_map.mp ho
  obtain ⟨cp, hg⟩ := f.group
  exact (hg.pack e he).enable

/-- The renamed operations that readreg has not seen. -/
theorem port_filter : s.rn.port.filter (·.enable) =
    (if s.is.stall then m.renameReadregPort.filter (·.enable) else []) ++ f.news.map (·.op) := by
  rw [f.rename.port]
  cases hst : s.is.stall with
  | true => simp [f.rename.stall hst]
  | false =>
    have hnews := List.filter_eq_self.mpr f.news_enable
    have hrest : (List.replicate (renameWidth - (f.news.map (·.op)).length)
        (default : RenameReadregOp)).filter (·.enable) = [] := by
      rw [List.filter_eq_nil_iff]
      intro o ho
      rw [List.eq_of_mem_replicate ho]
      exact Bool.false_ne_true
    simp only [Bool.false_eq_true, if_false, Rename.slots, List.filter_append, hnews, hrest,
      List.append_nil, List.nil_append]

/-- After the units, the queue and readreg have moved on. -/
theorem loc_moved (h : Normal m w) :
    LocOk w.arch.regs (w.flight.map (Entry.advance s.ex.ports)) (unitPacks s.is.fifos s.ex.hold)
      (s.ex.hold.toList ++ (s.is.fifos .lsu 0).toList)
      (s.is.state.issueQ.toList ++ untaken s.readreg s.is.state)
      (if s.is.stall then m.renameReadregPort.filter (·.enable) else []) := by
  have hadv := h.loc.advance h.nodup f.execute.perm (fun x hx => (f.execute.result x hx).unitResult)
    f.execute.ports f.execute.lsu fun p hp => by
      rw [unitPacks, List.mem_append]
      obtain hp | hp := List.mem_append.mp hp
      · exact .inl hp
      · exact .inr (List.mem_flatMap.mpr ⟨(.lsu, 0), by decide, hp⟩)
  exact h.loc_flow (f.readHyp h) f.issue h.nodup hadv f.readregStall f.readreg

/-- Ids stay different. -/
theorem nodup_advance (h : Normal m w) :
    ((f.ret ++ f.rest.map (Entry.advance s.ex.ports)).map (·.op.robId)).Nodup := by
  rw [← f.flight_advance, List.map_map]
  exact h.nodup

/-- Every waiting instruction is in exactly one place. -/
theorem loc_normal (h : Normal m w) :
    LocOk (regsAfter w.arch.regs f.ret) (f.rest.map (Entry.advance s.ex.ports) ++ f.news)
      (unitPacks s.is.fifos s.ex.hold) (s.ex.hold.toList ++ (s.is.fifos .lsu 0).toList)
      (s.is.state.issueQ.toList ++ untaken s.readreg s.is.state) (s.rn.port.filter (·.enable)) := by
  have hloc := f.loc_moved h
  rw [f.flight_advance] at hloc
  rw [f.port_filter]
  exact (hloc.retire f.retired (f.nodup_advance h)).append f.waiting

/-- No queued item has missed a value. -/
theorem awake_normal (h : Normal m w) :
    AwakeOk (regsAfter w.arch.regs f.ret) (f.rest.map (Entry.advance s.ex.ports) ++ f.news)
      s.is.state.issueQ.toList := by
  have hawake := h.awake_flow (f.readHyp h) f.issue h.nodup
  have hloc := f.loc_moved h
  rw [f.flight_advance] at hawake hloc
  have hret := hawake.retire f.retired (f.nodup_advance h) fun i hi => by
    refine hloc.conserved.mem_iff.mpr ?_
    simp only [List.map_append, List.mem_append]
    exact .inr (.inl (.inl (List.mem_map_of_mem hi)))
  intro i hi
  obtain ⟨pre, e, post, hf, hop, ha⟩ := hret i hi
  exact ⟨pre, e, post ++ f.news, by rw [hf, List.append_assoc, List.cons_append], hop, ha⟩

/-- The packs that decode and fetch hand on are well formed. -/
theorem front_normal (h : Normal m w) :
    (∀ x ∈ s.dc.1.2.1.toList, PackOk x) ∧ ∀ p ∈ s.ft.fifo.toList, FetchOk p := by
  have hdr := f.rename.packs
  have hfd := f.decode.taken
  rw [Fifo.toList_resetPopStatus] at hdr hfd
  constructor
  · intro x hx
    rw [f.decode.sent, List.mem_append] at hx
    obtain hx | hx := hx
    · exact h.front.1 x (by rw [hdr]; exact List.mem_append_right _ hx)
    · obtain ⟨p, hp, rfl⟩ := List.mem_map.mp hx
      exact ⟨p, h.front.2 p (by rw [hfd]; exact List.mem_append_left _ hp), rfl⟩
  · intro p hp
    rw [f.fetch.list, List.mem_append] at hp
    obtain hp | hp := hp
    · exact h.front.2 p (by rw [hfd]; exact List.mem_append_right _ hp)
    · exact f.fetch.fetched p hp

/-- The packs before rename, with those fetched in the cycle. -/
theorem front_eq :
    frontPacks m ++ f.fetched.map Decode.decodePack =
      f.news.map (·.op.toDecodeRenamePack) ++ (s.dc.1.2.1.toList ++
        s.ft.fifo.toList.map Decode.decodePack) := by
  have hdr := f.rename.packs
  have hfd := f.decode.taken
  rw [Fifo.toList_resetPopStatus] at hdr hfd
  rw [frontPacks, hdr, hfd, f.decode.sent, f.fetch.list]
  simp only [List.map_append, List.append_assoc]

/-- The checkpoints of the jumps in flight. -/
theorem cp_normal (h : Normal m w) :
    CpOk (s.ft.checkpointBuffer.sync (s.cm.cpRequests ++ s.rn.cpRequests)) (mapAt w.cmap f.ret)
      (f.rest.map (Entry.advance s.ex.ports) ++ f.news)
      (s.dc.1.2.1.toList ++ s.ft.fifo.toList.map Decode.decodePack) := by
  obtain ⟨cp, hg⟩ := f.group
  obtain ⟨cps, hcpr, hcps, hcp⟩ := hg.cps
  obtain ⟨xs, hgrown⟩ := f.fetch.cps
  have hcpb : s.cm.checkpointBuffer = m.checkpointBuffer := by
    rw [f.commit.cpb, if_neg (Stop.flows_ne f.flows).1]
  have hids := f.fetch.ids
  dsimp only at hgrown hids
  rw [hcpb] at hgrown hids
  rw [← cpIds_decode] at hids
  have hfl := h.flight
  have hcpOk := h.cp
  rw [f.flight] at hfl hcpOk
  have hlen := f.commit.cpIds_retired hfl (Stop.flows_ne f.flows).1
  have hflow : CpOk (s.ft.checkpointBuffer.sync ((if decide (f.stop = .hit) then [.pop] else []) ++
      cps.map fun x => .setItem x.1 x.2)) (mapAt w.cmap f.ret) (f.rest ++ f.news)
      (s.dc.1.2.1.toList ++ s.ft.fifo.toList.map Decode.decodePack) :=
    hcpOk.flow hgrown hids (by simpa using hlen) f.front_eq hcps (by rw [← f.flight]; exact hcp)
  rw [← f.rest_news_advance h, f.commit.cpRequests, hcpr]
  simpa using hflow.advance s.ex.ports

/-- The path after the cycle, in the order of the program. -/
theorem path_packs :
    (f.rest.map (Entry.advance s.ex.ports) ++ f.news).map (·.op.toDecodeRenamePack) ++
        (s.dc.1.2.1.toList ++ s.ft.fifo.toList.map Decode.decodePack) =
      f.rest.map (·.op.toDecodeRenamePack) ++ frontPacks m ++ f.fetched.map Decode.decodePack := by
  rw [List.append_assoc, f.front_eq, List.map_append, List.map_map, List.append_assoc]
  rfl

/-- The target of a retired `mret` was read from the CSR file that commit sees. -/
theorem mret_retired (h : Normal m w) :
    ∀ e ∈ f.ret, e.op.op = .mret → ∀ r, e.result = some r → r.bruNextPc = m.csrFile.value csrMepc :=
  fun e he => h.serial.mret e (by rw [f.flight]; exact List.mem_append_left _ he)

/-- Fetch is still on the path that the instructions in flight predict. -/
theorem path_normal (h : Normal m w) (u : Updates) :
    PathOk (f.window u).arch.pc ((f.window u).flight.map (·.op.toDecodeRenamePack) ++
      (s.dc.1.2.1.toList ++ s.ft.fifo.toList.map Decode.decodePack)) s.ft.state := by
  rw [window_flight, f.path_packs]
  obtain ⟨w₁, hw₁⟩ : ∃ w₁, w₁ = { w with writes := w.writes ++ u.writes }.advance s.ex.ports := ⟨_, rfl⟩
  have hpc : (f.window u).arch.pc = (w₁.retireAll (m.csrFile.value csrMepc) f.ret).arch.pc := by
    rw [hw₁]
    rfl
  have hregs : w₁.arch.regs = w.arch.regs := by rw [hw₁]; rfl
  have hpath : PathOk w₁.arch.pc (f.ret.map (·.op.toDecodeRenamePack) ++
      (f.rest.map (·.op.toDecodeRenamePack) ++ frontPacks m)) m.fetch := by
    have := h.path
    rw [f.flight, List.map_append, List.append_assoc] at this
    rw [hw₁]
    exact this
  have hfl := h.flight
  rw [f.flight] at hfl
  rw [hpc]
  by_cases hst : f.stop = .jump
  · -- fetch has waited for the jump that ends the group
    obtain ⟨pre, e, hret, hfol, hbru, hpred, hen, hnext, hfall⟩ :=
      f.commit.reported hfl (.inl hst) (f.mret_retired h)
    have hwaits : waitsFor e.op.toDecodeRenamePack = true := by
      have he : e ∈ w.flight := by rw [f.flight, hret]; simp
      obtain ⟨pre', hok⟩ := h.entry he
      simp [waitsFor, hok.pack.bru_iff.mp hbru, hpred, hst]
    rw [hret, List.map_append, List.append_assoc, List.map_singleton, List.singleton_append] at hpath
    rw [← hregs] at hfol
    obtain ⟨-, hlast⟩ := hpath.retire hfol
    rw [if_pos hwaits] at hlast
    obtain ⟨hnil, hjw, hfpc⟩ := hlast
    obtain ⟨hfetched, hjw', hpc'⟩ := f.fetch.wait hjw
    rw [hnil, hfetched, hret]
    refine ⟨?_, by rw [hjw', hen]; rfl⟩
    rw [hpc', hen]
    have hgoal : (w₁.retireAll (m.csrFile.value csrMepc) (pre ++ [e])).arch.pc = s.cm.fb.nextPc := by
      rw [hnext, Window.retireAll, List.foldl_append]
      show archNext (w₁.retireAll _ pre).arch.regs _ e.op = _
      rw [Window.regs_retireAll, hregs]
    rw [hgoal]
    cases hj : s.cm.fb.jump with
    | true => rfl
    | false => exact hfpc.trans (hfall hj).symm
  · have hmiss := (Stop.flows_ne f.flows).1
    have hfol := f.commit.followed hfl hst hmiss (f.mret_retired h)
    rw [← hregs] at hfol
    have hrest := hpath.retire hfol
    -- fetch goes on, or still waits for a jump that has not retired
    cases hjw : m.fetch.jumpWait with
    | false => exact hrest.append hjw (f.fetch.go hjw)
    | true =>
      obtain ⟨hfetched, hjw', hpc'⟩ := f.fetch.wait hjw
      rw [f.commit.noJump hst hmiss] at hjw' hpc'
      rw [hfetched, List.map_nil, List.append_nil]
      exact hrest.congr hpc' (hjw'.trans hjw.symm)

/-- The store buffer holds the stores that have executed and are not written. -/
theorem store_normal (hu : f.Updated u) :
    StoreOk (u.storeBuffer.sync (if u.dropped then [] else s.ex.pushes)) u.bus.memory (f.window u) := by
  have hst := hu.store
  have hnil : storesOf f.news = [] := by
    rw [storesOf, List.filterMap_eq_nil_iff]
    intro e he
    exact Entry.storeItem_of_waiting (Entry.isWaiting_iff.mpr (f.waiting e he))
  have hfl : (({ w with writes := w.writes ++ u.writes }.advance s.ex.ports).retireAll
      (m.csrFile.value csrMepc) f.ret).flight = f.rest.map (Entry.advance s.ex.ports) :=
    Window.flight_retireAll f.flight_advance
  obtain ⟨com, hlist, hcom⟩ := hst.items
  have hloads := hst.loads
  rw [hfl] at hlist hloads
  rw [hu.dropped, if_neg Bool.false_ne_true]
  refine ⟨hst.wf, hst.save, ⟨com, ?_, hcom.committed, hcom.aligned, hcom.memory, hcom.writes⟩, ?_⟩
  · rw [window_flight, storesOf_append, hnil, List.append_nil]
    exact hlist
  · intro pre e post hf hload r hr hx
    rw [window_flight] at hf
    obtain ⟨post', hf', -⟩ | ⟨pre', rfl, hf'⟩ := split_append hf
    · exact hloads pre e post' hf' hload r hr hx
    · have he : e ∈ f.news := by rw [hf']; simp
      rw [Entry.result, f.waiting e he] at hr
      cases hr

/-! ## Serial instructions

CSR instructions and `mret` read the CSR file when they are the oldest, so what they read is current. -/

/-- A serial item that is sent is the oldest instruction that does not retire. -/
theorem serial_sent (h : Normal m w) {pre post : List Entry} {e : Entry}
    (hrest : f.rest = pre ++ e :: post) (hser : (e.op.opUnit == .csr || e.op.op == .mret) = true)
    (hsel : e.op.robId ∈ f.sel.map (·.robId)) : pre = [] := by
  obtain ⟨i, hi, hid⟩ := List.mem_map.mp hsel
  have hq : i ∈ queuedItems m :=
    List.mem_append_left _ (f.issue.split.mem_iff.mpr (List.mem_append_left _ hi))
  obtain ⟨pre', x, post', hf, hop, -⟩ := h.loc.item i hq
  have hx : x ∈ w.flight := by rw [hf]; simp
  have he : e ∈ w.flight := f.mem_rest (by rw [hrest]; simp)
  obtain rfl : x = e := h.rob.eq_of_robId_eq hx he ((congrArg (·.robId) hop).trans hid)
  have hnext := f.issue.serial i hi (by
    rw [hop] at hser
    exact hser)
  obtain _ | ⟨y, pre⟩ := pre
  · rfl
  · -- otherwise it would have the id of an older instruction
    rw [f.commit.next f.flows y (pre ++ x :: post) hrest, hid] at hnext
    have hy : y ∈ w.flight := f.mem_rest (by rw [hrest]; simp)
    obtain rfl := h.rob.eq_of_robId_eq hy hx hnext
    have hnd := h.nodup
    rw [f.flight, hrest, List.map_append, List.nodup_append] at hnd
    simp at hnd

/-- The unit FIFOs hold what was left and what issue sent. -/
theorem packs_perm : (unitPacks s.is.fifos s.ex.hold).Perm
    (unitPacks s.ex.fifos s.ex.hold ++
      f.sel.map (Issue.packFor (channels s.ex.ports m.executeWbPorts))) :=
  f.issue.sent.perm s.ex.hold

/-- The ids of the packs after the cycle. -/
theorem mem_packs_ids {id : Nat} :
    id ∈ (unitPacks s.is.fifos s.ex.hold).map (·.robId) ↔
      id ∈ (unitPacks s.ex.fifos s.ex.hold).map (·.robId) ∨ id ∈ f.sel.map (·.robId) := by
  rw [(f.packs_perm.map (·.robId)).mem_iff, List.map_append, List.mem_append, List.map_map]
  simp only [Function.comp_def, Issue.packFor_robId]

/-- A renamed instruction is not sent in the same cycle. -/
theorem news_unsent (h : Normal m w) {e : Entry} (he : e ∈ f.news) :
    e.isWaiting = true ∧ e.op.robId ∉ (unitPacks s.is.fifos s.ex.hold).map (·.robId) := by
  refine ⟨Entry.isWaiting_iff.mpr (f.waiting e he), fun hmem => ?_⟩
  have hin := (f.loc_moved h).conserved.mem_iff.mpr (List.mem_append_left _ hmem)
  obtain ⟨x, hx, -, hid⟩ := mem_map_filter.mp hin
  obtain ⟨y, hy, rfl⟩ := List.mem_map.mp hx
  have hnd := f.robOk.nodup
  rw [List.map_append, List.nodup_append] at hnd
  exact hnd.2.2 _ (List.mem_map_of_mem hy) _ (List.mem_map_of_mem he) hid

/-- Serial instructions at the results of the cycle. -/
theorem serial_advance (h : Normal m w) :
    SerialOk m.csrFile.value (f.ret ++ f.rest.map (Entry.advance s.ex.ports))
      (unitPacks s.ex.fifos s.ex.hold) := by
  rw [← f.flight_advance]
  have hser : SerialOk (m.csrAt env n).value w.flight (unitPacks m.unitFifos m.lsuHold) := h.serial
  exact hser.advance h.flight (f.executedOk h) f.execute.perm f.execute.result

/-- And after the CSR requests of the group. -/
theorem serial_normal (h : Normal m w) (hu : s.Synced env n m u) :
    SerialOk u.counted.value (f.rest.map (Entry.advance s.ex.ports) ++ f.news)
      (unitPacks s.is.fifos s.ex.hold) := by
  have hadv := f.serial_advance h
  -- while a serial instruction has a result, it is the oldest, so nothing retires
  have hkept {e : Entry} (he : e ∈ f.rest.map (Entry.advance s.ex.ports)) {r : ExecuteWbPack}
      (hr : e.result = some r) (hser : (e.op.opUnit == .csr || e.op.op == .mret) = true) {a : Nat}
      (ha : StableCsr a) : m.csrFile.value a = u.counted.value a := by
    obtain ⟨pre, post, hf⟩ := List.append_of_mem he
    have hdone : e.isWaiting = false := by rw [Entry.isWaiting_eq_result, hr]; rfl
    rw [hu.value ha.1 ha.2.1, f.commit.csrRequests, (hadv.retire hf hser (.inl hdone)).2]
    rfl
  have hnone {e : Entry} (he : e ∈ f.news) (r : ExecuteWbPack) : e.result ≠ some r := by
    rw [Entry.result, f.waiting e he]
    exact fun hr => by cases hr
  constructor
  · intro pre e post hf hser hsent
    obtain ⟨post', hf', -⟩ | ⟨pre', rfl, hf'⟩ := split_append hf
    · obtain hw | hp := hsent
      · exact (hadv.retire hf' hser (.inl hw)).1
      · obtain hp | hp := f.mem_packs_ids.mp hp
        · exact (hadv.retire hf' hser (.inr hp)).1
        · obtain ⟨pre₀, e₀, post₀, hrest, rfl, rfl, -⟩ := split_advance hf'
          rw [f.serial_sent h hrest hser hp]
          rfl
    · have he : e ∈ f.news := by rw [hf']; simp
      obtain ⟨hw, hp⟩ := f.news_unsent h he
      obtain hs | hs := hsent
      · rw [hw] at hs
        cases hs
      · exact absurd hs hp
  · intro e he hop r hr
    obtain he | he := List.mem_append.mp he
    · rw [hadv.mret e (List.mem_append_right _ he) hop r hr]
      exact hkept he hr (by simp [hop]) (by decide)
    · exact absurd hr (hnone he r)
  · intro e he hop r hr
    obtain he | he := List.mem_append.mp he
    · obtain ⟨file, hfile, hres⟩ := hadv.csr e (List.mem_append_right _ he) hop r hr
      exact ⟨file, fun a ha => (hfile a ha).trans (hkept he hr (by simp [hop]) ha), hres⟩
    · exact absurd hr (hnone he r)

/-- Queues keep their form. -/
theorem shape_normal (u : Updates) : Shape (s.machine env n m u) where
  fetchDecode := f.fetch.fifo.wf
  fetchDecodeSave := f.fetch.fifo.save
  decodeRename := f.decode.decodeRename.wf
  decodeRenameSave := f.decode.decodeRename.save
  queue := f.issue.wf
  queueSave := f.issue.save
  unit := f.issue.sent.units.wf
  unitSave := f.issue.sent.units.save
  unitSize := f.issue.sent.units.size
  unitOp := f.issue.sent.units.op
  unitIndex := f.issue.index
  holdOp := f.execute.holdOp
  ports := f.execute.length

/-- Without a flush commit stays in the normal state. -/
theorem phase_normal : s.cm.state.curState = .normal := by
  rw [f.commit.phase]
  have hflows := f.flows
  cases hst : f.stop <;> simp_all [Stop.flows]

/-- A cycle without a flush keeps the relation. -/
theorem normal (h : Normal m w) (hu : s.Synced env n m u) :
    Normal (s.machine env n m u) (w.step (s.log env n m u)) := by
  have hup := f.updated h hu
  rw [f.step_eq h u]
  -- one component of the invariant at a time
  constructor
  case phase => exact f.phase_normal
  case shape => exact f.shape_normal u
  case rob =>
    rw [window_cmap, window_flight]
    exact f.rob_normal h
  case rat =>
    rw [window_cmap, window_flight, renamings_append, renamings_advance, ← renamings_append]
    exact hup.rat
  case reg =>
    rw [window_cmap, window_flight, window_regs]
    exact hup.reg
  case flight =>
    rw [window_cmap, window_flight, window_regs]
    exact f.flight_normal h
  case loc =>
    rw [window_flight, window_regs]
    exact f.loc_normal h
  case awake =>
    rw [window_flight, window_regs]
    exact f.awake_normal h
  case port =>
    rw [window_flight]
    exact f.port_normal h
  case serial =>
    rw [window_flight]
    exact f.serial_normal h hu
  case store => exact f.store_normal hup
  case front => exact f.front_normal h
  case path => exact f.path_normal h u
  case cp =>
    rw [window_cmap, window_flight]
    exact f.cp_normal h
  case first =>
    intro hfirst
    rw [show (s.machine env n m u).fetch = s.ft.state from rfl, f.fetch.first] at hfirst
    cases hfirst

end FlowStages

end MyRiscvCore
