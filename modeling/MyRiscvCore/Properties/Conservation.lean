import MyRiscvCore.Refine.Progress
import MyRiscvCore.Properties.Renaming

/-!
# MyRiscvCore — no instruction is lost or duplicated

Between rename and the end of its execution, an instruction is in one of the ports, the issue queue, a unit
FIFO or the hold register of the LSU. `conservation` says that these places together hold the unfinished
entries of the reorder buffer, each once, and how a cycle moves them on: a unit executes only what it was
handed, and an entry is marked finished when its result arrives at commit, so neither happens twice.
-/

namespace MyRiscvCore

variable {e : Entry} {q : Fifo RobItem} {C : Nat → Nat} {flight : List Entry}

/-- What names an instruction in every place: its ROB id, its pc and its word. -/
def RenameReadregOp.instr (o : RenameReadregOp) : Nat × Word × Word := (o.robId, o.pc, o.value)

/-- The instructions in the hands of the units: the LSU hold register and the unit FIFOs. -/
def unitInstrs (m : Machine) : List (Nat × Word × Word) :=
  (unitPacks m.unitFifos m.lsuHold).map (·.instr)

/-- The results on a port. -/
def portInstrs (port : List ExecuteWbPack) : List (Nat × Word × Word) :=
  (port.filter (·.enable)).map (·.instr)

/-- What the places between rename and commit hold. -/
def held (m : Machine) : List (Nat × Word × Word) :=
  (m.renameReadregPort.filter (·.enable)).map (·.instr) ++
    (untaken m.readregIssuePort m.issue).map (·.instr) ++ m.issue.issueQ.toList.map (·.instr) ++
    unitInstrs m ++ portInstrs m.executeWbPorts ++ portInstrs m.wbCommitPort

/-- The instruction of a ROB entry. -/
def robInstr (q : Fifo RobItem) (id : Nat) : Nat × Word × Word :=
  (id, (q.buffer id).pc, (q.buffer id).instValue)

/-- The ROB entries that are not finished. -/
def unfinished (q : Fifo RobItem) : List (Nat × Word × Word) :=
  (q.ids.filter fun id => !(q.buffer id).finish).map (robInstr q)

/-- Each unfinished entry is in exactly one place, and the places hold nothing else; they are empty while a
trap walks the reorder buffer back. -/
structure Conserved (m : Machine) : Prop where
  ids : m.rob.fifo.ids.Nodup
  normal : m.commit.curState = .normal → (held m).Perm (unfinished m.rob.fifo)
  walk : m.commit.curState ≠ .normal → held m = []

/-- How a cycle moves the instructions: a flush empties the places; otherwise the units put out results of
what they were handed, these go on to commit, and an entry that stays gets finished by a result that is at
commit and by nothing else. -/
structure Moved (m m' : Machine) (flushing : Bool) : Prop where
  flush : flushing = true → held m' = []
  executed : flushing = false → (portInstrs m'.executeWbPorts).Subperm (unitInstrs m)
  written : flushing = false → portInstrs m'.wbCommitPort = portInstrs m.executeWbPorts
  finished : flushing = false → ∀ id ∈ m.rob.fifo.ids, id ∈ m'.rob.fifo.ids →
    ((m'.rob.fifo.buffer id).finish = true ↔
      (m.rob.fifo.buffer id).finish = true ∨ robInstr m.rob.fifo id ∈ portInstrs m.wbCommitPort)

/-- No instruction has two results on a port. -/
structure PortsOnce (m : Machine) : Prop where
  executed : ((m.executeWbPorts.filter (·.enable)).map (·.robId)).Nodup
  written : ((m.wbCommitPort.filter (·.enable)).map (·.robId)).Nodup

section Conservation

variable {env : Env} {n : Nat} {m : Machine} {w : Window} {logs : List CycleLog} {s : Stages} {u : Updates}

theorem PortsOnce.idle (hexecuted : ∀ r ∈ m.executeWbPorts, r.enable = false)
    (hwritten : ∀ r ∈ m.wbCommitPort, r.enable = false) : PortsOnce m := by
  have hnil {port : List ExecuteWbPack} (h : ∀ r ∈ port, r.enable = false) : port.filter (·.enable) = [] :=
    List.filter_eq_nil_iff.mpr fun r hr => by simp [h r hr]
  constructor
  · rw [hnil hexecuted]; exact List.nodup_nil
  · rw [hnil hwritten]; exact List.nodup_nil

/-- The results of a cycle, by the packs they are of. -/
theorem FlowStages.results_instr (f : FlowStages env n m w s) :
    (s.ex.ports.filter (·.enable)).map (·.instr) = (f.done.map Prod.fst).map (·.instr) := by
  rw [f.execute.enabled, List.map_map, List.map_map]
  refine List.map_congr_left fun x hx => ?_
  have hop := (f.execute.result x hx).unitResult.sameOp
  simp only [Function.comp, RenameReadregOp.instr, hop.robId, hop.info]

/-- A result is on one port. -/
theorem FlowStages.portsOnce (f : FlowStages env n m w s) (h : Normal m w) (hp : PortsOnce m) (u : Updates) :
    PortsOnce (s.machine env n m u) where
  executed := by
    have hids : (s.ex.ports.filter (·.enable)).map (·.robId) = (f.done.map Prod.fst).map (·.robId) := by
      have hfst := congrArg (List.map Prod.fst) f.results_instr
      rw [List.map_map, List.map_map] at hfst
      exact hfst
    have hunits := (List.nodup_append.mp h.places_nodup).1
    rw [(f.execute.perm.map (·.robId)).nodup_iff, List.map_append, ← hids] at hunits
    exact (List.nodup_append.mp hunits).1
  written := by
    show (((Wb.run m.executeWbPorts s.cm.fb).1.filter (·.enable)).map (·.robId)).Nodup
    simpa [Wb.run, f.flushing] using hp.executed

theorem CycleCase.portsOnce (h : CycleCase env n m w s) (hp : PortsOnce m) :
    PortsOnce (s.machine env n m u) := by
  have hidle (hst : FlushStages env n m s) : PortsOnce (s.machine env n m u) :=
    .idle (hst.idle u).2.2.1 (hst.idle u).2.2.2
  cases h with
  | flow h f => exact f.portsOnce h hp u
  | flush _ g => exact hidle g.stages
  | walk v _ => exact hidle v.stages

/-- In every state of a run. -/
theorem run_portsOnce (h : run env n = .ok (m, logs)) : PortsOnce m := by
  refine (run_induction (P := fun _ m _ => PortsOnce m) (fun m hm _ => ?_)
    (fun n m logs s u _ hP hcase _ => hcase.portsOnce hP) h).2
  obtain ⟨rat, -, hm⟩ := bind_eq_ok.mp hm
  obtain ⟨regfile, -, hm⟩ := bind_eq_ok.mp hm
  cases hm
  exact ⟨List.nodup_nil, List.nodup_nil⟩

/-- The instruction is finished. -/
def Entry.isFinished (e : Entry) : Bool :=
  match e.status with
  | .finished _ => true
  | _ => false

theorem Entry.isFinished_iff : e.isFinished = true ↔ ∃ r, e.status = .finished r := by
  unfold isFinished
  cases e.status <;> simp

/-- Its result is on a write-back port, or on the port to commit. -/
def Entry.isExecuted (e : Entry) : Bool :=
  match e.status with
  | .executed _ => true
  | _ => false
def Entry.isWritten (e : Entry) : Bool :=
  match e.status with
  | .written _ => true
  | _ => false

/-- The unfinished instructions, by how far they have come. -/
theorem filter_unfinished_perm (es : List Entry) : (es.filter fun e => !e.isFinished).Perm
    (es.filter (·.isWaiting) ++ es.filter Entry.isExecuted ++ es.filter Entry.isWritten) := by
  induction es with
  | nil => exact .refl _
  | cons e es ih =>
    simp only [List.filter_cons]
    cases hs : e.status with
    | waiting =>
      have hw : e.isWaiting = true := Entry.isWaiting_iff.mpr hs
      simpa [hw, Entry.isFinished, Entry.isExecuted, Entry.isWritten, hs] using ih
    | executed r =>
      have hw : e.isWaiting = false := by simp [Entry.isWaiting, hs]
      have hmid : (e :: (es.filter (·.isWaiting) ++ es.filter Entry.isExecuted ++ es.filter Entry.isWritten)).Perm
          (es.filter (·.isWaiting) ++ e :: es.filter Entry.isExecuted ++ es.filter Entry.isWritten) :=
        List.perm_middle.symm.append_right _
      simpa [hw, Entry.isFinished, Entry.isExecuted, Entry.isWritten, hs] using (ih.cons e).trans hmid
    | written r =>
      have hw : e.isWaiting = false := by simp [Entry.isWaiting, hs]
      have hmid : (e :: (es.filter (·.isWaiting) ++ es.filter Entry.isExecuted ++ es.filter Entry.isWritten)).Perm
          (es.filter (·.isWaiting) ++ es.filter Entry.isExecuted ++ e :: es.filter Entry.isWritten) :=
        List.perm_middle.symm
      simpa [hw, Entry.isFinished, Entry.isExecuted, Entry.isWritten, hs] using (ih.cons e).trans hmid
    | finished r =>
      have hw : e.isWaiting = false := by simp [Entry.isWaiting, hs]
      simpa [hw, Entry.isFinished, Entry.isExecuted, Entry.isWritten, hs] using ih

/-- A port whose results are those of the instructions at one stage holds these instructions. -/
theorem port_perm {port : List ExecuteWbPack} {es : List Entry} {p : Entry → Bool}
    {status : ExecuteWbPack → Status} (hnodup : ((port.filter (·.enable)).map (·.robId)).Nodup)
    (hids : (es.map (·.op.robId)).Nodup) (hp : ∀ e, p e = true ↔ ∃ r, e.status = status r)
    (hport : ∀ r, (r ∈ port ∧ r.enable = true) ↔ ∃ e ∈ es, e.status = status r)
    (hid : ∀ e ∈ es, ∀ r, e.status = status r → r.robId = e.op.robId) :
    ((port.filter (·.enable)).map (·.robId)).Perm ((es.filter p).map (·.op.robId)) := by
  refine (List.perm_ext_iff_of_nodup hnodup (hids.sublist (List.filter_sublist.map _))).mpr fun id => ?_
  rw [mem_map_filter]
  simp only [List.mem_map, List.mem_filter]
  constructor
  · rintro ⟨r, hr, rfl⟩
    obtain ⟨e, he, hs⟩ := (hport r).mp hr
    exact ⟨e, he, (hp e).mpr ⟨r, hs⟩, (hid e he r hs).symm⟩
  · rintro ⟨e, he, hpe, rfl⟩
    obtain ⟨r, hs⟩ := (hp e).mp hpe
    exact ⟨r, (hport r).mpr ⟨e, he, hs⟩, hid e he r hs⟩

/-- The ids in the places. -/
def heldIds (m : Machine) : List Nat :=
  (m.renameReadregPort.filter (·.enable)).map (·.robId) ++
    (untaken m.readregIssuePort m.issue).map (·.robId) ++ m.issue.issueQ.toList.map (·.robId) ++
    (unitPacks m.unitFifos m.lsuHold).map (·.robId) ++
    (m.executeWbPorts.filter (·.enable)).map (·.robId) ++ (m.wbCommitPort.filter (·.enable)).map (·.robId)

theorem Normal.resultOf (h : Normal m w) (he : e ∈ w.flight) {r : ExecuteWbPack}
    (hr : e.result = some r) : ResultOf e.op r := by
  obtain ⟨pre, hok⟩ := h.entry he
  exact hok.resultOf hr

/-- The places hold the instructions that are not finished, each once. -/
theorem Normal.heldIds_perm (h : Normal m w) (hp : PortsOnce m) :
    (heldIds m).Perm ((w.flight.filter fun e => !e.isFinished).map (·.op.robId)) := by
  have hexecuted := port_perm hp.executed h.nodup (p := Entry.isExecuted)
    (fun e => by unfold Entry.isExecuted; cases e.status <;> simp) h.port.executed
    fun e he r hs => (h.resultOf he (by simp [Entry.result, hs])).robId
  have hwritten := port_perm hp.written h.nodup (p := Entry.isWritten)
    (fun e => by unfold Entry.isWritten; cases e.status <;> simp) h.port.written
    fun e he r hs => (h.resultOf he (by simp [Entry.result, hs])).robId
  refine .trans ?_ ((filter_unfinished_perm w.flight).map (·.op.robId)).symm
  rw [List.map_append, List.map_append]
  refine .append (.append (.trans ?_ h.loc.conserved.symm) hexecuted) hwritten
  rw [List.perm_iff_count]
  intro id
  simp only [queuedItems, List.map_append, List.count_append]
  omega

/-- The ROB entry of an instruction in flight names it. -/
theorem RobOk.robInstr_eq (h : RobOk q C flight)
    (he : e ∈ flight) : robInstr q e.op.robId = e.op.instr := by
  obtain ⟨pre, post, hf⟩ := List.append_of_mem he
  rw [robInstr, h.item pre e post hf, robItemOf_pc, robItemOf_instValue]
  rfl

theorem RobOk.finish_iff (h : RobOk q C flight)
    (he : e ∈ flight) : (q.buffer e.op.robId).finish = true ↔ ∃ r, e.status = .finished r := by
  obtain ⟨pre, post, hf⟩ := List.append_of_mem he
  rw [h.item pre e post hf, finish_robItemOf]

/-- The reorder buffer names the same ones. -/
theorem RobOk.unfinished_eq (h : RobOk q C flight) :
    unfinished q = ((flight.filter fun e => !e.isFinished).map (·.op.robId)).map (robInstr q) := by
  rw [unfinished, h.ids, List.filter_map]
  refine congrArg (fun l : List Entry => (l.map (·.op.robId)).map (robInstr q))
    (List.filter_congr fun e he => ?_)
  show (!(q.buffer e.op.robId).finish) = !e.isFinished
  rw [Bool.eq_iff_iff, Bool.not_eq_true', Bool.not_eq_true', ← Bool.not_eq_true, ← Bool.not_eq_true, h.finish_iff he,
    Entry.isFinished_iff]

/-- What a place holds is what the ROB says of its ids. -/
theorem Normal.held_eq (h : Normal m w) : held m = (heldIds m).map (robInstr m.rob.fifo) := by
  have hrob {e : Entry} (he : e ∈ w.flight) {x : RenameReadregOp} (hid : x.robId = e.op.robId)
      (hinfo : x.toDecodeInfo = e.op.toDecodeInfo) : x.instr = robInstr m.rob.fifo x.robId := by
    rw [hid, h.rob.robInstr_eq he, RenameReadregOp.instr, RenameReadregOp.instr, hid, hinfo]
  have hitem : ∀ i ∈ queuedItems m, i.instr = robInstr m.rob.fifo i.robId := by
    intro i hi
    obtain ⟨pre, e, post, hf, hop, -⟩ := h.loc.item i hi
    exact hrob (e := e) (by simp [hf]) (by rw [hop]) (by rw [hop])
  have hport {status : ExecuteWbPack → Status} {port : List ExecuteWbPack}
      (hport : ∀ r, (r ∈ port ∧ r.enable = true) ↔ ∃ e ∈ w.flight, e.status = status r)
      (hres : ∀ (e : Entry) r, e.status = status r → e.result = some r) :
      ∀ r ∈ port.filter (·.enable), r.instr = robInstr m.rob.fifo r.robId := by
    intro r hr
    obtain ⟨e, he, hs⟩ := (hport r).mp (List.mem_filter.mp hr)
    exact hrob he (h.resultOf he (hres e r hs)).robId (h.resultOf he (hres e r hs)).info
  -- six places, each holding the record of an entry
  unfold held heldIds unitInstrs portInstrs
  simp only [List.map_append, List.map_map]
  refine congrArg₂ _ (congrArg₂ _ (congrArg₂ _ (congrArg₂ _ (congrArg₂ _ ?rename ?untaken) ?queue) ?units)
    ?executed) ?written
  case rename =>
    refine List.map_congr_left fun o ho => ?_
    obtain ⟨e, he, rfl⟩ := h.loc.op o ho
    exact hrob he rfl rfl
  case untaken => exact List.map_congr_left fun i hi => hitem i (List.mem_append_right _ hi)
  case queue => exact List.map_congr_left fun i hi => hitem i (List.mem_append_left _ hi)
  case units =>
    refine List.map_congr_left fun p hp => ?_
    obtain ⟨pre, e, post, v1, v2, hf, -, -, rfl⟩ := h.loc.pack p hp
    exact hrob (e := e) (by simp [hf]) (packOf_robId e.op v1 v2) (packOf_info e.op v1 v2)
  case executed =>
    exact List.map_congr_left (hport h.port.executed fun e r hs => by simp [Entry.result, hs])
  case written =>
    exact List.map_congr_left (hport h.port.written fun e r hs => by simp [Entry.result, hs])

/-- Places that are drained and idle hold nothing. -/
theorem held_eq_nil (hqueue : m.issue.issueQ.toList = []) (hunits : ∀ v i, (m.unitFifos v i).toList = [])
    (hhold : m.lsuHold = none)
    (hidle : (∀ o ∈ m.renameReadregPort, o.enable = false) ∧ (∀ o ∈ m.readregIssuePort, o.enable = false) ∧
      (∀ r ∈ m.executeWbPorts, r.enable = false) ∧ ∀ r ∈ m.wbCommitPort, r.enable = false) : held m = [] := by
  obtain ⟨hrename, hreadreg, hexecuted, hwritten⟩ := hidle
  have hnil {α : Type} {enable : α → Bool} {l : List α} (h : ∀ x ∈ l, enable x = false) : l.filter enable = [] :=
    List.filter_eq_nil_iff.mpr fun x hx => by simp [h x hx]
  have huntaken : untaken m.readregIssuePort m.issue = [] := hnil fun x hx => hreadreg x (List.mem_of_mem_drop hx)
  simp [held, unitInstrs, portInstrs, unitPacks, hnil hrename, huntaken, hqueue, hunits, hhold, hnil hexecuted,
    hnil hwritten]

theorem FlushStages.held_eq (f : FlushStages env n m s) (u : Updates) : held (s.machine env n m u) = [] := by
  obtain ⟨-, -, hqueue, hunits, hhold, -⟩ := f.drained u
  exact held_eq_nil hqueue hunits hhold (f.idle u)

theorem Walk.held_eq {j : Nat} (h : Walk m w j) : held m = [] := by
  obtain ⟨-, -, hqueue, hunits, hhold, -⟩ := h.drained
  exact held_eq_nil hqueue hunits hhold h.ports

/-- Whatever commit is doing. -/
theorem Refines.conserved (h : Refines m w) (hp : PortsOnce m) : Conserved m := by
  obtain h | ⟨j, h⟩ := h
  · refine ⟨h.rob.wf.nodup_ids, fun _ => ?_, fun hne => absurd h.phase hne⟩
    rw [h.held_eq, h.rob.unfinished_eq]
    exact (h.heldIds_perm hp).map _
  · exact ⟨h.rob.wf.nodup_ids, fun hn => absurd hn h.phase, fun _ => h.held_eq⟩

/-- An instruction is finished a cycle after its result has been written. -/
theorem Entry.finished_advance {results : List ExecuteWbPack} :
    (∃ r, (e.advance results).status = .finished r) ↔ (∃ r, e.status = .finished r) ∨ ∃ r, e.status = .written r := by
  unfold Entry.advance
  cases e.status with
  | waiting => cases results.find? fun r => r.enable && r.robId == e.op.robId <;> simp
  | _ => simp

/-- An instruction finishes when its result has reached commit. -/
theorem FlowStages.finished_iff (f : FlowStages env n m w s) (h : Normal m w) (u : Updates) {id : Nat}
    (hid : id ∈ m.rob.fifo.ids) (hid' : id ∈ (s.machine env n m u).rob.fifo.ids) :
    ((s.machine env n m u).rob.fifo.buffer id).finish = true ↔
      (m.rob.fifo.buffer id).finish = true ∨ robInstr m.rob.fifo id ∈ portInstrs m.wbCommitPort := by
  have hrob := f.rob_normal h
  rw [show (s.machine env n m u).rob.fifo.ids = _ from hrob.ids, List.map_append] at hid'
  rw [h.rob.ids] at hid
  -- an entry that was there and still is has advanced
  obtain ⟨e, he, rfl⟩ : ∃ e ∈ f.rest, e.op.robId = id := by
    obtain hid' | hid' := List.mem_append.mp hid'
    · obtain ⟨x, hx, rfl⟩ := List.mem_map.mp hid'
      obtain ⟨e, he, rfl⟩ := List.mem_map.mp hx
      exact ⟨e, he, rfl⟩
    · have hnd := f.robOk.nodup
      rw [List.map_append, List.nodup_append] at hnd
      exact absurd rfl (hnd.2.2 id hid id hid')
  have hflight : e ∈ w.flight := by rw [f.flight]; exact List.mem_append_right _ he
  have hnew := hrob.finish_iff (e := e.advance s.ex.ports)
    (List.mem_append_left _ (List.mem_map_of_mem he))
  refine hnew.trans (Entry.finished_advance.trans ?_)
  rw [h.rob.finish_iff hflight, h.rob.robInstr_eq hflight]
  refine or_congr_right ⟨?_, ?_⟩
  · rintro ⟨r, hs⟩
    have hres := h.resultOf hflight (r := r) (by simp [Entry.result, hs])
    refine List.mem_map.mpr ⟨r, List.mem_filter.mpr ((h.port.written r).mpr ⟨e, hflight, hs⟩), ?_⟩
    rw [RenameReadregOp.instr, RenameReadregOp.instr, hres.robId, hres.info]
  · intro hmem
    obtain ⟨r, hr, hinstr⟩ := List.mem_map.mp hmem
    obtain ⟨x, hx, hs⟩ := (h.port.written r).mp (List.mem_filter.mp hr)
    have hrid : r.robId = x.op.robId := (h.resultOf hx (by simp [Entry.result, hs])).robId
    obtain rfl := h.rob.eq_of_robId_eq hx hflight (hrid.symm.trans (congrArg Prod.fst hinstr))
    exact ⟨r, hs⟩

/-- One cycle loses and doubles nothing. -/
theorem CycleCase.moved (h : CycleCase env n m w s) (u : Updates) :
    Moved m (s.machine env n m u) (s.log env n m u).fb.flushing := by
  have hflush (hst : FlushStages env n m s) : Moved m (s.machine env n m u) (s.log env n m u).fb.flushing := by
    have hfb : (s.log env n m u).fb.flushing = true := hst.flushing
    rw [hfb]
    exact ⟨fun _ => hst.held_eq u, nofun, nofun, nofun⟩
  cases h with
  | flow h f =>
    have hfb : (s.log env n m u).fb.flushing = false := f.flushing
    rw [hfb]
    refine ⟨nofun, fun _ => ?_, fun _ => ?_, fun _ id hid hid' => f.finished_iff h u hid hid'⟩
    · have hperm := f.execute.perm.map (·.instr)
      rw [List.map_append, ← f.results_instr] at hperm
      exact (List.sublist_append_left _ _).subperm.trans hperm.symm.subperm
    · show portInstrs (Wb.run m.executeWbPorts s.cm.fb).1 = _
      simp [Wb.run, f.flushing]
  | flush _ g => exact hflush g.stages
  | walk v _ => exact hflush v.stages

/-- At every cycle boundary, the places between rename and commit hold the unfinished ROB entries, each once;
and this is how every cycle moves them. -/
theorem conservation (h : run env n = .ok (m, logs)) : Conserved m ∧
    ∀ m' log, cycle env n m = .ok (m', log) → Moved m m' log.fb.flushing := by
  have href := run_refines h
  refine ⟨href.conserved (run_portsOnce h), fun m' log hc => ?_⟩
  obtain ⟨s, u, hcase, -, rfl, rfl⟩ := href.cycle_ok hc
  exact hcase.moved u

/-- Two instructions on their way, and how the next cycle moves them. -/
theorem conservation_doubleWrite : ∃ m logs m' log, run (Env.ofProgram doubleWrite) 6 = .ok (m, logs) ∧
    cycle (Env.ofProgram doubleWrite) 6 m = .ok (m', log) ∧ 2 ≤ (held m).length ∧ Conserved m ∧
    Moved m m' log.fb.flushing := by
  obtain ⟨m', logs', hrun', -⟩ := exists_run_of
    (show endsWith (fun _ _ => true) (run (Env.ofProgram doubleWrite) 7) = true by decide +kernel)
  obtain ⟨m, logs, log, hrun, hc, rfl⟩ := run_succ.mp hrun'
  obtain ⟨m₀, logs₀, hrun₀, hheld⟩ := exists_run_of
    (show endsWith (fun m _ => decide (2 ≤ (held m).length)) (run (Env.ofProgram doubleWrite) 6) = true by
      decide +kernel)
  cases hrun₀.symm.trans hrun
  obtain ⟨hcons, hmoved⟩ := conservation hrun
  exact ⟨m, logs, m', log, hrun, hc, of_decide_eq_true hheld, hcons, hmoved m' log hc⟩

end Conservation

end MyRiscvCore
