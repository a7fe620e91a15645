import MyRiscvCore.Refine.Invariant

/-!
# MyRiscvCore — what commit does in a cycle

The retire loop of `commit::run` over a reorder buffer that represents a window (`RobOk`): it retires
a prefix of the window, and stops in one of the ways of `Stop`. `RetireSpec` says for each of them
what the loop queues and reports.
-/

namespace MyRiscvCore

open Renaming (mapAfter live)

/-! ## Reading the reorder buffer

The buffer holds the window: slot by slot, in order, with the records that rename and commit wrote. -/

namespace RobOk

variable {q : Fifo RobItem} {C : Nat → Nat} {flight pre post : List Entry} {e : Entry}

theorem count_eq (h : RobOk q C flight) : q.count = flight.length := by
  rw [← Fifo.length_ids, h.ids, List.length_map]

/-- The place of an entry in the window gives its slot. -/
theorem slot (h : RobOk q C flight) (hf : flight = pre ++ e :: post) :
    e.op.robId = (q.rptr + pre.length) % q.size ∧ pre.length < q.count := by
  have hlt : pre.length < q.count := by
    rw [h.count_eq, hf]
    simp
  have hget := Ring.getElem?_ids q.size q.rptr hlt
  rw [show Ring.ids q.size q.rptr q.count = flight.map (·.op.robId) from h.ids, hf] at hget
  simp only [List.map_append, List.map_cons] at hget
  rw [List.getElem?_append_right (by simp)] at hget
  simp only [List.length_map, Nat.sub_self, List.getElem?_cons_zero, Option.some.injEq] at hget
  exact ⟨hget, hlt⟩

theorem nodup (h : RobOk q C flight) : (flight.map (·.op.robId)).Nodup :=
  h.ids ▸ h.wf.nodup_ids

/-- Instructions in flight are told apart by their ROB slot. -/
theorem eq_of_robId_eq (h : RobOk q C flight) {x y : Entry} (hx : x ∈ flight) (hy : y ∈ flight)
    (he : x.op.robId = y.op.robId) : x = y :=
  List.inj_on_of_nodup_map h.nodup hx hy he

/-- The front is the oldest entry, the tail the youngest. -/
theorem getFrontId_eq (h : RobOk q C flight) :
    q.getFrontId = (flight.map (·.op.robId)).head? := by
  rw [h.wf.getFrontId_eq, h.ids]

theorem getTailId_eq (h : RobOk q C flight) :
    q.getTailId = (flight.map (·.op.robId)).getLast? := by
  rw [h.wf.getTailId_eq, h.ids]

end RobOk

section RobItem

variable {C : Nat → Nat} {e : Entry} {r : ExecuteWbPack}

theorem robItemOf_finished (h : e.status = .finished r) :
    robItemOf C e = Commit.finishItem (Rename.robItem e.op.toDecodeRenamePack e.op.rdPhy
      (if e.writes then some (C e.op.rd) else none)) r := by
  simp [robItemOf, h]

theorem robItemOf_unfinished (h : ∀ r, e.status ≠ .finished r) :
    robItemOf C e = Rename.robItem e.op.toDecodeRenamePack e.op.rdPhy
      (if e.writes then some (C e.op.rd) else none) := by
  unfold robItemOf
  cases hs : e.status with
  | finished r => exact absurd hs (h r)
  | _ => rfl

@[simp] theorem robItemOf_old : (robItemOf C e).oldPhyRegIdValid = e.writes := by
  unfold robItemOf
  cases e.status <;> cases e.writes <;> rfl

/-- The replaced register is the one of the map before the entry. -/
theorem robItemOf_oldPhyRegId (h : e.writes = true) :
    (robItemOf C e).oldPhyRegId = C e.op.rd := by
  unfold robItemOf
  cases e.status <;> simp [h, Rename.robItem, Commit.finishItem]

@[simp] theorem robItemOf_new : (robItemOf C e).newPhyRegId = e.op.rdPhy := by
  unfold robItemOf
  cases e.status <;> rfl

@[simp] theorem robItemOf_pc : (robItemOf C e).pc = e.op.pc := by
  unfold robItemOf
  cases e.status <;> rfl

@[simp] theorem robItemOf_instValue : (robItemOf C e).instValue = e.op.value := by
  unfold robItemOf
  cases e.status <;> rfl

/-- Commit sees a finished record where the window has a finished entry. -/
theorem finish_robItemOf : (robItemOf C e).finish = true ↔ ∃ r, e.status = .finished r := by
  unfold robItemOf
  cases e.status <;> simp [Rename.robItem, Commit.finishItem]

end RobItem

/-- The alias-table requests of retired instructions, from the committed map `C` on. -/
def retireRatRequests (C : Nat → Nat) : List Entry → List Rat.Request
  | [] => []
  | e :: es =>
    (if e.writes then [.releaseMap (C e.op.rd), .commitMap e.op.rdPhy] else []) ++
      retireRatRequests (mapAfter C e.mapping) es

/-- Their register-file requests. -/
def retireRegRequests (C : Nat → Nat) : List Entry → List Regfile.Request
  | [] => []
  | e :: es =>
    (if e.writes then [.write (C e.op.rd) 0 false] else []) ++
      retireRegRequests (mapAfter C e.mapping) es

/-- Their ROB entries, as they are when they retire. -/
def retiredItems (C : Nat → Nat) : List Entry → List RobItem
  | [] => []
  | e :: es => robItemOf C e :: retiredItems (mapAfter C e.mapping) es

/-- The CSR requests of a retired instruction: its own write, and the `mstatus` update of `mret`. -/
def retireCsrRequests (csr : Csrfile) (e : Entry) : List Csrfile.Request :=
  match e.status with
  | .finished r =>
    (if r.csrNewvalueValid then [.write e.op.csr r.csrNewvalue] else []) ++
      if r.opUnit == .bru && e.op.op == .mret then
        [.writeSys csrMstatus (setMie (csr.value csrMstatus) (getMpie (csr.value csrMstatus)))]
      else []
  | _ => []

@[simp] theorem length_retiredItems (C : Nat → Nat) (es : List Entry) :
    (retiredItems C es).length = es.length := by
  induction es generalizing C with
  | nil => rfl
  | cons e es ih => simp [retiredItems, ih]

/-- How a cycle of commit ends in the normal state: the group is complete or the next instruction is
not finished; the last retired one is a jump, predicted right, not predicted, or predicted wrong; the
next instruction has an exception; or an interrupt is accepted. -/
inductive Stop
  | group | hit | jump | miss | exception | interrupt
  deriving DecidableEq

/-- The pipeline goes on. -/
def Stop.flows : Stop → Bool
  | group | hit | jump => true
  | miss | exception | interrupt => false

/-- A restored checkpoint of which exactly the registers of the map `C` are left. -/
structure CleanOk (cp : Checkpoint) (C : Nat → Nat) : Prop where
  valid_iff : ∀ p, cp.ratPhyMapTableValid p = true ↔ p ∈ C '' archRegs
  visible_iff : ∀ p, cp.ratPhyMapTableVisible p = true ↔ p ∈ C '' archRegs
  data_iff : ∀ p < phyRegNum, (cp.phyRegfileDataValid p = true ↔ p ∈ C '' archRegs)

/-- The last retired instruction of a group that a jump ends. -/
structure JumpLast (ret : List Entry) (e : Entry) (r : ExecuteWbPack) : Prop where
  last : ret.getLast? = some e
  status : e.status = .finished r
  unit : e.op.opUnit = .bru

/-- What the retire loop does: it takes the context `c` to `c'`, retiring the instructions `ret`, with
`done` already retired in this cycle and `rest` left. -/
structure RetireSpec (csr : Csrfile) (q : Fifo RobItem) (cpb : Fifo Checkpoint) (C : Nat → Nat)
    (c c' : Commit.Ctx) (done ret rest : List Entry) (stop : Stop) : Prop where
  finished : ∀ e ∈ ret, ∃ r, e.status = .finished r ∧ r.hasException = false
  inner : ∀ pre e post, ret = pre ++ e :: post → e.op.opUnit = .bru → post = []
  group : stop = .group → ∀ e ∈ ret, e.op.opUnit ≠ .bru
  hit : stop = .hit → ∃ e r, JumpLast ret e r ∧ e.op.predicted = true ∧
    r.bruJump = e.op.predictedJump ∧
    (r.bruNextPc = e.op.predictedNextPc ∨ e.op.predictedJump = false)
  jump : stop = .jump ∨ stop = .miss → ∃ e r, JumpLast ret e r ∧
    e.op.predicted = (stop = .miss : Bool) ∧ c'.fb.jumpEnable = true ∧ c'.fb.jump = r.bruJump ∧
    c'.fb.nextPc = if r.bruJump then r.bruNextPc else e.op.pc + 4
  exception : stop = .exception → (∀ e ∈ ret, e.op.opUnit ≠ .bru) ∧ ∃ e rest' r, rest = e :: rest' ∧
    e.status = .finished r ∧ r.hasException = true ∧
    c'.state.robItem = robItemOf (mapAt C (done ++ ret)) e ∧ c'.state.robItemId = e.op.robId ∧
    (rest.map (·.op.robId)).getLast? = some c'.state.restoreRobItemId
  noJump : stop ≠ .jump → stop ≠ .miss → c'.fb.jumpEnable = false
  loop : stop ≠ .interrupt
  phase : c'.state.curState = if stop = .exception then .flush else .normal
  enable : c'.fb.enable = true
  flush : c'.fb.flush = (stop = .miss ∨ stop = .exception : Bool)
  needFlush : c'.needFlush = c'.fb.flush
  noException : c'.fb.hasException = false
  next : stop ≠ .exception → ∀ e rest', rest = e :: rest' → c'.fb.nextHandleRobId = e.op.robId
  committed : ∃ extra, c'.fb.committedRobId = c.fb.committedRobId ++ ret.map (·.op.robId) ++ extra ∧
    (stop ≠ .exception → extra = []) ∧ ∀ id ∈ extra, (rest.map (·.op.robId)).head? = some id
  rob : c'.rob.fifo = if stop = .miss then q.flush else q
  cpb : c'.checkpointBuffer = if stop = .miss then cpb.flush else cpb
  restored : ∃ cps, (stop ≠ .miss → cps = []) ∧
    (stop = .miss → ∃ cp, cps = [cp] ∧ CleanOk cp (mapAt C (done ++ ret))) ∧
    c'.ratRequests = c.ratRequests ++ retireRatRequests (mapAt C done) ret ++ cps.map .restore ∧
    c'.regRequests = c.regRequests ++ retireRegRequests (mapAt C done) ret ++ cps.map .restore
  csrRequests : c'.csrRequests = c.csrRequests ++ ret.flatMap (retireCsrRequests csr)
  robRequests : c'.robRequests = c.robRequests ++ List.replicate ret.length .pop
  cpRequests : c'.cpRequests = c.cpRequests ++ if stop = .hit then [.pop] else []
  acks : c'.acks = c.acks
  retired : c'.retired = c.retired ++ retiredItems (mapAt C done) ret
  phyFull : c'.perf.phyRegfileFull = c.perf.phyRegfileFull

section Retire

variable {csr : Csrfile} {q : Fifo RobItem} {cpb : Fifo Checkpoint} {C D : Nat → Nat}
  {c : Commit.Ctx} {e : Entry} {r : ExecuteWbPack}

/-- The context in which the loop looks at an entry it will retire. -/
def handleCtx (item : RobItem) (id nextId : Nat) (nextOk : Bool) (c : Commit.Ctx) : Commit.Ctx :=
  { c with
    state := { c.state with robItem := item }
    fb := { c.fb with
      nextHandleRobId := nextId
      nextHandleRobIdValid := nextOk
      committedRobId := c.fb.committedRobId ++ [id] } }

/-- The part that all instructions share: free the old register, publish the new one, write the CSR. -/
theorem retireBase_eq (h : e.status = .finished r) :
    Commit.retireBase (robItemOf D e) c = { c with
      rob := c.rob.countCommit
      robRequests := c.robRequests ++ [.pop]
      ratRequests := c.ratRequests ++ retireRatRequests D [e]
      regRequests := c.regRequests ++ retireRegRequests D [e]
      csrRequests := c.csrRequests ++
        if r.csrNewvalueValid then [.write e.op.csr r.csrNewvalue] else []
      retired := c.retired ++ [robItemOf D e] } := by
  have hcsr : (robItemOf D e).csrNewvalueValid = r.csrNewvalueValid ∧
      (robItemOf D e).csrAddr = e.op.csr ∧ (robItemOf D e).csrNewvalue = r.csrNewvalue := by
    rw [robItemOf_finished h]
    exact ⟨rfl, rfl, rfl⟩
  unfold Commit.retireBase Commit.retireDest
  rw [robItemOf_old, robItemOf_new, hcsr.1, hcsr.2.1, hcsr.2.2]
  cases hw : e.writes with
  | true => simp [retireRatRequests, retireRegRequests, hw, robItemOf_oldPhyRegId hw]
  | false => simp [retireRatRequests, retireRegRequests, hw]

/-- The request of a retired `mret`. -/
def mretRequests (csr : Csrfile) (item : RobItem) : List Csrfile.Request :=
  if item.isMret then
    [.writeSys csrMstatus (setMie (csr.value csrMstatus) (getMpie (csr.value csrMstatus)))]
  else []

/-- An `mret` restores the interrupt-enable bit. -/
theorem retireMret_eq (item : RobItem) :
    Commit.retireMret csr item c =
      .ok { c with csrRequests := c.csrRequests ++ mretRequests csr item } := by
  unfold Commit.retireMret mretRequests
  cases item.isMret with
  | true => rfl
  | false => simp

/-- A jump that was not predicted reports its target to fetch. -/
theorem retireBranch_unpredicted (csr : Csrfile) {item : RobItem} (h : item.predicted = false) :
    ∃ perf, perf.phyRegfileFull = c.perf.phyRegfileFull ∧
      Commit.retireBranch csr item c = .ok { c with
        perf := perf
        csrRequests := c.csrRequests ++ mretRequests csr item
        fb := { c.fb with
          enable := true, jumpEnable := true, jump := item.bruJump
          nextPc := Commit.jumpNextPc item } } := by
  refine ⟨{ c.perf with branchNum := c.perf.branchNum + 1 }, rfl, ?_⟩
  simp only [Commit.retireBranch, retireMret_eq, h]
  rfl

/-- A prediction that came true only trains the predictor. -/
theorem retireBranch_hit (csr : Csrfile) {item : RobItem} (h : item.predicted = true)
    (hhit : Commit.predictionHit item = true) :
    ∃ perf predictor, perf.phyRegfileFull = c.perf.phyRegfileFull ∧
      Commit.retireBranch csr item c = .ok { c with
        perf := perf
        predictor := predictor
        csrRequests := c.csrRequests ++ mretRequests csr item
        cpRequests := c.cpRequests ++ [.pop] } := by
  refine ⟨{ c.perf with
    branchNum := c.perf.branchNum + 1
    branchPredicted := c.perf.branchPredicted + 1
    branchHit := c.perf.branchHit + 1 },
    c.predictor.updatePrediction item.pc item.instValue item.bruJump item.bruNextPc true, rfl, ?_⟩
  simp only [Commit.retireBranch, retireMret_eq, h, hhit]
  rfl

/-- A wrong one restores the checkpoint of the jump and flushes. -/
theorem retireBranch_miss (csr : Csrfile) {item : RobItem} {cp : Checkpoint} (h : item.predicted = true)
    (hmiss : Commit.predictionHit item = false) (hvalid : item.checkpointIdValid = true)
    (hcp : (if item.oldPhyRegIdValid then
      Rat.cpReleaseMap (c.checkpointBuffer.getItem item.checkpointId) item.oldPhyRegId
      else .ok (c.checkpointBuffer.getItem item.checkpointId)) = .ok cp)
    (hcnt : Commit.visibleCount cp = 31) :
    ∃ perf predictor, perf.phyRegfileFull = c.perf.phyRegfileFull ∧
      Commit.retireBranch csr item c = .ok { c with
        perf := perf
        predictor := predictor
        csrRequests := c.csrRequests ++ mretRequests csr item
        ratRequests := c.ratRequests ++ [.restore (Commit.cleanCheckpoint cp)]
        regRequests := c.regRequests ++ [.restore (Commit.cleanCheckpoint cp)]
        fb := { c.fb with
          enable := true, flush := true, jumpEnable := true, jump := item.bruJump
          nextPc := Commit.jumpNextPc item }
        rob := { c.rob with fifo := c.rob.fifo.flush }
        checkpointBuffer := c.checkpointBuffer.flush
        needFlush := true } := by
  refine ⟨{ c.perf with
    branchNum := c.perf.branchNum + 1
    branchPredicted := c.perf.branchPredicted + 1
    branchMiss := c.perf.branchMiss + 1 },
    c.predictor.updatePrediction item.pc item.instValue item.bruJump item.bruNextPc false, rfl, ?_⟩
  simp only [Commit.retireBranch, retireMret_eq, h, hmiss, hvalid, Bind.bind, Except.bind,
    Bool.false_eq_true, if_true, if_false, Commit.mispredict, pure, Except.pure]
  -- the checkpoint gives up the register that the jump replaces
  cases hold : item.oldPhyRegIdValid with
  | true =>
    simp only [hold, if_true] at hcp
    simp only [if_true, hcp, hcnt]
    rfl
  | false =>
    simp only [hold, Bool.false_eq_true, if_false, Except.ok.injEq] at hcp
    simp only [Bool.false_eq_true, if_false, hcp, hcnt]
    rfl

/-- The checkpoint of a mispredicted jump passes the assertions of `commit` and, cleaned, is the map
after the jump. -/
theorem mispredict_checkpoint {cp : Checkpoint} (h : CheckpointOk cp D e)
    (hinj : Set.InjOn (mapAt D [e]) archRegs) (hold : e.writes = true →
      D e.op.rd < phyRegNum ∧ D e.op.rd ∉ mapAt D [e] '' archRegs) :
    ∃ cp', (if e.writes then Rat.cpReleaseMap cp (D e.op.rd) else .ok cp) = .ok cp' ∧
      Commit.visibleCount cp' = 31 ∧ CleanOk (Commit.cleanCheckpoint cp') (mapAt D [e]) := by
  have hlt : ∀ a ∈ archRegs, mapAt D [e] a < phyRegNum := fun a ha =>
    h.valid_lt _ (h.valid_visible _ ⟨a, ha, rfl⟩)
  -- what the assertions and the cleaning need of the checkpoint after the release
  have hclean : ∀ cp' : Checkpoint, cp'.ratPhyMapTableVisible = cp.ratPhyMapTableVisible →
      (∀ p ∈ mapAt D [e] '' archRegs, cp'.ratPhyMapTableValid p = true) →
      (∀ p, cp'.ratPhyMapTableValid p = true → p < phyRegNum) →
      Commit.visibleCount cp' = 31 ∧ CleanOk (Commit.cleanCheckpoint cp') (mapAt D [e]) := by
    intro cp' hvis hval hbound
    have hiff : ∀ p, cp'.ratPhyMapTableVisible p = true ↔ p ∈ mapAt D [e] '' archRegs := by
      rw [hvis]
      exact h.visible_iff
    refine ⟨length_filter_image hinj hlt hiff, ⟨?_, hiff, ?_⟩⟩
    · intro p
      unfold Commit.cleanCheckpoint
      by_cases hp : p < phyRegNum
      · simp only [hp, if_true, Bool.and_eq_true, hiff]
        exact ⟨And.right, fun hm => ⟨hval p hm, hm⟩⟩
      · simp only [hp, if_false]
        exact ⟨fun hv => absurd (hbound p hv) hp, fun hm => hval p hm⟩
    · intro p hp
      simp only [Commit.cleanCheckpoint, hp, if_true, hiff]
  cases hw : e.writes with
  | false =>
    exact ⟨cp, rfl, hclean cp rfl h.valid_visible h.valid_lt⟩
  | true =>
    obtain ⟨holdlt, holdvis⟩ := hold hw
    have hv : cp.ratPhyMapTableVisible (D e.op.rd) = false := by
      rw [← Bool.not_eq_true, h.visible_iff]
      exact holdvis
    refine ⟨{ cp with
      ratPhyMapTableValid := Function.update cp.ratPhyMapTableValid (D e.op.rd) false }, ?_,
      hclean _ rfl ?_ ?_⟩
    · simp only [if_true, Rat.cpReleaseMap, decide_eq_true holdlt, h.valid_old hw, hv]
      rfl
    · intro p hp
      have hne : p ≠ D e.op.rd := fun he => holdvis (he ▸ hp)
      simp only [Function.update_of_ne hne]
      exact h.valid_visible p hp
    · intro p hp
      by_cases hpo : p = D e.op.rd
      · rw [hpo]; exact holdlt
      · simp only [Function.update_of_ne hpo] at hp
        exact h.valid_lt p hp

end Retire

/-! ## The retire loop

`LoopCtx` holds while the group can go on; `RetireSpec` adds up what the rounds so far have queued. -/

/-- What the retire loop relies on. -/
structure RetireHyp (q : Fifo RobItem) (cpb : Fifo Checkpoint) (C : Nat → Nat)
    (flight : List Entry) : Prop where
  rob : RobOk q C flight
  maps : Renaming.Ok archRegs C (renamings flight)
  bound : ∀ p ∈ live archRegs C (renamings flight), p < phyRegNum
  unit : ∀ e ∈ flight, ∀ r, e.status = .finished r → r.opUnit = e.op.opUnit
  predict : ∀ e ∈ flight, ∀ r, e.status = .finished r → e.op.opUnit = .bru →
    r.toPredictInfo = e.op.toPredictInfo
  cpValid : ∀ e ∈ flight, e.op.predicted = true → e.op.checkpointIdValid = true
  cp : ∀ pre e post, flight = pre ++ e :: post → e.op.predicted = true →
    CheckpointOk (cpb.buffer e.op.checkpointId) (mapAt C pre) e

/-- The state of the context while the loop runs. -/
structure LoopCtx (q : Fifo RobItem) (cpb : Fifo Checkpoint) (c : Commit.Ctx) : Prop where
  rob : c.rob.fifo = q
  cpb : c.checkpointBuffer = cpb
  phase : c.state.curState = .normal
  enable : c.fb.enable = true
  flush : c.fb.flush = false
  needFlush : c.needFlush = false
  jumpEnable : c.fb.jumpEnable = false
  hasException : c.fb.hasException = false

section Loop

variable {csr : Csrfile} {q : Fifo RobItem} {cpb : Fifo Checkpoint} {C : Nat → Nat}
  {flight done rest : List Entry} {c : Commit.Ctx} {e : Entry} {r : ExecuteWbPack}

/-- The register a jump replaced is not in the map after it. -/
theorem RetireHyp.old_notMem (h : RetireHyp q cpb C flight) (hf : flight = done ++ e :: rest)
    (hw : e.writes = true) :
    mapAt C done e.op.rd < phyRegNum ∧
      mapAt C done e.op.rd ∉ mapAt (mapAt C done) [e] '' archRegs := by
  have hsplit : renamings flight =
      (renamings done ++ [(e.op.rd, e.op.rdPhy)]) ++ renamings rest := by
    rw [hf]
    simp [Entry.mapping_of_writes hw]
  have hok : Renaming.Ok archRegs C (renamings done ++ [(e.op.rd, e.op.rdPhy)]) :=
    Renaming.Ok.of_append (hsplit ▸ h.maps)
  have hdom : e.op.rd ∈ archRegs := hok.dom (e.op.rd, e.op.rdPhy) (by simp)
  constructor
  · have hlive := Renaming.mapAfter_mem_live (C := C) (l := renamings done) hdom
    refine h.bound _ ?_
    rw [hsplit, Renaming.mem_live]
    obtain hl | ⟨x, hx, hl⟩ := Renaming.mem_live.mp hlive
    · exact .inl hl
    · exact .inr ⟨x, by simp [hx], hl⟩
  · rw [← mapAt_append]
    have hmem := hok.olds_notMem_visible (mapAt C done e.op.rd) (by
      rw [Renaming.olds_snoc]
      exact List.mem_append_right _ (List.mem_singleton.mpr rfl))
    simpa [mapAt, Entry.mapping_of_writes hw] using hmem

/-- The map after an entry gives different registers different places. -/
theorem RetireHyp.injOn (h : RetireHyp q cpb C flight) (hf : flight = done ++ e :: rest) :
    Set.InjOn (mapAt (mapAt C done) [e]) archRegs := by
  rw [← mapAt_append]
  have hok : Renaming.Ok archRegs C (renamings (done ++ [e])) := by
    have hmaps : Renaming.Ok archRegs C (renamings (done ++ [e]) ++ renamings rest) := by
      simpa [hf] using h.maps
    exact hmaps.of_append
  exact hok.injOn_mapAfter

/-- A retired jump ends the group. -/
theorem retireBranch_spec (csr : Csrfile) (h : RetireHyp q cpb C flight) (hc : LoopCtx q cpb c)
    (hf : flight = done ++ e :: rest) (hs : e.status = .finished r) (hex : r.hasException = false)
    (hbru : e.op.opUnit = .bru) (nextOk : Bool) {nextId : Nat}
    (hnext : ∀ x rest', rest = x :: rest' → nextId = x.op.robId) :
    ∃ c' stop, Commit.retireBranch csr (robItemOf (mapAt C done) e)
        (Commit.retireBase (robItemOf (mapAt C done) e)
          (handleCtx (robItemOf (mapAt C done) e) e.op.robId nextId nextOk c)) = .ok c' ∧
      RetireSpec csr q cpb C c c' done [e] rest stop := by
  have hmem : e ∈ flight := by rw [hf]; simp
  have hunit := h.unit e hmem r hs
  have hpred := h.predict e hmem r hs hbru
  have hcsr : retireCsrRequests csr e =
      (if r.csrNewvalueValid then [.write e.op.csr r.csrNewvalue] else []) ++
        mretRequests csr (robItemOf (mapAt C done) e) := by
    rw [robItemOf_finished hs]
    simp [retireCsrRequests, mretRequests, hs, hunit, hbru, Commit.finishItem, Rename.robItem]
  have hitem : (robItemOf (mapAt C done) e).toPredictInfo = e.op.toPredictInfo ∧
      (robItemOf (mapAt C done) e).bruJump = r.bruJump ∧
      (robItemOf (mapAt C done) e).bruNextPc = r.bruNextPc := by
    rw [robItemOf_finished hs]
    exact ⟨hpred, rfl, rfl⟩
  have hlast : JumpLast [e] e r := ⟨rfl, hs, hbru⟩
  have hfin : ∀ x ∈ [e], ∃ r, x.status = .finished r ∧ r.hasException = false := by
    intro x hx
    rw [List.mem_singleton] at hx
    exact ⟨r, hx ▸ hs, hex⟩
  have hinner : ∀ pre x post, [e] = pre ++ x :: post → x.op.opUnit = .bru → post = [] := by
    intro pre x post hx _
    cases pre with
    | nil => simp at hx; exact hx.2
    | cons y pre => simp at hx
  have hpr : (robItemOf (mapAt C done) e).predicted = e.op.predicted := by rw [hitem.1]
  have hpj : (robItemOf (mapAt C done) e).predictedJump = e.op.predictedJump := by rw [hitem.1]
  have hpn : (robItemOf (mapAt C done) e).predictedNextPc = e.op.predictedNextPc := by
    rw [hitem.1]
  have hcv : (robItemOf (mapAt C done) e).checkpointIdValid = e.op.checkpointIdValid := by
    rw [hitem.1]
  have hci : (robItemOf (mapAt C done) e).checkpointId = e.op.checkpointId := by rw [hitem.1]
  -- the context after the common part
  have hb := retireBase_eq (D := mapAt C done)
    (c := handleCtx (robItemOf (mapAt C done) e) e.op.robId nextId nextOk c) hs
  generalize Commit.retireBase (robItemOf (mapAt C done) e)
    (handleCtx (robItemOf (mapAt C done) e) e.op.robId nextId nextOk c) = c₁ at hb ⊢
  have hrob : c₁.rob.fifo = q := by rw [hb]; exact hc.rob
  have hcpb : c₁.checkpointBuffer = cpb := by rw [hb]; exact hc.cpb
  have hphase : c₁.state.curState = .normal := by rw [hb]; exact hc.phase
  have henable : c₁.fb.enable = true := by rw [hb]; exact hc.enable
  have hflush : c₁.fb.flush = false := by rw [hb]; exact hc.flush
  have hneed : c₁.needFlush = false := by rw [hb]; exact hc.needFlush
  have hjump : c₁.fb.jumpEnable = false := by rw [hb]; exact hc.jumpEnable
  have hnoex : c₁.fb.hasException = false := by rw [hb]; exact hc.hasException
  have hnid : c₁.fb.nextHandleRobId = nextId := by rw [hb]; rfl
  have hcom : c₁.fb.committedRobId = c.fb.committedRobId ++ [e.op.robId] := by rw [hb]; rfl
  have hrat : c₁.ratRequests = c.ratRequests ++ retireRatRequests (mapAt C done) [e] := by
    rw [hb]; rfl
  have hreg : c₁.regRequests = c.regRequests ++ retireRegRequests (mapAt C done) [e] := by
    rw [hb]; rfl
  have hcsr₁ : c₁.csrRequests = c.csrRequests ++
      if r.csrNewvalueValid then [.write e.op.csr r.csrNewvalue] else [] := by
    rw [hb]; rfl
  have hrobr : c₁.robRequests = c.robRequests ++ [.pop] := by rw [hb]; rfl
  have hcpr : c₁.cpRequests = c.cpRequests := by rw [hb]; rfl
  have hacks : c₁.acks = c.acks := by rw [hb]; rfl
  have hret : c₁.retired = c.retired ++ [robItemOf (mapAt C done) e] := by rw [hb]; rfl
  have hperf : c₁.perf.phyRegfileFull = c.perf.phyRegfileFull := by rw [hb]; rfl
  have hcsrAll : c₁.csrRequests ++ mretRequests csr (robItemOf (mapAt C done) e) =
      c.csrRequests ++ [e].flatMap (retireCsrRequests csr) := by
    rw [hcsr₁, List.flatMap_singleton, hcsr, List.append_assoc]
  have hnextPc : Commit.jumpNextPc (robItemOf (mapAt C done) e) =
      if r.bruJump then r.bruNextPc else e.op.pc + 4 := by
    rw [Commit.jumpNextPc, hitem.2.1, hitem.2.2, robItemOf_pc]
  cases hp : e.op.predicted with
  | false =>
    -- not predicted: fetch has been waiting for the report
    obtain ⟨perf, hpf, heq⟩ := retireBranch_unpredicted csr (c := c₁) (hpr.trans hp)
    exact ⟨_, .jump, heq, {
      finished := hfin
      inner := hinner
      group := by simp
      hit := by simp
      jump := fun _ => ⟨e, r, hlast, by simp [hp], rfl, hitem.2.1, hnextPc⟩
      exception := by simp
      noJump := by simp
      loop := by simp
      phase := hphase
      enable := rfl
      flush := hflush
      needFlush := hneed.trans hflush.symm
      noException := hnoex
      next := fun _ x rest' hx => hnid.trans (hnext x rest' hx)
      committed := ⟨[], by simp [hcom], fun _ => rfl, by simp⟩
      rob := hrob
      cpb := hcpb
      restored := ⟨[], fun _ => rfl, by simp, by simp [hrat], by simp [hreg]⟩
      csrRequests := hcsrAll
      robRequests := hrobr
      cpRequests := by simp [hcpr]
      acks := hacks
      retired := hret
      phyFull := hpf.trans hperf }⟩
  | true =>
    cases hhit : Commit.predictionHit (robItemOf (mapAt C done) e) with
    | true =>
      obtain ⟨perf, predictor, hpf, heq⟩ :=
        retireBranch_hit csr (c := c₁) (hpr.trans hp) hhit
      have hhit' : r.bruJump = e.op.predictedJump ∧
          (r.bruNextPc = e.op.predictedNextPc ∨ e.op.predictedJump = false) := by
        simpa [Commit.predictionHit, hitem.2.1, hitem.2.2, hpj, hpn] using hhit
      exact ⟨_, .hit, heq, {
        finished := hfin
        inner := hinner
        group := by simp
        hit := fun _ => ⟨e, r, hlast, hp, hhit'⟩
        jump := by simp
        exception := by simp
        noJump := fun _ _ => hjump
        loop := by simp
        phase := hphase
        enable := henable
        flush := hflush
        needFlush := hneed.trans hflush.symm
        noException := hnoex
        next := fun _ x rest' hx => hnid.trans (hnext x rest' hx)
        committed := ⟨[], by simp [hcom], fun _ => rfl, by simp⟩
        rob := hrob
        cpb := hcpb
        restored := ⟨[], fun _ => rfl, by simp, by simp [hrat], by simp [hreg]⟩
        csrRequests := hcsrAll
        robRequests := hrobr
        cpRequests := by simp [hcpr]
        acks := hacks
        retired := hret
        phyFull := hpf.trans hperf }⟩
    | false =>
      -- mispredicted: the checkpoint of the jump is restored
      obtain ⟨cp, hcp, hcnt, hclean⟩ := mispredict_checkpoint (h.cp done e rest hf hp)
        (h.injOn hf) (h.old_notMem hf)
      have hcp' : (if (robItemOf (mapAt C done) e).oldPhyRegIdValid then
          Rat.cpReleaseMap (c₁.checkpointBuffer.getItem (robItemOf (mapAt C done) e).checkpointId)
            (robItemOf (mapAt C done) e).oldPhyRegId
          else .ok (c₁.checkpointBuffer.getItem (robItemOf (mapAt C done) e).checkpointId)) =
          .ok cp := by
        rw [robItemOf_old, hci, hcpb, ← hcp]
        cases hw : e.writes with
        | true => simp only [if_true, robItemOf_oldPhyRegId hw]; rfl
        | false => rfl
      obtain ⟨perf, predictor, hpf, heq⟩ := retireBranch_miss csr (c := c₁)
        (hpr.trans hp) hhit (hcv.trans (h.cpValid e hmem hp)) hcp' hcnt
      exact ⟨_, .miss, heq, {
        finished := hfin
        inner := hinner
        group := by simp
        hit := by simp
        jump := fun _ => ⟨e, r, hlast, by simp [hp], rfl, hitem.2.1, hnextPc⟩
        exception := by simp
        noJump := by simp
        loop := by simp
        phase := hphase
        enable := rfl
        flush := rfl
        needFlush := rfl
        noException := hnoex
        next := fun _ x rest' hx => hnid.trans (hnext x rest' hx)
        committed := ⟨[], by simp [hcom], fun _ => rfl, by simp⟩
        rob := by simp [hrob]
        cpb := by simp [hcpb]
        restored := ⟨[Commit.cleanCheckpoint cp], by simp,
          fun _ => ⟨_, rfl, by rw [mapAt_append]; exact hclean⟩, by simp [hrat], by simp [hreg]⟩
        csrRequests := hcsrAll
        robRequests := hrobr
        cpRequests := by simp [hcpr]
        acks := hacks
        retired := hret
        phyFull := hpf.trans hperf }⟩

/-- Nothing more retires. -/
theorem RetireSpec.stay (hc : LoopCtx q cpb c) (item : RobItem) {rem : List Entry}
    (hnext : ∀ x rest', rem = x :: rest' → c.fb.nextHandleRobId = x.op.robId) :
    RetireSpec csr q cpb C c { c with state := { c.state with robItem := item } } done [] rem
      .group where
  finished := by simp
  inner := by simp
  group := by simp
  hit := by simp
  jump := by simp
  exception := by simp
  noJump := fun _ _ => hc.jumpEnable
  loop := by simp
  phase := hc.phase
  enable := hc.enable
  flush := hc.flush
  needFlush := hc.needFlush.trans hc.flush.symm
  noException := hc.hasException
  next := fun _ => hnext
  committed := ⟨[], by simp, fun _ => rfl, by simp⟩
  rob := hc.rob
  cpb := hc.cpb
  restored := ⟨[], fun _ => rfl, by simp, by simp [retireRatRequests], by simp [retireRegRequests]⟩
  csrRequests := by simp
  robRequests := by simp
  cpRequests := by simp
  acks := rfl
  retired := by simp [retiredItems]
  phyFull := rfl

/-- One instruction retires, then the loop goes on. -/
theorem RetireSpec.cons {c₁ c' : Commit.Ctx} {ret : List Entry} {stop : Stop}
    (h₁ : RetireSpec csr q cpb C c c₁ done [e] (ret ++ rest) .group)
    (h₂ : RetireSpec csr q cpb C c₁ c' (done ++ [e]) ret rest stop) :
    RetireSpec csr q cpb C c c' done (e :: ret) rest stop := by
  have hnotbru : e.op.opUnit ≠ .bru := h₁.group rfl e (by simp)
  have hlast : ∀ {x r}, JumpLast ret x r → JumpLast (e :: ret) x r := by
    rintro x r ⟨hl, hs, hu⟩
    refine ⟨?_, hs, hu⟩
    rw [List.getLast?_cons, hl]
    rfl
  have happ : done ++ e :: ret = done ++ [e] ++ ret := by simp
  -- the first instruction ends no group, so it restores nothing and commits itself only
  obtain ⟨cps₁, hcps₁, -, hrat₁, hreg₁⟩ := h₁.restored
  obtain ⟨cps, hcps, hcps', hrat, hreg⟩ := h₂.restored
  obtain ⟨extra₁, hcom₁, hextra₁, -⟩ := h₁.committed
  obtain ⟨extra, hcom, hextra, hextra'⟩ := h₂.committed
  have hmap : mapAt C (done ++ [e]) = mapAfter (mapAt C done) e.mapping := by
    rw [mapAt_append, mapAt_cons, mapAt_nil]
  exact {
    finished := by
      intro x hx
      rw [List.mem_cons] at hx
      obtain rfl | hx := hx
      · exact h₁.finished x (by simp)
      · exact h₂.finished x hx
    inner := by
      intro pre x post hx hbru
      cases pre with
      | nil =>
        simp only [List.nil_append, List.cons.injEq] at hx
        exact absurd (hx.1 ▸ hbru) hnotbru
      | cons y pre =>
        simp only [List.cons_append, List.cons.injEq] at hx
        exact h₂.inner pre x post hx.2 hbru
    group := by
      intro hstop x hx
      rw [List.mem_cons] at hx
      obtain rfl | hx := hx
      · exact hnotbru
      · exact h₂.group hstop x hx
    hit := fun hstop => by
      obtain ⟨x, r, hl, hrest⟩ := h₂.hit hstop
      exact ⟨x, r, hlast hl, hrest⟩
    jump := fun hstop => by
      obtain ⟨x, r, hl, hrest⟩ := h₂.jump hstop
      exact ⟨x, r, hlast hl, hrest⟩
    exception := fun hstop => by
      obtain ⟨hgroup, hrest⟩ := h₂.exception hstop
      refine ⟨?_, happ ▸ hrest⟩
      intro x hx
      rw [List.mem_cons] at hx
      obtain rfl | hx := hx
      · exact hnotbru
      · exact hgroup x hx
    noJump := h₂.noJump
    loop := h₂.loop
    phase := h₂.phase
    enable := h₂.enable
    flush := h₂.flush
    needFlush := h₂.needFlush
    noException := h₂.noException
    next := h₂.next
    committed := ⟨extra, by rw [hcom, hcom₁, hextra₁ (by simp)]; simp, hextra, hextra'⟩
    rob := h₂.rob
    cpb := h₂.cpb
    restored := ⟨cps, hcps, fun hstop => happ ▸ hcps' hstop,
      by rw [hrat, hrat₁, hcps₁ (by simp), hmap]; simp [retireRatRequests],
      by rw [hreg, hreg₁, hcps₁ (by simp), hmap]; simp [retireRegRequests]⟩
    csrRequests := by rw [h₂.csrRequests, h₁.csrRequests]; simp
    robRequests := by
      rw [h₂.robRequests, h₁.robRequests]
      simp [List.replicate_succ]
    cpRequests := by rw [h₂.cpRequests, h₁.cpRequests]; simp
    acks := h₂.acks.trans h₁.acks
    retired := by rw [h₂.retired, h₁.retired, hmap]; simp [retiredItems]
    phyFull := h₂.phyFull.trans h₁.phyFull }

/-- An instruction that is no jump retires. -/
theorem retirePlain_spec (csr : Csrfile) (h : RetireHyp q cpb C flight) (hc : LoopCtx q cpb c)
    (hf : flight = done ++ e :: rest) (hs : e.status = .finished r) (hex : r.hasException = false)
    (hbru : e.op.opUnit ≠ .bru) (nextOk : Bool) {nextId : Nat}
    (hnext : ∀ x rest', rest = x :: rest' → nextId = x.op.robId) {c₁ : Commit.Ctx}
    (hb : c₁ = Commit.retireBase (robItemOf (mapAt C done) e)
      (handleCtx (robItemOf (mapAt C done) e) e.op.robId nextId nextOk c)) :
    RetireSpec csr q cpb C c { c₁ with state := { c₁.state with robItemId := nextId } } done [e]
      rest .group ∧
    LoopCtx q cpb { c₁ with state := { c₁.state with robItemId := nextId } } := by
  have hmem : e ∈ flight := by rw [hf]; simp
  have hunit := h.unit e hmem r hs
  -- not a jump, so not an `mret`
  have hcsr : retireCsrRequests csr e =
      if r.csrNewvalueValid then [.write e.op.csr r.csrNewvalue] else [] := by
    simp [retireCsrRequests, hs, hunit, hbru]
  rw [retireBase_eq hs] at hb
  subst hb
  refine ⟨{
    finished := by
      intro x hx
      rw [List.mem_singleton] at hx
      exact ⟨r, hx ▸ hs, hex⟩
    inner := by
      intro pre x post hx hx'
      cases pre with
      | nil =>
        simp only [List.nil_append, List.cons.injEq] at hx
        exact absurd (hx.1 ▸ hx') hbru
      | cons y pre => simp at hx
    group := by simpa using hbru
    hit := by simp
    jump := by simp
    exception := by simp
    noJump := fun _ _ => hc.jumpEnable
    loop := by simp
    phase := hc.phase
    enable := hc.enable
    flush := hc.flush
    needFlush := hc.needFlush.trans hc.flush.symm
    noException := hc.hasException
    next := fun _ x rest' hx => hnext x rest' hx
    committed := ⟨[], by simp [handleCtx], fun _ => rfl, by simp⟩
    rob := hc.rob
    cpb := hc.cpb
    restored := ⟨[], fun _ => rfl, by simp, by simp [handleCtx], by simp [handleCtx]⟩
    csrRequests := by simp [handleCtx, hcsr]
    robRequests := rfl
    cpRequests := by simp [handleCtx]
    acks := rfl
    retired := rfl
    phyFull := rfl }, ?_⟩
  exact ⟨hc.rob, hc.cpb, hc.phase, hc.enable, hc.flush, hc.needFlush, hc.jumpEnable,
    hc.hasException⟩

/-- The retire loop retires a prefix of the window. -/
theorem retireLoop_spec (csr : Csrfile) (h : RetireHyp q cpb C flight) (rounds : Nat) {rem : List Entry}
    (hc : LoopCtx q cpb c) (hf : flight = done ++ rem)
    (hid : (rem.map (·.op.robId)).head? = some c.state.robItemId)
    (hnext : c.fb.nextHandleRobId = c.state.robItemId) :
    ∃ c' ret rest stop, Commit.retireLoop csr q.rptr rounds c = .ok c' ∧ rem = ret ++ rest ∧
      RetireSpec csr q cpb C c c' done ret rest stop ∧
      (0 < rounds → ret = [] → stop = .group → ∀ e rest', rest = e :: rest' → ∀ r, e.status ≠ .finished r) := by
  have hstay : ∀ x rest', rem = x :: rest' → c.fb.nextHandleRobId = x.op.robId := by
    rintro x rest' rfl
    rw [hnext]
    simpa using hid.symm
  induction rounds generalizing c done rem with
  | zero =>
    exact ⟨c, [], rem, .group, rfl, rfl, RetireSpec.stay hc c.state.robItem hstay, by simp⟩
  | succ rounds ih =>
    obtain ⟨e, rem, rfl⟩ : ∃ e rem', rem = e :: rem' := by
      cases rem with
      | nil => simp at hid
      | cons e rem' => exact ⟨e, rem', rfl⟩
    have hid : c.state.robItemId = e.op.robId := by simpa using hid.symm
    obtain ⟨hslot, hlt⟩ := h.rob.slot hf
    obtain ⟨valid, hnextId, hmore⟩ := h.rob.wf.getNextId_eq .rob hlt
    have hitem : q.getItem e.op.robId = robItemOf (mapAt C done) e := h.rob.item done e rem hf
    have hnextOf : ∀ x rest', rem = x :: rest' →
        (q.rptr + (done.length + 1)) % q.size = x.op.robId := by
      rintro x rest' rfl
      have hf' : flight = (done ++ [e]) ++ x :: rest' := by simp [hf]
      simpa using (h.rob.slot hf').1.symm
    rw [← hslot, ← hid] at hnextId
    rw [← hid] at hitem
    by_cases hfin : ∃ r, e.status = .finished r
    swap
    · -- the instruction is not finished
      have hnot : (robItemOf (mapAt C done) e).finish = false := by
        rw [← Bool.not_eq_true, finish_robItemOf]
        exact hfin
      refine ⟨_, [], e :: rem, .group, ?_, rfl, RetireSpec.stay hc (robItemOf (mapAt C done) e) hstay, ?_⟩
      · simp only [Commit.retireLoop, hc.rob, hitem, hnot]
        rfl
      · rintro - - - x rest' hx r hr
        exact hfin ⟨r, (List.cons.inj hx).1 ▸ hr⟩
    obtain ⟨r, hs⟩ := hfin
    have hfinish : (robItemOf (mapAt C done) e).finish = true := finish_robItemOf.mpr ⟨r, hs⟩
    have hexc : (robItemOf (mapAt C done) e).hasException = r.hasException := by
      rw [robItemOf_finished hs]
      rfl
    have hbruOp : (robItemOf (mapAt C done) e).bruOp = (e.op.opUnit == .bru) := by
      rw [robItemOf_finished hs, ← h.unit e (by rw [hf]; simp) r hs]
      rfl
    cases hx : r.hasException with
    | true =>
      -- an exception: the walk will start at the tail
      obtain ⟨tail, htail⟩ : ∃ tail, ((e :: rem).map (·.op.robId)).getLast? = some tail :=
        ⟨_, List.getLast?_eq_some_getLast (by simp)⟩
      have htailId : q.getTailId = some tail := by
        rw [h.rob.getTailId_eq, hf, List.map_append, List.getLast?_append, htail]
        rfl
      refine ⟨{ c with
        state := { c.state with
          robItem := robItemOf (mapAt C done) e, restoreRobItemId := tail, curState := .flush }
        fb := { c.fb with
          nextHandleRobId := (q.rptr + (done.length + 1)) % q.size
          nextHandleRobIdValid := valid && (q.rptr + (done.length + 1)) % q.size != q.rptr
          committedRobId := c.fb.committedRobId ++ [c.state.robItemId]
          enable := true, flush := true }
        needFlush := true }, [], e :: rem, .exception, ?_, rfl, {
          finished := by simp
          inner := by simp
          group := by simp
          hit := by simp
          jump := by simp
          exception := fun _ => ⟨by simp, e, rem, r, rfl, hs, hx, by simp, hid, htail⟩
          noJump := fun _ _ => hc.jumpEnable
          loop := by simp
          phase := rfl
          enable := rfl
          flush := rfl
          needFlush := rfl
          noException := hc.hasException
          next := by simp
          committed := ⟨[e.op.robId], by simp [hid], by simp, by simp⟩
          rob := hc.rob
          cpb := hc.cpb
          restored := ⟨[], fun _ => rfl, by simp, by simp [retireRatRequests],
            by simp [retireRegRequests]⟩
          csrRequests := by simp
          robRequests := by simp
          cpRequests := by simp
          acks := rfl
          retired := by simp [retiredItems]
          phyFull := rfl }, by simp⟩
      simp only [Commit.retireLoop, hc.rob, hitem, hfinish, hnextId, hexc, hx, Bind.bind, Except.bind,
        htailId]
      rfl
    | false =>
      by_cases hbru : e.op.opUnit = .bru
      · obtain ⟨c', stop, heq, hspec⟩ := retireBranch_spec csr h hc hf hs hx hbru
          (valid && (q.rptr + (done.length + 1)) % q.size != q.rptr) hnextOf
        refine ⟨c', [e], rem, stop, ?_, rfl, hspec, by simp⟩
        rw [← heq, ← hid]
        simp only [Commit.retireLoop, hc.rob, hitem, hfinish, hnextId, hexc, hx, hbruOp, hbru]
        rfl
      · obtain ⟨c₁, hb⟩ : ∃ c₁, c₁ = Commit.retireBase (robItemOf (mapAt C done) e)
          (handleCtx (robItemOf (mapAt C done) e) e.op.robId
            ((q.rptr + (done.length + 1)) % q.size)
            (valid && (q.rptr + (done.length + 1)) % q.size != q.rptr) c) := ⟨_, rfl⟩
        obtain ⟨hspec, hc'⟩ := retirePlain_spec csr h hc hf hs hx hbru _ hnextOf hb
        have hbru' : (e.op.opUnit == .bru) = false := by simpa using hbru
        have hnid : c₁.fb.nextHandleRobId = (q.rptr + (done.length + 1)) % q.size := by
          rw [hb, retireBase_eq hs]
          rfl
        have hstep : Commit.retireLoop csr q.rptr (rounds + 1) c =
            if done.length + 1 < q.count then
              Commit.retireLoop csr q.rptr rounds { c₁ with
                state := { c₁.state with robItemId := (q.rptr + (done.length + 1)) % q.size } }
            else .ok { c₁ with
                state := { c₁.state with robItemId := (q.rptr + (done.length + 1)) % q.size } } := by
          rw [hb, ← hid]
          simp only [Commit.retireLoop, hc.rob, hitem, hfinish, hnextId, hexc, hx, hbruOp, hbru',
            Bind.bind, Except.bind, Bool.not_true, Bool.false_eq_true, if_false]
          simp only [hmore, decide_eq_true_eq]
          simp only [handleCtx]
          rfl
        rw [hstep]
        by_cases hlast : done.length + 1 < q.count
        · obtain ⟨x, rem', rfl⟩ : ∃ x rem', rem = x :: rem' := by
            cases rem with
            | nil =>
              rw [h.rob.count_eq, hf] at hlast
              simp at hlast
            | cons x rem' => exact ⟨x, rem', rfl⟩
          have hxid := hnextOf x rem' rfl
          have hf' : flight = (done ++ [e]) ++ x :: rem' := by simp [hf]
          obtain ⟨c', ret, rest, stop, heq, hsplit, hspec', -⟩ :=
            ih hc' hf' (congrArg some hxid.symm) hnid (by
              rintro y rest' hy
              rw [hnid, hxid, (List.cons.inj hy).1])
          rw [if_pos hlast]
          exact ⟨c', e :: ret, rest, stop, heq, by rw [hsplit]; rfl,
            RetireSpec.cons (hsplit ▸ hspec) hspec', by simp⟩
        · rw [if_neg hlast]
          obtain rfl : rem = [] := by
            rw [h.rob.count_eq, hf] at hlast
            simp only [List.length_append, List.length_cons] at hlast
            exact List.eq_nil_of_length_eq_zero (by omega)
          exact ⟨_, [e], [], .group, rfl, rfl, hspec, by simp⟩

end Loop

/-! ## A cycle of commit in the normal state

Nothing in flight, an interrupt, or the loop. -/

/-- What `commit::run` does in the normal state, with the window `ret ++ rest` of which it retires
`ret`. -/
structure CommitSpec (csr : Csrfile) (ii : InterruptInterface) (q : Fifo RobItem)
    (cpb : Fifo Checkpoint) (C : Nat → Nat) (port : List ExecuteWbPack) (perf : PerfCounters)
    (cm : Commit.Ctx) (ret rest : List Entry) (stop : Stop) : Prop where
  finished : ∀ e ∈ ret, ∃ r, e.status = .finished r ∧ r.hasException = false
  inner : ∀ pre e post, ret = pre ++ e :: post → e.op.opUnit = .bru → post = []
  group : stop = .group ∨ stop = .exception → ∀ e ∈ ret, e.op.opUnit ≠ .bru
  hit : stop = .hit → ∃ e r, JumpLast ret e r ∧ e.op.predicted = true ∧
    r.bruJump = e.op.predictedJump ∧
    (r.bruNextPc = e.op.predictedNextPc ∨ e.op.predictedJump = false)
  jump : stop = .jump ∨ stop = .miss → ∃ e r, JumpLast ret e r ∧
    e.op.predicted = (stop = .miss : Bool) ∧ cm.fb.jumpEnable = true ∧ cm.fb.jump = r.bruJump ∧
    cm.fb.nextPc = if r.bruJump then r.bruNextPc else e.op.pc + 4
  exception : stop = .exception → ∃ e rest' r, rest = e :: rest' ∧
    e.status = .finished r ∧ r.hasException = true ∧ cm.state.robItem = robItemOf (mapAt C ret) e
  interrupt : stop = .interrupt → ret = [] ∧ (∃ cause, ii.getCause csr = .ok (some cause) ∧
    cm.state.interruptId = cause) ∧ ∃ e rest', rest = e :: rest' ∧ cm.state.interruptPc = e.op.pc
  trap : stop = .exception ∨ stop = .interrupt →
    (rest.map (·.op.robId)).head? = some cm.state.robItemId ∧
    (rest.map (·.op.robId)).getLast? = some cm.state.restoreRobItemId
  quiet : stop ≠ .interrupt → ret ++ rest ≠ [] → ii.getCause csr = .ok none
  stuck : ret = [] → stop = .group → ∀ e rest', rest = e :: rest' → ∀ r, e.status ≠ .finished r
  noJump : stop ≠ .jump → stop ≠ .miss → cm.fb.jumpEnable = false
  phase : cm.state.curState = match stop with
    | .exception => .flush
    | .interrupt => .interruptFlush
    | _ => .normal
  enable : cm.fb.enable = !(ret ++ rest).isEmpty
  flushing : cm.fb.flushing = !stop.flows
  noException : cm.fb.hasException = false
  next : stop.flows = true → ∀ e rest', rest = e :: rest' → cm.fb.nextHandleRobId = e.op.robId
  committed : ∃ extra, cm.fb.committedRobId = ret.map (·.op.robId) ++ extra ∧
    (stop ≠ .exception → extra = []) ∧ ∀ id ∈ extra, (rest.map (·.op.robId)).head? = some id
  rob : cm.rob.fifo = if stop = .miss then q.flush else q
  cpb : cm.checkpointBuffer = if stop = .miss then cpb.flush else cpb
  restored : ∃ cps, (stop ≠ .miss → cps = []) ∧
    (stop = .miss → ∃ cp, cps = [cp] ∧ CleanOk cp (mapAt C ret)) ∧
    cm.ratRequests = retireRatRequests C ret ++ cps.map .restore ∧
    cm.regRequests = retireRegRequests C ret ++ cps.map .restore
  csrRequests : cm.csrRequests = ret.flatMap (retireCsrRequests csr)
  robRequests : cm.robRequests = List.replicate ret.length .pop ++
    if stop.flows then Commit.finishRequests q port else []
  cpRequests : cm.cpRequests = if stop = .hit then [.pop] else []
  acks : cm.acks = []
  retired : cm.retired = retiredItems C ret
  phyFull : cm.perf.phyRegfileFull = perf.phyRegfileFull

/-- Reading the pending cause does not abort. -/
theorem InterruptInterface.getCause_ok (ii : InterruptInterface) (csr : Csrfile) :
    ∃ cause, ii.getCause csr = .ok cause := by
  refine ⟨if !getMie (csr.value csrMstatus) then none
    else if ii.meip && getMeie (csr.value csrMie) then some .machineExternal
    else if ii.msip && getMsie (csr.value csrMie) then some .machineSoftware
    else if ii.mtip && getMtie (csr.value csrMie) then some .machineTimer
    else none, ?_⟩
  have hmie : csr.readSys csrMie = .ok (csr.value csrMie) := rfl
  have hmstatus : csr.readSys csrMstatus = .ok (csr.value csrMstatus) := rfl
  simp only [getCause, hmie, hmstatus, Bind.bind, Except.bind]
  split_ifs <;> rfl

/-- In the normal state commit does not abort, and retires a prefix of the window. -/
theorem commit_normal_spec {q : Fifo RobItem} {cpb : Fifo Checkpoint} {C : Nat → Nat}
    {flight : List Entry} (h : RetireHyp q cpb C flight) (csr : Csrfile) (ii : InterruptInterface)
    (port : List ExecuteWbPack) {state : CommitState} (hstate : state.curState = .normal)
    {rob : Rob} (hq : rob.fifo = q) (predictor : BranchPredictor) (perf : PerfCounters) :
    ∃ cm ret rest stop, Commit.run csr ii port state rob cpb predictor perf = .ok cm ∧
      flight = ret ++ rest ∧ CommitSpec csr ii q cpb C port perf cm ret rest stop := by
  subst hq
  unfold Commit.run
  simp only [hstate, if_true]
  unfold Commit.runNormal
  have hfront := h.rob.getFrontId_eq
  have htail := h.rob.getTailId_eq
  cases flight with
  | nil =>
    -- nothing in flight: no request at all
    simp only [hfront, List.map_nil, List.head?_nil]
    exact ⟨_, [], [], .group, rfl, rfl, {
      finished := by simp
      inner := by simp
      group := by simp
      hit := by simp
      jump := by simp
      exception := by simp
      interrupt := by simp
      trap := by simp
      quiet := by simp
      stuck := by simp
      noJump := fun _ _ => rfl
      phase := hstate
      enable := rfl
      flushing := rfl
      noException := rfl
      next := by simp
      committed := ⟨[], rfl, fun _ => rfl, by simp⟩
      rob := rfl
      cpb := rfl
      restored := ⟨[], fun _ => rfl, by simp, rfl, rfl⟩
      csrRequests := rfl
      robRequests := by simp [Stop.flows]
      cpRequests := rfl
      acks := rfl
      retired := rfl
      phyFull := rfl }⟩
  | cons e flight =>
    have hitem : rob.fifo.getItem e.op.robId = robItemOf C e := h.rob.item [] e flight rfl
    obtain ⟨tail, htail'⟩ : ∃ tail, ((e :: flight).map (·.op.robId)).getLast? = some tail :=
      ⟨_, List.getLast?_eq_some_getLast (by simp)⟩
    rw [htail'] at htail
    obtain ⟨cause, hcause⟩ := ii.getCause_ok csr
    simp only [hfront, List.map_cons, List.head?_cons, hcause]
    cases cause with
    | some cause =>
      -- an interrupt: nothing retires, the walk will start at the tail
      simp only [htail]
      exact ⟨_, [], e :: flight, .interrupt, rfl, rfl, {
        finished := by simp
        inner := by simp
        group := by simp
        hit := by simp
        jump := by simp
        exception := by simp
        interrupt := fun _ => ⟨rfl, ⟨cause, hcause, rfl⟩, e, flight, rfl, by rw [hitem, robItemOf_pc]⟩
        trap := fun _ => ⟨rfl, htail'⟩
        quiet := by simp
        stuck := by simp
        noJump := fun _ _ => rfl
        phase := rfl
        enable := rfl
        flushing := rfl
        noException := rfl
        next := by simp [Stop.flows]
        committed := ⟨[], rfl, fun _ => rfl, by simp⟩
        rob := rfl
        cpb := rfl
        restored := ⟨[], fun _ => rfl, by simp, rfl, rfl⟩
        csrRequests := rfl
        robRequests := rfl
        cpRequests := rfl
        acks := rfl
        retired := rfl
        phyFull := rfl }⟩
    | none =>
      -- the loop, from the oldest instruction on
      have hrptr : e.op.robId = rob.fifo.rptr := by
        have := (h.rob.slot (List.nil_append _).symm).1
        simpa [Nat.mod_eq_of_lt h.rob.wf.rptr_lt] using this
      obtain ⟨c, hc⟩ : ∃ c : Commit.Ctx, c = {
          state := { state with robItemId := e.op.robId, robItem := rob.fifo.getItem e.op.robId }
          rob := rob, checkpointBuffer := cpb, predictor := predictor, perf := perf
          fb := { (default : CommitFeedbackPack) with
            enable := true, nextHandleRobId := e.op.robId, nextHandleRobIdValid := true }
          needFlush := false, robRequests := [], ratRequests := [], regRequests := []
          csrRequests := [], cpRequests := [], acks := [], retired := [] } := ⟨_, rfl⟩
      have hloop : LoopCtx rob.fifo cpb c := by
        subst hc
        exact ⟨rfl, rfl, hstate, rfl, rfl, rfl, rfl, rfl⟩
      obtain ⟨c', ret, rest, stop, heq, hsplit, hspec, hstuck⟩ := retireLoop_spec csr h commitWidth hloop
        (List.nil_append _).symm (by rw [hc]; rfl) (by rw [hc])
      rw [← hrptr, hc] at heq
      simp only [heq, Bind.bind, Except.bind]
      -- the results of write-back are taken unless the cycle flushes
      have hflows : c'.needFlush = !stop.flows := by
        rw [hspec.needFlush, hspec.flush]
        cases stop <;> first | rfl | exact absurd rfl hspec.loop
      obtain ⟨extra, hcom, hextra, hextra'⟩ := hspec.committed
      obtain ⟨cps, hcps, hcps', hrat, hreg⟩ := hspec.restored
      have hfin : ∃ cm : Commit.Ctx, (if (!c'.needFlush) = true then
            (pure { c' with
              robRequests := c'.robRequests ++ Commit.finishRequests c'.rob.fifo port } :
              Except Halt Commit.Ctx)
          else pure c') = .ok cm ∧ cm = { c' with
            robRequests := c'.robRequests ++
              if stop.flows then Commit.finishRequests rob.fifo port else [] } := by
        refine ⟨_, ?_, rfl⟩
        cases hst : stop.flows with
        | true =>
          have hne : stop ≠ .miss := by
            rintro rfl
            simp [Stop.flows] at hst
          rw [if_pos (by simp [hflows, hst]), hspec.rob, if_neg hne]
          rfl
        | false =>
          rw [if_neg (by simp [hflows, hst])]
          simp [pure, Except.pure]
      obtain ⟨cm, hcm, hcm'⟩ := hfin
      refine ⟨cm, ret, rest, stop, hcm, hsplit, ?_⟩
      subst hcm'
      exact {
        finished := hspec.finished
        inner := hspec.inner
        group := by
          rintro (hst | hst)
          · exact hspec.group hst
          · exact (hspec.exception hst).1
        hit := hspec.hit
        jump := hspec.jump
        exception := fun hst => by
          obtain ⟨-, x, rest', r, h1, h2, h3, h4, -⟩ := hspec.exception hst
          exact ⟨x, rest', r, h1, h2, h3, h4⟩
        interrupt := fun hst => absurd hst hspec.loop
        trap := by
          rintro (hst | hst)
          · obtain ⟨-, x, rest', r, h1, -, -, -, h5, h6⟩ := hspec.exception hst
            exact ⟨by rw [h1, h5]; rfl, h6⟩
          · exact absurd hst hspec.loop
        quiet := fun _ _ => hcause
        stuck := hstuck (by decide)
        noJump := hspec.noJump
        phase := by
          rw [show ({ c' with robRequests := _ } : Commit.Ctx).state = c'.state from rfl, hspec.phase]
          cases stop <;> first | rfl | exact absurd rfl hspec.loop
        enable := by rw [← hsplit]; exact hspec.enable
        flushing := by
          unfold CommitFeedbackPack.flushing
          rw [← hflows, hspec.needFlush, hspec.enable]
          rfl
        noException := hspec.noException
        next := fun hst => hspec.next (by rintro rfl; simp [Stop.flows] at hst)
        committed := ⟨extra, by rw [hcom, hc]; rfl, hextra, hextra'⟩
        rob := hspec.rob
        cpb := hspec.cpb
        restored := ⟨cps, hcps, hcps', by rw [hrat, hc]; rfl, by rw [hreg, hc]; rfl⟩
        csrRequests := by rw [hspec.csrRequests, hc]; rfl
        robRequests := by rw [hspec.robRequests, hc]; rfl
        cpRequests := by rw [hspec.cpRequests, hc]; rfl
        acks := by rw [hspec.acks, hc]
        retired := by rw [hspec.retired, hc]; rfl
        phyFull := by rw [hspec.phyFull, hc] }

end MyRiscvCore
