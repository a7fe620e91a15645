import MyRiscvCore.Pipeline.HistoryFacts
import MyRiscvCore.Properties.Renaming

/-!
# MyRiscvCore — the checkpoints of the predicted jumps

Fetch pushes a checkpoint for every jump it predicts. What the ring is for is the link from a jump to its
entry, and that link holds (`checkpoint_association`): the jumps in the machine name distinct valid entries, the
entry a jump names is the one pushed in the cycle of its fetch, and it stays as it is until the jump leaves the
machine, apart from the register map that rename fills in.

The ring also is a resource. A trap discards the jumps in the machine and leaves their entries behind; only a
mispredicted jump empties the ring (`checkpoint_leak`).
-/

namespace MyRiscvCore

/-- How many instructions are in the machine. -/
def Machine.occupancy (m : Machine) : Nat := m.rob.fifo.toList.length + (frontPacks m).length

/-- The cycles in which the instructions in the machine were fetched, oldest first. An instruction leaves at the
front when it retires, a flush discards all of them, and what is there in addition after a cycle was fetched in
it. -/
def fetchCycles (env : Env) : Nat → List Nat
  | 0 => []
  | n + 1 =>
    match run env n with
    | .error _ => []
    | .ok (m, _) =>
      match cycle env n m with
      | .error _ => []
      | .ok (m', log) =>
        if log.fb.flushing then []
        else
          let left := (fetchCycles env n).drop log.retired.length
          left ++ List.replicate (m'.occupancy - left.length) n

/-- How a cycle changes the list. -/
theorem fetchCycles_succ {env : Env} {n : Nat} {m m' : Machine} {logs : List CycleLog} {log : CycleLog}
    (h : run env n = .ok (m, logs)) (hc : cycle env n m = .ok (m', log)) :
    fetchCycles env (n + 1) = if log.fb.flushing then []
      else (fetchCycles env n).drop log.retired.length ++
        List.replicate (m'.occupancy - ((fetchCycles env n).drop log.retired.length).length) n := by
  simp only [fetchCycles, h, hc]

/-- `x` was fetched in cycle `j`, whose stages left `s`. -/
structure FetchedIn (env : Env) (j : Nat) (s : Stages) (x : DecodeRenamePack) : Prop where
  ran : ∃ m logs, run env j = .ok (m, logs) ∧ s.Ran env j m
  pushed : ∃ p new, s.ft.fifo.toList = s.dc.1.1.toList ++ new ∧ p ∈ new ∧ x = Decode.decodePack p

/-- The jump `x` was predicted in the cycle that left `s`, and `cp` keeps the histories of that prediction. -/
structure PredictedIn (s : Stages) (x : DecodeRenamePack) (cp : Checkpoint) : Prop where
  id : x.checkpointId = s.cm.checkpointBuffer.wptr
  answer : (s.ex.predictor.getPrediction x.pc x.value).answer = some (x.predictedJump, x.predictedNextPc)
  saves : Saves s.ex.predictor x.pc cp

/-- Where `x` comes from, given the checkpoint buffer. -/
def Origin (env : Env) (q : Fifo Checkpoint) (x : DecodeRenamePack) (j : Nat) : Prop :=
  ∃ s, FetchedIn env j s x ∧ (x.predicted = true → PredictedIn s x (q.buffer x.checkpointId))

/-- The origins of a list of instructions. -/
structure Origins (env : Env) (q : Fifo Checkpoint) (path : List DecodeRenamePack) (cycles : List Nat) : Prop where
  length : cycles.length = path.length
  origin : ∀ (i : Nat) (x : DecodeRenamePack), path[i]? = some x → ∃ j, cycles[i]? = some j ∧ Origin env q x j

/-- One cycle: the retired leave, the fetched join. -/
theorem Origins.step {env : Env} {q q' : Fifo Checkpoint} {path new : List DecodeRenamePack} {cycles : List Nat}
    {k n : Nat} (h : Origins env q path cycles)
    (hkeep : ∀ x ∈ path.drop k, x.predicted = true →
      SameHistories (q'.buffer x.checkpointId) (q.buffer x.checkpointId))
    (hnew : ∀ x ∈ new, Origin env q' x n) :
    Origins env q' (path.drop k ++ new) (cycles.drop k ++ List.replicate new.length n) where
  length := by simp [h.length]
  origin := by
    have hlen : (cycles.drop k).length = (path.drop k).length := by simp [h.length]
    intro i x hx
    rw [List.getElem?_append] at hx ⊢
    rw [hlen]
    split at hx
    next hi =>
      rw [if_pos hi]
      have hmem := List.mem_of_getElem? hx
      rw [List.getElem?_drop] at hx ⊢
      obtain ⟨j, hj, s, hfetched, hpred⟩ := h.origin _ x hx
      refine ⟨j, hj, s, hfetched, fun hp => ?_⟩
      obtain ⟨hid, hanswer, hsaves⟩ := hpred hp
      exact ⟨hid, hanswer, hsaves.congr (hkeep x hmem hp)⟩
    next hi =>
      rw [if_neg hi]
      obtain ⟨hlt, -⟩ := List.getElem?_eq_some_iff.mp hx
      exact ⟨n, List.getElem?_replicate_of_lt hlt, hnew x (List.mem_of_getElem? hx)⟩

section Sync

variable {q q₀ : Fifo Checkpoint} {requests : List (Fifo.Request Checkpoint)} {id : Nat}

/-- Entries that no request names stay. -/
theorem Fifo.buffer_sync (h : ∀ r ∈ requests, ∀ id' cp, r = .setItem id' cp → id' ≠ id) :
    (q.sync requests).buffer id = q.buffer id := by
  induction requests generalizing q with
  | nil => rfl
  | cons r requests ih =>
    refine (ih (q := q.apply r) fun r' hr' => h r' (List.mem_cons_of_mem _ hr')).trans ?_
    cases r with
    | pop => exact congrFun q.buffer_drop1 id
    | setItem id' cp => exact Function.update_of_ne (h _ List.mem_cons_self id' cp rfl).symm ..

/-- Entries keep their histories if the requests do. -/
theorem Fifo.histories_sync
    (h : ∀ r ∈ requests, ∀ id' cp, r = .setItem id' cp → SameHistories cp (q₀.buffer id'))
    (hq : SameHistories (q.buffer id) (q₀.buffer id)) :
    SameHistories ((q.sync requests).buffer id) (q₀.buffer id) := by
  induction requests generalizing q with
  | nil => exact hq
  | cons r requests ih =>
    refine ih (q := q.apply r) (fun r' hr' => h r' (List.mem_cons_of_mem _ hr')) ?_
    cases r with
    | pop =>
      rw [show (q.apply .pop).buffer = q.buffer from q.buffer_drop1]
      exact hq
    | setItem id' cp =>
      show SameHistories (Function.update q.buffer id' cp id) (q₀.buffer id)
      by_cases hid : id = id'
      · rw [hid, Function.update_self]
        exact h _ List.mem_cons_self id' cp rfl
      · rwa [Function.update_of_ne hid]

end Sync

section Flow

variable {env : Env} {n : Nat} {m : Machine} {w : Window} {s : Stages} {u : Updates}

namespace FlowStages

theorem checkpointBuffer_eq (f : FlowStages env n m w s) : s.cm.checkpointBuffer = m.checkpointBuffer := by
  rw [f.commit.cpb, if_neg (Stop.flows_ne f.flows).1]

theorem retired_length (f : FlowStages env n m w s) : s.cm.retired.length = f.ret.length := by
  rw [f.commit.retired, length_retiredItems]

/-- What retires leaves the path at its front. -/
theorem drop_inFlight (f : FlowStages env n m w s) : (inFlight m w).drop s.cm.retired.length =
    f.rest.map (·.op.toDecodeRenamePack) ++ frontPacks m := by
  rw [f.inFlight_before, f.retired_length]
  exact List.drop_left' (List.length_map ..)

/-- The path after the cycle. -/
theorem inFlight_step (f : FlowStages env n m w s) (h : Normal m w) :
    inFlight (s.machine env n m u) (w.step (s.log env n m u)) =
      (inFlight m w).drop s.cm.retired.length ++ f.fetched.map Decode.decodePack := by
  rw [f.drop_inFlight, f.inFlight_after h]

/-- Only the checkpoints of the jumps that are renamed are updated, and not their histories. -/
theorem cpRequests_cases (f : FlowStages env n m w s) :
    ∀ r ∈ s.cm.cpRequests ++ s.rn.cpRequests, ∀ id cp, r = .setItem id cp →
      SameHistories cp (m.checkpointBuffer.buffer id) ∧ id ∈ cpIds (f.news.map (·.op.toDecodeRenamePack)) := by
  rintro r hr id cp rfl
  rw [f.commit.cpRequests] at hr
  obtain hr | hr := List.mem_append.mp hr
  · split at hr <;> simp at hr
  · obtain ⟨id', cp', heq, hsame⟩ := Rename.run_histories f.ran.rename _ hr
    rw [f.checkpointBuffer_eq] at hsame
    cases heq
    refine ⟨hsame, ?_⟩
    obtain ⟨_, hg⟩ := f.group
    obtain ⟨cps, hcpr, hcps, -⟩ := hg.cps
    rw [hcpr] at hr
    obtain ⟨x, hx, heq⟩ := List.mem_map.mp hr
    cases heq
    have hkey : x.1 ∈ cps.map (·.1) := List.mem_map_of_mem hx
    rw [hcps] at hkey
    rw [cpIds, List.filter_map, List.map_map]
    exact hkey

/-- The checkpoint ids of what stays in the machine, with those of the fetched jumps. -/
theorem nodup_cpIds (f : FlowStages env n m w s) (h : Normal m w) :
    (cpIds (f.rest.map (·.op.toDecodeRenamePack)) ++ (cpIds (frontPacks m) ++
      cpIds (f.fetched.map Decode.decodePack))).Nodup ∧
    cpIds (f.rest.map (·.op.toDecodeRenamePack)) ++ cpIds (frontPacks m) ⊆ m.checkpointBuffer.ids := by
  obtain ⟨xs, hgrown⟩ := f.fetch.cps
  have hids := f.fetch.ids
  dsimp only at hgrown hids
  rw [f.checkpointBuffer_eq, ← cpIds_decode] at hids
  have hsuf : cpIds (inFlight m w) <:+ m.checkpointBuffer.ids := h.cp.suffix
  rw [f.inFlight_before, cpIds_append, cpIds_append] at hsuf
  have hsub := (List.sublist_append_right _ _).trans hsuf.sublist
  refine ⟨?_, hsub.subset⟩
  have hnd := hgrown.wf.nodup_ids
  rw [hids] at hnd
  rw [← List.append_assoc]
  exact hnd.sublist (hsub.append (List.Sublist.refl _))

/-- The renamed jumps come from the front. -/
theorem news_subset (f : FlowStages env n m w s) :
    cpIds (f.news.map (·.op.toDecodeRenamePack)) ⊆ cpIds (frontPacks m) := by
  have hpacks := f.rename.packs
  rw [Fifo.toList_resetPopStatus] at hpacks
  rw [frontPacks, hpacks, List.append_assoc, cpIds_append]
  exact List.subset_append_left ..

/-- The entries of the jumps that stay in the machine keep their histories. -/
theorem histories_kept (f : FlowStages env n m w s) (h : Normal m w) {x : DecodeRenamePack}
    (hx : x ∈ f.rest.map (·.op.toDecodeRenamePack) ++ frontPacks m) (hp : x.predicted = true) :
    SameHistories ((s.machine env n m u).checkpointBuffer.buffer x.checkpointId)
      (m.checkpointBuffer.buffer x.checkpointId) := by
  obtain ⟨xs, hgrown⟩ := f.fetch.cps
  dsimp only at hgrown
  rw [f.checkpointBuffer_eq] at hgrown
  refine Fifo.histories_sync (fun r hr id cp heq => (f.cpRequests_cases r hr id cp heq).1) ?_
  rw [hgrown.old _ ((f.nodup_cpIds h).2 (by rw [← cpIds_append]; exact mem_cpIds hx hp))]
  exact ⟨rfl, rfl⟩

/-- The entries of the jumps that were renamed before stay as they are. -/
theorem checkpoint_kept (f : FlowStages env n m w s) (h : Normal m w) {e : Entry} (he : e ∈ f.rest)
    (hp : e.op.predicted = true) : (s.machine env n m u).checkpointBuffer.buffer e.op.checkpointId =
      m.checkpointBuffer.buffer e.op.checkpointId := by
  obtain ⟨xs, hgrown⟩ := f.fetch.cps
  dsimp only at hgrown
  rw [f.checkpointBuffer_eq] at hgrown
  obtain ⟨hnd, hsub⟩ := f.nodup_cpIds h
  have hmem : e.op.checkpointId ∈ cpIds (f.rest.map (·.op.toDecodeRenamePack)) :=
    mem_cpIds (List.mem_map_of_mem he) hp
  refine (Fifo.buffer_sync fun r hr id cp heq hid => ?_).trans
    (hgrown.old _ (hsub (List.mem_append_left _ hmem)))
  have hnews := f.news_subset (f.cpRequests_cases r hr id cp heq).2
  exact (List.nodup_append.mp hnd).2.2 _ hmem id (List.mem_append_left _ hnews) hid.symm

/-- The entry of a fetched jump is the one that fetch pushed. -/
theorem checkpoint_new (f : FlowStages env n m w s) (h : Normal m w) {x : DecodeRenamePack}
    (hx : x ∈ f.fetched.map Decode.decodePack) (hp : x.predicted = true) :
    (s.machine env n m u).checkpointBuffer.buffer x.checkpointId =
      s.ft.checkpointBuffer.buffer x.checkpointId := by
  refine Fifo.buffer_sync fun r hr id cp heq hid => ?_
  have hnd := (List.nodup_append.mp (f.nodup_cpIds h).1).2.1
  exact (List.nodup_append.mp hnd).2.2 id (f.news_subset (f.cpRequests_cases r hr id cp heq).2) _
    (mem_cpIds hx hp) hid

/-- What a cycle fetches comes from it. -/
theorem origin_fetched (f : FlowStages env n m w s) (h : Normal m w) {logs : List CycleLog}
    (hrun : run env n = .ok (m, logs)) {x : DecodeRenamePack} (hx : x ∈ f.fetched.map Decode.decodePack) :
    Origin env (s.machine env n m u).checkpointBuffer x n := by
  obtain ⟨p, hp, rfl⟩ := List.mem_map.mp hx
  refine ⟨s, ⟨⟨m, logs, hrun, f.ran⟩, p, f.fetched, f.fetch.list, hp, rfl⟩, fun hpred => ?_⟩
  obtain ⟨new, hlist, hnew⟩ := Fetch.run_predicted f.flushing f.decode.fetchDecode f.ran.fetch
  obtain rfl : new = f.fetched := List.append_cancel_left (hlist.symm.trans f.fetch.list)
  obtain ⟨hid, hsaves, hanswer⟩ := hnew p hp hpred
  rw [f.checkpoint_new h hx hpred]
  exact ⟨hid, by rw [decodePack_pc]; exact hanswer, by rw [decodePack_pc]; exact hsaves⟩

/-- A cycle without a flush keeps the origins. -/
theorem origins (f : FlowStages env n m w s) (h : Normal m w) {logs : List CycleLog}
    (hrun : run env n = .ok (m, logs)) (ho : Origins env m.checkpointBuffer (inFlight m w) (fetchCycles env n))
    (hu : s.Synced env n m u) :
    Origins env (s.machine env n m u).checkpointBuffer
      (inFlight (s.machine env n m u) (w.step (s.log env n m u))) (fetchCycles env (n + 1)) := by
  have hnormal := f.normal h hu
  have hcycles : fetchCycles env (n + 1) = (fetchCycles env n).drop s.cm.retired.length ++
      List.replicate (f.fetched.map Decode.decodePack).length n := by
    have hocc : (s.machine env n m u).occupancy =
        (inFlight (s.machine env n m u) (w.step (s.log env n m u))).length := by
      rw [Machine.occupancy, inFlight, List.length_append, List.length_map, Fifo.length_toList,
        hnormal.rob.count_eq]
    rw [fetchCycles_succ hrun (cycle_ok_iff.mpr ⟨s, u, f.ran, hu, rfl, rfl⟩), if_neg]
    · show _ ++ List.replicate (_ - ((fetchCycles env n).drop s.cm.retired.length).length) n = _
      rw [hocc, f.inFlight_step h, List.length_append, List.length_drop, List.length_drop, ho.length,
        Nat.add_sub_cancel_left]
      rfl
    · show ¬ s.cm.fb.flushing = true
      rw [f.flushing]
      exact Bool.false_ne_true
  rw [f.inFlight_step h, hcycles]
  refine ho.step (fun x hx hp => ?_) fun x hx => f.origin_fetched h hrun hx
  rw [f.drop_inFlight] at hx
  exact f.histories_kept h hx hp

end FlowStages

end Flow

/-! ## Over a whole run

The buffer holds the checkpoints of the jumps in the machine, each from the cycle of its fetch. -/

section Run

variable {env : Env} {n : Nat} {m m' : Machine} {logs : List CycleLog} {log : CycleLog} {w : Window} {s : Stages}
  {u : Updates}

/-- After a cycle that flushes, nothing is in the machine, unless a trap is being walked back. -/
theorem CycleCase.flushed (h : CycleCase env n m w s) (hu : s.Synced env n m u) (hflush : s.cm.fb.flushing = true)
    (hphase : (s.machine env n m u).commit.curState = .normal) :
    inFlight (s.machine env n m u) (w.step (s.log env n m u)) = [] := by
  cases h with
  | flow h f => exact absurd (f.flushing.symm.trans hflush) Bool.false_ne_true
  | flush h g =>
    by_cases hst : g.stop = .miss
    · rw [g.stages.inFlight_after, g.step_eq h (g.updated h hu)]
      show g.kept.map _ = []
      rw [NormalFlush.kept, if_pos hst, List.map_nil]
    · exact absurd hphase (g.trap h hu hst).phase
  | walk v h =>
    by_cases hpre : v.pre = []
    · rw [v.stages.inFlight_after, v.step_last h (v.updated h hu) hpre]
      rfl
    · exact absurd hphase (v.step h hu hpre).phase

theorem fetchCycles_flushed (h : run env n = .ok (m, logs)) (hc : cycle env n m = .ok (m', log))
    (hflush : log.fb.flushing = true) : fetchCycles env (n + 1) = [] := by
  rw [fetchCycles_succ h hc, if_pos hflush]

/-- The origins of the instructions in the machine. -/
theorem run_origins (h : run env n = .ok (m, logs)) : m.commit.curState = .normal →
    Origins env m.checkpointBuffer (inFlight m (Window.after env logs)) (fetchCycles env n) := by
  have hnil (q : Fifo Checkpoint) : Origins env q [] [] := ⟨rfl, by simp⟩
  refine (run_induction (P := fun n m logs => m.commit.curState = .normal →
    Origins env m.checkpointBuffer (inFlight m (Window.after env logs)) (fetchCycles env n))
    (fun m hreset _ _ => ?_) (fun n m logs s u hrun hP hcase hu hphase => ?_) h).2
  · rw [show Window.after env [] = Window.init env from rfl, reset_inFlight hreset]
    exact hnil _
  · rw [Window.after_snoc]
    cases hflush : s.cm.fb.flushing with
    | true =>
      rw [hcase.flushed hu hflush hphase, fetchCycles_flushed hrun
        (cycle_ok_iff.mpr ⟨s, u, hcase.ran, hu, rfl, rfl⟩) hflush]
      exact hnil _
    | false =>
      cases hcase with
      | flow h f => exact f.origins h hrun (hP h.phase) hu
      | flush h g => exact absurd (hflush.symm.trans g.stages.flushing) Bool.false_ne_true
      | walk v h => exact absurd (hflush.symm.trans v.stages.flushing) Bool.false_ne_true

/-- The jumps in the machine name distinct valid entries. The entry a jump names is the one pushed for it in the
cycle of its fetch, with the histories of its prediction, and once the jump is renamed it holds the registers
mapped right after it. While the jump stays in the machine, its entry is not popped and only rename writes it. -/
theorem checkpoint_association (h : run env n = .ok (m, logs)) (hphase : m.commit.curState = .normal) :
    (cpIds (inFlight m (Window.after env logs))).Nodup ∧
    (∀ id ∈ cpIds (inFlight m (Window.after env logs)), m.checkpointBuffer.checkIdValid id = true) ∧
    (∀ (i : Nat) (x : DecodeRenamePack), (inFlight m (Window.after env logs))[i]? = some x → x.predicted = true →
      ∃ j s, (fetchCycles env n)[i]? = some j ∧ FetchedIn env j s x ∧
        PredictedIn s x (m.checkpointBuffer.getItem x.checkpointId)) ∧
    (∀ pre e post, (Window.after env logs).flight = pre ++ e :: post → e.op.predicted = true →
      ∀ p, (m.checkpointBuffer.getItem e.op.checkpointId).ratPhyMapTableVisible p = true ↔
        p ∈ mapAt (Window.after env logs).cmap (pre ++ [e]) '' archRegs) ∧
    ∀ m' log, cycle env n m = .ok (m', log) → log.fb.flushing = false →
      (∀ x ∈ (inFlight m (Window.after env logs)).drop log.retired.length, x.predicted = true →
        m'.checkpointBuffer.checkIdValid x.checkpointId = true ∧
        SameHistories (m'.checkpointBuffer.getItem x.checkpointId) (m.checkpointBuffer.getItem x.checkpointId)) ∧
      ∀ e ∈ (Window.after env logs).flight.drop log.retired.length, e.op.predicted = true →
        m'.checkpointBuffer.getItem e.op.checkpointId = m.checkpointBuffer.getItem e.op.checkpointId := by
  have hnormal : Normal m (Window.after env logs) :=
    (run_refines h).resolve_right fun ⟨j, hw⟩ => hw.phase hphase
  have hsuf : cpIds (inFlight m (Window.after env logs)) <:+ m.checkpointBuffer.ids := hnormal.cp.suffix
  refine ⟨hnormal.cp.wf.nodup_ids.sublist hsuf.sublist,
    fun id hid => (Fifo.checkIdValid_iff hnormal.cp.wf id).mpr (hsuf.subset hid), fun i x hx hp => ?_,
    fun pre e post hf hp p => ?_, fun m' log hc hflush => ?_⟩
  · obtain ⟨j, hj, s, hfetched, hpred⟩ := (run_origins h hphase).origin i x hx
    exact ⟨j, s, hj, hfetched, hpred hp⟩
  · rw [mapAt_append]
    exact (hnormal.cp.item pre e post hf hp).visible_iff p
  · obtain ⟨s, u, hcase, hu, rfl, rfl⟩ := (run_refines h).cycle_ok hc
    cases hcase with
    | flush h g => exact absurd (hflush.symm.trans g.stages.flushing) Bool.false_ne_true
    | walk v h => exact absurd (hflush.symm.trans v.stages.flushing) Bool.false_ne_true
    -- without a flush only rename writes to the buffer, for what it renames
    | flow h f =>
      have hafter := f.normal h hu
      refine ⟨fun x hx hp => ⟨?_, ?_⟩, fun e he hp => f.checkpoint_kept h ?_ hp⟩
      · refine (Fifo.checkIdValid_iff hafter.cp.wf _).mpr (hafter.cp.suffix.subset (mem_cpIds ?_ hp))
        show x ∈ inFlight (s.machine env n m u) _
        rw [f.inFlight_step h]
        exact List.mem_append_left _ hx
      · rw [show (s.log env n m u).retired = s.cm.retired from rfl, f.drop_inFlight] at hx
        exact f.histories_kept h hx hp
      · rwa [show (s.log env n m u).retired = s.cm.retired from rfl, f.retired_length, f.flight,
          List.drop_left' rfl] at he

/-- A branch over a `fence.i` that is predicted wrong. -/
def branchOnly : List Word := [0x00000463, 0x0000100f, 0x0000100f]

/-- While the branch is in flight. -/
theorem checkpoint_association_branchOnly : ∃ m logs, run (Env.ofProgram branchOnly) 8 = .ok (m, logs) ∧
    m.commit.curState = .normal ∧ cpIds (inFlight m (Window.after (Env.ofProgram branchOnly) logs)) = [0] ∧
    m.checkpointBuffer.checkIdValid 0 = true := by
  obtain ⟨m, logs, h, hP⟩ := exists_run_of (show endsWith (fun m logs => m.commit.curState == .normal &&
    cpIds (inFlight m (Window.after (Env.ofProgram branchOnly) logs)) == [0])
    (run (Env.ofProgram branchOnly) 8) = true by decide +kernel)
  simp only [Bool.and_eq_true, beq_iff_eq] at hP
  refine ⟨m, logs, h, hP.1, hP.2, (checkpoint_association h hP.1).2.1 0 ?_⟩
  rw [hP.2]
  exact List.mem_singleton_self 0

/-! ## Entries left behind

A trap pops none of the checkpoints of what it discards. -/

/-- How many entries of the checkpoint buffer belong to no instruction: a trap leaves those of the jumps that it
discards, and a mispredicted jump empties the buffer. -/
def leaked (env : Env) : Nat → Nat
  | 0 => 0
  | n + 1 =>
    match run env n with
    | .error _ => 0
    | .ok (m, logs) =>
      match cycle env n m with
      | .error _ => 0
      | .ok (_, log) =>
        if log.phaseBefore = .normal ∧ log.fb.flushing = true then
          if log.phaseAfter = .normal then 0
          else leaked env n + (cpIds (inFlight m (Window.after env logs))).length
        else leaked env n

/-- How a cycle changes the count. -/
theorem leaked_succ (h : run env n = .ok (m, logs)) (hc : cycle env n m = .ok (m', log)) :
    leaked env (n + 1) = if log.phaseBefore = .normal ∧ log.fb.flushing = true then
        if log.phaseAfter = .normal then 0
        else leaked env n + (cpIds (inFlight m (Window.after env logs))).length
      else leaked env n := by
  simp only [leaked, h, hc]

/-- A cycle that goes on pushes as many entries as it fetches predicted jumps, and pops one for each that
retires. -/
theorem FlowStages.checkpoint_count (f : FlowStages env n m w s) (h : Normal m w) :
    (s.machine env n m u).checkpointBuffer.ids.length + (cpIds (inFlight m w)).length =
      m.checkpointBuffer.ids.length +
        (cpIds (inFlight (s.machine env n m u) (w.step (s.log env n m u)))).length := by
  obtain ⟨xs, hgrown⟩ := f.fetch.cps
  have hids := f.fetch.ids
  dsimp only at hgrown hids
  rw [f.checkpointBuffer_eq, ← cpIds_decode] at hids
  have hfl := h.flight
  rw [f.flight] at hfl
  have hret := f.commit.cpIds_retired hfl (Stop.flows_ne f.flows).1
  obtain ⟨_, hg⟩ := f.group
  obtain ⟨cps, hcpr, -, -⟩ := hg.cps
  have hsuf : cpIds (inFlight m w) <:+ m.checkpointBuffer.ids := h.cp.suffix
  have hle := hsuf.length_le
  rw [f.inFlight_before, cpIds_append, List.length_append, hret] at hle
  -- commit pops one checkpoint if the group ended with a hit
  have hsync : (s.machine env n m u).checkpointBuffer.ids.length =
      (if f.stop = .hit then s.ft.checkpointBuffer.ids.tail else s.ft.checkpointBuffer.ids).length := by
    show (s.ft.checkpointBuffer.sync (s.cm.cpRequests ++ s.rn.cpRequests)).ids.length = _
    rw [hcpr, Fifo.sync_append, Fifo.sync_setItem, f.commit.cpRequests]
    show ((s.ft.checkpointBuffer.sync _).ids).length = _
    split_ifs with hhit
    · show (s.ft.checkpointBuffer.drop1).ids.length = _
      rw [hgrown.wf.ids_drop1]
    · rfl
  rw [hsync, f.inFlight_step h, f.drop_inFlight, f.inFlight_before]
  simp only [cpIds_append, List.length_append, hids, hret] at hle ⊢
  split_ifs at hle ⊢ <;> simp only [List.length_tail, List.length_append] <;> omega

/-- A trap keeps the buffer, a mispredicted jump empties it. -/
theorem CycleCase.checkpoint_count (h : CycleCase env n m w s) (hu : s.Synced env n m u)
    (hphase : m.commit.curState = .normal) :
    (s.cm.fb.flushing = true → s.cm.state.curState = .normal →
      (s.machine env n m u).checkpointBuffer.ids.length = 0) ∧
    (s.cm.fb.flushing = true → s.cm.state.curState ≠ .normal →
      (s.machine env n m u).checkpointBuffer.ids.length = m.checkpointBuffer.ids.length) ∧
    (s.cm.fb.flushing = false → s.cm.state.curState = .normal ∧
      (s.machine env n m u).checkpointBuffer.ids.length + (cpIds (inFlight m w)).length =
        m.checkpointBuffer.ids.length +
          (cpIds (inFlight (s.machine env n m u) (w.step (s.log env n m u)))).length) := by
  cases h with
  | flow h f =>
    refine ⟨fun hf => absurd (f.flushing.symm.trans hf) Bool.false_ne_true,
      fun hf => absurd (f.flushing.symm.trans hf) Bool.false_ne_true, fun _ => ⟨(f.normal h hu).phase, ?_⟩⟩
    exact f.checkpoint_count h
  | flush h g =>
    rw [g.checkpointBuffer_eq]
    refine ⟨fun _ hn => ?_, fun _ hn => ?_, fun hf => absurd (hf.symm.trans g.stages.flushing) Bool.false_ne_true⟩
    · have hst : g.stop = .miss := by_contra fun hst => (g.trap h hu hst).phase hn
      rw [if_pos hst, Fifo.ids_flush, List.length_nil]
    · have hst : g.stop ≠ .miss := by
        intro hst
        exact hn (by rw [g.commit.phase, hst])
      rw [if_neg hst]
  | walk v h => exact absurd hphase h.phase

/-- The buffer holds the entries of the jumps in the machine and those that traps left behind. -/
theorem run_leaked (h : run env n = .ok (m, logs)) : m.checkpointBuffer.ids.length = leaked env n +
    if m.commit.curState = .normal then (cpIds (inFlight m (Window.after env logs))).length else 0 := by
  refine (run_induction (P := fun n m logs => m.checkpointBuffer.ids.length = leaked env n +
    if m.commit.curState = .normal then (cpIds (inFlight m (Window.after env logs))).length else 0)
    (fun m hreset hnormal => ?_) (fun n m logs s u hrun hP hcase hu => ?_) h).2
  · rw [show Window.after env [] = Window.init env from rfl, reset_inFlight hreset]
    obtain ⟨rat, -, hreset⟩ := bind_eq_ok.mp hreset
    obtain ⟨regfile, -, hreset⟩ := bind_eq_ok.mp hreset
    cases hreset
    rfl
  · rw [leaked_succ hrun (cycle_ok_iff.mpr ⟨s, u, hcase.ran, hu, rfl, rfl⟩), Window.after_snoc]
    show _ = (if m.commit.curState = .normal ∧ s.cm.fb.flushing = true then
      if s.cm.state.curState = .normal then 0 else _ else _) + if s.cm.state.curState = .normal then _ else _
    by_cases hphase : m.commit.curState = .normal
    · obtain ⟨hmiss, htrap, hflow⟩ := hcase.checkpoint_count hu hphase
      have hempty := hcase.flushed hu
      rw [if_pos hphase] at hP
      cases hflush : s.cm.fb.flushing with
      | false =>
        obtain ⟨hnormal, hcount⟩ := hflow hflush
        rw [if_neg (by simp), if_pos hnormal]
        omega
      | true =>
        rw [if_pos ⟨hphase, rfl⟩]
        -- a mispredict clears the buffer, a trap leaves it as it is
        by_cases hnormal : s.cm.state.curState = .normal
        · rw [if_pos hnormal, if_pos hnormal, hmiss hflush hnormal, hempty hflush hnormal]
          rfl
        · rw [if_neg hnormal, if_neg hnormal, htrap hflush hnormal, hP]
          rfl
    · cases hcase with
      | flow h f => exact absurd h.phase hphase
      | flush h g => exact absurd h.phase hphase
      | walk v h =>
        have hempty := (CycleCase.walk v h).flushed hu v.stages.flushing
        rw [if_neg hphase] at hP
        rw [if_neg fun hn => hphase hn.1, v.checkpointBuffer_eq, hP]
        split_ifs with hnormal
        · rw [hempty hnormal]
          rfl
        · rfl

/-- Outside a trap walk, the checkpoint buffer holds as many entries as there are predicted jumps in the machine
exactly if no trap has left an entry behind. -/
theorem checkpoint_leak (h : run env n = .ok (m, logs)) (hphase : m.commit.curState = .normal) :
    m.checkpointBuffer.toList.length = (cpIds (inFlight m (Window.after env logs))).length ↔ leaked env n = 0 := by
  have hcount := run_leaked h
  rw [if_pos hphase] at hcount
  rw [Fifo.length_toList, ← Fifo.length_ids]
  omega

/-- A load that traps, and behind it a branch that executes before the trap is taken. -/
def trapOverBranch : List Word := [0x00102083, 0x00000463, 0x0000100f]

/-- A trap discards a branch and leaves its checkpoint. -/
theorem checkpoint_leak_trapOverBranch : ∃ m logs, run (Env.ofProgram trapOverBranch) 10 = .ok (m, logs) ∧
    m.commit.curState = .normal ∧
    (m.checkpointBuffer.toList.length =
      (cpIds (inFlight m (Window.after (Env.ofProgram trapOverBranch) logs))).length ↔
        leaked (Env.ofProgram trapOverBranch) 10 = 0) := by
  obtain ⟨m, logs, h, hP⟩ := exists_run_of (show endsWith (fun m _ => m.commit.curState == .normal)
    (run (Env.ofProgram trapOverBranch) 10) = true by decide +kernel)
  exact ⟨m, logs, h, beq_iff_eq.mp hP, checkpoint_leak h (beq_iff_eq.mp hP)⟩

/-- After the trap the machine is empty, and the entry of the branch it discarded is still in the buffer. -/
theorem checkpoint_left_behind : ∃ m logs, run (Env.ofProgram trapOverBranch) 13 = .ok (m, logs) ∧
    m.commit.curState = .normal ∧ inFlight m (Window.after (Env.ofProgram trapOverBranch) logs) = [] ∧
    m.checkpointBuffer.toList.length = 1 := by
  obtain ⟨m, logs, h, hP⟩ := exists_run_of (show endsWith (fun m logs => m.commit.curState == .normal &&
    (inFlight m (Window.after (Env.ofProgram trapOverBranch) logs)).isEmpty &&
      m.checkpointBuffer.toList.length == 1)
    (run (Env.ofProgram trapOverBranch) 13) = true by decide +kernel)
  simp only [Bool.and_eq_true, beq_iff_eq, List.isEmpty_iff] at hP
  exact ⟨m, logs, h, hP.1.1, hP.1.2, hP.2⟩

end Run

end MyRiscvCore
