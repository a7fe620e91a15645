import MyRiscvCore.Properties.Conservation
import MyRiscvCore.Properties.Memory

/-!
# MyRiscvCore — `fence` and `fence.i`

* `fence_ordering` — a `fence` is sent when everything older has retired and every older store is in memory,
  and nothing younger is sent before it;
* `fenceI_ordering` — a `fence.i` is fetched into an empty pipeline, and it and what is fetched after it is
  read from a memory that has every older store.
-/

namespace MyRiscvCore

section Fence

variable {env : Env} {n : Nat} {m m' : Machine} {w : Window} {s : Stages} {u : Updates} {logs : List CycleLog}
  {log : CycleLog}

/-- A write is `applyStore` on memory. -/
theorem Bus.write_memory {b b' : Bus} {r : Bus.Request} (h : b.write r.addr r.size r.data = .ok b') :
    b'.memory = applyStore b.memory r := by
  unfold Bus.write at h
  unfold applyStore
  cases hf : findSlaveInfo slaveInfoList r.addr with
  | none =>
    rw [hf] at h
    cases h
    rfl
  | some info =>
    rw [hf] at h
    obtain ⟨-, -, h⟩ := bind_eq_ok.mp h
    cases hs : info.slave <;> cases hsize : r.size <;> rw [hs, hsize] at h <;> cases h <;> simp [hs]

/-- And so are the requests of a cycle, in order. -/
theorem Bus.sync_memory {b b' : Bus} {rs : List Bus.Request} (h : b.sync rs = .ok b') :
    b'.memory = rs.foldl applyStore b.memory := by
  induction rs generalizing b with
  | nil =>
    cases h
    rfl
  | cons r rs ih =>
    obtain ⟨b₁, hw, h⟩ := bind_eq_ok.mp h
    rw [ih h, Bus.write_memory hw]
    rfl

/-- The memory is what the writes of the run have made of the image. -/
theorem run_memory (h : run env n = .ok (m, logs)) :
    m.bus.memory = (logs.flatMap (·.writes)).foldl applyStore env.memory := by
  refine (run_induction (P := fun _ m logs => m.bus.memory = (logs.flatMap (·.writes)).foldl applyStore env.memory)
    (fun m hm _ => ?_) (fun n m logs s u _ hP _ hu => ?_) h).2
  · obtain ⟨rat, -, hm⟩ := bind_eq_ok.mp hm
    obtain ⟨regfile, -, hm⟩ := bind_eq_ok.mp hm
    cases hm
    rfl
  · rw [List.flatMap_append, List.flatMap_singleton, List.foldl_append, ← hP]
    exact Bus.sync_memory (b := { m.bus with clint := m.bus.clint.runPost }) hu.bus

/-! ## `fence`

A `fence` leaves the queue only when everything before it is done and drained. -/

/-- What holds of the `fence`s in flight: one that is sent is the oldest instruction and every store that has
retired is written; nothing younger is sent before it. -/
structure FenceOk (m : Machine) (w : Window) : Prop where
  sent : ∀ pre e post, w.flight = pre ++ e :: post → e.op.op = .fence → e.Sent m →
    pre = [] ∧ retiredStores w.events <+: w.writes
  younger : ∀ pre e post, w.flight = pre ++ e :: post → e.op.op = .fence → ∀ x ∈ post, x.Sent m → e.Sent m

/-- Every store before a retired `fence` is written. -/
def FencesRetired (w : Window) : Prop :=
  ∀ evs b mepc e evs', w.events = evs ++ .retire b mepc e :: evs' → e.op.op = .fence →
    retiredStores evs <+: w.writes

namespace FlowStages

/-- The store buffer is empty, so every store of an instruction that has retired is written. -/
theorem writes_eq (f : FlowStages env n m w s) (h : Normal m w) (hempty : m.storeBuffer.isEmpty = true) :
    retiredStores (w.events ++ retireEvents (m.csrFile.value csrMepc) w.arch f.ret) = w.writes := by
  obtain ⟨com, hlist, hcom⟩ := h.store.items
  rw [h.store.wf.isEmpty_eq, List.isEmpty_iff, hlist, f.flight, storesOf_append, List.append_eq_nil_iff,
    List.append_eq_nil_iff] at hempty
  have hfl := h.flight
  rw [f.flight] at hfl
  have hwrites := (hcom.retire (m.csrFile.value csrMepc) f.retired hfl).writes
  rw [hempty.1, hempty.2.1, Window.writes_retireAll, Window.events_retireAll] at hwrites
  simpa using hwrites.symm

/-- A `fence` that is sent in this cycle is the oldest instruction that stays. -/
theorem fence_selected (f : FlowStages env n m w s) (h : Normal m w) {pre post : List Entry} {e : Entry}
    (hrest : f.rest = pre ++ e :: post) (hfence : e.op.op = .fence) (hsel : e.op.robId ∈ f.sel.map (·.robId)) :
    pre = [] ∧ m.storeBuffer.isEmpty = true := by
  obtain ⟨i, hi, hid⟩ := List.mem_map.mp hsel
  obtain ⟨e', he', hop⟩ := f.selected_entry h hi
  have he : e ∈ f.rest := by rw [hrest]; simp
  obtain rfl : e' = e := h.rob.eq_of_robId_eq (f.mem_rest he') (f.mem_rest he) ((congrArg (·.robId) hop).trans hid)
  obtain ⟨hempty, hnext⟩ := f.issue.fence i hi (by rw [← hfence, hop])
  refine ⟨?_, hempty⟩
  cases pre with
  | nil => rfl
  | cons x pre =>
    -- the oldest one would have the same id
    have hx : x ∈ f.rest := by rw [hrest]; simp
    rw [f.commit.next f.flows x _ hrest, hid] at hnext
    obtain rfl := h.rob.eq_of_robId_eq (f.mem_rest hx) (f.mem_rest he) hnext
    have hnd := h.nodup
    rw [f.flight, hrest] at hnd
    simp [List.nodup_append, List.nodup_cons] at hnd

/-- When something younger than a `fence` is sent in this cycle, the `fence` is sent. -/
theorem fence_before (f : FlowStages env n m w s) (h : Normal m w) (hd : DispatchOk m w) {pre post : List Entry}
    {e x : Entry} (hrest : f.rest = pre ++ x :: post) (he : e ∈ pre) (hfence : e.op.op = .fence)
    (hsel : x.op.robId ∈ f.sel.map (·.robId)) : e.Sent m ∨ e.op.robId ∈ f.sel.map (·.robId) := by
  by_cases hsent : e.Sent m
  · exact .inl hsent
  -- selection passed it, so it was the first
  obtain ⟨y, hy, hop, hpassed⟩ := f.passed_before h hd hrest hsel he hsent
  obtain ⟨hempty, hnext⟩ := hpassed.2 (by rw [← hfence, hop])
  rw [Entry.Sent, not_or, Bool.not_eq_false] at hsent
  obtain ⟨z, zs, hz⟩ := List.exists_cons_of_ne_nil (List.ne_nil_of_mem (show e ∈ f.rest by rw [hrest]; simp [he]))
  have hez : e.op.robId = z.op.robId := by
    rw [hop, ← hnext]
    exact f.commit.next f.flows z zs hz
  obtain rfl : e = z := h.rob.eq_of_robId_eq (f.mem_rest (by rw [hrest]; simp [he])) (f.mem_rest (by rw [hz]; simp)) hez
  exact .inr (f.head_selected h hd hz hsent.1 (fun _ => hempty) hsent.2
    (List.mem_map.mpr ⟨y, hy, by rw [hop]⟩))

/-- A cycle keeps the order around fences. -/
theorem fenceOk (f : FlowStages env n m w s) (h : Normal m w) (hd : DispatchOk m w) (hfo : FenceOk m w)
    (u : Updates) : FenceOk (s.machine env n m u) (w.step (s.log env n m u)) := by
  have hevents := f.step_events h u
  have hwrites := Window.writes_step w (s.log env n m u)
  have hflight : (w.step (s.log env n m u)).flight = f.rest.map (Entry.advance s.ex.ports) ++ f.news := by
    rw [f.step_eq h u]
    rfl
  have hnews {e : Entry} (he : e ∈ f.news) : ¬ e.Sent (s.machine env n m u) := by
    obtain ⟨hw, hp⟩ := f.news_unsent h he
    rw [Entry.Sent, not_or, Bool.not_eq_false]
    exact ⟨hw, hp⟩
  constructor
  · intro pre e post hf hfence hsent
    rw [hflight] at hf
    obtain ⟨post', hf', -⟩ | ⟨pre', rfl, hf'⟩ := split_append hf
    · obtain ⟨pre₀, e₀, post₀, hrest, rfl, rfl, -⟩ := split_advance hf'
      rw [hevents, hwrites]
      obtain hold | hsel := (f.sent_iff h u e₀).mp hsent
      · -- it was the oldest before, so nothing has retired since
        obtain ⟨hnil, hdone⟩ := hfo.sent (f.ret ++ pre₀) e₀ post₀
          (by rw [f.flight, hrest, List.append_assoc]) hfence hold
        obtain ⟨hret, rfl⟩ := List.append_eq_nil_iff.mp hnil
        rw [hret]
        exact ⟨rfl, by simpa [retireEvents] using hdone.trans (List.prefix_append _ _)⟩
      · obtain ⟨rfl, hempty⟩ := f.fence_selected h hrest hfence hsel
        rw [f.writes_eq h hempty]
        exact ⟨rfl, List.prefix_append _ _⟩
    · exact absurd hsent (hnews (by rw [hf']; simp))
  · intro pre e post hf hfence x hx hsent
    rw [hflight] at hf
    obtain ⟨post', hf', rfl⟩ | ⟨pre', rfl, hf'⟩ := split_append hf
    · obtain ⟨pre₀, e₀, post₀, hrest, rfl, rfl, rfl⟩ := split_advance hf'
      obtain hx | hx := List.mem_append.mp hx
      · obtain ⟨x₀, hx₀, rfl⟩ := List.mem_map.mp hx
        refine (f.sent_iff h u e₀).mpr ?_
        obtain hold | hsel := (f.sent_iff h u x₀).mp hsent
        · exact .inl (hfo.younger (f.ret ++ pre₀) e₀ post₀
            (by rw [f.flight, hrest, List.append_assoc]) hfence x₀ hx₀ hold)
        · obtain ⟨mid, post, rfl⟩ := List.append_of_mem hx₀
          have hsplit : f.rest = (pre₀ ++ e₀ :: mid) ++ x₀ :: post := by rw [hrest]; simp
          exact f.fence_before h hd hsplit (by simp) hfence hsel
      · exact absurd hsent (hnews hx)
    · exact absurd hsent (hnews (by rw [hf']; simp [hx]))

end FlowStages

/-- A trap is no retirement. -/
theorem Window.trapEvent_ne_retire (w : Window) (log : CycleLog) {b : Arch} {mepc : Word} {e : Entry} :
    w.trapEvent log ≠ .retire b mepc e := by
  unfold Window.trapEvent
  split <;> exact Event.noConfusion

/-- A `fence` that retires was sent, so it is the first to retire and the stores before it are written. -/
theorem FenceOk.retired (hfo : FenceOk m w) {ret rest : List Entry} (hflight : w.flight = ret ++ rest)
    (hret : Retired ret) (hold : FencesRetired w) {w' : Window} {mepc : Word}
    (hevents : w'.events = w.events ++ retireEvents mepc w.arch ret) (hwrites : w.writes <+: w'.writes) :
    FencesRetired w' := by
  intro evs b mepc' e evs' hev hfence
  rw [hevents] at hev
  obtain ⟨mid, hbefore, -⟩ | ⟨mid, rfl, hnew⟩ := split_append hev
  · exact (hold evs b mepc' e mid hbefore hfence).trans hwrites
  · obtain ⟨pre, post, rfl, hlen⟩ := retireEvents_split hnew
    obtain ⟨rfl, hdone⟩ := hfo.sent pre e (post ++ rest) (by rw [hflight]; simp) hfence
      (.inl (hret.isWaiting (by simp)))
    obtain rfl := List.eq_nil_of_length_eq_zero hlen
    rw [List.append_nil]
    exact hdone.trans hwrites

/-- What every cycle keeps. -/
theorem CycleCase.fences (h : CycleCase env n m w s) (hd : m.commit.curState = .normal → DispatchOk m w)
    (hfo : m.commit.curState = .normal → FenceOk m w) (hret : FencesRetired w) (hu : s.Synced env n m u) :
    ((s.machine env n m u).commit.curState = .normal →
        FenceOk (s.machine env n m u) (w.step (s.log env n m u))) ∧
      FencesRetired (w.step (s.log env n m u)) := by
  have hwrites : w.writes <+: (w.step (s.log env n m u)).writes := by
    rw [Window.writes_step]
    exact List.prefix_append _ _
  -- after a flush there is no fence in flight
  have hempty (hflight : (w.step (s.log env n m u)).flight = []) :
      FenceOk (s.machine env n m u) (w.step (s.log env n m u)) :=
    ⟨fun pre e post hf => by rw [hflight] at hf; simp at hf, fun pre e post hf => by rw [hflight] at hf; simp at hf⟩
  cases h with
  | flow h f =>
    exact ⟨fun _ => f.fenceOk h (hd h.phase) (hfo h.phase) u,
      (hfo h.phase).retired f.flight f.retired hret (f.step_events h u) hwrites⟩
  | flush h g =>
    refine ⟨fun hphase => ?_, (hfo h.phase).retired g.flight g.commit.finished hret (g.step_events h hu) hwrites⟩
    by_cases hst : g.stop = .miss
    · refine hempty ?_
      rw [g.step_eq h (g.updated h hu)]
      exact if_pos hst
    · exact absurd hphase (g.trap h hu hst).phase
  | walk v h =>
    by_cases hpre : v.pre = []
    · refine ⟨fun _ => hempty (by rw [v.step_last h (v.updated h hu) hpre]), fun evs b mepc e evs' hev hfence => ?_⟩
      rw [v.step_last h (v.updated h hu) hpre] at hev
      obtain ⟨mid, hbefore, -⟩ | ⟨mid, rfl, hnew⟩ := split_append hev
      · exact (hret evs b mepc e mid hbefore hfence).trans hwrites
      · have hmem : Event.retire b mepc e ∈ [w.trapEvent (s.log env n m u)] := by rw [hnew]; simp
        exact absurd (List.mem_singleton.mp hmem).symm (Window.trapEvent_ne_retire w _)
    · refine ⟨fun hphase => absurd hphase (v.step h hu hpre).phase, fun evs b mepc e evs' hev hfence => ?_⟩
      rw [v.step_eq h (v.updated h hu) hpre] at hev
      exact (hret evs b mepc e evs' hev hfence).trans hwrites

/-- In every run. -/
theorem run_fences (h : run env n = .ok (m, logs)) :
    (m.commit.curState = .normal → FenceOk m (Window.after env logs)) ∧
      FencesRetired (Window.after env logs) := by
  refine (run_induction (P := fun _ m logs => (m.commit.curState = .normal → FenceOk m (Window.after env logs)) ∧
    FencesRetired (Window.after env logs)) (fun m hm _ => ?_) (fun n m logs s u hrun hP hcase hu => ?_) h).2
  · refine ⟨fun _ => ⟨fun pre e post hf => ?_, fun pre e post hf => ?_⟩, fun evs b mepc e evs' hev => ?_⟩
    · exact absurd (show [] = pre ++ e :: post from hf) (by simp)
    · exact absurd (show [] = pre ++ e :: post from hf) (by simp)
    · exact absurd (show [] = evs ++ .retire b mepc e :: evs' from hev) (by simp)
  · rw [Window.after_snoc]
    exact hcase.fences (run_dispatchOk hrun) hP.1 hP.2 hu

/-- What a cycle shows of the `fence`s: one that is sent is the oldest instruction that has not retired, with an
empty store buffer; nothing is sent before an older one; and nothing executes before the stores in front of an
older one are written. -/
structure FenceOrder (env : Env) (m : Machine) (logs : List CycleLog) (log : CycleLog) : Prop where
  sent : ∀ p ∈ log.issued, p.op = .fence → ∃ ret e rest, (Window.after env logs).flight = ret ++ e :: rest ∧
    ret.length = log.retired.length ∧ e.op.robId = p.robId ∧ m.storeBuffer.toList = [] ∧
    logs.flatMap (·.writes) = programStores (Window.after env (logs ++ [log])).events
  first : ∀ p ∈ log.issued, ∀ pre e mid x post, (Window.after env logs).flight = pre ++ e :: (mid ++ x :: post) →
    e.op.op = .fence → x.op.robId = p.robId → e.Sent m ∨ ∃ q, q.robId = e.op.robId ∧ [q, p].Sublist log.issued
  executed : ∀ r ∈ log.results, r.enable = true → ∀ pre e mid x post,
    (Window.after env logs).flight = pre ++ e :: (mid ++ x :: post) → e.op.op = .fence → x.op.robId = r.robId →
    pre = [] ∧ logs.flatMap (·.writes) = programStores (Window.after env logs).events
  retired : ∀ evs b mepc e evs', (Window.after env logs).events = evs ++ .retire b mepc e :: evs' →
    e.op.op = .fence → programStores evs <+: logs.flatMap (·.writes)

/-- The first of the queue, if it is selected, is sent first. -/
theorem FlowStages.selected_first (f : FlowStages env n m w s) (h : Normal m w) (hd : DispatchOk m w)
    {e : Entry} {rest : List Entry} (hrest : f.rest = e :: rest) (hsel : e.op.robId ∈ f.sel.map (·.robId))
    {i : ReadregIssueOp} (hi : i ∈ f.sel) (hne : i.robId ≠ e.op.robId) :
    ∃ j, j.robId = e.op.robId ∧ [j, i].Sublist f.sel := by
  have hids : (f.sel.map (·.robId)).Sublist (f.rest.map (·.op.robId)) :=
    (((f.issue.selected.trans (List.sublist_append_left _ _)).map _).trans
      (List.sublist_append_left _ _)).trans (hd.order_rest h f.flight f.retired)
  have hnd := h.nodup
  rw [f.flight, List.map_append] at hnd
  have hnd := (List.nodup_append.mp hnd).2.1
  rw [hrest, List.map_cons] at hids hnd
  obtain ⟨l, hl⟩ := head_of_sublist hids hnd hsel
  obtain ⟨j, js, hjs, hj, -⟩ := List.map_eq_cons_iff.mp hl
  rw [hjs] at hi ⊢
  have hmem := (List.mem_cons.mp hi).resolve_left fun hij => hne (by rw [hij]; exact hj)
  exact ⟨j, hj, (List.singleton_sublist.mpr hmem).cons_cons j⟩

/-- A `fence` that a cycle sends. -/
theorem FlowStages.fence_sent (f : FlowStages env n m w s) (h : Normal m w) {p : IssueExecutePack}
    (hp : p ∈ s.is.issued) (hfence : p.op = .fence) :
    ∃ e rest, f.rest = e :: rest ∧ e.op.robId = p.robId ∧ m.storeBuffer.isEmpty = true := by
  rw [f.issue.issued] at hp
  obtain ⟨i, hi, rfl⟩ := List.mem_map.mp hp
  obtain ⟨e, he, hop⟩ := f.selected_entry h hi
  have hid : e.op.robId = i.robId := congrArg (·.robId) hop
  obtain ⟨pre, post, hrest⟩ := List.append_of_mem he
  obtain ⟨rfl, hempty⟩ := f.fence_selected h hrest (by rw [hop, ← hfence, Issue.packFor_info])
    (hid ▸ List.mem_map_of_mem hi)
  exact ⟨e, post, hrest, by rw [Issue.packFor_robId, hid], hempty⟩

/-- Something that a cycle sends, with an older `fence` in flight. -/
theorem FlowStages.fence_first (f : FlowStages env n m w s) (h : Normal m w) (hd : DispatchOk m w)
    {p : IssueExecutePack} (hp : p ∈ s.is.issued) {pre mid post : List Entry} {e x : Entry}
    (hf : w.flight = pre ++ e :: (mid ++ x :: post)) (hfence : e.op.op = .fence) (hid : x.op.robId = p.robId) :
    e.Sent m ∨ ∃ q, q.robId = e.op.robId ∧ [q, p].Sublist s.is.issued := by
  rw [f.issue.issued] at hp ⊢
  obtain ⟨i, hi, rfl⟩ := List.mem_map.mp hp
  rw [Issue.packFor_robId] at hid
  have hsel : x.op.robId ∈ f.sel.map (·.robId) := hid ▸ List.mem_map_of_mem hi
  obtain ⟨x', hx', hop⟩ := f.selected_entry h hi
  obtain rfl : x' = x := h.rob.eq_of_robId_eq (f.mem_rest hx') (by rw [hf]; simp)
    ((congrArg (·.robId) hop).trans hid.symm)
  -- the fence retires in this cycle, or it stays
  rw [f.flight] at hf
  obtain ⟨ret', hret, -⟩ | ⟨pre', rfl, hrest⟩ := split_append hf
  · exact .inl (.inl (f.retired.isWaiting (by rw [hret]; simp)))
  have hsplit : f.rest = (pre' ++ e :: mid) ++ x' :: post := by rw [hrest]; simp
  refine (f.fence_before h hd hsplit (by simp) hfence hsel).imp_right fun hesel => ?_
  obtain ⟨rfl, -⟩ := f.fence_selected h hrest hfence hesel
  have hne : i.robId ≠ e.op.robId := by
    rw [← hid]
    have hnd := h.nodup
    rw [f.flight, hrest] at hnd
    simp only [List.nil_append, List.map_append, List.map_cons, List.nodup_append, List.nodup_cons] at hnd
    exact fun heq => hnd.2.1.1 (by rw [← heq]; simp)
  obtain ⟨j, hj, hsub⟩ := f.selected_first h hd hrest hesel hi hne
  exact ⟨_, (Issue.packFor_robId _ j).trans hj, hsub.map (Issue.packFor _)⟩

/-- Something that a cycle executes, with an older `fence` in flight. -/
theorem FlowStages.fence_executed (f : FlowStages env n m w s) (h : Normal m w) (hfo : FenceOk m w)
    {r : ExecuteWbPack} (hr : r ∈ s.ex.ports) (hen : r.enable = true) {pre mid post : List Entry} {e x : Entry}
    (hf : w.flight = pre ++ e :: (mid ++ x :: post)) (hfence : e.op.op = .fence) (hid : x.op.robId = r.robId) :
    pre = [] ∧ retiredStores w.events = w.writes := by
  obtain ⟨p, hp⟩ := (f.execute.ports r).mp ⟨hr, hen⟩
  have hsent : x.Sent m := by
    refine .inr (List.mem_map.mpr ⟨p, f.execute.perm.mem_iff.mpr (List.mem_append_left _ (List.mem_map_of_mem hp)), ?_⟩)
    rw [hid]
    exact (f.execute.result _ hp).unitResult.sameOp.robId.symm
  obtain ⟨rfl, hdone⟩ := hfo.sent pre e _ hf hfence (hfo.younger pre e _ hf hfence x (by simp) hsent)
  obtain ⟨com, -, hcom⟩ := h.store.items
  exact ⟨rfl, hdone.eq_of_length_le (by rw [← hcom.writes]; simp)⟩

/-- In a flush nothing is sent and nothing executes. -/
theorem FlushStages.nothing (f : FlushStages env n m s) :
    s.is.issued = [] ∧ ∀ r ∈ s.ex.ports, r.enable = false := by
  refine ⟨by rw [f.issue], fun r hr => ?_⟩
  rw [f.ports] at hr
  rw [List.eq_of_mem_replicate hr]
  rfl

/-- In every cycle of every run. -/
theorem fence_ordering (h : run env n = .ok (m, logs)) (hc : cycle env n m = .ok (m', log)) :
    FenceOrder env m logs log ∧ m.bus.memory = (logs.flatMap (·.writes)).foldl applyStore env.memory := by
  have hin' := run_inOrder (run_succ.mpr ⟨m, logs, log, h, hc, rfl⟩)
  obtain ⟨s, u, hcase, hu, rfl, rfl⟩ := (run_refines h).cycle_ok hc
  obtain ⟨hfo, hretired⟩ := run_fences h
  have hstores {evs evs' : List Event} (hsplit : (Window.after env logs).events = evs ++ evs') :
      retiredStores evs = programStores evs :=
    (programStores_eq fun pre ev post hpre => (run_inOrder h).events pre ev (post ++ evs') (by
      rw [hsplit, hpre, List.append_assoc, List.cons_append])).1
  have hretired' : ∀ evs b mepc e evs', (Window.after env logs).events = evs ++ .retire b mepc e :: evs' →
      e.op.op = .fence → programStores evs <+: logs.flatMap (·.writes) := by
    intro evs b mepc e evs' hev hfence
    rw [← hstores hev, ← Window.writes_after env logs]
    exact hretired evs b mepc e evs' hev hfence
  refine ⟨?_, run_memory h⟩
  -- a flush issues and executes nothing
  have hflush (hst : FlushStages env n m s) : FenceOrder env m logs (s.log env n m u) := by
    obtain ⟨hissued, hoff⟩ := hst.nothing
    refine ⟨fun p hp => ?_, fun p hp => ?_, fun r hr hen => ?_, hretired'⟩
    · exact absurd (hissued ▸ hp : p ∈ []) List.not_mem_nil
    · exact absurd (hissued ▸ hp : p ∈ []) List.not_mem_nil
    · exact absurd hen (by rw [hoff r hr]; exact Bool.false_ne_true)
  cases hcase with
  | flow hn f =>
    refine ⟨fun p hp hfence => ?_, fun p hp pre e mid x post hf hfence hid => ?_,
      fun r hr hen pre e mid x post hf hfence hid => ?_, hretired'⟩
    · obtain ⟨e, rest, hrest, hid, hempty⟩ := f.fence_sent hn hp hfence
      refine ⟨f.ret, e, rest, by rw [f.flight, hrest], ?_, hid, ?_, ?_⟩
      · show f.ret.length = s.cm.retired.length
        rw [f.commit.retired, length_retiredItems]
      · rw [hn.store.wf.isEmpty_eq] at hempty
        exact List.isEmpty_iff.mp hempty
      · rw [← (programStores_eq hin'.events).1, Window.after_snoc, f.step_events hn u, f.writes_eq hn hempty,
          Window.writes_after]
    · exact f.fence_first hn (run_dispatchOk h hn.phase) hp hf hfence hid
    · obtain ⟨hpre, hdone⟩ := f.fence_executed hn (hfo hn.phase) hr hen hf hfence hid
      exact ⟨hpre, by rw [← Window.writes_after env logs, ← hdone, hstores (List.append_nil _).symm]⟩
  | flush _ g => exact hflush g.stages
  | walk v _ => exact hflush v.stages

/-- `sw`, `fence`, `lw`: the cycle that sends the `fence`. -/
def storeFenceLoad : List Word := [0x800000b7, 0x0410a023, 0x0ff0000f, 0x0400a183]

/-- The cycle that issues the `fence` between a store and a load. -/
theorem fence_ordering_storeFenceLoad : ∃ m logs m' log, run (Env.ofProgram storeFenceLoad) 13 = .ok (m, logs) ∧
    cycle (Env.ofProgram storeFenceLoad) 13 m = .ok (m', log) ∧ (∃ p ∈ log.issued, p.op = .fence) ∧
    FenceOrder (Env.ofProgram storeFenceLoad) m logs log ∧
    m.bus.memory = (logs.flatMap (·.writes)).foldl applyStore (Env.ofProgram storeFenceLoad).memory := by
  obtain ⟨m, logs, m', log, hrun, hc, hsent⟩ := exists_cycle_ok
    (show lastCycle (fun log => log.issued.any (·.op == .fence)) (run (Env.ofProgram storeFenceLoad) 14) = true by
      decide +kernel)
  obtain ⟨horder, hmem⟩ := fence_ordering hrun hc
  obtain ⟨p, hp, hop⟩ := List.any_eq_true.mp hsent
  exact ⟨m, logs, m', log, hrun, hc, ⟨p, hp, beq_iff_eq.mp hop⟩, horder, hmem⟩

/-! ## `fence.i`

Fetch holds a `fence.i` back until nothing is in the machine. -/

section Fetch

variable {bus : Bus} {sb : StoreBuffer} {uninit : Checkpoint} {gate : Bool} {oldPc : Word} {c c' : Fetch.Ctx}

/-- A fetched word is pushed with its pc. -/
theorem fetchOne_fifo (uninit : Checkpoint) (pc v : Word) (hfifo : c.fifo.SaveOk) (hfull : c.fifo.isFull = false) :
    ∃ p : FetchDecodePack, p.pc = pc ∧ p.value = v ∧ (Fetch.fetchOne uninit pc v c).fifo = c.fifo.pushed p := by
  unfold Fetch.fetchOne
  cases Fetch.isJump v with
  | true =>
    have hspec := handleJump_spec uninit c pc v (!Bus.checkAlign pc .word)
    refine ⟨_, hspec.pack.2.1, hspec.pack.2.2.1, ?_⟩
    simp only [if_true, hspec.fifo, hfifo.wf.push_eq hfull, Option.getD_some]
  | false =>
    refine ⟨Fetch.plainPack pc v (!Bus.checkAlign pc .word), rfl, rfl, ?_⟩
    simp only [Bool.false_eq_true, if_false, hfifo.wf.push_eq hfull, Option.getD_some]

/-- What the fetch loop pushes is read from the bus; a `fence.i` is pushed only from slot 0 with an open gate. -/
theorem fetchLoop_words {rounds i : Nat} (hfifo : c.fifo.SaveOk)
    (h : Fetch.fetchLoop bus uninit gate oldPc rounds i c = .ok c') :
    ∃ new, c'.fifo.toList = c.fifo.toList ++ new ∧ (∀ p ∈ new, Fetch.fetchWord bus p.pc = .ok p.value) ∧
      ∀ pre p post, new = pre ++ p :: post → Fetch.isFenceI p.value = true → pre = [] ∧ i = 0 ∧ gate = false := by
  induction rounds generalizing i c with
  | zero =>
    cases h
    exact ⟨[], (List.append_nil _).symm, by simp, by simp⟩
  | succ rounds ih =>
    unfold Fetch.fetchLoop at h
    cases hfull : c.fifo.isFull with
    | true =>
      rw [hfull, if_neg (by simp)] at h
      -- the FIFO stays full
      obtain ⟨new, hlist, hwords, hfence⟩ := ih (by exact hfifo) h
      exact ⟨new, hlist, hwords, fun pre p post hp hfi => absurd (hfence pre p post hp hfi).2.1 (Nat.succ_ne_zero i)⟩
    | false =>
      rw [hfull, if_pos (by rfl)] at h
      obtain ⟨v, hv, h⟩ := bind_eq_ok.mp h
      obtain ⟨p, hpc, hval, hpush⟩ := fetchOne_fifo uninit (oldPc + BitVec.ofNat 32 (i * 4)) v hfifo hfull
      have hlist := hfifo.wf.toList_pushed (hfifo.count_lt hfull) p
      have hword : Fetch.fetchWord bus p.pc = .ok p.value := by rw [hpc, hval, hv]
      dsimp only at h
      split_ifs at h with hgate hjump
      · cases h
        exact ⟨[], (List.append_nil _).symm, by simp, by simp⟩
      all_goals
        have hopen (hfi : Fetch.isFenceI p.value = true) : i = 0 ∧ gate = false := by
          rw [hval] at hfi
          simpa [hfi] using hgate
      · cases h
        refine ⟨[p], by rw [← hlist, ← hpush], by simpa using hword, fun pre q post hq hfi => ?_⟩
        obtain ⟨rfl, hq⟩ | ⟨-, hq⟩ := List.singleton_eq_append_iff.mp hq
        · cases hq
          exact ⟨rfl, hopen hfi⟩
        · cases hq
      · obtain ⟨new, hnew, hwords, hfence⟩ := ih (by rw [hpush]; exact hfifo.pushed hfull p) h
        refine ⟨p :: new, by rw [hnew, hpush, hlist]; simp, List.forall_mem_cons.mpr ⟨hword, hwords⟩,
          fun pre q post hq hfi => ?_⟩
        obtain ⟨rfl, hq⟩ | ⟨pre', -, hq⟩ := List.cons_eq_append_iff.mp hq
        · cases hq
          exact ⟨rfl, hopen hfi⟩
        · exact absurd (hfence pre' q post hq hfi).2.1 (Nat.succ_ne_zero i)

/-- What fetch pushes. -/
theorem fetchRun_words {decodeIdle renameIdle : Bool} {fb : CommitFeedbackPack} {new : List FetchDecodePack}
    (hfifo : c.fifo.SaveOk) (h : Fetch.run bus sb uninit c decodeIdle renameIdle fb = .ok c')
    (hnew : c'.fifo.toList = c.fifo.toList ++ new) :
    (∀ p ∈ new, Fetch.fetchWord bus p.pc = .ok p.value) ∧
      ∀ pre p post, new = pre ++ p :: post → Fetch.isFenceI p.value = true → pre = [] ∧
        decodeIdle = true ∧ renameIdle = true ∧ fb.enable = false ∧ sb.isEmpty = true := by
  -- nothing new
  have hnone (hl : c'.fifo.toList = c.fifo.toList ∨ c'.fifo.toList = []) : new = [] := by
    obtain hl | hl := hl
    · simpa [hl] using hnew
    · rw [hl] at hnew
      exact (List.append_eq_nil_iff.mp hnew.symm).2
  have hstay (hl : c'.fifo.toList = c.fifo.toList ∨ c'.fifo.toList = []) :
      (∀ p ∈ new, Fetch.fetchWord bus p.pc = .ok p.value) ∧
        ∀ pre p post, new = pre ++ p :: post → Fetch.isFenceI p.value = true → pre = [] ∧
          decodeIdle = true ∧ renameIdle = true ∧ fb.enable = false ∧ sb.isEmpty = true := by
    rw [hnone hl]
    simp
  unfold Fetch.run at h
  dsimp only at h
  by_cases hfirst : c.state.waitFirstMemoryResult = true
  · rw [if_pos hfirst] at h
    cases h
    exact hstay (.inl rfl)
  rw [if_neg hfirst] at h
  by_cases hflush : (!fb.flushing) = true
  · rw [if_pos hflush] at h
    by_cases hwait : c.state.jumpWait = true
    · rw [if_pos hwait] at h
      split_ifs at h <;> cases h <;> exact hstay (.inl rfl)
    · rw [if_neg hwait] at h
      obtain ⟨-, -, h⟩ := bind_eq_ok.mp h
      obtain ⟨new', hlist, hwords, hfence⟩ := fetchLoop_words hfifo h
      obtain rfl := List.append_cancel_left (hnew.symm.trans hlist)
      refine ⟨hwords, fun pre p post hp hfi => ?_⟩
      obtain ⟨hfirst, -, hgate⟩ := hfence pre p post hp hfi
      simp only [Bool.or_eq_false_iff, Bool.not_eq_false'] at hgate
      exact ⟨hfirst, hgate.1.1.1, hgate.1.1.2, hgate.1.2, hgate.2⟩
  · rw [if_neg hflush] at h
    cases h
    exact hstay (.inr (Fifo.toList_flush _))

end Fetch

/-- What fetch pushed in a cycle. -/
def Pushed (s : Stages) (new : List FetchDecodePack) : Prop :=
  s.ft.fifo.toList = s.dc.1.1.toList ++ new

/-- No instruction is in flight when fetch runs, and no store is buffered. -/
structure Drained (m : Machine) (s : Stages) : Prop where
  fetchDecode : m.fetchDecodeFifo.toList = [] ∧ s.dc.1.1.toList = []
  decodeRename : m.decodeRenameFifo.toList = [] ∧ s.dc.1.2.1.toList = []
  renamed : s.rn.renamed = []
  held : held m = []
  rob : m.rob.fifo.ids = []
  storeBuffer : m.storeBuffer.toList = []

/-- In a cycle whose fetch pushes a `fence.i`, the pipeline and the store buffer are empty. -/
theorem FlowStages.drained (f : FlowStages env n m w s) (h : Normal m w) (hp : PortsOnce m)
    (hidle : s.dc.2 = true) (hridle : m.decodeRenameFifo.resetPopStatus.isEmpty = true)
    (hen : s.cm.fb.enable = false) (hempty : m.storeBuffer.isEmpty = true) : Drained m s ∧ w.flight = [] := by
  have hfd : m.fetchDecodeFifo.toList = [] := by
    have hdc : s.dc.2 = m.fetchDecodeFifo.resetPopStatus.isEmpty := by
      rw [← f.ran.decode, Decode.run, f.flushing]
      rfl
    rw [hdc, (h.shape.fetchDecode.resetPopStatus h.shape.fetchDecodeSave).wf.isEmpty_eq] at hidle
    exact List.isEmpty_iff.mp hidle
  have hdr : m.decodeRenameFifo.toList = [] := by
    rw [(h.shape.decodeRename.resetPopStatus h.shape.decodeRenameSave).wf.isEmpty_eq] at hridle
    exact List.isEmpty_iff.mp hridle
  -- commit reports an empty reorder buffer
  have hflight : w.flight = [] := by
    rw [f.flight]
    simpa [f.commit.enable] using hen
  have hids : m.rob.fifo.ids = [] := by rw [h.rob.ids, hflight]; rfl
  have hpacks := f.rename.packs
  rw [Fifo.toList_resetPopStatus, hdr, eq_comm, List.append_eq_nil_iff, List.map_eq_nil_iff] at hpacks
  have htaken := f.decode.taken
  rw [Fifo.toList_resetPopStatus, hfd, eq_comm, List.append_eq_nil_iff] at htaken
  refine ⟨⟨⟨hfd, htaken.2⟩, ⟨hdr, ?_⟩, ?_, ?_, hids, ?_⟩, hflight⟩
  · rw [f.decode.sent, hpacks.2, htaken.1]
    rfl
  · obtain ⟨cp, hgroup⟩ := f.rename.group
    rw [hgroup.ops, hpacks.1]
    rfl
  · have hheld := (Refines.conserved (.inl h) hp).normal h.phase
    rw [unfinished, hids] at hheld
    exact List.perm_nil.mp hheld
  · rw [h.store.wf.isEmpty_eq] at hempty
    exact List.isEmpty_iff.mp hempty

/-- A cycle whose fetch pushes something is one without a flush, and what it pushes is read from the bus. -/
theorem pushed_words (h : run env n = .ok (m, logs)) (hran : s.Ran env n m) {new : List FetchDecodePack}
    (hnew : Pushed s new) (hne : new ≠ []) :
    Normal m (Window.after env logs) ∧ Nonempty (FlowStages env n m (Window.after env logs) s) ∧
      (∀ p ∈ new, Fetch.fetchWord m.bus p.pc = .ok p.value) ∧
      ∀ pre p post, new = pre ++ p :: post → Fetch.isFenceI p.value = true → pre = [] ∧ s.dc.2 = true ∧
        m.decodeRenameFifo.resetPopStatus.isEmpty = true ∧ s.cm.fb.enable = false ∧
        m.storeBuffer.isEmpty = true := by
  obtain ⟨s, hcase⟩ | ⟨s', hback, herr⟩ := (run_refines h).cycleCase env n
  · obtain rfl := hran.unique hcase.ran
    have hflush (hst : FlushStages env n m s) : False := by
      rw [Pushed, hst.fetch, Fifo.toList_flush, eq_comm, List.append_eq_nil_iff] at hnew
      exact hne hnew.2
    cases hcase with
    | flow hn f => exact ⟨hn, ⟨f⟩, fetchRun_words f.decode.fetchDecode hran.fetch hnew⟩
    | flush _ g => exact (hflush g.stages).elim
    | walk v _ => exact (hflush v.stages).elim
  · rw [hran.toRanBack.fetchRun_eq hback, hran.fetch] at herr
    cases herr

/-- The pack was pushed by the fetch of a cycle from `n` on and before `k`. -/
def FetchedSince (env : Env) (n k : Nat) (x : DecodeRenamePack) : Prop :=
  ∃ j m logs s new q, n ≤ j ∧ j < k ∧ run env j = .ok (m, logs) ∧ s.Ran env j m ∧ Pushed s new ∧ q ∈ new ∧
    x = Decode.decodePack q

/-- A later bound holds too. -/
theorem FetchedSince.mono {k k' : Nat} {x : DecodeRenamePack} (h : FetchedSince env n k x) (hle : k ≤ k') :
    FetchedSince env n k' x := by
  obtain ⟨j, m, logs, s, new, q, hn, hj, hrest⟩ := h
  exact ⟨j, m, logs, s, new, q, hn, hj.trans_le hle, hrest⟩

theorem mem_retireEvents {mepc mepc' : Word} {b b' : Arch} {es : List Entry} {e : Entry}
    (h : .retire b' mepc' e ∈ retireEvents mepc b es) : e ∈ es := by
  obtain ⟨b'', e', heq, he⟩ := exists_of_mem_retireEvents h
  cases heq
  exact he

/-- What is in flight after a cycle was so before it, or its fetch has pushed it; what retires was in flight. -/
theorem CycleCase.inFlight (h : CycleCase env n m w s) (hu : s.Synced env n m u) :
    (∀ x ∈ MyRiscvCore.inFlight (s.machine env n m u) (w.step (s.log env n m u)),
      x ∈ MyRiscvCore.inFlight m w ∨ ∃ new, Pushed s new ∧ ∃ q ∈ new, x = Decode.decodePack q) ∧
    ∃ evs, (w.step (s.log env n m u)).events = w.events ++ evs ∧
      ∀ b mepc e, .retire b mepc e ∈ evs → e.op.toDecodeRenamePack ∈ MyRiscvCore.inFlight m w := by
  have hsub {e : Entry} (he : e ∈ w.flight) : e.op.toDecodeRenamePack ∈ MyRiscvCore.inFlight m w :=
    List.mem_append_left _ (List.mem_map_of_mem he)
  -- a flush leaves at most what was in flight
  have hflush (hst : FlushStages env n m s) (hle : ∀ e ∈ (w.step (s.log env n m u)).flight, e ∈ w.flight) :
      ∀ x ∈ MyRiscvCore.inFlight (s.machine env n m u) (w.step (s.log env n m u)),
        x ∈ MyRiscvCore.inFlight m w ∨ ∃ new, Pushed s new ∧ ∃ q ∈ new, x = Decode.decodePack q := by
    intro x hx
    rw [hst.inFlight_after] at hx
    obtain ⟨e, he, rfl⟩ := List.mem_map.mp hx
    exact .inl (hsub (hle e he))
  cases h with
  | flow h f =>
    refine ⟨fun x hx => ?_, _, f.step_events h u, fun b mepc e he => hsub ?_⟩
    · rw [f.inFlight_after h] at hx
      obtain hx | hx := List.mem_append.mp hx
      · refine .inl ?_
        rw [f.inFlight_before]
        exact List.mem_append_right _ hx
      · obtain ⟨q, hq, rfl⟩ := List.mem_map.mp hx
        exact .inr ⟨f.fetched, f.fetch.list, q, hq, rfl⟩
    · rw [f.flight]
      exact List.mem_append_left _ (mem_retireEvents he)
  | flush h g =>
    refine ⟨hflush g.stages fun e he => ?_, _, g.step_events h hu, fun b mepc e he => hsub ?_⟩
    · rw [g.step_eq h (g.updated h hu)] at he
      exact g.mem_kept he
    · rw [g.flight]
      exact List.mem_append_left _ (mem_retireEvents he)
  | walk v h =>
    by_cases hpre : v.pre = []
    · have hstep := v.step_last h (v.updated h hu) hpre
      refine ⟨hflush v.stages fun e he => ?_, [w.trapEvent (s.log env n m u)], by rw [hstep], fun b mepc e he => ?_⟩
      · rw [hstep] at he
        exact absurd he List.not_mem_nil
      · exact absurd (List.mem_singleton.mp he).symm (Window.trapEvent_ne_retire w _)
    · have hstep := v.step_eq h (v.updated h hu) hpre
      refine ⟨hflush v.stages fun e he => ?_, [], by rw [hstep, List.append_nil], fun b mepc e he => ?_⟩
      · rwa [hstep] at he
      · exact absurd he List.not_mem_nil

/-- From a cycle with nothing in flight on, everything in flight has been fetched since, and so has everything
that retires. -/
theorem run_fetchedSince (h : run env n = .ok (m, logs)) (hempty : inFlight m (Window.after env logs) = []) {k : Nat}
    {logs' : List CycleLog} (hle : n ≤ k) (h' : run env k = .ok (m', logs')) :
    (∀ x ∈ inFlight m' (Window.after env logs'), FetchedSince env n k x) ∧
    ∃ evs, (Window.after env logs').events = (Window.after env logs).events ++ evs ∧
      ∀ b mepc e, .retire b mepc e ∈ evs → FetchedSince env n k e.op.toDecodeRenamePack := by
  induction k, hle using Nat.le_induction generalizing m' logs' with
  | base =>
    cases h.symm.trans h'
    refine ⟨fun x hx => ?_, [], (List.append_nil _).symm, fun b mepc e he => ?_⟩
    · rw [hempty] at hx
      exact absurd hx List.not_mem_nil
    · exact absurd he List.not_mem_nil
  | succ k hle ih =>
    obtain ⟨m₀, logs₀, log, hrun, hc, rfl⟩ := run_succ.mp h'
    obtain ⟨hold, evs, hevents, hretired⟩ := ih hrun
    obtain ⟨s, u, hcase, hu, rfl, rfl⟩ := (run_refines hrun).cycle_ok hc
    obtain ⟨hnew, evs', hevents', hretired'⟩ := hcase.inFlight hu
    rw [Window.after_snoc]
    refine ⟨fun x hx => ?_, evs ++ evs', by rw [hevents', hevents, List.append_assoc], fun b mepc e he => ?_⟩
    · obtain hx | ⟨new, hpushed, q, hq, rfl⟩ := hnew x hx
      · exact (hold x hx).mono (Nat.le_succ k)
      · exact ⟨k, m₀, logs₀, s, new, q, hle, Nat.lt_succ_self k, hrun, hcase.ran, hpushed, hq, rfl⟩
    · obtain he | he := List.mem_append.mp he
      · exact (hretired b mepc e he).mono (Nat.le_succ k)
      · exact (hold _ (hretired' b mepc e he)).mono (Nat.le_succ k)

/-- A `fence.i` that fetch pushes is the first of its group, the pipeline is empty, and the memory has every
store of the program so far; whatever is fetched from then on is read from a memory that these stores and
later ones have made, and whatever retires from then on is fetched from then on. -/
theorem fenceI_ordering (h : run env n = .ok (m, logs)) (hran : s.Ran env n m) {new : List FetchDecodePack}
    (hnew : Pushed s new) {p : FetchDecodePack} (hp : p ∈ new) (hfence : Fetch.isFenceI p.value = true) :
    new.head? = some p ∧ Drained m s ∧
      m.bus.memory = (programStores (Window.after env logs).events).foldl applyStore env.memory ∧
      (∀ n' m₂ logs₂ s₂ new₂ q, n ≤ n' → run env n' = .ok (m₂, logs₂) → s₂.Ran env n' m₂ → Pushed s₂ new₂ →
        q ∈ new₂ → Fetch.fetchWord m₂.bus q.pc = .ok q.value ∧
        ∃ later : List Bus.Request, m₂.bus.memory = later.foldl applyStore
          ((programStores (Window.after env logs).events).foldl applyStore env.memory)) ∧
      ∀ k m₂ logs₂, n ≤ k → run env k = .ok (m₂, logs₂) →
        ∃ evs, (Window.after env logs₂).events = (Window.after env logs).events ++ evs ∧
          ∀ b mepc e, .retire b mepc e ∈ evs → FetchedSince env n k e.op.toDecodeRenamePack := by
  obtain ⟨hn, ⟨f⟩, -, hfi⟩ := pushed_words h hran hnew (List.ne_nil_of_mem hp)
  obtain ⟨pre, post, rfl⟩ := List.append_of_mem hp
  obtain ⟨rfl, hidle, hridle, hen, hempty⟩ := hfi pre p post rfl hfence
  obtain ⟨hdrained, hflight⟩ := f.drained hn (run_portsOnce h) hidle hridle hen hempty
  -- the store buffer is empty, so every store is in memory
  have hwrites : logs.flatMap (·.writes) = programStores (Window.after env logs).events := by
    obtain ⟨com, hlist, hcom⟩ := hn.store.items
    rw [hdrained.storeBuffer, eq_comm, List.append_eq_nil_iff] at hlist
    have hall := hcom.writes
    rw [hlist.1, List.map_nil, List.append_nil, Window.writes_after] at hall
    rw [hall, (programStores_eq (run_inOrder h).events).1]
  have hnone : inFlight m (Window.after env logs) = [] := by
    rw [inFlight, hflight, frontPacks, hdrained.decodeRename.1, hdrained.fetchDecode.1]
    rfl
  refine ⟨rfl, hdrained, by rw [run_memory h, hwrites], fun n' m₂ logs₂ s₂ new₂ q hle h₂ hran₂ hnew₂ hq => ?_,
    fun k m₂ logs₂ hle h₂ => (run_fetchedSince h hnone hle h₂).2⟩
  obtain ⟨-, -, hwords, -⟩ := pushed_words h₂ hran₂ hnew₂ (List.ne_nil_of_mem hq)
  obtain ⟨more, rfl⟩ := run_logs h hle h₂
  refine ⟨hwords q hq, more.flatMap (·.writes), ?_⟩
  rw [run_memory h₂, List.flatMap_append, List.foldl_append, hwrites]

/-- What is in an empty fetch FIFO after a cycle was pushed in it. -/
theorem exists_pushed (h : run env n = .ok (m, logs)) (hc : cycle env n m = .ok (m', log))
    (hempty : m.fetchDecodeFifo.toList = []) (hne : m'.fetchDecodeFifo.toList ≠ []) :
    ∃ s : Stages, s.Ran env n m ∧ Pushed s m'.fetchDecodeFifo.toList := by
  obtain ⟨s, u, hcase, -, rfl, -⟩ := (run_refines h).cycle_ok hc
  refine ⟨s, hcase.ran, ?_⟩
  cases hcase with
  | flow hn f =>
    have htaken := f.decode.taken
    rw [Fifo.toList_resetPopStatus, hempty, eq_comm, List.append_eq_nil_iff] at htaken
    rw [Pushed, htaken.2]
    rfl
  | flush _ g => exact absurd (g.stages.drained u).2.1 hne
  | walk v _ => exact absurd (v.stages.drained u).2.1 hne

/-- `sw`, `fence.i`: the cycle that fetches the `fence.i`. -/
def storeFenceI : List Word := [0x800000b7, 0x0410a023, 0x0000100f, 0x0400a183]

/-- The cycle that fetches the `fence.i` after a store. -/
theorem fenceI_ordering_storeFenceI : ∃ m logs s new p, run (Env.ofProgram storeFenceI) 13 = .ok (m, logs) ∧
    s.Ran (Env.ofProgram storeFenceI) 13 m ∧ Pushed s new ∧ p ∈ new ∧ Fetch.isFenceI p.value = true ∧
    Drained m s ∧ m.bus.memory = (programStores (Window.after (Env.ofProgram storeFenceI) logs).events).foldl
      applyStore (Env.ofProgram storeFenceI).memory := by
  obtain ⟨m', logs', hrun', hfence⟩ := exists_run_of
    (show endsWith (fun m _ => m.fetchDecodeFifo.toList.head?.any fun p => Fetch.isFenceI p.value)
      (run (Env.ofProgram storeFenceI) 14) = true by decide +kernel)
  obtain ⟨m, logs, log, hrun, hc, rfl⟩ := run_succ.mp hrun'
  obtain ⟨m₀, logs₀, hrun₀, hempty⟩ := exists_run_of
    (show endsWith (fun m _ => m.fetchDecodeFifo.toList.isEmpty) (run (Env.ofProgram storeFenceI) 13) = true by
      decide +kernel)
  cases hrun₀.symm.trans hrun
  obtain ⟨p, hp, hfi⟩ := (Option.any_eq_true _ _).mp hfence
  have hmem := List.mem_of_mem_head? hp
  obtain ⟨s, hran, hpushed⟩ := exists_pushed hrun hc (List.isEmpty_iff.mp hempty) (List.ne_nil_of_mem hmem)
  obtain ⟨-, hdrained, hmemory, -, -⟩ := fenceI_ordering hrun hran hpushed hmem hfi
  exact ⟨m, logs, s, _, p, hrun, hran, hpushed, hmem, hfi, hdrained, hmemory⟩

end Fence

end MyRiscvCore
