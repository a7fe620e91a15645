import MyRiscvCore.Refine.InOrder

/-!
# MyRiscvCore — what the issue stage keeps

The queue is in program order, and while a CSR instruction or `mret` is on its way issue waits for it and
sends nothing younger.
-/

namespace MyRiscvCore

/-- CSR instructions and `mret`. -/
def Entry.isSerial (e : Entry) : Bool := e.op.opUnit == .csr || e.op.op == .mret

theorem Entry.isSerial_eq {e : Entry} {i : ReadregIssueOp} (h : e.op = i.toRenameReadregOp) :
    e.isSerial = Issue.isSerial i := by
  rw [Entry.isSerial, h]
  rfl

/-- An instruction in flight has been handed to a unit. -/
def Entry.Sent (e : Entry) (m : Machine) : Prop :=
  e.isWaiting = false ∨ e.op.robId ∈ (unitPacks m.unitFifos m.lsuHold).map (·.robId)

/-- What the issue stage keeps in the normal state: the instructions before the units are in program order; no
instruction is sent while an older serial one is in flight; issue waits for a serial one that is sent, and for
nothing else. -/
structure DispatchOk (m : Machine) (w : Window) : Prop where
  order : ((queuedItems m).map (·.robId) ++ (m.renameReadregPort.filter (·.enable)).map (·.robId)).Sublist
    (w.flight.map (·.op.robId))
  alone : ∀ pre e post, w.flight = pre ++ e :: post →
    e.op.robId ∈ (unitPacks m.unitFifos m.lsuHold).map (·.robId) → ∀ x ∈ pre, x.isSerial = false
  waits : ∀ id, m.issue.WaitsFor id ↔ ∃ e ∈ w.flight, e.op.robId = id ∧ e.isSerial = true ∧ e.Sent m

section Lists

variable {α : Type} {l p q : List α}

/-- A list in the order of `p ++ q` that has nothing of `p` is in the order of `q`. -/
theorem sublist_of_append (h : l.Sublist (p ++ q)) (hp : ∀ x ∈ l, x ∉ p) : l.Sublist q := by
  obtain ⟨l₁, l₂, rfl, h₁, h₂⟩ := List.sublist_append_iff.mp h
  cases l₁ with
  | nil => exact h₂
  | cons x l₁ => exact absurd (h₁.subset List.mem_cons_self) (hp x (by simp))

/-- What comes before `c` in the whole comes before it in the part. -/
theorem mem_before {a b : List α} {c x : α} (h : (a ++ c :: b).Sublist (p ++ c :: q))
    (hnd : (p ++ c :: q).Nodup) (hx : x ∈ p) (hmem : x ∈ a ++ c :: b) : x ∈ a := by
  have hcp : c ∉ p := fun hc => (List.nodup_append.mp hnd).2.2 c hc c List.mem_cons_self rfl
  have hxq : x ∉ c :: q := fun hc => (List.nodup_append.mp hnd).2.2 x hx x hc rfl
  obtain hmem | hmem := List.mem_append.mp hmem
  · exact hmem
  · obtain ⟨l₁, l₂, hsplit, h₁, h₂⟩ := List.sublist_append_iff.mp ((List.sublist_append_right a _).trans h)
    cases l₁ with
    | nil =>
      rw [List.nil_append] at hsplit
      exact absurd (h₂.subset (hsplit ▸ hmem)) hxq
    | cons y l₁ =>
      obtain ⟨rfl, -⟩ := List.cons_eq_cons.mp hsplit
      exact absurd (h₁.subset List.mem_cons_self) hcp

end Lists

section Dispatch

variable {env : Env} {n : Nat} {m : Machine} {w : Window} {logs : List CycleLog} {s : Stages} {u : Updates}

theorem DispatchOk.empty (hflight : w.flight = []) (hitems : queuedItems m = [])
    (hport : m.renameReadregPort.filter (·.enable) = []) (hwait : m.issue.isInstWaiting = false) :
    DispatchOk m w where
  order := by rw [hitems, hport]; exact List.nil_sublist _
  alone pre e post hf := by rw [hflight] at hf; simp at hf
  waits id := by simp [hflight, IssueState.WaitsFor, hwait]

/-- What the queue holds is not retired. -/
theorem Normal.queued_not_retired (h : Normal m w) {ret rest : List Entry} (hf : w.flight = ret ++ rest)
    (hret : Retired ret) {id : Nat}
    (hid : id ∈ (queuedItems m).map (·.robId) ++ (m.renameReadregPort.filter (·.enable)).map (·.robId)) :
    id ∉ ret.map (·.op.robId) := by
  intro hmem
  obtain ⟨e, he, hw, rfl⟩ := mem_map_filter.mp (h.loc.conserved.mem_iff.mpr (List.mem_append_right _ hid))
  obtain ⟨x, hx, hxid⟩ := List.mem_map.mp hmem
  have hxf : x ∈ w.flight := by rw [hf]; exact List.mem_append_left _ hx
  obtain rfl := h.rob.eq_of_robId_eq hxf he hxid
  rw [hret.isWaiting hx] at hw
  cases hw

/-- The instructions before the units are in the order of those that stay. -/
theorem DispatchOk.order_rest (hd : DispatchOk m w) (h : Normal m w) {ret rest : List Entry}
    (hf : w.flight = ret ++ rest) (hret : Retired ret) :
    ((queuedItems m).map (·.robId) ++ (m.renameReadregPort.filter (·.enable)).map (·.robId)).Sublist
      (rest.map (·.op.robId)) := by
  have horder := hd.order
  rw [hf, @List.map_append _ _ _ ret] at horder
  exact sublist_of_append horder fun id hid => h.queued_not_retired hf hret hid

namespace FlowStages

theorem order_normal (f : FlowStages env n m w s) (h : Normal m w) (hd : DispatchOk m w) (u : Updates) :
    ((queuedItems (s.machine env n m u)).map (·.robId) ++
      ((s.machine env n m u).renameReadregPort.filter (·.enable)).map (·.robId)).Sublist
    ((f.rest.map (Entry.advance s.ex.ports) ++ f.news).map (·.op.robId)) := by
  obtain ⟨moved, more, hrest, hmore, -, hren⟩ :=
    h.rest_flow (f.readHyp h) f.issue f.readregStall f.readreg
  have hkey (l : List ReadregIssueOp) : l.map (·.robId) = (l.map (·.key)).map (·.1) := by
    rw [List.map_map]
    rfl
  have hkey' (l : List RenameReadregOp) : l.map (·.robId) = (l.map (·.key)).map (·.1) := by
    rw [List.map_map]
    rfl
  -- what stays, with what rename adds
  have hids : (queuedItems (s.machine env n m u)).map (·.robId) ++
      ((s.machine env n m u).renameReadregPort.filter (·.enable)).map (·.robId) =
      ((f.keep ++ (f.taken ++ f.left)).map (·.robId) ++
        (m.renameReadregPort.filter (·.enable)).map (·.robId)) ++ f.news.map (·.op.robId) := by
    show (s.is.state.issueQ.toList ++ untaken s.readreg s.is.state).map (·.robId) ++
      (s.rn.port.filter (·.enable)).map (·.robId) = _
    rw [f.port_filter, hrest, List.map_append, hkey s.is.state.issueQ.toList,
      h.queue_keys (f.readHyp h) f.issue, ← hkey, @List.map_append _ _ _ f.left, hkey more, hmore, ← hkey']
    conv_rhs => rw [hren]
    simp only [List.map_append, List.map_map, List.append_assoc]
    rfl
  have hstay : ((f.keep ++ (f.taken ++ f.left)).map (·.robId) ++
      (m.renameReadregPort.filter (·.enable)).map (·.robId)).Sublist
      ((queuedItems m).map (·.robId) ++ (m.renameReadregPort.filter (·.enable)).map (·.robId)) := by
    rw [queuedItems, f.issue.slots]
    exact ((f.issue.order.append_right _).map _).append_right _
  rw [hids, @List.map_append _ _ _ (f.rest.map _), List.map_map]
  exact (hstay.trans (hd.order_rest h f.flight f.retired)).append_right _

/-- What retires is announced by its id. -/
theorem commits_iff (f : FlowStages env n m w s) {id : Nat} :
    s.cm.fb.commits id = true ↔ id ∈ f.ret.map (·.op.robId) := by
  obtain ⟨hids, hnone⟩ := f.committed_ids
  rw [CommitFeedbackPack.commits, Bool.and_eq_true, List.contains_iff_mem, hids, and_iff_right_iff_imp]
  intro hid
  by_contra hen
  rw [← hids, hnone (Bool.not_eq_true _ ▸ hen)] at hid
  exact absurd hid List.not_mem_nil

/-- An instruction that stays in flight does not retire. -/
theorem rest_not_committed (f : FlowStages env n m w s) (h : Normal m w) {e : Entry} (he : e ∈ f.rest) :
    s.cm.fb.commits e.op.robId = false := by
  rw [← Bool.not_eq_true, f.commits_iff]
  have hnd := h.nodup
  rw [f.flight, List.map_append, List.nodup_append] at hnd
  exact fun hid => hnd.2.2 _ hid _ (List.mem_map_of_mem he) rfl

/-- An instruction is sent after the cycle if it was before it, or if it is selected. -/
theorem sent_iff (f : FlowStages env n m w s) (h : Normal m w) (u : Updates) (e : Entry) :
    (e.advance s.ex.ports).Sent (s.machine env n m u) ↔ e.Sent m ∨ e.op.robId ∈ f.sel.map (·.robId) := by
  show (e.advance s.ex.ports).isWaiting = false ∨
    e.op.robId ∈ (unitPacks s.is.fifos s.ex.hold).map (·.robId) ↔ _
  rw [f.mem_packs_ids, ← or_assoc, (f.executedOk h).sent_iff f.execute.perm e]
  rfl

/-- A selected item is an instruction that stays in flight. -/
theorem selected_entry (f : FlowStages env n m w s) (h : Normal m w) {i : ReadregIssueOp} (hi : i ∈ f.sel) :
    ∃ e ∈ f.rest, e.op = i.toRenameReadregOp := by
  have hq : i ∈ queuedItems m :=
    List.mem_append_left _ (f.issue.split.mem_iff.mpr (List.mem_append_left _ hi))
  obtain ⟨pre, e, post, hf, hop, -⟩ := h.loc.item i hq
  have he : e ∈ w.flight := by rw [hf]; simp
  rw [f.flight] at he
  refine ⟨e, (List.mem_append.mp he).resolve_left fun hret => ?_, hop⟩
  refine h.queued_not_retired f.flight f.retired (List.mem_append_left _ (List.mem_map_of_mem hq)) ?_
  exact List.mem_map.mpr ⟨e, hret, congrArg (·.robId) hop⟩

/-- What is not sent and older than a selected instruction, selection has passed in the queue. -/
theorem passed_before (f : FlowStages env n m w s) (h : Normal m w) (hd : DispatchOk m w)
    {pre post : List Entry} {e x : Entry} (hrest : f.rest = pre ++ e :: post)
    (hsel : e.op.robId ∈ f.sel.map (·.robId)) (hx : x ∈ pre) (hsent : ¬ x.Sent m) :
    ∃ y ∈ m.issue.issueQ.toList, x.op = y.toRenameReadregOp ∧
      Issue.Passed m.storeBuffer.isEmpty s.cm.fb y := by
  obtain ⟨i, hi, hid⟩ := List.mem_map.mp hsel
  have hxf : x ∈ w.flight := f.mem_rest (by rw [hrest]; exact List.mem_append_left _ hx)
  rw [Entry.Sent, not_or, Bool.not_eq_false] at hsent
  obtain ⟨qpre, qpost, hq, hplain⟩ := f.issue.first i hi
  have hmem : x.op.robId ∈
      (queuedItems m).map (·.robId) ++ (m.renameReadregPort.filter (·.enable)).map (·.robId) := by
    have hwait := h.loc.conserved.mem_iff.mp (mem_map_filter.mpr ⟨x, hxf, hsent.1, rfl⟩)
    exact (List.mem_append.mp hwait).resolve_left hsent.2
  have hlist : (queuedItems m).map (·.robId) ++ (m.renameReadregPort.filter (·.enable)).map (·.robId) =
      qpre.map (·.robId) ++ e.op.robId :: ((qpost ++ untaken m.readregIssuePort m.issue).map (·.robId) ++
        (m.renameReadregPort.filter (·.enable)).map (·.robId)) := by
    rw [queuedItems, hq, ← hid]
    simp
  have hflight : w.flight.map (·.op.robId) =
      (f.ret ++ pre).map (·.op.robId) ++ e.op.robId :: post.map (·.op.robId) := by
    rw [f.flight, hrest]
    simp
  have hnd := h.nodup
  have horder := hd.order
  rw [hflight] at hnd horder
  rw [hlist] at horder hmem
  -- queue order is program order, so it stands before the selected one
  have hbefore := mem_before horder hnd
    (List.mem_map_of_mem (List.mem_append_right _ hx)) hmem
  obtain ⟨y, hy, hyid⟩ := List.mem_map.mp hbefore
  have hyq : y ∈ m.issue.issueQ.toList := by rw [hq]; exact List.mem_append_left _ hy
  obtain ⟨pre', z, post', hf, hop, -⟩ := h.loc.item y (List.mem_append_left _ hyq)
  obtain rfl : z = x := h.rob.eq_of_robId_eq (by rw [hf]; simp) hxf ((congrArg (·.robId) hop).trans hyid)
  exact ⟨y, hyq, hop, hplain y hy⟩

/-- No item is selected while an older serial instruction stays in flight. -/
theorem selected_alone (f : FlowStages env n m w s) (h : Normal m w) (hd : DispatchOk m w)
    {pre post : List Entry} {e : Entry} (hrest : f.rest = pre ++ e :: post)
    (hsel : e.op.robId ∈ f.sel.map (·.robId)) : ∀ x ∈ pre, x.isSerial = false := by
  intro x hx
  by_contra hser
  rw [Bool.not_eq_false] at hser
  have hxrest : x ∈ f.rest := by rw [hrest]; exact List.mem_append_left _ hx
  by_cases hsent : x.Sent m
  · -- issue waits for it
    rw [f.issue.held _ ((hd.waits _).mpr ⟨x, f.mem_rest hxrest, rfl, hser, hsent⟩)
      (f.rest_not_committed h hxrest)] at hsel
    exact absurd hsel List.not_mem_nil
  · obtain ⟨y, -, hop, hplain⟩ := f.passed_before h hd hrest hsel hx hsent
    rw [Entry.isSerial_eq hop, hplain.1] at hser
    cases hser

/-- Issue waits for the serial instructions that are sent after the cycle. -/
theorem waits_normal (f : FlowStages env n m w s) (h : Normal m w) (hd : DispatchOk m w) (u : Updates)
    (id : Nat) : s.is.state.WaitsFor id ↔ ∃ e ∈ f.rest.map (Entry.advance s.ex.ports) ++ f.news,
      e.op.robId = id ∧ e.isSerial = true ∧ e.Sent (s.machine env n m u) := by
  rw [f.issue.waits, hd.waits]
  constructor
  · rintro (⟨⟨e, he, rfl, hser, hsent⟩, hcom⟩ | ⟨i, hi, hser, rfl⟩)
    · -- what it waited for has not retired
      rw [← Bool.not_eq_true, f.commits_iff] at hcom
      rw [f.flight] at he
      have hrest := (List.mem_append.mp he).resolve_left fun hret => hcom (List.mem_map_of_mem hret)
      exact ⟨_, List.mem_append_left _ (List.mem_map_of_mem hrest), rfl, hser,
        (f.sent_iff h u e).mpr (.inl hsent)⟩
    · obtain ⟨e, he, hop⟩ := f.selected_entry h hi
      have hid : e.op.robId = i.robId := congrArg (·.robId) hop
      exact ⟨_, List.mem_append_left _ (List.mem_map_of_mem he), hid, (Entry.isSerial_eq hop).trans hser,
        (f.sent_iff h u e).mpr (.inr (hid ▸ List.mem_map_of_mem hi))⟩
  · rintro ⟨x, hx, rfl, hser, hsent⟩
    obtain hx | hx := List.mem_append.mp hx
    · obtain ⟨e, he, rfl⟩ := List.mem_map.mp hx
      obtain hold | hsel := (f.sent_iff h u e).mp hsent
      · have hcom := f.rest_not_committed h he
        exact .inl ⟨⟨e, f.mem_rest he, rfl, hser, hold⟩, hcom⟩
      · obtain ⟨i, hi, hid⟩ := List.mem_map.mp hsel
        obtain ⟨e', he', hop⟩ := f.selected_entry h hi
        obtain rfl := h.rob.eq_of_robId_eq (f.mem_rest he') (f.mem_rest he)
          ((congrArg (·.robId) hop).trans hid)
        exact .inr ⟨i, hi, (Entry.isSerial_eq hop).symm.trans hser, hid⟩
    · -- a renamed instruction is not sent yet
      obtain ⟨hw, hp⟩ := f.news_unsent h hx
      obtain hsent | hsent := hsent
      · rw [hw] at hsent
        cases hsent
      · exact absurd hsent hp

theorem dispatchOk (f : FlowStages env n m w s) (h : Normal m w) (hd : DispatchOk m w) (u : Updates) :
    DispatchOk (s.machine env n m u) (w.step (s.log env n m u)) := by
  rw [f.step_eq h u]
  refine ⟨f.order_normal h hd u, fun pre e post hf hp x hx => ?_, f.waits_normal h hd u⟩
  obtain ⟨post', hf', -⟩ | ⟨pre', rfl, hf'⟩ := split_append hf
  · obtain ⟨pre₀, e₀, post₀, hrest, rfl, rfl, -⟩ := split_advance hf'
    obtain ⟨x₀, hx₀, rfl⟩ := List.mem_map.mp hx
    obtain hp | hp := f.mem_packs_ids.mp hp
    · have hold : e₀.op.robId ∈ (unitPacks m.unitFifos m.lsuHold).map (·.robId) := by
        rw [(f.execute.perm.map (·.robId)).mem_iff, List.map_append]
        exact List.mem_append_right _ hp
      exact hd.alone (f.ret ++ pre₀) e₀ post₀ (by rw [f.flight, hrest, List.append_assoc]) hold x₀
        (List.mem_append_right _ hx₀)
    · exact f.selected_alone h hd hrest hp x₀ hx₀
  · exact absurd hp (f.news_unsent h (by rw [hf']; simp)).2

end FlowStages

/-- Every cycle that ends in the normal state keeps it. -/
theorem CycleCase.dispatchOk (h : CycleCase env n m w s) (hd : m.commit.curState = .normal → DispatchOk m w)
    (hu : s.Synced env n m u) (hphase : (s.machine env n m u).commit.curState = .normal) :
    DispatchOk (s.machine env n m u) (w.step (s.log env n m u)) := by
  have hidle (hst : FlushStages env n m s) (hflight : (w.step (s.log env n m u)).flight = []) :
      DispatchOk (s.machine env n m u) (w.step (s.log env n m u)) := by
    obtain ⟨-, -, hqueue, -, -, -⟩ := hst.drained u
    obtain ⟨hrename, hreadreg, -, -⟩ := hst.idle u
    refine .empty hflight ?_ (List.filter_eq_nil_iff.mpr fun o ho => by simp [hrename o ho])
      (congrArg (·.state.isInstWaiting) hst.issue)
    rw [queuedItems, hqueue, List.nil_append, untaken]
    exact List.filter_eq_nil_iff.mpr fun o ho => by simp [hreadreg o (List.mem_of_mem_drop ho)]
  cases h with
  | flow h f => exact f.dispatchOk h (hd h.phase) u
  | flush h g =>
    by_cases hst : g.stop = .miss
    · refine hidle g.stages ?_
      rw [g.step_eq h (g.updated h hu)]
      exact if_pos hst
    · exact absurd hphase (g.trap h hu hst).phase
  | walk v h =>
    by_cases hpre : v.pre = []
    · refine hidle v.stages ?_
      rw [v.step_last h (v.updated h hu) hpre]
    · exact absurd hphase (v.step h hu hpre).phase

theorem run_dispatchOk (h : run env n = .ok (m, logs)) :
    m.commit.curState = .normal → DispatchOk m (Window.after env logs) := by
  refine (run_induction (P := fun _ m logs => m.commit.curState = .normal → DispatchOk m (Window.after env logs))
    (fun m hm _ _ => ?_) (fun n m logs s u _ hP hcase hu hphase => ?_) h).2
  · obtain ⟨rat, -, hm⟩ := bind_eq_ok.mp hm
    obtain ⟨regfile, -, hm⟩ := bind_eq_ok.mp hm
    cases hm
    exact .empty rfl rfl rfl rfl
  · rw [Window.after_snoc]
    exact hcase.dispatchOk hP hu hphase

end Dispatch

end MyRiscvCore
