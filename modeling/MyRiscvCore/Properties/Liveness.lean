import MyRiscvCore.Properties.Fences
import MyRiscvCore.Refine.FrontProgress

/-!
# MyRiscvCore — the machine never stands still

`makes_progress`: in every state of every run, the next instruction retires or traps within a number of cycles that is
bounded by the size of the reorder buffer and the stores in the store buffer, unless the simulator stops before.

The bound is a measure of the state (`Due`), and every cycle without an event makes it smaller. Two wait for the store
buffer: a `fence` at the head of the reorder buffer, and fetch, which holds a `fence.i` back. Both keep new stores out
meanwhile, so the store buffer drains.
-/

namespace MyRiscvCore

instance (e : Entry) (m : Machine) : Decidable (e.Sent m) := inferInstanceAs (Decidable (_ ∨ _))

/-- A bound on the cycles until the oldest instruction is finished; a `fence` waits for the store buffer. -/
def Entry.remaining (m : Machine) (e : Entry) : Nat :=
  e.distance m + if e.op.op = .fence ∧ ¬ e.Sent m then m.storeBuffer.count else 0

theorem Entry.remaining_le (m : Machine) (e : Entry) : e.remaining m ≤ e.distance m + m.storeBuffer.count := by
  unfold Entry.remaining
  split_ifs <;> omega

namespace FlowStages

variable {env : Env} {n : Nat} {m : Machine} {w : Window} {s : Stages} {u : Updates} {e : Entry} {rest : List Entry}

/-- Nothing that is sent: no store in flight has executed and none executes. -/
theorem storeBuffer_count (f : FlowStages env n m w s) (h : Normal m w) (hu : s.Synced env n m u)
    (hidle : ∀ x ∈ w.flight, ¬ x.Sent m) :
    (s.machine env n m u).storeBuffer.count = m.storeBuffer.count - 1 := by
  have hpacks : unitPacks m.unitFifos m.lsuHold = [] := by
    by_contra hne
    obtain ⟨p, hp⟩ := List.exists_mem_of_ne_nil _ hne
    obtain ⟨pre, x, post, v1, v2, hf, -, -, rfl⟩ := h.loc.pack p hp
    exact hidle x (by rw [hf]; simp) (.inr (List.mem_map.mpr ⟨_, hp, packOf_robId ..⟩))
  have hpushes : s.ex.pushes = [] := by
    have hdone : f.done = [] := by
      have hperm := f.execute.perm
      rw [hpacks] at hperm
      exact List.map_eq_nil_iff.mp (List.append_eq_nil_iff.mp hperm.nil_eq.symm).1
    obtain ⟨x, hx, -⟩ | ⟨hnil, -⟩ := f.execute.pushes
    · rw [hdone] at hx
      cases hx
    · exact hnil
  have hstores : storesOf w.flight = [] := by
    refine List.filterMap_eq_nil_iff.mpr fun x hx => Entry.storeItem_of_waiting ?_
    exact (Entry.distance_unsent (hidle x hx)).1
  exact (f.storeBuffer_drains h hu hstores hpushes).2

/-- A `fence` that is not sent comes nearer to it, or a store is written. -/
theorem fence_remaining_lt (f : FlowStages env n m w s) (h : Normal m w) (hd : DispatchOk m w) (hfo : FenceOk m w)
    (hu : s.Synced env n m u) (hf : w.flight = e :: rest) (hret : f.ret = []) (hop : e.op.op = .fence)
    (hsent : ¬ e.Sent m) : (e.advance s.ex.ports).remaining (s.machine env n m u) < e.remaining m := by
  have hcount := f.storeBuffer_count h hu fun x hx hxs => by
    rw [hf] at hx
    obtain rfl | hx := List.mem_cons.mp hx
    · exact hsent hxs
    · exact hsent (hfo.younger [] e rest hf hop x hx hxs)
  have hle := (e.advance s.ex.ports).remaining_le (s.machine env n m u)
  have hrem : e.remaining m = e.distance m + m.storeBuffer.count := by rw [Entry.remaining, if_pos ⟨hop, hsent⟩]
  by_cases hq : e.op.robId ∈ m.issue.issueQ.toList.map (·.robId)
  swap
  · have hlt := f.unqueued_distance_lt h hd hf hsent hq u
    omega
  obtain ⟨hw, hp, hdist⟩ := Entry.distance_unsent hsent
  rw [hrem, hdist, if_pos hq]
  by_cases hsel : e.op.robId ∈ f.sel.map (·.robId)
  · -- once it is sent the store buffer does not count
    have hsent' := (f.sent_iff h u e).mpr (.inr hsel)
    have hdist' := Entry.distance_sent (m := s.machine env n m u) (e := e.advance s.ex.ports)
      (f.mem_packs_ids.mpr (.inr hsel))
    have hrem' : (e.advance s.ex.ports).remaining (s.machine env n m u) =
        (e.advance s.ex.ports).distance (s.machine env n m u) := by
      rw [Entry.remaining, if_neg fun hno => hno.2 hsent', Nat.add_zero]
    rw [hrem']
    split_ifs at hdist' <;> omega
  · -- it stays in the queue, so there was a store to wait for
    have hempty : ¬ m.storeBuffer.isEmpty = true := fun hempty =>
      hsel (f.head_selected h hd (f.rest_of_ret_nil hf hret) hw (fun _ => hempty) hp hq)
    rw [Bool.not_eq_true, h.store.wf.isEmpty_eq_false] at hempty
    obtain ⟨i, hi, hid⟩ := List.mem_map.mp hq
    have hkeep : i ∈ f.keep := (List.mem_append.mp (f.issue.split.mem_iff.mp hi)).resolve_left fun hi =>
      hsel (List.mem_map.mpr ⟨i, hi, hid⟩)
    have hdist' := Entry.distance_queue (m := s.machine env n m u) (e := e.advance s.ex.ports) (by
      show e.op.robId ∈ s.is.state.issueQ.toList.map (·.robId)
      rw [f.queue_ids h]
      exact List.mem_map.mpr ⟨i, List.mem_append_left _ hkeep, hid⟩)
    omega

theorem remaining_lt (f : FlowStages env n m w s) (h : Normal m w) (hd : DispatchOk m w) (hfo : FenceOk m w)
    (hu : s.Synced env n m u) (hf : w.flight = e :: rest) (hret : f.ret = []) :
    (e.advance s.ex.ports).remaining (s.machine env n m u) < e.remaining m := by
  by_cases hop : e.op.op = .fence
  · by_cases hsent : e.Sent m
    · have hsent' := (f.sent_iff h u e).mpr (.inl hsent)
      rw [Entry.remaining, Entry.remaining, if_neg fun hno => hno.2 hsent', if_neg fun hno => hno.2 hsent]
      exact f.sent_distance_lt h hu hf hret hsent
    · exact f.fence_remaining_lt h hd hfo hu hf hret hop hsent
  · rw [Entry.remaining, Entry.remaining, if_neg fun hno => hop hno.1, if_neg fun hno => hop hno.1]
    exact f.distance_lt h hd hu hf hret hop

end FlowStages

section Front

variable {env : Env} {n : Nat} {m : Machine} {w : Window} {s : Stages} {u : Updates}

/-- A cycle with nothing in flight renames an instruction, or brings one nearer, or writes a store that a `fence.i`
waits for. -/
theorem FlowStages.front_lt (f : FlowStages env n m w s) (h : Normal m w) (hflight : w.flight = [])
    (hu : s.Synced env n m u) : f.news ≠ [] ∨
      frontDistance (s.machine env n m u) + (s.machine env n m u).storeBuffer.count <
        frontDistance m + m.storeBuffer.count := by
  have hcount := f.storeBuffer_count h hu (by rw [hflight]; simp)
  obtain hnews | hlt | ⟨hle, -, hpos⟩ := f.front_step h hflight u
  · exact .inl hnews
  · exact .inr (by omega)
  · exact .inr (by omega)

end Front

/-! ## The measure

`Due m w k`: an event is at most `k` cycles away. -/

/-- An event is due within `k` cycles. -/
inductive Due (m : Machine) (w : Window) : Nat → Prop
  | front (h : Normal m w) (hf : w.flight = []) : Due m w (frontDistance m + m.storeBuffer.count + robSize + 8)
  | head {e : Entry} {rest : List Entry} (h : Normal m w) (hf : w.flight = e :: rest) :
    Due m w (e.remaining m + robSize + 1)
  | walk {j : Nat} (h : Walk m w j) : Due m w j

section Step

variable {env : Env} {n : Nat} {m : Machine} {w : Window} {s : Stages} {u : Updates} {k : Nat}

theorem Normal.flight_le (h : Normal m w) : w.flight.length ≤ robSize := by
  have hle := h.rob.wf.count_le
  rwa [h.rob.size, ← Fifo.length_ids, h.rob.ids, List.length_map] at hle

/-- What is in flight is due before what is fetched. -/
theorem Due.of_flight (h : Normal m w) (hne : w.flight ≠ []) :
    ∃ k ≤ m.storeBuffer.count + robSize + 8, Due m w k := by
  obtain ⟨e, rest, hf⟩ := List.exists_cons_of_ne_nil hne
  have hrem := e.remaining_le m
  have hdist := e.distance_le (m := m)
  exact ⟨_, by omega, .head h hf⟩

/-- Every reachable state has a bound. -/
theorem Due.of_refines (h : Refines m w) : ∃ k ≤ robSize + m.storeBuffer.count + 12, Due m w k := by
  obtain h | ⟨j, h⟩ := h
  · by_cases hf : w.flight = []
    · have hle := frontDistance_le m
      exact ⟨_, by omega, .front h hf⟩
    · obtain ⟨k, hk, hdue⟩ := Due.of_flight h hf
      exact ⟨k, by omega, hdue⟩
  · have hlen := h.rob.wf.count_le
    rw [h.rob.size, ← Fifo.length_ids, h.rob.ids] at hlen
    have hj := (List.getElem?_eq_some_iff.mp h.restore.2).1
    exact ⟨j, by omega, .walk h⟩

/-- A cycle without an event brings one nearer. -/
theorem Due.step (hdue : Due m w k) (hd : m.commit.curState = .normal → DispatchOk m w)
    (hfo : m.commit.curState = .normal → FenceOk m w) (hcase : CycleCase env n m w s) (hu : s.Synced env n m u) :
    (∃ ev evs, (w.step (s.log env n m u)).events = w.events ++ ev :: evs) ∨
      ((w.step (s.log env n m u)).events = w.events ∧
        ∃ k' < k, Due (s.machine env n m u) (w.step (s.log env n m u)) k') := by
  cases hdue with
  -- nothing in flight: fetch, decode and rename move, or rename sends something on
  | front h hf =>
    obtain ⟨-, ⟨f⟩⟩ := hcase.flow_of_empty hf
    obtain ⟨hret, hrest⟩ := List.append_eq_nil_iff.mp (f.flight.symm.trans hf)
    have hevents : (w.step (s.log env n m u)).events = w.events := by
      rw [f.step_events h u, hret, retireEvents, List.append_nil]
    have hnew : (w.step (s.log env n m u)).flight = f.news := by
      rw [f.step_eq h u, f.window_flight u, hrest]
      rfl
    refine .inr ⟨hevents, ?_⟩
    by_cases hnews : f.news = []
    · have hlt := (f.front_lt h hf hu).resolve_left (not_not_intro hnews)
      exact ⟨_, by omega, .front (f.normal h hu) (hnew.trans hnews)⟩
    · have hcount := f.storeBuffer_count h hu (by rw [hf]; simp)
      have hpos := frontDistance_pos m
      obtain ⟨k', hk', hdue'⟩ := Due.of_flight (f.normal h hu) (hnew.trans_ne hnews)
      exact ⟨k', by omega, hdue'⟩
  | @head e rest h hf =>
    have hlen := h.flight_le
    cases hcase with
    | flow _ f =>
      have hevents := f.step_events h u
      cases hret : f.ret with
      | nil =>
        rw [hret, retireEvents, List.append_nil] at hevents
        have hrest : f.rest = e :: rest := by rw [← hf, f.flight, hret]; rfl
        have hf' : (w.step (s.log env n m u)).flight =
            e.advance s.ex.ports :: (rest.map (Entry.advance s.ex.ports) ++ f.news) := by
          rw [f.step_eq h u, f.window_flight, hrest]
          rfl
        have hlt := f.remaining_lt h (hd h.phase) (hfo h.phase) hu hf hret
        exact .inr ⟨hevents, _, by omega, .head (f.normal h hu) hf'⟩
      | cons x xs =>
        rw [hret] at hevents
        exact .inl ⟨_, _, hevents⟩
    | flush _ g =>
      have hevents := g.step_events h hu
      cases hret : g.ret with
      | nil =>
        rw [hret, retireEvents, List.append_nil] at hevents
        rw [g.flight, hret, List.nil_append] at hlen
        exact .inr ⟨hevents, _, by omega, .walk (g.trap h hu (g.not_miss hret))⟩
      | cons x xs =>
        rw [hret] at hevents
        exact .inl ⟨_, _, hevents⟩
    | walk v h' => exact absurd h.phase h'.phase
  | @walk j h =>
    cases hcase with
    | flow h' f => exact absurd h'.phase h.phase
    | flush h' g => exact absurd h'.phase h.phase
    | walk v h' =>
      obtain rfl := h.unique h'
      have hup := v.updated h hu
      by_cases hpre : v.pre = []
      · exact .inl ⟨w.trapEvent (s.log env n m u), [], by rw [v.step_last h hup hpre]⟩
      · exact .inr ⟨by rw [v.step_eq h hup hpre], _, Nat.lt_succ_self _, .walk (v.step h hu hpre)⟩

end Step

section Run

variable {env : Env} {n k : Nat} {m m' : Machine} {logs logs' : List CycleLog}

/-- After `k` cycles there is an event or the bound has fallen by `k`. -/
theorem event_or_due (h : run env n = .ok (m, logs)) (k : Nat) (h' : run env (n + k) = .ok (m', logs')) :
    (∃ ev evs, (Window.after env logs').events = (Window.after env logs).events ++ ev :: evs) ∨
      ((Window.after env logs').events = (Window.after env logs).events ∧
        ∃ d, d + k ≤ robSize + m.storeBuffer.count + 12 ∧ Due m' (Window.after env logs') d) := by
  induction k generalizing m' logs' with
  | zero =>
    obtain ⟨rfl, rfl⟩ := Prod.ext_iff.mp (Except.ok.inj (h.symm.trans h'))
    exact .inr ⟨rfl, Due.of_refines (run_refines h)⟩
  | succ k ih =>
    obtain ⟨m₀, logs₀, log, h₀, hc, rfl⟩ := (run_succ (n := n + k)).mp h'
    obtain ⟨s, u, hcase, hu, rfl, rfl⟩ := (run_refines h₀).cycle_ok hc
    rw [Window.after_snoc]
    obtain ⟨ev, evs, hevents⟩ | ⟨hevents, d, hd, hdue⟩ := ih h₀
    · obtain ⟨more, hmore⟩ := (Window.after env logs₀).step_events (s.log env (n + k) m₀ u)
      rw [hmore, hevents, List.append_assoc]
      exact .inl ⟨ev, evs ++ more, rfl⟩
    · rw [← hevents]
      obtain hev | ⟨hsame, d', hlt, hdue'⟩ := hdue.step (run_dispatchOk h₀) (run_fences h₀).1 hcase hu
      · exact .inl hev
      · exact .inr ⟨hsame, d', by omega, hdue'⟩

/-- From any cycle of a run on, an instruction retires or traps within a bounded number of cycles. -/
theorem makes_progress (h : run env n = .ok (m, logs)) (hk : robSize + m.storeBuffer.count + 13 ≤ k)
    (h' : run env (n + k) = .ok (m', logs')) :
    ∃ ev evs, (Window.after env logs').events = (Window.after env logs).events ++ ev :: evs := by
  obtain hev | ⟨-, d, hd, -⟩ := event_or_due h k h'
  · exact hev
  · omega

/-- A `fence` and a jump to itself. -/
def spin : List Word := [0x0000000f, 0x0000006f]

/-- The first instruction is done within 77 cycles of the reset. -/
theorem makes_progress_spin : ∃ m logs ev evs, run (Env.ofProgram spin) 77 = .ok (m, logs) ∧
    (Window.after (Env.ofProgram spin) logs).events = ev :: evs := by
  obtain ⟨m, logs, h, -⟩ := exists_run_of (show endsWith (fun _ _ => true)
    (run (Env.ofProgram spin) 77) = true by decide +kernel)
  obtain ⟨m₀, logs₀, h₀, hempty⟩ := exists_run_of (show endsWith (fun m logs => m.storeBuffer.count == 0 &&
    (Window.after (Env.ofProgram spin) logs).events.isEmpty) (run (Env.ofProgram spin) 0) = true by decide +kernel)
  obtain ⟨hcount, hnone⟩ := Bool.and_eq_true_iff.mp hempty
  obtain ⟨ev, evs, hevents⟩ := makes_progress (k := 77) h₀ (by rw [eq_of_beq hcount]) h
  rw [List.isEmpty_iff.mp hnone] at hevents
  exact ⟨m, logs, ev, evs, h, hevents⟩

end Run

end MyRiscvCore
