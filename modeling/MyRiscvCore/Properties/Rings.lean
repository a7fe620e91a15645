import MyRiscvCore.Component.StoreBufferFacts
import MyRiscvCore.Properties.Queues
import MyRiscvCore.Refine.Run

/-!
# MyRiscvCore — the slot ids of the ring buffers

The reorder buffer, the checkpoint buffer, the issue queue and the store buffer are rings whose users hold on to slot
ids and walk from one to the next. Which slots are live is decided from the pointers and their stage bits, and a walk
has to end both when it leaves the live slots and when it comes round a full ring.

`RingState` follows a ring through the calls of its interface and keeps beside it the slots of its entries, oldest
first, as the calls fill and free them; `ring_traversal` says that in every such state, and at every cycle boundary of
every run, the id functions answer for exactly those slots and the walks visit them in order.
-/

namespace MyRiscvCore

/-! ## Walks

The two id walks of the source visit the ring in order. -/

/-- `do { visit id } while(step(id, &id) && (id != start))`: the ids visited in the first `rounds` rounds. -/
def visits (step : Nat → Except Halt (Nat × Bool)) (start : Nat) : Nat → Nat → Except Halt (List Nat)
  | 0, _ => .ok []
  | rounds + 1, id => do
    let (next, valid) ← step id
    if valid && next != start then return id :: (← visits step start rounds next) else return [id]

/-- A walk along a list: each step leads to the next element, and only the last one ends the walk. -/
theorem visits_eq {step : Nat → Except Halt (Nat × Bool)} {start rounds id : Nat} {l : List Nat}
    (hstep : ∀ i a, l[i]? = some a → ∃ next valid, step a = .ok (next, valid) ∧
      (valid && next != start) = decide (i + 1 < l.length) ∧ ∀ b, l[i + 1]? = some b → next = b)
    (hid : l.head? = some id) (hr : l.length ≤ rounds) : visits step start rounds id = .ok l := by
  induction l generalizing rounds id with
  | nil => cases hid
  | cons a rest ih =>
    cases hid
    obtain ⟨r, rfl⟩ : ∃ r, rounds = r + 1 := Nat.exists_eq_add_of_le' (Nat.lt_of_lt_of_le (Nat.succ_pos _) hr)
    obtain ⟨next, valid, hnext, hgo, hto⟩ := hstep 0 a rfl
    simp only [visits, hnext, bind, Except.bind, hgo]
    cases rest with
    | nil => rfl
    | cons b rest =>
      obtain rfl := hto b rfl
      rw [if_pos (by simp), ih (fun i x hx => ?_) rfl (Nat.le_of_succ_le_succ hr)]
      · rfl
      · obtain ⟨next', valid', h₁, h₂, h₃⟩ := hstep (i + 1) x hx
        refine ⟨next', valid', h₁, ?_, fun y hy => h₃ y hy⟩
        rw [h₂]
        simp only [List.length_cons, Nat.add_lt_add_iff_right]

namespace Fifo

variable {α : Type} {q : Fifo α}

/-- The walk with `get_next_id` from `get_front_id`. -/
def forwardIds (file : SourceFile) (q : Fifo α) (rounds : Nat) : Except Halt (List Nat) :=
  match q.getFrontId with
  | none => .ok []
  | some id => visits (q.getNextId file) id rounds id

/-- The walk with `get_prev_id` from `get_tail_id`. -/
def backwardIds (file : SourceFile) (q : Fifo α) (rounds : Nat) : Except Halt (List Nat) :=
  match q.getTailId with
  | none => .ok []
  | some id => visits (q.getPrevId file) id rounds id

/-- Forward from the front id to the tail. -/
theorem WF.forwardIds_eq (h : q.WF) (file : SourceFile) {rounds : Nat} (hr : q.size ≤ rounds) :
    q.forwardIds file rounds = .ok q.ids := by
  unfold forwardIds
  rw [h.getFrontId_eq]
  cases hids : q.ids.head? with
  | none => rw [List.head?_eq_none_iff.mp hids]
  | some id =>
    have hpos : 0 < q.count := by
      rw [← length_ids]
      exact List.length_pos_of_mem (List.mem_of_mem_head? hids)
    have hid : id = q.rptr := by
      rw [h.ids_popped hpos] at hids
      exact (Option.some.inj hids).symm
    refine visits_eq (fun i a ha => ?_) hids ((length_ids q).trans_le (h.count_le.trans hr))
    have hi : i < q.count := by
      rw [← length_ids]
      exact (List.getElem?_eq_some_iff.mp ha).1
    obtain rfl : (q.rptr + i) % q.size = a := Option.some.inj ((Ring.getElem?_ids _ _ hi).symm.trans ha)
    obtain ⟨valid, hnext, hgo⟩ := h.getNextId_eq file hi
    refine ⟨_, valid, hnext, by rw [hid, hgo, length_ids], fun b hb => ?_⟩
    have hi' : i + 1 < q.count := by
      rw [← length_ids]
      exact (List.getElem?_eq_some_iff.mp hb).1
    exact Option.some.inj ((Ring.getElem?_ids _ _ hi').symm.trans hb)

/-- The slot before the front one is the tail if the ring is full, and otherwise not live. -/
theorem WF.getPrevId_front (h : q.WF) (file : SourceFile) (hpos : 0 < q.count) :
    ∃ prev valid, q.getPrevId file q.rptr = .ok (prev, valid) ∧
      (valid && prev != (q.rptr + (q.count - 1)) % q.size) = false := by
  have hmem : q.rptr ∈ q.ids := by
    rw [h.ids_popped hpos]
    exact List.mem_cons_self
  refine ⟨_, _, getPrevId_ok h file hmem, ?_⟩
  rw [Bool.and_eq_false_iff]
  by_cases hfull : q.count = q.size
  · right
    rw [hfull, Nat.add_sub_assoc h.size_pos]
    exact bne_self_eq_false _
  · left
    rw [← Bool.not_eq_true, checkIdValid_iff h]
    intro hprev
    obtain ⟨i, hi, heq⟩ := Ring.mem_ids.mp hprev
    -- the slot is `size - 1` behind the read pointer, and so many are not live
    have hle := h.count_le
    have := Ring.offset_inj (hi.trans_le hle) (Nat.sub_lt h.size_pos Nat.one_pos)
      (heq.trans (by rw [Nat.add_sub_assoc h.size_pos]))
    omega

/-- Backward from the tail id to the front. -/
theorem WF.backwardIds_eq (h : q.WF) (file : SourceFile) {rounds : Nat} (hr : q.size ≤ rounds) :
    q.backwardIds file rounds = .ok q.ids.reverse := by
  unfold backwardIds
  rw [h.getTailId_eq]
  cases hids : q.ids.getLast? with
  | none => rw [List.getLast?_eq_none_iff.mp hids]; rfl
  | some id =>
    have hpos : 0 < q.count := by
      rw [← length_ids]
      exact List.length_pos_of_mem (List.mem_of_getLast? hids)
    have hid : id = (q.rptr + (q.count - 1)) % q.size := by
      rw [List.getLast?_eq_getElem?, length_ids, Fifo.ids, Ring.getElem?_ids _ _ (Nat.sub_lt hpos Nat.one_pos)] at hids
      exact (Option.some.inj hids).symm
    have hget {i : Nat} (hi : i < q.count) : q.ids.reverse[i]? = some ((q.rptr + (q.count - 1 - i)) % q.size) := by
      rw [List.getElem?_reverse (by rw [length_ids]; exact hi), length_ids, Fifo.ids,
        Ring.getElem?_ids _ _ (by omega)]
    refine visits_eq (fun i a ha => ?_) (by rw [List.head?_reverse, hids])
      (by rw [List.length_reverse, length_ids]; exact h.count_le.trans hr)
    have hi : i < q.count := by
      have := (List.getElem?_eq_some_iff.mp ha).1
      rwa [List.length_reverse, length_ids] at this
    obtain rfl : (q.rptr + (q.count - 1 - i)) % q.size = a := Option.some.inj ((hget hi).symm.trans ha)
    rw [List.length_reverse, length_ids]
    -- at the front the walk wraps to the tail, which ends it
    by_cases hlast : i + 1 < q.count
    · have hprev := h.getPrevId_eq file (i := q.count - 1 - (i + 1)) (by omega)
      rw [show q.count - 1 - (i + 1) + 1 = q.count - 1 - i by omega] at hprev
      refine ⟨_, _, hprev, ?_, fun b hb => Option.some.inj ((hget hlast).symm.trans hb)⟩
      rw [decide_eq_true hlast, Bool.true_and, hid, bne_iff_ne]
      intro heq
      have := Ring.offset_inj (by have := h.count_le; omega) (by have := h.count_le; omega) heq
      omega
    · rw [show q.count - 1 - i = 0 by omega, Nat.add_zero, Nat.mod_eq_of_lt h.rptr_lt]
      obtain ⟨prev, valid, hprev, hgo⟩ := h.getPrevId_front file hpos
      refine ⟨prev, valid, hprev, by rw [hid, hgo, decide_eq_false hlast], fun b hb => ?_⟩
      have := (List.getElem?_eq_some_iff.mp hb).1
      rw [List.length_reverse, length_ids] at this
      exact absurd this hlast

/-- Below the ring size, a slot is new exactly if it is not live. -/
theorem WF.checkNewIdValid_eq (h : q.WF) (hs : q.popStatusSave = false) {id : Nat} (hid : id < q.size) :
    q.checkNewIdValid id = !q.checkIdValid id := by
  have hstage := h.stage
  unfold checkNewIdValid checkIdValid isFull isEmpty
  simp only [hs, Bool.false_eq_true, if_false]
  by_cases hw : q.wstage = q.rstage
  · -- equal stages: not full, and empty if the pointers agree
    simp only [hw, bne_self_eq_false, Bool.and_false, Bool.false_eq_true, if_false, beq_self_eq_true, Bool.and_true,
      if_true]
    split_ifs with he
    · rw [beq_iff_eq.mp he]
      simpa using Nat.lt_or_ge id q.wptr
    · rfl
  · have hne : (q.rstage == q.wstage) = false := beq_eq_false_iff_ne.mpr fun e => hw e.symm
    simp only [bne, hne, Bool.not_false, Bool.and_true, Bool.and_false, Bool.false_eq_true, if_false,
      beq_eq_false_iff_ne.mpr hw]
    split_ifs with hf
    · rw [beq_iff_eq.mp hf]
      simp only [hid, decide_true, Bool.and_true]
      by_cases hlt : id < q.wptr <;> simp [hlt, Nat.le_of_not_lt]
    · rfl

/-- The id functions of a ring whose entries are in the slots `live`, oldest first. -/
structure Traversal (file : SourceFile) (q : Fifo α) (live : List Nat) : Prop where
  bound : ∀ id ∈ live, id < q.size
  nodup : live.Nodup
  valid : ∀ id < q.size, q.checkIdValid id = true ↔ id ∈ live
  forward : ∀ rounds, q.size ≤ rounds → q.forwardIds file rounds = .ok live

/-- The same with the functions that only the reorder buffer and the checkpoint buffer have. -/
structure TwoWayTraversal (file : SourceFile) (q : Fifo α) (live : List Nat) : Prop
    extends Traversal file q live where
  free : ∀ id < q.size, q.checkNewIdValid id = true ↔ id ∉ live
  backward : ∀ rounds, q.size ≤ rounds → q.backwardIds file rounds = .ok live.reverse
  /-- `get_new_id` fails if a push does, and is otherwise the slot that a push writes. -/
  new : ∀ x, (q.getNewId = none ∧ q.push x = none) ∨ ∃ id q', q.getNewId = some id ∧ q.push x = some q' ∧
    id ∉ live ∧ q'.buffer = Function.update q.buffer id x

theorem WF.traversal (h : q.WF) (file : SourceFile) : Traversal file q q.ids where
  bound _ hid := h.lt_of_mem hid
  nodup := h.nodup_ids
  valid id _ := checkIdValid_iff h id
  forward _ hr := h.forwardIds_eq file hr

theorem WF.twoWayTraversal (h : q.WF) (hs : q.popStatusSave = false) (file : SourceFile) :
    TwoWayTraversal file q q.ids where
  toTraversal := h.traversal file
  free id hid := by rw [h.checkNewIdValid_eq hs hid, Bool.not_eq_true', ← Bool.not_eq_true, checkIdValid_iff h]
  backward _ hr := h.backwardIds_eq file hr
  new x := by
    unfold getNewId
    cases hf : q.isFull with
    | true => exact .inl ⟨rfl, push_eq_none hf x⟩
    | false => exact .inr ⟨q.wptr, q.pushed x, rfl, h.push_eq hf x, h.wptr_notMem (h.count_lt hs hf), rfl⟩

end Fifo

section Calls

variable {α : Type}

/-- The states of a ring that the calls of its interface lead to, with the slots of its entries, oldest first. `own` is
what the ring can do beyond `fifo`: it takes a ring and its slots to others. -/
inductive RingState (own : Fifo α → List Nat → Fifo α → List Nat → Prop) (size : Nat) : Fifo α → List Nat → Prop
  | new (buffer : Nat → α) : RingState own size (Fifo.new size buffer) []
  | push {q q' : Fifo α} {live : List Nat} {x : α} (h : RingState own size q live) (hpush : q.push x = some q') :
    RingState own size q' (live ++ [q.wptr])
  | pop {q q' : Fifo α} {live : List Nat} {x : α} (h : RingState own size q live) (hpop : q.pop = some (x, q')) :
    RingState own size q' live.tail
  | setItem {q : Fifo α} {live : List Nat} (h : RingState own size q live) (id : Nat) (x : α) :
    RingState own size (q.setItem id x) live
  | flush {q : Fifo α} {live : List Nat} (h : RingState own size q live) : RingState own size q.flush []
  | reset {q : Fifo α} {live : List Nat} (h : RingState own size q live) : RingState own size q.reset []
  | own {q q' : Fifo α} {live live' : List Nat} (h : RingState own size q live) (hown : own q live q' live') :
    RingState own size q' live'

/-- The reorder buffer and the checkpoint buffer only have the calls of `fifo`. -/
def noCalls (_ : Fifo α) (_ : List Nat) (_ : Fifo α) (_ : List Nat) : Prop := False

/-- `compress` of the issue queue, for ids given in queue order: the kept entries move to the front slots. -/
def compressCall (q : Fifo α) (live : List Nat) (q' : Fifo α) (live' : List Nat) : Prop :=
  ∃ itemIdList, itemIdList.Sublist live ∧ IssueQueue.compress q itemIdList = .ok q' ∧
    live' = live.take (live.length - itemIdList.length)

/-- The slots `run` of the store buffer keeps: on a flush those before the first uncommitted entry, otherwise all but
a committed front one. -/
def runLive (q : StoreBuffer) (fb : CommitFeedbackPack) (live : List Nat) : List Nat :=
  if fb.flushing then live.takeWhile fun id => StoreBuffer.kept fb.committedRobId (q.buffer id)
  else if live.head?.any fun id => (q.buffer id).committed then live.tail
  else live

/-- `run` of the store buffer. -/
def runCall (q : StoreBuffer) (live : List Nat) (q' : StoreBuffer) (live' : List Nat) : Prop :=
  ∃ fb writes dropped, StoreBuffer.run q fb = .ok (q', writes, dropped) ∧ live' = runLive q fb live

/-- The ring is well formed and its live slots are these. -/
structure RingOk (size : Nat) (q : Fifo α) (live : List Nat) : Prop where
  wf : q.WF
  size : q.size = size
  save : q.popStatusSave = false
  ids : q.ids = live

variable {own : Fifo α → List Nat → Fifo α → List Nat → Prop} {size : Nat} {q q' : Fifo α} {live live' : List Nat}

/-- Every state the calls lead to is well formed, if the ring's own calls keep it so. -/
theorem RingState.ok (hsize : 0 < size)
    (hown : ∀ {q live q' live'}, RingOk size q live → own q live q' live' → RingOk size q' live')
    (h : RingState own size q live) : RingOk size q live := by
  induction h with
  | new buffer => exact ⟨.new hsize buffer, rfl, rfl, Fifo.ids_new size buffer⟩
  | @push q q' live x h hpush ih =>
    have hf : q.isFull = false := by
      rw [← Bool.not_eq_true]
      intro hf
      rw [Fifo.push_eq_none hf] at hpush
      cases hpush
    rw [ih.wf.push_eq hf x] at hpush
    cases hpush
    have hc := ih.wf.count_lt ih.save hf
    exact ⟨ih.wf.pushed hc x, ih.size, ih.save, by rw [ih.wf.ids_pushed hc, ih.ids]⟩
  | @pop q q' live x h hpop ih =>
    obtain ⟨hnone, -⟩ | ⟨y, hsome, hc, -⟩ := ih.wf.pop_cases
    · cases hnone.symm.trans hpop
    · cases hsome.symm.trans hpop
      refine ⟨ih.wf.popped hc, ih.size, ih.save, ?_⟩
      rw [← ih.ids, ih.wf.ids_popped hc, List.tail_cons]
  | setItem h id x ih => exact ⟨ih.wf.setItem id x, ih.size, ih.save, ih.ids⟩
  | flush h ih => exact ⟨ih.wf.flush, ih.size, ih.save, by simp [Fifo.ids, Fifo.flush, Fifo.count]⟩
  | reset h ih => exact ⟨ih.wf.flush, ih.size, ih.save, by simp [Fifo.ids, Fifo.reset, Fifo.count]⟩
  | own h hcall ih => exact hown ih hcall

/-- A ring takes as many entries as it has free slots. -/
theorem RingState.fill (hsize : 0 < size)
    (hown : ∀ {q live q' live'}, RingOk size q live → own q live q' live' → RingOk size q' live')
    (h : RingState own size q live) (x : α) {k : Nat} (hk : live.length + k ≤ size) :
    ∃ q' new, RingState own size q' (live ++ new) ∧ new.length = k := by
  induction k generalizing q live with
  | zero => exact ⟨q, [], by rwa [List.append_nil], rfl⟩
  | succ k ih =>
    have hok := h.ok hsize hown
    have hf : q.isFull = false := by
      rw [← Bool.not_eq_true, hok.wf.isFull_iff hok.save, ← Fifo.length_ids, hok.ids, hok.size]
      omega
    obtain ⟨q', new, hq', hlen⟩ := ih (h.push (hok.wf.push_eq hf x)) (by simp; omega)
    exact ⟨q', q.wptr :: new, by rwa [List.append_assoc] at hq', by rw [List.length_cons, hlen]⟩

/-- An entry can be popped. -/
theorem RingState.drop (hsize : 0 < size)
    (hown : ∀ {q live q' live'}, RingOk size q live → own q live q' live' → RingOk size q' live')
    (h : RingState own size q live) (hpos : 0 < live.length) : ∃ q', RingState own size q' live.tail := by
  have hok := h.ok hsize hown
  have hc : 0 < q.count := by rwa [← Fifo.length_ids, hok.ids]
  exact ⟨_, h.pop (hok.wf.pop_eq (hok.wf.isEmpty_eq_false.mpr hc))⟩

/-- Compression keeps the ring. -/
theorem RingOk.compress (h : RingOk size q live) (hcall : compressCall q live q' live') : RingOk size q' live' := by
  obtain ⟨l, hsub, hcompress, rfl⟩ := hcall
  rw [← h.ids] at hsub ⊢
  obtain ⟨q₁, heq, hwf, hq₁, hlist⟩ := IssueQueue.compress_spec h.wf (l.contains ·)
  rw [IssueQueue.filter_contains_of_sublist hsub h.wf.nodup_ids] at heq
  cases heq.symm.trans hcompress
  have hcount : q'.count + l.length = q.ids.length := by
    rw [← Fifo.length_toList, hlist, List.length_map]
    exact IssueQueue.length_filter_not_contains hsub h.wf.nodup_ids
  have hsize : q'.size = q.size := congrArg (·.size) hq₁
  have hrptr : q'.rptr = q.rptr := congrArg (·.rptr) hq₁
  refine ⟨hwf, hsize.trans h.size, (congrArg (·.popStatusSave) hq₁).trans h.save, ?_⟩
  rw [Fifo.ids, hsize, hrptr, ← hcount, Nat.add_sub_cancel, Fifo.ids, Ring.take_ids]
  rw [Fifo.length_ids] at hcount
  exact (Nat.le_add_right _ _).trans_eq hcount

end Calls

section StoreBuffer

variable {size : Nat} {q q' : StoreBuffer} {live live' : List Nat}

/-- The slots kept on a flush. -/
theorem RingOk.truncate (h : RingOk size q live) {committed : List Nat} {m : Nat} (hm : m < q.count)
    (hlist : (q.ids.take m).map q.buffer = q.toList.takeWhile (StoreBuffer.kept committed)) :
    RingOk size { q with wptr := (q.rptr + m) % q.size, wstage := IssueQueue.stageAt q m }
      (live.takeWhile fun id => StoreBuffer.kept committed (q.buffer id)) := by
  obtain ⟨hwf, hids⟩ := IssueQueue.truncate_spec h.wf hm q.buffer
  refine ⟨hwf, h.size, h.save, hids.trans ?_⟩
  rw [Fifo.toList, List.takeWhile_map] at hlist
  have hlen := congrArg List.length hlist
  rw [List.length_map, List.length_map, List.length_take, Fifo.length_ids, Nat.min_eq_left hm.le] at hlen
  rw [← h.ids, hlen]
  exact (List.prefix_iff_eq_take.mp (List.takeWhile_prefix _)).symm

/-- So does a cycle of the store buffer. -/
theorem RingOk.flushOrWrite (h : RingOk size q live) {fb : CommitFeedbackPack} {writes : List Bus.Request}
    (hrun : StoreBuffer.flushOrWrite q fb = .ok (q', writes)) : RingOk size q' (runLive q fb live) := by
  unfold StoreBuffer.flushOrWrite at hrun
  unfold runLive
  cases hfl : fb.flushing with
  -- a flush cuts the ring at the first store that is not committed
  | true =>
    rw [hfl, if_pos rfl] at hrun
    rw [if_pos rfl]
    obtain ⟨found, hfound, ⟨rfl, hall⟩ | ⟨m, id, hm, rfl, rfl, hlist⟩⟩ :=
      StoreBuffer.findUncommitted_spec h.wf fb.committedRobId
    · rw [hfound] at hrun
      cases hrun
      have hkept : live.takeWhile (fun id => StoreBuffer.kept fb.committedRobId (q.buffer id)) = live :=
        List.takeWhile_eq_self_iff.mpr fun id hid =>
          hall _ (List.mem_map_of_mem (by rw [h.ids]; exact hid))
      rw [hkept]
      exact h
    · rw [hfound] at hrun
      cases hrun
      exact h.truncate hm hlist
  -- otherwise the head leaves if it is committed
  | false =>
    rw [hfl, if_neg Bool.false_ne_true, h.wf.getFront_eq, Fifo.toList, List.head?_map, h.ids] at hrun
    rw [if_neg Bool.false_ne_true]
    cases hhead : live.head? with
    | none =>
      rw [hhead] at hrun
      cases hrun
      exact h
    | some id =>
      rw [hhead] at hrun
      simp only [Option.map_some] at hrun
      rw [Option.any_some]
      split_ifs at hrun ⊢ with hcommitted
      · cases hrun
        exact ⟨h.wf.drop1, by rw [Fifo.size_drop1, h.size], by rw [Fifo.popStatusSave_drop1, h.save],
          by rw [h.wf.ids_drop1, h.ids]⟩
      · cases hrun
        exact h

theorem RingOk.run (h : RingOk size q live) (hcall : runCall q live q' live') : RingOk size q' live' := by
  obtain ⟨fb, writes, dropped, hrun, rfl⟩ := hcall
  unfold StoreBuffer.run at hrun
  obtain ⟨⟨q₁, writes₁⟩, hfirst, hrun⟩ := bind_eq_ok.mp hrun
  have h₁ := h.flushOrWrite hfirst
  dsimp only at hrun
  split_ifs at hrun
  · -- marking changes no slot
    obtain ⟨buffer, hmark, -⟩ := StoreBuffer.markCommitted_spec h₁.wf fb.committedRobId
    rw [hmark] at hrun
    cases hrun
    exact ⟨⟨h₁.wf.rptr_lt, h₁.wf.wptr_lt, h₁.wf.stage⟩, h₁.size, h₁.save, h₁.ids⟩
  · cases hrun
    exact h₁

end StoreBuffer

section Rings

variable {α : Type} {own : Fifo α → List Nat → Fifo α → List Nat → Prop} {size : Nat} {q : Fifo α} {live : List Nat}

theorem RingOk.traversal (h : RingOk size q live) (file : SourceFile) : q.Traversal file live := by
  rw [← h.ids]
  exact h.wf.traversal file

theorem RingOk.twoWayTraversal (h : RingOk size q live) (file : SourceFile) : q.TwoWayTraversal file live := by
  rw [← h.ids]
  exact h.wf.twoWayTraversal h.save file

/-- The rings of a state in a run; the live slots of the reorder buffer are those of the instructions in flight. -/
theorem Refines.rings {m : Machine} {w : Window} (h : Refines m w) :
    m.rob.fifo.TwoWayTraversal .rob (w.flight.map (·.op.robId)) ∧
      m.checkpointBuffer.TwoWayTraversal .checkpointBuffer m.checkpointBuffer.ids ∧
      m.issue.issueQ.Traversal .issueQueue m.issue.issueQ.ids ∧
      m.storeBuffer.Traversal .storeBuffer m.storeBuffer.ids := by
  have hrings : RobOk m.rob.fifo w.cmap w.flight ∧
      (m.checkpointBuffer.WF ∧ m.checkpointBuffer.popStatusSave = false) ∧ Shape m ∧ m.storeBuffer.WF := by
    obtain h | ⟨j, h⟩ := h
    · exact ⟨h.rob, ⟨h.cp.wf, h.cp.save⟩, h.shape, h.store.wf⟩
    · exact ⟨h.rob, h.cp, h.shape, h.store.wf⟩
  obtain ⟨hrob, ⟨hcp, hcps⟩, hshape, hstore⟩ := hrings
  rw [← hrob.ids]
  exact ⟨hrob.wf.twoWayTraversal hrob.save .rob, hcp.twoWayTraversal hcps .checkpointBuffer,
    hshape.queue.traversal .issueQueue, hstore.traversal .storeBuffer⟩

end Rings

/-- In every state that calls lead to, and at every cycle boundary of every run, the ids of the four rings answer for
exactly the slots of their entries, and the walks visit those from the oldest to the youngest and back. -/
theorem ring_traversal :
    (∀ (q : Fifo RobItem) live, RingState noCalls robSize q live → q.TwoWayTraversal .rob live) ∧
    (∀ (q : Fifo Checkpoint) live, RingState noCalls checkpointBufferSize q live →
      q.TwoWayTraversal .checkpointBuffer live) ∧
    (∀ (q : Fifo ReadregIssueOp) live, RingState compressCall issueQueueSize q live →
      q.Traversal .issueQueue live) ∧
    (∀ (q : StoreBuffer) live, RingState runCall storeBufferSize q live → q.Traversal .storeBuffer live) ∧
    ∀ env n m logs, run env n = .ok (m, logs) →
      m.rob.fifo.TwoWayTraversal .rob ((Window.after env logs).flight.map (·.op.robId)) ∧
      m.checkpointBuffer.TwoWayTraversal .checkpointBuffer m.checkpointBuffer.ids ∧
      m.issue.issueQ.Traversal .issueQueue m.issue.issueQ.ids ∧
      m.storeBuffer.Traversal .storeBuffer m.storeBuffer.ids := by
  refine ⟨fun q live h => ?_, fun q live h => ?_, fun q live h => ?_, fun q live h => ?_,
    fun env n m logs h => (run_refines h).rings⟩
  · exact (h.ok (by decide) fun _ hcall => hcall.elim).twoWayTraversal .rob
  · exact (h.ok (by decide) fun _ hcall => hcall.elim).twoWayTraversal .checkpointBuffer
  · exact (h.ok (by decide) fun hok hcall => hok.compress hcall).traversal .issueQueue
  · exact (h.ok (by decide) fun hok hcall => hok.run hcall).traversal .storeBuffer

/-- An issue queue that was filled, popped and filled again, so that it is full and its entries wrap around. -/
theorem ring_traversal_wrapped : ∃ (q : Fifo ReadregIssueOp) (old new : List Nat),
    old.length = issueQueueSize ∧ new.length = 1 ∧ RingState compressCall issueQueueSize q (old.tail ++ new) ∧
    q.forwardIds .issueQueue issueQueueSize = .ok (old.tail ++ new) := by
  have hown {q : Fifo ReadregIssueOp} {live q' live'} (h : RingOk issueQueueSize q live)
      (hcall : compressCall q live q' live') : RingOk issueQueueSize q' live' := h.compress hcall
  have h₀ : RingState compressCall issueQueueSize (Fifo.new issueQueueSize fun _ => (default : ReadregIssueOp)) [] :=
    .new _
  obtain ⟨q₁, old, h₁, hold⟩ := h₀.fill (by decide) hown default (k := issueQueueSize) (by decide)
  rw [List.nil_append] at h₁
  obtain ⟨q₂, h₂⟩ := h₁.drop (by decide) hown (by rw [hold]; decide)
  obtain ⟨q, new, h, hnew⟩ := h₂.fill (by decide) hown default (k := 1) (by rw [List.length_tail, hold]; decide)
  exact ⟨q, old, new, hold, hnew, h, (ring_traversal.2.2.1 q _ h).forward _ (h.ok (by decide) hown).size.le⟩

end MyRiscvCore
