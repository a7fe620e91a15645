import MyRiscvCore.Component.IssueQueueFacts

/-!
# MyRiscvCore — the rings as queues

What the FIFO and the issue queue built on it are for, over all their states:

* `compress_removes` — compressing the issue queue removes the given items and keeps the order of the others;
* `fifo_is_queue` — a FIFO answers every sequence of calls as a bounded queue does, with its pops charged at once or,
  with saved pop status, at the start of the next cycle. This takes a capacity of at most `2 ^ 31`: beyond it the
  32-bit sums of `get_size` and `get_tail` wrap.
-/

namespace MyRiscvCore

namespace IssueQueue

variable {α : Type}

theorem length_filter_not_contains {l ids : List Nat} (hsub : l.Sublist ids) (hnd : ids.Nodup) :
    (ids.filter (!l.contains ·)).length + l.length = ids.length := by
  have hlen := List.length_eq_length_filter_add (l := ids) (l.contains ·)
  rw [filter_contains_of_sublist hsub hnd] at hlen
  omega

/-- `compress`, for every ring state and all ids of queued items given in queue order: no assertion is violated and
the others stay, in their order and from the same front. -/
theorem compress_removes {q : Fifo α} (h : q.WF) {itemIdList : List Nat} (hsub : itemIdList.Sublist q.ids) :
    ∃ q', compress q itemIdList = .ok q' ∧ q'.WF ∧ q'.rptr = q.rptr ∧ q'.rstage = q.rstage ∧
      q'.toList = (q.ids.filter (!itemIdList.contains ·)).map q.buffer ∧
      q'.count + itemIdList.length = q.count ∧
      (q.popStatusSave = false → q.size ≤ 2 ^ 31 → q'.getSize + itemIdList.length = q.getSize) := by
  obtain ⟨q', hq', hwf, hsame, hlist⟩ := compress_spec h (itemIdList.contains ·)
  rw [filter_contains_of_sublist hsub h.nodup_ids] at hq'
  obtain ⟨buffer, wptr, wstage, heq⟩ : ∃ buffer wptr wstage,
      q' = { q with buffer := buffer, wptr := wptr, wstage := wstage } := ⟨_, _, _, hsame⟩
  have hcount : q'.count + itemIdList.length = q.count := by
    rw [← Fifo.length_toList, hlist, List.length_map, ← Fifo.length_ids]
    exact length_filter_not_contains hsub h.nodup_ids
  refine ⟨q', hq', hwf, by rw [heq], by rw [heq], hlist, hcount, fun hsave hsize => ?_⟩
  have hsave' : q'.popStatusSave = false := by rw [heq]; exact hsave
  have hsize' : q'.size ≤ 2 ^ 31 := by rw [heq]; exact hsize
  rw [hwf.getSize_eq hsave' hsize', h.getSize_eq hsave hsize, hcount]

/-- A full ring of five slots that begins at its fourth one, with each slot holding its number. -/
def wrapped : Fifo Nat where
  buffer := id
  size := 5
  wptr := 3
  wstage := true
  rptr := 3
  rstage := false
  popStatusSave := false
  rptrSaved := 0
  rstageSaved := false

/-- A queue that wraps around. -/
theorem compress_removes_wrapped : ∃ q', compress wrapped [4, 1] = .ok q' ∧ q'.toList = [3, 0, 2] ∧
    q'.getSize + 2 = wrapped.getSize := by
  obtain ⟨q', hq', -, -, -, hlist, -, hsize⟩ := compress_removes (q := wrapped)
    ⟨by decide, by decide, by decide⟩ (show [4, 1].Sublist wrapped.ids by decide +kernel)
  refine ⟨q', hq', ?_, hsize rfl (by decide)⟩
  rw [hlist]
  decide +kernel

end IssueQueue

/-! ## The FIFO as a queue

Calls on the ring against calls on a list with a bound, answer by answer. -/

/-- The calls of a FIFO that its users make while it works. -/
inductive FifoCall (α : Type)
  | push (element : α)
  | pop
  | getFront
  | getTail
  | flush
  | resetPopStatus

/-- What a call answers. -/
inductive FifoAnswer (α : Type)
  | done
  | accepted (ok : Bool)
  | element (x : Option α)

namespace Fifo

variable {α : Type}

def answer (q : Fifo α) : FifoCall α → Fifo α × FifoAnswer α
  | .push x =>
    match q.push x with
    | some q' => (q', .accepted true)
    | none => (q, .accepted false)
  | .pop =>
    match q.pop with
    | some (x, q') => (q', .element (some x))
    | none => (q, .element none)
  | .getFront => (q, .element q.getFront)
  | .getTail => (q, .element q.getTail)
  | .flush => (q.flush, .done)
  | .resetPopStatus => (q.resetPopStatus, .done)

/-- The FIFO after some calls, and their answers. -/
def answers (q : Fifo α) : List (FifoCall α) → Fifo α × List (FifoAnswer α)
  | [] => (q, [])
  | call :: calls =>
    let (q, a) := q.answer call
    let (q, as) := q.answers calls
    (q, a :: as)

end Fifo

/-- A queue of limited capacity. `charged` is the number of slots that a push finds taken if pops free theirs only at
the start of the next cycle: the items at the start of this one and those pushed since. -/
structure BoundedQueue (α : Type) where
  items : List α
  charged : Nat

namespace BoundedQueue

variable {α : Type}

def taken (save : Bool) (b : BoundedQueue α) : Nat :=
  if save then b.charged else b.items.length

def answer (capacity : Nat) (save : Bool) (b : BoundedQueue α) : FifoCall α → BoundedQueue α × FifoAnswer α
  | .push x =>
    if b.taken save < capacity then (⟨b.items ++ [x], b.charged + 1⟩, .accepted true) else (b, .accepted false)
  | .pop => ({ b with items := b.items.tail }, .element b.items.head?)
  | .getFront => (b, .element b.items.head?)
  | .getTail => (b, .element b.items.getLast?)
  | .flush => ({ b with items := [] }, .done)
  | .resetPopStatus => ({ b with charged := b.items.length }, .done)

def answers (capacity : Nat) (save : Bool) (b : BoundedQueue α) :
    List (FifoCall α) → BoundedQueue α × List (FifoAnswer α)
  | [] => (b, [])
  | call :: calls =>
    let (b, a) := b.answer capacity save call
    let (b, as) := b.answers capacity save calls
    (b, a :: as)

end BoundedQueue

/-- No push follows a flush in the same cycle, where a cycle begins at each `reset_pop_status`. -/
def paced {α : Type} : Bool → List (FifoCall α) → Bool
  | _, [] => true
  | flushed, .push _ :: calls => !flushed && paced flushed calls
  | _, .flush :: calls => paced true calls
  | _, .resetPopStatus :: calls => paced false calls
  | flushed, .pop :: calls => paced flushed calls
  | flushed, .getFront :: calls => paced flushed calls
  | flushed, .getTail :: calls => paced flushed calls

/-- A FIFO of this capacity behaves as a bounded queue. -/
structure ActsAsQueue (α : Type) (capacity : Nat) : Prop where
  /-- Without saved pop status: all answers, `get_size` and `is_full`. -/
  plain : ∀ (buffer : Nat → α) (calls : List (FifoCall α)),
    let q := (Fifo.new capacity buffer).answers calls
    let b := BoundedQueue.answers capacity false ⟨[], 0⟩ calls
    q.2 = b.2 ∧ q.1.getSize = b.1.items.length ∧ (q.1.isFull = true ↔ b.1.items.length = capacity)
  /-- With saved pop status, for calls paced as the stages and the main loop pace them. -/
  saved : ∀ (buffer : Nat → α) (calls : List (FifoCall α)), paced false calls = true →
    (((Fifo.new capacity buffer).setPopStatusSave true).answers calls).2 =
      (BoundedQueue.answers capacity true ⟨[], 0⟩ calls).2

section Queue

variable {α : Type} {capacity : Nat} {q : Fifo α} {b : BoundedQueue α}

/-- The FIFO holds what the queue holds. -/
structure Holds (capacity : Nat) (q : Fifo α) (b : BoundedQueue α) : Prop where
  wf : q.WF
  size : q.size = capacity
  items : q.toList = b.items

/-- The calls that no saved pointer matters for. -/
theorem Holds.reads (h : Holds capacity q b) (hle : capacity ≤ 2 ^ 31) :
    q.getFront = b.items.head? ∧ q.getTail = b.items.getLast? := by
  rw [h.wf.getFront_eq, h.wf.getTail_eq (by rw [h.size]; exact hle), h.items]
  exact ⟨rfl, rfl⟩

/-- A pop takes the head on both sides. -/
theorem Holds.pop (h : Holds capacity q b) (charged : Nat) :
    (q.isEmpty = true ∧ b.items = [] ∧ q.pop = none) ∨
      ∃ x, 0 < q.count ∧ q.pop = some (x, q.popped) ∧ b.items.head? = some x ∧
        Holds capacity q.popped ⟨b.items.tail, charged⟩ := by
  obtain ⟨hpop, hnil⟩ | ⟨x, hpop, hc, hlist⟩ := h.wf.pop_cases
  · refine .inl ⟨?_, h.items.symm.trans hnil, hpop⟩
    rw [h.wf.isEmpty_eq, hnil]
    rfl
  · have hitems : b.items = x :: q.popped.toList := h.items.symm.trans hlist
    exact .inr ⟨x, hc, hpop, by rw [hitems]; rfl, h.wf.popped hc, h.size, by rw [hitems]; rfl⟩

/-- A push appends. -/
theorem Holds.pushed (h : Holds capacity q b) (hc : q.count < q.size) (x : α) (charged : Nat) :
    Holds capacity (q.pushed x) ⟨b.items ++ [x], charged⟩ :=
  ⟨h.wf.pushed hc x, h.size, by rw [h.wf.toList_pushed hc, h.items]⟩

theorem Holds.flush (h : Holds capacity q b) (charged : Nat) : Holds capacity q.flush ⟨[], charged⟩ :=
  ⟨h.wf.flush, h.size, Fifo.toList_flush q⟩

theorem Holds.length (h : Holds capacity q b) : b.items.length = q.count := by
  rw [← h.items, Fifo.length_toList]

/-- One call without saved pop status. -/
theorem Holds.answer (h : Holds capacity q b) (hsave : q.popStatusSave = false) (hle : capacity ≤ 2 ^ 31)
    (call : FifoCall α) : (q.answer call).2 = (b.answer capacity false call).2 ∧
      Holds capacity (q.answer call).1 (b.answer capacity false call).1 ∧
      (q.answer call).1.popStatusSave = false := by
  cases call with
  | push x =>
    -- without saved pop status the room is what is free now
    have htaken : b.taken false = q.count := h.length
    have hsize := h.size
    simp only [Fifo.answer, BoundedQueue.answer, htaken]
    cases hfull : q.isFull with
    | true =>
      have hcount := (h.wf.isFull_iff hsave).mp hfull
      rw [Fifo.push_eq_none hfull, if_neg (by omega)]
      exact ⟨rfl, h, hsave⟩
    | false =>
      have hlt := h.wf.count_lt hsave hfull
      rw [h.wf.push_eq hfull, if_pos (by omega)]
      exact ⟨rfl, h.pushed hlt x _, hsave⟩
  | pop =>
    simp only [Fifo.answer, BoundedQueue.answer]
    obtain ⟨-, hnil, hpop⟩ | ⟨x, -, hpop, hhead, hh⟩ := h.pop b.charged
    · rw [hpop, hnil]
      exact ⟨rfl, ⟨h.wf, h.size, h.items.trans hnil⟩, hsave⟩
    · rw [hpop, hhead]
      exact ⟨rfl, hh, hsave⟩
  | getFront => exact ⟨congrArg FifoAnswer.element (h.reads hle).1, h, hsave⟩
  | getTail => exact ⟨congrArg FifoAnswer.element (h.reads hle).2, h, hsave⟩
  | flush => exact ⟨rfl, h.flush _, hsave⟩
  | resetPopStatus => exact ⟨rfl, ⟨⟨h.wf.rptr_lt, h.wf.wptr_lt, h.wf.stage⟩, h.size, h.items⟩, hsave⟩

/-- Any sequence of calls is answered alike. -/
theorem Holds.answers (h : Holds capacity q b) (hsave : q.popStatusSave = false) (hle : capacity ≤ 2 ^ 31)
    (calls : List (FifoCall α)) : (q.answers calls).2 = (b.answers capacity false calls).2 ∧
      Holds capacity (q.answers calls).1 (b.answers capacity false calls).1 ∧
      (q.answers calls).1.popStatusSave = false := by
  induction calls generalizing q b with
  | nil => exact ⟨rfl, h, hsave⟩
  | cons call calls ih =>
    obtain ⟨ha, hh, hs⟩ := h.answer hsave hle call
    obtain ⟨has, hh', hs'⟩ := ih hh hs
    exact ⟨congrArg₂ List.cons ha has, hh', hs'⟩

/-- With saved pop status: before a flush the saved pointer tells the charged slots, after one nothing does. -/
structure HoldsSaved (capacity : Nat) (flushed : Bool) (q : Fifo α) (b : BoundedQueue α) : Prop
    extends Holds capacity q b where
  save : q.popStatusSave = true
  charged : flushed = false → q.SaveOk ∧ q.saved.count = b.charged

/-- Full means charged to capacity. -/
theorem HoldsSaved.isFull_iff (h : HoldsSaved capacity false q b) : q.isFull = true ↔ b.charged = capacity := by
  obtain ⟨hok, hcount⟩ := h.charged rfl
  have hsaved : q.isFull = q.saved.isFull := by
    unfold Fifo.isFull
    rw [h.save]
    rfl
  rw [hsaved, hok.saved.isFull_iff rfl, hcount, show q.saved.size = capacity from h.size]

/-- One call with saved pop status, and the rest of the calls paced. -/
theorem HoldsSaved.answer {flushed : Bool} (h : HoldsSaved capacity flushed q b) (hle : capacity ≤ 2 ^ 31)
    {call : FifoCall α} {calls : List (FifoCall α)} (hp : paced flushed (call :: calls) = true) :
    (q.answer call).2 = (b.answer capacity true call).2 ∧
      ∃ flushed', HoldsSaved capacity flushed' (q.answer call).1 (b.answer capacity true call).1 ∧
        paced flushed' calls = true := by
  cases call with
  -- fullness is judged against the read pointer of the cycle's start
  | push x =>
    obtain ⟨hfl, hp⟩ := Bool.and_eq_true_iff.mp hp
    obtain rfl : flushed = false := by simpa using hfl
    obtain ⟨hok, hcount⟩ := h.charged rfl
    have htaken : b.taken true = b.charged := rfl
    simp only [Fifo.answer, BoundedQueue.answer, htaken]
    cases hfull : q.isFull with
    | true =>
      have hcharged := h.isFull_iff.mp hfull
      rw [Fifo.push_eq_none hfull, if_neg (by omega)]
      exact ⟨rfl, false, h, hp⟩
    | false =>
      have hlt : b.charged < capacity := by
        rw [← hcount, ← h.size]
        exact hok.saved_count_lt hfull
      rw [h.wf.push_eq hfull, if_pos hlt]
      refine ⟨rfl, false, ⟨h.pushed (hok.count_lt hfull) x _, h.save, fun _ => ⟨hok.pushed hfull x, ?_⟩⟩, hp⟩
      rw [← hcount]
      exact hok.saved.count_pushed (hok.saved_count_lt hfull) x
  | pop =>
    simp only [Fifo.answer, BoundedQueue.answer]
    obtain ⟨-, hnil, hpop⟩ | ⟨x, hc, hpop, hhead, hh⟩ := h.pop b.charged
    · rw [hpop, hnil]
      exact ⟨rfl, flushed, ⟨⟨h.wf, h.size, h.items.trans hnil⟩, h.save, h.charged⟩, hp⟩
    · rw [hpop, hhead]
      refine ⟨rfl, flushed, ⟨hh, h.save, fun hfl => ?_⟩, hp⟩
      obtain ⟨hok, hcount⟩ := h.charged hfl
      exact ⟨hok.popped hc, hcount⟩
  | getFront => exact ⟨congrArg FifoAnswer.element (h.reads hle).1, flushed, h, hp⟩
  | getTail => exact ⟨congrArg FifoAnswer.element (h.reads hle).2, flushed, h, hp⟩
  | flush => exact ⟨rfl, true, ⟨h.flush _, h.save, fun hfl => by cases hfl⟩, hp⟩
  | resetPopStatus =>
    have hok := h.wf.resetPopStatus h.save
    exact ⟨rfl, false, ⟨⟨hok.wf, h.size, h.items⟩, h.save, fun _ => ⟨hok, h.length.symm⟩⟩, hp⟩

/-- The same with the saved read pointer, if no push follows a flush in its cycle. -/
theorem HoldsSaved.answers {flushed : Bool} (h : HoldsSaved capacity flushed q b) (hle : capacity ≤ 2 ^ 31)
    {calls : List (FifoCall α)} (hp : paced flushed calls = true) :
    (q.answers calls).2 = (b.answers capacity true calls).2 := by
  induction calls generalizing q b flushed with
  | nil => rfl
  | cons call calls ih =>
    obtain ⟨ha, flushed', hh, hp'⟩ := h.answer hle hp
    exact congrArg₂ List.cons ha (ih hh hp')

/-- Pushing `k` times into an empty ring of more slots moves the write pointer to `k`. -/
theorem answers_replicate_push (buffer : Nat → α) (x : α) {k : Nat} (hk : k < capacity) :
    ∃ buffer', ((Fifo.new capacity buffer).answers (List.replicate k (.push x))).1 =
      { Fifo.new capacity buffer' with wptr := k } := by
  have hfrom (k i : Nat) (hki : i + k < capacity) (buffer : Nat → α) : ∃ buffer',
      (({ Fifo.new capacity buffer with wptr := i } : Fifo α).answers (List.replicate k (.push x))).1 =
        { Fifo.new capacity buffer' with wptr := i + k } := by
    induction k generalizing i buffer with
    | zero => exact ⟨buffer, rfl⟩
    | succ k ih =>
      have hpush : ({ Fifo.new capacity buffer with wptr := i } : Fifo α).push x =
          some { Fifo.new capacity (Function.update buffer i x) with wptr := i + 1 } := by
        simp [Fifo.push, Fifo.isFull, Fifo.new, show ¬ capacity ≤ i + 1 by omega]
      obtain ⟨buffer', hq⟩ := ih (i + 1) (by omega) (Function.update buffer i x)
      refine ⟨buffer', ?_⟩
      rw [List.replicate_succ]
      simp only [Fifo.answers, Fifo.answer, hpush]
      rw [hq, Nat.add_assoc, Nat.add_comm 1]
  have h := hfrom k 0 (by omega) buffer
  rwa [Nat.zero_add] at h

/-- After `capacity - 1` pushes into a ring of more than `2 ^ 31` slots, `get_size` is wrong. -/
theorem getSize_wraps (buffer : Nat → α) (x : α) (hlt : capacity < 2 ^ 32) (hbig : 2 ^ 31 < capacity) :
    ((Fifo.new capacity buffer).answers (List.replicate (capacity - 1) (.push x))).1.getSize =
      2 * capacity - 1 - 2 ^ 32 := by
  obtain ⟨buffer', hq⟩ := answers_replicate_push buffer x (show capacity - 1 < capacity by omega)
  rw [hq]
  have hfull : ({ Fifo.new capacity buffer' with wptr := capacity - 1 } : Fifo α).isFull = false := by
    simp [Fifo.isFull, Fifo.new]
  unfold Fifo.getSize
  rw [hfull]
  simp only [Fifo.new, Bool.false_eq_true, if_false]
  rw [show capacity - 1 + capacity - 0 = 2 * capacity - 1 - 2 ^ 32 + 2 ^ 32 by omega, Nat.add_mod_right,
    Nat.mod_eq_of_lt (a := 2 * capacity - 1 - 2 ^ 32) (by omega), Nat.mod_eq_of_lt (by omega)]

/-- Pushes that fit are all taken. -/
theorem length_replicate_push (x : α) {k : Nat} (b : BoundedQueue α) (hk : b.items.length + k ≤ capacity) :
    (b.answers capacity false (List.replicate k (.push x))).1.items.length = b.items.length + k := by
  induction k generalizing b with
  | zero => rfl
  | succ k ih =>
    have hpush : b.answer capacity false (.push x) = (⟨b.items ++ [x], b.charged + 1⟩, .accepted true) := by
      have htaken : b.taken false < capacity := by
        show b.items.length < capacity
        omega
      exact if_pos htaken
    rw [List.replicate_succ]
    simp only [BoundedQueue.answers, hpush]
    rw [ih _ (by simp only [List.length_append, List.length_singleton]; omega)]
    simp only [List.length_append, List.length_singleton]
    omega

end Queue

/-- A FIFO of any capacity that `uint32_t` can hold is a bounded queue exactly if the capacity is at most `2 ^ 31`. -/
theorem fifo_is_queue {α : Type} [Inhabited α] {capacity : Nat} (hpos : 1 ≤ capacity) (hlt : capacity < 2 ^ 32) :
    ActsAsQueue α capacity ↔ capacity ≤ 2 ^ 31 := by
  constructor
  · intro h
    by_contra hbig
    obtain ⟨-, hsize, -⟩ := h.plain (fun _ => default) (List.replicate (capacity - 1) (.push default))
    rw [getSize_wraps _ _ hlt (by omega),
      length_replicate_push default ⟨[], 0⟩ (by simp)] at hsize
    simp only [List.length_nil] at hsize
    omega
  · intro hle
    have hnew (buffer : Nat → α) : Holds capacity (Fifo.new capacity buffer) ⟨[], 0⟩ :=
      ⟨.new hpos buffer, rfl, Fifo.toList_new _ _⟩
    refine ⟨fun buffer calls => ?_, fun buffer calls hp => ?_⟩
    · obtain ⟨ha, hh, hsave⟩ := (hnew buffer).answers rfl hle calls
      refine ⟨ha, ?_, ?_⟩
      · rw [hh.wf.getSize_eq hsave (by rw [hh.size]; exact hle), hh.length]
      · rw [hh.wf.isFull_iff hsave, hh.length, hh.size]
    · have hwf : ({ Fifo.new capacity buffer with popStatusSave := true } : Fifo α).WF :=
        ⟨(hnew buffer).wf.rptr_lt, (hnew buffer).wf.wptr_lt, (hnew buffer).wf.stage⟩
      have hok := hwf.resetPopStatus rfl
      have hh : HoldsSaved capacity false ((Fifo.new capacity buffer).setPopStatusSave true) ⟨[], 0⟩ :=
        ⟨⟨hok.wf, rfl, (hnew buffer).items⟩, rfl, fun _ => ⟨hok, (hnew buffer).length.symm⟩⟩
      exact hh.answers hle hp

/-- Capacity 5. -/
theorem fifo_is_queue_five : ActsAsQueue Nat 5 := (fifo_is_queue (by decide) (by decide)).mpr (by decide)

/-- Of `2 ^ 31` items in a FIFO of `2 ^ 31 + 1` slots, `get_size` counts one. -/
theorem fifo_size_wraps :
    ((Fifo.new (2 ^ 31 + 1) fun _ => 0).answers (List.replicate (2 ^ 31) (.push 0))).1.getSize = 1 ∧
      ¬ ActsAsQueue Nat (2 ^ 31 + 1) := by
  have hsize := getSize_wraps (α := Nat) (fun _ => 0) 0 (show 2 ^ 31 + 1 < 2 ^ 32 by decide) (by decide)
  refine ⟨hsize, fun h => ?_⟩
  obtain ⟨-, hlength, -⟩ := h.plain (fun _ => 0) (List.replicate (2 ^ 31) (.push 0))
  have hcount := length_replicate_push 0 (⟨[], 0⟩ : BoundedQueue Nat)
    (show ([] : List Nat).length + 2 ^ 31 ≤ 2 ^ 31 + 1 by decide)
  exact absurd (hsize.symm.trans (hlength.trans hcount)) (by decide)

end MyRiscvCore
