import MyRiscvCore.Component.BranchPredictor

/-!
# MyRiscvCore — the return-address stack over its array

`ras.h` and `stack.h` as they are written: an array with a top pointer, and `throw_push`, which shifts the whole array
down by one run. The predictor's model keeps the runs as a list (`Ras`); `pushAddr_refines` and `popAddr_refines` say
that the array computes the same.
-/

namespace MyRiscvCore

namespace Ras

variable {r : Ras} {top : RasItem} {rest : List RasItem} {addr : Word}

/-- Whether a push of `addr` starts a new run. -/
def OpensRun (r : Ras) (addr : Word) : Prop :=
  ∀ top ∈ r.items.head?, ¬ (top.addr = addr ∧ top.cnt < 0xFFFFFFFF)

/-- A repeated call address is counted, -/
theorem pushAddr_merge (hr : r.items = top :: rest) (h : top.addr = addr ∧ top.cnt < 0xFFFFFFFF) :
    r.pushAddr addr = ({ r with items := { top with cnt := top.cnt + 1 } :: rest }, false) := by
  simp only [pushAddr, hr, if_pos h]

/-- another one begins a run, and drops the oldest if all are taken. -/
theorem pushAddr_run (h : r.OpensRun addr) :
    r.pushAddr addr = ({ r with
        items := ⟨addr, 1⟩ :: if r.items.length = rasSize then r.items.dropLast else r.items },
      (r.items.length = rasSize : Bool)) := by
  cases hr : r.items with
  | nil => simp only [pushAddr, hr]; rfl
  | cons top rest =>
    have hnew := h top (by rw [hr]; rfl)
    simp only [pushAddr, hr, if_neg hnew]
    by_cases hlen : (top :: rest).length = rasSize
    · rw [if_pos hlen, if_pos hlen, decide_eq_true hlen]
    · rw [if_neg hlen, if_neg hlen, decide_eq_false hlen]

theorem popAddr_last (hr : r.items = top :: rest) (h : top.cnt = 1) : r.popAddr = (top.addr, ⟨rest, top.addr⟩) := by
  simp only [popAddr, hr, if_pos h]

theorem popAddr_more (hr : r.items = top :: rest) (h : top.cnt ≠ 1) :
    r.popAddr = (top.addr, { r with items := { top with cnt := top.cnt - 1 } :: rest }) := by
  simp only [popAddr, hr, if_neg h]

theorem popAddr_empty (hr : r.items = []) : r.popAddr = (r.lastAddr, r) := by
  simp only [popAddr, hr]

end Ras

structure RasStack where
  buffer : Nat → RasItem
  size : Nat
  topPtr : Nat
  lastAddr : Word

namespace RasStack

/-- The constructor with `RAS_SIZE`, and `reset`; the contents of the array stay. -/
def reset (buffer : Nat → RasItem) : RasStack where
  buffer := buffer
  size := rasSize
  topPtr := 0
  lastAddr := 0

def isEmpty (s : RasStack) : Bool :=
  s.topPtr == 0

def isFull (s : RasStack) : Bool :=
  s.topPtr == s.size

def getTop (s : RasStack) : Option RasItem :=
  if s.isEmpty then none else some (s.buffer (s.topPtr - 1))

def getTopId (s : RasStack) : Option Nat :=
  if s.isEmpty then none else some (s.topPtr - 1)

def setItem (s : RasStack) (id : Nat) (item : RasItem) : RasStack :=
  { s with buffer := Function.update s.buffer id item }

/-- `push`; `none` is the `false` answer, which changes nothing. -/
def push (s : RasStack) (item : RasItem) : Option RasStack :=
  if s.isFull then none
  else some { s with buffer := Function.update s.buffer s.topPtr item, topPtr := s.topPtr + 1 }

/-- `pop`; `none` is the `false` answer, which changes nothing. -/
def pop (s : RasStack) : Option (RasItem × RasStack) :=
  if s.isEmpty then none else some (s.buffer (s.topPtr - 1), { s with topPtr := s.topPtr - 1 })

/-- The loop of `throw_push`: `buffer[i - 1] = buffer[i]` for `i` from 1 on. -/
def shiftDown (buffer : Nat → RasItem) (topPtr : Nat) : Nat → RasItem :=
  (List.range' 1 (topPtr - 1)).foldl (fun b i => Function.update b (i - 1) (b i)) buffer

def throwPush (s : RasStack) (item : RasItem) : RasStack :=
  { s with buffer := Function.update (shiftDown s.buffer s.topPtr) (s.topPtr - 1) item }

/-- The second branch of `push_addr`: a new run, and whether the stack was full. -/
def pushRun (s : RasStack) (addr : Word) : RasStack × Bool :=
  if s.isFull then (s.throwPush ⟨addr, 1⟩, true) else ((s.push ⟨addr, 1⟩).getD s, false)

/-- `push_addr`, and whether it counted a full stack (`ras_full_add`). -/
def pushAddr (s : RasStack) (addr : Word) : Except Halt (RasStack × Bool) :=
  match s.getTop with
  | some top =>
    if top.addr = addr ∧ top.cnt < 0xFFFFFFFF then
      match s.getTopId with
      | some id => .ok (s.setItem id { top with cnt := top.cnt + 1 }, false)
      | none => .error (.assertion .ras)
    else .ok (s.pushRun addr)
  | none => .ok (s.pushRun addr)

/-- `pop_addr`. -/
def popAddr (s : RasStack) : Except Halt (Word × RasStack) :=
  match s.getTop with
  | some top =>
    if top.cnt = 1 then
      let s := { s with lastAddr := top.addr }
      match s.pop with
      | some (item, s) => .ok (item.addr, s)
      | none => .ok (top.addr, s)
    else
      match s.getTopId with
      | some id => .ok (top.addr, s.setItem id { top with cnt := top.cnt - 1 })
      | none => .error (.assertion .ras)
  | none => .ok (s.lastAddr, s)

/-! ## The runs

The array from its top downwards is the list of the model. -/

/-- The first `n` entries of an array, last first. -/
def runsOf (buffer : Nat → RasItem) : Nat → List RasItem
  | 0 => []
  | n + 1 => buffer n :: runsOf buffer n

/-- The runs held, top first. -/
def runs (s : RasStack) : List RasItem :=
  runsOf s.buffer s.topPtr

/-- The stack as the predictor's model has it. -/
def toRas (s : RasStack) : Ras :=
  ⟨s.runs, s.lastAddr⟩

structure WF (s : RasStack) : Prop where
  size : s.size = rasSize
  le : s.topPtr ≤ s.size

theorem WF.reset (buffer : Nat → RasItem) : (reset buffer).WF := ⟨rfl, Nat.zero_le _⟩

section Runs

variable {buffer buffer' : Nat → RasItem} {n : Nat}

@[simp] theorem length_runsOf (buffer : Nat → RasItem) (n : Nat) : (runsOf buffer n).length = n := by
  induction n with
  | zero => rfl
  | succ n ih => rw [runsOf, List.length_cons, ih]

theorem runsOf_congr (h : ∀ i < n, buffer i = buffer' i) : runsOf buffer n = runsOf buffer' n := by
  induction n with
  | zero => rfl
  | succ n ih => rw [runsOf, runsOf, h n (Nat.lt_succ_self n), ih fun i hi => h i (Nat.lt_succ_of_lt hi)]

theorem runsOf_update (item : RasItem) : runsOf (Function.update buffer n item) (n + 1) = item :: runsOf buffer n := by
  rw [runsOf, Function.update_self]
  congr 1
  exact runsOf_congr fun i hi => Function.update_of_ne (Nat.ne_of_lt hi) _ _

/-- Shifting the array down drops the oldest run. -/
theorem dropLast_runsOf (buffer : Nat → RasItem) (n : Nat) :
    (runsOf buffer (n + 1)).dropLast = runsOf (fun i => buffer (i + 1)) n := by
  induction n with
  | zero => rfl
  | succ n ih =>
    rw [runsOf, List.dropLast_cons_of_ne_nil (by simp [runsOf]), ih]
    rfl

/-- What the loop of `throw_push` leaves. -/
theorem shiftDown_apply (buffer : Nat → RasItem) (n i : Nat) :
    shiftDown buffer (n + 1) i = if i < n then buffer (i + 1) else buffer i := by
  show (List.range' 1 n).foldl (fun b i => Function.update b (i - 1) (b i)) buffer i = _
  induction n generalizing i with
  | zero => rfl
  | succ n ih =>
    rw [List.range'_concat, List.foldl_append, List.foldl_cons, List.foldl_nil, Nat.one_mul,
      Nat.add_sub_cancel_left]
    by_cases hi : i = n
    · rw [hi, Function.update_self, ih, if_neg (by omega), if_pos (Nat.lt_succ_self n), Nat.add_comm]
    · rw [Function.update_of_ne hi, ih]
      by_cases hlt : i < n
      · rw [if_pos hlt, if_pos (by omega)]
      · rw [if_neg hlt, if_neg (by omega)]

end Runs

section Refine

variable {s : RasStack}

theorem runs_of_pos (h : 0 < s.topPtr) :
    s.getTop = some (s.buffer (s.topPtr - 1)) ∧ s.getTopId = some (s.topPtr - 1) ∧
      s.runs = s.buffer (s.topPtr - 1) :: runsOf s.buffer (s.topPtr - 1) := by
  obtain ⟨n, hn⟩ : ∃ n, s.topPtr = n + 1 := ⟨s.topPtr - 1, by omega⟩
  have he : s.isEmpty = false := by
    rw [isEmpty, hn]
    rfl
  refine ⟨by rw [getTop, he]; rfl, by rw [getTopId, he]; rfl, ?_⟩
  rw [runs, hn]
  rfl

theorem runs_of_empty (h : s.topPtr = 0) : s.getTop = none ∧ s.runs = [] := by
  have he : s.isEmpty = true := by
    rw [isEmpty, h]
    rfl
  refine ⟨by rw [getTop, he]; rfl, ?_⟩
  rw [runs, h]
  rfl

/-- Rewriting the top run. -/
theorem toRas_setItem (h : 0 < s.topPtr) (item : RasItem) :
    (s.setItem (s.topPtr - 1) item).toRas =
      { s.toRas with items := item :: runsOf s.buffer (s.topPtr - 1) } := by
  obtain ⟨n, hn⟩ : ∃ n, s.topPtr = n + 1 := ⟨s.topPtr - 1, by omega⟩
  refine congrArg (Ras.mk · s.lastAddr) ?_
  show runsOf (Function.update s.buffer (s.topPtr - 1) item) s.topPtr = _
  rw [hn]
  exact runsOf_update item

/-- Beginning a run, in the array. -/
theorem pushRun_refines (h : s.WF) {addr : Word} (hopens : s.toRas.OpensRun addr) :
    (s.pushRun addr).1.WF ∧ s.toRas.pushAddr addr = ((s.pushRun addr).1.toRas, (s.pushRun addr).2) := by
  have hlen : s.toRas.items.length = s.topPtr := length_runsOf _ _
  rw [Ras.pushAddr_run hopens, hlen]
  by_cases hfull : s.topPtr = s.size
  · have hf : s.isFull = true := by rw [isFull, hfull]; exact beq_self_eq_true _
    have hsize : s.topPtr = rasSize := hfull.trans h.size
    obtain ⟨n, hn⟩ : ∃ n, s.topPtr = n + 1 := ⟨255, hsize⟩
    rw [pushRun, hf, if_pos rfl, if_pos hsize, decide_eq_true hsize]
    refine ⟨⟨h.size, h.le⟩, Prod.ext (congrArg (Ras.mk · s.lastAddr) ?_) rfl⟩
    -- the loop moved every run but the oldest one slot down
    show _ = runsOf (Function.update (shiftDown s.buffer s.topPtr) (s.topPtr - 1) _) s.topPtr
    rw [toRas, runs, hn, Nat.add_sub_cancel, runsOf_update, dropLast_runsOf]
    congr 1
    refine runsOf_congr fun i hi => ?_
    rw [shiftDown_apply, if_pos hi]
  · have hf : s.isFull = false := by rw [isFull]; exact beq_false_of_ne hfull
    have hsize : s.topPtr ≠ rasSize := fun he => hfull (he.trans h.size.symm)
    rw [pushRun, push, hf, if_neg Bool.false_ne_true, if_neg Bool.false_ne_true, if_neg hsize,
      decide_eq_false hsize]
    refine ⟨⟨h.size, Nat.lt_of_le_of_ne h.le hfull⟩, Prod.ext (congrArg (Ras.mk · s.lastAddr) ?_) rfl⟩
    exact (runsOf_update _).symm

/-- A call does the same on the array and on the list. -/
theorem pushAddr_refines (h : s.WF) (addr : Word) : ∃ s' full, s.pushAddr addr = .ok (s', full) ∧ s'.WF ∧
    s.toRas.pushAddr addr = (s'.toRas, full) := by
  obtain h0 | hpos := Nat.eq_zero_or_pos s.topPtr
  · obtain ⟨htop, hruns⟩ := runs_of_empty h0
    have hopens : s.toRas.OpensRun addr := by
      intro top htop
      rw [toRas, hruns] at htop
      cases htop
    obtain ⟨hwf, hpush⟩ := pushRun_refines h hopens
    exact ⟨_, _, by rw [pushAddr, htop], hwf, hpush⟩
  · obtain ⟨htop, htopId, hruns⟩ := runs_of_pos hpos
    by_cases hmerge : (s.buffer (s.topPtr - 1)).addr = addr ∧ (s.buffer (s.topPtr - 1)).cnt < 0xFFFFFFFF
    · refine ⟨s.setItem (s.topPtr - 1) { s.buffer (s.topPtr - 1) with cnt := (s.buffer (s.topPtr - 1)).cnt + 1 },
        false, ?_, ⟨h.size, h.le⟩, (Ras.pushAddr_merge hruns hmerge).trans ?_⟩
      · simp only [pushAddr, htop, htopId, if_pos hmerge]
      · rw [toRas_setItem hpos]
    · have hopens : s.toRas.OpensRun addr := by
        intro top htop
        rw [toRas, hruns] at htop
        cases htop
        exact hmerge
      obtain ⟨hwf, hpush⟩ := pushRun_refines h hopens
      exact ⟨_, _, by simp only [pushAddr, htop, if_neg hmerge], hwf, hpush⟩

/-- So does a return. -/
theorem popAddr_refines (h : s.WF) : ∃ addr s', s.popAddr = .ok (addr, s') ∧ s'.WF ∧
    s.toRas.popAddr = (addr, s'.toRas) := by
  obtain h0 | hpos := Nat.eq_zero_or_pos s.topPtr
  · obtain ⟨htop, hruns⟩ := runs_of_empty h0
    exact ⟨s.lastAddr, s, by rw [popAddr, htop], h, Ras.popAddr_empty hruns⟩
  · obtain ⟨htop, htopId, hruns⟩ := runs_of_pos hpos
    by_cases hlast : (s.buffer (s.topPtr - 1)).cnt = 1
    · have hpop (addr : Word) : ({ s with lastAddr := addr } : RasStack).pop =
          some (s.buffer (s.topPtr - 1), { s with lastAddr := addr, topPtr := s.topPtr - 1 }) := by
        rw [pop, if_neg]
        simpa [isEmpty] using Nat.ne_of_gt hpos
      refine ⟨(s.buffer (s.topPtr - 1)).addr,
        { s with lastAddr := (s.buffer (s.topPtr - 1)).addr, topPtr := s.topPtr - 1 }, ?_,
        ⟨h.size, Nat.le_trans (Nat.sub_le _ _) h.le⟩, Ras.popAddr_last hruns hlast⟩
      simp only [popAddr, htop, if_pos hlast, hpop]
    · refine ⟨(s.buffer (s.topPtr - 1)).addr,
        s.setItem (s.topPtr - 1) { s.buffer (s.topPtr - 1) with cnt := (s.buffer (s.topPtr - 1)).cnt - 1 }, ?_,
        ⟨h.size, h.le⟩, (Ras.popAddr_more hruns hlast).trans ?_⟩
      · simp only [popAddr, htop, htopId, if_neg hlast]
      · rw [toRas_setItem hpos]

end Refine

end RasStack

end MyRiscvCore
