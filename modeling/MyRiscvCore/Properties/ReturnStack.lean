import Mathlib.Data.List.Chain
import MyRiscvCore.Component.ReturnStack

/-!
# MyRiscvCore — the return-address stack as a LIFO

`return_stack_lifo`: over every sequence of pushes and pops from reset, the stack with its run lengths written out is
the recent part of an unbounded LIFO. Only a new run on a full stack loses anything, and it loses the oldest run.
-/

namespace MyRiscvCore

namespace Ras

/-- The addresses held, top first, with each run written out. -/
def expanded (r : Ras) : List Word :=
  r.items.flatMap fun item => List.replicate item.cnt.toNat item.addr

/-- No run is empty, and a run lies on a run of the same address only if that one can grow no more. -/
structure Packed (r : Ras) : Prop where
  counts : ∀ item ∈ r.items, 1 ≤ item.cnt.toNat
  chain : r.items.IsChain fun upper lower => upper.addr = lower.addr → lower.cnt = 0xFFFFFFFF

section Steps

variable {r : Ras} {top : RasItem} {rest : List RasItem} {addr : Word}

theorem Packed.head (h : r.Packed) (hr : r.items = top :: rest) : 1 ≤ top.cnt.toNat ∧
    (∀ lower ∈ rest.head?, top.addr = lower.addr → lower.cnt = 0xFFFFFFFF) ∧
    (∀ item ∈ rest, 1 ≤ item.cnt.toNat) ∧
    rest.IsChain fun upper lower => upper.addr = lower.addr → lower.cnt = 0xFFFFFFFF := by
  have hchain := h.chain
  rw [hr, List.isChain_cons] at hchain
  exact ⟨h.counts top (by rw [hr]; exact List.mem_cons_self), hchain.1,
    fun item hi => h.counts item (by rw [hr]; exact List.mem_cons_of_mem _ hi), hchain.2⟩

/-- Changing the length of the top run. -/
theorem Packed.withTop (h : r.Packed) (hr : r.items = top :: rest) {cnt : Word} (hcnt : 1 ≤ cnt.toNat)
    (lastAddr : Word) : Packed ⟨{ top with cnt := cnt } :: rest, lastAddr⟩ := by
  obtain ⟨-, hnext, hrest, hchain⟩ := h.head hr
  refine ⟨fun item hi => ?_, List.isChain_cons.mpr ⟨hnext, hchain⟩⟩
  obtain rfl | hi := List.mem_cons.mp hi
  · exact hcnt
  · exact hrest item hi

/-- A new run on some of the upper runs. -/
theorem Packed.withRun (h : r.Packed) (hopens : r.OpensRun addr) {items : List RasItem} (hpre : items <+: r.items)
    (lastAddr : Word) : Packed ⟨⟨addr, 1⟩ :: items, lastAddr⟩ := by
  refine ⟨fun item hi => ?_, List.isChain_cons.mpr ⟨fun lower hl he => ?_, h.chain.prefix hpre⟩⟩
  · obtain rfl | hi := List.mem_cons.mp hi
    · exact Nat.le_refl 1
    · exact h.counts item (hpre.mem hi)
  · have hhead : lower ∈ r.items.head? := by
      obtain ⟨tail, htail⟩ := hpre
      cases items with
      | nil => cases hl
      | cons x xs =>
        rw [← htail]
        exact hl
    have hmax := hopens lower hhead
    have hle : ¬ lower.cnt < 0xFFFFFFFF := fun hlt => hmax ⟨he.symm, hlt⟩
    bv_omega

/-- What a push does to the addresses held: it adds one, and only a new run on a full stack throws the oldest run
away. -/
theorem Packed.pushAddr (h : r.Packed) (addr : Word) : (r.pushAddr addr).1.Packed ∧
    (r.OpensRun addr → r.items.length = rasSize → (r.pushAddr addr).1.items = ⟨addr, 1⟩ :: r.items.dropLast) ∧
    (¬ (r.OpensRun addr ∧ r.items.length = rasSize) → (r.pushAddr addr).1.expanded = addr :: r.expanded) := by
  by_cases hopens : r.OpensRun addr
  · rw [pushAddr_run hopens]
    by_cases hlen : r.items.length = rasSize
    · rw [if_pos hlen]
      exact ⟨h.withRun hopens (List.dropLast_prefix _) _, fun _ _ => rfl, fun hn => absurd ⟨hopens, hlen⟩ hn⟩
    · rw [if_neg hlen]
      exact ⟨h.withRun hopens (List.prefix_refl _) _, fun _ hl => absurd hl hlen, fun _ => rfl⟩
  · -- the top run grows by one
    unfold OpensRun at hopens
    push Not at hopens
    obtain ⟨top, htop, hmerge⟩ := hopens
    obtain ⟨rest, hr⟩ : ∃ rest, r.items = top :: rest := by
      cases hr : r.items with
      | nil =>
        rw [hr] at htop
        cases htop
      | cons x xs =>
        rw [hr] at htop
        cases htop
        exact ⟨xs, rfl⟩
    have hcnt : (top.cnt + 1).toNat = top.cnt.toNat + 1 := by bv_omega
    rw [pushAddr_merge hr hmerge]
    refine ⟨h.withTop hr (by omega) _, fun hop => absurd hmerge (hop top htop), fun _ => ?_⟩
    rw [expanded, expanded, hr, List.flatMap_cons, List.flatMap_cons, hcnt, List.replicate_succ, hmerge.1]
    rfl

/-- A pop of a stack that holds something takes the topmost address. -/
theorem Packed.popAddr (h : r.Packed) (hne : r.items ≠ []) : r.popAddr.2.Packed ∧
    r.expanded = r.popAddr.1 :: r.popAddr.2.expanded ∧ (r.popAddr.2.items = [] → r.popAddr.2.lastAddr = r.popAddr.1) := by
  obtain ⟨top, rest, hr⟩ := List.exists_cons_of_ne_nil hne
  obtain ⟨hpos, -, hrest, hchain⟩ := h.head hr
  by_cases hlast : top.cnt = 1
  · rw [popAddr_last hr hlast]
    refine ⟨⟨hrest, hchain⟩, ?_, fun _ => rfl⟩
    rw [expanded, hr, List.flatMap_cons, hlast]
    rfl
  · have hcnt : top.cnt.toNat = (top.cnt - 1).toNat + 1 := by bv_omega
    have hpos' : 1 ≤ (top.cnt - 1).toNat := by bv_omega
    rw [popAddr_more hr hlast]
    refine ⟨h.withTop hr hpos' _, ?_, fun hnil => by cases hnil⟩
    rw [expanded, expanded, hr, List.flatMap_cons, List.flatMap_cons, hcnt, List.replicate_succ]
    rfl

end Steps

end Ras

inductive RasCall
  | pushAddr (addr : Word)
  | popAddr

/-- The stack after some calls, with what a reader of the calls can say: the unbounded LIFO, and the address returned
by the last pop that emptied the stack. -/
structure RasTrace where
  stack : RasStack
  ideal : List Word
  emptied : Word

namespace RasTrace

def reset (buffer : Nat → RasItem) : RasTrace :=
  ⟨.reset buffer, [], 0⟩

def call (t : RasTrace) : RasCall → Except Halt RasTrace
  | .pushAddr addr => do
    let (stack, _) ← t.stack.pushAddr addr
    return ⟨stack, addr :: t.ideal, t.emptied⟩
  | .popAddr => do
    let (addr, stack) ← t.stack.popAddr
    return ⟨stack, t.ideal.tail, if !t.stack.isEmpty && stack.isEmpty then addr else t.emptied⟩

/-- What the calls made so far leave. -/
structure Ok (t : RasTrace) : Prop where
  wf : t.stack.WF
  packed : t.stack.toRas.Packed
  recent : t.stack.toRas.expanded <+: t.ideal
  last : t.stack.runs = [] → t.stack.lastAddr = t.emptied

variable {t : RasTrace}

theorem isEmpty_iff (s : RasStack) : s.isEmpty = true ↔ s.runs = [] := by
  rw [← List.length_eq_zero_iff, RasStack.runs, RasStack.length_runsOf, RasStack.isEmpty, beq_iff_eq]

theorem Ok.reset (buffer : Nat → RasItem) : (reset buffer).Ok :=
  ⟨.reset buffer, ⟨fun _ h => (List.not_mem_nil h).elim, List.isChain_nil⟩, List.nil_prefix, fun _ => rfl⟩

theorem expanded_dropLast (r : Ras) : (⟨r.items.dropLast, r.lastAddr⟩ : Ras).expanded <+: r.expanded := by
  obtain ⟨tail, htail⟩ := List.dropLast_prefix r.items
  rw [Ras.expanded, Ras.expanded, ← htail, List.flatMap_append, htail]
  exact List.prefix_append _ _

theorem Ok.call (h : t.Ok) (c : RasCall) : ∃ t', t.call c = .ok t' ∧ t'.Ok := by
  cases c with
  | pushAddr addr =>
    obtain ⟨s', full, hs', hwf, href⟩ := RasStack.pushAddr_refines h.wf addr
    obtain ⟨hpacked, hthrow, hkeep⟩ := h.packed.pushAddr addr
    rw [href] at hpacked hthrow hkeep
    refine ⟨⟨s', addr :: t.ideal, t.emptied⟩, by rw [RasTrace.call, hs']; rfl, hwf, hpacked, ?_, fun hnil => ?_⟩
    · by_cases hfull : t.stack.toRas.OpensRun addr ∧ t.stack.toRas.items.length = rasSize
      · have hitems := hthrow hfull.1 hfull.2
        have hexp : s'.toRas.expanded = addr :: (⟨t.stack.toRas.items.dropLast, 0⟩ : Ras).expanded := by
          rw [Ras.expanded, hitems]
          rfl
        rw [hexp]
        exact List.cons_prefix_cons.mpr ⟨rfl, (expanded_dropLast t.stack.toRas).trans h.recent⟩
      · rw [hkeep hfull]
        exact List.cons_prefix_cons.mpr ⟨rfl, h.recent⟩
    · -- a push leaves something
      have hcases : s'.toRas.items ≠ [] := by
        by_cases hfull : t.stack.toRas.OpensRun addr ∧ t.stack.toRas.items.length = rasSize
        · rw [hthrow hfull.1 hfull.2]
          exact List.cons_ne_nil _ _
        · intro he
          have hexp := hkeep hfull
          rw [Ras.expanded, he] at hexp
          cases hexp
      exact absurd hnil hcases
  | popAddr =>
    obtain ⟨addr, s', hs', hwf, href⟩ := RasStack.popAddr_refines h.wf
    refine ⟨⟨s', t.ideal.tail, if !t.stack.isEmpty && s'.isEmpty then addr else t.emptied⟩,
      by rw [RasTrace.call, hs']; rfl, ?_⟩
    by_cases hne : t.stack.toRas.items = []
    · rw [Ras.popAddr_empty hne] at href
      have hsame : t.stack.toRas = s'.toRas := (Prod.mk.inj href).2
      have hempty : t.stack.isEmpty = true := (isEmpty_iff _).mpr hne
      rw [hempty]
      refine ⟨hwf, hsame ▸ h.packed, ?_, fun _ => ?_⟩
      · rw [← hsame, Ras.expanded, hne]
        exact List.nil_prefix
      · exact (congrArg Ras.lastAddr hsame).symm.trans (h.last hne)
    · obtain ⟨hpacked, hexp, hlast⟩ := h.packed.popAddr hne
      rw [href] at hpacked hexp hlast
      have hempty : t.stack.isEmpty = false := Bool.eq_false_iff.mpr fun he => hne ((isEmpty_iff _).mp he)
      refine ⟨hwf, hpacked, ?_, fun hnil => ?_⟩
      · have hpre := h.recent
        rw [hexp] at hpre
        obtain ⟨tail, htail⟩ := hpre
        rw [← htail]
        exact List.prefix_append _ _
      · rw [hempty, (isEmpty_iff _).mpr hnil]
        exact hlast hnil

theorem Ok.calls (h : t.Ok) (cs : List RasCall) : ∃ t', cs.foldlM RasTrace.call t = .ok t' ∧ t'.Ok := by
  induction cs generalizing t with
  | nil => exact ⟨t, rfl, h⟩
  | cons c cs ih =>
    obtain ⟨t₁, ht₁, hok⟩ := h.call c
    obtain ⟨t', ht', hok'⟩ := ih hok
    exact ⟨t', by rw [List.foldlM_cons, ht₁]; exact ht', hok'⟩

end RasTrace

/-- After every sequence of calls from reset, none of which violates an assertion: the stack is the recent part of the
unbounded LIFO, its runs are packed, and the next call does what the LIFO would. A pop of a stack that holds something
returns the top of the LIFO; a pop of the empty stack returns the address of the last pop that emptied it, 0 at first,
and changes nothing; a push adds its address to those held, except that a new run on 256 runs replaces the oldest. -/
theorem return_stack_lifo (buffer : Nat → RasItem) (calls : List RasCall) :
    ∃ t, calls.foldlM RasTrace.call (RasTrace.reset buffer) = .ok t ∧
      t.stack.toRas.expanded <+: t.ideal ∧
      (∀ item ∈ t.stack.runs, 1 ≤ item.cnt.toNat) ∧
      t.stack.runs.IsChain (fun upper lower => upper.addr = lower.addr → lower.cnt = 0xFFFFFFFF) ∧
      t.stack.runs.length ≤ 256 ∧
      (∃ addr stack, t.stack.popAddr = .ok (addr, stack) ∧
        (t.stack.runs ≠ [] → t.ideal.head? = some addr ∧ t.stack.toRas.expanded = addr :: stack.toRas.expanded) ∧
        (t.stack.runs = [] → addr = t.emptied ∧ stack = t.stack)) ∧
      ∀ addr, ∃ stack full, t.stack.pushAddr addr = .ok (stack, full) ∧
        (t.stack.toRas.OpensRun addr → t.stack.runs.length = 256 →
          stack.runs = ⟨addr, 1⟩ :: t.stack.runs.dropLast) ∧
        (¬ (t.stack.toRas.OpensRun addr ∧ t.stack.runs.length = 256) →
          stack.toRas.expanded = addr :: t.stack.toRas.expanded) := by
  obtain ⟨t, ht, h⟩ := (RasTrace.Ok.reset buffer).calls calls
  refine ⟨t, ht, h.recent, h.packed.counts, h.packed.chain, ?_, ?_, fun addr => ?_⟩
  · rw [RasStack.runs, RasStack.length_runsOf]
    exact Nat.le_trans h.wf.le (Nat.le_of_eq h.wf.size)
  · obtain ⟨addr, s', hs', -, href⟩ := RasStack.popAddr_refines h.wf
    refine ⟨addr, s', hs', fun hne => ?_, fun hnil => ?_⟩
    · obtain ⟨-, hexp, -⟩ := h.packed.popAddr hne
      rw [href] at hexp
      refine ⟨?_, hexp⟩
      obtain ⟨tail, htail⟩ := h.recent
      rw [← htail, hexp]
      rfl
    -- an empty stack answers with the last address
    · have htop : t.stack.getTop = none := by
        rw [RasStack.getTop, (RasTrace.isEmpty_iff _).mpr hnil]
        rfl
      have hpop : t.stack.popAddr = .ok (t.stack.lastAddr, t.stack) := by rw [RasStack.popAddr, htop]
      obtain ⟨haddr, hstack⟩ := Prod.mk.inj (Except.ok.inj (hs'.symm.trans hpop))
      exact ⟨haddr.trans (h.last hnil), hstack⟩
  · obtain ⟨s', full, hs', -, href⟩ := RasStack.pushAddr_refines h.wf addr
    obtain ⟨-, hthrow, hkeep⟩ := h.packed.pushAddr addr
    rw [href] at hthrow hkeep
    exact ⟨s', full, hs', hthrow, hkeep⟩

end MyRiscvCore
