import MyRiscvCore.Refine.CommitStep
import MyRiscvCore.Refine.EntryFacts

/-!
# MyRiscvCore — the queued requests of a cycle

What `sync` does to the alias table, the register file and the reorder buffer, given the requests the
stages queue in a cycle: retirements first, then the results written back and the new renamings. Each
lemma moves one part of the relation from one list of instructions to the next.
-/

namespace MyRiscvCore

open Renaming (mapAfter live)

section Rat

variable {r : Rat} {C : Nat → Nat} {l : List (Nat × Nat)}

/-- The requests of retired instructions shift the table to the map after them. -/
theorem RatOk.sync_retire {ret rest : List Entry} (h : RatOk r C (renamings (ret ++ rest))) :
    ∃ r', r.sync (retireRatRequests C ret) = .ok r' ∧ RatOk r' (mapAt C ret) (renamings rest) := by
  induction ret generalizing r C with
  | nil => exact ⟨r, rfl, h⟩
  | cons e ret ih =>
    cases hw : e.writes with
    | false =>
      have hm := Entry.mapping_of_not_writes hw
      rw [List.cons_append, renamings_cons, hm, List.nil_append] at h
      rw [mapAt_cons, hm]
      simpa [retireRatRequests, hw, hm] using ih h
    | true =>
      have hm := Entry.mapping_of_writes hw
      rw [List.cons_append, renamings_cons, hm, List.singleton_append] at h
      obtain ⟨r₁, r₂, h₁, h₂, h₃⟩ := h.retire_ok
      obtain ⟨r', hr', hok⟩ := ih h₃
      refine ⟨r', ?_, by rwa [mapAt_cons, hm]⟩
      simp only [retireRatRequests, hw, if_true, hm, List.cons_append, List.nil_append, Rat.sync,
        List.foldlM_cons, Rat.apply, h₁, h₂, bind, Except.bind]
      exact hr'

/-- New renamings. -/
theorem RatOk.sync_setMap {news : List (Nat × Nat)} (h : RatOk r C l)
    (hok : Renaming.Ok archRegs C (l ++ news)) (hlt : ∀ x ∈ news, x.2 < phyRegNum) :
    ∃ r', r.sync (news.map fun x => .setMap x.1 x.2) = .ok r' ∧ RatOk r' C (l ++ news) := by
  induction news generalizing r l with
  | nil => exact ⟨r, rfl, by simpa using h⟩
  | cons x news ih =>
    have hsplit : l ++ x :: news = (l ++ [x]) ++ news := by simp
    rw [hsplit] at hok
    obtain ⟨r₁, h₁, hok₁⟩ := h.setMap_ok (hok.dom x (by simp)) (hlt x List.mem_cons_self)
      hok.of_append.last_notMem_live
    obtain ⟨r', hr', hok'⟩ := ih hok₁ hok fun y hy => hlt y (List.mem_cons_of_mem _ hy)
    refine ⟨r', ?_, hsplit ▸ hok'⟩
    simp only [Rat.sync, List.map_cons, List.foldlM_cons, Rat.apply, h₁, bind, Except.bind]
    exact hr'

end Rat

/-- Retiring only frees registers. -/
theorem live_retire {C : Nat → Nat} {ret rest : List Entry}
    (h : Renaming.Ok archRegs C (renamings (ret ++ rest))) :
    Renaming.Ok archRegs (mapAt C ret) (renamings rest) ∧
      live archRegs (mapAt C ret) (renamings rest) ⊆ live archRegs C (renamings (ret ++ rest)) := by
  induction ret generalizing C with
  | nil => exact ⟨h, subset_rfl⟩
  | cons e ret ih =>
    cases hw : e.writes with
    | false =>
      have hm := Entry.mapping_of_not_writes hw
      rw [List.cons_append, renamings_cons, hm, List.nil_append] at h ⊢
      rw [mapAt_cons, hm]
      exact ih h
    | true =>
      have hm := Entry.mapping_of_writes hw
      rw [List.cons_append, renamings_cons, hm, List.singleton_append] at h ⊢
      rw [mapAt_cons, hm]
      obtain ⟨hok, hsub⟩ := ih h.retire
      refine ⟨hok, hsub.trans ?_⟩
      rw [h.live_cons]
      exact Set.subset_insert _ _

/-! ## Register file

Retired instructions free registers, finished ones write theirs; the two sets are disjoint. -/

theorem Regfile.sync_append (f : Regfile) (l l' : List Regfile.Request) :
    f.sync (l ++ l') = (f.sync l).bind fun f => f.sync l' :=
  List.foldlM_append

/-- Writes are carried out in order. -/
theorem Regfile.sync_write (f : Regfile) (ws : List (Nat × Word × Bool))
    (hlt : ∀ w ∈ ws, w.1 < phyRegNum) :
    f.sync (ws.map fun w => .write w.1 w.2.1 w.2.2) = .ok {
      regData := mapAfter f.regData (ws.map fun w => (w.1, w.2.1))
      regDataValid := mapAfter f.regDataValid (ws.map fun w => (w.1, w.2.2)) } := by
  induction ws generalizing f with
  | nil => rfl
  | cons w ws ih =>
    have hw : f.write w.1 w.2.1 w.2.2 = .ok {
        regData := Function.update f.regData w.1 w.2.1
        regDataValid := Function.update f.regDataValid w.1 w.2.2 } := by
      simp only [Regfile.write, assert_ok (decide_eq_true (hlt w List.mem_cons_self))]
      rfl
    have := ih { regData := Function.update f.regData w.1 w.2.1
                 regDataValid := Function.update f.regDataValid w.1 w.2.2 }
      fun y hy => hlt y (List.mem_cons_of_mem _ hy)
    simp only [Regfile.sync, List.map_cons, List.foldlM_cons, Regfile.apply, hw, bind, Except.bind]
    exact this

section Regfile

variable {f : Regfile} {C : Nat → Nat} {regs : Nat → Word} {flight ret rest : List Entry}

/-- The oldest instruction retires: its register becomes the committed one, and the data of the one
it replaces become invalid. -/
theorem RegOk.retire {e : Entry} {r : ExecuteWbPack} (h : RegOk f C regs (e :: rest))
    (hok : Renaming.Ok archRegs C (renamings (e :: rest)))
    (hlt : ∀ p ∈ live archRegs C (renamings (e :: rest)), p < phyRegNum)
    (hs : e.status = .finished r) (hex : r.hasException = false) :
    ∃ f', f.sync (retireRegRequests C [e]) = .ok f' ∧
      RegOk f' (mapAfter C e.mapping) (regsAfter regs [e]) rest := by
  cases hw : e.writes with
  | false =>
    have hm := Entry.mapping_of_not_writes hw
    refine ⟨f, by simp [retireRegRequests, hw]; rfl, ?_⟩
    rw [hm]
    have hregs : regsAfter regs [e] = regs := by simp [regsAfter, hw]
    rw [hregs]
    refine ⟨h.committed, fun x hx => h.inflight x (List.mem_cons_of_mem _ hx), ?_⟩
    have hfree := h.free
    rwa [renamings_cons, hm, List.nil_append] at hfree
  | true =>
    have hm := Entry.mapping_of_writes hw
    rw [renamings_cons, hm, List.singleton_append] at hok hlt
    have hdom := hok.dom (e.op.rd, e.op.rdPhy) List.mem_cons_self
    have hold := hok.old_notMem_live
    have hlive := hok.live_cons
    simp only at hold hlive
    -- the register that the destination had before is freed
    obtain ⟨g, hg⟩ : ∃ g : Regfile, g = {
        regData := Function.update f.regData (C e.op.rd) 0
        regDataValid := Function.update f.regDataValid (C e.op.rd) false } := ⟨_, rfl⟩
    have hkeep : ∀ p ∈ live archRegs (Function.update C e.op.rd e.op.rdPhy) (renamings rest),
        g.regDataValid p = f.regDataValid p ∧ g.regData p = f.regData p := by
      intro p hp
      have hne : p ≠ C e.op.rd := fun he => hold (he ▸ hp)
      rw [hg]
      exact ⟨Function.update_of_ne hne _ _, Function.update_of_ne hne _ _⟩
    have hstored : e.stored? = some r.rdValue := by simp [Entry.stored?, hs, hex]
    have hvalue : e.value? = some r.rdValue := by simp [Entry.value?, Entry.result, hs, hex]
    refine ⟨g, ?_, ?_, ?_, ?_⟩
    · have hlt' : C e.op.rd < phyRegNum := hlt _ (hlive ▸ Set.mem_insert _ _)
      have := Regfile.sync_write f [(C e.op.rd, 0, false)] (by simpa using hlt')
      rw [hg]
      simpa [retireRegRequests, hw, mapAfter] using this
    · intro a ha
      rw [hm]
      obtain ⟨hv, hd⟩ := hkeep (mapAfter C [(e.op.rd, e.op.rdPhy)] a)
        (Renaming.mem_live.mpr (.inl ⟨a, ha, rfl⟩))
      rw [hv, hd]
      have hregs : regsAfter regs [e] = Function.update regs e.op.rd r.rdValue := by
        simp [regsAfter, hw, hvalue]
      rw [hregs, show mapAfter C [(e.op.rd, e.op.rdPhy)] = Function.update C e.op.rd e.op.rdPhy from rfl]
      -- the destination now has the value that was in flight
      by_cases hard : a = e.op.rd
      · obtain ⟨hv', hd'⟩ := h.inflight e List.mem_cons_self hw
        subst hard
        rw [Function.update_self, Function.update_self, hv', hstored]
        exact ⟨rfl, hd' _ hstored⟩
      · rw [Function.update_of_ne hard, Function.update_of_ne hard]
        exact h.committed a ha
    · intro x hx hxw
      obtain ⟨hv, hd⟩ := hkeep x.op.rdPhy (Renaming.mem_live.mpr (.inr
        ⟨_, mem_renamings.mpr ⟨x, hx, hxw, rfl⟩, rfl⟩))
      rw [hv, hd]
      exact h.inflight x (List.mem_cons_of_mem _ hx) hxw
    · intro p hp hnot
      rw [hm] at hnot
      by_cases hpo : p = C e.op.rd
      · rw [hg, hpo]
        exact Function.update_self _ _ _
      · rw [hg]
        simp only [Function.update_of_ne hpo]
        refine h.free p hp ?_
        rw [renamings_cons, hm, List.singleton_append, hlive, Set.mem_insert_iff, not_or]
        exact ⟨hpo, hnot⟩

/-- The registers that a group frees hold nothing that is still needed. -/
theorem RegOk.sync_retire (h : RegOk f C regs (ret ++ rest))
    (hok : Renaming.Ok archRegs C (renamings (ret ++ rest)))
    (hlt : ∀ p ∈ live archRegs C (renamings (ret ++ rest)), p < phyRegNum)
    (hfin : ∀ e ∈ ret, ∃ r, e.status = .finished r ∧ r.hasException = false) :
    ∃ f', f.sync (retireRegRequests C ret) = .ok f' ∧
      RegOk f' (mapAt C ret) (regsAfter regs ret) rest := by
  induction ret generalizing f C regs with
  | nil => exact ⟨f, rfl, h⟩
  | cons e ret ih =>
    obtain ⟨r, hs, hex⟩ := hfin e List.mem_cons_self
    obtain ⟨f₁, h₁, hreg₁⟩ := h.retire hok hlt hs hex
    have hok' : Renaming.Ok archRegs C (renamings ([e] ++ (ret ++ rest))) := hok
    obtain ⟨hok₁, hsub⟩ := live_retire hok'
    have hC : mapAt C [e] = mapAfter C e.mapping := by simp [mapAt]
    rw [hC] at hok₁ hsub
    obtain ⟨f', h', hreg'⟩ := ih hreg₁ hok₁ (fun p hp => hlt p (hsub hp))
      fun x hx => hfin x (List.mem_cons_of_mem _ hx)
    refine ⟨f', ?_, by rw [mapAt_cons]; exact hreg'⟩
    have hsplit : retireRegRequests C (e :: ret) =
        retireRegRequests C [e] ++ retireRegRequests (mapAfter C e.mapping) ret := by
      simp [retireRegRequests]
    rw [hsplit]
    simp only [Regfile.sync, List.foldlM_append] at h₁ ⊢
    rw [h₁]
    exact h'

/-- Write-back: the results that were on the write-back ports are written, and every instruction moves
on. -/
theorem RegOk.sync_writeBack {ports rs : List ExecuteWbPack} (h : RegOk f C regs flight)
    (hok : Renaming.Ok archRegs C (renamings flight))
    (hlt : ∀ p ∈ live archRegs C (renamings flight), p < phyRegNum)
    (hports : ∀ r, (r ∈ ports ∧ r.enable = true) ↔ ∃ e ∈ flight, e.status = .executed r)
    (hres : ∀ e ∈ flight, ∀ r, e.result = some r → r.rdPhy = e.op.rdPhy ∧
      r.writesRd = (e.writes && !r.hasException)) :
    ∃ f', f.sync ((ports.filter (·.writesRd)).map fun p => .write p.rdPhy p.rdValue true) = .ok f' ∧
      RegOk f' C regs (flight.map (Entry.advance rs)) := by
  -- the writer behind a written port
  have hwriter : ∀ r ∈ ports, r.writesRd = true → ∃ e ∈ flight, e.status = .executed r ∧
      e.writes = true ∧ e.op.rdPhy = r.rdPhy ∧ r.hasException = false := by
    intro r hr hw
    have hen : r.enable = true := by
      unfold ExecuteWbPack.writesRd at hw
      simp only [Bool.and_eq_true] at hw
      exact hw.1.1.1.1
    obtain ⟨e, he, hs⟩ := (hports r).mp ⟨hr, hen⟩
    obtain ⟨hphy, hwr⟩ := hres e he r (by simp [Entry.result, hs])
    rw [hw] at hwr
    have hand := Bool.and_eq_true_iff.mp hwr.symm
    exact ⟨e, he, hs, hand.1, hphy.symm, by simpa using hand.2⟩
  have hmem : ∀ e ∈ flight, e.writes = true → e.op.rdPhy ∈ live archRegs C (renamings flight) :=
    fun e he hw => Renaming.mem_live.mpr (.inr ⟨_, mem_renamings.mpr ⟨e, he, hw, rfl⟩, rfl⟩)
  obtain ⟨ws, hws⟩ : ∃ ws : List (Nat × Word × Bool), ws = (ports.filter (·.writesRd)).map fun p =>
    (p.rdPhy, p.rdValue, true) := ⟨_, rfl⟩
  have hwsmem : ∀ w ∈ ws, ∃ e ∈ flight, ∃ r ∈ ports, e.status = .executed r ∧ e.writes = true ∧
      r.hasException = false ∧ w = (e.op.rdPhy, r.rdValue, true) := by
    intro w hw
    rw [hws] at hw
    obtain ⟨r, hr, rfl⟩ := List.mem_map.mp hw
    obtain ⟨hr, hwr⟩ := List.mem_filter.mp hr
    obtain ⟨e, he, hs, hew, hphy, hex⟩ := hwriter r hr hwr
    exact ⟨e, he, r, hr, hs, hew, hex, by rw [hphy]⟩
  obtain ⟨g, hg⟩ : ∃ g : Regfile, g = {
      regData := mapAfter f.regData (ws.map fun w => (w.1, w.2.1))
      regDataValid := mapAfter f.regDataValid (ws.map fun w => (w.1, w.2.2)) } := ⟨_, rfl⟩
  -- a register no port writes
  have hkeep : ∀ p, (∀ w ∈ ws, w.1 ≠ p) →
      g.regDataValid p = f.regDataValid p ∧ g.regData p = f.regData p := by
    intro p hp
    rw [hg]
    constructor
    · refine Renaming.mapAfter_of_notMem fun x hx => ?_
      obtain ⟨w, hw, rfl⟩ := List.mem_map.mp hx
      exact hp w hw
    · refine Renaming.mapAfter_of_notMem fun x hx => ?_
      obtain ⟨w, hw, rfl⟩ := List.mem_map.mp hx
      exact hp w hw
  have hother : ∀ e ∈ flight, e.writes = true → (∀ r, e.status = .executed r → r.hasException = true) →
      ∀ w ∈ ws, w.1 ≠ e.op.rdPhy := by
    intro e he hew hne w hw hphy
    obtain ⟨x, hx, r, -, hs, hxw, hex, rfl⟩ := hwsmem w hw
    obtain rfl := eq_of_rdPhy_eq hok hx he hxw hew hphy
    rw [hne r hs] at hex
    exact absurd hex (by simp)
  refine ⟨g, ?_, ?_, ?_, ?_⟩
  · have := Regfile.sync_write f ws fun w hw => by
      obtain ⟨e, he, r, -, -, hew, -, rfl⟩ := hwsmem w hw
      exact hlt _ (hmem e he hew)
    rw [hg, ← this, hws, List.map_map]
    rfl
  · intro a ha
    obtain ⟨hv, hd⟩ := hkeep (C a) fun w hw hwa => by
      obtain ⟨e, he, r, -, -, hew, -, rfl⟩ := hwsmem w hw
      exact hok.fresh (e.op.rd, e.op.rdPhy) (mem_renamings.mpr ⟨e, he, hew, rfl⟩) a ha hwa.symm
    rw [hv, hd]
    exact h.committed a ha
  · intro x hx hxw
    obtain ⟨e, he, rfl⟩ := List.mem_map.mp hx
    rw [Entry.op_advance]
    have hew : e.writes = true := hxw
    obtain ⟨hv, hd⟩ := h.inflight e he hew
    by_cases hdone : ∃ r, e.status = .executed r ∧ r.hasException = false
    · -- its result is written now
      obtain ⟨r, hs, hex⟩ := hdone
      obtain ⟨hr, hen⟩ := (hports r).mpr ⟨e, he, hs⟩
      obtain ⟨hphy, hwr⟩ := hres e he r (by simp [Entry.result, hs])
      have hmemws : (e.op.rdPhy, r.rdValue, true) ∈ ws := by
        rw [hws]
        refine List.mem_map.mpr ⟨r, List.mem_filter.mpr ⟨hr, ?_⟩, by rw [hphy]⟩
        rw [hwr, hew, hex]
        rfl
      have huniq : ∀ w ∈ ws, w.1 = e.op.rdPhy → w.2 = (r.rdValue, true) := by
        intro w hw hwp
        obtain ⟨x, hx, r', -, hs', hxw, -, rfl⟩ := hwsmem w hw
        obtain rfl := eq_of_rdPhy_eq hok hx he hxw hew hwp
        rw [hs] at hs'
        injection hs' with hs'
        rw [hs']
      have hstored : (e.advance rs).stored? = some r.rdValue := by
        simp [Entry.stored?, Entry.advance, hs, hex]
      have hv' : g.regDataValid e.op.rdPhy = true := by
        rw [hg]
        refine Renaming.mapAfter_of_forall (x := (e.op.rdPhy, true))
          (List.mem_map.mpr ⟨_, hmemws, rfl⟩) fun y hy hyp => ?_
        obtain ⟨w, hw, rfl⟩ := List.mem_map.mp hy
        rw [huniq w hw hyp]
      have hd' : g.regData e.op.rdPhy = r.rdValue := by
        rw [hg]
        refine Renaming.mapAfter_of_forall (x := (e.op.rdPhy, r.rdValue))
          (List.mem_map.mpr ⟨_, hmemws, rfl⟩) fun y hy hyp => ?_
        obtain ⟨w, hw, rfl⟩ := List.mem_map.mp hy
        rw [huniq w hw hyp]
      rw [hv', hd', hstored]
      exact ⟨rfl, fun v hv => Option.some.inj hv⟩
    · obtain ⟨hgv, hgd⟩ := hkeep e.op.rdPhy (hother e he hew fun r hs => by
        cases hex : r.hasException with
        | true => rfl
        | false => exact absurd ⟨r, hs, hex⟩ hdone)
      have hstored : (e.advance rs).stored? = e.stored? := by
        refine Entry.stored_advance fun r hs => ?_
        cases hex : r.hasException with
        | true => rfl
        | false => exact absurd ⟨r, hs, hex⟩ hdone
      rw [hgv, hgd, hstored]
      exact ⟨hv, hd⟩
  · intro p hp hnot
    rw [renamings_advance] at hnot
    obtain ⟨hv, -⟩ := hkeep p fun w hw hwp => by
      obtain ⟨e, he, r, -, -, hew, -, rfl⟩ := hwsmem w hw
      exact hnot (hwp ▸ hmem e he hew)
    rw [hv]
    exact h.free p hp hnot

/-- New instructions have no data yet. -/
theorem RegOk.append {news : List Entry} (h : RegOk f C regs flight)
    (hok : Renaming.Ok archRegs C (renamings (flight ++ news)))
    (hlt : ∀ e ∈ news, e.writes = true → e.op.rdPhy < phyRegNum)
    (hnew : ∀ e ∈ news, e.status = .waiting) : RegOk f C regs (flight ++ news) where
  committed := h.committed
  inflight := by
    intro e he hw
    rw [List.mem_append] at he
    obtain he | he := he
    · exact h.inflight e he hw
    · have hstored : e.stored? = none := by simp [Entry.stored?, hnew e he]
      refine ⟨?_, by simp [hstored]⟩
      rw [hstored]
      refine h.free _ (hlt e he hw) ?_
      -- a new register is none of those in use
      obtain ⟨pre, post, rfl⟩ := List.append_of_mem he
      have hok' : Renaming.Ok archRegs C ((renamings (flight ++ pre)) ++ [(e.op.rd, e.op.rdPhy)]) := by
        have : renamings (flight ++ (pre ++ e :: post)) =
            (renamings (flight ++ pre) ++ [(e.op.rd, e.op.rdPhy)]) ++ renamings post := by
          simp [Entry.mapping_of_writes hw]
        rw [this] at hok
        exact hok.of_append
      intro hmem
      refine hok'.last_notMem_live ?_
      rw [renamings_append]
      obtain hl | ⟨x, hx, hl⟩ := Renaming.mem_live.mp hmem
      · exact Renaming.mem_live.mpr (.inl hl)
      · exact Renaming.mem_live.mpr (.inr ⟨x, List.mem_append_left _ hx, hl⟩)
  free := by
    intro p hp hnot
    refine h.free p hp fun hmem => hnot ?_
    rw [renamings_append]
    obtain hl | ⟨x, hx, hl⟩ := Renaming.mem_live.mp hmem
    · exact Renaming.mem_live.mpr (.inl hl)
    · exact Renaming.mem_live.mpr (.inr ⟨x, List.mem_append_left _ hx, hl⟩)

/-- A mispredict leaves exactly the data of the committed registers valid. -/
theorem RegOk.restore {cp : Checkpoint} (h : RegOk f C regs flight) (hcp : CleanOk cp C)
    (hlt : ∀ a ∈ archRegs, C a < phyRegNum) : RegOk (f.restore cp) C regs [] where
  committed := fun a ha =>
    ⟨(hcp.data_iff _ (hlt a ha)).mpr ⟨a, ha, rfl⟩, (h.committed a ha).2⟩
  inflight := by simp
  free := by
    intro p hp hnot
    rw [← Bool.not_eq_true]
    intro hv
    obtain ⟨a, ha, rfl⟩ := (hcp.data_iff p hp).mp hv
    exact hnot (Renaming.mem_live.mpr (.inl ⟨a, ha, rfl⟩))

end Regfile

theorem Fifo.sync_setItem {α : Type} (q : Fifo α) (ws : List (Nat × α)) :
    q.sync (ws.map fun w => .setItem w.1 w.2) = { q with buffer := mapAfter q.buffer ws } := by
  induction ws generalizing q with
  | nil => rfl
  | cons w ws ih => exact ih (q.setItem w.1 w.2)

section Rob

variable {q : Fifo RobItem} {C : Nat → Nat} {flight ret rest : List Entry} {e : Entry}

/-- Rename pushes an instruction. -/
theorem RobOk.push (h : RobOk q C flight) (hc : q.count < q.size) (hid : e.op.robId = q.wptr) :
    RobOk (q.pushed (robItemOf (mapAt C flight) e)) C (flight ++ [e]) where
  wf := h.wf.pushed hc _
  size := h.size
  save := h.save
  ids := by rw [h.wf.ids_pushed hc, h.ids, List.map_append, List.map_singleton, hid]
  item := by
    intro pre x post hf
    obtain ⟨post', rfl, rfl⟩ | ⟨pre', rfl, hlast⟩ := split_append hf
    · have hne : x.op.robId ≠ q.wptr := by
        intro heq
        refine h.wf.wptr_notMem hc ?_
        rw [← heq, h.ids]
        exact List.mem_map.mpr ⟨x, by simp, rfl⟩
      exact (Function.update_of_ne hne _ _).trans (h.item pre x post' rfl)
    · obtain ⟨rfl, rfl, -⟩ : pre' = [] ∧ e = x ∧ post = [] := by
        cases pre' with
        | nil => exact ⟨rfl, by simpa using hlast⟩
        | cons y ys => simp at hlast
      rw [hid, List.append_nil]
      exact Function.update_self _ _ _

/-- The oldest instruction is popped. -/
theorem RobOk.pop (h : RobOk q C (e :: rest)) : RobOk q.drop1 (mapAfter C e.mapping) rest where
  wf := h.wf.drop1
  size := by
    have hc : 0 < q.count := by rw [h.count_eq]; simp
    rw [h.wf.drop1_eq hc]
    exact h.size
  save := by rw [Fifo.popStatusSave_drop1, h.save]
  ids := by rw [h.wf.ids_drop1, h.ids]; rfl
  item := by
    intro pre x post hf
    rw [Fifo.buffer_drop1, ← mapAt_cons]
    exact h.item (e :: pre) x post (by rw [hf]; rfl)

/-- The group leaves at the front. -/
theorem RobOk.sync_pop (h : RobOk q C (ret ++ rest)) :
    RobOk (q.sync (List.replicate ret.length .pop)) (mapAt C ret) rest := by
  induction ret generalizing q C with
  | nil => exact h
  | cons e ret ih =>
    rw [mapAt_cons]
    exact ih h.pop

/-- The results on the port to commit finish their entries, and every instruction moves on. -/
theorem RobOk.sync_finish {q₀ : Fifo RobItem} {port rs : List ExecuteWbPack} (h : RobOk q C flight)
    (hport : ∀ r, (r ∈ port ∧ r.enable = true) ↔ ∃ e ∈ flight, e.status = .written r)
    (hid : ∀ e ∈ flight, ∀ r, e.result = some r → r.robId = e.op.robId)
    (hq₀ : ∀ e ∈ flight, (∃ r, e.status = .written r) →
      q₀.buffer e.op.robId = q.buffer e.op.robId) :
    RobOk (q.sync (Commit.finishRequests q₀ port)) C (flight.map (Entry.advance rs)) := by
  obtain ⟨ws, hws⟩ : ∃ ws : List (Nat × RobItem), ws = (port.filter (·.enable)).map fun p =>
    (p.robId, Commit.finishItem (q₀.getItem p.robId) p) := ⟨_, rfl⟩
  -- the requests are writes to slots that have a result in the port
  have hsync : q.sync (Commit.finishRequests q₀ port) = { q with buffer := mapAfter q.buffer ws } := by
    rw [← Fifo.sync_setItem, hws, List.map_map]
    rfl
  have hwsmem : ∀ w ∈ ws, ∃ x ∈ flight, ∃ r, x.status = .written r ∧ r.robId = x.op.robId ∧
      w = (x.op.robId, Commit.finishItem (q.buffer x.op.robId) r) := by
    intro w hw
    rw [hws] at hw
    obtain ⟨r, hr, rfl⟩ := List.mem_map.mp hw
    obtain ⟨x, hx, hs⟩ := (hport r).mp (List.mem_filter.mp hr)
    have hrid := hid x hx r (by simp [Entry.result, hs])
    refine ⟨x, hx, r, hs, hrid, ?_⟩
    rw [hrid, ← hq₀ x hx ⟨r, hs⟩]
    rfl
  rw [hsync]
  refine ⟨⟨h.wf.rptr_lt, h.wf.wptr_lt, h.wf.stage⟩, h.size, h.save, ?_, ?_⟩
  · rw [List.map_map]
    exact h.ids
  · intro pre x post hf
    obtain ⟨pre, e, post, rfl, rfl, rfl, rfl⟩ := split_advance hf
    have hmem : e ∈ pre ++ e :: post := by simp
    have hitem := h.item pre e post rfl
    rw [mapAt_advance, Entry.op_advance]
    -- its result is in the port now: the slot is written, by no other entry
    by_cases hw : ∃ r, e.status = .written r
    · obtain ⟨r, hs⟩ := hw
      obtain ⟨hr, hen⟩ := (hport r).mpr ⟨e, hmem, hs⟩
      have hrid := hid e hmem r (by simp [Entry.result, hs])
      have hin : (e.op.robId, Commit.finishItem (q.buffer e.op.robId) r) ∈ ws := by
        rw [hws]
        refine List.mem_map.mpr ⟨r, List.mem_filter.mpr ⟨hr, hen⟩, ?_⟩
        rw [hrid, ← hq₀ e hmem ⟨r, hs⟩]
        rfl
      have hval : mapAfter q.buffer ws e.op.robId = Commit.finishItem (q.buffer e.op.robId) r := by
        refine Renaming.mapAfter_of_forall hin fun w hw hwid => ?_
        obtain ⟨y, hy, r', hs', -, rfl⟩ := hwsmem w hw
        obtain rfl := h.eq_of_robId_eq hy hmem hwid
        rw [hs] at hs'
        injection hs' with hs'
        rw [hs']
      have hadv : (e.advance rs).status = .finished r := by simp [Entry.advance, hs]
      rw [robItemOf_finished hadv]
      refine hval.trans ?_
      rw [hitem, robItemOf_unfinished (by simp [hs])]
      rfl
    · have hval : mapAfter q.buffer ws e.op.robId = q.buffer e.op.robId := by
        refine Renaming.mapAfter_of_notMem fun w hw' hwid => ?_
        obtain ⟨y, hy, r, hs, -, rfl⟩ := hwsmem w hw'
        obtain rfl := h.eq_of_robId_eq hy hmem hwid
        exact hw ⟨r, hs⟩
      refine (hval.trans hitem).trans ?_
      cases hs : e.status with
      | waiting =>
        rw [robItemOf_unfinished (by simp [hs]), robItemOf_unfinished]
        · rfl
        · intro r
          simp only [Entry.advance, hs]
          cases rs.find? fun r => r.enable && r.robId == e.op.robId <;> simp
      | executed r =>
        rw [robItemOf_unfinished (by simp [hs]), robItemOf_unfinished (by simp [Entry.advance, hs])]
        rfl
      | written r => exact absurd ⟨r, hs⟩ hw
      | finished r =>
        rw [robItemOf_finished hs, robItemOf_finished (r := r) (by simp [Entry.advance, hs])]
        rfl

end Rob

end MyRiscvCore
