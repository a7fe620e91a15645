import MyRiscvCore.Properties.Assertions

/-!
# MyRiscvCore — whether a cycle ends

The loops of a cycle whose bound is not written down are the walks over the rings of the issue queue and of the
store buffer, the round-robin search for a unit, and the two loops of `charfifo::filter`. The first three are
modelled with as many rounds as there are slots or units; here it is shown that more rounds change nothing
(`LoopsEnd`), so the source's loops end. The loops of `charfifo::filter` wait for the terminal.

* `cycle_terminates` — a cycle waits exactly if an instruction that writes `charfifo` retires in it and finds its
  queue unable to serve it.
-/

namespace MyRiscvCore

namespace Fifo

variable {α : Type}

/-- Walks from the first item of the ring end: more rounds than there are slots change nothing. -/
def WalksEnd (q : Fifo α) : Prop :=
  ∀ (σ : Type) (file : SourceFile) (body : Nat → σ → Except Halt (σ × Bool)) (more : σ → Bool) (s : σ)
    (firstId rounds : Nat), q.getFrontId = some firstId → q.size ≤ rounds →
    q.doWhileNext file firstId body more rounds firstId s =
      q.doWhileNext file firstId body more q.size firstId s

/-- After `i` rounds a walk stands `i` slots behind the first one, so that it has come back to it after `size`. -/
theorem doWhileNext_rounds {σ : Type} (q : Fifo α) (file : SourceFile) {firstId : Nat} (hfirst : firstId < q.size)
    (body : Nat → σ → Except Halt (σ × Bool)) (more : σ → Bool) {left i rounds : Nat} (hi : i + left = q.size)
    (hpos : 0 < left) (hr : left ≤ rounds) (s : σ) :
    q.doWhileNext file firstId body more rounds ((firstId + i) % q.size) s =
      q.doWhileNext file firstId body more left ((firstId + i) % q.size) s := by
  induction left generalizing i rounds s with
  | zero => omega
  | succ left ih =>
    obtain ⟨rounds, rfl⟩ : ∃ r, rounds = r + 1 := ⟨rounds - 1, by omega⟩
    have hnext : ((firstId + i) % q.size + 1) % q.size = (firstId + (i + 1)) % q.size := by
      rw [Nat.mod_add_mod, Nat.add_assoc]
    unfold doWhileNext getNextId
    simp only [hnext, bind_assoc, pure_bind]
    by_cases hleft : left = 0
    · -- the walk is back at its first slot
      have hback : (firstId + (i + 1)) % q.size = firstId := by
        rw [show firstId + (i + 1) = firstId + q.size by omega, Nat.add_mod_right, Nat.mod_eq_of_lt hfirst]
      simp only [hback, bne_self_eq_false, Bool.and_false, Bool.false_and, Bool.false_eq_true, if_false]
    · have hgo (s : σ) : q.doWhileNext file firstId body more rounds ((firstId + (i + 1)) % q.size) s =
          q.doWhileNext file firstId body more left ((firstId + (i + 1)) % q.size) s :=
        ih (by omega) (by omega) (by omega) s
      simp only [hgo]

/-- A walk over a ring comes back to its start. -/
theorem walksEnd {q : Fifo α} (h : q.rptr < q.size) : q.WalksEnd := by
  intro σ file body more s firstId rounds hfront hr
  have hfirst : firstId = q.rptr := by
    unfold getFrontId at hfront
    split at hfront
    · cases hfront
    · exact (Option.some.inj hfront).symm
  subst hfirst
  have hstart : (q.rptr + 0) % q.size = q.rptr := Nat.mod_eq_of_lt h
  have hwalk := doWhileNext_rounds q file h body more (Nat.zero_add q.size) (by omega) hr s
  rwa [hstart] at hwalk

end Fifo

section Rings

variable {α : Type} {q q' : Fifo α}

theorem Fifo.push_ring (q : Fifo α) (x : α) :
    ((q.push x).getD q).rptr = q.rptr ∧ ((q.push x).getD q).size = q.size := by
  unfold Fifo.push
  split
  · exact ⟨rfl, rfl⟩
  · dsimp only
    split <;> exact ⟨rfl, rfl⟩

theorem Fifo.drop1_ring (h : q.rptr < q.size) : q.drop1.rptr < q.drop1.size := by
  unfold Fifo.drop1 Fifo.pop
  by_cases he : q.isEmpty = true
  · simpa only [he, if_true] using h
  · simp only [he, if_false, Bool.false_eq_true]
    split_ifs with hend
    · exact Nat.zero_lt_of_lt h
    · exact Nat.lt_of_not_le hend

/-- The ring that `compress` walks over: new items were pushed, and items replaced. -/
theorem input_ring {regfile : Regfile} {chs : Channels} {slots : List ReadregIssueOp} {last last' : Nat}
    {fin : Bool} {q q' : Fifo ReadregIssueOp} (h : Issue.input regfile chs slots last q = .ok (q', last', fin)) :
    q'.rptr = q.rptr ∧ q'.size = q.size := by
  induction slots generalizing last q with
  | nil =>
    cases h
    exact ⟨rfl, rfl⟩
  | cons op rest ih =>
    unfold Issue.input at h
    split at h
    · exact ih h
    split at h
    · cases h
      exact ⟨rfl, rfl⟩
    · obtain ⟨item, -, h⟩ := bind_eq_ok.mp h
      obtain ⟨hrptr, hsize⟩ := ih h
      exact ⟨hrptr.trans (q.push_ring item).1, hsize.trans (q.push_ring item).2⟩

theorem setItems_ring {wakes : List (Nat × α)}
    (h : wakes.foldlM (fun q r => IssueQueue.setItem q r.1 r.2) q = .ok q') :
    q'.rptr = q.rptr ∧ q'.size = q.size := by
  induction wakes generalizing q with
  | nil =>
    cases h
    exact ⟨rfl, rfl⟩
  | cons r rest ih =>
    rw [List.foldlM_cons] at h
    obtain ⟨q₁, hq₁, h⟩ := bind_eq_ok.mp h
    obtain ⟨-, -, hq₁⟩ := bind_eq_ok.mp hq₁
    cases hq₁
    obtain ⟨hrptr, hsize⟩ := ih h
    exact ⟨hrptr, hsize⟩

/-- The ring in which retired stores are marked. -/
theorem flushOrWrite_ring {q q' : StoreBuffer} {fb : CommitFeedbackPack} {writes : List Bus.Request}
    (h : StoreBuffer.flushOrWrite q fb = .ok (q', writes)) (hq : q.rptr < q.size) : q'.rptr < q'.size := by
  unfold StoreBuffer.flushOrWrite at h
  split at h
  · obtain ⟨found, -, h⟩ := bind_eq_ok.mp h
    split at h
    · cases h
      exact hq
    · cases h
      exact hq
  · split at h
    · split at h
      · cases h
        exact Fifo.drop1_ring hq
      · cases h
        exact hq
    · cases h
      exact hq

end Rings

/-- As for the rings: the search is back at its first unit after as many rounds as there are units. -/
theorem roundRobin_rounds (fifos : Nat → Fifo IssueExecutePack) {n first : Nat} (hfirst : first < n)
    {left i rounds : Nat} (hi : i + left = n) (hpos : 0 < left) (hr : left ≤ rounds) :
    Issue.roundRobin fifos n first rounds ((first + i) % n) = Issue.roundRobin fifos n first left ((first + i) % n) := by
  induction left generalizing i rounds with
  | zero => omega
  | succ left ih =>
    obtain ⟨rounds, rfl⟩ : ∃ r, rounds = r + 1 := ⟨rounds - 1, by omega⟩
    have hnext : ((first + i) % n + 1) % n = (first + (i + 1)) % n := by
      rw [Nat.mod_add_mod, Nat.add_assoc]
    unfold Issue.roundRobin
    rw [hnext]
    by_cases hleft : left = 0
    · have hback : (first + (i + 1)) % n = first := by
        rw [show first + (i + 1) = first + n by omega, Nat.add_mod_right, Nat.mod_eq_of_lt hfirst]
      rw [hback, if_pos rfl, if_pos rfl]
    · rw [ih (by omega) (by omega) (by omega)]

/-- Where the search of each unit starts is kept in range. -/
theorem dispatch_unitIndex {chs : Channels} {fb : CommitFeedbackPack} {items : List ReadregIssueOp}
    {d d' : Issue.DispatchState} (h : Issue.dispatch chs fb items d = .ok d')
    (hd : ∀ u, d.state.unitIndex u < unitNum u) (u : OpUnit) : d'.state.unitIndex u < unitNum u := by
  induction items generalizing d with
  | nil =>
    cases h
    exact hd u
  | cons item rest ih =>
    unfold Issue.dispatch at h
    split at h
    · -- the index is not touched before an item is sent
      have hnew (index : Nat) (u : OpUnit) :
          Function.update d.state.unitIndex item.opUnit ((index + 1) % unitNum item.opUnit) u < unitNum u := by
        by_cases hu : u = item.opUnit
        · rw [hu, Function.update_self]
          exact Nat.mod_lt _ (Nat.zero_lt_of_lt (hd item.opUnit))
        · rw [Function.update_of_ne hu]
          exact hd u
      cases hser : Issue.isSerial item with
      | false =>
        simp only [hser, Bool.false_eq_true, if_false] at h
        split at h
        · cases h
          exact hd u
        split at h
        · cases h
          exact hd u
        split at h
        · cases h
        split at h
        · cases h
          exact hnew _ u
        · exact ih h fun u => hnew _ u
      | true =>
        simp only [hser, if_true] at h
        obtain ⟨-, -, h⟩ := bind_eq_ok.mp h
        split at h
        · cases h
          exact hd u
        split at h
        · cases h
          exact hd u
        split at h
        · cases h
        · cases h
          exact hnew _ u
    · exact ih h hd

/-- The walks over the rings that a cycle from `m` makes end, and the searches for a unit. -/
structure LoopsEnd (m : Machine) : Prop where
  /-- Selection and wake-up. -/
  issueQueue : m.issue.issueQ.WalksEnd
  /-- `compress`, after the input part and the wake-up. -/
  compress : ∀ regfile chs slots last q last' fin (wakes : List (Nat × ReadregIssueOp)) q',
    Issue.input regfile chs slots last m.issue.issueQ = .ok (q, last', fin) →
    wakes.foldlM (fun q r => IssueQueue.setItem q r.1 r.2) q = .ok q' → q'.WalksEnd
  /-- `get_feedback_value` and the flush of the store buffer. -/
  storeBuffer : Fifo.WalksEnd m.storeBuffer
  /-- Marking the retired stores. -/
  mark : ∀ fb q writes, StoreBuffer.flushOrWrite m.storeBuffer fb = .ok (q, writes) → Fifo.WalksEnd q
  /-- Dispatch, after any number of items. -/
  roundRobin : ∀ chs fb items d d', d.state.unitIndex = m.issue.unitIndex →
    Issue.dispatch chs fb items d = .ok d' → ∀ u fifos rounds, unitNum u ≤ rounds →
      Issue.roundRobin fifos (unitNum u) (d'.state.unitIndex u) rounds (d'.state.unitIndex u) =
        Issue.roundRobin fifos (unitNum u) (d'.state.unitIndex u) (unitNum u) (d'.state.unitIndex u)

/-- All loops of a reachable machine end. -/
theorem Refines.loopsEnd {m : Machine} {w : Window} (h : Refines m w) : LoopsEnd m where
  issueQueue := Fifo.walksEnd h.shape.queue.rptr_lt
  compress regfile chs slots last q last' fin wakes q' hin hset := by
    obtain ⟨hr, hs⟩ := input_ring hin
    obtain ⟨hr', hs'⟩ := setItems_ring hset
    refine Fifo.walksEnd ?_
    rw [hr', hr, hs', hs]
    exact h.shape.queue.rptr_lt
  storeBuffer := Fifo.walksEnd h.storeBuffer_wf.rptr_lt
  mark fb q writes hq := Fifo.walksEnd (flushOrWrite_ring hq h.storeBuffer_wf.rptr_lt)
  roundRobin chs fb items d d' hd hd' u fifos rounds hr := by
    have hlt := dispatch_unitIndex hd' (fun u => by rw [hd]; exact h.shape.unitIndex u) u
    have hsame := roundRobin_rounds fifos hlt (Nat.zero_add _) (Nat.zero_lt_of_lt hlt) hr
    rwa [Nat.add_zero, Nat.mod_eq_of_lt hlt] at hsame

/-! ## Writes that wait for the terminal

The one loop of the source that can spin is the wait for space in `charfifo`. -/

namespace Csrfile

/-- A write of `v` to `charfifo` cannot be served: it takes a character from an empty queue, or puts one into a
full queue. -/
def Blocks (c : Csrfile) (v : Word) : Prop :=
  if v &&& 0x80000000 != 0 then c.revFifo = [] else charfifoCapacity ≤ c.sendFifo.length

variable {c c' : Csrfile} {r : Request} {rs : List Request}

/-- A write of another register is applied, and leaves the queues alone. -/
theorem apply_plain (c : Csrfile) (h : r.Known) (ha : r.addr ≠ csrCharfifo) :
    ∃ c', c.apply r = .ok c' ∧ ∀ v, c'.Blocks v ↔ c.Blocks v := by
  obtain ⟨item, m, hitem, hm⟩ := h.plain ha
  rw [apply_eq_writeSys c h, writeSys, hitem]
  simp only [writeItem, hm]
  exact ⟨_, rfl, fun _ => Iff.rfl⟩

/-- A write to `charfifo` either waits or is done. -/
theorem apply_charfifo (c : Csrfile) (h : r.Known) (ha : r.addr = csrCharfifo) :
    c.Blocks r.value ∧ c.apply r = .error .charfifo ∨ ¬ c.Blocks r.value ∧ ∃ c', c.apply r = .ok c' := by
  rw [apply_eq_writeSys c h, ha]
  unfold Blocks
  change _ ∧ c.writeItem csrCharfifo ⟨false, 0, .charfifo⟩ r.value = _ ∨
    _ ∧ ∃ c', c.writeItem csrCharfifo ⟨false, 0, .charfifo⟩ r.value = .ok c'
  unfold writeItem
  dsimp only
  split_ifs with hbit hroom
  · cases hrev : c.revFifo with
    | nil => exact .inl ⟨rfl, rfl⟩
    | cons ch rest => exact .inr ⟨List.cons_ne_nil _ _, _, rfl⟩
  · exact .inr ⟨Nat.not_le_of_lt hroom, _, rfl⟩
  · exact .inl ⟨Nat.le_of_not_lt hroom, rfl⟩

/-- With at most one request for `charfifo`, it waits or nothing does. -/
theorem sync_charfifo_iff (hk : ∀ r ∈ rs, r.Known) (hone : (rs.filter (·.addr == csrCharfifo)).length ≤ 1) :
    c.sync rs = .error .charfifo ↔ ∃ r ∈ rs, r.addr = csrCharfifo ∧ c.Blocks r.value := by
  induction rs generalizing c with
  | nil =>
    constructor
    · intro h
      cases h
    · rintro ⟨r, hr, -⟩
      exact absurd hr List.not_mem_nil
  | cons r rs ih =>
    have hr := hk r List.mem_cons_self
    have hks : ∀ r ∈ rs, r.Known := fun x hx => hk x (List.mem_cons_of_mem _ hx)
    rw [sync_cons]
    by_cases ha : r.addr = csrCharfifo
    · -- the others are for other registers
      have hrest : ∀ x ∈ rs, x.addr ≠ csrCharfifo := by
        rw [List.filter_cons_of_pos (by simpa using ha), List.length_cons] at hone
        have hnil := List.length_eq_zero_iff.mp (Nat.le_zero.mp (Nat.le_of_succ_le_succ hone))
        exact fun x hx h => List.filter_eq_nil_iff.mp hnil x hx (by simpa using h)
      obtain ⟨hb, h₁⟩ | ⟨hb, c₁, h₁⟩ := c.apply_charfifo hr ha
      · rw [h₁]
        exact ⟨fun _ => ⟨r, List.mem_cons_self, ha, hb⟩, fun _ => rfl⟩
      · obtain ⟨c₂, h₂⟩ := c₁.sync_plain fun x hx => ⟨hks x hx, (hks x hx).plain (hrest x hx)⟩
        rw [h₁]
        constructor
        · intro h
          cases h₂.symm.trans h
        · rintro ⟨x, hx, hxa, hxb⟩
          obtain rfl | hx := List.mem_cons.mp hx
          · exact absurd hxb hb
          · exact absurd hxa (hrest x hx)
    · have hone : (rs.filter (·.addr == csrCharfifo)).length ≤ 1 := by
        rwa [List.filter_cons_of_neg (by simpa using ha)] at hone
      obtain ⟨c₁, h₁, hsame⟩ := c.apply_plain hr ha
      rw [h₁]
      refine (ih hks hone).trans ?_
      simp [ha, hsame]

end Csrfile

section Writes

variable {env : Env} {n : Nat} {m : Machine} {w : Window} {s : Stages} {csr : Csrfile} {e : Entry}

/-- Of the requests of a retired instruction, only the write of a CSR instruction can be for `charfifo`. -/
theorem retireCsrRequests_charfifo (csr : Csrfile) (e : Entry) :
    (retireCsrRequests csr e).filter (·.addr == csrCharfifo) = [] ∨
      ∃ r v, e.status = .finished r ∧ r.csrNewvalueValid = true ∧
        (retireCsrRequests csr e).filter (·.addr == csrCharfifo) = [.write csrCharfifo v] := by
  unfold retireCsrRequests
  split
  next r hs =>
    have hmret : (if r.opUnit == .bru && e.op.op == .mret then
        [Csrfile.Request.writeSys csrMstatus (setMie (csr.value csrMstatus) (getMpie (csr.value csrMstatus)))]
        else []).filter (·.addr == csrCharfifo) = [] := by
      split <;> rfl
    rw [List.filter_append, hmret, List.append_nil]
    cases hv : r.csrNewvalueValid with
    | false => exact .inl rfl
    | true =>
      by_cases ha : e.op.csr = csrCharfifo
      · refine .inr ⟨r, r.csrNewvalue, hs, hv, ?_⟩
        simp [ha, Csrfile.Request.addr]
      · exact .inl (by simp [ha, Csrfile.Request.addr])
  · exact .inl rfl

/-- CSR instructions retire one at a time, so that at most one request of a cycle is for `charfifo`. -/
theorem Normal.charfifo_one (h : Normal m w) {ret rest : List Entry} (hflight : w.flight = ret ++ rest)
    (csr : Csrfile) : (ret.flatMap (retireCsrRequests csr)).filter (·.addr == csrCharfifo) = [] ∨
      ∃ v, (ret.flatMap (retireCsrRequests csr)).filter (·.addr == csrCharfifo) = [.write csrCharfifo v] := by
  -- a CSR instruction that has finished is the oldest instruction
  have hfirst (pre post : List Entry) (e : Entry) (hf : w.flight = pre ++ e :: post) (hpre : pre ≠ []) :
      (retireCsrRequests csr e).filter (·.addr == csrCharfifo) = [] := by
    obtain hnil | ⟨r, v, hs, hv, -⟩ := retireCsrRequests_charfifo csr e
    · exact hnil
    · have hunit := ((h.flight pre e post hf).csr_write (by simp [Entry.result, hs]) hv).1
      exact absurd (h.serial.oldest pre e post hf (by simp [hunit]) (.inl (by simp [Entry.isWaiting, hs]))) hpre
  cases ret with
  | nil => exact .inl rfl
  | cons e post =>
    have hpost : (post.flatMap (retireCsrRequests csr)).filter (·.addr == csrCharfifo) = [] := by
      rw [List.filter_flatMap, List.flatMap_eq_nil_iff]
      intro x hx
      obtain ⟨pre, post', hsplit⟩ := List.append_of_mem hx
      refine hfirst (e :: pre) (post' ++ rest) x ?_ (List.cons_ne_nil _ _)
      rw [hflight, hsplit]
      simp
    rw [List.flatMap_cons, List.filter_append, hpost, List.append_nil]
    obtain hnil | ⟨-, v, -, -, hone⟩ := retireCsrRequests_charfifo csr e
    · exact .inl hnil
    · exact .inr ⟨v, hone⟩

/-- In a cycle at most one request is for `charfifo`, and it is the write of an instruction that retires. -/
theorem Refines.charfifo_one (h : Refines m w) (hs : s.RanBack env n m) :
    s.cm.csrRequests.filter (·.addr == csrCharfifo) = [] ∨
      ∃ v, s.cm.csrRequests.filter (·.addr == csrCharfifo) = [.write csrCharfifo v] := by
  obtain h | ⟨j, h⟩ := h
  · obtain ⟨ret, rest, stop, hflight, hcm⟩ := hs.commitSpec h
    rw [hcm.csrRequests]
    exact h.charfifo_one hflight _
  · obtain ⟨s', hcm, ⟨v⟩⟩ := hs.walkStages h
    refine .inl (List.filter_eq_nil_iff.mpr fun r hr ha => ?_)
    rw [← hcm] at hr
    obtain ⟨-, item, mask, hitem, hmask⟩ := v.csr_plain r (List.mem_append_left _ hr)
    rw [beq_iff_eq.mp ha] at hitem
    cases hitem
    cases hmask

/-- In this cycle an instruction that writes `charfifo` retires, and its queue cannot serve it. -/
def WaitsForTerminal (env : Env) (n : Nat) (m : Machine) : Prop :=
  ∃ s : Stages, s.Ran env n m ∧ ∃ v, .write csrCharfifo v ∈ s.cm.csrRequests ∧
    (Stages.csrBefore env n m).Blocks v

/-- The requests of a cycle block exactly at that write. -/
theorem CycleCase.sync_charfifo_iff (hs : CycleCase env n m w s) (h : Refines m w) :
    (Stages.csrBefore env n m).sync (s.csrRequests env n m) = .error .charfifo ↔
      ∃ v, .write csrCharfifo v ∈ s.cm.csrRequests ∧ (Stages.csrBefore env n m).Blocks v := by
  have hk : ∀ r ∈ s.csrRequests env n m, r.Known := by
    intro r hr
    obtain hr | hr := List.mem_append.mp hr
    · exact h.csr_known hs.ran.toRanBack r hr
    · obtain rfl := List.mem_singleton.mp hr
      rfl
  have hfilter : (s.csrRequests env n m).filter (·.addr == csrCharfifo) =
      s.cm.csrRequests.filter (·.addr == csrCharfifo) := by
    rw [Stages.csrRequests, List.filter_append]
    exact List.append_nil _
  have hmem (r : Csrfile.Request) : r ∈ s.csrRequests env n m ∧ r.addr = csrCharfifo ↔
      r ∈ s.cm.csrRequests.filter (·.addr == csrCharfifo) := by
    rw [← hfilter, List.mem_filter, beq_iff_eq]
  -- at most one write to `charfifo` retires in a cycle
  have hone := h.charfifo_one hs.ran.toRanBack
  rw [Csrfile.sync_charfifo_iff hk (by
    rw [hfilter]
    obtain hnil | ⟨v, hv⟩ := hone
    · rw [hnil]
      exact Nat.zero_le _
    · rw [hv]
      exact Nat.le_refl _)]
  constructor
  · rintro ⟨r, hr, ha, hb⟩
    have hr := (hmem r).mp ⟨hr, ha⟩
    obtain hnil | ⟨v, hv⟩ := hone
    · rw [hnil] at hr
      exact absurd hr List.not_mem_nil
    · rw [hv] at hr
      obtain rfl := List.mem_singleton.mp hr
      exact ⟨v, (List.mem_filter.mp (hv ▸ List.mem_singleton_self _)).1, hb⟩
  · rintro ⟨v, hr, hb⟩
    exact ⟨_, List.mem_append_left _ hr, rfl, hb⟩

/-- A cycle waits exactly if a retiring write finds the terminal full. -/
theorem Refines.cycle_charfifo_iff (h : Refines m w) :
    cycle env n m = .error .charfifo ↔ WaitsForTerminal env n m := by
  obtain ⟨s, hs⟩ | ⟨s, hback, herr⟩ := h.cycleCase env n
  · obtain ⟨u, hu⟩ | ⟨hsync, hc⟩ := hs.exists_synced
    · constructor
      · intro hc
        cases (cycle_ok_iff.mpr ⟨s, u, hs.ran, hu, rfl, rfl⟩).symm.trans hc
      · rintro ⟨s', hran, hblock⟩
        obtain rfl : s' = s := hs.ran.unique hran
        cases ((hs.sync_charfifo_iff h).mpr hblock).symm.trans hu.csrFile
    · exact ⟨fun _ => ⟨s, hs.ran, (hs.sync_charfifo_iff h).mp hsync⟩, fun _ => hc⟩
  · constructor
    · intro hc
      cases (cycle_error_fetch hback herr).symm.trans hc
    · rintro ⟨s', hran, -⟩
      have hft := hran.fetch
      rw [hback.fetchRun_eq hran.toRanBack, herr] at hft
      cases hft

end Writes

/-- From every state of a run, the loops of a cycle end, and it waits for nothing outside the simulator exactly if
no instruction that retires in it writes `charfifo` while the queue of the terminal cannot serve the write. -/
theorem cycle_terminates {env : Env} {n : Nat} {m : Machine} {logs : List CycleLog} (h : run env n = .ok (m, logs)) :
    LoopsEnd m ∧ (cycle env n m ≠ .error .charfifo ↔ ¬ WaitsForTerminal env n m) :=
  ⟨(run_refines h).loopsEnd, (run_refines h).cycle_charfifo_iff.not⟩

/-- `lui x1, 0x80000; csrrw x0, charfifo, x1`: take a character that nobody has sent. -/
def takeCharacter : List Word := [0x800000b7, 0x80009073]

/-- The cycle before the write retires. -/
theorem cycle_terminates_takeCharacter : ∃ m logs, run (Env.ofProgram takeCharacter) 13 = .ok (m, logs) ∧
    cycle (Env.ofProgram takeCharacter) 13 m ≠ .error .charfifo ∧
    ¬ WaitsForTerminal (Env.ofProgram takeCharacter) 13 m := by
  obtain ⟨m, logs, m', log, h, hc, -⟩ := exists_cycle_ok (show lastCycle (fun _ => true)
    (run (Env.ofProgram takeCharacter) (13 + 1)) = true by decide +kernel)
  have hne : cycle (Env.ofProgram takeCharacter) 13 m ≠ .error .charfifo := by
    rw [hc]
    exact fun h => by cases h
  exact ⟨m, logs, h, hne, (cycle_terminates h).2.mp hne⟩

/-- The write retires in cycle 14, and the cycle does not end. -/
theorem takeCharacter_waits : ∃ m logs, run (Env.ofProgram takeCharacter) 14 = .ok (m, logs) ∧
    cycle (Env.ofProgram takeCharacter) 14 m = .error .charfifo :=
  exists_cycle_error (show failsWith .charfifo (run (Env.ofProgram takeCharacter) 14)
    (run (Env.ofProgram takeCharacter) (14 + 1)) = true by decide +kernel)

end MyRiscvCore
