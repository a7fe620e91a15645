import MyRiscvCore.Refine.CommitStep
import MyRiscvCore.Refine.EntryFacts

/-!
# MyRiscvCore — results arrive

How the window changes when the execute stage has finished the packs `done`: the entries of these packs
get their results and all others keep their status or move on. Every part of the relation that speaks
about the instructions in flight is carried over from `flight` to `flight.map (Entry.advance rs)`.
-/

namespace MyRiscvCore

open Renaming (mapAfter)

/-! ## Operands

Operands that are known stay known when more values arrive. -/

section Operands

variable {reg reg' : Nat → Option Word} {op : RenameReadregOp} {v : Word}

theorem sourceValue_mono (h : ∀ a v, reg a = some v → reg' a = some v) {valid needMap : Bool}
    {rs : Nat} {src : ArgSrc} {imm : Word} (hv : sourceValue reg valid needMap rs src imm = some v) :
    sourceValue reg' valid needMap rs src imm = some v := by
  unfold sourceValue at *
  split_ifs at * with h1 h2 h3
  · exact hv
  · exact h _ _ hv
  · exact hv
  · exact hv

theorem operand1_mono (h : ∀ a v, reg a = some v → reg' a = some v)
    (hv : operand1 reg op = some v) : operand1 reg' op = some v :=
  sourceValue_mono h hv

theorem operand2_mono (h : ∀ a v, reg a = some v → reg' a = some v)
    (hv : operand2 reg op = some v) : operand2 reg' op = some v :=
  sourceValue_mono h hv

theorem OperandsOk.mono {i : ReadregIssueOp} (hi : OperandsOk reg i)
    (h : ∀ a v, reg a = some v → reg' a = some v) : OperandsOk reg' i where
  loaded1 hl := operand1_mono h (hi.loaded1 hl)
  loaded2 hl := operand2_mono h (hi.loaded2 hl)
  missing1 := hi.missing1
  missing2 := hi.missing2

end Operands

/-- What is known of the packs the execute stage has finished, relative to the window before. -/
structure ExecutedOk (regs : Nat → Word) (flight : List Entry)
    (done : List (IssueExecutePack × ExecuteWbPack)) (rs : List ExecuteWbPack)
    (others : List Nat) : Prop where
  nodupFlight : (flight.map (·.op.robId)).Nodup
  waiting : ((flight.filter (·.isWaiting)).map (·.op.robId)).Perm
    (done.map (·.1.robId) ++ others)
  pack : ∀ x ∈ done, ∃ pre e post v1 v2, flight = pre ++ e :: post ∧
    operand1 (valueAt regs pre) e.op = some v1 ∧ operand2 (valueAt regs pre) e.op = some v2 ∧
    x.1 = packOf e.op v1 v2
  result : ∀ x ∈ done, UnitResult x.1 x.2
  ports : ∀ r, (r ∈ rs ∧ r.enable = true) ↔ ∃ p, (p, r) ∈ done

theorem mem_map_filter {flight : List Entry} {p : Entry → Bool} {id : Nat} :
    id ∈ (flight.filter p).map (·.op.robId) ↔ ∃ e ∈ flight, p e = true ∧ e.op.robId = id := by
  simp only [List.mem_map, List.mem_filter, and_assoc]

namespace ExecutedOk

variable {regs : Nat → Word} {flight : List Entry} {done : List (IssueExecutePack × ExecuteWbPack)}
  {rs : List ExecuteWbPack} {others : List Nat}

variable (h : ExecutedOk regs flight done rs others)

include h

/-- The id tells the entries in flight apart. -/
theorem eq_of_robId {x y : Entry} (hx : x ∈ flight)
    (hy : y ∈ flight) (he : x.op.robId = y.op.robId) : x = y :=
  List.inj_on_of_nodup_map h.nodupFlight hx hy he

theorem nodup :
    (done.map (·.1.robId) ++ others).Nodup :=
  h.waiting.nodup_iff.mp (h.nodupFlight.sublist (List.filter_sublist.map _))

theorem robId_eq {x : IssueExecutePack × ExecuteWbPack}
    (hx : x ∈ done) : x.2.robId = x.1.robId :=
  (h.result x hx).sameOp.robId

/-- So there is one result for each. -/
theorem result_unique {x y : IssueExecutePack × ExecuteWbPack} (hx : x ∈ done) (hy : y ∈ done)
    (he : x.1.robId = y.1.robId) : x = y :=
  List.inj_on_of_nodup_map (List.nodup_append.mp h.nodup).1 hx hy he

/-- The entry of a finished pack was waiting. -/
theorem entry {x : IssueExecutePack × ExecuteWbPack}
    (hx : x ∈ done) : ∃ pre e post v1 v2, flight = pre ++ e :: post ∧
      operand1 (valueAt regs pre) e.op = some v1 ∧ operand2 (valueAt regs pre) e.op = some v2 ∧
      x.1 = packOf e.op v1 v2 ∧ e.status = .waiting := by
  obtain ⟨pre, e, post, v1, v2, hf, h1, h2, hp⟩ := h.pack x hx
  refine ⟨pre, e, post, v1, v2, hf, h1, h2, hp, ?_⟩
  have hmem : x.1.robId ∈ (flight.filter (·.isWaiting)).map (·.op.robId) :=
    h.waiting.mem_iff.mpr (List.mem_append_left _ (List.mem_map.mpr ⟨x, hx, rfl⟩))
  obtain ⟨y, hy, hyw, hyid⟩ := mem_map_filter.mp hmem
  obtain rfl : y = e := h.eq_of_robId hy (by simp [hf]) (by rw [hyid, hp, packOf_robId])
  exact Entry.isWaiting_iff.mp hyw

/-- A waiting instruction gets the result of its pack, or goes on waiting. -/
theorem advance_cases {e : Entry}
    (hw : e.status = .waiting) :
    (∃ x ∈ done, x.1.robId = e.op.robId ∧ (e.advance rs).status = .executed x.2) ∨
      ((∀ x ∈ done, x.1.robId ≠ e.op.robId) ∧ (e.advance rs).status = .waiting) := by
  simp only [Entry.advance, hw]
  cases hf : rs.find? fun r => r.enable && r.robId == e.op.robId with
  | some r =>
    have hr := List.find?_some hf
    simp only [Bool.and_eq_true, beq_iff_eq] at hr
    obtain ⟨p, hp⟩ := (h.ports r).mp ⟨List.mem_of_find?_eq_some hf, hr.1⟩
    exact .inl ⟨(p, r), hp, by rw [← h.robId_eq hp]; exact hr.2, rfl⟩
  | none =>
    refine .inr ⟨fun x hx hid => ?_, rfl⟩
    obtain ⟨hxr, hen⟩ := (h.ports x.2).mpr ⟨x.1, hx⟩
    have hnone := List.find?_eq_none.mp hf x.2 hxr
    rw [hen, h.robId_eq hx, hid] at hnone
    simp at hnone

/-- An entry goes on waiting exactly if its pack did not finish. -/
theorem isWaiting_advance (e : Entry) :
    (e.advance rs).isWaiting = (e.isWaiting && !(done.map (·.1.robId)).contains e.op.robId) := by
  cases hs : e.status with
  | waiting =>
    have hw : e.isWaiting = true := Entry.isWaiting_iff.mpr hs
    obtain ⟨x, hx, hid, hadv⟩ | ⟨hne, hadv⟩ := h.advance_cases hs
    · have hin : (done.map (·.1.robId)).contains e.op.robId = true :=
        List.contains_iff_mem.mpr (List.mem_map.mpr ⟨x, hx, hid⟩)
      rw [hw, hin, Entry.isWaiting, hadv]
      rfl
    · have hout : (done.map (·.1.robId)).contains e.op.robId = false := by
        rw [← Bool.not_eq_true, List.contains_iff_mem]
        rintro hmem
        obtain ⟨x, hx, hid⟩ := List.mem_map.mp hmem
        exact hne x hx hid
      rw [hw, hout, Entry.isWaiting_iff.mpr hadv]
      rfl
  | executed r => simp [Entry.isWaiting, Entry.advance, hs]
  | written r => simp [Entry.isWaiting, Entry.advance, hs]
  | finished r => simp [Entry.isWaiting, Entry.advance, hs]

omit h in
/-- Results only add values. -/
theorem value_mono (rs : List ExecuteWbPack) (pre : List Entry) :
    ∀ a v, valueAt regs pre a = some v → valueAt regs (pre.map (Entry.advance rs)) a = some v :=
  fun _ _ hv => valueAt_advance rs hv

/-- The new results are those of the units. -/
theorem flightOk {C : Nat → Nat}
    (hfl : FlightOk C regs flight) : FlightOk C regs (flight.map (Entry.advance rs)) := by
  intro pre e post hf
  obtain ⟨pre, e, post, rfl, rfl, rfl, rfl⟩ := split_advance hf
  have he := hfl pre e post rfl
  refine ⟨he.pack, ?_, ?_, ?_⟩
  · rw [mapAt_advance]
    exact he.source1
  · rw [mapAt_advance]
    exact he.source2
  · intro r hr
    cases hold : e.result with
    | some r' =>
      rw [Entry.result_advance hold] at hr
      obtain rfl := Option.some.inj hr
      obtain ⟨v1, v2, h1, h2, hu⟩ := he.result r' hold
      exact ⟨v1, v2, operand1_mono (value_mono rs pre) h1, operand2_mono (value_mono rs pre) h2, hu⟩
    | none =>
      have hw : e.status = .waiting := Entry.isWaiting_iff.mp (by
        rw [Entry.isWaiting_eq_result, hold]; rfl)
      obtain ⟨x, hx, hid, hadv⟩ | ⟨-, hadv⟩ := h.advance_cases hw
      · obtain ⟨pre', e', post', v1, v2, hf', h1, h2, hp, -⟩ := h.entry hx
        obtain rfl : e' = e := h.eq_of_robId (by simp [hf']) (by simp) (by
          rw [← hid, hp, packOf_robId])
        obtain rfl : x.2 = r := by
          simpa [Entry.result, hadv] using hr
        -- an entry occurs once in the window
        obtain rfl : pre' = pre := by
          have hnd : (pre ++ e' :: post).Nodup := List.Nodup.of_map _ h.nodupFlight
          exact (split_unique hf' hnd).1.symm
        refine ⟨v1, v2, operand1_mono (value_mono rs pre') h1, operand2_mono (value_mono rs pre') h2, ?_⟩
        rw [Entry.op_advance, ← hp]
        exact h.result x hx
      · simp [Entry.result, hadv] at hr

/-! ## Where the others are

The finished packs leave the units; everything else is where it was. -/

omit h in
/-- The ids of the instructions that go on waiting. -/
theorem ids_advance {P Q : Entry → Bool}
    (hPQ : ∀ e, P (e.advance rs) = (Q e && !(done.map (·.1.robId)).contains e.op.robId)) :
    ((flight.map (Entry.advance rs)).filter P).map (·.op.robId) =
      ((flight.filter Q).map (·.op.robId)).filter fun i => !(done.map (·.1.robId)).contains i := by
  induction flight with
  | nil => rfl
  | cons e flight ih =>
    rw [List.map_cons, List.filter_cons, List.filter_cons, hPQ]
    cases hQ : Q e with
    | false => simpa using ih
    | true =>
      cases hD : (done.map (·.1.robId)).contains e.op.robId with
      | true =>
        simp only [Bool.not_true, Bool.and_false, Bool.false_eq_true, if_false, if_true, List.map_cons,
          List.filter_cons, hD]
        exact ih
      | false =>
        simp only [Bool.not_false, Bool.and_true, if_true, List.map_cons, List.filter_cons, hD,
          Entry.op_advance]
        rw [ih]

/-- An id outside `done` is kept, one of `done` is not. -/
theorem filter_others {l : List Nat}
    (hl : ∀ i ∈ l, i ∈ others) : (l.filter fun i => !(done.map (·.1.robId)).contains i) = l := by
  rw [List.filter_eq_self]
  intro i hi
  have hnot : i ∉ done.map (·.1.robId) := fun hmem =>
    (List.nodup_append.mp h.nodup).2.2 i hmem i (hl i hi) rfl
  simpa [List.contains_iff_mem] using hnot

omit h in
theorem filter_done (done : List (IssueExecutePack × ExecuteWbPack)) {l : List Nat}
    (hl : ∀ i ∈ l, i ∈ done.map (·.1.robId)) :
    (l.filter fun i => !(done.map (·.1.robId)).contains i) = [] := by
  rw [List.filter_eq_nil_iff]
  intro i hi
  have := hl i hi
  simpa [List.contains_iff_mem] using this

/-- The instructions that still wait are the others. -/
theorem waiting_advance :
    (((flight.map (Entry.advance rs)).filter (·.isWaiting)).map (·.op.robId)).Perm others := by
  rw [ids_advance (Q := (·.isWaiting)) h.isWaiting_advance]
  refine (h.waiting.filter _).trans ?_
  rw [List.filter_append, filter_done done fun i hi => hi, List.nil_append,
    h.filter_others fun i hi => hi]

end ExecutedOk

section Parts

variable {regs : Nat → Word} {flight : List Entry} {packs packs' lsuP lsuP' : List IssueExecutePack}
  {items : List ReadregIssueOp} {renamed : List RenameReadregOp}
  {done : List (IssueExecutePack × ExecuteWbPack)} {rs : List ExecuteWbPack}

/-- The finished packs as the units see them, for the window. -/
theorem LocOk.executedOk (h : LocOk regs flight packs lsuP items renamed)
    (hnd : (flight.map (·.op.robId)).Nodup) (hperm : packs.Perm (done.map Prod.fst ++ packs'))
    (hres : ∀ x ∈ done, UnitResult x.1 x.2)
    (hports : ∀ r, (r ∈ rs ∧ r.enable = true) ↔ ∃ p, (p, r) ∈ done) :
    ExecutedOk regs flight done rs
      (packs'.map (·.robId) ++ (items.map (·.robId) ++ renamed.map (·.robId))) where
  nodupFlight := hnd
  waiting := by
    refine h.conserved.trans ?_
    rw [← List.append_assoc (done.map _)]
    refine List.Perm.append_right _ ?_
    have := hperm.map (·.robId)
    rwa [List.map_append, List.map_map] at this
  pack := fun x hx => h.pack x.1 (hperm.mem_iff.mpr
    (List.mem_append_left _ (List.mem_map.mpr ⟨x, hx, rfl⟩)))
  result := hres
  ports := hports

/-- Of two waiting loads or stores the older one is further ahead in the LSU. -/
theorem LocOk.lsu_oldest {lsuD : List IssueExecutePack} {pre post : List Entry} {e x : Entry}
    (h : LocOk regs flight packs lsuP items renamed) (hnd : (flight.map (·.op.robId)).Nodup)
    (hlsu : lsuP = lsuD ++ lsuP') (hf : flight = pre ++ e :: post) (hw : e.isWaiting = true)
    (hl : isLsu e.op.toDecodeInfo = true) (hx : x ∈ post) (hxw : x.isWaiting = true)
    (hxl : isLsu x.op.toDecodeInfo = true) (hxD : x.op.robId ∈ lsuD.map (·.robId)) :
    e.op.robId ∈ lsuD.map (·.robId) := by
  have heq := h.lsu
  have hnodup : ((flight.filter fun e => e.isWaiting && isLsu e.op.toDecodeInfo).map
      (·.op.robId)).Nodup := hnd.sublist (List.filter_sublist.map _)
  rw [← heq, hlsu, List.map_append, List.append_assoc] at hnodup
  rw [hlsu, hf, List.map_append, List.append_assoc, List.filter_append, List.filter_cons,
    if_pos (Bool.and_eq_true_iff.mpr ⟨hw, hl⟩), List.map_append, List.map_cons] at heq
  obtain ⟨mid, hA, -⟩ | ⟨mid, -, hB⟩ := split_append heq
  · rw [hA]
    simp
  · exfalso
    refine (List.nodup_append.mp hnodup).2.2 x.op.robId hxD x.op.robId ?_ rfl
    rw [hB]
    exact List.mem_append_right _ (List.mem_cons_of_mem _
      (mem_map_filter.mpr ⟨x, hx, Bool.and_eq_true_iff.mpr ⟨hxw, hxl⟩, rfl⟩))

/-- The places after the units have run. -/
theorem LocOk.advance (h : LocOk regs flight packs lsuP items renamed)
    (hnd : (flight.map (·.op.robId)).Nodup) (hperm : packs.Perm (done.map Prod.fst ++ packs'))
    (hres : ∀ x ∈ done, UnitResult x.1 x.2)
    (hports : ∀ r, (r ∈ rs ∧ r.enable = true) ↔ ∃ p, (p, r) ∈ done)
    (hlsu : lsuP = (done.map Prod.fst).filter (isLsu ·.toDecodeInfo) ++ lsuP')
    (hsub : ∀ p ∈ lsuP', p ∈ packs') :
    LocOk regs (flight.map (Entry.advance rs)) packs' lsuP' items renamed := by
  have hex := h.executedOk hnd hperm hres hports
  -- the loads and stores that go on waiting
  have hlsuIds : lsuP'.map (·.robId) ++ ((items.filter (isLsu ·.toDecodeInfo)).map (·.robId) ++
      (renamed.filter (isLsu ·.toDecodeInfo)).map (·.robId)) =
      ((flight.map (Entry.advance rs)).filter fun e => e.isWaiting && isLsu e.op.toDecodeInfo).map
        (·.op.robId) := by
    rw [ExecutedOk.ids_advance (Q := fun e => e.isWaiting && isLsu e.op.toDecodeInfo) fun e => by
      rw [hex.isWaiting_advance, Entry.op_advance]
      cases e.isWaiting <;> cases isLsu e.op.toDecodeInfo <;>
        cases (done.map (·.1.robId)).contains e.op.robId <;> rfl]
    rw [← h.lsu, hlsu, List.map_append, List.append_assoc, List.filter_append,
      ExecutedOk.filter_done done, List.nil_append, hex.filter_others]
    · intro i hi
      simp only [List.mem_append, List.mem_map, List.mem_filter] at hi ⊢
      obtain ⟨p, hp, rfl⟩ | ⟨x, ⟨hx, -⟩, rfl⟩ | ⟨o, ⟨ho, -⟩, rfl⟩ := hi
      · exact .inl ⟨p, hsub p hp, rfl⟩
      · exact .inr (.inl ⟨x, hx, rfl⟩)
      · exact .inr (.inr ⟨o, ho, rfl⟩)
    · intro i hi
      simp only [List.mem_map, List.mem_filter] at hi
      obtain ⟨p, ⟨⟨x, hx, rfl⟩, -⟩, rfl⟩ := hi
      exact List.mem_map.mpr ⟨x, hx, rfl⟩
  refine ⟨hex.waiting_advance, ?_, ?_, ?_, hlsuIds, ?_⟩
  · intro p hp
    obtain ⟨pre, e, post, v1, v2, rfl, h1, h2, hp⟩ := h.pack p
      (hperm.mem_iff.mpr (List.mem_append_right _ hp))
    exact ⟨pre.map (Entry.advance rs), e.advance rs, post.map (Entry.advance rs), v1, v2, by simp,
      operand1_mono (ExecutedOk.value_mono rs pre) h1, operand2_mono (ExecutedOk.value_mono rs pre) h2,
      hp⟩
  · intro i hi
    obtain ⟨pre, e, post, rfl, hop, hok⟩ := h.item i hi
    exact ⟨pre.map (Entry.advance rs), e.advance rs, post.map (Entry.advance rs), by simp, hop,
      hok.mono (ExecutedOk.value_mono rs pre)⟩
  · intro o ho
    obtain ⟨e, he, hop⟩ := h.op o ho
    exact ⟨e.advance rs, List.mem_map.mpr ⟨e, he, rfl⟩, hop⟩
  · intro pre e post hf hw hl x hx hxl
    obtain ⟨pre, e, post, rfl, rfl, rfl, rfl⟩ := split_advance hf
    obtain ⟨x, hx', rfl⟩ := List.mem_map.mp hx
    rw [hex.isWaiting_advance, Bool.and_eq_true] at hw ⊢
    have hxw := h.lsuFirst pre e post rfl hw.1 hl x hx' hxl
    refine ⟨hxw, ?_⟩
    cases hD : (done.map (·.1.robId)).contains x.op.robId with
    | false => rfl
    | true =>
      -- its pack is one of the LSU's, so that of the older instruction is done, too
      exfalso
      obtain ⟨y, hy, hyid⟩ := List.mem_map.mp (List.contains_iff_mem.mp hD)
      obtain ⟨pre', e', post', v1, v2, hf', -, -, hpk, -⟩ := hex.entry hy
      obtain rfl : e' = x := hex.eq_of_robId (by rw [hf']; simp) (by simp [hx']) (by
        rw [← hyid, hpk, packOf_robId])
      have hyl : y.1 ∈ (done.map Prod.fst).filter (isLsu ·.toDecodeInfo) :=
        List.mem_filter.mpr ⟨List.mem_map.mpr ⟨y, hy, rfl⟩, by rw [hpk, packOf_info]; exact hxl⟩
      obtain ⟨p, hp, hpid⟩ := List.mem_map.mp (h.lsu_oldest hnd hlsu rfl hw.1 hl hx' hxw hxl
        (List.mem_map.mpr ⟨y.1, hyl, hyid⟩))
      obtain ⟨z, hz, rfl⟩ := List.mem_map.mp (List.mem_filter.mp hp).1
      have hin : (done.map (·.1.robId)).contains e.op.robId = true :=
        List.contains_iff_mem.mpr (List.mem_map.mpr ⟨z, hz, hpid⟩)
      rw [hin] at hw
      exact absurd hw.2 (by simp)

/-- The port to write-back, one cycle on. -/
theorem PortOk.advance {others : List Nat} {executeWb wbCommit : List ExecuteWbPack}
    (h : PortOk executeWb wbCommit flight) (hex : ExecutedOk regs flight done rs others) :
    PortOk rs executeWb (flight.map (Entry.advance rs)) where
  executed := by
    intro r
    rw [hex.ports]
    constructor
    · rintro ⟨p, hp⟩
      obtain ⟨pre, e, post, v1, v2, hf, -, -, hpk, hw⟩ := hex.entry hp
      refine ⟨e.advance rs, List.mem_map.mpr ⟨e, by simp [hf], rfl⟩, ?_⟩
      have hid : p.robId = e.op.robId := by
        rw [show p = packOf e.op v1 v2 from hpk, packOf_robId]
      obtain ⟨x, hx, hxid, hadv⟩ | ⟨hne, -⟩ := hex.advance_cases hw
      · rw [hadv, hex.result_unique hx hp (hxid.trans hid.symm)]
      · exact absurd hid (hne _ hp)
    · rintro ⟨x, hx, hs⟩
      obtain ⟨e, he, rfl⟩ := List.mem_map.mp hx
      -- only a waiting entry gets a result
      cases hst : e.status with
      | waiting =>
        obtain ⟨y, hy, -, hadv⟩ | ⟨-, hadv⟩ := hex.advance_cases hst
        · rw [hadv] at hs
          injection hs with hs
          exact ⟨y.1, hs ▸ hy⟩
        · rw [hadv] at hs
          cases hs
      | executed r' => simp [Entry.advance, hst] at hs
      | written r' => simp [Entry.advance, hst] at hs
      | finished r' => simp [Entry.advance, hst] at hs
  written := by
    intro r
    rw [h.executed]
    constructor
    · rintro ⟨e, he, hs⟩
      exact ⟨e.advance rs, List.mem_map.mpr ⟨e, he, rfl⟩, by simp [Entry.advance, hs]⟩
    · rintro ⟨x, hx, hs⟩
      obtain ⟨e, he, rfl⟩ := List.mem_map.mp hx
      refine ⟨e, he, ?_⟩
      cases hst : e.status with
      | waiting =>
        simp only [Entry.advance, hst] at hs
        cases hf : rs.find? fun r => r.enable && r.robId == e.op.robId <;> simp [hf] at hs
      | executed r' => simpa [Entry.advance, hst] using hs
      | written r' => simp [Entry.advance, hst] at hs
      | finished r' => simp [Entry.advance, hst] at hs

/-- The execute stage keeps what is sent: in a unit, or with a result. -/
theorem ExecutedOk.sent_iff {others : List Nat} (h : ExecutedOk regs flight done rs others)
    (hperm : packs.Perm (done.map Prod.fst ++ packs')) (e : Entry) :
    ((e.advance rs).isWaiting = false ∨ e.op.robId ∈ packs'.map (·.robId)) ↔
      (e.isWaiting = false ∨ e.op.robId ∈ packs.map (·.robId)) := by
  rw [h.isWaiting_advance, (hperm.map (·.robId)).mem_iff, List.map_append, List.map_map, List.mem_append]
  cases hw : e.isWaiting with
  | false => simp
  | true =>
    rw [Bool.true_and, Bool.not_eq_false', List.contains_iff_mem]
    simp [Function.comp_def]

/-- A result after the cycle was there before it, or its unit has put it out in this cycle. -/
theorem ExecutedOk.result_cases {others : List Nat} (hex : ExecutedOk regs flight done rs others)
    {e : Entry} {r : ExecuteWbPack} (he : e ∈ flight) (hr : (e.advance rs).result = some r) :
    e.result = some r ∨ ∃ y ∈ done, y.2 = r ∧ ∃ v1 v2, y.1 = packOf e.op v1 v2 := by
  cases hold : e.result with
  | some r' =>
    rw [Entry.result_advance hold] at hr
    exact .inl hr
  | none =>
    have hw : e.status = .waiting := Entry.isWaiting_iff.mp (by
      rw [Entry.isWaiting_eq_result, hold]; rfl)
    obtain ⟨y, hy, hid, hadv⟩ | ⟨-, hadv⟩ := hex.advance_cases hw
    · obtain rfl : y.2 = r := by simpa [Entry.result, hadv] using hr
      obtain ⟨pre', e', post', v1, v2, hf', -, -, hpk, -⟩ := hex.entry hy
      obtain rfl : e' = e := hex.eq_of_robId (by rw [hf']; simp) he (by
        rw [← hid, hpk, packOf_robId])
      exact .inr ⟨y, hy, rfl, v1, v2, hpk⟩
    · simp [Entry.result, hadv] at hr

/-- A serial instruction executes alone, so the CSR file that it read is the current one. -/
theorem SerialOk.advance {others : List Nat} {csr : Csrfile} {bus : Bus} {sb : StoreBuffer}
    {C : Nat → Nat} (h : SerialOk csr.value flight packs) (hfl : FlightOk C regs flight)
    (hex : ExecutedOk regs flight done rs others) (hperm : packs.Perm (done.map Prod.fst ++ packs'))
    (hdone : ∀ x ∈ done, DoneOk csr bus sb x.1 x.2) :
    SerialOk csr.value (flight.map (Entry.advance rs)) packs' where
  oldest := by
    intro pre e post hf hser hor
    obtain ⟨pre, e, post, rfl, rfl, rfl, rfl⟩ := split_advance hf
    rw [h.oldest pre e post rfl hser ((hex.sent_iff hperm e).mp hor)]
    rfl
  mret := by
    intro x hx hop r hr
    obtain ⟨e, he, rfl⟩ := List.mem_map.mp hx
    obtain hold | ⟨y, hy, rfl, v1, v2, hpk⟩ := hex.result_cases he hr
    · exact h.mret e he hop r hold
    · obtain ⟨pre, post, hf⟩ := List.append_of_mem he
      have hpack := (hfl pre e post hf).pack
      have hinfo : y.1.toDecodeInfo = e.op.toDecodeInfo := by rw [hpk, packOf_info]
      -- executed in this cycle, from the CSR file as it is
      obtain ⟨hbru, hsub⟩ := hpack.mret_iff.mp hop
      have hd := hdone y hy
      rw [DoneOk, show y.1.opUnit = .bru from (congrArg DecodeInfo.opUnit hinfo).trans hbru] at hd
      have hen : y.1.enable = true := (congrArg DecodeInfo.enable hinfo).trans hpack.enable
      have hva : y.1.valid = true := (congrArg DecodeInfo.valid hinfo).trans (hpack.mret_valid hop)
      have hso : Execute.bruOpOf y.1.subOp = .mret := by
        rw [show y.1.subOp = e.op.subOp from congrArg DecodeInfo.subOp hinfo]
        exact hsub
      simp only at hd
      rw [hd]
      simp [Execute.bru, hen, hva, hso, Execute.bruJump, Execute.bruTarget]
  csr := by
    intro x hx hop r hr
    obtain ⟨e, he, rfl⟩ := List.mem_map.mp hx
    obtain hold | ⟨y, hy, rfl, v1, v2, hpk⟩ := hex.result_cases he hr
    · exact h.csr e he hop r hold
    · have hd := hdone y hy
      have hsame := hd.unitResult.sameOp
      rw [DoneOk, show y.1.opUnit = .csr by rw [hpk, packOf_info]; exact hop] at hd
      refine ⟨csr, fun _ _ => rfl, ?_⟩
      rw [Entry.op_advance, hsame.src1, hsame.src2, hpk, packOf_src1, packOf_src2, ← hpk]
      exact hd

end Parts

end MyRiscvCore
