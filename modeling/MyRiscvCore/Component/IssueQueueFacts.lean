import MyRiscvCore.Component.Buffers
import MyRiscvCore.Component.FifoFacts

/-!
# MyRiscvCore — facts about the issue queue

`compress` removes the given items and keeps the others in order: `compress_spec`. The loop copies each
kept item to the first free slot; its invariant `CompressOk` says which part of the ring is already
packed and which is untouched.
-/

namespace MyRiscvCore

namespace IssueQueue

variable {α : Type}

theorem getItem_eq {q : Fifo α} (h : q.WF) {id : Nat} (hid : id ∈ q.ids) :
    getItem q id = .ok (q.buffer id) := by
  simp only [getItem, (Fifo.checkIdValid_iff h id).mpr hid]
  rfl

theorem setItem_eq {q : Fifo α} (h : q.WF) {id : Nat} (hid : id ∈ q.ids) (item : α) :
    setItem q id item = .ok (q.setItem id item) := by
  simp only [setItem, (Fifo.checkIdValid_iff h id).mpr hid]
  rfl

/-- Several `setItem` calls, each of which writes `g id` to the slot `id`. -/
theorem setItems_spec {q : Fifo α} (h : q.WF) (g : Nat → α) {l : List (Nat × α)}
    (hmem : ∀ r ∈ l, r.1 ∈ q.ids) (hval : ∀ r ∈ l, r.2 = g r.1) :
    ∃ buffer, l.foldlM (fun q r => setItem q r.1 r.2) q = .ok { q with buffer := buffer } ∧
      ∀ id, buffer id = if id ∈ l.map (·.1) then g id else q.buffer id := by
  induction l generalizing q with
  | nil => exact ⟨q.buffer, rfl, by simp⟩
  | cons r l ih =>
    obtain ⟨buffer, hfold, hbuf⟩ := ih (h.setItem r.1 r.2)
      (fun x hx => hmem x (List.mem_cons_of_mem _ hx))
      (fun x hx => hval x (List.mem_cons_of_mem _ hx))
    refine ⟨buffer, ?_, fun id => ?_⟩
    · rw [List.foldlM_cons, setItem_eq h (hmem r List.mem_cons_self)]
      exact hfold
    · rw [hbuf id, List.map_cons]
      by_cases hid : id = r.1
      · subst hid
        simp [Fifo.setItem, hval r List.mem_cons_self]
      · simp only [Fifo.setItem, Function.update_of_ne hid, List.mem_cons, hid, false_or]

/-- A selection in order is what a filter by membership gives. -/
theorem filter_contains_of_sublist {l ids : List Nat} (hsub : l.Sublist ids) (hnd : ids.Nodup) :
    ids.filter (l.contains ·) = l := by
  induction hsub with
  | slnil => rfl
  | cons x hsub ih =>
    rw [List.nodup_cons] at hnd
    rw [List.filter_cons_of_neg, ih hnd.2]
    simpa using fun hx => hnd.1 (hsub.subset hx)
  | @cons_cons l ids x hsub ih =>
    rw [List.nodup_cons] at hnd
    rw [List.filter_cons_of_pos (by simp)]
    congr 1
    refine Eq.trans (List.filter_congr fun y hy => ?_) (ih hnd.2)
    have hne : y ≠ x := by
      rintro rfl
      exact hnd.1 hy
    simp [hne]

/-- The stage bit of the slot at position `k`. -/
def stageAt (q : Fifo α) (k : Nat) : Bool :=
  if q.rptr + k < q.size then q.rstage else !q.rstage

/-- The stage bit of the next slot. -/
theorem nextStage_stageAt {q : Fifo α} (h : q.WF) {k : Nat} (hk : k < q.size) :
    nextStage q ((q.rptr + k) % q.size) (stageAt q k) = stageAt q (k + 1) := by
  have hr := h.rptr_lt
  unfold nextStage stageAt
  by_cases h1 : q.rptr + k < q.size
  · rw [Nat.mod_eq_of_lt h1, if_pos h1]
    by_cases h2 : q.rptr + (k + 1) < q.size
    · rw [if_pos h2, decide_eq_false (by omega)]
      simp
    · rw [if_neg h2, decide_eq_true (by omega)]
      simp
  · have hmod : (q.rptr + k) % q.size = q.rptr + k - q.size := by
      rw [Nat.mod_eq_sub_mod (by omega), Nat.mod_eq_of_lt (by omega)]
    rw [hmod, if_neg h1, if_neg (by omega), decide_eq_false (by omega)]
    simp

/-- Moving the write pointer back keeps the first items. -/
theorem truncate_spec {q : Fifo α} (h : q.WF) {m : Nat} (hm : m < q.count) (buffer : Nat → α) :
    ({ q with buffer := buffer, wptr := (q.rptr + m) % q.size, wstage := stageAt q m } : Fifo α).WF ∧
    ({ q with buffer := buffer, wptr := (q.rptr + m) % q.size, wstage := stageAt q m } : Fifo α).ids =
      q.ids.take m := by
  have hsize := h.count_le
  have hrptr := h.rptr_lt
  obtain ⟨q', hq'⟩ : ∃ q' : Fifo α, q' = { q with
    buffer := buffer, wptr := (q.rptr + m) % q.size, wstage := stageAt q m } := ⟨_, rfl⟩
  -- the new write pointer is `m` slots behind the read pointer
  have hcount : q'.count = m ∧ q'.WF := by
    rw [hq']
    unfold Fifo.count stageAt
    by_cases hwrap : q.rptr + m < q.size
    · refine ⟨?_, hrptr, Nat.mod_lt _ h.size_pos, ?_⟩ <;>
        simp only [if_pos hwrap, Nat.mod_eq_of_lt hwrap, if_true] <;> omega
    · have hmod : (q.rptr + m) % q.size = q.rptr + m - q.size := by
        rw [Nat.mod_eq_sub_mod (by omega), Nat.mod_eq_of_lt (by omega)]
      refine ⟨?_, hrptr, Nat.mod_lt _ h.size_pos, ?_⟩ <;>
        simp only [if_neg hwrap, hmod, Bool.not_eq_eq_eq_not, Bool.eq_not_self, if_false] <;> omega
  rw [← hq']
  refine ⟨hcount.2, ?_⟩
  rw [Fifo.ids, hcount.1, Fifo.ids, Ring.take_ids (by omega), hq']

/-- The loop of `compress` after the ids `seen`; `R` marks the items to remove. -/
structure CompressOk (q : Fifo α) (R : Nat → Bool) (seen : List Nat) (s : CompressState α) :
    Prop where
  same : s.q = { q with buffer := s.q.buffer }
  stage : s.curStage = stageAt q seen.length
  rest : s.rest = (q.ids.drop seen.length).filter R
  packed : (q.ids.take (seen.filter (!R ·)).length).map s.q.buffer =
    (seen.filter (!R ·)).map q.buffer
  untouched : ∀ j, seen.length ≤ j → ∀ id, q.ids[j]? = some id → s.q.buffer id = q.buffer id
  before : s.invalidItemFound = false → seen.filter (!R ·) = seen
  gap : s.invalidItemFound = true → (seen.filter (!R ·)).length < seen.length ∧
    s.nextId = (q.rptr + (seen.filter (!R ·)).length) % q.size ∧ s.newWptr = s.nextId ∧
    s.newWstage = stageAt q (seen.filter (!R ·)).length

section Step

variable {s : CompressState α} {id : Nat}

/-- The first removed item. -/
theorem compressStep_open (hf : s.invalidItemFound = false) (hh : s.rest.head? = some id) :
    compressStep id s = .ok ({ s with
      invalidItemFound := true, rest := s.rest.tail, nextId := id, newWptr := id
      newWstage := s.curStage, curStage := nextStage s.q id s.curStage }, false) := by
  obtain ⟨q, curStage, newWptr, newWstage, nextId, found, rest⟩ := s
  obtain rfl : found = _ := hf
  simp only [compressStep, hh]
  rfl

/-- A later removed item. -/
theorem compressStep_drop (hf : s.invalidItemFound = true) (hh : s.rest.head? = some id) :
    compressStep id s = .ok ({ s with
      rest := s.rest.tail, curStage := nextStage s.q id s.curStage }, false) := by
  obtain ⟨q, curStage, newWptr, newWstage, nextId, found, rest⟩ := s
  obtain rfl : found = _ := hf
  simp only [compressStep, hh]
  rfl

/-- A kept item before the gap. -/
theorem compressStep_keep (hf : s.invalidItemFound = false) (hh : s.rest.head? ≠ some id) :
    compressStep id s = .ok ({ s with curStage := nextStage s.q id s.curStage }, false) := by
  obtain ⟨q, curStage, newWptr, newWstage, nextId, found, rest⟩ := s
  obtain rfl : found = _ := hf
  simp only [compressStep, hh]
  rfl

/-- A kept item behind the gap. -/
theorem compressStep_move (hf : s.invalidItemFound = true) (hh : s.rest.head? ≠ some id) {item : α}
    {q' : Fifo α} {next : Nat × Bool} (hget : getItem s.q id = .ok item)
    (hset : setItem s.q s.nextId item = .ok q')
    (hnext : q'.getNextId .issueQueue s.nextId = .ok next) :
    compressStep id s = .ok ({ s with
      q := q', newWptr := next.1, newWstage := nextStage q' s.nextId s.newWstage, nextId := next.1
      curStage := nextStage q' id s.curStage }, false) := by
  obtain ⟨q, curStage, newWptr, newWstage, nextId, found, rest⟩ := s
  obtain rfl : found = _ := hf
  simp only [compressStep, hh, hget, hset, hnext, bind, Except.bind]
  rfl

end Step

/-- One round of the loop: the first removed item opens a gap, and later kept items move down into it. -/
theorem compressStep_spec {q : Fifo α} (h : q.WF) {R : Nat → Bool} {seen rest : List Nat} {id : Nat}
    {s : CompressState α} (hids : q.ids = seen ++ id :: rest) (hs : CompressOk q R seen s) :
    ∃ s', compressStep id s = .ok (s', false) ∧ CompressOk q R (seen ++ [id]) s' := by
  have hcount : seen.length < q.count := by
    rw [← Fifo.length_ids, hids]
    simp
  have hsize : seen.length < q.size := Nat.lt_of_lt_of_le hcount h.count_le
  have hget : q.ids[seen.length]? = some id := by rw [hids]; simp
  have hid : id = (q.rptr + seen.length) % q.size := by
    have := Ring.getElem?_ids q.size q.rptr hcount
    exact Option.some.inj (hget.symm.trans this)
  have hdrop : q.ids.drop seen.length = id :: rest := by rw [hids]; simp
  have hdrop' : q.ids.drop (seen ++ [id]).length = rest := by
    rw [hids, show seen ++ id :: rest = (seen ++ [id]) ++ rest by simp, List.drop_left]
  have hlen : (seen ++ [id]).length = seen.length + 1 := by simp
  have hqsize : s.q.size = q.size := by rw [hs.same]
  have hnext : nextStage s.q id s.curStage = stageAt q (seen ++ [id]).length := by
    rw [hlen, ← nextStage_stageAt h hsize, ← hid, hs.stage]
    simp [nextStage, hqsize]
  have huntouched : ∀ j, (seen ++ [id]).length ≤ j → ∀ i, q.ids[j]? = some i →
      s.q.buffer i = q.buffer i := fun j hj => hs.untouched j (by rw [hlen] at hj; omega)
  have hbuf : s.q.buffer id = q.buffer id := hs.untouched _ (Nat.le_refl _) _ hget
  have hrest := hs.rest
  rw [hdrop] at hrest
  -- removed or kept, before or behind the gap
  cases hR : R id with
  | true =>
    have hkeep : (seen ++ [id]).filter (!R ·) = seen.filter (!R ·) := by
      simp [List.filter_append, hR]
    rw [List.filter_cons, if_pos hR] at hrest
    have hhead : s.rest.head? = some id := by rw [hrest]; rfl
    have htail : s.rest.tail = (q.ids.drop (seen ++ [id]).length).filter R := by
      rw [hrest, hdrop']
      rfl
    cases hfound : s.invalidItemFound with
    | false =>
      refine ⟨_, compressStep_open hfound hhead, hs.same, hnext, htail, ?_, huntouched, by simp,
        fun _ => ?_⟩
      · rw [hkeep]
        exact hs.packed
      · have hall := hs.before hfound
        rw [hkeep, hall]
        exact ⟨by simp, hid, rfl, hs.stage⟩
    | true =>
      refine ⟨_, compressStep_drop hfound hhead, hs.same, hnext, htail, ?_, huntouched,
        by simp [hfound], fun _ => ?_⟩
      · rw [hkeep]
        exact hs.packed
      · have hgap := hs.gap hfound
        rw [hkeep]
        exact ⟨by rw [hlen]; omega, hgap.2⟩
  | false =>
    have hkeep : (seen ++ [id]).filter (!R ·) = seen.filter (!R ·) ++ [id] := by
      simp [List.filter_append, hR]
    rw [List.filter_cons, if_neg (by simp [hR])] at hrest
    have hhead : s.rest.head? ≠ some id := by
      rw [hrest]
      intro hh
      have := List.mem_filter.mp (List.mem_of_mem_head? (Option.mem_def.mpr hh))
      rw [hR] at this
      exact absurd this.2 (by simp)
    have hrest' : s.rest = (q.ids.drop (seen ++ [id]).length).filter R := by rw [hrest, hdrop']
    cases hfound : s.invalidItemFound with
    | false =>
      have hall := hs.before hfound
      refine ⟨_, compressStep_keep hfound hhead, hs.same, hnext, hrest', ?_, huntouched,
        fun _ => by rw [hkeep, hall], by simp [hfound]⟩
      -- before the gap every item is in its place already
      have htake : ∀ l : List Nat, q.ids = l ++ (q.ids.drop l.length) → q.ids.take l.length = l := by
        intro l hl
        rw [hl, List.take_left]
      have hpacked := hs.packed
      rw [hall, htake seen (by rw [hdrop]; exact hids)] at hpacked
      rw [hkeep, hall, htake (seen ++ [id]) (by rw [hdrop', hids]; simp), List.map_append, hpacked,
        List.map_append]
      simp [hbuf]
    | true =>
      obtain ⟨hlt, hnid, hwp, hws⟩ := hs.gap hfound
      obtain ⟨m, hm⟩ : ∃ m, m = (seen.filter (!R ·)).length := ⟨_, rfl⟩
      rw [← hm] at hlt hnid hws
      have hmcount : m < q.count := by omega
      have hmget : q.ids[m]? = some s.nextId := by
        rw [hnid]
        exact Ring.getElem?_ids q.size q.rptr hmcount
      have hmem : s.nextId ∈ q.ids := List.mem_of_getElem? hmget
      have hwf : s.q.WF := by
        rw [hs.same]
        exact ⟨h.rptr_lt, h.wptr_lt, h.stage⟩
      have hsids : s.q.ids = q.ids := by
        rw [hs.same]
        rfl
      -- the item goes to the slot `m` behind the front
      have hget1 : getItem s.q id = .ok (q.buffer id) := by
        rw [getItem_eq hwf (by rw [hsids, hids]; simp), hbuf]
      have hset := setItem_eq hwf (show s.nextId ∈ s.q.ids by rw [hsids]; exact hmem) (q.buffer id)
      have hwf' := hwf.setItem s.nextId (q.buffer id)
      have hnx : (s.q.setItem s.nextId (q.buffer id)).getNextId .issueQueue s.nextId =
          .ok ((q.rptr + (m + 1)) % q.size,
            (s.q.setItem s.nextId (q.buffer id)).checkIdValid ((q.rptr + (m + 1)) % q.size)) := by
        have hmod : (s.nextId + 1) % q.size = (q.rptr + (m + 1)) % q.size := by
          rw [hnid, Nat.mod_add_mod]
          congr 1
        simp only [Fifo.getNextId, (Fifo.checkIdValid_iff hwf' _).mpr (show s.nextId ∈ _ by
          rw [Fifo.ids_setItem, hsids]; exact hmem), assert_true]
        rw [show (s.q.setItem s.nextId (q.buffer id)).size = q.size from hqsize, hmod]
        rfl
      -- the slots of the packed part and those still to be seen are not the one written
      have hne : ∀ j, j ≠ m → ∀ i, q.ids[j]? = some i → i ≠ s.nextId := by
        rintro j hj i hji rfl
        have hjl : j < q.ids.length := (List.getElem?_eq_some_iff.mp hji).1
        exact hj ((List.getElem?_inj hjl h.nodup_ids).mp (hji.trans hmget.symm))
      refine ⟨_, compressStep_move hfound hhead hget1 hset hnx, ?_, ?_, hrest', ?_, ?_,
        by simp [hfound], fun _ => ?_⟩
      · simp only [Fifo.setItem]
        rw [hs.same]
      · rw [← hnext]
        rfl
      · rw [hkeep, List.length_append, ← hm, List.length_singleton, List.map_append, ← hs.packed, ← hm,
          List.take_add_one, hmget, Option.toList_some, List.map_append]
        congr 1
        · refine List.map_congr_left fun i hi => Function.update_of_ne ?_ _ _
          obtain ⟨j, hj⟩ := List.mem_iff_getElem?.mp hi
          rw [List.getElem?_take] at hj
          split at hj
          · exact hne j (by omega) i hj
          · cases hj
        · simp [Fifo.setItem]
      · intro j hj i hji
        refine (Function.update_of_ne (hne j ?_ i hji) _ _).trans (huntouched j hj i hji)
        rw [hlen] at hj
        omega
      · rw [hkeep, List.length_append, List.length_singleton, ← hm, hlen]
        refine ⟨by omega, rfl, rfl, ?_⟩
        have := nextStage_stageAt h (k := m) (by omega)
        rw [← this, ← hnid, ← hws]
        simp [nextStage, Fifo.setItem, hqsize]

/-- The write pointer, with its stage, once the items of `R` are removed. -/
def compressed (q : Fifo α) (R : Nat → Bool) : Nat × Bool :=
  if q.ids.filter R = [] then (q.wptr, q.wstage)
  else ((q.rptr + (q.ids.filter (!R ·)).length) % q.size, stageAt q (q.ids.filter (!R ·)).length)

/-- `compress` removes the items that `R` marks and keeps the others in order. -/
theorem compress_spec {q : Fifo α} (h : q.WF) (R : Nat → Bool) :
    ∃ q', compress q (q.ids.filter R) = .ok q' ∧ q'.WF ∧
      q' = { q with buffer := q'.buffer, wptr := (compressed q R).1, wstage := (compressed q R).2 } ∧
      q'.toList = (q.ids.filter (!R ·)).map q.buffer := by
  unfold compress
  rw [h.getFrontId_eq]
  by_cases hc : 0 < q.count
  · have hhead : q.ids.head? = some q.rptr := by rw [h.ids_popped hc]; rfl
    simp only [hhead]
    by_cases hnone : q.ids.filter R = []
    · -- nothing to remove
      refine ⟨q, by simp [hnone], h, by rw [compressed, if_pos hnone], ?_⟩
      rw [List.filter_eq_self.mpr]
      · rfl
      · intro id hid
        have := List.filter_eq_nil_iff.mp hnone id hid
        simpa using this
    · rw [if_neg (by simpa using hnone), h.doWhileNext_eq_walk .issueQueue _ _ _ hc]
      obtain ⟨s, hwalk, hok⟩ := Fifo.walk_all_rule (CompressOk q R)
        (fun seen id rest s hids hs => compressStep_spec h hids hs) (List.nil_append _).symm
        (s := { q := q, curStage := q.rstage, newWptr := q.rptr, newWstage := q.rstage
                nextId := q.rptr, invalidItemFound := false, rest := q.ids.filter R })
        ⟨rfl, by simp [stageAt, h.rptr_lt], rfl, rfl, fun _ _ _ _ => rfl, by simp, by simp⟩
      have hfound : s.invalidItemFound = true := by
        cases hf : s.invalidItemFound with
        | true => rfl
        | false =>
          refine absurd (List.filter_eq_nil_iff.mpr fun id hid => ?_) hnone
          have := List.filter_eq_self.mp (hok.before hf) id hid
          simpa using this
      obtain ⟨hlt, hnid, hwp, hws⟩ := hok.gap hfound
      rw [Fifo.length_ids] at hlt
      obtain ⟨m, hm⟩ : ∃ m, m = (q.ids.filter (!R ·)).length := ⟨_, rfl⟩
      rw [← hm] at hlt hnid hws
      obtain ⟨q', hq'⟩ : ∃ q' : Fifo α, q' = { q with
          buffer := s.q.buffer, wptr := (q.rptr + m) % q.size, wstage := stageAt q m } := ⟨_, rfl⟩
      have hcut := truncate_spec h hlt s.q.buffer
      rw [← hq'] at hcut
      refine ⟨q', ?_, hcut.1, by rw [compressed, if_neg hnone, ← hm, hq'], ?_⟩
      · rw [hwalk]
        simp only [bind, Except.bind, hwp, hnid, hws, hq']
        rw [hok.same]
        rfl
      · rw [Fifo.toList, hcut.2, hm, hq']
        exact hok.packed
  · have hz : q.count = 0 := by omega
    have hids := Fifo.ids_eq_nil hz
    refine ⟨q, by simp [hids], h, ?_, by simp [hids, Fifo.toList_eq_nil hz]⟩
    rw [compressed, if_pos (by rw [hids]; rfl)]

end IssueQueue

end MyRiscvCore
