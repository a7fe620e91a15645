import MyRiscvCore.Spec.Window

/-!
# MyRiscvCore — how the window moves

Lemmas about the lists of instructions in flight: how maps extend at the young end (`mapAt_snoc`), how maps and
values shift when the oldest instruction retires (`mapAt_cons`, `valueAt_cons`), and that arriving results only add
values (`valueAt_advance`). `youngest_cases` ties the physical register of a source to the instruction that writes it.
-/

namespace MyRiscvCore

open Renaming (mapAfter)

/-! ## Arriving results

A result only turns a waiting entry into a finished one: operation, destination and mapping stay. -/

namespace Entry

variable {e : Entry} {rs : List ExecuteWbPack} {r : ExecuteWbPack}

@[simp] theorem op_advance : (e.advance rs).op = e.op := rfl
@[simp] theorem writes_advance : (e.advance rs).writes = e.writes := rfl
@[simp] theorem mapping_advance : (e.advance rs).mapping = e.mapping := rfl

/-- A result that has arrived is not replaced. -/
theorem result_advance (h : e.result = some r) : (e.advance rs).result = some r := by
  unfold result advance at *
  cases hs : e.status <;> simp_all

/-- Nor is the value that it gives. -/
theorem value_advance {v : Word} (h : e.value? = some v) : (e.advance rs).value? = some v := by
  unfold value? at *
  cases hr : e.result with
  | none => simp [hr] at h
  | some r => rwa [result_advance hr, ← hr]

theorem isWaiting_iff : e.isWaiting = true ↔ e.status = .waiting := by
  unfold isWaiting
  cases e.status <;> simp

/-- A waiting entry is one without result. -/
theorem isWaiting_eq_result : e.isWaiting = e.result.isNone := by
  unfold isWaiting result
  cases e.status <;> rfl

/-- A writer redirects its destination. -/
theorem mapping_of_writes (h : e.writes = true) : e.mapping = [(e.op.rd, e.op.rdPhy)] := by
  simp [mapping, h]

/-- The others redirect nothing. -/
theorem mapping_of_not_writes (h : e.writes = false) : e.mapping = [] := by
  simp [mapping, h]

end Entry

/-- A place in an append is in one of the parts. -/
theorem split_append {α : Type} {as bs pre post : List α} {x : α} (h : as ++ bs = pre ++ x :: post) :
    (∃ post', as = pre ++ x :: post' ∧ post = post' ++ bs) ∨
      ∃ pre', pre = as ++ pre' ∧ bs = pre' ++ x :: post := by
  obtain ⟨pre', rfl, hb⟩ | ⟨mid, rfl, hmid⟩ := List.append_eq_append_iff.mp h
  · exact .inr ⟨pre', rfl, hb⟩
  · cases mid with
    | nil => exact .inr ⟨[], by simp, hmid.symm⟩
    | cons y mid =>
      obtain ⟨rfl, rfl⟩ := List.cons_eq_cons.mp hmid
      exact .inl ⟨mid, rfl, rfl⟩

/-- A place in a list with one more element: in the list, or that element. -/
theorem split_snoc {α : Type} {as pre post : List α} {a x : α} (h : as ++ [a] = pre ++ x :: post) :
    (∃ post', as = pre ++ x :: post') ∨ (pre = as ∧ x = a) := by
  obtain ⟨post', hold, -⟩ | ⟨pre', rfl, hnew⟩ := split_append h
  · exact .inl ⟨post', hold⟩
  · obtain ⟨rfl, hx⟩ | ⟨-, hx⟩ := List.singleton_eq_append_iff.mp hnew
    · cases hx
      exact .inr ⟨List.append_nil _, rfl⟩
    · cases hx

/-- In a list without repetitions a place is determined by its element. -/
theorem split_unique {α : Type} {pre pre' post post' : List α} {x : α}
    (h : pre ++ x :: post = pre' ++ x :: post') (hnd : (pre ++ x :: post).Nodup) :
    pre = pre' ∧ post = post' := by
  have hpre : x ∉ pre := fun hx =>
    -- the element cannot be in its own past
    (List.nodup_append.mp hnd).2.2 x hx x List.mem_cons_self rfl
  have hpost : x ∉ post := (List.nodup_cons.mp (List.nodup_append.mp hnd).2.1).1
  obtain ⟨h1, -, h2⟩ := (List.append_cons_inj_of_notMem hpre hpost).mp h
  exact ⟨h1, h2⟩

/-- A place among the advanced entries is one among the old ones. -/
theorem split_advance {rs : List ExecuteWbPack} {es pre post : List Entry} {e : Entry}
    (h : es.map (Entry.advance rs) = pre ++ e :: post) :
    ∃ pre' e' post', es = pre' ++ e' :: post' ∧ pre = pre'.map (Entry.advance rs) ∧
      e = e'.advance rs ∧ post = post'.map (Entry.advance rs) := by
  obtain ⟨pre', rest, rfl, rfl, hrest⟩ := List.map_eq_append_iff.mp h
  obtain ⟨e', post', rfl, rfl, rfl⟩ := List.map_eq_cons_iff.mp hrest
  exact ⟨pre', e', post', rfl, rfl, rfl, rfl⟩

/-! ## Maps

The map at an instruction is the committed map with the mappings of the older instructions laid over it. -/

section Maps

variable {C : Nat → Nat} {e : Entry} {es fs : List Entry} {a : Nat}

@[simp] theorem renamings_nil : renamings [] = [] := rfl

@[simp] theorem renamings_cons : renamings (e :: es) = e.mapping ++ renamings es := rfl

@[simp] theorem renamings_append : renamings (es ++ fs) = renamings es ++ renamings fs := by
  simp [renamings]

/-- Results do not change a mapping. -/
@[simp] theorem renamings_advance (rs : List ExecuteWbPack) :
    renamings (es.map (Entry.advance rs)) = renamings es := by
  induction es with
  | nil => rfl
  | cons e es ih => simp [ih]

/-- The mappings are those of the writers. -/
theorem mem_renamings {x : Nat × Nat} :
    x ∈ renamings es ↔ ∃ e ∈ es, e.writes = true ∧ x = (e.op.rd, e.op.rdPhy) := by
  simp only [renamings, List.mem_flatMap]
  constructor
  · rintro ⟨e, he, hx⟩
    cases hw : e.writes with
    | true => exact ⟨e, he, hw, by simpa [Entry.mapping, hw] using hx⟩
    | false => simp [Entry.mapping, hw] at hx
  · rintro ⟨e, he, hw, rfl⟩
    exact ⟨e, he, by simp [Entry.mapping, hw]⟩

@[simp] theorem mapAt_nil : mapAt C [] = C := rfl

theorem mapAt_cons : mapAt C (e :: es) = mapAt (mapAfter C e.mapping) es := by
  simp [mapAt, Renaming.mapAfter_append]

/-- The map after two groups, one after the other. -/
theorem mapAt_append : mapAt C (es ++ fs) = mapAt (mapAt C es) fs := by
  simp [mapAt, Renaming.mapAfter_append]

/-- The youngest writer has the last word. -/
theorem mapAt_snoc : mapAt C (es ++ [e]) =
    if e.writes then Function.update (mapAt C es) e.op.rd e.op.rdPhy else mapAt C es := by
  cases hw : e.writes <;> simp [mapAt, Entry.mapping, hw, mapAfter]

@[simp] theorem mapAt_advance (rs : List ExecuteWbPack) :
    mapAt C (es.map (Entry.advance rs)) = mapAt C es := by
  simp [mapAt]

end Maps

/-! ## Values

A source is the result of its youngest older writer, and the committed value if there is none. -/

section Values

variable {regs : Nat → Word} {C : Nat → Nat} {e : Entry} {es : List Entry} {a : Nat}

@[simp] theorem youngestWriter_nil : youngestWriter [] a = none := rfl

/-- Seen from the young end: the last entry, if it writes `a`. -/
theorem youngestWriter_snoc : youngestWriter (es ++ [e]) a =
    if e.writes && e.op.rd == a then some e else youngestWriter es a := by
  unfold youngestWriter
  rw [List.reverse_append, List.reverse_singleton, List.singleton_append, List.find?_cons]
  cases e.writes && e.op.rd == a <;> rfl

/-- Seen from the old end: the first entry only if no younger one writes `a`. -/
theorem youngestWriter_cons : youngestWriter (e :: es) a =
    (youngestWriter es a).or (if e.writes && e.op.rd == a then some e else none) := by
  unfold youngestWriter
  rw [List.reverse_cons, List.find?_append, List.find?_singleton]

/-- The youngest writer is one of the entries and writes `a`. -/
theorem mem_of_youngestWriter {x : Entry} (h : youngestWriter es a = some x) :
    x ∈ es ∧ x.writes = true ∧ x.op.rd = a := by
  unfold youngestWriter at h
  have hmem := List.mem_of_find?_eq_some h
  have hp := List.find?_some h
  simp only [Bool.and_eq_true, beq_iff_eq] at hp
  exact ⟨by simpa using hmem, hp.1, hp.2⟩

@[simp] theorem valueAt_nil : valueAt regs [] a = some (regs a) := rfl

/-- The oldest instruction retires: its result becomes the committed value. -/
theorem valueAt_cons (h : e.writes = true → e.value?.isSome) : valueAt regs (e :: es) a =
    valueAt (if e.writes then Function.update regs e.op.rd (e.value?.getD 0) else regs) es a := by
  unfold valueAt
  rw [youngestWriter_cons]
  cases hy : youngestWriter es a with
  | some x => rfl
  | none =>
    cases hw : e.writes with
    | false => rfl
    | true =>
      obtain ⟨v, hv⟩ := Option.isSome_iff_exists.mp (h hw)
      by_cases ha : e.op.rd = a
      · simp [ha, hv]
      · have ha' : a ≠ e.op.rd := fun h => ha h.symm
        simp [ha, ha']

/-- The committed values after these instructions have retired. -/
def regsAfter (regs : Nat → Word) (es : List Entry) : Nat → Word :=
  es.foldl (fun regs e => if e.writes then Function.update regs e.op.rd (e.value?.getD 0) else regs)
    regs

/-- Retiring a whole group leaves the values that its successors see as they are. -/
theorem valueAt_append {fs : List Entry} (h : ∀ e ∈ es, e.writes = true → e.value?.isSome) :
    valueAt regs (es ++ fs) a = valueAt (regsAfter regs es) fs a := by
  induction es generalizing regs with
  | nil => rfl
  | cons e es ih =>
    rw [List.cons_append, valueAt_cons (h e List.mem_cons_self)]
    exact ih fun x hx => h x (List.mem_cons_of_mem _ hx)

/-- Results do not change who writes a register. -/
theorem youngestWriter_advance (rs : List ExecuteWbPack) :
    youngestWriter (es.map (Entry.advance rs)) a = (youngestWriter es a).map (Entry.advance rs) := by
  unfold youngestWriter
  rw [← List.map_reverse, List.find?_map]
  rfl

/-- Arriving results only add values. -/
theorem valueAt_advance {v : Word} (rs : List ExecuteWbPack) (h : valueAt regs es a = some v) :
    valueAt regs (es.map (Entry.advance rs)) a = some v := by
  unfold valueAt at *
  rw [youngestWriter_advance]
  cases hy : youngestWriter es a with
  | none => simpa [hy] using h
  | some x =>
    simp only [hy] at h
    simpa using Entry.value_advance h

/-- The physical register of `a` is that of its youngest writer, or the committed one. -/
theorem youngest_cases (C : Nat → Nat) (es : List Entry) (a : Nat) :
    (youngestWriter es a = none ∧ mapAt C es a = C a) ∨
      ∃ x, youngestWriter es a = some x ∧ mapAt C es a = x.op.rdPhy := by
  induction es using List.reverseRecOn with
  | nil => exact .inl ⟨rfl, rfl⟩
  | append_singleton es e ih =>
    -- map and youngest writer change together, at the young end
    rw [youngestWriter_snoc, mapAt_snoc]
    cases hw : e.writes with
    | false => simpa using ih
    | true =>
      by_cases ha : e.op.rd = a
      · refine .inr ⟨e, by simp [ha], by simp [ha]⟩
      · have ha' : a ≠ e.op.rd := fun h => ha h.symm
        simpa [ha, ha'] using ih

/-- In-flight writers have distinct physical registers. -/
theorem eq_of_rdPhy_eq {S : Set Nat} (h : Renaming.Ok S C (renamings es)) {x y : Entry}
    (hx : x ∈ es) (hy : y ∈ es) (hxw : x.writes = true) (hyw : y.writes = true)
    (he : x.op.rdPhy = y.op.rdPhy) : x = y := by
  obtain ⟨pre, post, rfl⟩ := List.append_of_mem hx
  have hnd := h.nodup
  simp only [renamings_append, renamings_cons, Entry.mapping_of_writes hxw, List.map_append,
    List.map_cons, List.singleton_append] at hnd
  rw [List.nodup_append, List.nodup_cons] at hnd
  have hmem : ∀ {l : List Entry}, y ∈ l → x.op.rdPhy ∈ (renamings l).map Prod.snd := by
    intro l hl
    rw [he]
    exact List.mem_map.mpr ⟨_, mem_renamings.mpr ⟨y, hl, hyw, rfl⟩, rfl⟩
  rw [List.mem_append, List.mem_cons] at hy
  obtain hy | rfl | hy := hy
  -- an older or younger `y` would put the register into the list twice
  · exact absurd rfl (hnd.2.2 _ (hmem hy) _ List.mem_cons_self)
  · rfl
  · exact absurd (hmem hy) hnd.2.1.1

/-- A source whose physical register is that of an in-flight writer has this writer's value. -/
theorem valueAt_of_rdPhy {S : Set Nat} {fs : List Entry}
    (h : Renaming.Ok S C (renamings (es ++ fs))) {x : Entry} (ha : a ∈ S) (hx : x ∈ es ++ fs)
    (hxw : x.writes = true) (hp : mapAt C es a = x.op.rdPhy) :
    valueAt regs es a = x.value? := by
  obtain ⟨-, hC⟩ | ⟨y, hy, hyp⟩ := youngest_cases C es a
  · exfalso
    -- without a writer in flight the register is a committed one, which no entry has got
    refine h.fresh (x.op.rd, x.op.rdPhy) (mem_renamings.mpr ⟨x, hx, hxw, rfl⟩) a ha ?_
    rw [← hC, hp]
  · obtain ⟨hymem, hyw, -⟩ := mem_of_youngestWriter hy
    have : y = x := eq_of_rdPhy_eq h (List.mem_append_left _ hymem) hx hyw hxw (by rw [← hyp, hp])
    unfold valueAt
    rw [hy, this]

end Values

/-! ## Retiring

Retiring a group entry by entry, one component of the window at a time. -/

section Retiring

variable {mepc : Word} {w : Window} {e : Entry} {es fs : List Entry}

theorem Window.retireAll_cons : w.retireAll mepc (e :: es) = (w.retire mepc e).retireAll mepc es := rfl

/-- The registers take the results of the group. -/
theorem Window.regs_retireAll : (w.retireAll mepc es).arch.regs = regsAfter w.arch.regs es := by
  induction es generalizing w with
  | nil => rfl
  | cons e es ih => exact ih

/-- The committed map takes its mappings. -/
theorem Window.cmap_retireAll : (w.retireAll mepc es).cmap = mapAt w.cmap es := by
  induction es generalizing w with
  | nil => rfl
  | cons e es ih =>
    rw [Window.retireAll_cons, ih, mapAt_cons]
    rfl

/-- Memory is written later, by the store buffer. -/
theorem Window.writes_retireAll : (w.retireAll mepc es).writes = w.writes := by
  induction es generalizing w with
  | nil => rfl
  | cons e es ih => exact ih

/-- The events of instructions that retire one after the other, from state `b` on. -/
def retireEvents (mepc : Word) : Arch → List Entry → List Event
  | _, [] => []
  | b, e :: es => .retire b mepc e :: retireEvents mepc (b.retire mepc e) es

/-- Every retired entry is one event. -/
theorem length_retireEvents (mepc : Word) (b : Arch) (es : List Entry) :
    (retireEvents mepc b es).length = es.length := by
  induction es generalizing b with
  | nil => rfl
  | cons e es ih => rw [retireEvents, List.length_cons, ih, List.length_cons]

/-- An instruction among those that retire. -/
theorem retireEvents_split {mepc : Word} {b : Arch} {es : List Entry} {evs evs' : List Event} {b' : Arch}
    {mepc' : Word} {e : Entry} (h : retireEvents mepc b es = evs ++ .retire b' mepc' e :: evs') :
    ∃ pre post, es = pre ++ e :: post ∧ evs.length = pre.length := by
  induction es generalizing b evs with
  | nil => exact absurd h (by simp [retireEvents])
  | cons x es ih =>
    cases evs with
    | nil =>
      obtain ⟨hx, -⟩ := List.cons_eq_cons.mp h
      cases hx
      exact ⟨[], es, rfl, rfl⟩
    | cons ev evs =>
      obtain ⟨-, h⟩ := List.cons_eq_cons.mp h
      obtain ⟨pre, post, rfl, hlen⟩ := ih h
      exact ⟨x :: pre, post, rfl, by simp [hlen]⟩

/-- And every event of a group is that of an entry. -/
theorem exists_of_mem_retireEvents {mepc : Word} {b : Arch} {es : List Entry} {ev : Event}
    (h : ev ∈ retireEvents mepc b es) : ∃ b' e, ev = .retire b' mepc e ∧ e ∈ es := by
  induction es generalizing b with
  | nil => exact absurd h List.not_mem_nil
  | cons x es ih =>
    obtain rfl | h := List.mem_cons.mp h
    · exact ⟨b, x, rfl, List.mem_cons_self⟩
    · obtain ⟨b', e, rfl, he⟩ := ih h
      exact ⟨b', e, rfl, List.mem_cons_of_mem x he⟩

/-- The events of the group follow those seen before. -/
theorem Window.events_retireAll : (w.retireAll mepc es).events = w.events ++ retireEvents mepc w.arch es := by
  induction es generalizing w with
  | nil => exact (List.append_nil _).symm
  | cons e es ih =>
    rw [Window.retireAll_cons, ih, Window.retire, List.append_assoc]
    rfl

/-- A cycle only adds to the history. -/
theorem Window.step_events (w : Window) (log : CycleLog) : ∃ evs, (w.step log).events = w.events ++ evs := by
  unfold Window.step Window.retireN
  split_ifs
  · exact ⟨_, Window.events_retireAll⟩
  · exact ⟨_, Window.events_retireAll⟩
  · exact ⟨_, Window.events_retireAll⟩
  · exact ⟨_, rfl⟩
  · exact ⟨[], (List.append_nil _).symm⟩

/-- More cycles only add events. -/
theorem Window.after_events (env : Env) {logs logs' : List CycleLog} (h : logs <+: logs') :
    ∃ evs, (Window.after env logs').events = (Window.after env logs).events ++ evs := by
  obtain ⟨later, rfl⟩ := h
  induction later using List.reverseRecOn with
  | nil => exact ⟨[], by rw [List.append_nil, List.append_nil]⟩
  | append_singleton later log ih =>
    obtain ⟨evs, hevs⟩ := ih
    obtain ⟨evs', hevs'⟩ := (Window.after env (logs ++ later)).step_events log
    refine ⟨evs ++ evs', ?_⟩
    rw [← List.append_assoc, Window.after, List.foldl_append, ← List.append_assoc, ← hevs]
    exact hevs'

/-- The entries that retired are no longer in flight. -/
theorem Window.flight_retireAll (h : w.flight = es ++ fs) : (w.retireAll mepc es).flight = fs := by
  induction es generalizing w with
  | nil => exact h
  | cons e es ih =>
    refine ih ?_
    rw [Window.retire, h]
    rfl

end Retiring

end MyRiscvCore
