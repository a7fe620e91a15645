import Mathlib.Data.List.Nodup
import Mathlib.Data.Set.Card
import Mathlib.Logic.Function.Basic

/-!
# MyRiscvCore — register renaming

A theory of register renaming over arbitrary types `A` of names and `P` of places. A *committed* map
`C : A → P` gives the place of every name in a set `S`; a list `l : List (A × P)` records the
renamings made since, oldest first, each of them giving a name a new place.

* `mapAfter C l` is the current map: the newest renaming of a name wins.
* `live S C l` are the places in use: those of the committed map and the new ones.
* `olds C l` are the places the renamings of `l` replaced, one per renaming.

Under `Ok S C l` (the committed places differ, the new ones differ and are fresh) the live places
fall into the current ones and the replaced ones, all distinct (`Ok.live_eq`, `Ok.nodup_olds`,
`Ok.olds_notMem_visible`). A renaming is added at the back (`Ok.snoc`), undone at the back
(`Ok.init`), and retired at the front, where it replaces the committed place (`Ok.retire`).
-/

namespace Renaming

variable {A P : Type} [DecidableEq A]

/-- The current map. -/
def mapAfter (C : A → P) (l : List (A × P)) : A → P :=
  l.foldl (fun f x => Function.update f x.1 x.2) C

/-- The places in use. -/
def live (S : Set A) (C : A → P) (l : List (A × P)) : Set P :=
  C '' S ∪ {p | p ∈ l.map Prod.snd}

/-- The places the renamings replaced, in order. -/
def olds (C : A → P) : List (A × P) → List P
  | [] => []
  | x :: l => C x.1 :: olds (Function.update C x.1 x.2) l

/-- The committed places are distinct, the new ones are distinct and fresh. -/
structure Ok (S : Set A) (C : A → P) (l : List (A × P)) : Prop where
  inj : Set.InjOn C S
  fresh : ∀ x ∈ l, ∀ a ∈ S, C a ≠ x.2
  nodup : (l.map Prod.snd).Nodup
  dom : ∀ x ∈ l, x.1 ∈ S

variable {S : Set A} {C : A → P} {l : List (A × P)} {a : A} {p : P}

@[simp] theorem mapAfter_nil : mapAfter C [] = C := rfl

theorem mapAfter_cons (x : A × P) :
    mapAfter C (x :: l) = mapAfter (Function.update C x.1 x.2) l := rfl

theorem mapAfter_append (l₂ : List (A × P)) :
    mapAfter C (l ++ l₂) = mapAfter (mapAfter C l) l₂ := by
  simp [mapAfter]

/-- The last renaming has the last word. -/
theorem mapAfter_snoc (x : A × P) :
    mapAfter C (l ++ [x]) = Function.update (mapAfter C l) x.1 x.2 := by
  simp [mapAfter]

theorem olds_append (l₂ : List (A × P)) :
    olds C (l ++ l₂) = olds C l ++ olds (mapAfter C l) l₂ := by
  induction l generalizing C with
  | nil => rfl
  | cons x l ih => simp [olds, ih, mapAfter_cons]

theorem olds_snoc (x : A × P) : olds C (l ++ [x]) = olds C l ++ [mapAfter C l x.1] := by
  rw [olds_append]
  rfl

omit [DecidableEq A] in
/-- Live are the committed registers and those given out since. -/
theorem mem_live {q : P} : q ∈ live S C l ↔ (∃ a ∈ S, C a = q) ∨ ∃ x ∈ l, x.2 = q := by
  simp [live]

omit [DecidableEq A] in
/-- One more renaming makes one more register live. -/
theorem live_snoc (x : A × P) : live S C (l ++ [x]) = insert x.2 (live S C l) := by
  ext q
  simp only [mem_live, List.mem_append, List.mem_singleton, Set.mem_insert_iff]
  constructor
  · rintro (h | ⟨y, hy | rfl, rfl⟩)
    · exact .inr (.inl h)
    · exact .inr (.inr ⟨y, hy, rfl⟩)
    · exact .inl rfl
  · rintro (rfl | h | ⟨y, hy, rfl⟩)
    · exact .inr ⟨x, .inr rfl, rfl⟩
    · exact .inl h
    · exact .inr ⟨y, .inl hy, rfl⟩

/-- The current place of a name is its committed one or that of one of its renamings. -/
theorem mapAfter_cases (C : A → P) (l : List (A × P)) (a : A) :
    mapAfter C l a = C a ∨ ∃ x ∈ l, x.1 = a ∧ mapAfter C l a = x.2 := by
  induction l generalizing C with
  | nil => exact .inl rfl
  | cons x l ih =>
    rw [mapAfter_cons]
    obtain h | ⟨y, hy, hya, h⟩ := ih (Function.update C x.1 x.2)
    · by_cases hx : a = x.1
      · refine .inr ⟨x, List.mem_cons_self, hx.symm, ?_⟩
        rw [h, hx, Function.update_self]
      · rw [h, Function.update_of_ne hx]
        exact .inl rfl
    · exact .inr ⟨y, List.mem_cons_of_mem _ hy, hya, h⟩

/-- The map at `a` depends on the old map at `a` only. -/
theorem mapAfter_congr {C' : A → P} (h : C a = C' a) (l : List (A × P)) :
    mapAfter C l a = mapAfter C' l a := by
  induction l generalizing C C' with
  | nil => exact h
  | cons x l ih =>
    rw [mapAfter_cons, mapAfter_cons]
    refine ih ?_
    by_cases ha : a = x.1
    · subst ha
      simp
    · rw [Function.update_of_ne ha, Function.update_of_ne ha, h]

/-- And only on the renamings of `a`. -/
theorem mapAfter_of_notMem (h : ∀ x ∈ l, x.1 ≠ a) : mapAfter C l a = C a := by
  obtain h' | ⟨x, hx, hxa, -⟩ := mapAfter_cases C l a
  · exact h'
  · exact absurd hxa (h x hx)

/-- Renamings of `a` that agree on the place. -/
theorem mapAfter_of_forall {x : A × P} (hx : x ∈ l) (h : ∀ y ∈ l, y.1 = x.1 → y.2 = x.2) :
    mapAfter C l x.1 = x.2 := by
  induction l generalizing C with
  | nil => simp at hx
  | cons y l ih =>
    by_cases hl : x ∈ l
    · exact ih hl fun z hz => h z (List.mem_cons_of_mem _ hz)
    · obtain rfl : x = y := by simpa [hl] using hx
      rw [mapAfter_cons]
      obtain h' | ⟨z, hz, hzx, h'⟩ := mapAfter_cases (Function.update C x.1 x.2) l x.1
      · rw [h', Function.update_self]
      · rw [h', h z (List.mem_cons_of_mem _ hz) hzx]

theorem mapAfter_mem_live (ha : a ∈ S) : mapAfter C l a ∈ live S C l := by
  rw [mem_live]
  obtain h | ⟨x, hx, -, h⟩ := mapAfter_cases C l a
  · exact .inl ⟨a, ha, h.symm⟩
  · exact .inr ⟨x, hx, h.symm⟩

namespace Ok

omit [DecidableEq A] in
theorem nil (h : Set.InjOn C S) : Ok S C [] :=
  ⟨h, by simp, by simp, by simp⟩

omit [DecidableEq A] in
/-- The older part of the renamings. -/
theorem of_append {l₂ : List (A × P)} (h : Ok S C (l ++ l₂)) : Ok S C l where
  inj := h.inj
  fresh x hx := h.fresh x (List.mem_append_left _ hx)
  nodup := by
    have := h.nodup
    rw [List.map_append] at this
    exact this.of_append_left
  dom x hx := h.dom x (List.mem_append_left _ hx)

omit [DecidableEq A] in
/-- Renaming to a register that is not live keeps the invariant. -/
theorem snoc (h : Ok S C l) (ha : a ∈ S) (hp : p ∉ live S C l) : Ok S C (l ++ [(a, p)]) where
  inj := h.inj
  fresh x hx b hb := by
    rw [List.mem_append, List.mem_singleton] at hx
    obtain hx | rfl := hx
    · exact h.fresh x hx b hb
    · exact fun e => hp (mem_live.mpr (.inl ⟨b, hb, e⟩))
  nodup := by
    rw [List.map_append, List.map_singleton]
    refine h.nodup.append (List.nodup_singleton _) ?_
    intro q hq hq'
    obtain rfl : q = p := by simpa using hq'
    obtain ⟨x, hx, rfl⟩ := List.mem_map.mp hq
    exact hp (mem_live.mpr (.inr ⟨x, hx, rfl⟩))
  dom x hx := by
    rw [List.mem_append, List.mem_singleton] at hx
    obtain hx | rfl := hx
    · exact h.dom x hx
    · exact ha

/-- The oldest renaming becomes part of the committed map. -/
theorem retire {x : A × P} (h : Ok S C (x :: l)) : Ok S (Function.update C x.1 x.2) l where
  inj b hb c hc e := by
    have hx := h.fresh x List.mem_cons_self
    by_cases hbx : b = x.1 <;> by_cases hcx : c = x.1
    · rw [hbx, hcx]
    · rw [hbx, Function.update_self, Function.update_of_ne hcx] at e
      exact absurd e.symm (hx c hc)
    · rw [hcx, Function.update_self, Function.update_of_ne hbx] at e
      exact absurd e (hx b hb)
    · rw [Function.update_of_ne hbx, Function.update_of_ne hcx] at e
      exact h.inj hb hc e
  fresh y hy b hb := by
    by_cases hbx : b = x.1
    · rw [hbx, Function.update_self]
      have := h.nodup
      rw [List.map_cons, List.nodup_cons] at this
      exact fun e => this.1 (List.mem_map.mpr ⟨y, hy, e.symm⟩)
    · rw [Function.update_of_ne hbx]
      exact h.fresh y (List.mem_cons_of_mem _ hy) b hb
  nodup := (List.nodup_cons.mp (by simpa using h.nodup)).2
  dom y hy := h.dom y (List.mem_cons_of_mem _ hy)

/-- The place a retired renaming replaced is no longer live. -/
theorem old_notMem_live {x : A × P} (h : Ok S C (x :: l)) :
    C x.1 ∉ live S (Function.update C x.1 x.2) l := by
  have hdom := h.dom x List.mem_cons_self
  rw [mem_live]
  rintro (⟨b, hb, e⟩ | ⟨y, hy, e⟩)
  · by_cases hbx : b = x.1
    · rw [hbx, Function.update_self] at e
      exact h.fresh x List.mem_cons_self _ hdom e.symm
    · rw [Function.update_of_ne hbx] at e
      exact hbx (h.inj hb hdom e)
  · exact h.fresh y (List.mem_cons_of_mem _ hy) _ hdom e.symm

/-- Retiring frees exactly the replaced place. -/
theorem live_cons {x : A × P} (h : Ok S C (x :: l)) :
    live S C (x :: l) = insert (C x.1) (live S (Function.update C x.1 x.2) l) := by
  have hdom := h.dom x List.mem_cons_self
  ext q
  simp only [mem_live, List.mem_cons, Set.mem_insert_iff]
  constructor
  · rintro (⟨b, hb, rfl⟩ | ⟨y, rfl | hy, rfl⟩)
    · by_cases hbx : b = x.1
      · exact .inl (by rw [hbx])
      · exact .inr (.inl ⟨b, hb, by rw [Function.update_of_ne hbx]⟩)
    · exact .inr (.inl ⟨y.1, hdom, by rw [Function.update_self]⟩)
    · exact .inr (.inr ⟨y, hy, rfl⟩)
  · rintro (rfl | ⟨b, hb, rfl⟩ | ⟨y, hy, rfl⟩)
    · exact .inl ⟨x.1, hdom, rfl⟩
    · by_cases hbx : b = x.1
      · exact .inr ⟨x, .inl rfl, by rw [hbx, Function.update_self]⟩
      · exact .inl ⟨b, hb, by rw [Function.update_of_ne hbx]⟩
    · exact .inr ⟨y, .inr hy, rfl⟩

/-- The current map is injective. -/
theorem injOn_mapAfter (h : Ok S C l) : Set.InjOn (mapAfter C l) S := by
  induction l generalizing C with
  | nil => exact h.inj
  | cons x l ih => exact ih h.retire

/-- A replaced place is not current. -/
theorem olds_notMem_visible (h : Ok S C l) : ∀ q ∈ olds C l, q ∉ mapAfter C l '' S := by
  induction l generalizing C with
  | nil => simp [olds]
  | cons x l ih =>
    intro q hq
    rw [olds, List.mem_cons] at hq
    rw [mapAfter_cons]
    obtain rfl | hq := hq
    · rintro ⟨b, hb, e⟩
      exact h.old_notMem_live (e ▸ mapAfter_mem_live hb)
    · exact ih h.retire q hq

/-- A replaced register is live until the renaming retires. -/
theorem olds_subset_live (h : Ok S C l) : ∀ q ∈ olds C l, q ∈ live S C l := by
  induction l generalizing C with
  | nil => simp [olds]
  | cons x l ih =>
    intro q hq
    rw [h.live_cons]
    rw [olds, List.mem_cons] at hq
    obtain rfl | hq := hq
    · exact Set.mem_insert _ _
    · exact Set.mem_insert_of_mem _ (ih h.retire q hq)

/-- The replaced places are distinct. -/
theorem nodup_olds (h : Ok S C l) : (olds C l).Nodup := by
  induction l generalizing C with
  | nil => exact List.nodup_nil
  | cons x l ih =>
    rw [olds, List.nodup_cons]
    exact ⟨fun hmem => h.old_notMem_live (h.retire.olds_subset_live _ hmem), ih h.retire⟩

/-- The live places are the current ones and the replaced ones. -/
theorem live_eq (h : Ok S C l) : live S C l = mapAfter C l '' S ∪ {q | q ∈ olds C l} := by
  induction l generalizing C with
  | nil => simp [live, olds]
  | cons x l ih =>
    rw [h.live_cons, ih h.retire, mapAfter_cons]
    ext q
    simp only [Set.mem_insert_iff, Set.mem_union, Set.mem_ofPred_eq, olds, List.mem_cons]
    tauto

/-- The replaced place of the newest renaming is current again once it is undone. -/
theorem visible_snoc {x : A × P} (h : Ok S C (l ++ [x])) :
    mapAfter C (l ++ [x]) '' S = insert x.2 ((mapAfter C l '' S) \ {mapAfter C l x.1}) := by
  have hdom := h.dom x (by simp)
  have hinj := h.of_append.injOn_mapAfter
  rw [mapAfter_snoc]
  ext q
  simp only [Set.mem_image, Set.mem_insert_iff, Set.mem_sdiff, Set.mem_singleton_iff]
  constructor
  · rintro ⟨b, hb, rfl⟩
    by_cases hbx : b = x.1
    · exact .inl (by rw [hbx, Function.update_self])
    · rw [Function.update_of_ne hbx]
      exact .inr ⟨⟨b, hb, rfl⟩, fun e => hbx (hinj hb hdom e)⟩
  · rintro (rfl | ⟨⟨b, hb, rfl⟩, hne⟩)
    · exact ⟨x.1, hdom, by rw [Function.update_self]⟩
    · have hbx : b ≠ x.1 := fun e => hne (by rw [e])
      exact ⟨b, hb, by rw [Function.update_of_ne hbx]⟩

omit [DecidableEq A] in
/-- The register of the last renaming was free before. -/
theorem last_notMem_live {x : A × P} (h : Ok S C (l ++ [x])) : x.2 ∉ live S C l := by
  rw [mem_live]
  rintro (⟨b, hb, e⟩ | ⟨y, hy, e⟩)
  · exact h.fresh x (by simp) b hb e
  · have := h.nodup
    rw [List.map_append, List.nodup_append] at this
    exact this.2.2 _ (List.mem_map.mpr ⟨y, hy, rfl⟩) x.2 (by simp) e

end Ok

end Renaming
