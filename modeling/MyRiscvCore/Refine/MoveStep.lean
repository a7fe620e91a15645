import MyRiscvCore.Refine.RetireStep
import MyRiscvCore.Refine.IssueStep

/-!
# MyRiscvCore — waiting instructions move on

Between rename and execute a waiting instruction is in one place (`LocOk`). A cycle moves some on: items
of the queue are sent to the units, slots are taken into the queue, renamed operations are read, and new
ones are renamed. What `LocOk` says of the places is about ids and about which of them are loads and
stores, so a move is described by the list of these (`Key`) that it keeps.
-/

namespace MyRiscvCore

/-- The id of an instruction, and whether it is a load or store. -/
abbrev Key := Nat × Bool

def RenameReadregOp.key (o : RenameReadregOp) : Key := (o.robId, isLsu o.toDecodeInfo)

def ReadregIssueOp.key (i : ReadregIssueOp) : Key := i.toRenameReadregOp.key

def IssueExecutePack.key (p : IssueExecutePack) : Key := (p.robId, isLsu p.toDecodeInfo)

/-- The ids of the loads and stores among these. -/
def lsuIds (ks : List Key) : List Nat := (ks.filter (·.2)).map (·.1)

theorem lsuIds_append (ks ls : List Key) : lsuIds (ks ++ ls) = lsuIds ks ++ lsuIds ls := by
  simp [lsuIds]

section Keys

variable {α : Type} {key : α → Key} {f : α → Nat} {p : α → Bool}

theorem map_fst_key (h : ∀ x, key x = (f x, p x)) (l : List α) : (l.map key).map (·.1) = l.map f := by
  rw [List.map_map]
  exact List.map_congr_left fun x _ => by simp [h]

theorem lsuIds_key (h : ∀ x, key x = (f x, p x)) (l : List α) :
    lsuIds (l.map key) = (l.filter p).map f := by
  have hp : ((fun k : Key => k.2) ∘ key) = p := funext fun x => by simp [h]
  rw [lsuIds, List.filter_map, List.map_map, hp]
  exact List.map_congr_left fun x _ => by simp [h]

end Keys

section Move

variable {regs : Nat → Word} {flight : List Entry} {packs packs' lsuP lsuP' : List IssueExecutePack}
  {items items' : List ReadregIssueOp} {renamed renamed' : List RenameReadregOp}

/-- The items `sel` are sent as the packs `sent`, the others `stay`, and the operations `moved` join
them. -/
theorem LocOk.move (h : LocOk regs flight packs lsuP items renamed) (sel stay : List ReadregIssueOp)
    (moved : List RenameReadregOp) (sent : List IssueExecutePack) (hsplit : items.Perm (sel ++ stay))
    (hlsu : items.filter (isLsu ·.toDecodeInfo) =
      sel.filter (isLsu ·.toDecodeInfo) ++ stay.filter (isLsu ·.toDecodeInfo))
    (hsentKey : sent.map (·.key) = sel.map (·.key))
    (hsent : ∀ p ∈ sent, ∃ pre e post v1 v2, flight = pre ++ e :: post ∧
      operand1 (valueAt regs pre) e.op = some v1 ∧ operand2 (valueAt regs pre) e.op = some v2 ∧
      p = packOf e.op v1 v2)
    (hpacks : packs'.Perm (packs ++ sent))
    (hlsuP : lsuP' = lsuP ++ sent.filter (isLsu ·.toDecodeInfo))
    (hkeys : items'.map (·.key) = stay.map (·.key) ++ moved.map (·.key))
    (hitems : ∀ i ∈ items', ∃ pre e post, flight = pre ++ e :: post ∧ e.op = i.toRenameReadregOp ∧
      OperandsOk (valueAt regs pre) i)
    (hren : renamed = moved ++ renamed') : LocOk regs flight packs' lsuP' items' renamed' := by
  -- the ids that moved
  have hsentId : sent.map (·.robId) = sel.map (·.robId) := by
    have := congrArg (List.map (·.1)) hsentKey
    rwa [map_fst_key (fun _ => rfl), map_fst_key (fun _ => rfl)] at this
  have hitemId : items'.map (·.robId) = stay.map (·.robId) ++ moved.map (·.robId) := by
    have := congrArg (List.map (·.1)) hkeys
    rwa [List.map_append, map_fst_key (fun _ => rfl), map_fst_key (fun _ => rfl),
      map_fst_key (fun _ => rfl)] at this
  have hsentLsu : (sent.filter (isLsu ·.toDecodeInfo)).map (·.robId) =
      (sel.filter (isLsu ·.toDecodeInfo)).map (·.robId) := by
    have := congrArg lsuIds hsentKey
    rwa [lsuIds_key (fun _ => rfl), lsuIds_key (fun _ => rfl)] at this
  have hitemLsu : (items'.filter (isLsu ·.toDecodeInfo)).map (·.robId) =
      (stay.filter (isLsu ·.toDecodeInfo)).map (·.robId) ++
        (moved.filter (isLsu ·.toDecodeInfo)).map (·.robId) := by
    have := congrArg lsuIds hkeys
    rwa [lsuIds_append, lsuIds_key (fun _ => rfl), lsuIds_key (fun _ => rfl),
      lsuIds_key (fun _ => rfl)] at this
  refine ⟨h.conserved.trans ?_, ?_, hitems, fun o ho => h.op o (by rw [hren]; simp [ho]), ?_,
    h.lsuFirst⟩
  · have hp := hpacks.map (·.robId)
    have hi := hsplit.map (·.robId)
    rw [List.map_append] at hp hi
    rw [hitemId, hren, List.map_append]
    rw [hsentId] at hp
    -- the selected items go over to the packs
    refine ((hi.append_right _).append_left _).trans ?_
    have := hp.symm.append_right ((stay.map (·.robId) ++ moved.map (·.robId)) ++
      renamed'.map (·.robId))
    simpa only [List.append_assoc] using this
  · intro p hp
    obtain hp | hp := List.mem_append.mp (hpacks.mem_iff.mp hp)
    · exact h.pack p hp
    · exact hsent p hp
  · rw [← h.lsu, hlsuP, hren, hlsu, hitemLsu]
    simp only [List.map_append, List.filter_append, List.append_assoc, hsentLsu]

/-- New instructions are renamed. -/
theorem LocOk.append {news : List Entry} (h : LocOk regs flight packs lsuP items renamed)
    (hnew : ∀ e ∈ news, e.status = .waiting) :
    LocOk regs (flight ++ news) packs lsuP items (renamed ++ news.map (·.op)) := by
  have hwait : ∀ e ∈ news, e.isWaiting = true := fun e he => Entry.isWaiting_iff.mpr (hnew e he)
  have hall : news.filter (·.isWaiting) = news := List.filter_eq_self.mpr hwait
  have hlsu : (news.filter fun e => e.isWaiting && isLsu e.op.toDecodeInfo) =
      news.filter (isLsu ·.op.toDecodeInfo) :=
    List.filter_congr fun e he => by rw [hwait e he, Bool.true_and]
  refine ⟨?_, ?_, ?_, ?_, ?_, ?_⟩
  · rw [List.filter_append, hall, List.map_append, List.map_append, List.map_map]
    have := h.conserved.append_right (news.map (·.op.robId))
    simpa [List.append_assoc, Function.comp_def] using this
  · intro p hp
    obtain ⟨pre, e, post, v1, v2, hf, hrest⟩ := h.pack p hp
    exact ⟨pre, e, post ++ news, v1, v2, by rw [hf]; simp, hrest⟩
  · intro i hi
    obtain ⟨pre, e, post, hf, hrest⟩ := h.item i hi
    exact ⟨pre, e, post ++ news, by rw [hf]; simp, hrest⟩
  · intro o ho
    obtain ho | ho := List.mem_append.mp ho
    · obtain ⟨e, he, hop⟩ := h.op o ho
      exact ⟨e, List.mem_append_left _ he, hop⟩
    · obtain ⟨e, he, rfl⟩ := List.mem_map.mp ho
      exact ⟨e, List.mem_append_right _ he, rfl⟩
  · have hops : ((news.map (·.op)).filter (isLsu ·.toDecodeInfo)).map (·.robId) =
        (news.filter (isLsu ·.op.toDecodeInfo)).map (·.op.robId) := by
      rw [List.filter_map, List.map_map]
      rfl
    have hsum := congrArg (· ++ (news.filter (isLsu ·.op.toDecodeInfo)).map (·.op.robId)) h.lsu
    simp only [List.append_assoc] at hsum
    simp only [List.filter_append, List.map_append, hlsu, hops]
    exact hsum
  -- the new ones wait, so none of them has passed an older access
  · intro pre e post hf hw hl x hx hxl
    obtain ⟨post', hflight, rfl⟩ | ⟨pre', -, hnews⟩ := split_append hf
    · obtain hx | hx := List.mem_append.mp hx
      · exact h.lsuFirst pre e post' hflight hw hl x hx hxl
      · exact hwait x hx
    · exact hwait x (by rw [hnews]; simp [hx])

end Move

/-- What the stages before execute read in a cycle: the register file and the results of the cycle, for
the instructions in flight at its start. -/
structure ReadHyp (f : Regfile) (chs : Channels) (C : Nat → Nat) (regs : Nat → Word)
    (flight : List Entry) (rs : List ExecuteWbPack) : Prop where
  reg : RegOk f C regs flight
  maps : Renaming.Ok archRegs C (renamings flight)
  bound : ∀ p ∈ Renaming.live archRegs C (renamings flight), p < phyRegNum
  channels : ChannelsOk chs (flight.map (Entry.advance rs))
  flight : FlightOk C regs flight

section Window

variable {f : Regfile} {chs : Channels} {C : Nat → Nat} {regs : Nat → Word} {flight : List Entry}
  {rs : List ExecuteWbPack} {pre post : List Entry} {e : Entry} {i : ReadregIssueOp}

/-- What a stage finds in the register file and on the channels, for both sources of an entry. -/
theorem ReadHyp.sourcesOk (h : ReadHyp f chs C regs flight rs) (hf : flight = pre ++ e :: post) :
    SourcesOk f chs (valueAt regs pre) (valueAt regs (pre.map (Entry.advance rs))) e.op := by
  have he := h.flight pre e post hf
  have hreg := h.reg
  have hmaps := h.maps
  have hbound := h.bound
  have hch := h.channels
  rw [hf] at hreg hmaps hbound hch
  constructor
  · intro hv hn
    rw [he.source1 hv hn]
    exact lookup hreg hmaps hbound hch (he.pack.rs1_mem hn)
  · intro hv hn
    rw [he.source2 hv hn]
    exact lookup hreg hmaps hbound hch (he.pack.rs2_mem hn)

/-- An item that is sent carries the operands of the architecture. -/
theorem ReadHyp.packFor (h : ReadHyp f chs C regs flight rs) (hf : flight = pre ++ e :: post)
    (hop : e.op = i.toRenameReadregOp) (hi : OperandsOk (valueAt regs pre) i)
    (hready : Issue.ready chs i = true) :
    ∃ v1 v2, operand1 (valueAt regs (pre.map (Entry.advance rs))) e.op = some v1 ∧
      operand2 (valueAt regs (pre.map (Entry.advance rs))) e.op = some v2 ∧
      Issue.packFor chs i = packOf e.op v1 v2 ∧ Issue.Sendable chs i := by
  have hs := h.sourcesOk hf
  rw [hop] at hs
  obtain ⟨v1, v2, hd1, hd2, hpack, h1, h2⟩ := sendPack_spec hs (ExecutedOk.value_mono rs pre) hi hready
  refine ⟨v1, v2, hop ▸ h1, hop ▸ h2, ?_, ?_⟩
  · rw [Issue.packFor, hd1, hd2, hpack, hop]
  · have hen := (h.flight pre e post hf).pack.enable
    rw [hop] at hen
    exact ⟨hen, by rw [hd1], by rw [hd2]⟩

/-- A slot that is taken into the queue. -/
theorem ReadHyp.inputItem (h : ReadHyp f chs C regs flight rs) (hf : flight = pre ++ e :: post)
    (hop : e.op = i.toRenameReadregOp) (hi : OperandsOk (valueAt regs pre) i) :
    ∃ i', Issue.inputItem f chs i = .ok i' ∧ i'.toRenameReadregOp = i.toRenameReadregOp ∧
      OperandsOk (valueAt regs (pre.map (Entry.advance rs))) i' ∧
      Awake (valueAt regs (pre.map (Entry.advance rs))) i' := by
  have hs := h.sourcesOk hf
  rw [hop] at hs
  exact inputItem_spec hs (ExecutedOk.value_mono rs pre) hi

/-- A renamed operation that is read. -/
theorem ReadHyp.readOp (h : ReadHyp f chs C regs flight rs) (hf : flight = pre ++ e :: post) :
    ∃ i', Readreg.readOp f chs e.op = .ok i' ∧ i'.toRenameReadregOp = e.op ∧
      OperandsOk (valueAt regs (pre.map (Entry.advance rs))) i' :=
  have ⟨i', hread, hop, hok, _⟩ := readOp_spec (h.sourcesOk hf) (h.flight pre e post hf).pack.enable
  ⟨i', hread, hop, hok⟩

/-- An item that stays in the queue. -/
theorem ReadHyp.wakeItem (h : ReadHyp f chs C regs flight rs) (hf : flight = pre ++ e :: post)
    (hop : e.op = i.toRenameReadregOp) (hi : OperandsOk (valueAt regs pre) i)
    (ha : Awake (valueAt regs pre) i) :
    (Issue.wakeItem chs i).toRenameReadregOp = i.toRenameReadregOp ∧
      OperandsOk (valueAt regs (pre.map (Entry.advance rs))) (Issue.wakeItem chs i) ∧
      Awake (valueAt regs (pre.map (Entry.advance rs))) (Issue.wakeItem chs i) := by
  have hs := h.sourcesOk hf
  rw [hop] at hs
  refine wakeItem_spec hs (ExecutedOk.value_mono rs pre) hi (fun hl => ?_) fun hl => ?_
  · obtain ⟨hv, hn⟩ := hi.missing1 hl
    exact (hs.src1 hv hn).before_eq_none (ha.missing1 hl)
  · obtain ⟨hv, hn⟩ := hi.missing2 hl
    exact (hs.src2 hv hn).before_eq_none (ha.missing2 hl)

end Window

/-- An instruction in flight is found by its id. -/
theorem split_robId {flight pre pre' post post' : List Entry} {e e' : Entry}
    (hnd : (flight.map (·.op.robId)).Nodup) (h : flight = pre ++ e :: post)
    (h' : flight = pre' ++ e' :: post') (hid : e.op.robId = e'.op.robId) :
    pre = pre' ∧ e = e' ∧ post = post' := by
  have he : e = e' := List.inj_on_of_nodup_map hnd (by rw [h]; simp) (by rw [h']; simp) hid
  subst he
  have hnd' : flight.Nodup := .of_map _ hnd
  have := split_unique (h.symm.trans h') (h ▸ hnd')
  exact ⟨this.1, rfl, this.2⟩

section MapM

variable {ε α β : Type} {f : α → Except ε β}

theorem mapM_exists {l : List α} (h : ∀ x ∈ l, ∃ y, f x = .ok y) : ∃ ys, l.mapM f = .ok ys := by
  induction l with
  | nil => exact ⟨[], rfl⟩
  | cons x l ih =>
    obtain ⟨y, hy⟩ := h x List.mem_cons_self
    obtain ⟨ys, hys⟩ := ih fun z hz => h z (List.mem_cons_of_mem _ hz)
    exact ⟨y :: ys, by rw [List.mapM_cons, hy, hys]; rfl⟩

/-- A map that succeeds does so at every element. -/
theorem mapM_forall₂ {l : List α} {ys : List β} (h : l.mapM f = .ok ys) :
    List.Forall₂ (fun x y => f x = .ok y) l ys := by
  induction l generalizing ys with
  | nil =>
    cases h
    exact .nil
  | cons x l ih =>
    rw [List.mapM_cons] at h
    cases hx : f x with
    | error err =>
      rw [hx] at h
      cases h
    | ok y =>
      cases hl : l.mapM f with
      | error err =>
        rw [hx, hl] at h
        cases h
      | ok ys' =>
        rw [hx, hl] at h
        cases h
        exact .cons hx (ih hl)

theorem forall₂_mem {R : α → β → Prop} {l : List α} {ys : List β} (h : List.Forall₂ R l ys) {y : β}
    (hy : y ∈ ys) : ∃ x ∈ l, R x y := by
  induction h with
  | nil => cases hy
  | cons hxy _ ih =>
    obtain rfl | hy := List.mem_cons.mp hy
    · exact ⟨_, List.mem_cons_self, hxy⟩
    · obtain ⟨x, hx, hr⟩ := ih hy
      exact ⟨x, List.mem_cons_of_mem _ hx, hr⟩

theorem forall₂_map_eq {γ : Type} {R : α → β → Prop} {g : α → γ} {k : β → γ} {l : List α}
    {ys : List β} (h : List.Forall₂ R l ys) (hg : ∀ x ∈ l, ∀ y, R x y → k y = g x) :
    ys.map k = l.map g := by
  induction h with
  | nil => rfl
  | cons hxy _ ih =>
    rw [List.map_cons, List.map_cons, hg _ List.mem_cons_self _ hxy,
      ih fun x hx => hg x (List.mem_cons_of_mem _ hx)]

end MapM

/-! ## Issue and register read in a cycle

The instructions that register read and issue pass on, with the operands they have collected. -/

section Cycle

variable {m : Machine} {w : Window} {chs : Channels} {rs : List ExecuteWbPack} {fifos : UnitFifos}
  {storeBufferEmpty : Bool} {fb : CommitFeedbackPack} {perf : PerfCounters} {hold : Option IssueExecutePack}
  {sel keep taken items left port : List ReadregIssueOp} {out : Issue.Out}

/-- An item after the cycle, in the window after the results have arrived. -/
def Collected (regs : Nat → Word) (flight : List Entry) (i : ReadregIssueOp) : Prop :=
  ∃ pre e post, flight = pre ++ e :: post ∧ e.op = i.toRenameReadregOp ∧
    OperandsOk (valueAt regs pre) i

theorem Collected.advance {regs : Nat → Word} {flight pre post : List Entry} {e : Entry}
    {i i' : ReadregIssueOp} (hf : flight = pre ++ e :: post) (hop : e.op = i.toRenameReadregOp)
    (h : i'.toRenameReadregOp = i.toRenameReadregOp)
    (hi : OperandsOk (valueAt regs (pre.map (Entry.advance rs))) i') :
    Collected regs (flight.map (Entry.advance rs)) i' :=
  ⟨pre.map (Entry.advance rs), e.advance rs, post.map (Entry.advance rs), by rw [hf]; simp,
    hop.trans h.symm, hi⟩

variable (h : Normal m w) (hread : ReadHyp m.regfile chs w.cmap w.arch.regs w.flight rs)

include h hread

/-- Issue does not abort. -/
theorem Normal.issue_flow (hunits : UnitsOk fifos) (hflush : fb.flushing = false)
    (hen : w.flight ≠ [] → fb.enable = true) (perf : PerfCounters) (storeBufferEmpty : Bool) :
    ∃ out sel keep taken items left, Issue.run m.issue fifos perf m.readregIssuePort m.regfile
        storeBufferEmpty chs fb = .ok out ∧
      IssueSpec m.issue fifos perf m.readregIssuePort m.regfile storeBufferEmpty chs fb sel keep taken items left
        out := by
  refine issue_flow_spec perf storeBufferEmpty hflush h.shape.queue h.shape.queueSave hunits
    h.shape.unitIndex (fun hne => ?_) (fun i hi hready => ?_) fun op hop => ?_
  · obtain ⟨i, hi⟩ := List.exists_mem_of_ne_nil _ hne
    obtain ⟨pre, e, post, hf, -⟩ := h.loc.item i (List.mem_append_left _ hi)
    exact hen (by rw [hf]; simp)
  · obtain ⟨pre, e, post, hf, hop, hok⟩ := h.loc.item i (List.mem_append_left _ hi)
    obtain ⟨-, -, -, -, -, hsend⟩ := hread.packFor hf hop hok hready
    exact hsend
  · obtain ⟨pre, e, post, hf, he, hok⟩ := h.loc.item op (List.mem_append_right _ hop)
    obtain ⟨i, hi, -⟩ := hread.inputItem hf he hok
    exact ⟨i, hi⟩

/-- Nor does register read. -/
theorem Normal.readreg_flow (hflush : fb.flushing = false) (stall : Bool) :
    ∃ port, Readreg.run m.regfile chs m.renameReadregPort m.readregIssuePort stall fb = .ok port ∧
      (stall = true → port = m.readregIssuePort) ∧
      (stall = false → List.Forall₂ (fun x y => Readreg.readOp m.regfile chs x = .ok y)
        (m.renameReadregPort.filter (·.enable)) (port.filter (·.enable))) := by
  unfold Readreg.run
  rw [hflush]
  cases stall with
  | true => exact ⟨_, rfl, fun _ => rfl, by simp⟩
  | false =>
    -- an unused slot passes
    have hoff : ∀ o : RenameReadregOp, o.enable = false →
        Readreg.readOp m.regfile chs o = .ok ⟨o, 0, true, 0, true⟩ := by
      intro o ho
      simp [Readreg.readOp, ho]
    have hon : ∀ o ∈ m.renameReadregPort, o.enable = true →
        ∃ i, Readreg.readOp m.regfile chs o = .ok i ∧ i.toRenameReadregOp = o := by
      intro o ho hen
      obtain ⟨e, he, rfl⟩ := h.loc.op o (List.mem_filter.mpr ⟨ho, hen⟩)
      obtain ⟨pre, post, hf⟩ := List.append_of_mem he
      obtain ⟨i, hi, hop, -⟩ := hread.readOp hf
      exact ⟨i, hi, hop⟩
    obtain ⟨port, hport⟩ := mapM_exists (f := Readreg.readOp m.regfile chs)
      (l := m.renameReadregPort) (by
        intro o ho
        cases hen : o.enable with
        | false => exact ⟨_, hoff o hen⟩
        | true =>
          obtain ⟨i, hi, -⟩ := hon o ho hen
          exact ⟨i, hi⟩)
    refine ⟨port, by simpa using hport, by simp, fun _ => ?_⟩
    have hall := mapM_forall₂ hport
    clear hport
    -- filter both sides
    generalize m.renameReadregPort = ops at hall hon
    induction hall with
    | nil => exact .nil
    | @cons o i ops is hoi _ ih =>
      have htail := ih fun x hx => hon x (List.mem_cons_of_mem _ hx)
      cases hen : o.enable with
      | false =>
        have hi : i.enable = false := by
          rw [hoff o hen, Except.ok.injEq] at hoi
          rw [← hoi]
          exact hen
        rw [List.filter_cons_of_neg (by simp [hen]), List.filter_cons_of_neg (by simp [hi])]
        exact htail
      | true =>
        obtain ⟨j, hj, hop⟩ := hon o List.mem_cons_self hen
        have hij : j = i := by
          rw [hoi, Except.ok.injEq] at hj
          exact hj.symm
        have hi : i.enable = true := by rw [← hij, hop]; exact hen
        rw [List.filter_cons_of_pos (by simpa using hen), List.filter_cons_of_pos (by simpa using hi)]
        exact .cons hoi htail

/-- The slots that readreg hands on. -/
theorem Normal.slots_flow (hread' : List.Forall₂ (fun x y => Readreg.readOp m.regfile chs x = .ok y)
      (m.renameReadregPort.filter (·.enable)) (port.filter (·.enable))) :
    (port.filter (·.enable)).map (·.key) = (m.renameReadregPort.filter (·.enable)).map (·.key) ∧
      ∀ i ∈ port.filter (·.enable), Collected w.arch.regs (w.flight.map (Entry.advance rs)) i := by
  have hone : ∀ o ∈ m.renameReadregPort.filter (·.enable), ∀ i,
      Readreg.readOp m.regfile chs o = .ok i → i.toRenameReadregOp = o ∧
        Collected w.arch.regs (w.flight.map (Entry.advance rs)) i := by
    intro o ho i hi
    obtain ⟨e, he, rfl⟩ := h.loc.op o ho
    obtain ⟨pre, post, hf⟩ := List.append_of_mem he
    obtain ⟨j, hj, hop, hok⟩ := hread.readOp hf
    obtain rfl : i = j := by
      rw [hi, Except.ok.injEq] at hj
      exact hj
    exact ⟨hop, .advance (i := i) hf hop.symm rfl hok⟩
  constructor
  · refine forall₂_map_eq hread' fun o ho i hi => ?_
    rw [ReadregIssueOp.key, (hone o ho i hi).1]
  · intro i hi
    obtain ⟨o, ho, hoi⟩ := forall₂_mem hread' hi
    exact (hone o ho i hoi).2

variable (hspec : IssueSpec m.issue fifos perf m.readregIssuePort m.regfile storeBufferEmpty chs fb sel keep taken items
  left out)

include hspec

/-- The items that the queue holds after the cycle. -/
theorem Normal.queue_flow (hnd : (w.flight.map (·.op.robId)).Nodup) {i' : ReadregIssueOp} (hi' : i' ∈ out.state.issueQ.toList) :
    ∃ pre e post, w.flight.map (Entry.advance rs) = pre ++ e :: post ∧
      e.op = i'.toRenameReadregOp ∧ OperandsOk (valueAt w.arch.regs pre) i' ∧
      Awake (valueAt w.arch.regs pre) i' := by
  rw [hspec.queue, List.mem_append] at hi'
  obtain hi' | hi' := hi'
  · obtain ⟨i, hi, rfl⟩ := List.mem_map.mp hi'
    have hmem : i ∈ m.issue.issueQ.toList :=
      hspec.split.mem_iff.mpr (List.mem_append_right _ hi)
    obtain ⟨pre, e, post, hf, hop, hok⟩ := h.loc.item i (List.mem_append_left _ hmem)
    obtain ⟨pre', e', post', hf', hop', haw⟩ := h.awake i hmem
    obtain ⟨rfl, rfl, rfl⟩ := split_robId hnd hf hf' (by rw [hop, hop'])
    obtain ⟨hsame, hok', haw'⟩ := hread.wakeItem hf hop hok haw
    exact ⟨pre.map (Entry.advance rs), e.advance rs, post.map (Entry.advance rs), by rw [hf]; simp,
      hop.trans hsame.symm, hok', haw'⟩
  -- inserted in this cycle
  · obtain ⟨i, hi, hin⟩ := forall₂_mem (mapM_forall₂ hspec.taken) hi'
    have hmem : i ∈ untaken m.readregIssuePort m.issue := by
      rw [hspec.slots]
      exact List.mem_append_left _ hi
    obtain ⟨pre, e, post, hf, hop, hok⟩ := h.loc.item i (List.mem_append_right _ hmem)
    obtain ⟨j, hj, hsame, hok', haw'⟩ := hread.inputItem hf hop hok
    obtain rfl : j = i' := by
      rw [hin, Except.ok.injEq] at hj
      exact hj.symm
    exact ⟨pre.map (Entry.advance rs), e.advance rs, post.map (Entry.advance rs), by rw [hf]; simp,
      hop.trans hsame.symm, hok', haw'⟩

/-- The slots not taken over in this cycle, followed by those that readreg adds. -/
theorem Normal.rest_flow (hstall : out.stall = true → port = m.readregIssuePort)
    (hgo : out.stall = false → List.Forall₂ (fun x y => Readreg.readOp m.regfile chs x = .ok y)
      (m.renameReadregPort.filter (·.enable)) (port.filter (·.enable))) :
    ∃ moved more, untaken port out.state = left ++ more ∧ more.map (·.key) = moved.map (·.key) ∧
      (∀ i ∈ more, Collected w.arch.regs (w.flight.map (Entry.advance rs)) i) ∧
      m.renameReadregPort.filter (·.enable) = moved ++
        if out.stall then m.renameReadregPort.filter (·.enable) else [] := by
  cases hst : out.stall with
  | true =>
    refine ⟨[], [], ?_, rfl, by simp, by simp⟩
    rw [hstall hst, List.append_nil]
    exact hspec.rest hst
  | false =>
    obtain ⟨hk, hc⟩ := h.slots_flow hread (hgo hst)
    refine ⟨_, port.filter (·.enable), ?_, hk, hc, by simp⟩
    rw [hspec.finish hst, List.nil_append, untaken, hspec.busy, hst]
    rfl

/-- The queue after the cycle: what stays, and the slots taken over. -/
theorem Normal.queue_keys : out.state.issueQ.toList.map (·.key) = (keep ++ taken).map (·.key) := by
  have hwake : (keep.map (Issue.wakeItem chs)).map (·.key) = keep.map (·.key) := by
    rw [List.map_map]
    rfl
  have htaken : items.map (·.key) = taken.map (·.key) := by
    refine forall₂_map_eq (mapM_forall₂ hspec.taken) fun i hi j hj => ?_
    have hmem : i ∈ untaken m.readregIssuePort m.issue := by
      rw [hspec.slots]
      exact List.mem_append_left _ hi
    obtain ⟨pre, e, post, hf, hop, hok⟩ := h.loc.item i (List.mem_append_right _ hmem)
    obtain ⟨k, hk, hsame, -⟩ := hread.inputItem hf hop hok
    rw [hj, Except.ok.injEq] at hk
    rw [ReadregIssueOp.key, hk, hsame]
    rfl
  rw [hspec.queue, List.map_append, hwake, htaken, List.map_append]

/-- The waiting instructions after issue and register read. -/
theorem Normal.loc_flow (hnd : (w.flight.map (·.op.robId)).Nodup)
    (hloc : LocOk w.arch.regs (w.flight.map (Entry.advance rs)) (unitPacks fifos hold)
      (hold.toList ++ (fifos .lsu 0).toList) (queuedItems m)
      (m.renameReadregPort.filter (·.enable)))
    (hstall : out.stall = true → port = m.readregIssuePort)
    (hgo : out.stall = false → List.Forall₂ (fun x y => Readreg.readOp m.regfile chs x = .ok y)
      (m.renameReadregPort.filter (·.enable)) (port.filter (·.enable))) :
    LocOk w.arch.regs (w.flight.map (Entry.advance rs)) (unitPacks out.fifos hold)
      (hold.toList ++ (out.fifos .lsu 0).toList) (out.state.issueQ.toList ++ untaken port out.state)
      (if out.stall then m.renameReadregPort.filter (·.enable) else []) := by
  obtain ⟨moved, more, hrest, hkeys, hmore, hren⟩ := h.rest_flow hread hspec hstall hgo
  refine hloc.move sel (keep ++ taken ++ left) moved (sel.map (Issue.packFor chs)) ?_ ?_ ?_ ?_
    (hspec.sent.perm hold) ?_ ?_ ?_ hren
  · rw [queuedItems, hspec.slots]
    have := hspec.split.append_right (taken ++ left)
    simpa only [List.append_assoc] using this
  · rw [queuedItems, hspec.slots, List.filter_append, hspec.lsu]
    simp only [List.filter_append, List.append_assoc]
  · rw [List.map_map]
    refine List.map_congr_left fun i _ => ?_
    rw [Function.comp_apply, IssueExecutePack.key, Issue.packFor_info, Issue.packFor_robId]
    rfl
  · intro p hp
    obtain ⟨i, hi, rfl⟩ := List.mem_map.mp hp
    have hmem : i ∈ m.issue.issueQ.toList :=
      hspec.split.mem_iff.mpr (List.mem_append_left _ hi)
    obtain ⟨pre, e, post, hf, hop, hok⟩ := h.loc.item i (List.mem_append_left _ hmem)
    obtain ⟨v1, v2, h1, h2, hpack, -⟩ := hread.packFor hf hop hok (hspec.ready i hi)
    exact ⟨pre.map (Entry.advance rs), e.advance rs, post.map (Entry.advance rs), v1, v2,
      by rw [hf]; simp, h1, h2, hpack⟩
  · rw [hspec.sent.lsu, List.append_assoc]
  · rw [hrest, List.map_append, h.queue_keys hread hspec]
    simp only [List.map_append, hkeys, List.append_assoc]
  · intro i hi
    rw [hrest, ← List.append_assoc, List.mem_append, List.mem_append] at hi
    -- kept in the queue, taken over from the port, or read in this cycle
    obtain (hi | hi) | hi := hi
    · obtain ⟨pre, e, post, hf, hop, hok, -⟩ := h.queue_flow hread hspec hnd hi
      exact ⟨pre, e, post, hf, hop, hok⟩
    · exact hloc.item i (by
        rw [queuedItems, hspec.slots]
        exact List.mem_append_right _ (List.mem_append_right _ hi))
    · exact hmore i hi

/-- No wake-up is lost in the cycle. -/
theorem Normal.awake_flow (hnd : (w.flight.map (·.op.robId)).Nodup) :
    AwakeOk w.arch.regs (w.flight.map (Entry.advance rs)) out.state.issueQ.toList := by
  intro i hi
  obtain ⟨pre, e, post, hf, hop, -, haw⟩ := h.queue_flow hread hspec hnd hi
  exact ⟨pre, e, post, hf, hop, haw⟩

end Cycle

end MyRiscvCore
