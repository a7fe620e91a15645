import MyRiscvCore.Refine.PathStep
import MyRiscvCore.Refine.RenameStep
import MyRiscvCore.Refine.SyncStep

/-!
# MyRiscvCore — the checkpoint buffer through a cycle

Fetch pushes a checkpoint for each jump it predicts, commit pops one for each jump that was predicted
right, and rename fills in those of the jumps it renames. The checkpoints of the path are the newest of
the ring, so the popped one is that of the retired jump or an older one that belongs to no instruction.
-/

namespace MyRiscvCore

/-- The checkpoint ids of the predicted jumps among these packs. -/
def cpIds (xs : List DecodeRenamePack) : List Nat :=
  (xs.filter (·.predicted)).map (·.checkpointId)

@[simp] theorem cpIds_nil : cpIds [] = [] := rfl

theorem cpIds_append (xs ys : List DecodeRenamePack) : cpIds (xs ++ ys) = cpIds xs ++ cpIds ys := by
  simp [cpIds]

theorem cpIds_decode (ps : List FetchDecodePack) :
    cpIds (ps.map Decode.decodePack) = (ps.filter (·.predicted)).map (·.checkpointId) := by
  induction ps with
  | nil => rfl
  | cons p ps ih =>
    have hp : (Decode.decodePack p).predicted = p.predicted := rfl
    rw [List.map_cons, cpIds, List.filter_cons, List.filter_cons, hp]
    cases p.predicted with
    | false => exact ih
    | true => exact congrArg _ ih

theorem mem_cpIds {xs : List DecodeRenamePack} {x : DecodeRenamePack} (h : x ∈ xs)
    (hp : x.predicted = true) : x.checkpointId ∈ cpIds xs :=
  List.mem_map.mpr ⟨x, List.mem_filter.mpr ⟨h, hp⟩, rfl⟩

/-- A jump ends the group, so at most one predicted jump retires. -/
theorem CommitSpec.cpIds_retired {csr : Csrfile} {ii : InterruptInterface} {q : Fifo RobItem}
    {cpb : Fifo Checkpoint} {C : Nat → Nat} {port : List ExecuteWbPack} {perf : PerfCounters}
    {cm : Commit.Ctx} {ret rest : List Entry} {stop : Stop} {regs : Nat → Word}
    (h : CommitSpec csr ii q cpb C port perf cm ret rest stop)
    (hfl : FlightOk C regs (ret ++ rest)) (hm : stop ≠ .miss) :
    (cpIds (ret.map (·.op.toDecodeRenamePack))).length = if stop = .hit then 1 else 0 := by
  -- what is not a jump is not predicted
  have hplain : ∀ es : List Entry, (∀ e ∈ es, e ∈ ret ∧ e.op.opUnit ≠ .bru) →
      cpIds (es.map (·.op.toDecodeRenamePack)) = [] := by
    intro es hes
    rw [cpIds, List.map_eq_nil_iff, List.filter_eq_nil_iff]
    intro x hx hp
    obtain ⟨e, he, rfl⟩ := List.mem_map.mp hx
    obtain ⟨pre, post, hf⟩ := List.append_of_mem (hes e he).1
    have hpack := (hfl pre e (post ++ rest) (by rw [hf]; simp)).pack
    exact (hes e he).2 (hpack.bru_iff.mpr (hpack.predicted hp).2.2)
  -- a jump at the end of the group
  have hend : ∀ pre e, ret = pre ++ [e] → cpIds (ret.map (·.op.toDecodeRenamePack)) =
      cpIds [e.op.toDecodeRenamePack] := by
    intro pre e hf
    rw [hf, List.map_append, cpIds_append, hplain pre fun x hx => ⟨by rw [hf]; simp [hx], ?_⟩]
    · rfl
    · intro hbru
      obtain ⟨a, b, rfl⟩ := List.append_of_mem hx
      simpa using h.inner a x (b ++ [e]) (by rw [hf]; simp) hbru
  cases stop with
  | miss => exact absurd rfl hm
  | group => rw [hplain ret fun e he => ⟨he, h.group (.inl rfl) e he⟩]; rfl
  | exception => rw [hplain ret fun e he => ⟨he, h.group (.inr rfl) e he⟩]; rfl
  | interrupt => rw [(h.interrupt rfl).1]; rfl
  | hit =>
    obtain ⟨e, r, hlast, hp, -⟩ := h.hit rfl
    obtain ⟨pre, hf⟩ := List.getLast?_eq_some_iff.mp hlast.last
    rw [hend pre e hf]
    simp [cpIds, hp]
  | jump =>
    obtain ⟨e, r, hlast, hp, -⟩ := h.jump (.inl rfl)
    obtain ⟨pre, hf⟩ := List.getLast?_eq_some_iff.mp hlast.last
    rw [hend pre e hf]
    have hp' : e.op.predicted = false := by simpa using hp
    simp [cpIds, hp']

/-- A suffix loses its head, or nothing, when the list does. -/
theorem suffix_tail {α : Type} {l s : List α} {x : α} (h : x :: s <:+ l) : s <:+ l.tail := by
  obtain ⟨pre, rfl⟩ := h
  cases pre with
  | nil => exact List.suffix_rfl
  | cons y pre => exact ⟨pre ++ [x], by simp⟩

section Flow

variable {q q₁ : Fifo Checkpoint} {C : Nat → Nat} {ret rest news : List Entry}
  {front front' : List DecodeRenamePack} {new : List FetchDecodePack}
  {cps : List (Nat × Checkpoint)} {xs : List Checkpoint}

/-- Results that arrive do not concern the checkpoints. -/
theorem CpOk.advance (h : CpOk q C rest front) (rs : List ExecuteWbPack) :
    CpOk q C (rest.map (Entry.advance rs)) front where
  wf := h.wf
  save := h.save
  suffix := by
    rw [List.map_map]
    exact h.suffix
  item := by
    intro pre e post hf hp
    obtain ⟨pre', e', post', hf', rfl, rfl, -⟩ := split_advance hf
    have hcp := h.item pre' e' post' hf' hp
    have hmap : mapAt (mapAt C pre') ([e'].map (Entry.advance rs)) = mapAt (mapAt C pre') [e'] :=
      mapAt_advance rs
    rw [List.map_singleton] at hmap
    rw [mapAt_advance]
    exact ⟨by rw [hmap]; exact hcp.visible_iff, by rw [hmap]; exact hcp.valid_visible, hcp.valid_old,
      hcp.valid_lt⟩

theorem CpOk.suffix_eq (h : CpOk q C (ret ++ rest) front)
    (hids : q₁.ids = q.ids ++ cpIds (new.map Decode.decodePack))
    (hfront : front ++ new.map Decode.decodePack = news.map (·.op.toDecodeRenamePack) ++ front') :
    cpIds (ret.map (·.op.toDecodeRenamePack)) ++
      cpIds ((rest ++ news).map (·.op.toDecodeRenamePack) ++ front') <:+ q₁.ids := by
  have hsuf : cpIds ((ret ++ rest).map (·.op.toDecodeRenamePack) ++ front) <:+ q.ids := h.suffix
  obtain ⟨pre, hpre⟩ := hsuf
  refine ⟨pre, ?_⟩
  rw [hids, ← hpre, List.append_assoc, ← cpIds_append, ← cpIds_append, List.append_assoc, hfront]
  simp

/-- The checkpoints through a cycle that goes on. -/
theorem CpOk.flow {hit : Bool} (h : CpOk q C (ret ++ rest) front) (hgrown : Fifo.Grown q q₁ xs)
    (hids : q₁.ids = q.ids ++ cpIds (new.map Decode.decodePack))
    (hret : (cpIds (ret.map (·.op.toDecodeRenamePack))).length = if hit then 1 else 0)
    (hfront : front ++ new.map Decode.decodePack = news.map (·.op.toDecodeRenamePack) ++ front')
    (hcps : cps.map (·.1) = (news.filter (·.op.predicted)).map (·.op.checkpointId))
    (hcp : ∀ pre e post, news = pre ++ e :: post → e.op.predicted = true →
      ∃ cp, (e.op.checkpointId, cp) ∈ cps ∧ CheckpointOk cp (mapAt C (ret ++ rest ++ pre)) e) :
    CpOk (q₁.sync ((if hit then [.pop] else []) ++ cps.map fun x => .setItem x.1 x.2)) (mapAt C ret)
      (rest ++ news) front' := by
  obtain ⟨q₂, hq₂⟩ : ∃ q₂, q₂ = q₁.sync (if hit then [.pop] else []) := ⟨_, rfl⟩
  have hsuf := h.suffix_eq hids hfront
  -- the pop takes the checkpoint of the retired jump, or one that is older than the path
  obtain ⟨hwf, hsave, hbuf, hsuf₂⟩ : q₂.WF ∧ q₂.popStatusSave = false ∧ q₂.buffer = q₁.buffer ∧
      cpIds ((rest ++ news).map (·.op.toDecodeRenamePack) ++ front') <:+ q₂.ids := by
    cases hit with
    | false =>
      have hnil : cpIds (ret.map (·.op.toDecodeRenamePack)) = [] :=
        List.eq_nil_of_length_eq_zero (by simpa using hret)
      rw [hnil, List.nil_append] at hsuf
      exact ⟨hq₂ ▸ hgrown.wf, hq₂ ▸ hgrown.save.trans h.save, hq₂ ▸ rfl, hq₂ ▸ hsuf⟩
    | true =>
      obtain ⟨id, hid⟩ := List.length_eq_one_iff.mp (by simpa using hret)
      rw [hid, List.singleton_append] at hsuf
      have hdrop : q₂ = q₁.drop1 := hq₂
      rw [hdrop]
      refine ⟨hgrown.wf.drop1, ?_, q₁.buffer_drop1, ?_⟩
      · rw [Fifo.popStatusSave_drop1, hgrown.save, h.save]
      · rw [hgrown.wf.ids_drop1]
        exact suffix_tail hsuf
  have hnd : (cpIds ((rest ++ news).map (·.op.toDecodeRenamePack) ++ front')).Nodup :=
    hwf.nodup_ids.sublist hsuf₂.sublist
  have hcps' : cps.map (·.1) = cpIds (news.map (·.op.toDecodeRenamePack)) := by
    rw [hcps, cpIds, List.filter_map, List.map_map]
    rfl
  rw [List.map_append, cpIds_append, cpIds_append, ← hcps', List.append_assoc] at hnd
  rw [Fifo.sync_append, ← hq₂, Fifo.sync_setItem]
  refine ⟨⟨hwf.rptr_lt, hwf.wptr_lt, hwf.stage⟩, hsave, hsuf₂, ?_⟩
  intro pre e post hf hp
  obtain ⟨post', hrest, -⟩ | ⟨pre', rfl, hnews⟩ := split_append hf
  · -- a jump that was in flight before keeps its checkpoint
    have hmem : e.op.checkpointId ∈ cpIds (rest.map (·.op.toDecodeRenamePack)) :=
      mem_cpIds (List.mem_map.mpr ⟨e, by rw [hrest]; simp, rfl⟩) hp
    have hother : Renaming.mapAfter q₂.buffer cps e.op.checkpointId =
        q₂.buffer e.op.checkpointId := by
      refine Renaming.mapAfter_of_notMem fun x hx hid => ?_
      refine (List.nodup_append.mp hnd).2.2 _ hmem x.1 ?_ hid.symm
      exact List.mem_append_left _ (List.mem_map_of_mem hx)
    have hold : e.op.checkpointId ∈ q.ids := h.suffix.subset (by
      refine mem_cpIds (x := e.op.toDecodeRenamePack) ?_ hp
      rw [hrest]
      simp)
    have hitem := h.item (ret ++ pre) e post' (by rw [hrest, List.append_assoc]) hp
    rw [mapAt_append] at hitem
    rw [show ({ q₂ with buffer := Renaming.mapAfter q₂.buffer cps } : Fifo Checkpoint).buffer =
      Renaming.mapAfter q₂.buffer cps from rfl, hother, hbuf, hgrown.old _ hold]
    exact hitem
  · -- a renamed jump gets the one rename made for it
    obtain ⟨cp, hin, hok⟩ := hcp pre' e post hnews hp
    have hcpnd : (cps.map (·.1)).Nodup :=
      (List.nodup_append.mp (List.nodup_append.mp hnd).2.1).1
    have hval : Renaming.mapAfter q₂.buffer cps e.op.checkpointId = cp :=
      Renaming.mapAfter_of_forall hin fun y hy hyid => by
        rw [List.inj_on_of_nodup_map hcpnd hy hin hyid]
    rw [show ({ q₂ with buffer := Renaming.mapAfter q₂.buffer cps } : Fifo Checkpoint).buffer =
      Renaming.mapAfter q₂.buffer cps from rfl, hval, ← mapAt_append, ← List.append_assoc]
    exact hok

end Flow

end MyRiscvCore
