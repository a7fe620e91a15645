import MyRiscvCore.Pipeline.CommitFacts
import MyRiscvCore.Properties.Checkpoints
import MyRiscvCore.Properties.Faults

/-!
# MyRiscvCore — the assertions of the core

An `assert` of the source that is violated prints and aborts the simulator; in the model the cycle then answers
`.error (.assertion file)`. That no assertion of the stages and buffers fires is part of the refinement: a cycle
from a state that represents a window ends in such a state, or in one of two other ways.

* `fetch_error_iff` — one of them is fetch: the words it reads for the trace abort on a misaligned pc if one of
  them is mapped, and only then.
* `assertions_hold` — no other assertion is ever violated, and what four of the assertions check.
-/

namespace MyRiscvCore

/-- A misaligned read of a mapped address violates the slave's assertion. -/
theorem Bus.read_misaligned (b : Bus) {addr : Word} {size : AccessSize} (hm : Mapped addr)
    (ha : Bus.checkAlign addr size = false) : b.read addr size = .error (.assertion .slaveBase) := by
  obtain ⟨info, hinfo⟩ := Option.isSome_iff_exists.mp hm
  have hmem := List.mem_of_find?_eq_some hinfo
  have hin := List.find?_some hinfo
  simp only [Bool.and_eq_true, decide_eq_true_eq] at hin
  have hoff : isAlign (addr - info.base) (BitVec.ofNat 32 size.bytes) = false := by
    rw [Bool.eq_false_iff] at ha ⊢
    refine mt (fun h => ?_) ha
    -- the regions begin at multiples of a word
    have hbase : info.base.toNat % 4 = 0 := by
      obtain rfl | rfl : info = ⟨0x80000000, 1048576, .memory⟩ ∨ info = ⟨0x20000000, 0x10000, .clint⟩ := by
        simpa [slaveInfoList] using hmem
      · rfl
      · rfl
    have hle : info.base.toNat ≤ addr.toNat := hin.1
    have h := checkAlign_iff.mp h
    rw [BitVec.toNat_sub_of_le hin.1] at h
    refine checkAlign_iff.mpr ?_
    cases size <;> simp only [AccessSize.bytes] at h ⊢ <;> omega
  unfold Bus.read
  simp only [hinfo, Bus.slaveCheck, hoff, assert, Bool.false_eq_true, if_false]
  rfl

theorem Bus.read_error_iff (b : Bus) {addr : Word} {size : AccessSize} {err : Halt} :
    b.read addr size = .error err ↔
      err = .assertion .slaveBase ∧ Mapped addr ∧ Bus.checkAlign addr size = false := by
  constructor
  · intro h
    have ha : Bus.checkAlign addr size = false := by
      by_contra ha
      obtain ⟨v, hv, -⟩ := b.read_aligned (Bool.eq_true_of_not_eq_false ha)
      rw [hv] at h
      cases h
    have hm : Mapped addr := by
      by_contra hm
      unfold Bus.read at h
      rw [Option.not_isSome_iff_eq_none.mp hm] at h
      cases h
    rw [b.read_misaligned hm ha] at h
    exact ⟨(Except.error.inj h).symm, hm, ha⟩
  · rintro ⟨rfl, hm, ha⟩
    exact b.read_misaligned hm ha

/-- The fetched words themselves are read at aligned addresses only. -/
theorem fetchWord_ok (bus : Bus) (pc : Word) : ∃ v, Fetch.fetchWord bus pc = .ok v := by
  unfold Fetch.fetchWord
  cases ha : Bus.checkAlign pc .word with
  | false => exact ⟨0, rfl⟩
  | true =>
    obtain ⟨v, hv, -⟩ := bus.read_aligned ha
    exact ⟨v, hv⟩

theorem fetchLoop_ok (bus : Bus) (uninit : Checkpoint) (gate : Bool) (oldPc : Word) (rounds i : Nat)
    (c : Fetch.Ctx) : ∃ c', Fetch.fetchLoop bus uninit gate oldPc rounds i c = .ok c' := by
  induction rounds generalizing i c with
  | zero => exact ⟨c, rfl⟩
  | succ rounds ih =>
    unfold Fetch.fetchLoop
    obtain ⟨v, hv⟩ := fetchWord_ok bus (oldPc + BitVec.ofNat 32 (i * 4))
    split
    · simp only [hv, bind, Except.bind]
      split
      · exact ⟨_, rfl⟩
      · split
        · exact ⟨_, rfl⟩
        · exact ih _ _
    · exact ih _ _

/-- The words of a group have the alignment of its pc. -/
theorem checkAlign_word (pc : Word) (i : Nat) :
    Bus.checkAlign (pc + BitVec.ofNat 32 (i * 4)) .word = Bus.checkAlign pc .word := by
  rw [Bool.eq_iff_iff, checkAlign_iff, checkAlign_iff, BitVec.toNat_add, BitVec.toNat_ofNat]
  simp only [AccessSize.bytes]
  omega

/-- The reads for the trace fail at the first mapped word of a misaligned group. -/
theorem fetchTrace_error_iff (bus : Bus) (pc : Word) (l : List Nat) {e : Halt} :
    (l.forM fun i => do
      let _ ← bus.read32 (pc + BitVec.ofNat 32 (i * 4))) = .error e ↔
    e = .assertion .slaveBase ∧ Bus.checkAlign pc .word = false ∧
      ∃ i ∈ l, Mapped (pc + BitVec.ofNat 32 (i * 4)) := by
  induction l with
  | nil =>
    constructor
    · intro h
      cases h
    · rintro ⟨-, -, i, hi, -⟩
      exact absurd hi List.not_mem_nil
  | cons i l ih =>
    have halign := checkAlign_word pc i
    unfold List.forM
    cases hread : bus.read (pc + BitVec.ofNat 32 (i * 4)) .word with
    | error err' =>
      obtain ⟨rfl, hm, ha⟩ := bus.read_error_iff.mp hread
      rw [halign] at ha
      simp only [Bus.read32, hread]
      constructor
      · rintro ⟨⟩
        exact ⟨rfl, ha, i, List.mem_cons_self, hm⟩
      · rintro ⟨rfl, -⟩
        rfl
    | ok v =>
      simp only [Bus.read32, hread]
      refine ih.trans (and_congr_right fun _ => and_congr_right fun ha => ?_)
      -- this word is not mapped, or the read would have failed
      have hi : ¬ Mapped (pc + BitVec.ofNat 32 (i * 4)) := fun hm => by
        rw [bus.read_misaligned hm (halign.trans ha)] at hread
        cases hread
      simp [hi]

/-- Fetch reads a group of words at `pc`. -/
structure Fetches (s : FetchState) (fb : CommitFeedbackPack) (pc : Word) : Prop where
  flow : fb.flushing = false
  state : s = ⟨pc, false, false⟩

/-- A group of words at `pc` cannot be read: it is misaligned, and one of the words is mapped. -/
def Unreadable (pc : Word) : Prop :=
  pc.toNat % 4 ≠ 0 ∧ ∃ i < 4, Mapped (pc + BitVec.ofNat 32 (i * 4))

theorem fetch_error_iff {bus : Bus} {sb : StoreBuffer} {uninit : Checkpoint} {c : Fetch.Ctx}
    {decodeIdle renameIdle : Bool} {fb : CommitFeedbackPack} {err : Halt} :
    Fetch.run bus sb uninit c decodeIdle renameIdle fb = .error err ↔
      err = .assertion .slaveBase ∧ ∃ pc, Fetches c.state fb pc ∧ Unreadable pc := by
  have hnot {pc : Word} : Bus.checkAlign pc .word = false ↔ pc.toNat % 4 ≠ 0 := by
    rw [← Bool.not_eq_true, checkAlign_iff]
    rfl
  obtain ⟨⟨pc, jumpWait, first⟩, fifo, cpb, predictor, perf⟩ := c
  unfold Fetch.run
  dsimp only
  cases first with
  | true =>
    constructor
    · intro h
      cases h
    · rintro ⟨-, _, ⟨-, hs⟩, -⟩
      cases hs
  | false =>
    cases hfl : fb.flushing with
    | true =>
      constructor
      · intro h
        cases h
      · rintro ⟨-, _, ⟨hflow, -⟩, -⟩
        cases hfl.symm.trans hflow
    | false =>
      cases jumpWait with
      | true =>
        constructor
        · intro h
          revert h
          cases fb.jumpEnable <;> exact fun h => by cases h
        · rintro ⟨-, _, ⟨-, hs⟩, -⟩
          cases hs
      | false =>
        -- a group is read
        have htrace := fetchTrace_error_iff bus pc (List.range fetchWidth) (e := err)
        have hiff : (∃ pc', Fetches ⟨pc, false, false⟩ fb pc' ∧ Unreadable pc') ↔ Unreadable pc :=
          ⟨fun ⟨_, ⟨_, hs⟩, h⟩ => by cases hs; exact h, fun h => ⟨pc, ⟨hfl, rfl⟩, h⟩⟩
        have hread : (Bus.checkAlign pc .word = false ∧
            ∃ i ∈ List.range fetchWidth, Mapped (pc + BitVec.ofNat 32 (i * 4))) ↔ Unreadable pc := by
          simp only [hnot, Unreadable, List.mem_range, fetchWidth]
        rw [hiff, ← hread, ← htrace]
        cases ht : (List.range fetchWidth).forM fun i => do
            let _ ← bus.read32 (pc + BitVec.ofNat 32 (i * 4)) with
        | error e =>
          constructor
          · intro h
            cases h
            rfl
          · intro h
            cases h
            rfl
        | ok x =>
          obtain ⟨c', hc'⟩ := fetchLoop_ok bus uninit (!decodeIdle || !renameIdle || fb.enable || !sb.isEmpty) pc
            fetchWidth 0 ⟨⟨pc, false, false⟩, fifo, cpb, predictor, perf⟩
          constructor
          · intro h
            cases hc'.symm.trans h
          · intro h
            cases h

section Cycle

variable {env : Env} {n : Nat} {m : Machine} {w : Window} {s : Stages}

/-- A violated assertion is the one of fetch. -/
theorem Refines.cycle_assertion (h : Refines m w) {file : SourceFile}
    (hc : cycle env n m = .error (.assertion file)) :
    file = .slaveBase ∧ ∃ s pc, Stages.RanBack env n m s ∧ Fetches m.fetch s.cm.fb pc ∧ Unreadable pc := by
  obtain ⟨s, hs⟩ | ⟨s, hback, herr⟩ := h.cycleCase env n
  · obtain ⟨u, hu⟩ | ⟨-, hcsr⟩ := hs.exists_synced
    · rw [cycle_ok_iff.mpr ⟨s, u, hs.ran, hu, rfl, rfl⟩] at hc
      cases hc
    · cases hcsr.symm.trans hc
  · cases (cycle_error_fetch hback herr).symm.trans hc
    obtain ⟨-, pc, hpc, hbad⟩ := fetch_error_iff.mp herr
    exact ⟨rfl, s, pc, hback, hpc, hbad⟩

/-- With an instruction in the issue queue, commit has something to announce. -/
theorem Refines.enable (h : Refines m w) (hs : s.RanBack env n m) (hq : m.issue.issueQ.toList ≠ []) :
    s.cm.fb.enable = true := by
  obtain h | ⟨j, h⟩ := h
  · obtain ⟨ret, rest, stop, hflight, hcm⟩ := hs.commitSpec h
    obtain ⟨i, hi⟩ := List.exists_mem_of_ne_nil _ hq
    obtain ⟨pre, e, post, hf, -⟩ := h.loc.item i (List.mem_append_left _ hi)
    rw [hcm.enable, ← hflight, hf]
    simp
  · exact absurd h.drained.2.2.1 hq

/-- Commit asks for writes only of registers that exist, and for an instruction only if it may write. -/
theorem Refines.csr_known (h : Refines m w) (hs : s.RanBack env n m) : ∀ r ∈ s.cm.csrRequests, r.Known := by
  intro r hr
  obtain h | ⟨j, h⟩ := h
  · obtain ⟨ret, rest, stop, hflight, hcm⟩ := hs.commitSpec h
    have hfl := h.flight
    rw [hflight] at hfl
    rw [hcm.csrRequests] at hr
    exact hfl.csr_known _ r hr
  · obtain ⟨s', hcm, ⟨v⟩⟩ := hs.walkStages h
    rw [← hcm] at hr
    exact (v.csr_plain r (List.mem_append_left _ hr)).1

end Cycle

/-- The first run answers, and the second, a cycle longer, fails in this way. -/
def failsWith (err : Halt) : Except Halt (Machine × List CycleLog) → Except Halt (Machine × List CycleLog) → Bool
  | .ok _, .error e => e == err
  | _, _ => false

theorem exists_cycle_error {env : Env} {n : Nat} {err : Halt}
    (h : failsWith err (run env n) (run env (n + 1)) = true) :
    ∃ m logs, run env n = .ok (m, logs) ∧ cycle env n m = .error err := by
  cases hrun : run env n with
  | error e =>
    rw [hrun] at h
    cases h
  | ok x =>
    obtain ⟨m, logs⟩ := x
    refine ⟨m, logs, rfl, ?_⟩
    rw [run, hrun] at h
    cases hc : cycle env n m with
    | ok y =>
      simp only [bind, Except.bind, hc] at h
      cases h
    | error e =>
      simp only [bind, Except.bind, hc] at h
      rw [show e = err from beq_iff_eq.mp h]

/-- No assertion is violated in a run whose fetches are aligned, and none but the slave's in any run. In every
state that is reached, the feedback of commit is enabled if the issue queue is not empty, the CSR writes queued for
retired instructions are for writable registers, and a mispredicted jump that retires has a valid checkpoint with
31 visible registers. -/
theorem assertions_hold (env : Env) :
    (∀ n, (∀ k < n, ∀ m logs s pc, run env k = .ok (m, logs) → Stages.RanBack env k m s →
        Fetches m.fetch s.cm.fb pc → pc.toNat % 4 = 0) → ∀ file, run env n ≠ .error (.assertion file)) ∧
    (∀ n file, run env n = .error (.assertion file) → file = .slaveBase) ∧
    ∀ n m logs, run env n = .ok (m, logs) → ∃ s : Stages, s.RanBack env n m ∧
      (m.issue.issueQ.toList ≠ [] → s.cm.fb.enable = true) ∧
      (∀ addr v, .write addr v ∈ s.cm.csrRequests → Csrfile.writeCheck addr = true) ∧
      ∀ item ∈ s.cm.retired, Commit.Missed item → Commit.Recoverable m.checkpointBuffer item := by
  refine ⟨fun n hal file herr => ?_, fun n file herr => ?_, fun n m logs h => ?_⟩
  · -- in the cycle in which the run fails, fetch has seen a misaligned pc
    obtain ⟨k, hk, m, logs, hrun, hc⟩ := exists_cycle_of_run_error herr
    obtain ⟨-, s, pc, hback, hpc, hbad⟩ := (run_refines hrun).cycle_assertion hc
    exact hbad.1 (hal k hk m logs s pc hrun hback hpc)
  · obtain herr | herr := run_error herr
    · exact Halt.assertion.inj herr
    · cases herr
  · obtain ⟨s, hs⟩ := (run_refines h).exists_ranBack env n
    exact ⟨s, hs, (run_refines h).enable hs, fun addr v hr => (run_refines h).csr_known hs _ hr,
      fun item hi hmiss => Commit.run_missed hs.commit hi hmiss⟩

/-- The four cycles in which the program is fetched, and the mispredicted branch that retires in cycle 10. -/
theorem assertions_hold_branchOnly :
    (∀ file, run (Env.ofProgram branchOnly) 4 ≠ .error (.assertion file)) ∧
    ∃ m logs s item, run (Env.ofProgram branchOnly) 10 = .ok (m, logs) ∧
      Stages.RanBack (Env.ofProgram branchOnly) 10 m s ∧ item ∈ s.cm.retired ∧ Commit.Missed item ∧
      Commit.Recoverable m.checkpointBuffer item := by
  obtain ⟨haligned, -, hstates⟩ := assertions_hold (Env.ofProgram branchOnly)
  constructor
  · have hpcs : ∀ k < 4, endsWith (fun m _ => m.fetch.pc.toNat % 4 == 0) (run (Env.ofProgram branchOnly) k) = true := by
      decide +kernel
    refine haligned 4 fun k hk m logs s pc h _ hpc => ?_
    obtain ⟨m₀, logs₀, h₀, hP⟩ := exists_run_of (hpcs k hk)
    cases h₀.symm.trans h
    rw [hpc.state] at hP
    exact beq_iff_eq.mp hP
  · obtain ⟨m, logs, m', log, h, hc, hP⟩ := exists_cycle_ok (show lastCycle (fun log =>
      log.retired.any fun x => x.bruOp && x.predicted && !Commit.predictionHit x)
      (run (Env.ofProgram branchOnly) (10 + 1)) = true by decide +kernel)
    obtain ⟨item, hitem, hmiss⟩ := List.any_eq_true.mp hP
    simp only [Bool.and_eq_true, Bool.not_eq_true'] at hmiss
    obtain ⟨s', u, hran, -, -, rfl⟩ := cycle_ok_iff.mp hc
    obtain ⟨s, hs, -, -, hrec⟩ := hstates 10 m logs h
    have hcm : s'.cm = s.cm := by rw [hs.unique hran.toRanBack]
    have hitem : item ∈ s.cm.retired := by
      rw [← hcm]
      exact hitem
    have hmiss : Commit.Missed item := ⟨hmiss.1.1, hmiss.1.2, hmiss.2⟩
    exact ⟨m, logs, s, item, h, hs, hitem, hmiss, hrec item hitem hmiss⟩

end MyRiscvCore
