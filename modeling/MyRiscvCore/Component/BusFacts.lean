import MyRiscvCore.Component.Bus

/-!
# MyRiscvCore — facts about the bus

An access ends the simulation only through the assertions of the addressed slave; an aligned access to
a mapped address passes them.
-/

namespace MyRiscvCore

namespace Bus

theorem slaveCheck_cases (info : SlaveInfo) (offset : Word) (size : AccessSize) :
    slaveCheck info offset size = .ok () ∨
      slaveCheck info offset size = .error (.assertion .slaveBase) := by
  unfold slaveCheck assert
  split
  · split
    · split
      · exact .inl rfl
      · exact .inr rfl
    · exact .inr rfl
  · exact .inr rfl

theorem read_cases (b : Bus) (addr : Word) (size : AccessSize) :
    (∃ v, b.read addr size = .ok v) ∨ b.read addr size = .error (.assertion .slaveBase) := by
  unfold read
  cases findSlaveInfo slaveInfoList addr with
  | none => exact .inl ⟨0, rfl⟩
  | some info =>
    obtain h | h := slaveCheck_cases info (addr - info.base) size
    · simp only [h]
      refine .inl ?_
      cases info.slave <;> cases size <;> exact ⟨_, rfl⟩
    · simp only [h]
      exact .inr rfl

end Bus

end MyRiscvCore
