import MyRiscvCore.Properties.DebugView

/-!
# MyRiscvCore — memory through the debugger

`memory_round_trip`: bytes that a client writes with `write_memory` are those that `read_memory` shows it, as texts,
and nothing else changes.
-/

namespace MyRiscvCore

/-- A tag: a word without blanks. -/
def IsWord (t : Text) : Prop := t ≠ [] ∧ ∀ x ∈ t, isSpace x = false

instance (t : Text) : Decidable (IsWord t) := inferInstanceAs (Decidable (_ ∧ _))

/-- The two digits of a byte. -/
def hexPair (v : Byte) : Text := [digitByte 'a' (v.toNat / 16), digitByte 'a' (v.toNat % 16)]

/-- A command with two arguments. -/
def command (tag cmd arg arg' : Text) : Text :=
  [ascii ' '].intercalate ([tag, cmd, arg] ++ [arg'])

def writeMemoryPacket (tag : Text) (address : Word) (values : List Byte) : Text :=
  command tag (text "write_memory") (hex address.toNat) (values.flatMap hexPair)

def readMemoryPacket (tag : Text) (address size : Word) : Text :=
  command tag (text "read_memory") (hex address.toNat) (dec size.toNat)

section Format

variable {tag cmd arg arg' : Text}

theorem cmdArgList_command (htag : IsWord tag) (hcmd : IsWord cmd) (harg : IsWord arg)
    (harg' : ∀ x ∈ arg', isSpace x = false) : cmdArgList (command tag cmd arg arg') = [tag, cmd, arg, arg'] :=
  Numeral.fields_intercalate (b := ascii ' ') rfl (by simpa using ⟨htag, hcmd, harg⟩) harg'

theorem hexPair_plain (values : List Byte) : ∀ x ∈ values.flatMap hexPair, isSpace x = false := by
  intro x hx
  obtain ⟨v, -, hx⟩ := List.mem_flatMap.mp hx
  have hlt := v.isLt
  simp only [hexPair, List.mem_cons, List.not_mem_nil, or_false] at hx
  obtain rfl | rfl := hx <;> exact (digitByte_plain (by omega)).1

theorem readUnsigned_hexPair (v : Byte) : readUnsigned 16 (hexPair v) = v.setWidth 32 := by
  have hlt := v.isLt
  have hvalue : [v.toNat / 16, v.toNat % 16].foldl (fun acc d => d + 16 * acc) 0 = v.toNat := by
    simp only [List.foldl_cons, List.foldl_nil]
    omega
  show readUnsigned 16 ([v.toNat / 16, v.toNat % 16].map (digitByte 'a')) = v.setWidth 32
  rw [readUnsigned_digits (by simp; omega) (le_refl 16) (by rw [hvalue]; omega), hvalue, BitVec.ofNat_toNat]

theorem pairs_hexPair (values : List Byte) : pairs (values.flatMap hexPair) = values.map hexPair := by
  induction values with
  | nil => rfl
  | cons v values ih => simp [hexPair, pairs, ← ih]

end Format

section Memory

variable {mem : Memory} {a x : Word} {values : List Word}

theorem byteAt_applyStore (mem : Memory) (a x v : Word) : byteAt (applyStore mem ⟨a, .byte, v⟩) x =
    if x = a ∧ findSlaveInfo slaveInfoList x = some memoryInfo then byteOf v 0 else byteAt mem x := by
  unfold byteAt
  cases hx : findSlaveInfo slaveInfoList x with
  | none => rw [if_neg (by simp)]
  | some info =>
    dsimp only
    by_cases hm : info.slave = .memory
    · obtain ⟨rfl, hlow, -⟩ := findSlaveInfo_memory hx hm
      rw [if_pos hm, if_pos hm, applyStore]
      -- a byte store changes one byte, if it is in memory
      by_cases heq : x = a
      · subst heq
        rw [hx, if_pos ⟨rfl, rfl⟩]
        dsimp only
        rw [if_pos hm, Memory.write, if_pos ⟨le_refl _, Nat.lt_succ_self _⟩, Nat.sub_self]
      · rw [if_neg fun h => heq h.1]
        cases ha : findSlaveInfo slaveInfoList a with
        | none => rfl
        | some info' =>
          dsimp only
          split_ifs with hm'
          · obtain ⟨rfl, hlow', -⟩ := findSlaveInfo_memory ha hm'
            have hoff {y : Word} (hy : 2147483648 ≤ y.toNat) : (y - memoryInfo.base).toNat = y.toNat - 2147483648 :=
              BitVec.toNat_sub_of_le hy
            rw [Memory.write, if_neg]
            rw [hoff hlow, hoff hlow', AccessSize.bytes]
            rintro ⟨hle, hlt⟩
            exact heq (BitVec.eq_of_toNat_eq (by omega))
          · rfl
    · rw [if_neg hm, if_neg hm, if_neg]
      rintro ⟨-, h⟩
      cases h
      exact hm rfl

theorem next_address (a : Word) (i : Nat) : a + BitVec.ofNat 32 (i + 1) = a + 1 + BitVec.ofNat 32 i := by
  rw [BitVec.ofNat_add, BitVec.add_comm (BitVec.ofNat 32 i), ← BitVec.add_assoc]
  rfl

/-- The bytes elsewhere stay. -/
theorem byteAt_writeImage_of_ne (h : ∀ i < values.length, x ≠ a + BitVec.ofNat 32 i) :
    byteAt (writeImage mem a values) x = byteAt mem x := by
  induction values generalizing mem a with
  | nil => rfl
  | cons v values ih =>
    have hne : x ≠ a := by simpa using h 0 (by simp)
    rw [writeImage, ih fun i hi => ?_, byteAt_applyStore, if_neg fun hx => hne hx.1]
    rw [← next_address]
    exact h (i + 1) (by simpa using hi)

/-- Each byte is at its address. -/
theorem byteAt_writeImage {i : Nat} (hi : i < values.length) (hlen : values.length ≤ 2 ^ 32)
    (hx : findSlaveInfo slaveInfoList (a + BitVec.ofNat 32 i) = some memoryInfo) :
    byteAt (writeImage mem a values) (a + BitVec.ofNat 32 i) = byteOf values[i] 0 := by
  induction values generalizing mem a i with
  | nil => cases hi
  | cons v values ih =>
    rw [List.length_cons] at hi hlen
    cases i with
    | zero =>
      have hzero : a + BitVec.ofNat 32 0 = a := BitVec.add_zero a
      rw [hzero] at hx ⊢
      rw [writeImage, byteAt_writeImage_of_ne, byteAt_applyStore, if_pos ⟨rfl, hx⟩]
      · rfl
      · -- the later addresses do not come round
        intro j hj heq
        have hnat := congrArg BitVec.toNat heq
        rw [← next_address, BitVec.toNat_add, BitVec.toNat_ofNat] at hnat
        have hlt := a.isLt
        omega
    | succ i =>
      rw [next_address] at hx ⊢
      exact ih (by omega) (by omega) hx

end Memory

/-- The debugger with another memory. -/
def Debugger.withMemory (d : Debugger) (mem : Memory) : Debugger :=
  { d with machine := { d.machine with bus := { d.machine.bus with memory := mem } } }

/-- The reply is posted to `send_ioc`. -/
def Debugger.post (d : Debugger) (reply : Text) : Debugger :=
  { d with sendIoc := d.sendIoc ++ [reply] }

def writeReply (tag : Text) : Text := replyText tag (text "write_memory") (text "ok")

def readReply (tag : Text) (address : Word) (values : List Byte) : Text :=
  replyText tag (text "read_memory") (hex address.toNat ++ values.flatMap fun v => ascii ',' :: hex v.toNat)

section RoundTrip

variable {env : DebugEnv} {d : Debugger} {tag : Text} {a : Word}

/-- A command that is found is executed and its result posted. -/
theorem handle_command {d' : Debugger} {cmd arg arg' ret : Text} {c : SocketCmd} (htag : IsWord tag)
    (hcmd : IsWord cmd ∧ findCmd cmd = some c) (harg : IsWord arg) (harg' : ∀ x ∈ arg', isSpace x = false)
    (h : socketCmd env c [arg, arg'] d = .ok (d', ret)) : socketCmdHandle env (command tag cmd arg arg') d =
      .ok (d'.post (replyText tag cmd ret), some (replyText tag cmd ret)) := by
  simp only [socketCmdHandle, cmdArgList_command htag hcmd.1 harg harg', socketCmdCall, hcmd.2, h]
  rfl

theorem isWord_hex (n : Nat) : IsWord (hex n) := print_plain (by decide) (le_refl 16) n

/-- `write_memory` puts the bytes into the memory. -/
theorem handle_writeMemory (htag : IsWord tag) (values : List Byte) :
    socketCmdHandle env (writeMemoryPacket tag a values) d =
      .ok ((d.withMemory (writeImage d.machine.bus.memory a (values.map (·.setWidth 32)))).post (writeReply tag),
        some (writeReply tag)) := by
  have hvalues : (pairs (values.flatMap hexPair)).map (readUnsigned 16) = values.map (·.setWidth 32) := by
    rw [pairs_hexPair, List.map_map]
    exact List.map_congr_left fun v _ => readUnsigned_hexPair v
  refine handle_command (c := .writeMemory) htag (by decide +kernel) (isWord_hex _) (hexPair_plain values) ?_
  show socketCmdWriteMemory [hex a.toNat, values.flatMap hexPair] d = _
  simp only [socketCmdWriteMemory, List.getD_cons_zero, List.getD_cons_succ, readUnsigned_hex, hvalues, writeBytes_eq]
  rfl

/-- `read_memory` shows the bytes of the memory. -/
theorem handle_readMemory (htag : IsWord tag) (size : Word) {values : List Byte}
    (hvalues : (readRange a size).map (byteAt d.machine.bus.memory) = values) :
    socketCmdHandle env (readMemoryPacket tag a size) d =
      .ok (d.post (readReply tag a values), some (readReply tag a values)) := by
  refine handle_command (c := .readMemory) htag (by decide +kernel) (isWord_hex _)
    (print_plain (by decide) (by decide) _).2 ?_
  show socketCmdReadMemory [hex a.toNat, dec size.toNat] d = _
  simp only [socketCmdReadMemory, List.getD_cons_zero, List.getD_cons_succ, readUnsigned_hex, readUnsigned_dec,
    mapM_eq_map fun x _ => Bus.read8_eq d.machine.bus x]
  show Except.ok (d, _ ++ List.flatMap _ ((readRange a size).map _)) = _
  rw [← hvalues, List.flatMap_map, List.flatMap_map]
  simp only [BitVec.toNat_setWidth_of_le (show 8 ≤ 32 by decide)]

/-- The addresses of the bytes. -/
theorem readRange_eq {k : Nat} (hk : a.toNat + k < 2 ^ 32) :
    readRange a (BitVec.ofNat 32 k) = (List.range k).map fun i => a + BitVec.ofNat 32 i := by
  have hlen : (a + BitVec.ofNat 32 k).toNat - a.toNat = k := by
    rw [BitVec.toNat_add, BitVec.toNat_ofNat]
    omega
  rw [readRange, hlen]

theorem byteOf_setWidth (v : Byte) : byteOf (v.setWidth 32) 0 = v := by
  refine BitVec.eq_of_getLsbD_eq fun j hj => ?_
  rw [byteOf, BitVec.getLsbD_extractLsb', BitVec.getLsbD_setWidth]
  grind

/-- What is written is read, and nothing else changes. -/
theorem memory_round_trip {tag' : Text} {values : List Byte} (htag : IsWord tag) (htag' : IsWord tag')
    (hlow : 0x80000000 ≤ a.toNat) (hhigh : a.toNat + values.length ≤ 0x80100000) :
    ∃ mem, socketCmdHandle env (writeMemoryPacket tag a values) d =
        .ok ((d.withMemory mem).post (writeReply tag), some (writeReply tag)) ∧
      socketCmdHandle env (readMemoryPacket tag' a (BitVec.ofNat 32 values.length))
          ((d.withMemory mem).post (writeReply tag)) =
        .ok (((d.withMemory mem).post (writeReply tag)).post (readReply tag' a values),
          some (readReply tag' a values)) ∧
      ∀ x, (∀ i < values.length, x ≠ a + BitVec.ofNat 32 i) → byteAt mem x = byteAt d.machine.bus.memory x := by
  refine ⟨_, handle_writeMemory htag values, handle_readMemory htag' _ ?_, fun x hx => ?_⟩
  · rw [readRange_eq (by omega), List.map_map]
    refine List.ext_getElem (by simp) fun i hi hi' => ?_
    rw [List.getElem_map, List.getElem_range]
    have hnat : (a + BitVec.ofNat 32 i).toNat = a.toNat + i := by
      rw [BitVec.toNat_add, BitVec.toNat_ofNat]
      omega
    refine (byteAt_writeImage (by simpa using hi') (by rw [List.length_map]; omega)
      (findSlaveInfo_of_mem (by omega) (by omega))).trans ?_
    rw [List.getElem_map, byteOf_setWidth]
  · exact byteAt_writeImage_of_ne (by simpa using hx)

/-- An instruction is written to the start of the memory and read back. -/
theorem memory_round_trip_instruction : ∃ d obs mem, Debugger.run (.ofProgram []) [] = .ok (d, obs) ∧
    socketCmdHandle (.ofProgram []) (text "1 write_memory 80000000 93002000") d =
      .ok ((d.withMemory mem).post (text "1 write_memory ok"), some (text "1 write_memory ok")) ∧
    socketCmdHandle (.ofProgram []) (text "2 read_memory 80000000 4")
        ((d.withMemory mem).post (text "1 write_memory ok")) =
      .ok (((d.withMemory mem).post (text "1 write_memory ok")).post (text "2 read_memory 80000000,93,0,20,0"),
        some (text "2 read_memory 80000000,93,0,20,0")) := by
  obtain ⟨d, obs, h, -⟩ := exists_session_of (.ofProgram []) [] (P := fun _ _ => true) (by decide +kernel)
  obtain ⟨mem, hwrite, hread, -⟩ := @memory_round_trip (.ofProgram []) d (text "1") 0x80000000 (text "2")
    [0x93, 0x00, 0x20, 0x00] (by decide) (by decide) (by decide) (by decide)
  exact ⟨d, obs, mem, h, hwrite, hread⟩

end RoundTrip

end MyRiscvCore
