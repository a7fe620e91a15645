import MyRiscvCore.Component.Bus
import MyRiscvCore.Lib.Framing
import MyRiscvCore.Lib.Numeral

/-!
# MyRiscvCore — the texts of the debugger

The debugger talks to its client in packets: 4 bytes with the length, the lowest first, and a text. A text is split
into words as the stream loops of `main.cpp` do it, and the numbers in it are read and printed as `>>` and `<<` read
and print them.
-/

namespace MyRiscvCore

/-- A `std::string`. -/
abbrev Text := List Byte

def ascii (c : Char) : Byte := BitVec.ofNat 8 c.toNat

/-- A literal of the source. -/
def text (s : String) : Text := s.toList.map ascii

/-- `isspace`. -/
def isSpace (b : Byte) : Bool :=
  b == 0x20 || (0x09 ≤ b && b ≤ 0x0d)

/-- `while(!stream.eof()) { stream >> t; push_back(t); }`: if blanks end the text, the last read leaves `t` empty. -/
def cmdArgList (revStr : Text) : List Text :=
  Numeral.fields isSpace revStr

/-! ## Numbers -/

/-- The digit that a character stands for. -/
def digitValue (b : Byte) : Option Nat :=
  if 0x30 ≤ b ∧ b ≤ 0x39 then some (b.toNat - 0x30)
  else if 0x61 ≤ b ∧ b ≤ 0x66 then some (b.toNat - 0x61 + 10)
  else if 0x41 ≤ b ∧ b ≤ 0x46 then some (b.toNat - 0x41 + 10)
  else none

/-- The digit, if the base has it. -/
def digitIn (base : Nat) (b : Byte) : Option Nat :=
  (digitValue b).filter (· < base)

/-- The character of a digit; `a` is that of the digit 10. -/
def digitByte (a : Char) (d : Nat) : Byte :=
  if d < 10 then ascii '0' + BitVec.ofNat 8 d else ascii a + BitVec.ofNat 8 (d - 10)

/-- `<< std::hex`. -/
def hex (n : Nat) : Text := Numeral.print 16 (digitByte 'a') n

/-- `<< outhex`. -/
def outhex (n : Nat) : Text := Numeral.print 16 (digitByte 'A') n

/-- `<<` of an unsigned number. -/
def dec (n : Nat) : Text := Numeral.print 10 (digitByte 'a') n

/-- `<<` of an `int`. -/
def decInt (i : Int) : Text :=
  if i < 0 then ascii '-' :: dec i.natAbs else dec i.natAbs

/-- The sign in front of a number. -/
def readSign : Text → Bool × Text
  | [] => (false, [])
  | b :: t => if b == ascii '-' then (true, t) else if b == ascii '+' then (false, t) else (false, b :: t)

/-- The `0x` in front of a hexadecimal number. -/
def dropBase : Text → Text
  | b :: x :: t => if b == ascii '0' && (x == ascii 'x' || x == ascii 'X') then t else b :: x :: t
  | t => t

/-- `>>` into a `uint32_t` that is 0: a number that does not fit gives the greatest one, a minus sign counts modulo
2^32, and without digits the value is 0. -/
def readUnsigned (base : Nat) (t : Text) : Word :=
  let (negative, digits) := readSign (t.dropWhile isSpace)
  let digits := if base = 16 then dropBase digits else digits
  let value := (Numeral.readFrom base (digitIn base) 0 digits).1
  if value < 2 ^ 32 then (if negative then -BitVec.ofNat 32 value else BitVec.ofNat 32 value) else 0xFFFFFFFF

section Numbers

variable {base d : Nat} {ds : List Nat}

theorem digitIn_digitByte (h : d < base) (hbase : base ≤ 16) : digitIn base (digitByte 'a' d) = some d := by
  have hd : d < 16 := by omega
  have hvalue : digitValue (digitByte 'a' d) = some d := by
    interval_cases d <;> rfl
  rw [digitIn, hvalue, Option.filter_some, if_pos (by simpa using h)]

/-- The characters that a digit is not. -/
theorem digitByte_plain (h : d < 16) : isSpace (digitByte 'a' d) = false ∧ digitByte 'a' d ≠ ascii '-' ∧
    digitByte 'a' d ≠ ascii '+' ∧ digitByte 'a' d ≠ ascii 'x' ∧ digitByte 'a' d ≠ ascii 'X' := by
  interval_cases d <;> decide

theorem dropBase_digits (h : ∀ d ∈ ds, d < 16) : dropBase (ds.map (digitByte 'a')) = ds.map (digitByte 'a') := by
  match ds, h with
  | [], _ => rfl
  | [_], _ => rfl
  | d :: x :: ds, h =>
    obtain ⟨-, -, -, hx, hX⟩ := digitByte_plain (h x (by simp))
    simp [dropBase, hx, hX]

/-- Digits are read as their number. -/
theorem readUnsigned_digits (h : ∀ d ∈ ds, d < base) (hbase : base ≤ 16)
    (hfit : ds.foldl (fun acc d => d + base * acc) 0 < 2 ^ 32) :
    readUnsigned base (ds.map (digitByte 'a')) = BitVec.ofNat 32 (ds.foldl (fun acc d => d + base * acc) 0) := by
  have h16 (d : Nat) (hd : d ∈ ds) : d < 16 := by
    have hlt := h d hd
    omega
  have hsign : readSign ((ds.map (digitByte 'a')).dropWhile isSpace) = (false, ds.map (digitByte 'a')) := by
    cases ds with
    | nil => rfl
    | cons d ds =>
      obtain ⟨hspace, hminus, hplus, -, -⟩ := digitByte_plain (h16 d List.mem_cons_self)
      rw [List.map_cons, List.dropWhile_cons, if_neg (by rw [hspace]; decide)]
      simp [readSign, hminus, hplus]
  have hbasePart : (if base = 16 then dropBase (ds.map (digitByte 'a')) else ds.map (digitByte 'a')) =
      ds.map (digitByte 'a') := by
    split_ifs
    · exact dropBase_digits h16
    · rfl
  have hread := Numeral.readFrom_map (b := base) (fun d hd => digitIn_digitByte (h d hd) hbase)
    (show ∀ a ∈ ([] : Text).head?, digitIn base a = none by simp) 0
  rw [List.append_nil] at hread
  simp only [readUnsigned, hsign, hbasePart, hread, if_pos hfit, Bool.false_eq_true, if_false]

/-- What is printed in hexadecimal is read back. -/
theorem readUnsigned_hex (w : Word) : readUnsigned 16 (hex w.toNat) = w := by
  obtain ⟨ds, hprint, -, hlt, hvalue⟩ := Numeral.print_eq_map (show 1 < 16 by decide) (digitByte 'a') w.toNat
  rw [hex, hprint, readUnsigned_digits hlt (le_refl 16) (hvalue ▸ w.isLt), hvalue, BitVec.ofNat_toNat,
    BitVec.setWidth_eq]

/-- The same for decimal numbers. -/
theorem readUnsigned_dec (w : Word) : readUnsigned 10 (dec w.toNat) = w := by
  obtain ⟨ds, hprint, -, hlt, hvalue⟩ := Numeral.print_eq_map (show 1 < 10 by decide) (digitByte 'a') w.toNat
  rw [dec, hprint, readUnsigned_digits hlt (by decide) (hvalue ▸ w.isLt), hvalue, BitVec.ofNat_toNat,
    BitVec.setWidth_eq]

/-- Digits are one word. -/
theorem print_plain {b : Nat} (hb : 1 < b) (hbase : b ≤ 16) (n : Nat) : Numeral.print b (digitByte 'a') n ≠ [] ∧
    ∀ x ∈ Numeral.print b (digitByte 'a') n, isSpace x = false := by
  obtain ⟨ds, hprint, hne, hlt, -⟩ := Numeral.print_eq_map hb (digitByte 'a') n
  rw [hprint]
  refine ⟨by simpa using hne, fun x hx => ?_⟩
  obtain ⟨d, hd, rfl⟩ := List.mem_map.mp hx
  exact (digitByte_plain ((hlt d hd).trans_le hbase)).1

end Numbers

/-! ## Packets -/

/-- The word of four bytes, the lowest first. -/
def wordOf (b0 b1 b2 b3 : Byte) : Word := b3 ++ b2 ++ b1 ++ b0

theorem byteOf_wordOf (b0 b1 b2 b3 : Byte) : byteOf (wordOf b0 b1 b2 b3) 0 = b0 ∧
    byteOf (wordOf b0 b1 b2 b3) 1 = b1 ∧ byteOf (wordOf b0 b1 b2 b3) 2 = b2 ∧ byteOf (wordOf b0 b1 b2 b3) 3 = b3 := by
  refine ⟨?_, ?_, ?_, ?_⟩ <;>
  · refine BitVec.eq_of_getLsbD_eq fun j hj => ?_
    rw [byteOf, wordOf, BitVec.getLsbD_extractLsb', decide_eq_true hj, Bool.true_and, BitVec.getLsbD_append,
      BitVec.getLsbD_append, BitVec.getLsbD_append]
    grind

theorem wordOf_byteOf (w : Word) : wordOf (byteOf w 0) (byteOf w 1) (byteOf w 2) (byteOf w 3) = w := by
  refine BitVec.eq_of_getLsbD_eq fun j hj => ?_
  have hbyte (k i : Nat) : (byteOf w k).getLsbD i = (decide (i < 8) && w.getLsbD (8 * k + i)) := by
    rw [byteOf, BitVec.getLsbD_extractLsb']
  rw [wordOf, BitVec.getLsbD_append, BitVec.getLsbD_append, BitVec.getLsbD_append, hbyte, hbyte, hbyte, hbyte]
  grind

/-- `*(uint32_t *)packet_length`. -/
def packetLength : Text → Nat
  | [b0, b1, b2, b3] => (wordOf b0 b1 b2 b3).toNat
  | _ => 0

/-- The four bytes of a `uint32_t`. -/
def lengthBytes (w : Word) : Text := [byteOf w 0, byteOf w 1, byteOf w 2, byteOf w 3]

/-- A packet as `send_cmd_result` sends it and `tcp_server_thread_receive_entry` receives it. -/
def packetFormat : Framing.Format Byte where
  headerSize := 4
  header n := lengthBytes (BitVec.ofNat 32 n)
  payloadLength := packetLength
  headerSize_pos := by decide
  length_header _ := rfl
  header_payloadLength h hlen := by
    match h, hlen with
    | [b0, b1, b2, b3], _ =>
      obtain ⟨h0, h1, h2, h3⟩ := byteOf_wordOf b0 b1 b2 b3
      rw [packetLength, BitVec.ofNat_toNat, BitVec.setWidth_eq, lengthBytes, h0, h1, h2, h3]

theorem packetFormat_fits {n : Nat} (h : n < 2 ^ 32) : packetFormat.Fits n := by
  show packetLength (lengthBytes (BitVec.ofNat 32 n)) = n
  rw [lengthBytes, packetLength, wordOf_byteOf, BitVec.toNat_ofNat, Nat.mod_eq_of_lt h]

end MyRiscvCore
