import Mathlib.Data.List.Basic
import Mathlib.Tactic.Common

/-!
# Framing — packets in a stream that arrives in pieces

A packet is sent as a header of fixed size, which holds the length, and the payload. The receiver asks the stream for
what is missing of the header, then for what is missing of the payload, and gets any part of it: a piece never goes
beyond the current frame, but where the stream is cut is not up to the receiver.

* **`Format`** — what the two sides agree on.
* **`receiveAll_bytes`** — the bytes that a receiver has seen are the frames of the packets it has put out, followed
  by a part of a frame.
* **`receiveAll_sent`** — as frames are prefix-free, the packets of a sender come out unchanged and in order, however
  the stream is cut.
-/

namespace Framing

variable {α : Type}

/-- How a length is written in front of a payload. Every header of the right size is the header of its length. -/
structure Format (α : Type) where
  headerSize : Nat
  header : Nat → List α
  payloadLength : List α → Nat
  headerSize_pos : 0 < headerSize
  length_header : ∀ n, (header n).length = headerSize
  header_payloadLength : ∀ h : List α, h.length = headerSize → header (payloadLength h) = h

namespace Format

/-- A length that its header gives back. -/
def Fits (f : Format α) (n : Nat) : Prop := f.payloadLength (f.header n) = n

/-- A packet on the stream. -/
def frame (f : Format α) (packet : List α) : List α :=
  f.header packet.length ++ packet

end Format

/-- What the receiver has of the current frame. -/
inductive Receiver (α : Type)
  | header (got : List α)
  | payload (length : Nat) (got : List α)

namespace Receiver

/-- How much the receiver asks for. -/
def room (f : Format α) : Receiver α → Nat
  | .header got => f.headerSize - got.length
  | .payload length got => length - got.length

/-- A piece arrives; the packet that it completes. -/
def receive (f : Format α) : Receiver α → List α → Receiver α × Option (List α)
  | .header got, chunk =>
    if (got ++ chunk).length = f.headerSize then (.payload (f.payloadLength (got ++ chunk)) [], none)
    else (.header (got ++ chunk), none)
  | .payload length got, chunk =>
    if (got ++ chunk).length = length then (.header [], some (got ++ chunk))
    else (.payload length (got ++ chunk), none)

/-- What the stream may answer: no more than what was asked for, and something if anything was. -/
def Accepts (f : Format α) (r : Receiver α) (chunk : List α) : Prop :=
  chunk.length ≤ r.room f ∧ (chunk = [] → r.room f = 0)

instance [DecidableEq α] (f : Format α) (r : Receiver α) (chunk : List α) : Decidable (r.Accepts f chunk) :=
  inferInstanceAs (Decidable (_ ∧ _))

/-- Pieces arrive one after the other; the packets that they complete. -/
def receiveAll (f : Format α) (r : Receiver α) : List (List α) → Receiver α × List (List α)
  | [] => (r, [])
  | chunk :: chunks =>
    let next := r.receive f chunk
    let rest := receiveAll f next.1 chunks
    (rest.1, next.2.toList ++ rest.2)

/-- Every piece is one that the stream may answer. -/
def AcceptsAll (f : Format α) (r : Receiver α) : List (List α) → Prop
  | [] => True
  | chunk :: chunks => r.Accepts f chunk ∧ AcceptsAll f (r.receive f chunk).1 chunks

/-- The part of a frame that has arrived. -/
def pending (f : Format α) : Receiver α → List α
  | .header got => got
  | .payload length got => f.header length ++ got

/-- The part is less than a frame, or a frame without payload before its end is seen. -/
def Ok (f : Format α) : Receiver α → Prop
  | .header got => got.length < f.headerSize
  | .payload length got => f.Fits length ∧ (got.length < length ∨ length = 0 ∧ got = [])

end Receiver

section Frame

variable {f : Format α} {p q u v : List α} {ps qs : List (List α)}

theorem frame_ne_nil (f : Format α) (p : List α) : f.frame p ≠ [] := by
  intro h
  have hlen := congrArg List.length h
  rw [Format.frame, List.length_append, f.length_header, List.length_nil] at hlen
  have hpos := f.headerSize_pos
  omega

/-- Where a frame ends is known from the frame. -/
theorem frame_append_inj (hp : f.Fits p.length) (hq : f.Fits q.length) (h : f.frame p ++ u = f.frame q ++ v) :
    p = q ∧ u = v := by
  rw [Format.frame, Format.frame, List.append_assoc, List.append_assoc] at h
  obtain ⟨hheader, hrest⟩ := List.append_inj h (by rw [f.length_header, f.length_header])
  have hlength : p.length = q.length := by rw [← hp, hheader, hq]
  exact List.append_inj hrest hlength

/-- So packets can be read off the stream from its beginning. -/
theorem prefix_of_frames (hps : ∀ p ∈ ps, f.Fits p.length) (hqs : ∀ q ∈ qs, f.Fits q.length)
    (h : ps.flatMap f.frame ++ u = qs.flatMap f.frame) : ∃ rest, qs = ps ++ rest ∧ u = rest.flatMap f.frame := by
  induction ps generalizing qs with
  | nil => exact ⟨qs, rfl, h⟩
  | cons p ps ih =>
    rw [List.flatMap_cons, List.append_assoc] at h
    cases qs with
    | nil => exact absurd (List.append_eq_nil_iff.mp h).1 (frame_ne_nil f p)
    | cons q qs =>
      rw [List.flatMap_cons] at h
      obtain ⟨rfl, hrest⟩ := frame_append_inj (hps p List.mem_cons_self) (hqs q List.mem_cons_self) h
      obtain ⟨rest, rfl, hu⟩ := ih (fun x hx => hps x (List.mem_cons_of_mem _ hx))
        (fun x hx => hqs x (List.mem_cons_of_mem _ hx)) hrest
      exact ⟨rest, rfl, hu⟩

end Frame

/-! ## The receiver

The bytes may arrive in any pieces; the frames come out the same. -/

namespace Receiver

variable {f : Format α} {r : Receiver α} {chunk : List α} {chunks : List (List α)}

theorem ok_start (f : Format α) : (Receiver.header []).Ok f := f.headerSize_pos

/-- A piece extends the part, or completes the packet. -/
theorem receive_ok (hr : r.Ok f) (hc : r.Accepts f chunk) : (r.receive f chunk).1.Ok f ∧
    (∀ p ∈ (r.receive f chunk).2, f.Fits p.length) ∧
    (r.receive f chunk).2.toList.flatMap f.frame ++ (r.receive f chunk).1.pending f = r.pending f ++ chunk := by
  obtain ⟨hle, hnil⟩ := hc
  cases r with
  | header got =>
    have hlt : got.length < f.headerSize := hr
    simp only [room] at hle hnil
    simp only [receive]
    split_ifs with hfull
    · -- the header is complete, and gives back its length
      have hheader := f.header_payloadLength _ hfull
      refine ⟨⟨congrArg f.payloadLength hheader, ?_⟩, by simp, by simp [pending, hheader]⟩
      exact (Nat.eq_zero_or_pos _).symm.imp_right fun hzero => ⟨hzero, rfl⟩
    · refine ⟨?_, by simp, by simp [pending]⟩
      rw [List.length_append] at hfull
      show (got ++ chunk).length < f.headerSize
      rw [List.length_append]
      omega
  | payload length got =>
    obtain ⟨hfits, hpart⟩ := hr
    simp only [room] at hle hnil
    simp only [receive]
    have hgot : got.length ≤ length := by
      obtain hlt | ⟨-, rfl⟩ := hpart
      · omega
      · exact Nat.zero_le _
    split_ifs with hfull
    · refine ⟨ok_start f, fun p hp => ?_, ?_⟩
      · rw [Option.mem_some] at hp
        rw [← hp, hfull]
        exact hfits
      · simp [pending, Format.frame, hfull]
    · refine ⟨⟨hfits, .inl ?_⟩, by simp, by simp [pending]⟩
      rw [List.length_append] at hfull ⊢
      omega

/-- After a packet the receiver is at the beginning of a frame. -/
theorem receive_some {p : List α} (h : (r.receive f chunk).2 = some p) : (r.receive f chunk).1 = .header [] := by
  cases r with
  | header got =>
    simp only [receive] at h
    split_ifs at h
  | payload length got =>
    simp only [receive] at h ⊢
    split_ifs at h ⊢ with hfull
    rfl

/-- The bytes seen are the frames of the packets put out, and the part of a frame. -/
theorem receiveAll_bytes (hr : r.Ok f) (hc : r.AcceptsAll f chunks) : (r.receiveAll f chunks).1.Ok f ∧
    (∀ p ∈ (r.receiveAll f chunks).2, f.Fits p.length) ∧
    (r.receiveAll f chunks).2.flatMap f.frame ++ (r.receiveAll f chunks).1.pending f =
      r.pending f ++ chunks.flatten := by
  induction chunks generalizing r with
  | nil => exact ⟨hr, by simp [receiveAll], by simp [receiveAll]⟩
  | cons chunk chunks ih =>
    obtain ⟨hok, hfits, hbytes⟩ := receive_ok hr hc.1
    obtain ⟨hok', hfits', hbytes'⟩ := ih hok hc.2
    refine ⟨hok', fun p hp => ?_, ?_⟩
    · obtain hp | hp := List.mem_append.mp hp
      · exact hfits p (Option.mem_toList.mp hp)
      · exact hfits' p hp
    · simp only [receiveAll, List.flatMap_append, List.append_assoc]
      rw [hbytes', ← List.append_assoc, hbytes, List.flatten_cons, List.append_assoc]

/-- One more piece. -/
theorem receiveAll_snoc : (r.receiveAll f (chunks ++ [chunk])) =
    (((r.receiveAll f chunks).1.receive f chunk).1,
      (r.receiveAll f chunks).2 ++ ((r.receiveAll f chunks).1.receive f chunk).2.toList) := by
  induction chunks generalizing r with
  | nil => simp [receiveAll]
  | cons first chunks ih => simp [receiveAll, ih]

theorem acceptsAll_snoc : r.AcceptsAll f (chunks ++ [chunk]) ↔
    r.AcceptsAll f chunks ∧ (r.receiveAll f chunks).1.Accepts f chunk := by
  induction chunks generalizing r with
  | nil => simp [AcceptsAll, receiveAll]
  | cons first chunks ih => simp [AcceptsAll, receiveAll, ih, and_assoc]

/-- From a stream of frames, however it is cut, the receiver puts out the packets from the first on. -/
theorem receiveAll_sent {ps : List (List α)} {v : List α} (hps : ∀ p ∈ ps, f.Fits p.length)
    (hc : (Receiver.header []).AcceptsAll f chunks) (h : chunks.flatten ++ v = ps.flatMap f.frame) :
    ∃ rest, ps = ((Receiver.header []).receiveAll f chunks).2 ++ rest ∧
      ((Receiver.header []).receiveAll f chunks).1.pending f ++ v = rest.flatMap f.frame := by
  obtain ⟨-, hfits, hbytes⟩ := receiveAll_bytes (ok_start f) hc
  refine prefix_of_frames hfits hps ?_
  rw [← h, ← List.append_assoc, hbytes]
  rfl

end Receiver

end Framing
