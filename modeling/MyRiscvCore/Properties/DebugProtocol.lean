import MyRiscvCore.Properties.DebugControl

/-!
# MyRiscvCore — the protocol of the debugger

From the client's side the debugger is a server that answers one packet after the other. `debugger_protocol` says that
the threads make it so, however they interleave and however the stream is cut: the packets that were handled are the
first ones that the client sent, in order and each once, the others are waiting in the order in which they were sent,
and the replies go out in the order of the packets. A reply begins with the first two words of its packet, so that the
client can tell which packet it answers.
-/

namespace MyRiscvCore

open Framing (Receiver)

/-- The reply answers the packet. -/
def Answers (packet : Text) : Option Text → Prop
  | some reply => ∃ tag cmd args ret, cmdArgList packet = tag :: cmd :: args ∧ reply = replyText tag cmd ret
  | none => (cmdArgList packet).length < 2

/-! ## Conservation -/

/-- The packets that the receive thread has cut out of the stream and not yet posted. -/
def RecvThread.inHand : RecvThread → List Text
  | .receiving _ => []
  | .received packet | .noticed packet => [packet]

/-- What it has of the next packet. -/
def RecvThread.receiver : RecvThread → Receiver Byte
  | .receiving r => r
  | .received _ | .noticed _ => .header []

/-- Where the packets and the replies are: every packet is in the hand of the receive thread, in the queue to the main
thread or handled, and every reply is in the queue to the server thread or sent. -/
structure Books (thread : RecvThread) (recvIoc sendIoc chunks posted : List Text)
    (handled : List (Text × Option Text)) (sent : List Text) : Prop where
  accepts : (Receiver.header []).AcceptsAll packetFormat chunks
  stream : (Receiver.header []).receiveAll packetFormat chunks = (thread.receiver, posted ++ thread.inHand)
  posted : posted = handled.map (·.1) ++ recvIoc
  replies : handled.filterMap (·.2) = sent ++ sendIoc
  answers : ∀ x ∈ handled, Answers x.1 x.2

section Books

variable {thread : RecvThread} {recvIoc sendIoc chunks posted sent : List Text} {handled : List (Text × Option Text)}
  {r : Receiver Byte} {chunk packet : Text}

/-- The receive thread takes a piece. -/
theorem Books.received (h : Books (.receiving r) recvIoc sendIoc chunks posted handled sent)
    (ha : r.Accepts packetFormat chunk) (thread : RecvThread)
    (hthread : (r.receive packetFormat chunk).1 = thread.receiver)
    (hpacket : (r.receive packetFormat chunk).2.toList = thread.inHand) :
    Books thread recvIoc sendIoc (chunks ++ [chunk]) posted handled sent := by
  have hr : ((Receiver.header []).receiveAll packetFormat chunks).1 = r := congrArg Prod.fst h.stream
  have hp : ((Receiver.header []).receiveAll packetFormat chunks).2 = posted :=
    (congrArg Prod.snd h.stream).trans (List.append_nil _)
  refine ⟨Receiver.acceptsAll_snoc.mpr ⟨h.accepts, hr ▸ ha⟩, ?_, h.posted, h.replies, h.answers⟩
  rw [Receiver.receiveAll_snoc, hr, hp, hthread, hpacket]

/-- It posts the packet. -/
theorem Books.post (h : Books (.noticed packet) recvIoc sendIoc chunks posted handled sent) :
    Books (.receiving (.header [])) (recvIoc ++ [packet]) sendIoc chunks (posted ++ [packet]) handled sent := by
  refine ⟨h.accepts, ?_, ?_, h.replies, h.answers⟩
  · rw [h.stream]
    exact congrArg (Prod.mk _) (List.append_nil _).symm
  · rw [h.posted, List.append_assoc]

/-- The main thread handles a packet. -/
theorem Books.handle {reply : Option Text} (h : Books thread (packet :: recvIoc) sendIoc chunks posted handled sent)
    (ha : Answers packet reply) :
    Books thread recvIoc (sendIoc ++ reply.toList) chunks posted (handled ++ [(packet, reply)]) sent := by
  refine ⟨h.accepts, h.stream, ?_, ?_, fun x hx => ?_⟩
  · rw [h.posted, List.map_append, List.append_assoc]
    rfl
  · rw [List.filterMap_append, h.replies, List.append_assoc]
    cases reply <;> rfl
  · obtain hx | hx := List.mem_append.mp hx
    · exact h.answers x hx
    · rw [List.mem_singleton.mp hx]
      exact ha

/-- The server thread sends a reply. -/
theorem Books.send {reply : Text} (h : Books thread recvIoc (reply :: sendIoc) chunks posted handled sent) :
    Books thread recvIoc sendIoc chunks posted handled (sent ++ [reply]) :=
  ⟨h.accepts, h.stream, h.posted, by rw [h.replies, List.append_assoc]; rfl, h.answers⟩

end Books

/-- The books of a session. -/
def Balanced (d : Debugger) (obs : List Obs) : Prop :=
  Books d.recvThread d.recvIoc d.sendIoc (chunksOf obs) (postedOf obs) (handledOf obs) (sentOf obs)

section Steps

variable {env : DebugEnv} {d d' : Debugger} {obs new : List Obs}

theorem socketCmdHandle_answers {packet : Text} {reply : Option Text}
    (h : socketCmdHandle env packet d = .ok (d', reply)) : Answers packet reply := by
  cases socketCmdHandle_cases h with
  | known hargs _ _ => exact ⟨_, _, _, _, hargs, rfl⟩
  | unknown hargs _ => exact ⟨_, _, _, _, hargs, rfl⟩
  | dropped hargs =>
    show (cmdArgList packet).length < 2
    cases hlist : cmdArgList packet with
    | nil => exact Nat.zero_lt_two
    | cons tag rest =>
      cases rest with
      | nil => exact Nat.one_lt_two
      | cons cmd args => exact absurd hlist (hargs tag cmd args)

theorem Balanced.step (h : Balanced d obs) (hs : Stepped env d d' new) : Balanced d' (obs ++ new) := by
  -- what is seen in the step is added to the lists
  suffices Books d'.recvThread d'.recvIoc d'.sendIoc (chunksOf obs ++ chunksOf new) (postedOf obs ++ postedOf new)
      (handledOf obs ++ handledOf new) (sentOf obs ++ sentOf new) by
    simpa only [Balanced, chunksOf, postedOf, handledOf, sentOf, List.filterMap_append] using this
  unfold Balanced at h
  cases hs with
  | @handle hloc hp packet rest hq d₁ reply hh =>
    have hd := socketCmdHandle_handled hh
    rw [hq] at h
    have hb := h.handle (socketCmdHandle_answers hh)
    show Books d₁.recvThread d₁.recvIoc d₁.sendIoc _ _ _ _
    rw [hd.recvThread, hd.recvIoc, hd.sendIoc]
    simpa [chunksOf, postedOf, handledOf, sentOf] using hb
  | @receive r hr chunk ha hn =>
    rw [hr] at h
    have hb := h.received ha (.receiving _) rfl (by rw [hn]; rfl)
    simpa [chunksOf, postedOf, handledOf, sentOf] using hb
  | @complete r hr chunk packet ha hn =>
    rw [hr] at h
    have hb := h.received ha (.received packet) (Receiver.receive_some hn) (by rw [hn]; rfl)
    simpa [chunksOf, postedOf, handledOf, sentOf] using hb
  | @notice packet hr hp =>
    rw [hr] at h
    have hb : Books (.noticed packet) _ _ _ _ _ _ := ⟨h.accepts, h.stream, h.posted, h.replies, h.answers⟩
    simpa [chunksOf, postedOf, handledOf, sentOf] using hb
  | @pass packet hr hp =>
    rw [hr] at h
    have hb : Books (.noticed packet) _ _ _ _ _ _ := ⟨h.accepts, h.stream, h.posted, h.replies, h.answers⟩
    simpa [chunksOf, postedOf, handledOf, sentOf] using hb
  | post hr =>
    rw [hr] at h
    simpa [chunksOf, postedOf, handledOf, sentOf] using h.post
  | send hq =>
    rw [hq] at h
    simpa [chunksOf, postedOf, handledOf, sentOf] using h.send
  | _ => simpa [chunksOf, postedOf, handledOf, sentOf] using h

theorem run_balanced {actions : List Action} (h : Debugger.run env actions = .ok (d, obs)) : Balanced d obs := by
  refine Debugger.run_induction ?_ (fun _ _ _ _ hb hs => hb.step hs) h
  intro d hd
  obtain ⟨m, -, hd⟩ := bind_eq_ok.mp hd
  cases hd
  exact ⟨trivial, rfl, rfl, rfl, by simp [handledOf]⟩

end Steps

/-- The client sends these packets, and the stream has been read to some point. The packets that were handled are the
first of them, in order; after them come those in the queue and in the hand of the receive thread. The replies, of
which each answers its packet, go out in the same order, and a client that reads them in any pieces gets them so: what
it has not put out is still unread, up to the beginning of one frame. -/
theorem debugger_protocol {env : DebugEnv} {actions : List Action} {d : Debugger} {obs : List Obs} {packets : List Text}
    {unread : Text} (h : Debugger.run env actions = .ok (d, obs)) (hlen : ∀ p ∈ packets, p.length < 2 ^ 32)
    (hsent : (chunksOf obs).flatten ++ unread = packets.flatMap packetFormat.frame) :
    (∃ rest, packets = (handledOf obs).map (·.1) ++ d.recvIoc ++ d.recvThread.inHand ++ rest ∧
      d.recvThread.receiver.pending packetFormat ++ unread = rest.flatMap packetFormat.frame) ∧
    (∀ x ∈ handledOf obs, Answers x.1 x.2) ∧
    (handledOf obs).filterMap (·.2) = sentOf obs ++ d.sendIoc ∧
    ∀ chunks v, (Receiver.header []).AcceptsAll packetFormat chunks → (∀ r ∈ sentOf obs, r.length < 2 ^ 32) →
      chunks.flatten ++ v = (sentOf obs).flatMap packetFormat.frame →
      ∃ rest, sentOf obs = ((Receiver.header []).receiveAll packetFormat chunks).2 ++ rest ∧
        ((Receiver.header []).receiveAll packetFormat chunks).1.pending packetFormat ++ v =
          rest.flatMap packetFormat.frame := by
  have hb := run_balanced h
  refine ⟨?_, hb.answers, hb.replies, fun chunks v ha hshort hstream => ?_⟩
  · obtain ⟨rest, hpackets, hpending⟩ := Receiver.receiveAll_sent (fun p hp => packetFormat_fits (hlen p hp))
      hb.accepts hsent
    rw [hb.stream] at hpackets hpending
    exact ⟨rest, by rw [hpackets, hb.posted], hpending⟩
  · exact Receiver.receiveAll_sent (fun r hr => packetFormat_fits (hshort r hr)) ha hstream

/-- Two packets have been sent; the first is answered and the second is in the hand of the receive thread. -/
theorem debugger_protocol_step : ∃ d obs, Debugger.run (.ofProgram [0x00100093]) (stepSession ++ [.send,
      .receive (packetFormat.header 8), .receive (text "2 get_pc")]) = .ok (d, obs) ∧
    (handledOf obs).map (·.1) = [text "1 step"] ∧ sentOf obs = [text "1 step ok"] ∧
    (∃ rest, [text "1 step", text "2 get_pc"] =
      (handledOf obs).map (·.1) ++ d.recvIoc ++ d.recvThread.inHand ++ rest) ∧
    (handledOf obs).filterMap (·.2) = sentOf obs ++ d.sendIoc := by
  obtain ⟨d, obs, h, hP⟩ := exists_session_of (.ofProgram [0x00100093])
    (stepSession ++ [.send, .receive (packetFormat.header 8), .receive (text "2 get_pc")])
    (P := fun _ obs => (handledOf obs).map (·.1) == [text "1 step"] && sentOf obs == [text "1 step ok"] &&
      (chunksOf obs).flatten == [text "1 step", text "2 get_pc"].flatMap packetFormat.frame) (by decide +kernel)
  simp only [Bool.and_eq_true, beq_iff_eq] at hP
  obtain ⟨⟨hhandled, hsent⟩, hchunks⟩ := hP
  have hlen : ∀ p ∈ [text "1 step", text "2 get_pc"], p.length < 2 ^ 32 := by decide
  obtain ⟨⟨rest, hpackets, -⟩, -, hreplies, -⟩ := debugger_protocol h hlen ((List.append_nil _).trans hchunks)
  exact ⟨d, obs, h, hhandled, hsent, ⟨rest, hpackets⟩, hreplies⟩

end MyRiscvCore
