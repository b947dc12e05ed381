/-
This file settles what reaches the peer of a sending socket. The receiver expects a
header in front of every payload, and the sender writes none: the comment on
`sendCmdNoPack` says that it alone leaves the packing out, but both bodies put the bare
command on the wire. Counting bytes is enough to see that no exchange carries its
payloads over: the sender's wire has exactly the bytes of the payloads, and every
packet that the receiver takes costs four bytes more than its payload.
-/

import SelftestNet.Receive
import SelftestNet.Send

namespace SelftestNet

open Framing

/-! ### The sending side -/

namespace Sender

/-- The call hands a command to `sendCmd`, which returns `true`, or is a `sync`. -/
def Succeeds (sender : Sender) : SendCall → Prop
  | .sendCmd pstrCmd buffer ios => ∃ cmd sent, pstrCmd = some cmd ∧
    sender.socket.sendCmd pstrCmd buffer ios = some sent ∧ sent.value = .returned true
  | .sendCmdNoPack _ _ _ => False
  | .sync _ => True

/-- The wire and the queues have as many bytes as the accepted commands, in whatever order. -/
structure Balanced (sender : Sender) : Prop where
  socket : sender.socket.SendConsistent
  balance : sender.wire.length + sender.socket.pending.length = sender.accepted.flatten.length

theorem new_balanced (sock : Int) : (new sock).Balanced where
  socket := ZSocket.new_sendConsistent sock
  balance := rfl

/-- A call that succeeds adds its command on one side and on the other. -/
theorem Balanced.step {sender next : Sender} (balanced : sender.Balanced) (call : SendCall)
    (succeeds : sender.Succeeds call) (stepped : sender.step call = some next) :
    next.Balanced := by
  have before := balanced.balance
  cases call with
  | sendCmd pstrCmd buffer ios =>
    obtain ⟨cmd, sent, rfl, called, returned⟩ := succeeds
    cases buffer with
    | true =>
      obtain ⟨kept, wire, added, accepted, pending⟩ := buffered_effect balanced.socket stepped
      refine ⟨kept, ?_⟩
      rw [wire, accepted, pending, List.flatten_append, List.length_append, List.length_append]
      omega
    | false =>
      rw [ZSocket.sendCmd, ZSocket.sendBytes] at called
      split at called
      · obtain rfl := Option.some.inj called
        cases returned
      · obtain rfl := Option.some.inj called
        obtain ⟨⟨bitmask, same⟩, result, status, whole⟩ := direct_effect ‹_› stepped
        obtain ⟨accepted, wire⟩ :=
          whole (CallStatus.returned.inj (status.symm.trans returned))
        refine ⟨same ▸ ⟨balanced.socket.snd, balanced.socket.enc⟩, ?_⟩
        have pending : next.socket.pending = sender.socket.pending := same ▸ rfl
        rw [wire, accepted, pending, List.flatten_append, List.flatten_singleton,
          List.length_append, List.length_append]
        omega
  | sendCmdNoPack pstrCmd buffer ios => exact succeeds.elim
  | sync answer =>
    obtain ⟨kept, accepted, stream⟩ := sync_effect balanced.socket stepped
    have size := congrArg List.length stream
    rw [List.length_append, List.length_append] at size
    exact ⟨kept, by rw [accepted, size, before]⟩

end Sender

/-! ### The receiving side -/

/-- Every packet taken has cost its payload and a header. -/
theorem Receiver.Sound.length_received {receiver : Receiver} (sound : receiver.Sound) :
    receiver.delivered.length * phLen + receiver.delivered.flatten.length ≤
      receiver.received.length := by
  have total := length_dropFrames packetFormat sound.complete
  rw [← sound.delivered, ← receiver.length_delivered] at total
  change receiver.delivered.length * phLen + _ + _ = _ at total
  omega

/-! ### The exchange -/

/-- The payloads go through `sendCmd` on one socket, buffered or direct, every call returns
`true`, and `sync` empties the queues; the peer receives what the kernel accepted, in chunks of
any kind, and takes packets until there is none left. -/
structure Exchange (payloads : List (List UInt8)) (sender : Sender) (receiver : Receiver) :
    Prop where
  sizes : ∀ payload ∈ payloads, 0 < payload.length ∧ payload.length ≤ maxDataSize
  sent : ∃ sock calls, PartialRun.Each Sender.step Sender.Succeeds (.new sock) calls ∧
    PartialRun.run Sender.step (.new sock) calls = some sender
  accepted : sender.accepted = payloads
  emptied : sender.socket.pending = []
  arrived : ∃ sock calls, PartialRun.run Receiver.step (.new sock) calls = some receiver
  stream : receiver.received = sender.wire
  exhausted : ∀ nCmdLen out, receiver.socket.recvToCmdNoPoll nCmdLen = some out →
    out.retval = none

/-- The peer obtains the payloads exactly when there are none: without headers on the wire, no
exchange of a payload carries it over. -/
theorem Exchange.delivered_eq_iff {payloads : List (List UInt8)} {sender : Sender}
    {receiver : Receiver} (exchange : Exchange payloads sender receiver) :
    receiver.delivered = payloads ↔ payloads = [] := by
  obtain ⟨sock, calls, succeeded, sent⟩ := exchange.sent
  obtain ⟨peer, receives, arrived⟩ := exchange.arrived
  have balanced := PartialRun.run_invariant Sender.Balanced
    (fun _ call _ balanced succeeds stepped => balanced.step call succeeds stepped)
    (Sender.new_balanced sock) succeeded sent
  have sound := PartialRun.run_invariant_of_step Receiver.Sound
    (fun _ call _ sound stepped => sound.step call stepped) (Receiver.new_sound peer) arrived
  have counted := balanced.balance
  have received := sound.length_received
  rw [exchange.accepted] at counted
  rw [exchange.stream, phLen] at received
  constructor
  · intro same
    rw [same] at received
    exact List.length_eq_zero_iff.mp (by omega)
  · rintro rfl
    rw [List.flatten_nil, List.length_nil] at counted
    exact List.length_eq_zero_iff.mp (by omega)

/-- One payload of one byte, sent directly. The peer sees less than a header. -/
theorem exchange_one_byte :
    ∃ sender receiver, Exchange [[7]] sender receiver ∧ receiver.delivered = [] := by
  obtain ⟨bitmask, stepped⟩ := (Sender.new 5).step_takesOne 7
  obtain ⟨flags, called⟩ := Sender.sendBytes_takes (Sender.new 5).socket
    (List.cons_ne_nil 7 []) (Nat.le_refl 1) (by decide)
  have sent := (PartialRun.run_singleton Sender.step _ _).trans stepped
  have succeeded : PartialRun.Each Sender.step Sender.Succeeds (.new 5)
      [.sendCmd (some [7]) false [Sender.takesOne]] :=
    PartialRun.each_singleton.mpr ⟨[7], _, rfl, called, rfl⟩
  obtain ⟨receiver, received, sound, stream, copies, pending⟩ :=
    (Receiver.new_sound 6).receive_idle (Receiver.new_fits 6 .wouldBlock) ByteBuffer.new_unread 7
      (show ([] : List UInt8).length < maxDataBufferSize + 8 by decide)
  have arrived := (PartialRun.run_singleton Receiver.step _ _).trans received
  have incomplete : nextFrame packetFormat receiver.socket.rcvQueue.unread = none := by
    rw [pending]
    decide
  refine ⟨_, receiver, ⟨by decide, ⟨5, _, succeeded, sent⟩, rfl, rfl, ⟨6, _, arrived⟩, stream,
    fun nCmdLen out taken => ?_⟩, congrArg (List.map Prod.snd) copies⟩
  rw [ZSocket.recvToCmdNoPoll_of_none sound.socket nCmdLen incomplete] at taken
  exact Option.some.inj taken ▸ rfl

/-- The law of the exchange at one payload of one byte. -/
theorem delivered_eq_iff_one_byte :
    ∃ sender receiver, Exchange [[7]] sender receiver ∧
      (receiver.delivered = [[7]] ↔ [[(7 : UInt8)]] = []) := by
  obtain ⟨sender, receiver, exchange, -⟩ := exchange_one_byte
  exact ⟨sender, receiver, exchange, exchange.delivered_eq_iff⟩

/-- One payload of one byte does not come back. -/
theorem one_byte_not_delivered :
    ∃ sender receiver, Exchange [[7]] sender receiver ∧ receiver.delivered ≠ [[7]] := by
  obtain ⟨sender, receiver, exchange, nothing⟩ := exchange_one_byte
  exact ⟨sender, receiver, exchange, nothing ▸ (List.cons_ne_nil _ _).symm⟩

end SelftestNet
