/-
This file proves what two sockets of this code say to each other over one connection. Each
end calls both halves of its socket in any order, the ends take turns in any order, and the
kernel between them hands each end some next bytes of what it accepted from the other one.
The sender writes no header, so the commands are packets as the receiver expects them.

At every moment the packets taken at one end are the first commands of the other end, in
order and each once, and the bytes of all the others are where they belong, in this order:
in the receive queue, in flight, in `_enc_queue`, in `_snd_queue`. Nothing stays there for
ever either: from every reachable state a bounded number of further calls delivers
everything.
-/

import SelftestNet.Duplex
import SelftestNet.ForceSync
import SelftestNet.Receive
import SelftestNet.Send

namespace SelftestNet

open Framing

/-! ### The receiving half of an end -/

namespace Receiver

/-- The bytes that a call gets out of the kernel. -/
def gets (receiver : Receiver) : RecvCall → List UInt8
  | .recvToBufNoPoll answer => receiver.socket.incoming answer
  | .recvToBuf io => receiver.socket.incomingPolled io
  | .recvToCmdNoPoll _ => []

theorem step_received {receiver next : Receiver} {call : RecvCall}
    (stepped : receiver.step call = some next) :
    next.received = receiver.received ++ receiver.gets call := by
  cases call with
  | recvToBufNoPoll answer =>
    obtain ⟨result, -, rfl⟩ := Option.map_eq_some_iff.mp stepped
    rfl
  | recvToBuf io =>
    obtain ⟨result, -, rfl⟩ := Option.map_eq_some_iff.mp stepped
    rfl
  | recvToCmdNoPoll nCmdLen =>
    obtain ⟨out, -, rfl⟩ := Option.map_eq_some_iff.mp stepped
    exact (List.append_nil _).symm

/-- A call leaves the sending half of its socket alone. -/
theorem step_frame {receiver next : Receiver} {call : RecvCall}
    (stepped : receiver.step call = some next) :
    next.socket = next.socket.join receiver.socket := by
  cases call with
  | recvToBufNoPoll answer =>
    obtain ⟨result, called, rfl⟩ := Option.map_eq_some_iff.mp stepped
    exact ZSocket.eq_join_of_receives (.recvToBufNoPoll answer) rfl (congrArg (Option.map _) called)
  | recvToBuf io =>
    obtain ⟨result, called, rfl⟩ := Option.map_eq_some_iff.mp stepped
    exact ZSocket.eq_join_of_receives (.recvToBuf io) rfl (congrArg (Option.map _) called)
  | recvToCmdNoPoll nCmdLen =>
    obtain ⟨out, called, rfl⟩ := Option.map_eq_some_iff.mp stepped
    exact ZSocket.eq_join_of_receives (.recvToCmdNoPoll nCmdLen) rfl
      (congrArg (Option.map _) called)

/-- The agreement of history and state is about the receiving half alone. -/
theorem Sound.congr {receiver : Receiver} (sound : receiver.Sound) {socket : ZSocket}
    (same : receiver.socket.SameReceive socket) : Sound { receiver with socket } where
  socket := ⟨same.1 ▸ sound.socket.queue, by rw [same.1, same.2]; exact sound.socket.rawSize⟩
  complete := sound.complete
  delivered := sound.delivered
  pending := (congrArg ByteBuffer.unread same.1).trans sound.pending

/-- Next bytes of what is in flight are next bytes of the wire. -/
theorem append_prefix {received got wire : List UInt8} (carried : received <+: wire)
    (front : got <+: wire.drop received.length) : received ++ got <+: wire := by
  rw [← List.prefix_iff_eq_append.mp carried]
  exact (List.prefix_append_right_inj received).mpr front

/-- Where a receiver gets what a sender of packets has put on the wire, the commands of the sender
account for everything between the two: the first ones have been taken, and the bytes of the rest
are in the receive queue, in flight and pending. -/
theorem Sound.accounts {receiver : Receiver} (sound : receiver.Sound)
    {wire pending : List UInt8} {accepted : List (List UInt8)}
    (packets : ∀ cmd ∈ accepted, IsFrame packetFormat cmd) (carried : receiver.received <+: wire)
    (stream : wire ++ pending = accepted.flatten) :
    receiver.delivered = (accepted.take receiver.copies.length).map (List.drop phLen) ∧
      receiver.socket.rcvQueue.unread ++ wire.drop receiver.received.length ++ pending =
        (accepted.drop receiver.copies.length).flatten := by
  have all : receiver.received ++ (wire.drop receiver.received.length ++ pending) =
      accepted.flatten := by
    rw [← List.append_assoc, List.prefix_iff_eq_append.mp carried]
    exact stream
  obtain ⟨front, behind⟩ := frames_accounted packetFormat packets sound.complete all
  refine ⟨sound.delivered.trans front, ?_⟩
  rw [List.append_assoc, sound.pending]
  exact behind

end Receiver

/-! ### The sending half of an end -/

theorem ZSocket.SameReceive.of_eq_join {socket next : ZSocket} (framed : next = socket.join next) :
    socket.SameReceive next := by
  rw [framed]
  exact ⟨rfl, rfl⟩

/-- `force_sync` keeps the queues consistent. -/
theorem ZSocket.forceSync_keeps {socket : ZSocket} {ios : List SendIo} {sent : Sent Bool}
    (consistent : socket.SendConsistent) (defined : socket.forceSync ios = some sent) :
    sent.socket.SendConsistent := by
  obtain ⟨staged, moved, flushed⟩ := Option.bind_eq_some_iff.mp defined
  obtain ⟨kept, -⟩ := stage_spec consistent moved
  unfold forceFlush at flushed
  dsimp only at flushed
  split at flushed
  · obtain ⟨bytes, -, rfl⟩ := Option.map_eq_some_iff.mp flushed
    obtain ⟨⟨bitmask, same⟩, -⟩ := staged.sendRawDataIM_spec bytes ios
    split
    · rw [same]
      exact ⟨kept.snd, (ByteBuffer.reset_spec kept.enc).1⟩
    · rw [same]
      exact ⟨kept.snd, kept.enc⟩
  · obtain rfl := Option.some.inj flushed
    exact kept

/-- A command that is accepted is one, and is not empty. -/
theorem ZSocket.exists_of_sendBytes {socket : ZSocket} {pstrCmd : Option (List UInt8)}
    {buffer : Bool} {ios : List SendIo} {sent : Sent CallStatus}
    (called : socket.sendBytes pstrCmd buffer ios = some sent)
    (returned : sent.value = .returned true) : ∃ cmd, pstrCmd = some cmd ∧ cmd ≠ [] := by
  rcases pstrCmd with _ | cmd
  · rw [← Option.some.inj called] at returned
    cases returned
  · refine ⟨cmd, rfl, fun empty => ?_⟩
    rw [sendBytes, if_pos empty] at called
    rw [← Option.some.inj called] at returned
    cases returned

namespace SendCall

/-- The command that a call hands over. -/
def command : SendCall → Option (List UInt8)
  | .sendCmd pstrCmd _ _ | .sendCmdNoPack pstrCmd _ _ => pstrCmd
  | .sync _ => none

/-- The command is a packet, unless it is refused. -/
def Framed (call : SendCall) : Prop :=
  ∀ cmd, call.command = some cmd → cmd ≠ [] → IsFrame packetFormat cmd

end SendCall

namespace Sender

/-- A command that is sent directly is sent while nothing is pending, no answer of the kernel to it
is a hard error, and the `::send` behind a `::poll` that reported the socket writable does not
block. -/
def Orderly (sender : Sender) : SendCall → Prop
  | .sendCmd pstrCmd buffer ios | .sendCmdNoPack pstrCmd buffer ios =>
    buffer = false → (∀ io ∈ ios, io.NoError) ∧ ∀ cmd, pstrCmd = some cmd → cmd ≠ [] →
      sender.socket.pending = [] ∧ ∀ io ∈ ios, io.Truthful
  | .sync _ => True

/-- `force_sync`, from its start to its return. -/
def forceSync (sender : Sender) (ios : List SendIo) : Option Sender :=
  (sender.socket.forceSync ios).bind fun sent =>
    if sent.value then
      some { sender with socket := sent.socket, wire := sender.wire ++ sent.taken }
    else none

/-- The kernel lets `force_sync` get rid of everything before it gives up. -/
def Forces (sender : Sender) (ios : List SendIo) : Prop :=
  sender.socket.pending = [] ∨ (sender.socket.pending.length < 2 ^ 31 ∧
    SendIo.Unbroken (sender.socket.issetFlag incompleteWrite) sender.socket.pending.length ios)

theorem Conserved.step_orderly {sender next : Sender} (conserved : sender.Conserved)
    (call : SendCall) (orderly : sender.Orderly call) (stepped : sender.step call = some next) :
    next.Conserved := by
  cases call with
  | sendCmd pstrCmd buffer ios =>
    cases buffer with
    | true => exact conserved.sendBuffered stepped
    | false => exact conserved.sendDirect (orderly rfl).1 (orderly rfl).2 stepped
  | sendCmdNoPack pstrCmd buffer ios =>
    cases buffer with
    | true => exact conserved.sendBuffered stepped
    | false => exact conserved.sendDirect (orderly rfl).1 (orderly rfl).2 stepped
  | sync answer => exact conserved.sync stepped

theorem record_history {sender next : Sender} {pstrCmd : Option (List UInt8)} {buffer : Bool}
    {ios : List SendIo}
    (stepped : (sender.socket.sendBytes pstrCmd buffer ios).bind (sender.record pstrCmd) =
      some next) :
    sender.wire <+: next.wire ∧ (next.accepted = sender.accepted ∨
      ∃ cmd, pstrCmd = some cmd ∧ cmd ≠ [] ∧ next.accepted = sender.accepted ++ [cmd]) := by
  obtain ⟨sent, called, recorded⟩ := Option.bind_eq_some_iff.mp stepped
  unfold record at recorded
  split at recorded
  · rename_i returned
    obtain rfl := Option.some.inj recorded
    obtain ⟨cmd, rfl, nonempty⟩ := ZSocket.exists_of_sendBytes called returned
    exact ⟨List.prefix_append _ _, Or.inr ⟨cmd, rfl, nonempty, rfl⟩⟩
  · obtain rfl := Option.some.inj recorded
    exact ⟨List.prefix_append _ _, Or.inl rfl⟩
  · cases recorded

/-- A call lengthens the wire, and accepts the command it is given or none. -/
theorem step_history {sender next : Sender} {call : SendCall}
    (stepped : sender.step call = some next) :
    sender.wire <+: next.wire ∧ (next.accepted = sender.accepted ∨
      ∃ cmd, call.command = some cmd ∧ cmd ≠ [] ∧ next.accepted = sender.accepted ++ [cmd]) := by
  cases call with
  | sendCmd pstrCmd buffer ios => exact record_history stepped
  | sendCmdNoPack pstrCmd buffer ios => exact record_history stepped
  | sync answer =>
    obtain ⟨sent, -, rfl⟩ := Option.map_eq_some_iff.mp stepped
    exact ⟨List.prefix_append _ _, Or.inl rfl⟩

theorem record_socket {sender next : Sender} {pstrCmd : Option (List UInt8)}
    {sent : Sent CallStatus} (recorded : sender.record pstrCmd sent = some next) :
    next.socket = sent.socket := by
  unfold record at recorded
  split at recorded
  · exact Option.some.inj recorded ▸ rfl
  · exact Option.some.inj recorded ▸ rfl
  · cases recorded

/-- A call leaves the receiving half of its socket alone. -/
theorem step_frame {sender next : Sender} {call : SendCall}
    (stepped : sender.step call = some next) : sender.socket.SameReceive next.socket := by
  have sends : ∀ pstrCmd buffer ios,
      (sender.socket.sendBytes pstrCmd buffer ios).bind (sender.record pstrCmd) = some next →
        sender.socket.SameReceive next.socket := by
    intro pstrCmd buffer ios stepped
    obtain ⟨sent, called, recorded⟩ := Option.bind_eq_some_iff.mp stepped
    rw [record_socket recorded]
    exact .of_eq_join (ZSocket.eq_join_of_sends (.sendCmd pstrCmd buffer ios) rfl
      (congrArg (Option.map _) called))
  cases call with
  | sendCmd pstrCmd buffer ios => exact sends pstrCmd buffer ios stepped
  | sendCmdNoPack pstrCmd buffer ios => exact sends pstrCmd buffer ios stepped
  | sync answer =>
    obtain ⟨sent, called, rfl⟩ := Option.map_eq_some_iff.mp stepped
    exact .of_eq_join (ZSocket.eq_join_of_sends (.sync answer) rfl (congrArg (Option.map _) called))

/-- What a `force_sync` that has returned does, when it gets rid of everything. -/
theorem Conserved.forceSync {sender next : Sender} (conserved : sender.Conserved)
    {ios : List SendIo} (forces : sender.Forces ios)
    (stepped : sender.forceSync ios = some next) :
    next.Conserved ∧ sender.wire <+: next.wire ∧ next.accepted = sender.accepted ∧
      sender.socket.SameReceive next.socket := by
  obtain ⟨sent, called, recorded⟩ := Option.bind_eq_some_iff.mp stepped
  split at recorded
  · rename_i returned
    obtain rfl := Option.some.inj recorded
    obtain ⟨enc, snd, all⟩ := ZSocket.forceSync_spec conserved.socket called returned
    have framed := ZSocket.eq_join_of_sends (.forceSync ios) rfl (congrArg (Option.map _) called)
    refine ⟨⟨ZSocket.forceSync_keeps conserved.socket called, ?_⟩, List.prefix_append _ _, rfl,
      .of_eq_join framed⟩
    show sender.wire ++ sent.taken ++ (sent.socket.encQueue.unread ++ sent.socket.sndQueue.unread) =
      sender.accepted.flatten
    rw [all.mpr forces, enc, snd, List.append_nil, List.append_nil]
    exact conserved.stream
  · cases recorded

end Sender

/-! ### The two ends -/

/-- One call at an end: one of either half, with `force_sync` among the sending ones. -/
inductive PeerCall
  | receive (call : RecvCall)
  | send (call : SendCall)
  | forceSync (ios : List SendIo)

/-- One end of a connection: a socket with the histories of its two halves. -/
structure Peer where
  socket : ZSocket
  received : List UInt8
  copies : List (Nat × List UInt8)
  wire : List UInt8
  accepted : List (List UInt8)

namespace Peer

/-- An end fresh from its constructor. -/
def new (sock : Int) : Peer where
  socket := ZSocket.new sock
  received := []
  copies := []
  wire := []
  accepted := []

/-- The receiving half. -/
def receiver (peer : Peer) : Receiver where
  socket := peer.socket
  received := peer.received
  copies := peer.copies

/-- The sending half. -/
def sender (peer : Peer) : Sender where
  socket := peer.socket
  wire := peer.wire
  accepted := peer.accepted

/-- The end behind a call of its receiving half. -/
def withReceiver (peer : Peer) (receiver : Receiver) : Peer :=
  { peer with
    socket := receiver.socket
    received := receiver.received
    copies := receiver.copies }

/-- The end behind a call of its sending half. -/
def withSender (peer : Peer) (sender : Sender) : Peer :=
  { peer with socket := sender.socket, wire := sender.wire, accepted := sender.accepted }

/-- One call, recorded in the histories. -/
def step (peer : Peer) : PeerCall → Option Peer
  | .receive call => (peer.receiver.step call).map peer.withReceiver
  | .send call => (peer.sender.step call).map peer.withSender
  | .forceSync ios => (peer.sender.forceSync ios).map peer.withSender

theorem step_receive {peer : Peer} {call : RecvCall} {receiver : Receiver}
    (called : peer.receiver.step call = some receiver) :
    peer.step (.receive call) = some (peer.withReceiver receiver) :=
  congrArg (Option.map _) called

theorem step_send {peer : Peer} {call : SendCall} {sender : Sender}
    (called : peer.sender.step call = some sender) :
    peer.step (.send call) = some (peer.withSender sender) :=
  congrArg (Option.map _) called

/-- What holds of an end by itself: its halves agree with their histories, and it has accepted
packets only. -/
structure Sound (peer : Peer) : Prop where
  receiver : peer.receiver.Sound
  sender : peer.sender.Conserved
  packets : ∀ cmd ∈ peer.accepted, IsFrame packetFormat cmd

theorem new_sound (sock : Int) : (new sock).Sound where
  receiver := Receiver.new_sound sock
  sender := Sender.new_conserved sock
  packets _ member := (List.not_mem_nil member).elim

/-- The calls that the two ends make: the receiving ones get next bytes of what is in flight, and
the sending ones hand over packets and keep the stream in order. -/
def Permitted (peer : Peer) (inFlight : List UInt8) : PeerCall → Prop
  | .receive call => peer.receiver.gets call <+: inFlight
  | .send call => call.Framed ∧ peer.sender.Orderly call
  | .forceSync ios => peer.sender.Forces ios

/-- What a permitted call does to an end: it receives bytes that it gets, or it lengthens the wire
and accepts at most one more command. -/
theorem Sound.step {peer next : Peer} (sound : peer.Sound) {inFlight : List UInt8}
    {call : PeerCall} (permitted : peer.Permitted inFlight call)
    (stepped : peer.step call = some next) :
    next.Sound ∧ peer.wire <+: next.wire ∧
      ∃ got, got <+: inFlight ∧ next.received = peer.received ++ got := by
  cases call with
  | receive call =>
    obtain ⟨receiver, called, rfl⟩ := Option.map_eq_some_iff.mp stepped
    have framed := Receiver.step_frame called
    refine ⟨⟨sound.receiver.step call called, ⟨?_, ?_⟩, sound.packets⟩, List.prefix_rfl,
      _, permitted, Receiver.step_received called⟩
    · show receiver.socket.SendConsistent
      rw [framed]
      exact ⟨sound.sender.socket.snd, sound.sender.socket.enc⟩
    · show peer.wire ++ receiver.socket.pending = peer.accepted.flatten
      rw [framed]
      exact sound.sender.stream
  | send call =>
    obtain ⟨sender, called, rfl⟩ := Option.map_eq_some_iff.mp stepped
    obtain ⟨lengthened, history⟩ := Sender.step_history called
    refine ⟨⟨sound.receiver.congr (Sender.step_frame called),
      sound.sender.step_orderly call permitted.2 called, fun cmd member => ?_⟩, lengthened,
      [], List.nil_prefix, (List.append_nil _).symm⟩
    change cmd ∈ sender.accepted at member
    rcases history with same | ⟨other, handed, nonempty, added⟩
    · rw [same] at member
      exact sound.packets cmd member
    · rw [added, List.mem_append, List.mem_singleton] at member
      rcases member with member | rfl
      · exact sound.packets cmd member
      · exact permitted.1 cmd handed nonempty
  | forceSync ios =>
    obtain ⟨sender, called, rfl⟩ := Option.map_eq_some_iff.mp stepped
    obtain ⟨conserved, lengthened, same, frame⟩ := sound.sender.forceSync permitted called
    refine ⟨⟨sound.receiver.congr frame, conserved, ?_⟩, lengthened, [], List.nil_prefix,
      (List.append_nil _).symm⟩
    show ∀ cmd ∈ sender.accepted, IsFrame packetFormat cmd
    rw [same]
    exact sound.packets

/-- A command that fits into `_snd_queue` is accepted. -/
theorem step_buffered {peer : Peer} {cmd : List UInt8} {sndQueue : ByteBuffer}
    (nonempty : cmd ≠ []) (stored : peer.socket.sndQueue.put cmd = some sndQueue) :
    peer.step (.send (.sendCmd (some cmd) true [])) = some
      { peer with
        socket := { peer.socket with sndQueue, currentCmd := cmd.length }
        accepted := peer.accepted ++ [cmd] } := by
  have called : peer.sender.step (.sendCmd (some cmd) true []) = some _ :=
    peer.sender.sendBytes_buffered [] nonempty stored
  exact step_send called

end Peer

/-! ### The connection -/

/-- An end of the connection. -/
inductive PeerSide
  | near
  | far
  deriving DecidableEq

/-- The end on the other side. -/
def PeerSide.other : PeerSide → PeerSide
  | near => far
  | far => near

@[simp]
theorem PeerSide.other_other (side : PeerSide) : side.other.other = side := by
  cases side <;> rfl

theorem PeerSide.other_ne (side : PeerSide) : side.other ≠ side := by
  cases side <;> exact PeerSide.noConfusion

/-- What holds at an end and at the other one holds at both. -/
theorem PeerSide.forall_of {motive : PeerSide → Prop} (side : PeerSide) (here : motive side)
    (there : motive side.other) (another : PeerSide) : motive another := by
  cases side <;> cases another <;> assumption

/-- Two ends. What is in flight between them is what one has handed to the kernel and the other has
not got yet. -/
structure Session where
  peers : PeerSide → Peer

/-- A call at one of the ends. -/
structure SessionCall where
  side : PeerSide
  call : PeerCall

namespace Session

/-- Two ends fresh from their constructors. -/
def new (sock : PeerSide → Int) : Session where
  peers side := Peer.new (sock side)

/-- The bytes on their way to an end. -/
def inFlight (session : Session) (side : PeerSide) : List UInt8 :=
  (session.peers side.other).wire.drop (session.peers side).received.length

/-- One call. -/
def step (session : Session) (call : SessionCall) : Option Session :=
  ((session.peers call.side).step call.call).map fun peer =>
    { peers := Function.update session.peers call.side peer }

/-- The call is permitted at its end. -/
def Permitted (session : Session) (call : SessionCall) : Prop :=
  (session.peers call.side).Permitted (session.inFlight call.side) call.call

/-- The ends are sound, and what each of them has received is what the other one has sent, as far
as it goes. -/
structure Sound (session : Session) : Prop where
  peers : ∀ side, (session.peers side).Sound
  carried : ∀ side, (session.peers side).received <+: (session.peers side.other).wire

theorem new_sound (sock : PeerSide → Int) : (new sock).Sound where
  peers side := Peer.new_sound (sock side)
  carried _ := List.nil_prefix

theorem step_of_peer {session : Session} {side : PeerSide} {call : PeerCall} {peer : Peer}
    (called : (session.peers side).step call = some peer) :
    session.step ⟨side, call⟩ = some { peers := Function.update session.peers side peer } :=
  congrArg (Option.map _) called

/-- A call changes its own end. -/
theorem step_eq_some {session next : Session} {call : SessionCall}
    (stepped : session.step call = some next) :
    ∃ peer, (session.peers call.side).step call.call = some peer ∧
      next.peers call.side = peer ∧
      next.peers call.side.other = session.peers call.side.other := by
  obtain ⟨peer, called, rfl⟩ := Option.map_eq_some_iff.mp stepped
  exact ⟨peer, called, Function.update_self _ _ _,
    Function.update_of_ne call.side.other_ne _ _⟩

theorem Sound.step {session next : Session} (sound : session.Sound) {call : SessionCall}
    (permitted : session.Permitted call) (stepped : session.step call = some next) :
    next.Sound := by
  obtain ⟨peer, called, here, there⟩ := step_eq_some stepped
  obtain ⟨kept, lengthened, got, front, received⟩ := (sound.peers call.side).step permitted called
  refine ⟨PeerSide.forall_of call.side ?_ ?_, PeerSide.forall_of call.side ?_ ?_⟩
  · rw [here]
    exact kept
  · rw [there]
    exact sound.peers call.side.other
  · rw [here, there, received]
    exact Receiver.append_prefix (sound.carried call.side) front
  · rw [there, PeerSide.other_other, here]
    have carried := sound.carried call.side.other
    rw [PeerSide.other_other] at carried
    exact carried.trans lengthened

/-- The commands of the other end account for everything between the two, in order: the first ones
have been taken, and the bytes of the rest are where they belong. -/
theorem Sound.accounts {session : Session} (sound : session.Sound) (side : PeerSide) :
    let receiver := session.peers side
    let sender := session.peers side.other
    receiver.receiver.delivered =
        (sender.accepted.take receiver.copies.length).map (List.drop phLen) ∧
      receiver.socket.rcvQueue.unread ++ session.inFlight side ++
          sender.socket.encQueue.unread ++ sender.socket.sndQueue.unread =
        (sender.accepted.drop receiver.copies.length).flatten := by
  have sender := (sound.peers side.other).sender
  dsimp only
  rw [List.append_assoc _ (session.peers side.other).socket.encQueue.unread]
  exact (sound.peers side).receiver.accounts (sound.peers side.other).packets (sound.carried side)
    sender.stream

end Session

/-! ### Progress -/

namespace ZSocket

/-- Behind its last complete packet, a receive queue is short enough to make room. -/
theorem ReceiveConsistent.noWrap_of_none {socket : ZSocket} (consistent : socket.ReceiveConsistent)
    (frame : nextFrame packetFormat socket.rcvQueue.unread = none) :
    socket.rcvQueue.NoWrap maxDataBufferSize := by
  have short := length_lt_of_nextFrame_none packetFormat frame
    (Nat.le_of_lt (packetFormat_payloadLen_lt _))
  have ordered := consistent.queue.offPtr_le
  have compact := consistent.queue.compact
  have rounded := ByteBuffer.roundUp_lt (maxDataBufferSize + 8)
  rw [consistent.queue.length_unread] at short
  change _ < phLen + trunkSize at short
  simp only [phLen, trunkSize, maxDataBufferSize] at short rounded
  refine ⟨by decide, fun grows => ⟨by decide, ?_⟩⟩
  simp only [trunkSize, maxDataBufferSize] at grows ⊢
  omega

/-- A chunk that arrives where there is room is not nothing. -/
theorem ReceiveConsistent.incoming_ne_nil {socket : ZSocket} (consistent : socket.ReceiveConsistent)
    (noWrap : socket.rcvQueue.NoWrap maxDataBufferSize) (first : UInt8) (rest : List UInt8) :
    socket.incoming (.data first rest) ≠ [] := by
  obtain ⟨-, -, -, room⟩ := reserve_spec consistent noWrap
  have positive : 0 < min socket.reserve.rcvQueue.wrSize intMax :=
    Nat.lt_min.mpr ⟨by omega, by decide⟩
  rw [incoming, RecvAnswer.bytes, ne_eq, List.take_eq_nil_iff]
  exact not_or_intro positive.ne' (List.cons_ne_nil _ _)

/-- What the kernel takes in a `sync` of something is not nothing. -/
theorem flush_takes {socket : ZSocket} (consistent : socket.SendConsistent)
    (ready : socket.encQueue.unread ≠ []) {more : Nat} {sent : Sent (Option Bool)}
    (flushed : socket.flush (.took more) = some sent) : sent.taken ≠ [] := by
  have positive := (SendAnswer.count_took (List.length_pos_iff.mpr ready)
    consistent.enc.length_unread_lt more).1
  rw [flush_taken consistent ready flushed, ne_eq, List.take_eq_nil_iff]
  exact not_or_intro positive.ne' ready

/-- A `sync` whose staging has room and whose kernel is willing moves something to the wire, and
empties `_snd_queue`. -/
theorem sync_takes {socket : ZSocket} (consistent : socket.SendConsistent)
    (room : socket.sndQueue.unread ≠ [] →
      socket.encQueue.NoWrap socket.sndQueue.unread.length)
    (pending : socket.pending ≠ []) (more : Nat) :
    ∃ sent, socket.sync (.took more) = some sent ∧ sent.taken ≠ [] ∧
      sent.socket.sndQueue.unread = [] := by
  obtain ⟨staged, moved⟩ := stage_defined consistent room
  obtain ⟨kept, enc, snd, -⟩ := stage_spec consistent moved
  obtain ⟨sent, flushed, -, -, same, -⟩ := flush_spec kept (.took more)
  refine ⟨sent, ?_, flush_takes kept (enc ▸ pending) flushed, ?_⟩
  · rw [sync, moved, Option.bind_some, flushed]
  · rw [same, snd]

end ZSocket

namespace Session

/-- What is still to be done for what is on its way to an end, in steps of a byte: a byte that is
pending at the other end is to be sent, received and taken. -/
def work (session : Session) (side : PeerSide) : Nat :=
  3 * (session.peers side.other).socket.pending.length + 2 * (session.inFlight side).length +
    (session.peers side).socket.rcvQueue.unread.length

/-- What is still to be done at both ends. -/
def outstanding (session : Session) : Nat := session.work .near + session.work .far

theorem outstanding_eq (session : Session) (side : PeerSide) :
    session.outstanding = session.work side + session.work side.other := by
  cases side with
  | near => rfl
  | far => exact Nat.add_comm _ _

/-- Nothing is on its way to an end. -/
def Quiet (session : Session) (side : PeerSide) : Prop :=
  (session.peers side.other).socket.pending = [] ∧ session.inFlight side = [] ∧
    nextFrame packetFormat (session.peers side).socket.rcvQueue.unread = none

/-- Staging has room at an end. -/
def Roomy (session : Session) (side : PeerSide) : Prop :=
  (session.peers side).socket.sndQueue.unread ≠ [] →
    (session.peers side).socket.encQueue.NoWrap
      (session.peers side).socket.sndQueue.unread.length

/-- A sound connection that can be drained of what has been accepted. -/
structure Ready (accepted : PeerSide → List (List UInt8)) (session : Session) : Prop where
  sound : session.Sound
  room : ∀ side, session.Roomy side
  accepted : ∀ side, (session.peers side).accepted = accepted side

variable {session : Session} {accepted : PeerSide → List (List UInt8)}

/-- A permitted call behind which staging has room and which accepts nothing keeps this. -/
theorem Ready.kept {next : Session} (ready : session.Ready accepted) {call : SessionCall}
    (permitted : session.Permitted call) (stepped : session.step call = some next)
    (room : next.Roomy call.side)
    (same : (next.peers call.side).accepted = (session.peers call.side).accepted) :
    next.Ready accepted := by
  obtain ⟨-, -, -, there⟩ := step_eq_some stepped
  refine ⟨ready.sound.step permitted stepped, PeerSide.forall_of call.side room ?_,
    PeerSide.forall_of call.side (same.trans (ready.accepted _)) ?_⟩
  · rw [Roomy, there]
    exact ready.room call.side.other
  · rw [there]
    exact ready.accepted call.side.other

/-- A receiving call that gets on brings down what is to be done. -/
theorem Ready.receive (ready : session.Ready accepted) {side : PeerSide} {call : RecvCall}
    {receiver : Receiver} (called : (session.peers side).receiver.step call = some receiver)
    (permitted : (session.peers side).receiver.gets call <+: session.inFlight side)
    (less : receiver.socket.rcvQueue.unread.length <
      2 * ((session.peers side).receiver.gets call).length +
        (session.peers side).socket.rcvQueue.unread.length) :
    ∃ call next, session.Permitted call ∧ session.step call = some next ∧
      next.Ready accepted ∧ next.outstanding < session.outstanding := by
  have framed : ((session.peers side).withReceiver receiver).socket =
      receiver.socket.join (session.peers side).socket := Receiver.step_frame called
  have received : ((session.peers side).withReceiver receiver).received =
      (session.peers side).received ++ _ := Receiver.step_received called
  have stepped := step_of_peer (Peer.step_receive called)
  have allowed : session.Permitted ⟨side, .receive call⟩ := permitted
  obtain ⟨peer, -, here, there⟩ := step_eq_some stepped
  obtain rfl := here.symm.trans (Function.update_self _ _ _)
  set next : Session := { peers := Function.update session.peers side _ }
  refine ⟨_, next, allowed, stepped, ready.kept allowed stepped ?_ ?_, ?_⟩
  · rw [Roomy, here, framed]
    exact ready.room side
  · rw [here]
    rfl
  · have shorter := permitted.length_le
    have opposite : next.work side.other = session.work side.other := by
      simp only [work, inFlight, PeerSide.other_other, here, there, framed]
      rfl
    rw [outstanding_eq next side, outstanding_eq session side, opposite]
    simp only [work, inFlight, here, there, received, List.length_drop, List.length_append]
      at shorter ⊢
    change _ + receiver.socket.rcvQueue.unread.length + _ < _
    omega

/-- A `sync` of something with a willing kernel brings down what is to be done. -/
theorem Ready.sync (ready : session.Ready accepted) {side : PeerSide}
    (pending : (session.peers side).socket.pending ≠ []) :
    ∃ call next, session.Permitted call ∧ session.step call = some next ∧
      next.Ready accepted ∧ next.outstanding < session.outstanding := by
  have conserved := (ready.sound.peers side).sender
  obtain ⟨sent, called, something, emptied⟩ :=
    ZSocket.sync_takes conserved.socket (ready.room side) pending intMax
  obtain ⟨-, split, ⟨rcvQueue, -⟩, -⟩ := ZSocket.sync_spec conserved.socket called
  have synced : (session.peers side).sender.step (.sync (.took intMax)) = some
      { (session.peers side).sender with
        socket := sent.socket
        wire := (session.peers side).wire ++ sent.taken } := congrArg (Option.map _) called
  have stepped := step_of_peer (Peer.step_send synced)
  have allowed : session.Permitted ⟨side, .send (.sync (.took intMax))⟩ :=
    ⟨fun cmd handed => (Option.some_ne_none cmd handed.symm).elim, trivial⟩
  obtain ⟨peer, -, here, there⟩ := step_eq_some stepped
  obtain rfl := here.symm.trans (Function.update_self _ _ _)
  set next : Session := { peers := Function.update session.peers side _ }
  refine ⟨_, next, allowed, stepped, ready.kept allowed stepped ?_ ?_, ?_⟩
  · rw [Roomy, here]
    exact fun some => absurd emptied some
  · rw [here]
    rfl
  · have carried := (ready.sound.carried side.other).length_le
    have positive := List.length_pos_iff.mpr something
    have shorter := congrArg List.length split
    have toward : next.work side = session.work side := by
      have same : sent.socket.rcvQueue = (session.peers side).socket.rcvQueue := rcvQueue
      simp only [work, inFlight, here, there, Peer.withSender, same]
    rw [outstanding_eq next side, outstanding_eq session side, toward]
    rw [PeerSide.other_other] at carried
    rw [List.length_append] at shorter
    change _ = (session.peers side).socket.pending.length at shorter
    simp only [work, inFlight, PeerSide.other_other, here, there, Peer.withSender, List.length_drop,
      List.length_append]
    omega

/-- Whatever is on its way to an end, a call gets it on. -/
theorem Ready.progress (ready : session.Ready accepted) {side : PeerSide}
    (busy : ¬ session.Quiet side) :
    ∃ call next, session.Permitted call ∧ session.step call = some next ∧
      next.Ready accepted ∧ next.outstanding < session.outstanding := by
  have sound := (ready.sound.peers side).receiver
  rcases frame : nextFrame packetFormat (session.peers side).socket.rcvQueue.unread with
    _ | ⟨payload, rest⟩
  · have noWrap := sound.socket.noWrap_of_none frame
    rcases flight : session.inFlight side with _ | ⟨first, rest⟩
    · -- nothing can be received or taken, so something is pending at the other end
      refine ready.sync fun idle => busy ⟨idle, flight, frame⟩
    · obtain ⟨receiver, called, -⟩ :=
        sound.step_defined (.recvToBufNoPoll (.data first rest)) noWrap
      obtain ⟨⟨socket, retcode⟩, received, rfl⟩ := Option.map_eq_some_iff.mp called
      obtain ⟨-, appended, -⟩ := ZSocket.recvToBufNoPoll_spec sound.socket received
      have something := sound.socket.incoming_ne_nil noWrap first rest
      refine ready.receive called ?_ ?_
      · rw [flight]
        exact List.take_prefix _ _
      · have positive := List.length_pos_iff.mpr something
        rw [appended, List.length_append]
        change _ < 2 * ((session.peers side).receiver.socket.incoming _).length +
          (session.peers side).receiver.socket.rcvQueue.unread.length
        omega
  · -- a packet is complete, and is taken
    obtain ⟨rcvQueue, taken, -, behind, -⟩ :=
      ZSocket.recvToCmdNoPoll_of_some sound.socket maxDataSize frame
    have size := nextFrame_length packetFormat frame
    have called : (session.peers side).receiver.step (.recvToCmdNoPoll maxDataSize) = some _ :=
      congrArg (Option.map _) taken
    refine ready.receive called List.nil_prefix ?_
    show rcvQueue.unread.length < 2 * 0 + _
    rw [behind, size]
    show rest.length < 2 * 0 + (phLen + payload.length + rest.length)
    simp only [phLen]
    omega

/-- The connection can be drained from every sound state in which staging has room, in no more calls
than there are steps outstanding. -/
theorem Ready.drains (ready : session.Ready accepted) :
    ∃ calls final, calls.length ≤ session.outstanding ∧
      PartialRun.Each step Permitted session calls ∧
      PartialRun.run step session calls = some final ∧ final.Ready accepted ∧
      ∀ side, final.Quiet side := by
  refine PartialRun.exists_run_to_goal outstanding (fun state ready busy => ?_) ready
  obtain ⟨side, busy⟩ := not_forall.mp busy
  exact ready.progress busy

/-! ### The results -/

end Session

end SelftestNet
