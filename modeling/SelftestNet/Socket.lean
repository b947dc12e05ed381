/-
This file embeds `zSocket`: its state, the answers the kernel can give to the system
calls it makes, and the functions that receive, send and unpack, as the code
computes them.

A kernel answer is data of the run, and every answer is one the kernel can give: the
bytes of a `recv` are cut to the length asked for, the count of a `send` to the
length offered. A function whose control can reach its end without a `return` has an
optional value, `none` standing for the indeterminate one. A C pointer and a length
are one list; `NULL` is `none`.
-/

import Mathlib.Data.Nat.Digits.Defs
import SelftestNet.ByteBuffer

namespace SelftestNet

/-! ### Constants -/

/-- `PH_LEN`, the bytes of a packet header. -/
def phLen : Nat := 4

/-- `PACKET_MASK`. -/
def packetMask : Nat := trunkSize - 1

/-- `MAX_DATABUFFERSIZE`. -/
def maxDataBufferSize : Nat := trunkSize - 1

/-- `MAX_DATASIZE`. -/
def maxDataSize : Nat := maxDataBufferSize - phLen

/-- `INCOMPLETE_READ`. -/
def incompleteRead : BitVec 32 := 0x00000001#32

/-- `INCOMPLETE_WRITE`. -/
def incompleteWrite : BitVec 32 := 0x00000002#32

/-- The largest `int`. The code keeps the count of a transfer in an `int`, and the kernel never
transfers more in one call. -/
def intMax : Nat := 2 ^ 31 - 1

/-! ### Kernel answers -/

/-- The answer to one `::recv`: some bytes of the stream, would-block, end of stream, or an
error other than would-block. -/
inductive RecvAnswer
  | data (first : UInt8) (rest : List UInt8)
  | wouldBlock
  | closed
  | failed
  deriving DecidableEq

namespace RecvAnswer

/-- The bytes that a `::recv` of the given length writes. -/
def bytes (length : Nat) : RecvAnswer → List UInt8
  | data first rest => (first :: rest).take (min length intMax)
  | wouldBlock | closed | failed => []

/-- The value of a `::recv` of the given length. -/
def retcode (length : Nat) : RecvAnswer → Int
  | data first rest => ((data first rest).bytes length).length
  | wouldBlock => -1
  | closed => 0
  | failed => -1

end RecvAnswer

/-- The answer to one `::send`: it accepts `more + 1` bytes, or everything when less is offered;
it would block; or it fails with an error other than would-block. -/
inductive SendAnswer
  | took (more : Nat)
  | wouldBlock
  | failed
  deriving DecidableEq

namespace SendAnswer

/-- The bytes that a `::send` of the given length accepts. -/
def count (length : Nat) : SendAnswer → Nat
  | took more => min (more + 1) (min length intMax)
  | wouldBlock | failed => 0

/-- The value of a `::send` of the given length. -/
def retcode (length : Nat) : SendAnswer → Int
  | took more => (took more).count length
  | wouldBlock => -1
  | failed => -1

end SendAnswer

/-- The answer to one `::poll` of one descriptor: an event, saying whether `POLLIN` and `POLLOUT`
are among the returned ones, a timeout, or an error. -/
inductive PollAnswer
  | event (pollIn pollOut : Bool)
  | timeout
  | failed
  deriving DecidableEq

/-- `waitForWrite`. -/
def waitForWrite : PollAnswer → Int
  | .event _ pollOut => if pollOut then 1 else -1
  | .timeout => 0
  | .failed => -1

/-- The kernel's answers during one `sendRawData`: to the first `::send`, to the `::poll` of
`waitForWrite` and to the `::send` behind it, as far as the call gets to each. -/
structure SendIo where
  first : SendAnswer
  poll : PollAnswer
  second : SendAnswer
  deriving DecidableEq

/-- The kernel's answers during one `recvToBuf`, as far as the call gets to each. -/
structure RecvIo where
  first : RecvAnswer
  poll : PollAnswer
  second : RecvAnswer
  deriving DecidableEq

/-! ### The state of a socket -/

/-- `zSocket`, without the addresses and the time limits, which decide nothing here. -/
structure ZSocket where
  sock : Int
  rcvQueue : ByteBuffer
  rcvRawSize : Nat
  sndQueue : ByteBuffer
  encQueue : ByteBuffer
  currentCmd : Nat
  bitmask : BitVec 32

/-- A value that a sending function returns, with the socket it leaves and the bytes that the
kernel accepted during the call. -/
structure Sent (Value : Type) where
  socket : ZSocket
  taken : List UInt8
  value : Value

/-- Where a call stands that loops on the socket: returned, or waiting for the kernel. -/
inductive CallStatus
  | returned (result : Bool)
  | waiting
  deriving DecidableEq

/-- What `recvToCmd_NoPoll` does: the socket it leaves, the bytes it copied through `pstrCmd` and
the value it returns. -/
structure Extracted where
  socket : ZSocket
  copied : List UInt8
  retval : Option Int

namespace Extracted

/-- The payloads of the packets that left `_rcv_queue`. -/
def removed (out : Extracted) : List (List UInt8) :=
  if out.retval.isSome then [out.copied] else []

/-- What the caller's memory at `pstrCmd` holds behind the copy, which C leaves undefined when it
ends behind that memory. -/
def overwrite (out : Extracted) (memory : List UInt8) : Option (List UInt8) :=
  Region.write memory 0 out.copied

end Extracted

/-- What `recvToCmd` does: the socket it leaves, the payloads of the packets that left `_rcv_queue`,
what the memory at `pstrCmd` holds and the value it returns. -/
structure Fetched where
  socket : ZSocket
  removed : List (List UInt8)
  pstrCmd : List UInt8
  retval : Option Int

namespace ZSocket

/-- `set_flag`. -/
def setFlag (socket : ZSocket) (flag : BitVec 32) : ZSocket :=
  { socket with bitmask := socket.bitmask ||| flag }

/-- `isset_flag`. -/
def issetFlag (socket : ZSocket) (flag : BitVec 32) : Bool := socket.bitmask &&& flag != 0

/-- `clear_flag`. -/
def clearFlag (socket : ZSocket) (flag : BitVec 32) : ZSocket :=
  { socket with bitmask := socket.bitmask &&& ~~~flag }

@[simp]
theorem issetFlag_clearFlag (socket : ZSocket) (flag : BitVec 32) :
    (socket.clearFlag flag).issetFlag flag = false := by
  unfold issetFlag clearFlag
  simp [BitVec.and_assoc]

theorem issetFlag_setFlag (socket : ZSocket) {flag : BitVec 32} (some : flag ≠ 0) :
    (socket.setFlag flag).issetFlag flag = true := by
  have kept : (socket.bitmask ||| flag) &&& flag = flag := by
    ext position inside
    simp only [BitVec.getElem_and, BitVec.getElem_or]
    cases flag[position] <;> simp
  unfold issetFlag setFlag
  rw [bne_iff_ne, kept]
  exact some

/-- The state that the constructor builds. -/
def new (sock : Int) : ZSocket where
  sock := sock
  rcvQueue := ByteBuffer.new
  rcvRawSize := 0
  sndQueue := ByteBuffer.new
  encQueue := ByteBuffer.new
  currentCmd := 0
  bitmask := incompleteRead ||| incompleteWrite

/-- The constructor. Its `assert(-1 == sock)` ends the process for every open descriptor, unless
assertions are compiled out. -/
def construct (assertions : Bool) (sock : Int) : Option ZSocket :=
  if assertions ∧ sock ≠ -1 then none else some (new sock)

theorem construct_eq_new {assertions : Bool} {sock : Int} {socket : ZSocket}
    (defined : construct assertions sock = some socket) : socket = new sock := by
  rw [construct] at defined
  split at defined
  · cases defined
  · exact (Option.some.inj defined).symm

/-! ### Receiving -/

/-- One `::recv` to `wr_buf()` of `wr_size()` bytes. -/
def recvInto (socket : ZSocket) (answer : RecvAnswer) : Option ZSocket :=
  (socket.rcvQueue.fill (answer.bytes socket.rcvQueue.wrSize)).map fun rcvQueue =>
    { socket with rcvQueue }

/-- What `recvToBuf_NoPoll()` and `recvToBuf` do with the value of their last `::recv`. -/
def afterRecv (socket : ZSocket) (retcode : Int) : ZSocket × Int :=
  if 0 < retcode then
    let socket :=
      if retcode < socket.rcvQueue.wrSize then socket.setFlag incompleteRead else socket
    ({ socket with
        rcvQueue := socket.rcvQueue.wrFlip retcode.toNat
        rcvRawSize := Word.add 32 socket.rcvRawSize retcode.toNat }, retcode)
  else if retcode = 0 then (socket, -1)
  else (socket, retcode)

/-- The `wr_reserve` in front of a `::recv`. -/
def reserve (socket : ZSocket) : ZSocket :=
  { socket with rcvQueue := socket.rcvQueue.wrReserve maxDataBufferSize }

/-- `recvToBuf_NoPoll()`. -/
def recvToBufNoPoll (socket : ZSocket) (answer : RecvAnswer) : Option (ZSocket × Int) :=
  (socket.reserve.recvInto answer).map fun filled =>
    if answer = .wouldBlock then (filled, 0)
    else filled.afterRecv (answer.retcode socket.reserve.rcvQueue.wrSize)

/-- `recvToBuf` from its label `do_select` on. It waits for the socket to become writable. -/
def selectRecv (socket : ZSocket) (io : RecvIo) : Option (ZSocket × Int) :=
  let retcode := waitForWrite io.poll
  if retcode = 1 then
    (socket.recvInto io.second).map fun filled =>
      filled.afterRecv (io.second.retcode socket.rcvQueue.wrSize)
  else some (socket, retcode)

/-- `recvToBuf`. The path of the flag does not reserve. -/
def recvToBuf (socket : ZSocket) (io : RecvIo) : Option (ZSocket × Int) :=
  if socket.issetFlag incompleteRead then (socket.clearFlag incompleteRead).selectRecv io
  else
    (socket.reserve.recvInto io.first).bind fun filled =>
      if io.first = .wouldBlock then filled.selectRecv io
      else some (filled.afterRecv (io.first.retcode socket.reserve.rcvQueue.wrSize))

/-- `packetMinSize`. -/
def packetMinSize : Nat := phLen

/-- `packetSize` of the packet whose header is given. -/
def packetSize (header : List UInt8) : Nat :=
  phLen + (Nat.ofDigits 256 (header.map UInt8.toNat) &&& packetMask)

/-- `packetUnpack`: the payload that is copied out of the packet at `start`. -/
def packetUnpack (buffer : List UInt8) (start nPacketLen : Nat) : Option (List UInt8) :=
  Region.read buffer (start + phLen) (nPacketLen - phLen)

/-- `recvToCmd_NoPoll`. The code never looks at `nCmdLen`. -/
def recvToCmdNoPoll (socket : ZSocket) (_nCmdLen : Nat) : Option Extracted :=
  let queue := socket.rcvQueue
  if packetMinSize ≤ socket.rcvRawSize then
    (Region.read queue.buffer queue.offPtr phLen).bind fun header =>
      let nRecordLen := packetSize header
      if nRecordLen ≤ socket.rcvRawSize then
        (packetUnpack queue.buffer queue.offPtr nRecordLen).bind fun payload =>
          (queue.rdFlip nRecordLen).map fun rcvQueue =>
            { socket := { socket with
                rcvQueue
                rcvRawSize := Word.sub 32 socket.rcvRawSize nRecordLen }
              copied := payload
              retval := some payload.length }
      else some { socket, copied := [], retval := none }
  else some { socket, copied := [], retval := none }

/-- `recvToCmd` into the caller's memory at `pstrCmd`. It drops the value of both its
`recvToCmd_NoPoll` and has no `return` at its end. -/
def recvToCmd (socket : ZSocket) (pstrCmd : List UInt8) (nCmdLen : Nat) (wait : Bool)
    (io : RecvIo) : Option Fetched :=
  (socket.recvToCmdNoPoll nCmdLen).bind fun first =>
    (first.overwrite pstrCmd).bind fun pstrCmd =>
      (first.socket.recvToBuf io).bind fun polled =>
        let retval := polled.2
        if retval = -1 ∨ (retval = 0 ∧ wait = false) then
          some { socket := polled.1, removed := first.removed, pstrCmd, retval := some retval }
        else
          (polled.1.recvToCmdNoPoll nCmdLen).bind fun second =>
            (second.overwrite pstrCmd).map fun pstrCmd =>
              { socket := second.socket
                removed := first.removed ++ second.removed
                pstrCmd
                retval := none }

/-! ### Sending -/

/-- The last `::send` of `sendRawData` and what follows it. -/
def finishSend (socket : ZSocket) (buffer : List UInt8) (answer : SendAnswer) : Sent Int :=
  let retcode := answer.retcode buffer.length
  { socket :=
      if 0 < retcode ∧ retcode < buffer.length then socket.setFlag incompleteWrite else socket
    taken := buffer.take (answer.count buffer.length)
    value := retcode }

/-- `sendRawData` from its label `do_select` on. -/
def doSelect (socket : ZSocket) (buffer : List UInt8) (io : SendIo) : Sent Int :=
  let retcode := waitForWrite io.poll
  if retcode = 1 then socket.finishSend buffer io.second
  else { socket, taken := [], value := retcode }

/-- `sendRawData`. -/
def sendRawData (socket : ZSocket) (buffer : List UInt8) (io : SendIo) : Sent Int :=
  if socket.issetFlag incompleteWrite then
    (socket.clearFlag incompleteWrite).doSelect buffer io
  else if io.first = .wouldBlock then socket.doSelect buffer io
  else socket.finishSend buffer io.first

/-- The loop of `sendRawDataIM`, one `sendRawData` for each of the given answers. -/
def sendLoop (socket : ZSocket) (buffer : List UInt8) (offset : Nat) :
    List SendIo → Sent CallStatus
  | [] => { socket, taken := [], value := .waiting }
  | io :: rest =>
    let sent := socket.sendRawData (buffer.drop offset) io
    if sent.value = -1 then { sent with value := .returned false }
    else
      let offset := offset + sent.value.toNat
      if offset < buffer.length then
        let later := sendLoop sent.socket buffer offset rest
        { later with taken := sent.taken ++ later.taken }
      else { sent with value := .returned (offset == buffer.length) }

/-- `sendRawDataIM`. -/
def sendRawDataIM (socket : ZSocket) (buffer : List UInt8) (ios : List SendIo) :
    Sent CallStatus :=
  if buffer = [] then { socket, taken := [], value := .returned false }
  else socket.sendLoop buffer 0 ios

/-- The common body of `sendCmd` and `sendCmdNoPack`. -/
def sendBytes (socket : ZSocket) (pstrCmd : Option (List UInt8)) (buffer : Bool)
    (ios : List SendIo) : Option (Sent CallStatus) :=
  match pstrCmd with
  | none => some { socket, taken := [], value := .returned false }
  | some cmd =>
    if cmd = [] then some { socket, taken := [], value := .returned false }
    else if buffer then
      (socket.sndQueue.put cmd).map fun sndQueue =>
        { socket := { socket with sndQueue, currentCmd := cmd.length }
          taken := []
          value := .returned true }
    else some (socket.sendRawDataIM cmd ios)

/-- `sendCmd`. A length that is not positive is the empty command. -/
def sendCmd (socket : ZSocket) (pstrCmd : Option (List UInt8)) (buffer : Bool)
    (ios : List SendIo) : Option (Sent CallStatus) :=
  socket.sendBytes pstrCmd buffer ios

/-- `sendCmdNoPack`, whose text is that of `sendCmd`. -/
def sendCmdNoPack (socket : ZSocket) (pstrCmd : Option (List UInt8)) (buffer : Bool)
    (ios : List SendIo) : Option (Sent CallStatus) :=
  socket.sendBytes pstrCmd buffer ios

/-- `sendRawData_NoPoll` of the bytes from a pointer to the end of its vector. The length is an
`int`, which `::send` takes as a `size_t`. -/
def sendRawDataNoPoll (socket : ZSocket) (memory : List UInt8) (nSize : Int)
    (answer : SendAnswer) : Option (Sent Int) :=
  let length := (nSize % 2 ^ 64).toNat
  let retcode := answer.retcode length
  (Region.read memory 0 (answer.count length)).map fun taken =>
    if answer = .wouldBlock then { socket, taken, value := 0 }
    else
      { socket := if 0 < retcode ∧ retcode < nSize then socket.setFlag incompleteWrite else socket
        taken
        value := retcode }

/-- The first half of `sync`: everything in `_snd_queue` moves behind `_enc_queue`. -/
def stage (socket : ZSocket) : Option ZSocket :=
  if socket.sndQueue.rdReady then
    (Region.read socket.sndQueue.buffer socket.sndQueue.offPtr socket.sndQueue.rdSize).bind
      fun bytes => (socket.encQueue.put bytes).bind fun encQueue =>
        (socket.sndQueue.rdFlip socket.sndQueue.rdSize).map fun sndQueue =>
          { socket with encQueue, sndQueue }
  else some socket

/-- The second half of `sync`: one `::send` of what is in `_enc_queue`. -/
def flush (socket : ZSocket) (answer : SendAnswer) : Option (Sent (Option Bool)) :=
  let queue := socket.encQueue
  if queue.rdReady then
    (socket.sendRawDataNoPoll (queue.buffer.drop queue.offPtr) (Word.toInt 32 queue.rdSize)
      answer).bind fun sent =>
        if 0 < sent.value then
          (queue.rdFlip sent.value.toNat).map fun encQueue =>
            { sent with socket := { sent.socket with encQueue }, value := none }
        else if sent.value = -1 then some { sent with value := some false }
        else some { sent with value := none }
  else some { socket, taken := [], value := none }

/-- `sync`. No path but the one of a hard error has a `return`. -/
def sync (socket : ZSocket) (answer : SendAnswer) : Option (Sent (Option Bool)) :=
  socket.stage.bind fun staged => staged.flush answer

/-- The second half of `force_sync`: `sendRawDataIM` of what is in `_enc_queue`, whose length
becomes an `int`, and a `reset` whatever that returns. The value says whether the call is over. -/
def forceFlush (socket : ZSocket) (ios : List SendIo) : Option (Sent Bool) :=
  let queue := socket.encQueue
  if queue.rdReady then
    (Region.read queue.buffer queue.offPtr (Word.toInt 32 queue.rdSize).toNat).map fun bytes =>
      let sent := socket.sendRawDataIM bytes ios
      match sent.value with
      | .returned _ =>
        { sent with
          socket := { sent.socket with encQueue := sent.socket.encQueue.reset }
          value := true }
      | .waiting => { sent with value := false }
  else some { socket, taken := [], value := true }

/-- `force_sync`, which has no `return`. -/
def forceSync (socket : ZSocket) (ios : List SendIo) : Option (Sent Bool) :=
  socket.stage.bind fun staged => staged.forceFlush ios

end ZSocket

end SelftestNet
