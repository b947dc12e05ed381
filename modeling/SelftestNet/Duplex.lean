/-
This file proves that the two halves of a socket do not get into each other's way. The
receiving functions and the sending ones work on queues of their own, but they share the
word of flags, and `recvToBuf` even waits for the socket to become writable. Every
function is shown to act on a socket put together from two others as it acts on the one
that its half comes from; so a run of calls of both kinds, in any order, is the run of the
receiving calls beside the run of the sending ones, with the same values returned.
-/

import SelftestNet.Run
import SelftestNet.Socket

namespace SelftestNet

/-! ### Words put together -/

section Blend

variable {width : Nat} {mask flag : BitVec width}

/-- The bits of one word inside a mask and those of another outside it. -/
def blend (mask inside outside : BitVec width) : BitVec width :=
  inside &&& mask ||| outside &&& ~~~mask

theorem getElem_blend (mask inside outside : BitVec width) {position : Nat}
    (within : position < width) :
    (blend mask inside outside)[position] =
      if mask[position] then inside[position] else outside[position] := by
  simp only [blend, BitVec.getElem_or, BitVec.getElem_and, BitVec.getElem_not]
  cases mask[position] <;> simp

theorem blend_self (mask word : BitVec width) : blend mask word word = word := by
  ext position within
  rw [getElem_blend, ite_self]

theorem blend_comm (mask inside outside : BitVec width) :
    blend mask inside outside = blend (~~~mask) outside inside := by
  ext position within
  simp only [getElem_blend, BitVec.getElem_not]
  cases mask[position] <;> rfl

theorem getElem_of_covered (covered : flag &&& mask = flag) {position : Nat}
    (within : position < width) (set : flag[position] = true) : mask[position] = true := by
  have both := congrArg (fun word : BitVec width => word[position]) covered
  rw [BitVec.getElem_and, set, Bool.true_and] at both
  exact both

/-- A flag inside the mask is set, cleared and tested in the word that the inside comes from. -/
theorem blend_or (covered : flag &&& mask = flag) (inside outside : BitVec width) :
    blend mask inside outside ||| flag = blend mask (inside ||| flag) outside := by
  ext position within
  simp only [getElem_blend, BitVec.getElem_or]
  cases set : flag[position] with
  | true => simp [getElem_of_covered covered within set]
  | false => simp

theorem blend_and_not (covered : flag &&& mask = flag) (inside outside : BitVec width) :
    blend mask inside outside &&& ~~~flag = blend mask (inside &&& ~~~flag) outside := by
  ext position within
  simp only [getElem_blend, BitVec.getElem_and, BitVec.getElem_not]
  cases set : flag[position] with
  | true => simp [getElem_of_covered covered within set]
  | false => simp

theorem blend_and (covered : flag &&& mask = flag) (inside outside : BitVec width) :
    blend mask inside outside &&& flag = inside &&& flag := by
  ext position within
  simp only [getElem_blend, BitVec.getElem_and]
  cases set : flag[position] with
  | true => simp [getElem_of_covered covered within set]
  | false => simp

end Blend

/-! ### Sockets put together -/

namespace ZSocket

/-- The receiving half of one socket and the sending half of another. -/
def join (receiving sending : ZSocket) : ZSocket where
  sock := sending.sock
  rcvQueue := receiving.rcvQueue
  rcvRawSize := receiving.rcvRawSize
  sndQueue := sending.sndQueue
  encQueue := sending.encQueue
  currentCmd := sending.currentCmd
  bitmask := blend incompleteRead receiving.bitmask sending.bitmask

@[simp]
theorem join_self (socket : ZSocket) : socket.join socket = socket := by
  rw [join, blend_self]

variable (receiving sending : ZSocket)

theorem setFlag_join_read :
    (receiving.join sending).setFlag incompleteRead =
      (receiving.setFlag incompleteRead).join sending := by
  simp only [setFlag, join, blend_or (show incompleteRead &&& incompleteRead = _ by decide)]

theorem clearFlag_join_read :
    (receiving.join sending).clearFlag incompleteRead =
      (receiving.clearFlag incompleteRead).join sending := by
  simp only [clearFlag, join, blend_and_not (show incompleteRead &&& incompleteRead = _ by decide)]

theorem issetFlag_join_read :
    (receiving.join sending).issetFlag incompleteRead = receiving.issetFlag incompleteRead := by
  simp only [issetFlag, join, blend_and (show incompleteRead &&& incompleteRead = _ by decide)]

theorem incompleteWrite_covered : incompleteWrite &&& ~~~incompleteRead = incompleteWrite := by
  decide

theorem setFlag_join_write :
    (receiving.join sending).setFlag incompleteWrite =
      receiving.join (sending.setFlag incompleteWrite) := by
  simp only [setFlag, join, blend_comm incompleteRead, blend_or incompleteWrite_covered]

theorem clearFlag_join_write :
    (receiving.join sending).clearFlag incompleteWrite =
      receiving.join (sending.clearFlag incompleteWrite) := by
  simp only [clearFlag, join, blend_comm incompleteRead, blend_and_not incompleteWrite_covered]

theorem issetFlag_join_write :
    (receiving.join sending).issetFlag incompleteWrite = sending.issetFlag incompleteWrite := by
  simp only [issetFlag, join, blend_comm incompleteRead, blend_and incompleteWrite_covered]

/-! ### The receiving functions -/

theorem recvInto_join (answer : RecvAnswer) :
    (receiving.join sending).recvInto answer =
      (receiving.recvInto answer).map fun filled => filled.join sending := by
  rw [recvInto, recvInto, Option.map_map]
  rfl

theorem afterRecv_join (retcode : Int) :
    (receiving.join sending).afterRecv retcode =
      ((receiving.afterRecv retcode).1.join sending, (receiving.afterRecv retcode).2) := by
  unfold afterRecv
  rw [setFlag_join_read]
  split
  · by_cases short : retcode < receiving.rcvQueue.wrSize
    · rw [if_pos short, if_pos (show retcode < (receiving.join sending).rcvQueue.wrSize from short)]
      rfl
    · rw [if_neg short,
        if_neg (show ¬ retcode < (receiving.join sending).rcvQueue.wrSize from short)]
      rfl
  · split <;> rfl

theorem recvToBufNoPoll_join (answer : RecvAnswer) :
    (receiving.join sending).recvToBufNoPoll answer =
      (receiving.recvToBufNoPoll answer).map fun result => (result.1.join sending, result.2) := by
  have reserved : (receiving.join sending).reserve = receiving.reserve.join sending := rfl
  rw [recvToBufNoPoll, recvToBufNoPoll, reserved, recvInto_join, Option.map_map, Option.map_map]
  refine congrArg (Option.map · _) (funext fun filled => ?_)
  simp only [Function.comp_apply]
  split
  · rfl
  · exact afterRecv_join filled sending _

theorem selectRecv_join (io : RecvIo) :
    (receiving.join sending).selectRecv io =
      (receiving.selectRecv io).map fun result => (result.1.join sending, result.2) := by
  unfold selectRecv
  dsimp only
  split
  · rw [recvInto_join, Option.map_map, Option.map_map]
    exact congrArg (Option.map · _) (funext fun filled => afterRecv_join filled sending _)
  · rfl

theorem recvToBuf_join (io : RecvIo) :
    (receiving.join sending).recvToBuf io =
      (receiving.recvToBuf io).map fun result => (result.1.join sending, result.2) := by
  have reserved : (receiving.join sending).reserve = receiving.reserve.join sending := rfl
  unfold recvToBuf
  rw [issetFlag_join_read, clearFlag_join_read, reserved, recvInto_join]
  split
  · exact selectRecv_join _ sending io
  · rw [Option.bind_map, Option.map_bind]
    refine congrArg (Option.bind _) (funext fun filled => ?_)
    simp only [Function.comp_apply]
    split
    · exact selectRecv_join filled sending io
    · exact congrArg some (afterRecv_join filled sending _)

theorem recvToCmdNoPoll_join (nCmdLen : Nat) :
    (receiving.join sending).recvToCmdNoPoll nCmdLen =
      (receiving.recvToCmdNoPoll nCmdLen).map fun out =>
        { out with socket := out.socket.join sending } := by
  unfold recvToCmdNoPoll
  dsimp only
  rw [apply_ite (Option.map _)]
  refine if_congr Iff.rfl ?_ rfl
  rw [Option.map_bind]
  refine congrArg (Option.bind _) (funext fun header => ?_)
  rw [Function.comp_apply, apply_ite (Option.map _)]
  refine if_congr Iff.rfl ?_ rfl
  rw [Option.map_bind]
  refine congrArg (Option.bind _) (funext fun payload => ?_)
  rw [Function.comp_apply, Option.map_map]
  rfl

theorem recvToCmd_join (pstrCmd : List UInt8) (nCmdLen : Nat) (wait : Bool) (io : RecvIo) :
    (receiving.join sending).recvToCmd pstrCmd nCmdLen wait io =
      (receiving.recvToCmd pstrCmd nCmdLen wait io).map fun out =>
        { out with socket := out.socket.join sending } := by
  rw [recvToCmd, recvToCmd, recvToCmdNoPoll_join, Option.bind_map, Option.map_bind]
  refine congrArg (Option.bind _) (funext fun first => ?_)
  rw [Function.comp_apply, Function.comp_apply, Option.map_bind]
  refine congrArg (Option.bind _) (funext fun memory => ?_)
  rw [Function.comp_apply, recvToBuf_join, Option.bind_map, Option.map_bind]
  refine congrArg (Option.bind _) (funext fun polled => ?_)
  simp only [Function.comp_apply]
  split
  · rfl
  · rw [recvToCmdNoPoll_join, Option.bind_map, Option.map_bind]
    refine congrArg (Option.bind _) (funext fun second => ?_)
    rw [Function.comp_apply, Function.comp_apply, Option.map_map]
    rfl

end ZSocket

/-! ### The sending functions -/

/-- What a sending function returns, with the receiving half of another socket. -/
def Sent.within {Value : Type} (receiving : ZSocket) (sent : Sent Value) : Sent Value :=
  { sent with socket := receiving.join sent.socket }

namespace ZSocket

variable (receiving sending : ZSocket)

theorem finishSend_join (buffer : List UInt8) (answer : SendAnswer) :
    (receiving.join sending).finishSend buffer answer =
      (sending.finishSend buffer answer).within receiving := by
  unfold finishSend Sent.within
  dsimp only
  rw [setFlag_join_write, apply_ite receiving.join]

theorem doSelect_join (buffer : List UInt8) (io : SendIo) :
    (receiving.join sending).doSelect buffer io =
      (sending.doSelect buffer io).within receiving := by
  unfold doSelect
  dsimp only
  rw [finishSend_join, apply_ite (Sent.within receiving)]
  rfl

theorem sendRawData_join (buffer : List UInt8) (io : SendIo) :
    (receiving.join sending).sendRawData buffer io =
      (sending.sendRawData buffer io).within receiving := by
  unfold sendRawData
  rw [issetFlag_join_write, clearFlag_join_write]
  split
  · exact doSelect_join receiving _ buffer io
  · split
    · exact doSelect_join receiving sending buffer io
    · exact finishSend_join receiving sending buffer io.first

theorem sendLoop_join (buffer : List UInt8) (offset : Nat) (ios : List SendIo) :
    (receiving.join sending).sendLoop buffer offset ios =
      (sending.sendLoop buffer offset ios).within receiving := by
  induction ios generalizing sending offset with
  | nil => rfl
  | cons io rest inductionHypothesis =>
    simp only [sendLoop, sendRawData_join, Sent.within, inductionHypothesis]
    split
    · rfl
    · split <;> rfl

theorem sendRawDataIM_join (buffer : List UInt8) (ios : List SendIo) :
    (receiving.join sending).sendRawDataIM buffer ios =
      (sending.sendRawDataIM buffer ios).within receiving := by
  unfold sendRawDataIM
  split
  · rfl
  · exact sendLoop_join receiving sending buffer 0 ios

theorem sendBytes_join (pstrCmd : Option (List UInt8)) (buffer : Bool) (ios : List SendIo) :
    (receiving.join sending).sendBytes pstrCmd buffer ios =
      (sending.sendBytes pstrCmd buffer ios).map (Sent.within receiving) := by
  rcases pstrCmd with _ | cmd
  · rfl
  · unfold sendBytes
    dsimp only
    split
    · rfl
    · split
      · rw [Option.map_map]
        rfl
      · exact congrArg some (sendRawDataIM_join receiving sending cmd ios)

theorem sendRawDataNoPoll_join (memory : List UInt8) (nSize : Int) (answer : SendAnswer) :
    (receiving.join sending).sendRawDataNoPoll memory nSize answer =
      (sending.sendRawDataNoPoll memory nSize answer).map (Sent.within receiving) := by
  unfold sendRawDataNoPoll
  dsimp only
  rw [Option.map_map]
  refine congrArg (Option.map · _) (funext fun taken => ?_)
  rw [Function.comp_apply, apply_ite (Sent.within receiving), setFlag_join_write,
    ← apply_ite receiving.join]
  rfl

theorem stage_join :
    (receiving.join sending).stage = sending.stage.map receiving.join := by
  unfold stage
  rw [apply_ite (Option.map _)]
  refine if_congr Iff.rfl ?_ rfl
  rw [Option.map_bind]
  refine congrArg (Option.bind _) (funext fun bytes => ?_)
  rw [Function.comp_apply, Option.map_bind]
  refine congrArg (Option.bind _) (funext fun encQueue => ?_)
  rw [Function.comp_apply, Option.map_map]
  rfl

theorem flush_join (answer : SendAnswer) :
    (receiving.join sending).flush answer =
      (sending.flush answer).map (Sent.within receiving) := by
  unfold flush
  dsimp only
  rw [apply_ite (Option.map _)]
  refine if_congr Iff.rfl ?_ rfl
  rw [sendRawDataNoPoll_join, Option.bind_map, Option.map_bind]
  refine congrArg (Option.bind _) (funext fun sent => ?_)
  simp only [Function.comp_apply]
  rw [apply_ite (Option.map _), apply_ite (Option.map _), Option.map_map]
  rfl

theorem sync_join (answer : SendAnswer) :
    (receiving.join sending).sync answer =
      (sending.sync answer).map (Sent.within receiving) := by
  rw [sync, sync, stage_join, Option.bind_map, Option.map_bind]
  exact congrArg (Option.bind _) (funext fun staged => flush_join receiving staged answer)

theorem forceFlush_join (ios : List SendIo) :
    (receiving.join sending).forceFlush ios =
      (sending.forceFlush ios).map (Sent.within receiving) := by
  unfold forceFlush
  dsimp only
  rw [apply_ite (Option.map _)]
  refine if_congr Iff.rfl ?_ rfl
  rw [Option.map_map]
  refine congrArg (Option.map · _) (funext fun bytes => ?_)
  rw [Function.comp_apply, sendRawDataIM_join]
  rcases status : (sending.sendRawDataIM bytes ios).value with result | _
  · simp only [Sent.within, status]
    rfl
  · simp only [Sent.within, status]

theorem forceSync_join (ios : List SendIo) :
    (receiving.join sending).forceSync ios =
      (sending.forceSync ios).map (Sent.within receiving) := by
  rw [forceSync, forceSync, stage_join, Option.bind_map, Option.map_bind]
  exact congrArg (Option.bind _) (funext fun staged => forceFlush_join receiving staged ios)

end ZSocket

/-! ### Runs of a socket -/

/-- One call on a socket, with the kernel's answers during it. -/
inductive SocketCall
  | recvToBufNoPoll (answer : RecvAnswer)
  | recvToBuf (io : RecvIo)
  | recvToCmdNoPoll (nCmdLen : Nat)
  | recvToCmd (pstrCmd : List UInt8) (nCmdLen : Nat) (wait : Bool) (io : RecvIo)
  | sendRawData (pBuffer : List UInt8) (io : SendIo)
  | sendRawDataIM (pBuffer : List UInt8) (ios : List SendIo)
  | sendRawDataNoPoll (memory : List UInt8) (nSize : Int) (answer : SendAnswer)
  | sendCmd (pstrCmd : Option (List UInt8)) (buffer : Bool) (ios : List SendIo)
  | sendCmdNoPack (pstrCmd : Option (List UInt8)) (buffer : Bool) (ios : List SendIo)
  | sync (answer : SendAnswer)
  | forceSync (ios : List SendIo)

/-- The call is one of the receiving half. -/
def SocketCall.receives : SocketCall → Bool
  | .recvToBufNoPoll _ | .recvToBuf _ | .recvToCmdNoPoll _ | .recvToCmd _ _ _ _ => true
  | .sendRawData _ _ | .sendRawDataIM _ _ | .sendRawDataNoPoll _ _ _ | .sendCmd _ _ _
  | .sendCmdNoPack _ _ _ | .sync _ | .forceSync _ => false

/-- What a call shows of itself: the value it returns, what it leaves at `pstrCmd` and what it
hands to the kernel. -/
inductive Shown
  | received (retcode : Int)
  | extracted (copied : List UInt8) (retval : Option Int)
  | fetched (removed : List (List UInt8)) (pstrCmd : List UInt8) (retval : Option Int)
  | sent (taken : List UInt8) (retcode : Int)
  | ended (taken : List UInt8) (status : CallStatus)
  | synced (taken : List UInt8) (retval : Option Bool)
  | forced (taken : List UInt8) (returns : Bool)
  deriving DecidableEq

/-- A result that a sending function returns, with the value as it is shown. -/
def Sent.shown {Value : Type} (shows : List UInt8 → Value → Shown) (sent : Sent Value) :
    ZSocket × Shown := (sent.socket, shows sent.taken sent.value)

namespace ZSocket

/-- One call. -/
def call (socket : ZSocket) : SocketCall → Option (ZSocket × Shown)
  | .recvToBufNoPoll answer =>
    (socket.recvToBufNoPoll answer).map fun result => (result.1, .received result.2)
  | .recvToBuf io => (socket.recvToBuf io).map fun result => (result.1, .received result.2)
  | .recvToCmdNoPoll nCmdLen =>
    (socket.recvToCmdNoPoll nCmdLen).map fun out => (out.socket, .extracted out.copied out.retval)
  | .recvToCmd pstrCmd nCmdLen wait io =>
    (socket.recvToCmd pstrCmd nCmdLen wait io).map fun out =>
      (out.socket, .fetched out.removed out.pstrCmd out.retval)
  | .sendRawData pBuffer io => some ((socket.sendRawData pBuffer io).shown .sent)
  | .sendRawDataIM pBuffer ios => some ((socket.sendRawDataIM pBuffer ios).shown .ended)
  | .sendRawDataNoPoll memory nSize answer =>
    (socket.sendRawDataNoPoll memory nSize answer).map (Sent.shown .sent)
  | .sendCmd pstrCmd buffer ios =>
    (socket.sendCmd pstrCmd buffer ios).map (Sent.shown .ended)
  | .sendCmdNoPack pstrCmd buffer ios =>
    (socket.sendCmdNoPack pstrCmd buffer ios).map (Sent.shown .ended)
  | .sync answer => (socket.sync answer).map (Sent.shown .synced)
  | .forceSync ios => (socket.forceSync ios).map (Sent.shown .forced)

variable (receiving sending : ZSocket)

theorem call_join_receives {call : SocketCall} (receives : call.receives = true) :
    (receiving.join sending).call call =
      (receiving.call call).map fun result => (result.1.join sending, result.2) := by
  cases call with
  | recvToBufNoPoll answer =>
    simp only [ZSocket.call, recvToBufNoPoll_join, Option.map_map, Function.comp_def]
  | recvToBuf io => simp only [ZSocket.call, recvToBuf_join, Option.map_map, Function.comp_def]
  | recvToCmdNoPoll nCmdLen =>
    simp only [ZSocket.call, recvToCmdNoPoll_join, Option.map_map, Function.comp_def]
  | recvToCmd pstrCmd nCmdLen wait io =>
    simp only [ZSocket.call, recvToCmd_join, Option.map_map, Function.comp_def]
  | sendRawData | sendRawDataIM | sendRawDataNoPoll | sendCmd | sendCmdNoPack | sync | forceSync =>
    cases receives

theorem call_join_sends {call : SocketCall} (sends : call.receives = false) :
    (receiving.join sending).call call =
      (sending.call call).map fun result => (receiving.join result.1, result.2) := by
  cases call with
  | recvToBufNoPoll | recvToBuf | recvToCmdNoPoll | recvToCmd => cases sends
  | sendRawData pBuffer io =>
    rw [ZSocket.call, sendRawData_join]
    rfl
  | sendRawDataIM pBuffer ios =>
    rw [ZSocket.call, sendRawDataIM_join]
    rfl
  | sendRawDataNoPoll memory nSize answer =>
    rw [ZSocket.call, sendRawDataNoPoll_join, Option.map_map, ZSocket.call, Option.map_map]
    rfl
  | sendCmd pstrCmd buffer ios =>
    rw [ZSocket.call, sendCmd, sendBytes_join, Option.map_map, ZSocket.call, Option.map_map]
    rfl
  | sendCmdNoPack pstrCmd buffer ios =>
    rw [ZSocket.call, sendCmdNoPack, sendBytes_join, Option.map_map, ZSocket.call, Option.map_map]
    rfl
  | sync answer =>
    rw [ZSocket.call, sync_join, Option.map_map, ZSocket.call, Option.map_map]
    rfl
  | forceSync ios =>
    rw [ZSocket.call, forceSync_join, Option.map_map, ZSocket.call, Option.map_map]
    rfl

/-- A receiving call leaves the sending half alone. -/
theorem eq_join_of_receives (call : SocketCall) (receives : call.receives = true)
    {socket next : ZSocket} {shown : Shown} (called : socket.call call = some (next, shown)) :
    next = next.join socket := by
  have joined := call_join_receives socket socket receives
  rw [join_self, called, Option.map_some, Option.some.injEq] at joined
  exact congrArg Prod.fst joined

/-- A sending call leaves the receiving half alone. -/
theorem eq_join_of_sends (call : SocketCall) (sends : call.receives = false)
    {socket next : ZSocket} {shown : Shown} (called : socket.call call = some (next, shown)) :
    next = socket.join next := by
  have joined := call_join_sends socket socket sends
  rw [join_self, called, Option.map_some, Option.some.injEq] at joined
  exact congrArg Prod.fst joined

end ZSocket

/-- A socket with what the calls on either half have shown so far. -/
structure Endpoint where
  socket : ZSocket
  receiving : List Shown
  sending : List Shown

namespace Endpoint

/-- One call, recorded with its half. -/
def step (endpoint : Endpoint) (call : SocketCall) : Option Endpoint :=
  (endpoint.socket.call call).map fun result =>
    if call.receives then
      { endpoint with socket := result.1, receiving := endpoint.receiving ++ [result.2] }
    else { endpoint with socket := result.1, sending := endpoint.sending ++ [result.2] }

/-- The receiving half of one endpoint and the sending half of another. -/
def join (receiving sending : Endpoint) : Endpoint where
  socket := receiving.socket.join sending.socket
  receiving := receiving.receiving
  sending := sending.sending

@[simp]
theorem join_self (endpoint : Endpoint) : endpoint.join endpoint = endpoint := by
  rw [join, ZSocket.join_self]

theorem step_join_receives (receiving sending : Endpoint) (call : SocketCall)
    (receives : call.receives = true) :
    (receiving.join sending).step call =
      (receiving.step call).map fun next => next.join sending := by
  rw [step, step, join, ZSocket.call_join_receives _ _ receives, Option.map_map, Option.map_map]
  simp only [Function.comp_def, receives, if_true, join]

theorem step_join_sends (receiving sending : Endpoint) (call : SocketCall)
    (sends : call.receives = false) :
    (receiving.join sending).step call =
      (sending.step call).map fun next => receiving.join next := by
  rw [step, step, join, ZSocket.call_join_sends _ _ sends, Option.map_map, Option.map_map]
  simp only [Function.comp_def, sends, Bool.false_eq_true, if_false, join]

/-- The halves of a socket do not interfere. Whatever is called on a socket in whatever order, with
whatever answers of the kernel, the run is defined exactly when the receiving calls alone and the
sending calls alone are, and it ends with the receiving half and the returned values of the one run
beside those of the other. -/
theorem run_eq_halves (endpoint : Endpoint) (calls : List SocketCall) :
    PartialRun.run step endpoint calls =
      (PartialRun.run step endpoint (calls.filter SocketCall.receives)).bind fun receiving =>
        (PartialRun.run step endpoint (calls.filter fun call => !call.receives)).map
          receiving.join := by
  have halves := PartialRun.run_interleaved SocketCall.receives join step_join_receives
    step_join_sends endpoint endpoint calls
  rwa [join_self] at halves

end Endpoint

end SelftestNet
