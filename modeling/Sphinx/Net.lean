import Sphinx.Primitives.Serialize

/-!
# The messages of a connection

The framing of `protocol.cpp`, and what `net.h` and `net.cpp` do with the bytes of a connection: `PushMessage` and
`SocketSendData` at one end, `ReceiveMsgBytes` and the checks of `ProcessMessages` at the other.

The arguments of `PushMessage` are its payload, already serialized.  An assertion that fails is `none`.  The times
and the totals of the traffic are left out.
-/

namespace Sphinx

open Codec

/-- What the framing depends on. -/
structure NetParams where
  /-- `Params().MessageStart()` -/
  messageStart : List UInt8
  length_messageStart : messageStart.length = 4
  /-- `Hash` -/
  hash : List UInt8 → Uint256

/-! ### The header -/

structure CMessageHeader where
  pchMessageStart : List UInt8
  pchCommand : List UInt8
  nMessageSize : Nat
  nChecksum : Nat
deriving DecidableEq, Repr

namespace CMessageHeader

def commandSize : Nat := 12

def messageSizeOffset : Nat := 16

def checksumOffset : Nat := 20

def headerSize : Nat := 24

/-- `strncpy` into a buffer of zeros. -/
def strncpy (n : Nat) (s : List UInt8) : List UInt8 :=
  let chars := (s.takeWhile (· ≠ 0)).take n
  chars ++ List.replicate (n - chars.length) 0

/-- The constructor without arguments. -/
def empty (params : NetParams) : CMessageHeader :=
  { pchMessageStart := params.messageStart
    pchCommand := [0, 1] ++ List.replicate 10 0
    nMessageSize := uintMax
    nChecksum := 0 }

def ofCommand (params : NetParams) (pszCommand : List UInt8) (nMessageSizeIn : Nat) : CMessageHeader :=
  { pchMessageStart := params.messageStart
    pchCommand := strncpy commandSize pszCommand
    nMessageSize := nMessageSizeIn
    nChecksum := 0 }

def write (hdr : CMessageHeader) : List UInt8 :=
  hdr.pchMessageStart ++ (hdr.pchCommand ++ (toLE 4 hdr.nMessageSize ++ toLE 4 hdr.nChecksum))

def read : Reader CMessageHeader := do
  let pchMessageStart ← readBytes 4
  let pchCommand ← readBytes commandSize
  let nMessageSize ← readLE 4
  let nChecksum ← readLE 4
  pure ⟨pchMessageStart, pchCommand, nMessageSize, nChecksum⟩

def getCommand (hdr : CMessageHeader) : List UInt8 := hdr.pchCommand.takeWhile (· ≠ 0)

/-- The loop over the command string. -/
def commandIsValid : List UInt8 → Bool
  | [] => true
  | p1 :: rest =>
    if p1 = 0 then (p1 :: rest).all (· = 0)  -- must be all zeros after the first zero
    else if p1 < 0x20 || 0x7E < p1 then false
    else commandIsValid rest

def isValid (params : NetParams) (hdr : CMessageHeader) : Bool :=
  hdr.pchMessageStart = params.messageStart && commandIsValid hdr.pchCommand && hdr.nMessageSize ≤ maxSize

end CMessageHeader

/-! ### A message that is received -/

structure CNetMessage where
  in_data : Bool
  hdrbuf : List UInt8
  hdr : CMessageHeader
  nHdrPos : Nat
  vRecv : List UInt8
  nDataPos : Nat
deriving DecidableEq, Repr

/-- `memcpy(&buf[pos], pch, n)`. -/
def memcpyAt (buf : List UInt8) (pos : Nat) (pch : List UInt8) : List UInt8 :=
  buf.take pos ++ pch ++ buf.drop (pos + pch.length)

/-- `CDataStream::resize`. -/
def resizeStream (v : List UInt8) (n : Nat) : List UInt8 := v.take n ++ List.replicate (n - v.length) 0

namespace CNetMessage

/-- The constructor. -/
def new (params : NetParams) : CNetMessage :=
  { in_data := false
    hdrbuf := resizeStream [] 24
    hdr := CMessageHeader.empty params
    nHdrPos := 0
    vRecv := []
    nDataPos := 0 }

def complete (msg : CNetMessage) : Bool := msg.in_data && msg.hdr.nMessageSize = msg.nDataPos

/-- `readHeader`: the number of bytes handled, or failure. -/
def readHeader (msg : CNetMessage) (pch : List UInt8) : Option Nat × CNetMessage :=
  let nRemaining := 24 - msg.nHdrPos
  let nCopy := min nRemaining pch.length
  let msg := { msg with
    hdrbuf := memcpyAt msg.hdrbuf msg.nHdrPos (pch.take nCopy)
    nHdrPos := msg.nHdrPos + nCopy }
  if msg.nHdrPos < 24 then (some nCopy, msg)
  else
    match CMessageHeader.read msg.hdrbuf with
    | none => (none, msg)
    | some (hdr, hdrbuf) =>
      let msg := { msg with hdr := hdr, hdrbuf := hdrbuf }
      if maxSize < hdr.nMessageSize then (none, msg)
      else (some nCopy, { msg with in_data := true })

def readData (msg : CNetMessage) (pch : List UInt8) : Option Nat × CNetMessage :=
  let nRemaining := msg.hdr.nMessageSize - msg.nDataPos
  let nCopy := min nRemaining pch.length
  let vRecv :=
    if msg.vRecv.length < msg.nDataPos + nCopy then
      resizeStream msg.vRecv (min msg.hdr.nMessageSize (msg.nDataPos + nCopy + 256 * 1024))
    else msg.vRecv
  (some nCopy, { msg with vRecv := memcpyAt vRecv msg.nDataPos (pch.take nCopy), nDataPos := msg.nDataPos + nCopy })

end CNetMessage

/-! ### A peer -/

/-- The members of `CNode` that carry the messages; `sent` is what the socket has taken. -/
structure CNode where
  ssSend : List UInt8 := []
  nSendSize : Nat := 0
  nSendOffset : Nat := 0
  vSendMsg : List (List UInt8) := []
  vRecvMsg : List CNetMessage := []
  fDisconnect : Bool := false
  sent : List UInt8 := []
deriving DecidableEq, Repr

/-- What `send` returns: a number of bytes (of those offered at most), or an error, which may be fatal. -/
inductive SendResult where
  | bytes (nBytes : Nat)
  | error (fatal : Bool)
deriving DecidableEq, Repr

namespace CNode

def closeSocketDisconnect (node : CNode) : CNode := { node with fDisconnect := true, vRecvMsg := [] }

/-- The loop of `SocketSendData`: what is left of the queue.  `results` are those of the calls of `send`, which
takes nothing once they are used up. -/
def sendLoop : List (List UInt8) → List SendResult → CNode → Option (List (List UInt8) × CNode)
  | [], _, node => some ([], node)
  | data :: it, results, node =>
    if node.nSendOffset < data.length then
      match results.headD (.bytes 0) with
      | .error fatal => some (data :: it, if fatal then node.closeSocketDisconnect else node)
      | .bytes taken =>
        let nBytes := min taken (data.length - node.nSendOffset)
        if 0 < nBytes then
          let node := { node with
            sent := node.sent ++ (data.drop node.nSendOffset).take nBytes
            nSendOffset := node.nSendOffset + nBytes }
          if node.nSendOffset = data.length then
            sendLoop it results.tail { node with nSendOffset := 0, nSendSize := node.nSendSize - data.length }
          else some (data :: it, node)
        else some (data :: it, node)
    else none

def socketSendData (results : List SendResult) (node : CNode) : Option CNode := do
  let (it, node) ← sendLoop node.vSendMsg results node
  if it = [] && !(node.nSendOffset = 0 && node.nSendSize = 0) then none
  else some { node with vSendMsg := it }

def beginMessage (params : NetParams) (pszCommand : List UInt8) (node : CNode) : Option CNode :=
  if node.ssSend.length = 0 then
    some { node with ssSend := node.ssSend ++ (CMessageHeader.ofCommand params pszCommand 0).write }
  else none

def abortMessage (node : CNode) : CNode := { node with ssSend := [] }

/-- `EndMessage`; `drop` is what `-dropmessagestest` draws. -/
def endMessage (params : NetParams) (drop : Bool) (results : List SendResult) (node : CNode) : Option CNode :=
  if drop then some node.abortMessage
  else if node.ssSend.length = 0 then some node
  else
    let nSize := (node.ssSend.length - CMessageHeader.headerSize) % 2 ^ 32
    let ssSend := memcpyAt node.ssSend CMessageHeader.messageSizeOffset (toLE 4 nSize)
    let nChecksum := params.hash (ssSend.drop CMessageHeader.headerSize) % 2 ^ 32
    if CMessageHeader.checksumOffset + 4 ≤ ssSend.length then
      let data := memcpyAt ssSend CMessageHeader.checksumOffset (toLE 4 nChecksum)
      let node' := { node with
        ssSend := []
        vSendMsg := node.vSendMsg ++ [data]
        nSendSize := node.nSendSize + data.length }
      -- if the write queue was empty, attempt "optimistic write"
      if node.vSendMsg = [] then socketSendData results node' else some node'
    else none

def pushMessage (params : NetParams) (pszCommand payload : List UInt8) (drop : Bool) (results : List SendResult)
    (node : CNode) : Option CNode := do
  let node ← node.beginMessage params pszCommand
  endMessage params drop results { node with ssSend := node.ssSend ++ payload }

/-! ### Receiving -/

/-- The loop of `ReceiveMsgBytes`.  Every round handles a byte at least. -/
def receiveLoop (params : NetParams) : Nat → List CNetMessage → List UInt8 → Bool × List CNetMessage
  | 0, vRecvMsg, pch => (pch.isEmpty, vRecvMsg)
  | fuel + 1, vRecvMsg, pch =>
    if 0 < pch.length then
      -- the current incomplete message, or a new one
      let vRecvMsg :=
        if vRecvMsg.getLast?.all CNetMessage.complete then vRecvMsg ++ [CNetMessage.new params] else vRecvMsg
      let msg := vRecvMsg.getLastD (CNetMessage.new params)
      let (handled, msg) := if !msg.in_data then msg.readHeader pch else msg.readData pch
      let vRecvMsg := vRecvMsg.dropLast ++ [msg]
      match handled with
      | none => (false, vRecvMsg)
      | some handled => receiveLoop params fuel vRecvMsg (pch.drop handled)
    else (true, vRecvMsg)

def receiveMsgBytes (params : NetParams) (pch : List UInt8) (node : CNode) : Bool × CNode :=
  let (ok, vRecvMsg) := receiveLoop params pch.length node.vRecvMsg pch
  (ok, { node with vRecvMsg := vRecvMsg })

end CNode

/-! ### ProcessMessages -/

/-- What `ProcessMessages` uses of the rest of the node: the state `σ` holds the peer too. -/
structure MessageHandler (σ : Type) where
  fDisconnect : σ → Bool
  /-- `nSendSize >= SendBufferSize()` -/
  sendBufferFull : σ → Bool
  /-- `!vRecvGetData.empty()` -/
  hasGetData : σ → Bool
  processGetData : σ → σ
  /-- `ProcessMessage`, which may throw -/
  processMessage : σ → List UInt8 → List UInt8 → σ

variable {σ : Type}

/-- The loop of `ProcessMessages`: `fOk`, the messages that are left, and the state. -/
def processLoop (params : NetParams) (handler : MessageHandler σ) :
    List CNetMessage → σ → Bool × List CNetMessage × σ
  | [], s => (true, [], s)
  | msg :: it, s =>
    if handler.fDisconnect s then (true, msg :: it, s)
    else if handler.sendBufferFull s then (true, msg :: it, s)
    else if !msg.complete then (true, msg :: it, s)
    else if msg.hdr.pchMessageStart ≠ params.messageStart then (false, it, s)
    else if !msg.hdr.isValid params then processLoop params handler it s
    else
      let hash := params.hash (msg.vRecv.take msg.hdr.nMessageSize)
      if hash % 2 ^ 32 ≠ msg.hdr.nChecksum then processLoop params handler it s
      else (true, it, handler.processMessage s msg.hdr.getCommand msg.vRecv)

/-- `ProcessMessages`: `fOk`, `vRecvMsg` and the state. -/
def processMessages (params : NetParams) (handler : MessageHandler σ) (vRecvMsg : List CNetMessage) (s : σ) :
    Bool × List CNetMessage × σ :=
  let s := if handler.hasGetData s then handler.processGetData s else s
  if handler.hasGetData s then (true, vRecvMsg, s)
  else
    let (fOk, it, s) := processLoop params handler vRecvMsg s
    (fOk, if handler.fDisconnect s then vRecvMsg else it, s)

end Sphinx
