import Sphinx.Net

/-!
# The sending end

What the socket has taken, followed by the rest of the queue, is the stream of the framed messages, whatever the
calls of `send` return.  No assertion fails.
-/

namespace Sphinx

open Codec
open CMessageHeader (checksumOffset commandSize messageSizeOffset ofCommand strncpy)

variable {params : NetParams} {stream : List UInt8} {node node' : CNode}

/-- What `PushMessage` is given. -/
structure NetPayload where
  command : List UInt8
  payload : List UInt8
deriving DecidableEq, Repr

/-- The header of a message as it is sent. -/
def NetPayload.header (params : NetParams) (m : NetPayload) : CMessageHeader :=
  { pchMessageStart := params.messageStart
    pchCommand := strncpy commandSize m.command
    nMessageSize := m.payload.length % 2 ^ 32
    nChecksum := params.hash m.payload % 2 ^ 32 }

/-- A framed message. -/
def NetPayload.frame (params : NetParams) (m : NetPayload) : List UInt8 := (m.header params).write ++ m.payload

@[simp] theorem length_strncpy (n : Nat) (s : List UInt8) : (strncpy n s).length = n := by
  simp only [strncpy, List.length_append, List.length_replicate, List.length_take]
  omega

@[simp] theorem length_writeHeader (m : NetPayload) : (m.header params).write.length = 24 := by
  simp [CMessageHeader.write, NetPayload.header, params.length_messageStart, commandSize]

theorem length_frame (m : NetPayload) : (m.frame params).length = 24 + m.payload.length := by
  rw [NetPayload.frame, List.length_append, length_writeHeader]

/-! ### The queue -/

/-- What holds of the queue `it` in the loop of `SocketSendData`: `nSendSize` is its size, `nSendOffset` is inside
its first message, and what is left of it is the rest of the stream. -/
structure Queued (stream : List UInt8) (it : List (List UInt8)) (node : CNode) : Prop where
  size : node.nSendSize = (it.map List.length).sum
  offset : node.nSendOffset < (it.headD [0]).length
  nonempty : ∀ data ∈ it, 0 < data.length
  stream : node.sent ++ it.flatten.drop node.nSendOffset = stream

theorem Queued.nSendOffset_eq (h : Queued stream [] node) : node.nSendOffset = 0 := by
  have hoffset := h.offset
  simp only [List.headD_nil, List.length_singleton] at hoffset
  omega

/-- The first message has been sent to its end. -/
theorem Queued.next {data : List UInt8} {it : List (List UInt8)} (h : Queued stream (data :: it) node) :
    Queued stream it { node with
      sent := node.sent ++ data.drop node.nSendOffset
      nSendOffset := 0
      nSendSize := node.nSendSize - data.length } := by
  have hoffset := h.offset
  have hsize := h.size
  simp only [List.headD_cons, List.map_cons, List.sum_cons] at hoffset hsize
  refine ⟨by show node.nSendSize - data.length = _; omega, ?_,
    fun d hd => h.nonempty d (List.mem_cons_of_mem _ hd), ?_⟩
  · cases it with
    | nil => exact Nat.one_pos
    | cons d it => exact h.nonempty d (by simp)
  · rw [← h.stream, List.flatten_cons, List.drop_append_of_le_length hoffset.le, List.drop_zero, List.append_assoc]

/-- A part of the first message has been sent. -/
theorem Queued.advance {data : List UInt8} {it : List (List UInt8)} (h : Queued stream (data :: it) node) {n : Nat}
    (hn : node.nSendOffset + n < data.length) :
    Queued stream (data :: it) { node with
      sent := node.sent ++ (data.drop node.nSendOffset).take n
      nSendOffset := node.nSendOffset + n } := by
  refine ⟨h.size, hn, h.nonempty, ?_⟩
  rw [← h.stream, List.flatten_cons, List.drop_append_of_le_length hn.le,
    List.drop_append_of_le_length (by omega), List.append_assoc, ← List.append_assoc, ← List.append_assoc,
    ← List.append_assoc]
  congr 1
  rw [List.append_assoc, ← List.drop_drop, List.take_append_drop]

theorem Queued.closeSocketDisconnect {it : List (List UInt8)} (h : Queued stream it node) :
    Queued stream it node.closeSocketDisconnect := ⟨h.size, h.offset, h.nonempty, h.stream⟩

theorem sendLoop_spec : ∀ (it : List (List UInt8)) (results : List SendResult) (node : CNode),
    Queued stream it node → ∃ it' node', CNode.sendLoop it results node = some (it', node') ∧
      Queued stream it' node' ∧ node'.ssSend = node.ssSend := by
  intro it
  induction it with
  | nil =>
    intro results node h
    exact ⟨[], node, rfl, h, rfl⟩
  | cons data it ih =>
    intro results node h
    have hoffset : node.nSendOffset < data.length := h.offset
    rw [CNode.sendLoop, if_pos hoffset]
    cases results.headD (.bytes 0) with
    | error fatal =>
      cases fatal with
      | false => exact ⟨_, _, rfl, h, rfl⟩
      | true => exact ⟨_, _, rfl, h.closeSocketDisconnect, rfl⟩
    | bytes taken =>
      dsimp only
      split_ifs with hpos hall
      · -- the message is sent to its end
        have hdrop : (data.drop node.nSendOffset).take (min taken (data.length - node.nSendOffset)) =
            data.drop node.nSendOffset := List.take_of_length_le (by rw [List.length_drop]; omega)
        rw [hdrop]
        exact ih _ _ h.next
      · exact ⟨_, _, rfl, h.advance (by omega), rfl⟩
      · exact ⟨_, _, rfl, h, rfl⟩

/-- What holds of a peer between the calls. -/
structure SendInv (stream : List UInt8) (node : CNode) : Prop where
  queued : Queued stream node.vSendMsg node
  ssSend : node.ssSend = []

theorem sendInv_empty : SendInv [] {} := ⟨⟨rfl, Nat.one_pos, fun _ h => (by cases h), rfl⟩, rfl⟩

theorem socketSendData_spec (h : SendInv stream node) (results : List SendResult) :
    ∃ node', CNode.socketSendData results node = some node' ∧ SendInv stream node' := by
  obtain ⟨it, node', hloop, hq, hss⟩ := sendLoop_spec node.vSendMsg results node h.queued
  refine ⟨{ node' with vSendMsg := it }, ?_,
    ⟨⟨hq.size, hq.offset, hq.nonempty, hq.stream⟩, hss.trans h.ssSend⟩⟩
  simp only [CNode.socketSendData, hloop, Option.bind_eq_bind, Option.bind_some]
  refine if_neg ?_
  cases it with
  | nil =>
    have hsize := hq.size
    simp only [List.map_nil, List.sum_nil] at hsize
    simp [hq.nSendOffset_eq, hsize]
  | cons data it => simp

/-! ### A message -/

theorem memcpyAt_append {a b b' c : List UInt8} (h : b'.length = b.length) :
    memcpyAt (a ++ (b ++ c)) a.length b' = a ++ (b' ++ c) := by
  rw [memcpyAt, List.take_left, ← List.drop_drop, List.drop_left, h, List.drop_left, List.append_assoc]

/-- The fields before the size, the two numbers, and the payload. -/
def framed (params : NetParams) (m : NetPayload) (nMessageSize nChecksum : Nat) : List UInt8 :=
  (params.messageStart ++ strncpy commandSize m.command) ++
    (toLE 4 nMessageSize ++ (toLE 4 nChecksum ++ m.payload))

theorem length_framed (m : NetPayload) (nMessageSize nChecksum : Nat) :
    (framed params m nMessageSize nChecksum).length = 24 + m.payload.length := by
  simp only [framed, List.length_append, params.length_messageStart, length_strncpy, length_toLE,
    commandSize]
  omega

theorem drop_framed (m : NetPayload) (nMessageSize nChecksum : Nat) :
    (framed params m nMessageSize nChecksum).drop CMessageHeader.headerSize = m.payload := by
  have hsplit : framed params m nMessageSize nChecksum =
      ((params.messageStart ++ strncpy commandSize m.command) ++
        (toLE 4 nMessageSize ++ toLE 4 nChecksum)) ++ m.payload := by
    simp only [framed, List.append_assoc]
  rw [hsplit, List.drop_left']
  simp only [List.length_append, params.length_messageStart, length_strncpy, length_toLE,
    commandSize, CMessageHeader.headerSize]

theorem memcpyAt_messageSize (m : NetPayload) (nMessageSize nMessageSize' nChecksum : Nat) :
    memcpyAt (framed params m nMessageSize nChecksum) messageSizeOffset (toLE 4 nMessageSize') =
      framed params m nMessageSize' nChecksum := by
  have hlen : (params.messageStart ++ strncpy commandSize m.command).length =
      messageSizeOffset := by
    simp only [List.length_append, params.length_messageStart, length_strncpy, commandSize,
      messageSizeOffset]
  rw [← hlen, framed, framed]
  exact memcpyAt_append (by simp only [length_toLE])

theorem memcpyAt_checksum (m : NetPayload) (nMessageSize nChecksum nChecksum' : Nat) :
    memcpyAt (framed params m nMessageSize nChecksum) checksumOffset (toLE 4 nChecksum') =
      framed params m nMessageSize nChecksum' := by
  have hlen : ((params.messageStart ++ strncpy commandSize m.command) ++
      toLE 4 nMessageSize).length = checksumOffset := by
    simp only [List.length_append, params.length_messageStart, length_strncpy, length_toLE,
      commandSize, checksumOffset]
  have hsplit (n : Nat) : framed params m nMessageSize n =
      ((params.messageStart ++ strncpy commandSize m.command) ++ toLE 4 nMessageSize) ++
        (toLE 4 n ++ m.payload) := by
    rw [framed, List.append_assoc _ (toLE 4 nMessageSize)]
  rw [← hlen, hsplit, hsplit]
  exact memcpyAt_append (by simp only [length_toLE])

theorem frame_eq (m : NetPayload) :
    m.frame params = framed params m (m.payload.length % 2 ^ 32) (params.hash m.payload % 2 ^ 32) := by
  simp only [NetPayload.frame, NetPayload.header, CMessageHeader.write, framed, List.append_assoc]

theorem SendInv.push (h : SendInv stream node) {data : List UInt8} (hdata : 0 < data.length) :
    SendInv (stream ++ data) { node with
      ssSend := []
      vSendMsg := node.vSendMsg ++ [data]
      nSendSize := node.nSendSize + data.length } := by
  obtain ⟨⟨hsize, hoffset, hnonempty, hstream⟩, -⟩ := h
  refine ⟨⟨?_, ?_, ?_, ?_⟩, rfl⟩
  · rw [List.map_append, List.sum_append, List.map_singleton, List.sum_singleton, ← hsize]
  · cases hq : node.vSendMsg with
    | nil =>
      rw [hq] at hoffset
      exact lt_of_lt_of_le hoffset hdata
    | cons d it =>
      rw [hq] at hoffset
      exact hoffset
  · intro d hd
    rcases List.mem_append.mp hd with hd | hd
    · exact hnonempty d hd
    · rwa [List.mem_singleton.mp hd]
  · have hle : node.nSendOffset ≤ node.vSendMsg.flatten.length := by
      cases hq : node.vSendMsg with
      | nil =>
        rw [hq] at hoffset
        exact Nat.le_of_lt_succ hoffset
      | cons d it =>
        rw [hq] at hoffset
        rw [List.flatten_cons, List.length_append]
        exact hoffset.le.trans (Nat.le_add_right _ _)
    rw [← hstream, List.flatten_append, List.flatten_singleton, List.drop_append_of_le_length hle, List.append_assoc]

/-- **`PushMessage`** appends the framed message to the stream. -/
theorem pushMessage_spec (h : SendInv stream node) (m : NetPayload) (results : List SendResult) :
    ∃ node', CNode.pushMessage params m.command m.payload false results node = some node' ∧
      SendInv (stream ++ m.frame params) node' := by
  have hbegin : CNode.beginMessage params m.command node =
      some { node with ssSend := (ofCommand params m.command 0).write } := by
    rw [CNode.beginMessage, h.ssSend, if_pos List.length_nil, List.nil_append]
  have hssSend : (ofCommand params m.command 0).write ++ m.payload = framed params m 0 0 := by
    simp only [ofCommand, CMessageHeader.write, framed, List.append_assoc]
  have hpush := @SendInv.push _ _ h (m.frame params) (by rw [length_frame]; omega)
  have hsize : 24 + m.payload.length - CMessageHeader.headerSize = m.payload.length := by
    rw [CMessageHeader.headerSize]; omega
  simp only [CNode.pushMessage, hbegin, Option.bind_eq_bind, Option.bind_some, CNode.endMessage, hssSend,
    length_framed, memcpyAt_messageSize, drop_framed, memcpyAt_checksum, hsize, ← frame_eq, Bool.false_eq_true]
  rw [if_neg not_false, if_neg (by omega), if_pos (by rw [checksumOffset]; omega)]
  split_ifs
  · exact socketSendData_spec hpush results
  · exact ⟨_, rfl, hpush⟩

theorem pushMessage_drop (h : SendInv stream node) (m : NetPayload) (results : List SendResult) :
    ∃ node', CNode.pushMessage params m.command m.payload true results node = some node' ∧
      SendInv stream node' := by
  have hbegin : CNode.beginMessage params m.command node =
      some { node with ssSend := (ofCommand params m.command 0).write } := by
    rw [CNode.beginMessage, h.ssSend, if_pos List.length_nil, List.nil_append]
  simp only [CNode.pushMessage, hbegin, Option.bind_eq_bind, Option.bind_some, CNode.endMessage, if_true]
  exact ⟨_, rfl, ⟨⟨h.queued.size, h.queued.offset, h.queued.nonempty, h.queued.stream⟩, rfl⟩⟩

/-! ### Runs -/

/-- What may happen at the sending end. -/
inductive SendEvent where
  | pushMessage (m : NetPayload) (drop : Bool) (results : List SendResult)
  | socketSendData (results : List SendResult)
deriving DecidableEq, Repr

def SendEvent.step (params : NetParams) (node : CNode) : SendEvent → Option CNode
  | .pushMessage m drop results => node.pushMessage params m.command m.payload drop results
  | .socketSendData results => node.socketSendData results

/-- The message that is pushed, unless `-dropmessagestest` drops it. -/
def SendEvent.pushed : SendEvent → Option NetPayload
  | .pushMessage m false _ => some m
  | _ => none

theorem SendEvent.step_spec (h : SendInv stream node) (e : SendEvent) :
    ∃ node', e.step params node = some node' ∧
      SendInv (stream ++ e.pushed.toList.flatMap (NetPayload.frame params)) node' := by
  cases e with
  | pushMessage m drop results =>
    cases drop with
    | false =>
      rw [pushed, Option.toList_some, List.flatMap_singleton]
      exact pushMessage_spec h m results
    | true =>
      rw [pushed, Option.toList_none, List.flatMap_nil, List.append_nil]
      · exact pushMessage_drop h m results
      · rintro m' results' ⟨⟩
  | socketSendData results =>
    rw [pushed, Option.toList_none, List.flatMap_nil, List.append_nil]
    · exact socketSendData_spec h results
    · rintro m' results' ⟨⟩

theorem run_sendInv : ∀ (es : List SendEvent) {stream : List UInt8} {node : CNode}, SendInv stream node →
    ∃ node', es.foldlM (SendEvent.step params) node = some node' ∧
      SendInv (stream ++ (es.filterMap SendEvent.pushed).flatMap (NetPayload.frame params)) node' := by
  intro es
  induction es with
  | nil =>
    intro stream node h
    exact ⟨node, rfl, by rwa [List.filterMap_nil, List.flatMap_nil, List.append_nil]⟩
  | cons e es ih =>
    intro stream node h
    obtain ⟨node₁, hstep, h₁⟩ := @SendEvent.step_spec params _ _ h e
    obtain ⟨node₂, hrun, h₂⟩ := ih h₁
    refine ⟨node₂, by rw [List.foldlM_cons, hstep]; exact hrun, ?_⟩
    have hpushed : (e :: es).filterMap SendEvent.pushed = e.pushed.toList ++ es.filterMap SendEvent.pushed := by
      rw [List.filterMap_cons]
      cases e.pushed <;> rfl
    rwa [hpushed, List.flatMap_append, ← List.append_assoc]

end Sphinx
