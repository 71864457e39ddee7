import Mathlib.Data.List.TakeWhile
import Sphinx.Equiv.NetSend

/-!
# The receiving end

* `Absorbed`: a message of which the first `n` bytes have been received.  Only the length of `vRecv` depends on the
  chunks, and no longer once the message is complete.
* `receiveLoop_spec`: the bytes of a chunk, wherever in the stream it begins and ends.
* `messages_arrive`: both ends together.
-/

namespace Sphinx

open Codec
open CMessageHeader (commandIsValid commandSize strncpy)
open NetPayload (frame)
open SendEvent (pushed)

variable {params : NetParams}
variable {msg : CNetMessage} {more : List UInt8} {done rest : List NetPayload} {msgs : List CNetMessage}
variable {pch : List UInt8} {n : Nat}

/-- What every caller of `PushMessage` passes: a payload that is not too long, and the printable name of a command. -/
structure NetPayload.Sendable (m : NetPayload) : Prop where
  payload : m.payload.length ≤ maxSize
  command : m.command.length ≤ commandSize
  printable : ∀ c ∈ m.command, 0x20 ≤ c ∧ c ≤ 0x7E

/-- The message once it is complete. -/
def NetPayload.netMessage (params : NetParams) (m : NetPayload) : CNetMessage :=
  { in_data := true
    hdrbuf := []
    hdr := m.header params
    nHdrPos := 24
    vRecv := m.payload
    nDataPos := m.payload.length }

/-- The message after the first `n` bytes of its frame. -/
inductive Absorbed (params : NetParams) (m : NetPayload) : Nat → CNetMessage → Prop
  | header {n : Nat} (hn : n < 24) : Absorbed params m n { CNetMessage.new params with
      hdrbuf := (m.header params).write.take n ++ List.replicate (24 - n) 0
      nHdrPos := n }
  | data {n : Nat} {vRecv : List UInt8} (hn : n ≤ vRecv.length) (hlen : vRecv.length ≤ m.payload.length)
      (htake : vRecv.take n = m.payload.take n) : Absorbed params m (24 + n) { m.netMessage params with
      vRecv := vRecv
      nDataPos := n }

theorem absorbed_new (m : NetPayload) : Absorbed params m 0 (CNetMessage.new params) := .header (by omega)

theorem Absorbed.eq_netMessage {m : NetPayload} (h : Absorbed params m (m.frame params).length msg) :
    msg = m.netMessage params := by
  rw [length_frame] at h
  generalize hk : 24 + m.payload.length = k at h
  cases h with
  | header hn => omega
  | @data n vRecv hn hlen htake =>
    obtain rfl : n = m.payload.length := by omega
    rw [List.take_of_length_le hlen, List.take_length] at htake
    rw [htake]
    rfl

theorem header_nMessageSize {m : NetPayload} (hm : m.payload.length ≤ maxSize) :
    (m.header params).nMessageSize = m.payload.length :=
  Nat.mod_eq_of_lt (lt_of_le_of_lt hm (by decide))

theorem netMessage_complete {m : NetPayload} (hm : m.payload.length ≤ maxSize) :
    (m.netMessage params).complete = true := by
  simp [CNetMessage.complete, NetPayload.netMessage, header_nMessageSize hm]

theorem Absorbed.not_complete {m : NetPayload} (hm : m.payload.length ≤ maxSize)
    (h : Absorbed params m n msg) (hn : n < (m.frame params).length) : msg.complete = false := by
  cases h with
  | header hn => rfl
  | @data n vRecv _ _ _ =>
    rw [length_frame] at hn
    simp only [CNetMessage.complete, NetPayload.netMessage, header_nMessageSize hm, Bool.true_and,
      decide_eq_false_iff_not]
    omega

/-! ### The bytes of one message -/

theorem reads_header (m : NetPayload) : Reads CMessageHeader.read (m.header params).write (m.header params) := by
  refine reads_bind (reads_readBytes params.length_messageStart) ?_
  refine reads_bind (reads_readBytes (length_strncpy _ _)) ?_
  refine reads_bind (reads_readLE (Nat.mod_lt _ (by decide))) ?_
  exact reads_bind_nil (reads_readLE (Nat.mod_lt _ (by decide))) (reads_pure _)

theorem take_of_prefix {bytes : List UInt8} (h : pch <+: bytes ++ more) {c : Nat}
    (hc : c ≤ pch.length) (hb : c ≤ bytes.length) : pch.take c = bytes.take c := by
  rw [List.prefix_iff_eq_take.mp h, List.take_take, min_eq_left hc, List.take_append_of_le_length hb]

theorem take_append_take_drop (l : List UInt8) (n c : Nat) : l.take n ++ (l.drop n).take c = l.take (n + c) := by
  rw [List.take_add]

theorem readHeader_spec {m : NetPayload} (hm : m.payload.length ≤ maxSize) (hn : n < 24)
    (hpch : pch <+: (m.header params).write.drop n ++ more) (hpos : 0 < pch.length) :
    ∃ c msg', CNetMessage.readHeader { CNetMessage.new params with
        hdrbuf := (m.header params).write.take n ++ List.replicate (24 - n) 0
        nHdrPos := n } pch = (some c, msg') ∧
      0 < c ∧ c ≤ pch.length ∧ n + c ≤ 24 ∧ Absorbed params m (n + c) msg' := by
  have hlenW := @length_writeHeader params m
  set W := (m.header params).write with hW
  set c := min (24 - n) pch.length with hc
  have htake : pch.take c = (W.drop n).take c :=
    take_of_prefix hpch (by omega) (by rw [List.length_drop, hlenW]; omega)
  have hbuf : memcpyAt (W.take n ++ List.replicate (24 - n) 0) n (pch.take c) =
      W.take (n + c) ++ List.replicate (24 - (n + c)) 0 := by
    have hlen : (W.take n).length = n := List.length_take_of_le (by omega)
    have hleft : (W.take n ++ List.replicate (24 - n) (0 : UInt8)).take n = W.take n := List.take_left' hlen
    rw [memcpyAt, hleft, htake, ← List.drop_drop, List.drop_left' hlen, take_append_take_drop, List.drop_replicate,
      List.length_take_of_le (by rw [List.length_drop]; omega)]
    congr 2
    omega
  simp only [CNetMessage.readHeader, ← hc, hbuf]
  by_cases hlt : n + c < 24
  · rw [if_pos hlt]
    exact ⟨c, _, rfl, by omega, by omega, by omega, .header hlt⟩
  · obtain hfull : n + c = 24 := by omega
    have hread : CMessageHeader.read (W.take (n + c) ++ List.replicate (24 - (n + c)) 0) =
          some (m.header params, []) := by
      rw [hfull, Nat.sub_self, List.replicate_zero, List.append_nil, List.take_of_length_le hlenW.le]
      exact (reads_header m).run
    rw [if_neg hlt, hread]
    dsimp only
    rw [if_neg (by rw [header_nMessageSize hm]; omega)]
    refine ⟨c, _, rfl, by omega, by omega, by omega, ?_⟩
    rw [hfull]
    exact @Absorbed.data params m 0 [] le_rfl (Nat.zero_le _) rfl

theorem length_resizeStream (v : List UInt8) (n : Nat) : (resizeStream v n).length = n := by
  rw [resizeStream, List.length_append, List.length_take, List.length_replicate]
  omega

theorem take_resizeStream {v : List UInt8} {k : Nat} (hv : k ≤ v.length) (hn : k ≤ n) :
    (resizeStream v n).take k = v.take k := by
  rw [resizeStream, List.take_append_of_le_length (by rw [List.length_take]; omega), List.take_take, min_eq_left hn]

theorem readData_spec {m : NetPayload} (hm : m.payload.length ≤ maxSize) {vRecv : List UInt8}
    (hn : n ≤ vRecv.length) (hlen : vRecv.length ≤ m.payload.length)
    (htake : vRecv.take n = m.payload.take n) (hlt : n < m.payload.length)
    (hpch : pch <+: m.payload.drop n ++ more) (hpos : 0 < pch.length) :
    ∃ c msg', CNetMessage.readData { m.netMessage params with vRecv := vRecv, nDataPos := n } pch = (some c, msg') ∧
      0 < c ∧ c ≤ pch.length ∧ n + c ≤ m.payload.length ∧ Absorbed params m (24 + (n + c)) msg' := by
  set c := min (m.payload.length - n) pch.length with hc
  have hcopy : pch.take c = (m.payload.drop n).take c :=
    take_of_prefix hpch (by omega) (by rw [List.length_drop]; omega)
  -- the buffer once it is long enough
  obtain ⟨buf, hbuf, hlo, hhi, hkeep⟩ : ∃ buf, (if vRecv.length < n + c then
      resizeStream vRecv (min m.payload.length (n + c + 256 * 1024)) else vRecv) = buf ∧
      n + c ≤ buf.length ∧ buf.length ≤ m.payload.length ∧ buf.take n = m.payload.take n := by
    refine ⟨_, rfl, ?_⟩
    split_ifs with hshort
    · rw [length_resizeStream, take_resizeStream hn (by omega)]
      exact ⟨by omega, by omega, htake⟩
    · exact ⟨by omega, hlen, htake⟩
  simp only [CNetMessage.readData, NetPayload.netMessage, header_nMessageSize hm, ← hc, hbuf]
  have hcopied : memcpyAt buf n (pch.take c) = m.payload.take (n + c) ++ buf.drop (n + c) := by
    rw [memcpyAt, hkeep, hcopy, take_append_take_drop, List.length_take_of_le (by rw [List.length_drop]; omega)]
  have hprefix : (m.payload.take (n + c)).length = n + c := List.length_take_of_le (by omega)
  refine ⟨c, _, rfl, by omega, by omega, by omega, ?_⟩
  rw [hcopied]
  refine @Absorbed.data params m (n + c) (m.payload.take (n + c) ++ buf.drop (n + c)) ?_ ?_ ?_
  · rw [List.length_append, hprefix]
    omega
  · rw [List.length_append, hprefix, List.length_drop]
    omega
  · exact List.take_left' hprefix

/-- One round of `ReceiveMsgBytes` on a message that is not complete: it takes a byte at least, and none of the next
message. -/
theorem absorb_spec {m : NetPayload} (hm : m.payload.length ≤ maxSize)
    (h : Absorbed params m n msg) (hn : n < (m.frame params).length)
    (hpch : pch <+: (m.frame params).drop n ++ more) (hpos : 0 < pch.length) :
    ∃ c msg', (if !msg.in_data then msg.readHeader pch else msg.readData pch) = (some c, msg') ∧
      0 < c ∧ c ≤ pch.length ∧ n + c ≤ (m.frame params).length ∧ Absorbed params m (n + c) msg' := by
  have hlenW := @length_writeHeader params m
  cases h with
  | header hn24 =>
    rw [frame, List.drop_append_of_le_length (by omega), List.append_assoc] at hpch
    obtain ⟨c, msg', hread, hc, hle, hcn, habs⟩ := readHeader_spec hm hn24 hpch hpos
    exact ⟨c, msg', hread, hc, hle, by rw [length_frame]; omega, habs⟩
  | @data n vRecv hvn hlen htake =>
    have hdrop : (m.frame params).drop (24 + n) = m.payload.drop n := by
      rw [frame, ← List.drop_drop, List.drop_left' hlenW]
    rw [hdrop] at hpch
    rw [length_frame] at hn
    obtain ⟨c, msg', hread, hc, hle, hcn, habs⟩ := readData_spec hm hvn hlen htake (by omega) hpch hpos
    exact ⟨c, msg', hread, hc, hle, by rw [length_frame]; omega, by rwa [Nat.add_assoc]⟩

/-! ### The bytes of the stream -/

/-- The messages of `done` have been received to the end, and `n` bytes of the first of `rest`. -/
def ReceivedUpTo (params : NetParams) (done rest : List NetPayload) (n : Nat) (msgs : List CNetMessage) : Prop :=
  ∃ tail, msgs = done.map (NetPayload.netMessage params) ++ tail ∧
    (n = 0 ∧ tail = [] ∨
      0 < n ∧ ∃ m rest' msg, rest = m :: rest' ∧ n < (m.frame params).length ∧
        Absorbed params m n msg ∧ tail = [msg])

/-- The message that the next byte belongs to. -/
theorem ReceivedUpTo.current {m : NetPayload}
    (h : ReceivedUpTo params done (m :: rest) n msgs)
    (hsize : ∀ m' ∈ done ++ m :: rest, m'.payload.length ≤ maxSize) :
    n < (m.frame params).length ∧ ∃ msg, Absorbed params m n msg ∧
      (if msgs.getLast?.all CNetMessage.complete then msgs ++ [CNetMessage.new params] else msgs) =
        done.map (NetPayload.netMessage params) ++ [msg] := by
  obtain ⟨tail, rfl, ⟨rfl, rfl⟩ | ⟨hn, m', rest', msg, hrest, hlt, habs, rfl⟩⟩ := h
  · refine ⟨by rw [length_frame]; omega, CNetMessage.new params, absorbed_new m, ?_⟩
    rw [List.append_nil, if_pos]
    cases hlast : (done.map (NetPayload.netMessage params)).getLast? with
    | none => rfl
    | some msg =>
      obtain ⟨m', hm', rfl⟩ := List.mem_map.mp (List.mem_of_getLast? hlast)
      exact netMessage_complete (hsize m' (List.mem_append_left _ hm'))
  · obtain ⟨rfl, rfl⟩ := List.cons.inj hrest
    refine ⟨hlt, msg, habs, ?_⟩
    have hm := hsize m (List.mem_append_right _ List.mem_cons_self)
    rw [List.getLast?_concat, Option.all_some, habs.not_complete hm hlt, if_neg Bool.false_ne_true]

/-- **A chunk of the stream**, wherever it begins and ends. -/
theorem receiveLoop_spec : ∀ (fuel : Nat) (pch : List UInt8) (done rest : List NetPayload) (n : Nat)
    (msgs : List CNetMessage), pch.length ≤ fuel → (∀ m ∈ done ++ rest, m.payload.length ≤ maxSize) →
    ReceivedUpTo params done rest n msgs → pch <+: (rest.flatMap (frame params)).drop n →
    ∃ done' rest' n' msgs', CNode.receiveLoop params fuel msgs pch = (true, msgs') ∧
      ReceivedUpTo params done' rest' n' msgs' ∧ done' ++ rest' = done ++ rest ∧
      (done'.flatMap (frame params)).length + n' =
        (done.flatMap (frame params)).length + n + pch.length := by
  intro fuel
  induction fuel with
  | zero =>
    intro pch done rest n msgs hfuel hsize hmsgs hpch
    obtain rfl := List.eq_nil_of_length_eq_zero (Nat.le_zero.mp hfuel)
    exact ⟨done, rest, n, msgs, rfl, hmsgs, rfl, rfl⟩
  | succ fuel ih =>
    intro pch done rest n msgs hfuel hsize hmsgs hpch
    rw [CNode.receiveLoop]
    by_cases hpos : 0 < pch.length
    · rw [if_pos hpos]
      cases rest with
      | nil =>
        rw [List.flatMap_nil, List.drop_nil, List.prefix_nil] at hpch
        rw [hpch] at hpos
        exact absurd hpos (lt_irrefl 0)
      | cons m rest =>
        obtain ⟨hn, msg, habs, hcurrent⟩ := hmsgs.current hsize
        have hm := hsize m (List.mem_append_right _ List.mem_cons_self)
        rw [List.flatMap_cons, List.drop_append_of_le_length hn.le] at hpch
        obtain ⟨c, msg', habsorb, hc, hcle, hcn, habs'⟩ := absorb_spec hm habs hn hpch hpos
        have hdropped : pch.drop c <+: ((m.frame params).drop n ++ rest.flatMap (frame params)).drop c := by
          obtain ⟨t, ht⟩ := hpch
          exact ⟨t, by rw [← ht, List.drop_append_of_le_length hcle]⟩
        rw [hcurrent]
        simp only [List.getLastD_concat, habsorb, List.dropLast_concat]
        -- is the message complete?
        rcases lt_or_eq_of_le hcn with hlt | heq
        · have hnext : ReceivedUpTo params done (m :: rest) (n + c)
              (done.map (NetPayload.netMessage params) ++ [msg']) :=
            ⟨[msg'], rfl, .inr ⟨by omega, m, rest, msg', rfl, hlt, habs', rfl⟩⟩
          rw [List.drop_append_of_le_length (by rw [List.length_drop]; omega), List.drop_drop] at hdropped
          obtain ⟨done', rest', n', msgs', hloop, hup, heq', hlen⟩ := ih (pch.drop c) done (m :: rest) (n + c) _
            (by rw [List.length_drop]; omega) hsize hnext
            (by rwa [List.flatMap_cons, List.drop_append_of_le_length hlt.le])
          rw [List.length_drop] at hlen
          exact ⟨done', rest', n', msgs', hloop, hup, heq', by omega⟩
        · rw [heq] at habs'
          have hnext : ReceivedUpTo params (done ++ [m]) rest 0 (done.map (NetPayload.netMessage params) ++ [msg']) :=
            ⟨[], by rw [habs'.eq_netMessage, List.map_append, List.map_singleton, List.append_nil],
              .inl ⟨rfl, rfl⟩⟩
          have hskip : ((m.frame params).drop n).length = c := by rw [List.length_drop]; omega
          rw [List.drop_left' hskip] at hdropped
          obtain ⟨done', rest', n', msgs', hloop, hup, heq', hlen⟩ := ih (pch.drop c) (done ++ [m]) rest 0 _
            (by rw [List.length_drop]; omega) (by rwa [List.append_assoc]) hnext (by rwa [List.drop_zero])
          rw [List.length_drop, List.flatMap_append, List.flatMap_singleton, List.length_append] at hlen
          exact ⟨done', rest', n', msgs', hloop, hup, by rw [heq', List.append_assoc]; rfl, by omega⟩
    · rw [if_neg hpos]
      exact ⟨done, rest, n, msgs, rfl, hmsgs, rfl, by omega⟩

/-- The chunks that the receiving end takes from its socket, as long as it is connected. -/
def receiveChunks (params : NetParams) : List (List UInt8) → CNode → Bool × CNode
  | [], node => (true, node)
  | pch :: chunks, node =>
    let (ok, node) := node.receiveMsgBytes params pch
    if ok then receiveChunks params chunks node else (false, node)

/-- What follows in the stream, seen from two places of it. -/
theorem drop_frames {done' rest' : List NetPayload} {n' k : Nat} (heq : done' ++ rest' = done ++ rest)
    (hlen : (done'.flatMap (frame params)).length + n' = (done.flatMap (frame params)).length + n + k) :
    (rest'.flatMap (frame params)).drop n' = ((rest.flatMap (frame params)).drop n).drop k := by
  have hstream : done'.flatMap (frame params) ++ rest'.flatMap (frame params) =
      done.flatMap (frame params) ++ rest.flatMap (frame params) := by
    rw [← List.flatMap_append, heq, List.flatMap_append]
  have hdrop (a b : List UInt8) (i : Nat) : b.drop i = (a ++ b).drop (a.length + i) := by
    rw [← List.drop_drop, List.drop_left]
  rw [hdrop (done'.flatMap (frame params)), hstream, hlen, List.drop_drop, Nat.add_assoc, ← hdrop]

theorem receiveChunks_spec : ∀ (chunks : List (List UInt8)) (done rest : List NetPayload) (n : Nat) (peer : CNode),
    (∀ m ∈ done ++ rest, m.payload.length ≤ maxSize) → ReceivedUpTo params done rest n peer.vRecvMsg →
    chunks.flatten <+: (rest.flatMap (frame params)).drop n →
    ∃ done' rest' n' peer', receiveChunks params chunks peer = (true, peer') ∧
      ReceivedUpTo params done' rest' n' peer'.vRecvMsg ∧ done' ++ rest' = done ++ rest ∧
      (done'.flatMap (frame params)).length + n' =
        (done.flatMap (frame params)).length + n + chunks.flatten.length := by
  intro chunks
  induction chunks with
  | nil =>
    intro done rest n peer hsize hpeer hchunks
    exact ⟨done, rest, n, peer, rfl, hpeer, rfl, rfl⟩
  | cons pch chunks ih =>
    intro done rest n peer hsize hpeer hchunks
    rw [List.flatten_cons] at hchunks ⊢
    obtain ⟨done₁, rest₁, n₁, msgs₁, hloop, hup, heq, hlen⟩ :=
        receiveLoop_spec pch.length pch done rest n _ le_rfl hsize
      hpeer ((List.prefix_append _ _).trans hchunks)
    -- what follows the chunk in the stream
    have hrest : chunks.flatten <+: (rest₁.flatMap (frame params)).drop n₁ := by
      obtain ⟨t, ht⟩ := hchunks
      rw [drop_frames heq hlen, ← ht, List.append_assoc, List.drop_left]
      exact List.prefix_append _ _
    obtain ⟨done', rest', n', peer', hrun, hup', heq', hlen'⟩ :=
        ih done₁ rest₁ n₁ { peer with vRecvMsg := msgs₁ }
      (by rwa [heq]) hup hrest
    refine ⟨done', rest', n', peer', ?_, hup', heq'.trans heq, by rw [hlen', hlen, List.length_append]; omega⟩
    simp only [receiveChunks, CNode.receiveMsgBytes, hloop, if_true, hrun]

/-! ### ProcessMessages -/

theorem strncpy_eq {command : List UInt8} (hlen : command.length ≤ n) (hne : ∀ c ∈ command, c ≠ 0) :
    strncpy n command = command ++ List.replicate (n - command.length) 0 := by
  have hall : command.takeWhile (· ≠ 0) = command := by
    rw [List.takeWhile_eq_self_iff]
    exact fun c hc => by simp [hne c hc]
  simp only [strncpy, hall, List.take_of_length_le hlen]

theorem takeWhile_padded {command : List UInt8} (k : Nat) (hne : ∀ c ∈ command, c ≠ 0) :
    (command ++ List.replicate k 0).takeWhile (· ≠ 0) = command := by
  rw [List.takeWhile_append_of_pos fun c hc => by simp [hne c hc]]
  cases k with
  | zero => simp
  | succ k => simp [List.replicate_succ]

theorem commandIsValid_padded (command : List UInt8) (k : Nat)
    (hprintable : ∀ c ∈ command, 0x20 ≤ c ∧ c ≤ 0x7E) :
    commandIsValid (command ++ List.replicate k 0) = true := by
  induction command with
  | nil =>
    cases k with
    | zero => rfl
    | succ k => simp [List.replicate_succ, commandIsValid]
  | cons c command ih =>
    obtain ⟨hlo, hhi⟩ := hprintable c List.mem_cons_self
    have hne : c ≠ 0 := by
      rintro rfl
      exact absurd hlo (by decide)
    rw [List.cons_append, commandIsValid, if_neg hne, if_neg,
      ih fun d hd => hprintable d (List.mem_cons_of_mem c hd)]
    simp only [Bool.or_eq_true, decide_eq_true_eq, not_or, UInt8.not_lt]
    exact ⟨hlo, hhi⟩

variable {m : NetPayload}

theorem NetPayload.Sendable.ne_zero (h : m.Sendable) : ∀ c ∈ m.command, c ≠ 0 := by
  rintro c hc rfl
  exact absurd (h.printable 0 hc).1 (by decide)

theorem NetPayload.Sendable.pchCommand (h : m.Sendable) : (m.header params).pchCommand =
    m.command ++ List.replicate (commandSize - m.command.length) 0 := strncpy_eq h.command h.ne_zero

theorem NetPayload.Sendable.getCommand (h : m.Sendable) : (m.header params).getCommand = m.command := by
  rw [CMessageHeader.getCommand, h.pchCommand]
  exact takeWhile_padded _ h.ne_zero

theorem NetPayload.Sendable.isValid (h : m.Sendable) : (m.header params).isValid params = true := by
  have hcommand : commandIsValid (m.header params).pchCommand = true := by
    rw [h.pchCommand]
    exact commandIsValid_padded _ _ h.printable
  have hstart : (m.header params).pchMessageStart = params.messageStart := rfl
  simp [CMessageHeader.isValid, hcommand, hstart, header_nMessageSize h.payload, h.payload]

/-- The command and the payload are handed to `ProcessMessage`. -/
theorem processMessages_netMessage {σ : Type} (handler : MessageHandler σ) (h : m.Sendable) (it : List CNetMessage)
    {s : σ} (hget : handler.hasGetData s = false) (hconnected : handler.fDisconnect s = false)
    (hfull : handler.sendBufferFull s = false) :
    processMessages params handler (m.netMessage params :: it) s =
      (true, if handler.fDisconnect (handler.processMessage s m.command m.payload) then m.netMessage params :: it
        else it, handler.processMessage s m.command m.payload) := by
  have hstart : (m.netMessage params).hdr.pchMessageStart = params.messageStart := rfl
  have hvalid : (m.netMessage params).hdr.isValid params = true := h.isValid
  have hcommand : (m.netMessage params).hdr.getCommand = m.command := h.getCommand
  have hchecksum : params.hash (m.payload.take (m.netMessage params).hdr.nMessageSize) % 2 ^ 32 =
      (m.netMessage params).hdr.nChecksum := by
    show params.hash (m.payload.take (m.header params).nMessageSize) % 2 ^ 32 = params.hash m.payload % 2 ^ 32
    rw [header_nMessageSize h.payload, List.take_length]
  have hvRecv : (m.netMessage params).vRecv = m.payload := rfl
  simp only [processMessages, hget, Bool.false_eq_true, if_false, processLoop, hconnected, hfull,
    netMessage_complete h.payload, Bool.not_true, hstart, ne_eq, not_true, hvalid, hchecksum, hcommand, hvRecv]

/-! ### Both ends -/

/-- The messages whose frames are in the first `nBytes` bytes of the stream. -/
def wholeMessages (params : NetParams) : Nat → List NetPayload → List NetPayload
  | _, [] => []
  | nBytes, m :: ms =>
    if (m.frame params).length ≤ nBytes then m :: wholeMessages params (nBytes - (m.frame params).length) ms else []

theorem wholeMessages_append (done rest : List NetPayload) {n : Nat}
    (hn : ∀ m ∈ rest.head?, n < (m.frame params).length) :
    wholeMessages params ((done.flatMap (frame params)).length + n) (done ++ rest) = done := by
  induction done with
  | nil =>
    cases rest with
    | nil => rfl
    | cons m rest =>
      have hlt := hn m rfl
      rw [List.nil_append, wholeMessages, if_neg]
      simpa using hlt
  | cons m done ih =>
    rw [List.flatMap_cons, List.length_append, List.cons_append, wholeMessages, if_pos (by omega)]
    have hsub : (m.frame params).length + (done.flatMap (frame params)).length + n - (m.frame params).length =
        (done.flatMap (frame params)).length + n := by omega
    rw [hsub, ih]

theorem wholeMessages_prefix : ∀ (ms : List NetPayload) (nBytes : Nat), wholeMessages params nBytes ms <+: ms := by
  intro ms
  induction ms with
  | nil => exact fun _ => List.prefix_rfl
  | cons m ms ih =>
    intro nBytes
    rw [wholeMessages]
    split_ifs
    · exact (List.prefix_cons_inj m).mpr (ih _)
    · exact List.nil_prefix

theorem ReceivedUpTo.filter_complete (h : ReceivedUpTo params done rest n msgs)
    (hsize : ∀ m ∈ done ++ rest, m.payload.length ≤ maxSize) :
    msgs.filter CNetMessage.complete = done.map (NetPayload.netMessage params) := by
  have hdone : (done.map (NetPayload.netMessage params)).filter CNetMessage.complete =
      done.map (NetPayload.netMessage params) := by
    rw [List.filter_eq_self]
    intro msg hmsg
    obtain ⟨m, hm, rfl⟩ := List.mem_map.mp hmsg
    exact netMessage_complete (hsize m (List.mem_append_left _ hm))
  obtain ⟨tail, rfl, ⟨-, rfl⟩ | ⟨-, m, rest', msg, rfl, hlt, habs, rfl⟩⟩ := h
  · rw [List.append_nil, hdone]
  · have hm := hsize m (List.mem_append_right _ List.mem_cons_self)
    rw [List.filter_append, hdone, List.filter_singleton, habs.not_complete hm hlt]
    simp

theorem ReceivedUpTo.whole (h : ReceivedUpTo params done rest n msgs) :
    wholeMessages params ((done.flatMap (frame params)).length + n) (done ++ rest) = done := by
  refine wholeMessages_append done rest fun m hm => ?_
  obtain ⟨tail, -, ⟨rfl, -⟩ | ⟨-, m', rest', msg, rfl, hlt, -, -⟩⟩ := h
  · rw [length_frame]
    omega
  · obtain rfl := Option.some.inj hm
    exact hlt

/-- **Messages arrive whole, once and in order.**  At the sending end no assertion fails, and what the socket has
taken, followed by the rest of the queue, is the stream of the framed messages.  However the stream is cut into
chunks, the receiving end builds the messages that it holds whole, and these pass the checks of `ProcessMessages`
with the command and the payload that were pushed. -/
theorem messages_arrive (params : NetParams) (es : List SendEvent)
    (hes : ∀ m ∈ es.filterMap pushed, m.Sendable) :
    ∃ node, es.foldlM (SendEvent.step params) {} = some node ∧
      node.sent ++ node.vSendMsg.flatten.drop node.nSendOffset =
        (es.filterMap pushed).flatMap (frame params) ∧
      node.nSendSize = (node.vSendMsg.map List.length).sum ∧
      (∀ chunks : List (List UInt8), chunks.flatten = node.sent → ∃ peer,
        receiveChunks params chunks {} = (true, peer) ∧
        peer.vRecvMsg.filter CNetMessage.complete =
          (wholeMessages params node.sent.length (es.filterMap pushed)).map
            (NetPayload.netMessage params)) ∧
      wholeMessages params node.sent.length (es.filterMap pushed) <+: es.filterMap pushed ∧
      (node.vSendMsg = [] →
        wholeMessages params node.sent.length (es.filterMap pushed) = es.filterMap pushed) ∧
      ∀ m ∈ es.filterMap pushed, ∀ {σ : Type} (handler : MessageHandler σ) (it : List CNetMessage) (s : σ),
        handler.hasGetData s = false → handler.fDisconnect s = false → handler.sendBufferFull s = false →
        processMessages params handler (m.netMessage params :: it) s =
          (true, if handler.fDisconnect (handler.processMessage s m.command m.payload) then m.netMessage params :: it
            else it, handler.processMessage s m.command m.payload) := by
  obtain ⟨node, hrun, hinv⟩ := @run_sendInv params es [] {} sendInv_empty
  have hstream := hinv.queued.stream
  rw [List.nil_append] at hstream
  have hsize : ∀ m ∈ [] ++ es.filterMap pushed, m.payload.length ≤ maxSize := fun m hm => (hes m hm).payload
  refine ⟨node, hrun, hstream, hinv.queued.size, ?_, wholeMessages_prefix _ _, ?_, ?_⟩
  · intro chunks hchunks
    obtain ⟨done, rest, n, peer, hrecv, hup, heq, hlen⟩ := receiveChunks_spec chunks [] (es.filterMap pushed) 0
      {} hsize ⟨[], rfl, .inl ⟨rfl, rfl⟩⟩
          (by rw [List.drop_zero, hchunks, ← hstream]; exact List.prefix_append _ _)
    refine ⟨peer, hrecv, ?_⟩
    have hwhole := hup.whole
    rw [List.flatMap_nil, List.length_nil, Nat.zero_add, hchunks] at hlen
    rw [hlen, heq, List.nil_append] at hwhole
    rw [hup.filter_complete (by rwa [heq]), hwhole]
  · intro hempty
    rw [hempty, List.flatten_nil, List.drop_nil, List.append_nil] at hstream
    have hall := @wholeMessages_append params (es.filterMap pushed) [] 0 (by simp)
    rwa [List.append_nil, Nat.add_zero, ← hstream] at hall
  · intro m hm σ handler it s hget hconnected hfull
    exact processMessages_netMessage handler (hes m hm) it hget hconnected hfull

def sampleNet : NetParams :=
  { messageStart := [0xd2, 0x2d, 0x1c, 0xe5]
    length_messageStart := rfl
    hash := fun bytes => (bytes.map UInt8.toNat).sum }

/-- A `verack`, of which 20 bytes are taken at once, and a `ping`, while the rest of it waits. -/
def sampleSends : List SendEvent :=
  [.pushMessage ⟨[118, 101, 114, 97, 99, 107], []⟩ false [.bytes 20],
    .pushMessage ⟨[112, 105, 110, 103], [1, 2, 3, 4, 5, 6, 7, 8]⟩ false [], .socketSendData [.bytes 4, .bytes 99]]

/-- Both messages are sent. -/
theorem messages_arrive_sample : ∃ node, sampleSends.foldlM (SendEvent.step sampleNet) {} = some node ∧
    node.sent.length = 56 ∧ ∃ peer,
      receiveChunks sampleNet [node.sent.take 30, node.sent.drop 30] {} = (true, peer) ∧
      peer.vRecvMsg.filter CNetMessage.complete =
        (sampleSends.filterMap pushed).map (NetPayload.netMessage sampleNet) := by
  obtain ⟨node, hrun, -, -, hreceive, -, hall, -⟩ := messages_arrive sampleNet sampleSends (by
    intro m hm
    obtain rfl | rfl : m = ⟨[118, 101, 114, 97, 99, 107], []⟩ ∨
        m = ⟨[112, 105, 110, 103], [1, 2, 3, 4, 5, 6, 7, 8]⟩ := by
      simpa [sampleSends, pushed] using hm
    · exact ⟨by decide, by decide, by simp⟩
    · exact ⟨by decide, by decide, by simp⟩)
  have hsent : (sampleSends.foldlM (SendEvent.step sampleNet) {}).map (fun node => (node.vSendMsg, node.sent.length)) =
      some ([], 56) := by decide
  rw [hrun, Option.map_some, Option.some.injEq, Prod.mk.injEq] at hsent
  obtain ⟨peer, hpeer, hcomplete⟩ := hreceive [node.sent.take 30, node.sent.drop 30] (by simp)
  exact ⟨node, hrun, hsent.2, peer, hpeer, by rw [hcomplete, hall hsent.1]⟩

end Sphinx
