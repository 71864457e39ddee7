import Sphinx.MixingMessages
import Sphinx.Equiv.StashedsendPool

/-!
# Mixing messages at their receiver

* `understood_iff`: of the messages that the network carries, those other than `dsc` are read back with
  the same values, to the last byte.  A `dsc` never is: it carries a text, and a number is read.
* `completes_iff`: a `dsc` with the id of its session is relayed, and a client in the session then runs
  `CompletedTransaction`, exactly if the final transaction has been accepted and the masternode can sign.
  After a refused one the session is reset first, so that its id is gone.
-/

namespace Sphinx

open Codec

variable {sessionID : Int} {errorMessage : List UInt8}

/-- The message is read with the values that were written, and nothing is left over. -/
def MixingMessage.Understood (m : MixingMessage) : Prop :=
  ∃ r, receiveMixing m.command m.bytes = some (r, []) ∧ r.fields = m.fields

/-! ### What is read -/

theorem receiveMixing_eq (command : MixingCommand) {bytes : List UInt8} (h : bytes.length ≤ maxSize) :
    receiveMixing command bytes = readMixing command bytes := if_neg (not_lt.mpr h)

theorem reads_readDsf {txNew : CTransaction} (h : (MixingMessage.dsf sessionID txNew).Fits)
    (hsize : (MixingMessage.dsf sessionID txNew).bytes.length ≤ maxSize) :
    Reads readDsf (MixingMessage.dsf sessionID txNew).bytes (.dsf sessionID txNew.received) := by
  simp only [MixingMessage.bytes, List.length_append] at hsize
  refine reads_bind (reads_readInt h.1) ?_
  exact reads_bind_nil (reads_readTransaction h.2 (by omega)) (reads_pure _)

theorem reads_readDsi {vin : List CTxIn} {nAmount : CAmount} {txCollateral : CTransaction}
    {vout : List CTxOut} (h : (MixingMessage.dsi vin nAmount txCollateral vout).Fits)
    (hsize : (MixingMessage.dsi vin nAmount txCollateral vout).bytes.length ≤ maxSize) :
    Reads readDsi (MixingMessage.dsi vin nAmount txCollateral vout).bytes
      (.dsi vin nAmount txCollateral.received (vout.map CTxOut.received)) := by
  simp only [MixingMessage.bytes, List.length_append] at hsize
  obtain ⟨hvin, hamount, htx, hvout⟩ := h
  refine reads_bind (reads_vectorTxIn hvin (by omega)) ?_
  refine reads_bind (reads_readInt hamount) ?_
  refine reads_bind (reads_readTransaction htx (by omega)) ?_
  exact reads_bind_nil (reads_vectorTxOut hvout (by omega)) (reads_pure _)

theorem reads_readDssu {newState newEntriesCount newAccepted : Int} {error : List UInt8}
    (h : (MixingMessage.dssu sessionID newState newEntriesCount newAccepted error).Fits)
    (hsize : (MixingMessage.dssu sessionID newState newEntriesCount newAccepted error).bytes.length ≤ maxSize) :
    Reads readDssu (MixingMessage.dssu sessionID newState newEntriesCount newAccepted error).bytes
      (.dssu sessionID newState newEntriesCount newAccepted error) := by
  have hlen := length_le_writeBytes error
  simp only [MixingMessage.bytes, List.length_append] at hsize
  obtain ⟨hid, hstate, hcount, haccepted⟩ := h
  refine reads_bind (reads_readInt hid) ?_
  refine reads_bind (reads_readInt hstate) ?_
  refine reads_bind (reads_readInt hcount) ?_
  refine reads_bind (reads_readInt haccepted) ?_
  exact reads_bind_nil (reads_readString (by omega)) (reads_pure _)

/-- Of the text of a `dsc`, its size included, four bytes are read as a number. -/
theorem readDsc_bytes (h : FitsInt 4 sessionID) (error : Bool)
    (hlen : 4 ≤ (writeBytes errorMessage).length) :
    readDsc (MixingMessage.dsc sessionID error errorMessage).bytes =
      some (.dsc sessionID error ((fromLE ((writeBytes errorMessage).take 4) : Int).bmod (256 ^ 4)),
        (writeBytes errorMessage).drop 4) := by
  have hid := reads_readInt h (writeBool error ++ writeBytes errorMessage)
  have hbool := reads_readBool error (writeBytes errorMessage)
  unfold readDsc MixingMessage.bytes
  rw [bind_apply_of_eq hid, bind_apply_of_eq hbool, bind_apply_of_eq (readInt_of_le hlen)]
  rfl

/-! ### Which messages are understood -/

theorem MixingMessage.understood_of_reads {m : MixingMessage} {r : ReceivedMessage}
    (hsize : m.bytes.length ≤ maxSize) (h : Reads (readMixing m.command) m.bytes r)
    (hfields : r.fields = m.fields) : m.Understood :=
  ⟨r, (receiveMixing_eq m.command hsize).trans h.run, hfields⟩

theorem exists_of_readDsc {s s' : List UInt8} {r : ReceivedMessage} (h : readDsc s = some (r, s')) :
    ∃ sessionIDMessage error errorID, r = .dsc sessionIDMessage error errorID := by
  unfold readDsc at h
  rw [bind_apply, Option.bind_eq_some_iff] at h
  obtain ⟨x, -, h⟩ := h
  rw [bind_apply, Option.bind_eq_some_iff] at h
  obtain ⟨y, -, h⟩ := h
  rw [bind_apply, Option.bind_eq_some_iff] at h
  obtain ⟨z, -, h⟩ := h
  exact ⟨x.1, y.1, z.1, (congrArg Prod.fst (Option.some.inj h)).symm⟩

/-- A number is never the text that was sent. -/
theorem not_understood_dsc (sessionID : Int) (error : Bool) (errorMessage : List UInt8) :
    ¬ (MixingMessage.dsc sessionID error errorMessage).Understood := by
  rintro ⟨r, hread, hfields⟩
  unfold receiveMixing at hread
  split_ifs at hread
  obtain ⟨sessionIDMessage, error', errorID, rfl⟩ := exists_of_readDsc hread
  simp [ReceivedMessage.fields, MixingMessage.fields] at hfields

/-- **Exactly the messages other than `dsc` are understood**, if they are not too large to be received. -/
theorem MixingMessage.understood_iff {m : MixingMessage} (h : m.Fits) :
    m.Understood ↔ m.command ≠ .dsc ∧ m.bytes.length ≤ maxSize := by
  by_cases hsize : m.bytes.length ≤ maxSize
  · rw [and_iff_left hsize]
    cases m with
    | dsf sessionID txNew =>
      exact iff_of_true (understood_of_reads hsize (reads_readDsf h hsize) rfl) (by simp [command])
    | dsi vin nAmount txCollateral vout =>
      exact iff_of_true (understood_of_reads hsize (reads_readDsi h hsize) rfl) (by simp [command])
    | dssu sessionID newState newEntriesCount newAccepted error =>
      exact iff_of_true (understood_of_reads hsize (reads_readDssu h hsize) rfl) (by simp [command])
    | dsc sessionID error errorMessage =>
      exact iff_of_false (not_understood_dsc sessionID error errorMessage) fun hne => hne rfl
  · refine iff_of_false ?_ fun hm => hsize hm.2
    rintro ⟨r, hread, -⟩
    rw [receiveMixing, if_pos (not_le.mp hsize)] at hread
    cases hread

/-! ### The end of a session -/

/-- The client has joined the session of the masternode at `addr`, and reads what comes from there. -/
structure MixingClient.InSession (client : MixingClient) (ctx : PoolCtx) (pool : CStashedsendPool)
    (nVersion : Int) (addr : CService) : Prop where
  sessionID : client.sessionID = pool.sessionID
  notMasterNode : client.fMasterNode = false
  nVersion : minPoolPeerProtoVersion ≤ nVersion
  submittedTo : ∃ s ∈ client.submittedTo, s.ip = addr.ip
  notLite : ctx.fLiteMode = false
  awake : ctx.fSlept = false
  synced : ctx.fBlockchainSynced = true

/-- `CheckFinalTransaction` relays a `dsc` with the id of the session.  Every `dsc` that it relays carries
this id, and a client in the session that receives it runs `CompletedTransaction`, which releases its
coins. -/
def CStashedsendPool.Completes (ctx : PoolCtx) (pool : CStashedsendPool) : Prop :=
  (∃ error errorMessage,
    .dsc pool.sessionID error errorMessage ∈ pool.checkFinalTransactionRelays ctx) ∧
  ∀ sessionID error errorMessage,
    .dsc sessionID error errorMessage ∈ pool.checkFinalTransactionRelays ctx →
    sessionID = pool.sessionID ∧
    ∀ (client : MixingClient) (ctx' : PoolCtx) (nBestHeight nVersion : Int) (addr : CService),
      client.InSession ctx' pool nVersion addr →
      ∃ errorID,
        client.processMessage ctx' nBestHeight nVersion addr
            (MixingMessage.dsc sessionID error errorMessage).bytes =
          client.completedTransaction ctx' nBestHeight error errorID ∧
        (client.completedTransaction ctx' nBestHeight error errorID).lockedCoins = []

namespace MixingClient

theorem lockedCoins_completedTransaction {ctx : PoolCtx} {client : MixingClient}
    (h : client.fMasterNode = false) (nBestHeight : Int) (error : Bool) (errorID : Int) :
    (client.completedTransaction ctx nBestHeight error errorID).lockedCoins = [] := by
  unfold completedTransaction
  rw [h]
  cases error <;> rfl

/-- A client in the session acts on a `dsc` with its id and a text of three bytes or more. -/
theorem processDsc_bytes {client : MixingClient} {ctx : PoolCtx} {pool : CStashedsendPool}
    {nVersion : Int} {addr : CService} (hclient : client.InSession ctx pool nVersion addr)
    (hid : FitsInt 4 pool.sessionID) (error : Bool) (hlen : 4 ≤ (writeBytes errorMessage).length)
    (hsize : (MixingMessage.dsc pool.sessionID error errorMessage).bytes.length ≤ maxSize) :
    client.processDsc nVersion addr (MixingMessage.dsc pool.sessionID error errorMessage).bytes =
      some (error, (fromLE ((writeBytes errorMessage).take 4) : Int).bmod (256 ^ 4)) := by
  obtain ⟨s, hs, hip⟩ := hclient.submittedTo
  have hread := (receiveMixing_eq .dsc hsize).trans (readDsc_bytes hid error hlen)
  unfold processDsc
  rw [if_neg (not_lt.mpr hclient.nVersion), Option.mem_def.mp hs]
  simp only [hip, ne_eq, not_true_eq_false, if_false, hread, hclient.sessionID]

end MixingClient

namespace CStashedsendPool

variable {ctx : PoolCtx} {pool : CStashedsendPool}

/-- After the reset the `dsc` carries no id. -/
theorem relays_of_not_accepted (h : ctx.acceptToMemoryPool pool.finalTransaction = false) :
    .dsc 0 true (textBytes "Transaction not valid, please try again") ∈
      pool.checkFinalTransactionRelays ctx := by
  rw [checkFinalTransactionRelays, if_pos (by rw [h]; rfl)]
  exact List.mem_append_right _ List.mem_cons_self

/-- The only `dsc` after an accepted transaction. -/
theorem eq_of_mem_relays (h : ctx.acceptToMemoryPool pool.finalTransaction = true) {error : Bool}
    (hmem : .dsc sessionID error errorMessage ∈ pool.checkFinalTransactionRelays ctx) :
    sessionID = pool.sessionID ∧ error = false ∧
      errorMessage = textBytes "Transaction created successfully." := by
  rw [checkFinalTransactionRelays, h, if_neg (by decide)] at hmem
  split_ifs at hmem
  · cases hmem
  · rcases List.mem_cons.mp hmem with heq | hmem
    · obtain ⟨hid, herror, htext⟩ := MixingMessage.dsc.inj heq
      exact ⟨hid, herror, htext⟩
    · rw [List.mem_singleton, relayStatus] at hmem
      cases hmem

theorem four_le_length_success :
    4 ≤ (writeBytes (textBytes "Transaction created successfully.")).length := by decide

theorem length_success_le (sessionID : Int) :
    (MixingMessage.dsc sessionID false (textBytes "Transaction created successfully.")).bytes.length ≤
      maxSize := by
  have htext : (writeBytes (textBytes "Transaction created successfully.")).length = 34 := by decide
  simp only [MixingMessage.bytes, writeBool, List.length_append, length_writeInt, length_toLE, htext]
  decide

/-- **The end of a session is announced to its clients** exactly if the final transaction is accepted and
its broadcast signed. -/
theorem completes_iff (hid : pool.sessionID ≠ 0) (hfits : FitsInt 4 pool.sessionID) :
    pool.Completes ctx ↔ ctx.acceptToMemoryPool pool.finalTransaction = true ∧ ctx.fSigned = true := by
  constructor
  · rintro ⟨⟨error, errorMessage, hrelayed⟩, h⟩
    have haccepted : ctx.acceptToMemoryPool pool.finalTransaction = true := by
      by_contra hnot
      obtain ⟨hzero, -⟩ := h 0 true _ (relays_of_not_accepted (Bool.not_eq_true _ ▸ hnot))
      exact hid hzero.symm
    refine ⟨haccepted, ?_⟩
    by_contra hnot
    rw [checkFinalTransactionRelays, haccepted, if_neg (by decide), if_pos (by simpa using hnot)] at hrelayed
    cases hrelayed
  · rintro ⟨h, hsigned⟩
    refine ⟨⟨false, textBytes "Transaction created successfully.", ?_⟩, ?_⟩
    · rw [checkFinalTransactionRelays, h, hsigned]
      exact List.mem_cons_self
    intro sessionID error errorMessage hmem
    obtain ⟨rfl, rfl, rfl⟩ := eq_of_mem_relays h hmem
    refine ⟨rfl, fun client ctx' nBestHeight nVersion addr hclient => ?_⟩
    obtain ⟨errorID, hcall⟩ : ∃ errorID, client.processDsc nVersion addr
        (MixingMessage.dsc pool.sessionID false (textBytes "Transaction created successfully.")).bytes =
          some (false, errorID) :=
      ⟨_, client.processDsc_bytes hclient hfits false four_le_length_success (length_success_le _)⟩
    refine ⟨errorID, ?_,
      client.lockedCoins_completedTransaction hclient.notMasterNode nBestHeight false errorID⟩
    simp only [MixingClient.processMessage, hclient.notLite, hclient.awake, hclient.synced, hcall,
      Bool.false_eq_true, if_false, Bool.not_true]

end CStashedsendPool

/-! ### Both together -/

/-- **What mixing messages achieve.**  A message is understood unless it is a `dsc` (or too large to be
received), and a session ends for its clients if its transaction is accepted and its broadcast signed. -/
theorem understood_and_completes_iff {m : MixingMessage} (hm : m.Fits) {ctx : PoolCtx}
    {pool : CStashedsendPool} (hid : pool.sessionID ≠ 0) (hfits : FitsInt 4 pool.sessionID) :
    (m.Understood ↔ m.command ≠ .dsc ∧ m.bytes.length ≤ maxSize) ∧
      (pool.Completes ctx ↔ ctx.acceptToMemoryPool pool.finalTransaction = true ∧ ctx.fSigned = true) :=
  ⟨MixingMessage.understood_iff hm, CStashedsendPool.completes_iff hid hfits⟩

/-- A final status and a session whose transaction is accepted. -/
theorem understood_and_completes_sample :
    (MixingMessage.dssu 7 1 0 (-1) []).Understood ∧
      CStashedsendPool.Completes samplePoolCtx { sessionID := 7 } := by
  have hm : (MixingMessage.dssu 7 1 0 (-1) []).Fits := ⟨by decide, by decide, by decide, by decide⟩
  have h := @understood_and_completes_iff _ hm samplePoolCtx { sessionID := 7 } (by decide) (by decide)
  exact ⟨h.1.mpr ⟨by decide, by decide⟩, h.2.mpr ⟨rfl, rfl⟩⟩

/-- The masternode announces that session 7 has succeeded; "!Tra" is read as a number and the rest of the
text is left over.  When the transaction of session 7 is refused, the `dsc` is for session 0. -/
theorem dsc_not_understood_nor_completed :
    receiveMixing .dsc
        (MixingMessage.dsc 7 false (textBytes "Transaction created successfully.")).bytes =
      some (.dsc 7 false 0x61725421, textBytes "nsaction created successfully.") ∧
    ¬ (MixingMessage.dsc 7 false (textBytes "Transaction created successfully.")).Understood ∧
    CStashedsendPool.checkFinalTransactionRelays { samplePoolCtx with acceptToMemoryPool := fun _ => false }
        { sessionID := 7 } =
      [.dssu 0 1 0 (-1) [], .dsc 0 true (textBytes "Transaction not valid, please try again")] ∧
    ¬ CStashedsendPool.Completes { samplePoolCtx with acceptToMemoryPool := fun _ => false }
        { sessionID := 7 } := by
  refine ⟨by decide, not_understood_dsc 7 false _, rfl, fun h => ?_⟩
  obtain ⟨hzero, -⟩ := h.2 0 true _ (CStashedsendPool.relays_of_not_accepted rfl)
  exact absurd hzero (by decide)

end Sphinx
