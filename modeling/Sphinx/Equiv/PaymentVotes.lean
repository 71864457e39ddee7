import Sphinx.Equiv.BlockHash
import Sphinx.PaymentVotes
import Sphinx.Equiv.Spork

/-!
# Payments to masternodes

`CheckBlock` looks for an output of the coinstake that pays the payee a certain amount.  The amount
is not computed from the reward: it is the value of the coinstake's own last output.

* `checkBlock_payee`: what the check does make sure of;
* `paysMasternode_iff`: hence the payee of a checked block is paid `GetMasternodePayment` of the
  reward exactly when the last output happens to carry that amount, or the payee happens to get it in
  an output that the check does not look for.

For each height a node lists the vote with the highest score among those it has received, as far as the
score, which depends on the block 577 below, and the id of a vote tell votes apart.

* `listedFor_addWinner`: what one vote does to the list;
* `PaymentInv`: what the list holds of the votes received so far, kept by every step under
  `PaymentEvent.Fine`;
* `paymentWinners_converge`: so two nodes on one chain that have received the same votes agree, if votes
  with the highest score do;
* `paymentWinners_diverge`: two masternodes of one transaction have one id and one score, and the order
  of their votes decides.
-/

namespace Sphinx

variable {env : Env} {ctx : Ctx} {block : CBlock} {pindexBest : CBlockIndex}

/-- The coinstake has an output that pays `payee` exactly `nAmount`. -/
def PaysExactly (block : CBlock) (payee : CScript) (nAmount : CAmount) : Prop :=
  ∃ txout ∈ (block.tx 1).vout, txout.nValue = nAmount ∧ txout.scriptPubKey = payee

/-- The value of the last output of the coinstake, `masternodePaymentAmount` in `CheckBlock`. -/
def lastOutputValue (block : CBlock) : CAmount := ((block.tx 1).vout.getLastD ⟨0, [], 0⟩).nValue

/-- The situation in which `CheckBlock` looks for a masternode payment to `payee`: a proof-of-stake
block on top of the tip, outside initial block download, with a winner listed for its height. -/
structure PaymentDue (ctx : Ctx) (pindexBest : CBlockIndex) (block : CBlock) (payee : CScript) :
    Prop where
  fInitialDownload : ctx.fInitialDownload = false
  isProofOfStake : block.isProofOfStake = true
  hashPrevBlock : pindexBest.hashBlock = block.hashPrevBlock
  winner : ∃ vin, getBlockPayee ctx.vWinning (pindexBest.nHeight + 1) = some (payee, vin)
  payee_ne : payee ≠ []

/-- A checked block pays the payee the value of the coinstake's last output. -/
theorem checkBlock_payee {payee : CScript} {fCheckPOW fCheckMerkleRoot fCheckSig : Bool}
    (hdue : PaymentDue ctx pindexBest block payee)
    (h : checkBlock env ctx (some pindexBest) block fCheckPOW fCheckMerkleRoot fCheckSig
      = .ok ()) :
    PaysExactly block payee (lastOutputValue block) := by
  obtain ⟨vin, hwinner⟩ := hdue.winner
  have hfound : foundPaymentAndPayee ctx pindexBest block = true := by
    simp only [checkBlock, exceptBind_ok] at h
    obtain ⟨-, -, -, -, -, -, -, -, -, -, -, -, ⟨⟩, hpay, -⟩ := h
    simpa [checkMasternodePayment, hdue.fInitialDownload, hdue.isProofOfStake,
      hdue.hashPrevBlock] using hpay
  simp only [foundPaymentAndPayee, hwinner, Bool.or_eq_true, decide_eq_true_eq, hdue.payee_ne,
    false_or, List.any_eq_true, Bool.and_eq_true] at hfound
  exact hfound

/-- **What is enforced of the masternode payment.**  Let a block pass `CheckBlock` when a payment to
`payee` is due, and let `reward` be any amount.  Then the coinstake pays the payee exactly
`GetMasternodePayment(height, reward)` if and only if its last output carries that amount, or the
payee gets it in an output of a value other than the last one's.  So it does whenever the last output
carries the amount; and only then, if all outputs to the payee carry the same value. -/
theorem paysMasternode_iff {payee : CScript} {fCheckPOW fCheckMerkleRoot fCheckSig : Bool}
    (reward : CAmount) (hdue : PaymentDue ctx pindexBest block payee)
    (h : checkBlock env ctx (some pindexBest) block fCheckPOW fCheckMerkleRoot fCheckSig
      = .ok ()) :
    let nPayment := getMasternodePayment (pindexBest.nHeight + 1) reward
    (PaysExactly block payee nPayment ↔ lastOutputValue block = nPayment ∨
      ∃ txout ∈ (block.tx 1).vout, txout.nValue ≠ lastOutputValue block ∧
        txout.nValue = nPayment ∧ txout.scriptPubKey = payee) ∧
    ((∀ txout ∈ (block.tx 1).vout, ∀ txout' ∈ (block.tx 1).vout, txout.scriptPubKey = payee →
        txout'.scriptPubKey = payee → txout.nValue = txout'.nValue) →
      (PaysExactly block payee nPayment ↔ lastOutputValue block = nPayment)) := by
  intro nPayment
  have hlast := checkBlock_payee hdue h
  have hiff : PaysExactly block payee nPayment ↔ lastOutputValue block = nPayment ∨
      ∃ txout ∈ (block.tx 1).vout, txout.nValue ≠ lastOutputValue block ∧
        txout.nValue = nPayment ∧ txout.scriptPubKey = payee := by
    constructor
    · rintro ⟨txout, hmem, hvalue, hscript⟩
      -- the check looks for the value of the last output only
      by_cases heq : txout.nValue = lastOutputValue block
      · exact .inl (heq.symm.trans hvalue)
      · exact .inr ⟨txout, hmem, heq, hvalue, hscript⟩
    · rintro (heq | ⟨txout, hmem, -, hvalue, hscript⟩)
      · rw [← heq]; exact hlast
      · exact ⟨txout, hmem, hvalue, hscript⟩
  refine ⟨hiff, fun hsame => ?_⟩
  rw [hiff]
  constructor
  · rintro (heq | ⟨txout, hmem, hne, -, hscript⟩)
    · exact heq
    · -- the output found by the check and this one go to the same script
      obtain ⟨txout', hmem', hvalue', hscript'⟩ := hlast
      exact absurd ((hsame txout hmem txout' hmem' hscript hscript').trans hvalue') hne
  · exact .inl

/-! ### A coinstake that pays the masternode one satoshi -/

def payeeScript : CScript := [2]

/-- The empty coinbase of a proof-of-stake block of height 2. -/
def emptyCoinbase : CTransaction :=
  { nTime := 31, vin := [⟨COutPoint.null, [0x52, 0], uintMax⟩], vout := [⟨0, [], -10⟩] }

/-- A coinstake with a reward of 10 coins; its last output pays `nShare` to the payee. -/
def payingCoinstake (nShare : CAmount) : CTransaction :=
  { nTime := 32, vin := [⟨⟨1001, 0⟩, [], uintMax⟩],
    vout := [⟨0, [], -10⟩, ⟨15 * coin - nShare, [1], -10⟩, ⟨nShare, payeeScript, -10⟩] }

def stakedBlock (nShare : CAmount) : CBlock :=
  { sampleBlock [emptyCoinbase, payingCoinstake nShare] with nTime := 32 }

/-- The payee of height 2 is `payeeScript`. -/
def payeeCtx : Ctx :=
  { sampleCtx with nAdjustedTime := 32, vWinning := [⟨2, ⟨⟨9, 0⟩, [], uintMax⟩, payeeScript, [], 0⟩] }

theorem paymentDue_stakedBlock (nShare : CAmount) :
    PaymentDue payeeCtx fundingIndex (stakedBlock nShare) payeeScript :=
  ⟨rfl, rfl, rfl, ⟨_, rfl⟩, by decide⟩

/-- Half of the reward in the last output. -/
theorem paysMasternode_iff_half :
    checkBlock (sampleEnv []) payeeCtx (some fundingIndex) (stakedBlock (5 * coin)) true true true
        = .ok () ∧
      PaysExactly (stakedBlock (5 * coin)) payeeScript (getMasternodePayment 2 (10 * coin)) := by
  have hcheck : checkBlock (sampleEnv []) payeeCtx (some fundingIndex) (stakedBlock (5 * coin))
      true true true = .ok () := by
    obtain ⟨⟨⟩, h⟩ : ∃ u, checkBlock (sampleEnv []) payeeCtx (some fundingIndex)
        (stakedBlock (5 * coin)) true true true = .ok u := exists_of_isOk (by decide)
    exact h
  refine ⟨hcheck, ?_⟩
  exact (paysMasternode_iff (10 * coin) (paymentDue_stakedBlock _) hcheck).1.mpr (.inl (by decide))

/-- A block with a reward of 10 coins that pays its masternode one satoshi passes `CheckBlock`. -/
theorem checkBlock_underpays :
    let block := stakedBlock 1
    let env := sampleEnv block.vtx
    let reward := stakeCreated env (sampleNode [fundingIndex]) block { sampleIndex with hashBlock := 132 }
    PaymentDue payeeCtx fundingIndex block payeeScript ∧
      checkBlock env payeeCtx (some fundingIndex) block true true true = .ok () ∧
      (acceptBlockChecks env payeeCtx (sampleNode [fundingIndex]) block).isOk = true ∧
      reward = 10 * coin ∧
      ¬ PaysExactly block payeeScript (getMasternodePayment 2 reward) := by
  intro block env reward
  have hreward : reward = 10 * coin := by decide
  refine ⟨paymentDue_stakedBlock 1, ?_, by decide, hreward, ?_⟩
  · obtain ⟨⟨⟩, h⟩ : ∃ u, checkBlock env payeeCtx (some fundingIndex) block true true true = .ok u :=
      exists_of_isOk (by decide)
    exact h
  · rw [hreward]
    unfold PaysExactly
    decide

/-! ### Nodes that receive the same payment votes -/

open KeepBest ParentTree

variable {signer : StashedSendSigner} {hash1 : Uint256 → Uint256}
  {hashHeight : Int → Uint256} {genesis : Uint256} {node : Node} {votes : PaymentVotes}
  {winner w : CMasternodePaymentWinner} {nHeight : Int}
variable {l : List CMasternodePaymentWinner} {fBlockchainSynced : Bool} {blockHash : Uint256}

/-! ### The list of winners -/

/-- The winner listed first for a height. -/
def listedFor (vWinning : List CMasternodePaymentWinner) (nHeight : Int) :
    Option CMasternodePaymentWinner :=
  vWinning.find? fun winner => winner.nBlockHeight = nHeight

/-- What `AddWinningMasternode` does to the list. -/
def addWinner (vWinning : List CMasternodePaymentWinner) (winnerIn : CMasternodePaymentWinner) :
    List CMasternodePaymentWinner :=
  match replaceWinner winnerIn vWinning with
  | some vWinning' => vWinning'
  | none =>
    if vWinning.any fun winner => winner.nBlockHeight = winnerIn.nBlockHeight then vWinning
    else vWinning ++ [winnerIn]

theorem listedFor_cons (x : CMasternodePaymentWinner) (l : List CMasternodePaymentWinner) (nHeight : Int) :
    listedFor (x :: l) nHeight = if x.nBlockHeight = nHeight then some x else listedFor l nHeight := by
  unfold listedFor
  by_cases h : x.nBlockHeight = nHeight
  · rw [List.find?_cons_of_pos (by simpa using h), if_pos h]
  · rw [List.find?_cons_of_neg (by simpa using h), if_neg h]

theorem listedFor_eq_none :
    listedFor l nHeight = none ↔ nHeight ∉ l.map CMasternodePaymentWinner.nBlockHeight := by
  unfold listedFor
  rw [List.find?_eq_none]
  simp

theorem listedFor_of_mem (hnodup : (l.map CMasternodePaymentWinner.nBlockHeight).Nodup) (hw : w ∈ l) :
    listedFor l w.nBlockHeight = some w := by
  induction l with
  | nil => exact absurd hw List.not_mem_nil
  | cons x l ih =>
    rw [List.map_cons, List.nodup_cons] at hnodup
    rw [listedFor_cons]
    rcases List.mem_cons.mp hw with rfl | hw
    · rw [if_pos rfl]
    · have hne : x.nBlockHeight ≠ w.nBlockHeight := fun hx =>
        hnodup.1 (List.mem_map.mpr ⟨w, hw, hx.symm⟩)
      rw [if_neg hne]
      exact ih hnodup.2 hw

theorem replaceBy_eq (h : w.nBlockHeight = winner.nBlockHeight) : w.replaceBy winner = winner := by
  cases winner
  simp_all [CMasternodePaymentWinner.replaceBy]

theorem replaceWinner_eq_none : ∀ {l : List CMasternodePaymentWinner},
    winner.nBlockHeight ∉ l.map CMasternodePaymentWinner.nBlockHeight → replaceWinner winner l = none := by
  intro l
  induction l with
  | nil => exact fun _ => rfl
  | cons x l ih =>
    intro h
    rw [List.map_cons, List.mem_cons, not_or] at h
    rw [replaceWinner, if_neg fun hx => h.1 hx.1.symm, ih h.2, Option.map_none]

theorem addWinner_cons_of_ne {x : CMasternodePaymentWinner} (h : x.nBlockHeight ≠ winner.nBlockHeight) :
    addWinner (x :: l) winner = x :: addWinner l winner := by
  unfold addWinner
  rw [replaceWinner, if_neg fun hx => h hx.1]
  cases replaceWinner winner l with
  | some l' => rfl
  | none =>
    simp only [Option.map_none, List.any_cons, decide_eq_false h, Bool.false_or]
    split_ifs <;> rfl

theorem addWinner_cons_of_eq {x : CMasternodePaymentWinner} (h : x.nBlockHeight = winner.nBlockHeight)
    (hl : winner.nBlockHeight ∉ l.map CMasternodePaymentWinner.nBlockHeight) :
    addWinner (x :: l) winner = if x.score < winner.score then winner :: l else x :: l := by
  unfold addWinner
  by_cases hlt : x.score < winner.score
  · rw [replaceWinner, if_pos ⟨h, hlt⟩, if_pos hlt, replaceBy_eq h]
  · rw [replaceWinner, if_neg fun hx => hlt hx.2, if_neg hlt, replaceWinner_eq_none hl]
    simp [h]

/-- **One vote.** The better one of the two is listed for its height. -/
theorem listedFor_addWinner (winner : CMasternodePaymentWinner) (nHeight : Int) :
    ∀ {l : List CMasternodePaymentWinner}, (l.map CMasternodePaymentWinner.nBlockHeight).Nodup →
      listedFor (addWinner l winner) nHeight = if winner.nBlockHeight = nHeight then
        better CMasternodePaymentWinner.score (listedFor l nHeight) winner else listedFor l nHeight := by
  intro l
  induction l with
  | nil => exact fun _ => listedFor_cons winner [] nHeight
  | cons x l ih =>
    intro hnodup
    rw [List.map_cons, List.nodup_cons] at hnodup
    by_cases hx : x.nBlockHeight = winner.nBlockHeight
    · rw [addWinner_cons_of_eq hx (hx ▸ hnodup.1)]
      by_cases hh : winner.nBlockHeight = nHeight
      · rw [if_pos hh, listedFor_cons, if_pos (hx.trans hh), better_some]
        split_ifs
        · rw [listedFor_cons, if_pos hh]
        · rw [listedFor_cons, if_pos (hx.trans hh)]
      · rw [if_neg hh, listedFor_cons, if_neg (hx.trans_ne hh)]
        split_ifs
        · rw [listedFor_cons, if_neg hh]
        · rw [listedFor_cons, if_neg (hx.trans_ne hh)]
    · rw [addWinner_cons_of_ne hx, listedFor_cons, listedFor_cons, ih hnodup.2]
      by_cases hxh : x.nBlockHeight = nHeight
      · rw [if_pos hxh, if_pos hxh, if_neg fun hh => hx (hxh.trans hh.symm)]
      · rw [if_neg hxh, if_neg hxh]

theorem nodup_addWinner (winner : CMasternodePaymentWinner) : ∀ {l : List CMasternodePaymentWinner},
    (l.map CMasternodePaymentWinner.nBlockHeight).Nodup →
      ((addWinner l winner).map CMasternodePaymentWinner.nBlockHeight).Nodup := by
  intro l
  induction l with
  | nil => exact fun _ => List.nodup_singleton _
  | cons x l ih =>
    intro h
    have hnodup := List.nodup_cons.mp h
    by_cases hx : x.nBlockHeight = winner.nBlockHeight
    · rw [addWinner_cons_of_eq hx (hx ▸ hnodup.1)]
      split_ifs
      · rw [List.map_cons, ← hx]
        exact h
      · exact h
    · rw [addWinner_cons_of_ne hx, List.map_cons, List.nodup_cons, ← listedFor_eq_none,
        listedFor_addWinner winner _ hnodup.2, if_neg (Ne.symm hx), listedFor_eq_none]
      exact ⟨hnodup.1, ih hnodup.2⟩

/-! ### One message -/

/-- A vote that reaches the map of the votes unless one with the same id is there already: the node is
synced, the height in range, and the vote is valid. -/
def countsHere (signer : StashedSendSigner) (fBlockchainSynced : Bool) (node : Node)
    (winner : CMasternodePaymentWinner) : Bool :=
  fBlockchainSynced &&
    ((node.pindexBest.bind node.mapBlockIndex).any fun pindexBest =>
      (pindexBest.nHeight : Int) - 10 ≤ winner.nBlockHeight &&
        winner.nBlockHeight ≤ (pindexBest.nHeight : Int) + 20) &&
    decide (winner.vin.nSequence = uintMax) && winner.checkSignature signer

theorem countsHere_iff :
    countsHere signer fBlockchainSynced node winner = true ↔ fBlockchainSynced = true ∧
      (∃ pindexBest, node.pindexBest.bind node.mapBlockIndex = some pindexBest ∧
        (pindexBest.nHeight : Int) - 10 ≤ winner.nBlockHeight ∧
        winner.nBlockHeight ≤ (pindexBest.nHeight : Int) + 20) ∧
      winner.vin.nSequence = uintMax ∧ winner.checkSignature signer = true := by
  simp only [countsHere, Bool.and_eq_true, Option.any_eq_true, decide_eq_true_eq, and_assoc]

theorem receive_of_not (h : countsHere signer fBlockchainSynced node winner = false) :
    votes.receive signer hash1 hashHeight fBlockchainSynced node winner = votes := by
  rw [← Bool.not_eq_true, countsHere_iff] at h
  unfold PaymentVotes.receive processWinner
  cases fBlockchainSynced with
  | false => rfl
  | true =>
    cases hbest : node.pindexBest.bind node.mapBlockIndex with
    | none => rfl
    | some pindexBest =>
      simp only [Bool.not_true, Bool.false_eq_true, if_false]
      split_ifs with hseen hrange hsequence hsignature
      · rfl
      · rfl
      · rfl
      · rfl
      · refine absurd ⟨rfl, ⟨pindexBest, hbest, ?_⟩, not_not.mp hsequence, by simpa using hsignature⟩ h
        omega

theorem receive_of_seen
    (h : (votes.mapSeenMasternodeVotes.lookup (winner.getHash hashHeight)).isSome = true) :
    votes.receive signer hash1 hashHeight fBlockchainSynced node winner = votes := by
  unfold PaymentVotes.receive processWinner
  cases fBlockchainSynced with
  | false => rfl
  | true =>
    cases node.pindexBest.bind node.mapBlockIndex with
    | none => rfl
    | some pindexBest => simp only [Bool.not_true, Bool.false_eq_true, if_false, h, if_true]

theorem addWinningMasternode_eq (hash1 : Uint256 → Uint256) (hashHeight : Int → Uint256)
    {votes : PaymentVotes} {mapCacheBlockHashes : StdMap Int Uint256}
    (hhash : getBlockHash node votes.mapCacheBlockHashes (winner.nBlockHeight - 576) =
        (some blockHash, mapCacheBlockHashes)) :
    ∃ seen, (addWinningMasternode hash1 hashHeight node votes winner).2 =
        ⟨mapCacheBlockHashes,
          addWinner votes.vWinning { winner with score := paymentScore hash1 blockHash winner.vin }, seen⟩ ∧
      (seen = votes.mapSeenMasternodeVotes ∨ ∃ w : CMasternodePaymentWinner,
        seen = MapLoop.insertNew w votes.mapSeenMasternodeVotes (winner.getHash hashHeight)) := by
  simp only [addWinningMasternode, hhash, addWinner]
  cases replaceWinner { winner with score := paymentScore hash1 blockHash winner.vin } votes.vWinning with
  | some vWinning => exact ⟨_, rfl, .inr ⟨_, rfl⟩⟩
  | none =>
    simp only
    split_ifs
    · exact ⟨_, rfl, .inl rfl⟩
    · exact ⟨_, rfl, .inr ⟨_, rfl⟩⟩

variable (hash1) in
/-- A vote with a new id and a known reference block. -/
theorem receive_new {mapCacheBlockHashes : StdMap Int Uint256}
    (h : countsHere signer fBlockchainSynced node winner = true)
    (hseen : (votes.mapSeenMasternodeVotes.lookup (winner.getHash hashHeight)).isSome = false)
    (hhash : getBlockHash node votes.mapCacheBlockHashes (winner.nBlockHeight - 576) =
        (some blockHash, mapCacheBlockHashes)) :
    ∃ seen, votes.receive signer hash1 hashHeight fBlockchainSynced node winner =
        ⟨mapCacheBlockHashes,
          addWinner votes.vWinning { winner with score := paymentScore hash1 blockHash winner.vin }, seen⟩ ∧
      ∀ id, (seen.lookup id).isSome = true →
        (votes.mapSeenMasternodeVotes.lookup id).isSome = true ∨ id = winner.getHash hashHeight := by
  obtain ⟨hsynced, ⟨pindexBest, hbest, hlow, hhigh⟩, hsequence, hsignature⟩ := countsHere_iff.mp h
  have hrange : ¬(winner.nBlockHeight < (pindexBest.nHeight : Int) - 10 ∨
      (pindexBest.nHeight : Int) + 20 < winner.nBlockHeight) := by omega
  let stored : PaymentVotes := { votes with
    mapSeenMasternodeVotes :=
      MapLoop.insertNew winner votes.mapSeenMasternodeVotes (winner.getHash hashHeight) }
  have hstored : getBlockHash node stored.mapCacheBlockHashes (winner.nBlockHeight - 576)
      = (some blockHash, mapCacheBlockHashes) := hhash
  obtain ⟨seen, heq, hcases⟩ := addWinningMasternode_eq hash1 hashHeight hstored
  have hnew : ∀ (w : CMasternodePaymentWinner) (m : StdMap Uint256 CMasternodePaymentWinner) (id : Uint256),
      ((MapLoop.insertNew w m (winner.getHash hashHeight)).lookup id).isSome = true →
        (m.lookup id).isSome = true ∨ id = winner.getHash hashHeight := by
    intro w m id hid
    rw [MapLoop.lookup_insertNew, Option.isSome_or, Bool.or_eq_true] at hid
    refine hid.imp_right fun hid => ?_
    by_contra hne
    rw [if_neg hne] at hid
    cases hid
  refine ⟨seen, ?_, fun id hid => ?_⟩
  · simp only [PaymentVotes.receive, processWinner, hsynced, hbest, hseen, hrange, hsequence, hsignature,
      Bool.not_true, Bool.false_eq_true, if_false, not_true, ne_eq]
    exact heq
  · rcases hcases with rfl | ⟨w, rfl⟩
    · exact hnew winner _ id hid
    · rcases hnew w _ id hid with hid | rfl
      · exact hnew winner _ id hid
      · exact .inr rfl

/-! ### Runs -/

/-- A node, and the votes that have counted so far, oldest first; the program does not keep these. -/
structure PaymentState where
  node : Node
  votes : PaymentVotes := {}
  received : List CMasternodePaymentWinner := []

inductive PaymentEvent
  | block (a : Arrival)
  | getBlockHash (nBlockHeight : Int)
  | mnw (fBlockchainSynced : Bool) (winner : CMasternodePaymentWinner)

namespace PaymentState

/-- The part of the state that `GetBlockHash` sees. -/
def hashes (s : PaymentState) : HashState := ⟨s.node, s.votes.mapCacheBlockHashes⟩

/-- The part of `received` that a message adds. -/
def counting (signer : StashedSendSigner) (s : PaymentState) (fBlockchainSynced : Bool)
    (winner : CMasternodePaymentWinner) : List CMasternodePaymentWinner :=
  if countsHere signer fBlockchainSynced s.node winner then [winner] else []

def step (env : Env) (signer : StashedSendSigner) (hash1 : Uint256 → Uint256)
    (hashHeight : Int → Uint256) (s : PaymentState) : PaymentEvent → Option PaymentState
  | .block a => some { s with node := a.add env s.node }
  | .getBlockHash nBlockHeight =>
    let mapCacheBlockHashes := (Sphinx.getBlockHash s.node s.votes.mapCacheBlockHashes nBlockHeight).2
    some { s with votes := { s.votes with mapCacheBlockHashes := mapCacheBlockHashes } }
  | .mnw fBlockchainSynced winner => some { s with
      votes := s.votes.receive signer hash1 hashHeight fBlockchainSynced s.node winner
      received := s.received ++ s.counting signer fBlockchainSynced winner }

end PaymentState

namespace PaymentEvent

/-- A block comes after its parent and can be read back from disk. -/
def Valid (env : Env) (s : PaymentState) : PaymentEvent → Prop
  | .block a => a.Valid env s.node
  | _ => True

/-- No block is disconnected whose hash is in the map of `GetBlockHash`, and a vote that counts is for a
height from 578 on and has the id of no vote before it for another height or another transaction. -/
def Fine (env : Env) (signer : StashedSendSigner) (hashHeight : Int → Uint256) (s : PaymentState) :
    PaymentEvent → Prop
  | .block a => HashEvent.KeepsCached env s.hashes (.block a)
  | .getBlockHash _ => True
  | .mnw fBlockchainSynced winner => countsHere signer fBlockchainSynced s.node winner = true →
      578 ≤ winner.nBlockHeight ∧ ∀ winner' ∈ s.received,
        winner'.getHash hashHeight = winner.getHash hashHeight →
          winner'.nBlockHeight = winner.nBlockHeight ∧
            winner'.vin.prevout.hash = winner.vin.prevout.hash

end PaymentEvent

/-- A vote as it is listed, with the score that the map of `GetBlockHash` gives it. -/
def scored (hash1 : Uint256 → Uint256) (mapCacheBlockHashes : StdMap Int Uint256)
    (winner : CMasternodePaymentWinner) : CMasternodePaymentWinner :=
  { winner with
    score := paymentScore hash1
      ((mapCacheBlockHashes.lookup (winner.nBlockHeight - 576)).getD 0) winner.vin }

/-- The votes for a height, as they are listed. -/
def ScoredVotes (hash1 : Uint256 → Uint256) (mapCacheBlockHashes : StdMap Int Uint256)
    (received : List CMasternodePaymentWinner) (nHeight : Int) (w : CMasternodePaymentWinner) : Prop :=
  ∃ winner ∈ received, winner.nBlockHeight = nHeight ∧ w = scored hash1 mapCacheBlockHashes winner

/-- What a node has made of the votes that have counted. -/
structure PaymentInv (hash1 : Uint256 → Uint256) (hashHeight : Int → Uint256) (genesis : Uint256)
    (s : PaymentState) : Prop where
  hashes : s.hashes.Inv genesis
  nodup : (s.votes.vWinning.map CMasternodePaymentWinner.nBlockHeight).Nodup
  known : ∀ winner ∈ s.received, 578 ≤ winner.nBlockHeight ∧
    ∃ hash, s.votes.mapCacheBlockHashes.lookup (winner.nBlockHeight - 576) = some hash
  seen : ∀ id, (s.votes.mapSeenMasternodeVotes.lookup id).isSome = true →
    ∃ winner ∈ s.received, winner.getHash hashHeight = id
  kept : ∀ nHeight, KeptBest CMasternodePaymentWinner.score
    (ScoredVotes hash1 s.votes.mapCacheBlockHashes s.received nHeight)
    (listedFor s.votes.vWinning nHeight)

theorem scored_congr {m m' : StdMap Int Uint256} {hash : Uint256}
    (h : m.lookup (winner.nBlockHeight - 576) = some hash)
    (h' : m'.lookup (winner.nBlockHeight - 576) = some hash) :
    scored hash1 m' winner = scored hash1 m winner := by
  rw [scored, scored, h, h']

theorem paymentScore_congr {vin vin' : CTxIn} (h : vin.prevout.hash = vin'.prevout.hash) :
    paymentScore hash1 blockHash vin = paymentScore hash1 blockHash vin' := by
  rw [paymentScore, paymentScore, h]

theorem scoredVotes_append {m : StdMap Int Uint256} {received : List CMasternodePaymentWinner} :
    ScoredVotes hash1 m (received ++ [winner]) nHeight w ↔
      ScoredVotes hash1 m received nHeight w ∨ winner.nBlockHeight = nHeight ∧ w = scored hash1 m winner := by
  unfold ScoredVotes
  constructor
  · rintro ⟨v, hv, hvn, rfl⟩
    rcases List.mem_append.mp hv with hv | hv
    · exact .inl ⟨v, hv, hvn, rfl⟩
    · obtain rfl := List.mem_singleton.mp hv
      exact .inr ⟨hvn, rfl⟩
  · rintro (⟨v, hv, hvn, rfl⟩ | ⟨hn, rfl⟩)
    · exact ⟨v, List.mem_append_left _ hv, hvn, rfl⟩
    · exact ⟨winner, List.mem_append_right _ (List.mem_singleton.mpr rfl), hn, rfl⟩

namespace PaymentInv

variable {s s' : PaymentState}

section

variable (h : PaymentInv hash1 hashHeight genesis s)

include h

/-- More answers of `GetBlockHash`, and another chain. -/
theorem of_extends (hhashes : s'.hashes.Inv genesis)
    (hext : ∀ {k hash}, s.votes.mapCacheBlockHashes.lookup k = some hash →
      s'.votes.mapCacheBlockHashes.lookup k = some hash)
    (hwinning : s'.votes.vWinning = s.votes.vWinning)
    (hseen : s'.votes.mapSeenMasternodeVotes = s.votes.mapSeenMasternodeVotes)
    (hreceived : s'.received = s.received) : PaymentInv hash1 hashHeight genesis s' := by
  refine ⟨hhashes, hwinning ▸ h.nodup, ?_, ?_, ?_⟩
  · intro winner hwinner
    obtain ⟨hheight, hash, hhash⟩ := h.known winner (hreceived ▸ hwinner)
    exact ⟨hheight, hash, hext hhash⟩
  · rw [hseen, hreceived]
    exact h.seen
  · intro nHeight
    rw [hwinning, hreceived]
    refine (h.kept nHeight).congr fun w => exists_congr fun winner => and_congr_right fun hwinner => ?_
    obtain ⟨-, hash, hhash⟩ := h.known winner hwinner
    rw [scored_congr hhash (hext hhash)]

theorem ask (nBlockHeight : Int) :
    PaymentInv hash1 hashHeight genesis { s with
      votes := { s.votes with
        mapCacheBlockHashes :=
          (Sphinx.getBlockHash s.node s.votes.mapCacheBlockHashes nBlockHeight).2 } } :=
  h.of_extends (h.hashes.ask nBlockHeight) (getBlockHash_table _ _ _).1 rfl rfl rfl

/-- A vote that counts, but whose id is known. -/
theorem add_seen {winner' : CMasternodePaymentWinner}
    (hwinner' : winner' ∈ s.received) (hheight : winner'.nBlockHeight = winner.nBlockHeight)
    (hhash : winner'.vin.prevout.hash = winner.vin.prevout.hash) :
    PaymentInv hash1 hashHeight genesis { s with received := s.received ++ [winner] } := by
  obtain ⟨hlow, hash, hcached⟩ := h.known winner' hwinner'
  refine ⟨h.hashes, h.nodup, ?_, ?_, ?_⟩
  · intro w hw
    rcases List.mem_append.mp hw with hw | hw
    · exact h.known w hw
    · rw [List.mem_singleton.mp hw, ← hheight]
      exact ⟨hlow, hash, hcached⟩
  · intro id hid
    obtain ⟨w, hw, hid⟩ := h.seen id hid
    exact ⟨w, List.mem_append_left _ hw, hid⟩
  · intro nHeight
    by_cases hn : winner.nBlockHeight = nHeight
    · -- the vote has the score of the one with its id
      have hscore : (scored hash1 s.votes.mapCacheBlockHashes winner).score ≤
          (scored hash1 s.votes.mapCacheBlockHashes winner').score := by
        rw [scored, scored, hheight]
        exact (paymentScore_congr hhash).ge
      refine ((h.kept nHeight).skip ⟨winner', hwinner', hheight.trans hn, rfl⟩ hscore).congr fun w => ?_
      simp only [scoredVotes_append, hn, true_and]
    · refine (h.kept nHeight).congr fun w => ?_
      simp only [scoredVotes_append, hn, false_and, or_false]

/-- A vote that counts, and is looked at. -/
theorem add_new {hash : Uint256}
    (hlow : 578 ≤ winner.nBlockHeight)
    (hcached : s.votes.mapCacheBlockHashes.lookup (winner.nBlockHeight - 576) = some hash)
    {seen : StdMap Uint256 CMasternodePaymentWinner}
    (hseen : ∀ id, (seen.lookup id).isSome = true →
      (s.votes.mapSeenMasternodeVotes.lookup id).isSome = true ∨ id = winner.getHash hashHeight) :
    PaymentInv hash1 hashHeight genesis { s with
      votes := ⟨s.votes.mapCacheBlockHashes,
        addWinner s.votes.vWinning { winner with score := paymentScore hash1 hash winner.vin }, seen⟩
      received := s.received ++ [winner] } := by
  have hscored : scored hash1 s.votes.mapCacheBlockHashes winner =
      { winner with score := paymentScore hash1 hash winner.vin } := by
    rw [scored, hcached, Option.getD_some]
  refine ⟨h.hashes, nodup_addWinner _ h.nodup, ?_, ?_, ?_⟩
  · intro w hw
    rcases List.mem_append.mp hw with hw | hw
    · exact h.known w hw
    · rw [List.mem_singleton.mp hw]
      exact ⟨hlow, hash, hcached⟩
  · intro id hid
    rcases hseen id hid with hid | rfl
    · obtain ⟨w, hw, hid⟩ := h.seen id hid
      exact ⟨w, List.mem_append_left _ hw, hid⟩
    · exact ⟨winner, List.mem_append_right _ (List.mem_singleton.mpr rfl), rfl⟩
  · intro nHeight
    show KeptBest _ _ (listedFor (addWinner s.votes.vWinning _) nHeight)
    rw [listedFor_addWinner _ _ h.nodup, ← hscored]
    have hheight : (scored hash1 s.votes.mapCacheBlockHashes winner).nBlockHeight = winner.nBlockHeight := rfl
    rw [hheight]
    by_cases hn : winner.nBlockHeight = nHeight
    · rw [if_pos hn]
      refine ((h.kept nHeight).better _).congr fun w => ?_
      simp only [scoredVotes_append, hn, true_and]
    · rw [if_neg hn]
      refine (h.kept nHeight).congr fun w => ?_
      simp only [scoredVotes_append, hn, false_and, or_false]

end

theorem step {e : PaymentEvent} (h : PaymentInv hash1 hashHeight genesis s)
    (hQ : e.Valid env s ∧ e.Fine env signer hashHeight s)
    (hstep : s.step env signer hash1 hashHeight e = some s') : PaymentInv hash1 hashHeight genesis s' := by
  obtain ⟨hvalid, hfine⟩ := hQ
  cases e with
  | block a =>
    obtain rfl := Option.some.inj hstep
    have hhashes : HashState.Inv genesis ⟨a.add env s.node, s.votes.mapCacheBlockHashes⟩ :=
      HashState.Inv.step (e := .block a) h.hashes ⟨hvalid, hfine⟩ rfl
    exact h.of_extends hhashes (fun hlookup => hlookup) rfl rfl rfl
  | getBlockHash nBlockHeight =>
    obtain rfl := Option.some.inj hstep
    exact h.ask nBlockHeight
  | mnw fBlockchainSynced winner =>
    obtain rfl := Option.some.inj hstep
    cases hcounts : countsHere signer fBlockchainSynced s.node winner with
    | false =>
      have hcounting : s.counting signer fBlockchainSynced winner = [] := by
        rw [PaymentState.counting, hcounts, if_neg Bool.false_ne_true]
      rw [receive_of_not hcounts, hcounting, List.append_nil]
      exact h
    | true =>
      have hcounting : s.counting signer fBlockchainSynced winner = [winner] := by
        rw [PaymentState.counting, if_pos hcounts]
      rw [hcounting]
      obtain ⟨hlow, hids⟩ := hfine hcounts
      cases hseen : (s.votes.mapSeenMasternodeVotes.lookup (winner.getHash hashHeight)).isSome with
      | true =>
        obtain ⟨winner', hwinner', hid⟩ := h.seen _ hseen
        obtain ⟨hheight, hhash⟩ := hids winner' hwinner' hid
        rw [receive_of_seen hseen]
        exact h.add_seen hwinner' hheight hhash
      | false =>
        -- the reference block is known, since the vote is in range
        obtain ⟨-, ⟨pindexBest, hbest, -, hhigh⟩, -⟩ := countsHere_iff.mp hcounts
        obtain ⟨⟨tip, hindexed⟩, htable⟩ := h.hashes
        obtain ⟨e, hbest', -, -, hnBestHeight⟩ := hindexed.exists_best
        obtain rfl : e = pindexBest := Option.some.inj (hbest'.symm.trans hbest)
        obtain ⟨hash, hanswer, -⟩ := getBlockHash_follows hindexed htable (winner.nBlockHeight - 576)
          (by omega) (by rw [hnBestHeight]; omega)
        have hcached := (getBlockHash_table s.node s.votes.mapCacheBlockHashes
          (winner.nBlockHeight - 576)).2 (by omega) hanswer
        obtain ⟨seen, heq, hnew⟩ := receive_new hash1 hcounts hseen (Prod.ext hanswer rfl)
        rw [heq]
        exact (h.ask (winner.nBlockHeight - 576)).add_new hlow hcached hnew

end PaymentInv

/-! ### Convergence -/

/-- A run of a node that has seen no votes at its start. -/
structure PaymentRun (env : Env) (signer : StashedSendSigner) (hash1 : Uint256 → Uint256)
    (hashHeight : Int → Uint256) (genesis : Uint256) (start : PaymentState) (es : List PaymentEvent)
    (s : PaymentState) : Prop where
  hashes : start.hashes.Inv genesis
  fresh : start.votes.vWinning = [] ∧ start.votes.mapSeenMasternodeVotes = ∅ ∧ start.received = []
  valid : Run.EveryStep (PaymentState.step env signer hash1 hashHeight)
    (fun s e => e.Valid env s) es start
  run : es.foldlM (PaymentState.step env signer hash1 hashHeight) start = some s

/-- Every step of a run is taken under `PaymentEvent.Fine`. -/
def FineRun (env : Env) (signer : StashedSendSigner) (hash1 : Uint256 → Uint256)
    (hashHeight : Int → Uint256) (start : PaymentState) (es : List PaymentEvent) : Prop :=
  Run.EveryStep (PaymentState.step env signer hash1 hashHeight)
    (fun s e => e.Fine env signer hashHeight s) es start

/-- The main chain of the node is a part of the chain. -/
def PartOf (chain : Int → Uint256) (node : Node) : Prop :=
  ∀ nHeight hash, OnMainChain node nHeight hash → hash = chain nHeight

/-- The score of a vote on a chain. -/
def voteScore (hash1 : Uint256 → Uint256) (chain : Int → Uint256) (winner : CMasternodePaymentWinner) :
    Nat :=
  paymentScore hash1 (chain (winner.nBlockHeight - 577)) winner.vin

/-- No height is listed twice, and the score of a listed vote is the highest one of the votes that have
counted for its height. -/
structure WinnersListed (hash1 : Uint256 → Uint256) (s : PaymentState) : Prop where
  nodup : (s.votes.vWinning.map CMasternodePaymentWinner.nBlockHeight).Nodup
  highest : ∀ chain, PartOf chain s.node → ∀ w ∈ s.votes.vWinning,
    (∃ winner ∈ s.received, winner.nBlockHeight = w.nBlockHeight ∧
      w.score = voteScore hash1 chain winner) ∧
    ∀ winner ∈ s.received, winner.nBlockHeight = w.nBlockHeight → voteScore hash1 chain winner ≤ w.score

/-- The votes with the highest score for a height agree in the payee and the masternode. -/
def HighestAgree (hash1 : Uint256 → Uint256) (chain : Int → Uint256)
    (received : List CMasternodePaymentWinner) : Prop :=
  ∀ nHeight winner winner',
    Best (voteScore hash1 chain) (fun w => w ∈ received ∧ w.nBlockHeight = nHeight) winner →
    Best (voteScore hash1 chain) (fun w => w ∈ received ∧ w.nBlockHeight = nHeight) winner' →
    (winner.payee, winner.vin) = (winner'.payee, winner'.vin)

variable {s s' start start' : PaymentState} {es es' : List PaymentEvent} {chain : Int → Uint256}

theorem PaymentRun.start_inv (h : PaymentRun env signer hash1 hashHeight genesis start es s) :
    PaymentInv hash1 hashHeight genesis start := by
  obtain ⟨hwinning, hseen, hreceived⟩ := h.fresh
  refine ⟨h.hashes, ?_, ?_, ?_, ?_⟩
  · rw [hwinning]
    exact List.nodup_nil
  · rw [hreceived]
    exact fun winner hwinner => absurd hwinner List.not_mem_nil
  · rw [hseen]
    intro id hid
    rw [AList.lookup_empty] at hid
    cases hid
  · rw [hwinning, hreceived]
    rintro nHeight w ⟨winner, hwinner, -⟩
    exact absurd hwinner List.not_mem_nil

/-- What the list holds at the end of a run. -/
theorem PaymentRun.end_inv (h : PaymentRun env signer hash1 hashHeight genesis start es s)
    (hfine : FineRun env signer hash1 hashHeight start es) : PaymentInv hash1 hashHeight genesis s :=
  (Run.along_of_everyStep (fun hinv => hinv) PaymentInv.step es h.start_inv
    (Run.everyStep_and es h.valid hfine)).last h.run

namespace PaymentInv

theorem score_eq (h : PaymentInv hash1 hashHeight genesis s) (hchain : PartOf chain s.node)
    (hwinner : winner ∈ s.received) :
    (scored hash1 s.votes.mapCacheBlockHashes winner).score = voteScore hash1 chain winner := by
  obtain ⟨hlow, hash, hcached⟩ := h.known winner hwinner
  have hon := h.hashes.2 _ hash (by omega) hcached
  have hheight : winner.nBlockHeight - 576 - 1 = winner.nBlockHeight - 577 := by omega
  rw [hheight] at hon
  rw [voteScore, ← hchain _ _ hon, scored, hcached, Option.getD_some]

theorem listed (h : PaymentInv hash1 hashHeight genesis s) : WinnersListed hash1 s := by
  refine ⟨h.nodup, fun chain hchain w hw => ?_⟩
  have hat := listedFor_of_mem h.nodup hw
  have hbest := h.kept w.nBlockHeight
  rw [hat] at hbest
  obtain ⟨⟨winner, hwinner, hheight, hscored⟩, hmax⟩ := hbest
  refine ⟨⟨winner, hwinner, hheight, ?_⟩, fun winner' hwinner' hheight' => ?_⟩
  · rw [hscored, h.score_eq hchain hwinner]
  · rw [← h.score_eq hchain hwinner']
    exact hmax _ ⟨winner', hwinner', hheight', rfl⟩

/-- A listed vote is one of those with the highest score. -/
theorem best_of_listed (h : PaymentInv hash1 hashHeight genesis s) (hchain : PartOf chain s.node)
    (hat : listedFor s.votes.vWinning nHeight = some w) : ∃ winner,
    Best (voteScore hash1 chain) (fun w => w ∈ s.received ∧ w.nBlockHeight = nHeight) winner ∧
      (winner.payee, winner.vin) = (w.payee, w.vin) := by
  have hbest := h.kept nHeight
  rw [hat] at hbest
  obtain ⟨⟨winner, hwinner, hheight, rfl⟩, hmax⟩ := hbest
  refine ⟨winner, ⟨⟨hwinner, hheight⟩, fun winner' hwinner' => ?_⟩, rfl⟩
  rw [← h.score_eq hchain hwinner, ← h.score_eq hchain hwinner'.1]
  exact hmax _ ⟨winner', hwinner'.1, hwinner'.2, rfl⟩

end PaymentInv

/-- **The winners converge.**  Let two nodes on one chain have received the same votes, each in its own
order and between blocks.  If no block was disconnected whose hash `GetBlockHash` had given, every vote
is for a height from 578 on, the id tells votes for different heights or transactions apart, and the
votes with the highest score for a height agree, then both nodes pay the same for every height.  All the
time no height is listed twice, and the highest score is listed. -/
theorem paymentWinners_converge
    (h : PaymentRun env signer hash1 hashHeight genesis start es s)
    (h' : PaymentRun env signer hash1 hashHeight genesis start' es' s')
    (hfine : FineRun env signer hash1 hashHeight start es)
    (hfine' : FineRun env signer hash1 hashHeight start' es')
    (hchain : PartOf chain s.node) (hchain' : PartOf chain s'.node)
    (hvotes : ∀ winner, winner ∈ s.received ↔ winner ∈ s'.received)
    (hagree : HighestAgree hash1 chain s.received) :
    (∀ nHeight, getBlockPayee s.votes.vWinning nHeight = getBlockPayee s'.votes.vWinning nHeight) ∧
      Run.Along (PaymentState.step env signer hash1 hashHeight) (WinnersListed hash1) es start := by
  have hinv := h.end_inv hfine
  have hinv' := h'.end_inv hfine'
  constructor
  · intro nHeight
    show (listedFor s.votes.vWinning nHeight).map _ = (listedFor s'.votes.vWinning nHeight).map _
    cases hat : listedFor s.votes.vWinning nHeight with
    | none =>
      have hnone := hinv.kept nHeight
      rw [hat] at hnone
      cases hat' : listedFor s'.votes.vWinning nHeight with
      | none => rfl
      | some w' =>
        obtain ⟨winner, hbest, -⟩ := hinv'.best_of_listed hchain' hat'
        exact absurd ⟨winner, (hvotes winner).mpr hbest.1.1, hbest.1.2, rfl⟩ (hnone _)
    | some w =>
      obtain ⟨winner, hbest, heq⟩ := hinv.best_of_listed hchain hat
      obtain ⟨w', hat', -⟩ := (hinv'.kept nHeight).exists
        ⟨winner, (hvotes winner).mp hbest.1.1, hbest.1.2, rfl⟩
      obtain ⟨winner', hbest', heq'⟩ := hinv'.best_of_listed hchain' hat'
      rw [hat', Option.map_some, Option.map_some, ← heq, ← heq']
      refine congrArg some (hagree nHeight winner winner' hbest (hbest'.congr fun w => ?_))
      rw [hvotes w]
  · exact Run.along_of_everyStep PaymentInv.listed PaymentInv.step es h.start_inv
      (Run.everyStep_and es h.valid hfine)

/-! ### Two masternodes of one transaction -/

/-- The block at a height of a chain with the hashes from 1000 on. -/
def longEntry (nHeight : Nat) : CBlockIndex where
  hashBlock := 1000 + nHeight
  pprev := if nHeight = 0 then none else some (1000 + (nHeight - 1))
  nHeight := nHeight

/-- A chain of 601 blocks. -/
def longNode : Node :=
  { sampleNode [] with
    mapBlockIndex := fun h => if 1000 ≤ h ∧ h - 1000 ≤ 600 then some (longEntry (h - 1000)) else none
    pindexBest := some 1600
    nBestHeight := 600 }

theorem longNode_entry {h : Nat} {e : CBlockIndex} (he : longNode.mapBlockIndex h = some e) :
    ∃ k : Nat, k ≤ 600 ∧ h = 1000 + k ∧ e = longEntry k := by
  obtain ⟨⟨hlow, hhigh⟩, heq⟩ := Option.ite_none_right_eq_some.mp he
  exact ⟨h - 1000, hhigh, (Nat.add_sub_cancel' hlow).symm, (Option.some.inj heq).symm⟩

theorem longNode_of_le {k : Nat} (hk : k ≤ 600) :
    longNode.mapBlockIndex (1000 + k) = some (longEntry k) := by
  have hsub : 1000 + k - 1000 = k := Nat.add_sub_cancel_left ..
  show (if 1000 ≤ 1000 + k ∧ 1000 + k - 1000 ≤ 600 then some (longEntry (1000 + k - 1000)) else none) = _
  rw [hsub, if_pos ⟨Nat.le_add_right .., hk⟩]

theorem bestIndexed_longNode : BestIndexed 1000 longNode 1600 := by
  refine ⟨⟨?_, ⟨_, longNode_of_le (Nat.zero_le _), rfl, rfl⟩, ?_⟩, rfl, rfl, rfl⟩
  · intro h e he
    obtain ⟨k, -, rfl, rfl⟩ := longNode_entry he
    rfl
  · intro h e he hne
    obtain ⟨k, hk, rfl, rfl⟩ := longNode_entry he
    have hpos : k ≠ 0 := fun h0 => hne (by rw [h0])
    refine ⟨_, _, if_neg hpos, longNode_of_le (by omega), ?_⟩
    show k = k - 1 + 1
    omega

def longChain (nHeight : Int) : Uint256 := (1000 + nHeight).toNat

theorem partOf_longChain : PartOf longChain longNode := by
  rintro nHeight hash ⟨tip, hbest, hanc, hheight⟩
  obtain rfl := Option.some.inj hbest
  obtain ⟨e, he⟩ := exists_of_mem_indexed
    (bestIndexed_longNode.tree.graded.mem_of_ancestor bestIndexed_longNode.mem hanc)
  obtain ⟨k, -, rfl, rfl⟩ := longNode_entry he
  rw [heightOf_eq he] at hheight
  subst hheight
  rfl

/-- A vote for the block 600, signed. -/
def voteFor (hash : Uint256) (n : Nat) (opcode : UInt8) : CMasternodePaymentWinner where
  nBlockHeight := 600
  vin := { prevout := ⟨hash, n⟩ }
  payee := [opcode]

def afterVotes (l : List CMasternodePaymentWinner) : PaymentState :=
  ((l.map (PaymentEvent.mnw true)).foldlM (PaymentState.step branchEnv .lax (fun h => h) Int.toNat)
    ⟨longNode, {}, []⟩).getD ⟨longNode, {}, []⟩

theorem paymentRun_afterVotes (l : List CMasternodePaymentWinner) :
    PaymentRun branchEnv .lax (fun h => h) Int.toNat 1000 ⟨longNode, {}, []⟩
      (l.map (PaymentEvent.mnw true)) (afterVotes l) := by
  refine ⟨⟨⟨1600, bestIndexed_longNode⟩, ?_⟩, ⟨rfl, rfl, rfl⟩, ?_, ?_⟩
  · intro nBlockHeight hash _ hlookup
    cases hlookup
  · refine Run.everyStep_of_forall _ fun e he s => ?_
    obtain ⟨w, -, rfl⟩ := List.mem_map.mp he
    exact trivial
  · have hsteps : Run.EveryStep (PaymentState.step branchEnv .lax (fun h => h) Int.toNat)
        (fun s e => ∃ s', s.step branchEnv .lax (fun h => h) Int.toNat e = some s')
        (l.map (PaymentEvent.mnw true)) ⟨longNode, {}, []⟩ := by
      refine Run.everyStep_of_forall _ fun e he s => ?_
      obtain ⟨w, -, rfl⟩ := List.mem_map.mp he
      exact ⟨_, rfl⟩
    obtain ⟨s', hs'⟩ := Run.exists_end _ hsteps
    rw [afterVotes, hs', Option.getD_some]

theorem fineRun_pair {w w' : CMasternodePaymentWinner} (hw : 578 ≤ w.nBlockHeight)
    (hw' : 578 ≤ w'.nBlockHeight) (hid : w.getHash Int.toNat ≠ w'.getHash Int.toNat) :
    FineRun branchEnv .lax (fun h => h) Int.toNat ⟨longNode, {}, []⟩ ([w, w'].map (PaymentEvent.mnw true)) := by
  refine ⟨fun _ => ⟨hw, fun _ h => absurd h List.not_mem_nil⟩, fun s1 h1 => ⟨fun _ => ⟨hw', ?_⟩,
    fun _ _ => trivial⟩⟩
  obtain rfl := Option.some.inj h1
  intro v hv heq
  have hvw : v = w := by
    rw [PaymentState.counting] at hv
    split_ifs at hv
    · exact List.mem_singleton.mp hv
    · exact absurd hv List.not_mem_nil
  exact absurd (hvw ▸ heq) hid

/-- The vote with the higher score wins on both nodes. -/
theorem paymentWinners_converge_pair :
    getBlockPayee (afterVotes [voteFor 5000 0 0x51, voteFor 7000 0 0x52]).votes.vWinning 600 =
      getBlockPayee (afterVotes [voteFor 7000 0 0x52, voteFor 5000 0 0x51]).votes.vWinning 600 := by
  have hreceived : (afterVotes [voteFor 5000 0 0x51, voteFor 7000 0 0x52]).received =
      [voteFor 5000 0 0x51, voteFor 7000 0 0x52] := by decide
  have hreceived' : (afterVotes [voteFor 7000 0 0x52, voteFor 5000 0 0x51]).received =
      [voteFor 7000 0 0x52, voteFor 5000 0 0x51] := by decide
  refine (paymentWinners_converge (paymentRun_afterVotes _) (paymentRun_afterVotes _)
    (fineRun_pair (by decide) (by decide) (by decide)) (fineRun_pair (by decide) (by decide) (by decide))
    partOf_longChain partOf_longChain ?_ ?_).1 600
  · intro w
    rw [hreceived, hreceived', List.mem_pair, List.mem_pair, or_comm]
  · have hbest : ∀ {n w}, Best (voteScore (fun h => h) longChain) (fun w =>
        w ∈ [voteFor 5000 0 0x51, voteFor 7000 0 0x52] ∧ w.nBlockHeight = n) w → w = voteFor 7000 0 0x52 := by
      rintro n w ⟨⟨hmem, hn⟩, hmax⟩
      rcases List.mem_pair.mp hmem with rfl | rfl
      · exact absurd (hmax (voteFor 7000 0 0x52) ⟨by decide, hn⟩) (by decide)
      · rfl
    rw [hreceived]
    intro n w w' hw hw'
    rw [hbest hw, hbest hw']

/-- **The first vote wins.**  Two masternodes have their collateral in one transaction.  Their votes for
a block have one id, so each node drops the one that comes second. -/
theorem paymentWinners_diverge : ∃ s s',
    PaymentRun branchEnv .lax (fun h => h) Int.toNat 1000 ⟨longNode, {}, []⟩
      [.mnw true (voteFor 5000 0 0x51), .mnw true (voteFor 5000 1 0x52)] s ∧
    PaymentRun branchEnv .lax (fun h => h) Int.toNat 1000 ⟨longNode, {}, []⟩
      [.mnw true (voteFor 5000 1 0x52), .mnw true (voteFor 5000 0 0x51)] s' ∧
    PartOf longChain s.node ∧ PartOf longChain s'.node ∧
    s.received = [voteFor 5000 0 0x51, voteFor 5000 1 0x52] ∧
    s'.received = [voteFor 5000 1 0x52, voteFor 5000 0 0x51] ∧
    getBlockPayee s.votes.vWinning 600 ≠ getBlockPayee s'.votes.vWinning 600 :=
  ⟨_, _, paymentRun_afterVotes [voteFor 5000 0 0x51, voteFor 5000 1 0x52],
    paymentRun_afterVotes [voteFor 5000 1 0x52, voteFor 5000 0 0x51], partOf_longChain, partOf_longChain,
    by decide +kernel, by decide +kernel, by decide +kernel⟩

end Sphinx
