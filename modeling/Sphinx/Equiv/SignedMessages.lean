import Sphinx.SignedMessages
import Sphinx.Script.Equiv.Script

/-!
# What a signed text says

The text of a spork is three numbers without anything between them (`strMessage_eq_iff`): whenever
digits can move over a border of two of them, one signature is good for both sporks.  The text of a
payment winner can be read up to the end of its input, of which only an abbreviation is printed
(`CTxIn.toString_append_inj`); the height and the payee follow, again without anything between them.
-/

namespace Sphinx

open Text

variable {spork spork' : CSporkMessage} {signer : StashedSendSigner}

/-! ### Inputs -/

/-- The first ten digits of the hash, and the index. -/
def COutPoint.PrintedAlike (o o' : COutPoint) : Prop :=
  o.hash / 16 ^ 54 % 16 ^ 10 = o'.hash / 16 ^ 54 % 16 ^ 10 ∧ o.n = o'.n

/-- Of an input that spends an output, the first 24 characters of its script. -/
structure CTxIn.PrintedAlike (txin txin' : CTxIn) : Prop where
  prevout : txin.prevout.PrintedAlike txin'.prevout
  isNull : txin.prevout.isNull = txin'.prevout.isNull
  scriptSig : if txin.prevout.isNull then txin.scriptSig = txin'.scriptSig
    else txin.scriptSig.toString.take 24 = txin'.scriptSig.toString.take 24
  nSequence : txin.nSequence = txin'.nSequence

theorem take_hexDigits (n : Nat) : (hexDigits 64 n).take 10 = hexDigits 10 (n / 16 ^ 54) := by
  rw [hexDigits_add 10 54, List.take_left' (length_hexDigits 10 _)]

/-- A comma or a closing parenthesis ends a number or a script inside a printed input. -/
def Delimiter (c : Char) : Prop := c = ',' ∨ c = ')'

theorem not_delimiter_of_isWord {w : List Char} (h : CScript.IsWord w) : ∀ c ∈ w, ¬Delimiter c := by
  rintro c hc (rfl | rfl)
  · exact h.2 _ hc (by decide)
  · exact h.2 _ hc (by decide)

theorem decimal_not_delimiter (x : Int) : ∀ c ∈ decimal x, ¬Delimiter c :=
  not_delimiter_of_isWord (CScript.isWord_decimal x)

theorem COutPoint.toString_append_inj {o o' : COutPoint} {t t' : List Char} :
    o.toString ++ t = o'.toString ++ t' ↔ o.PrintedAlike o' ∧ t = t' := by
  have hshape : ∀ (o : COutPoint) t, o.toString ++ t =
      "COutPoint(".toList ++ (hexDigits 10 (o.hash / 16 ^ 54) ++
        (", ".toList ++ (decimal o.n ++ ')' :: t))) := by
    intro o t
    have hclose : ")".toList ++ t = ')' :: t := rfl
    unfold toString
    rewrite [take_hexDigits, ← hclose]
    simp only [List.append_assoc]
  have hlen : (hexDigits 10 (o.hash / 16 ^ 54)).length = (hexDigits 10 (o'.hash / 16 ^ 54)).length := by
    rw [length_hexDigits, length_hexDigits]
  rw [hshape, hshape, List.append_right_inj, append_inj_iff hlen, List.append_right_inj,
    append_cons_inj (decimal_not_delimiter _) (decimal_not_delimiter _) (.inr rfl) (.inr rfl),
      hexDigits_inj, decimal_inj]
  simp only [COutPoint.PrintedAlike, Nat.cast_inj, true_and, and_assoc]

theorem sequence_append_inj {body body' : List Char} {n n' : Nat} {t t' : List Char}
    (h : ∀ c ∈ body, ¬Delimiter c) (h' : ∀ c ∈ body', ¬Delimiter c) :
    body ++ ((if n = uintMax then [] else ", nSequence=".toList ++ decimal n) ++ ')' :: t) =
        body' ++ ((if n' = uintMax then [] else ", nSequence=".toList ++ decimal n') ++ ')' :: t') ↔
      body = body' ∧ n = n' ∧ t = t' := by
  have hshape : ∀ (n : Nat) t, (", nSequence=".toList ++ decimal n) ++ ')' :: t =
      ',' :: (" nSequence=".toList ++ (decimal n ++ ')' :: t)) := by
    intro n t
    rw [List.append_assoc]
    rfl
  have hcomma : Delimiter ',' := .inl rfl
  have hclose : Delimiter ')' := .inr rfl
  by_cases hn : n = uintMax
  · rw [if_pos hn, List.nil_append]
    by_cases hn' : n' = uintMax
    · rw [if_pos hn', List.nil_append, append_cons_inj h h' hclose hclose]
      simp only [hn, hn', true_and]
    · rw [if_neg hn', hshape, append_cons_inj h h' hclose hcomma]
      have hne : n ≠ n' := fun heq => hn' (heq ▸ hn)
      simp [hne]
  · rw [if_neg hn, hshape]
    by_cases hn' : n' = uintMax
    · rw [if_pos hn', List.nil_append, append_cons_inj h h' hcomma hclose]
      have hne : n ≠ n' := fun heq => hn (heq ▸ hn')
      simp [hne]
    · rw [if_neg hn', hshape, append_cons_inj h h' hcomma hcomma, List.append_right_inj,
        append_cons_inj (decimal_not_delimiter _) (decimal_not_delimiter _) hclose hclose, decimal_inj]
      simp only [Nat.cast_inj, true_and]

theorem coinbase_ne_scriptSig (a b : List Char) :
    ", coinbase ".toList ++ a ≠ ", scriptSig=".toList ++ b := by
  intro h
  have hthird := congrArg (fun text => text[2]?) h
  change some 'c' = some 's' at hthird
  exact absurd hthird (by decide)

theorem printedScript_not_delimiter (script : CScript) :
    ∀ c ∈ script.toString.take 24, ¬Delimiter c := by
  intro c hc
  exact not_or.mpr (CScript.notMem_toString (List.mem_of_mem_take hc))

theorem hexBytes_not_delimiter (bytes : List UInt8) : ∀ c ∈ hexBytes bytes, ¬Delimiter c := by
  intro c hc
  by_cases hbytes : bytes = []
  · rw [hbytes] at hc
    cases hc
  · exact not_delimiter_of_isWord (CScript.isWord_hexBytes hbytes) c hc

/-- **A printed input can be told from what follows it.** -/
theorem CTxIn.toString_append_inj {txin txin' : CTxIn} {t t' : List Char} :
    txin.toString ++ t = txin'.toString ++ t' ↔ txin.PrintedAlike txin' ∧ t = t' := by
  have hshape : ∀ (txin : CTxIn) t, txin.toString ++ t =
      "CTxIn(".toList ++ (txin.prevout.toString ++
        ((if txin.prevout.isNull then ", coinbase ".toList ++ hexBytes txin.scriptSig
          else ", scriptSig=".toList ++ txin.scriptSig.toString.take 24) ++
        ((if txin.nSequence = uintMax then [] else ", nSequence=".toList ++ decimal txin.nSequence) ++
          ')' :: t))) := by
    intro txin t
    have hclose : ")".toList ++ t = ')' :: t := rfl
    unfold toString
    rewrite [← hclose]
    simp only [List.append_assoc]
  rw [hshape, hshape, List.append_right_inj, COutPoint.toString_append_inj]
  have hiff : txin.PrintedAlike txin' ↔ txin.prevout.PrintedAlike txin'.prevout ∧
      txin.prevout.isNull = txin'.prevout.isNull ∧
      (if txin.prevout.isNull then txin.scriptSig = txin'.scriptSig
        else txin.scriptSig.toString.take 24 = txin'.scriptSig.toString.take 24) ∧
      txin.nSequence = txin'.nSequence :=
    ⟨fun h => ⟨h.prevout, h.isNull, h.scriptSig, h.nSequence⟩, fun ⟨h1, h2, h3, h4⟩ => ⟨h1, h2, h3, h4⟩⟩
  rw [hiff]
  cases hnull : txin.prevout.isNull with
  | true =>
    cases hnull' : txin'.prevout.isNull with
    | true =>
      simp only [if_true, List.append_assoc, List.append_cancel_left_eq, true_and, and_assoc]
      rw [sequence_append_inj (hexBytes_not_delimiter _) (hexBytes_not_delimiter _), hexBytes_inj]
    | false =>
      rewrite [if_pos rfl, if_neg Bool.false_ne_true, List.append_assoc, List.append_assoc]
      exact iff_of_false (fun h => coinbase_ne_scriptSig _ _ h.2) fun h => nomatch h.1.2.1
  | false =>
    cases hnull' : txin'.prevout.isNull with
    | true =>
      rewrite [if_neg Bool.false_ne_true, if_pos rfl, List.append_assoc, List.append_assoc]
      exact iff_of_false (fun h => coinbase_ne_scriptSig _ _ h.2.symm) fun h => nomatch h.1.2.1
    | false =>
      simp only [Bool.false_eq_true, if_false, List.append_assoc, List.append_cancel_left_eq,
        true_and, and_assoc]
      rw [sequence_append_inj (printedScript_not_delimiter _) (printedScript_not_delimiter _)]

/-! ### Sporks -/

namespace CSporkMessage

def SameFields (spork spork' : CSporkMessage) : Prop :=
  spork.nSporkID = spork'.nSporkID ∧ spork.nValue = spork'.nValue ∧
    spork.nTimeSigned = spork'.nTimeSigned

instance (spork spork' : CSporkMessage) : Decidable (spork.SameFields spork') :=
  inferInstanceAs (Decidable (_ ∧ _))

/-- What follows the number of the spork. -/
def valueAndTime (spork : CSporkMessage) : List Char :=
  decimal spork.nValue ++ decimal spork.nTimeSigned

end CSporkMessage

/-- Digits can move over the border between the number and the value, or, if the numbers are the
same, over the one between the value and the time. -/
def SporkReplay (spork spork' : CSporkMessage) : Prop :=
  DigitsMoved spork.nSporkID spork.valueAndTime spork'.nSporkID spork'.valueAndTime ∨
    DigitsMoved spork'.nSporkID spork'.valueAndTime spork.nSporkID spork.valueAndTime ∨
    spork.nSporkID = spork'.nSporkID ∧
      (DigitsMoved spork.nValue (decimal spork.nTimeSigned) spork'.nValue (decimal spork'.nTimeSigned) ∨
        DigitsMoved spork'.nValue (decimal spork'.nTimeSigned) spork.nValue (decimal spork.nTimeSigned))

theorem CSporkMessage.strMessage_eq_iff :
    spork.strMessage = spork'.strMessage ↔ spork.SameFields spork' ∨ SporkReplay spork spork' := by
  have hsplit : ∀ s : CSporkMessage, s.strMessage = decimal s.nSporkID ++ s.valueAndTime :=
    fun s => List.append_assoc _ _ _
  have hrest : spork.valueAndTime = spork'.valueAndTime ↔
      (spork.nValue = spork'.nValue ∧ spork.nTimeSigned = spork'.nTimeSigned) ∨
        DigitsMoved spork.nValue (decimal spork.nTimeSigned) spork'.nValue (decimal spork'.nTimeSigned) ∨
        DigitsMoved spork'.nValue (decimal spork'.nTimeSigned) spork.nValue (decimal spork.nTimeSigned) := by
    rw [valueAndTime, valueAndTime, decimal_append_iff, decimal_inj]
  rw [hsplit, hsplit, decimal_append_iff, hrest]
  simp only [SameFields, SporkReplay]
  tauto

theorem SporkReplay.not_sameFields (h : SporkReplay spork spork') :
    ¬spork.SameFields spork' := by
  rintro ⟨hid, hvalue, -⟩
  rcases h with h | h | ⟨-, h | h⟩
  · exact h.ne hid
  · exact h.ne hid.symm
  · exact h.ne hvalue
  · exact h.ne hvalue.symm

/-- Sporks that differ have different texts, and a signature issued for the first one is not good for
the other one. -/
def SporkBound (signer : StashedSendSigner) (spork spork' : CSporkMessage) : Prop :=
  ¬spork.SameFields spork' → spork.strMessage ≠ spork'.strMessage ∧
    ∀ signed, spork.sign signer = some signed →
      CSporkMessage.checkSignature signer { spork' with vchSig := signed.vchSig } = false

/-! ### Payment winners -/

/-- The winners agree in the outpoint of the masternode, the height and the payee. -/
def CMasternodePaymentWinner.SameFields (winner winner' : CMasternodePaymentWinner) : Prop :=
  winner.vin.prevout = winner'.vin.prevout ∧ winner.nBlockHeight = winner'.nBlockHeight ∧
    winner.payee = winner'.payee

instance (winner winner' : CMasternodePaymentWinner) : Decidable (winner.SameFields winner') :=
  inferInstanceAs (Decidable (_ ∧ _))

/-- The height and the words of the payee are the same, or digits can move over their border. -/
def PayeeReplay (winner winner' : CMasternodePaymentWinner) : Prop :=
  (winner.nBlockHeight = winner'.nBlockHeight ∧ winner.payee.words = winner'.payee.words) ∨
    DigitsMoved winner.nBlockHeight winner.payee.toString winner'.nBlockHeight winner'.payee.toString ∨
    DigitsMoved winner'.nBlockHeight winner'.payee.toString winner.nBlockHeight winner.payee.toString

theorem CMasternodePaymentWinner.strMessage_eq_iff {winner winner' : CMasternodePaymentWinner} :
    winner.strMessage = winner'.strMessage ↔
      winner.vin.PrintedAlike winner'.vin ∧ PayeeReplay winner winner' := by
  have hsplit : ∀ w : CMasternodePaymentWinner,
      w.strMessage = w.vin.toString ++ (decimal w.nBlockHeight ++ w.payee.toString) :=
    fun w => List.append_assoc _ _ _
  rw [hsplit, hsplit, CTxIn.toString_append_inj, decimal_append_iff, CScript.toString_inj, PayeeReplay]

/-- The winners differ, but not in what is printed of them. -/
def WinnerReplay (winner winner' : CMasternodePaymentWinner) : Prop :=
  ¬winner.SameFields winner' ∧ winner.vin.PrintedAlike winner'.vin ∧ PayeeReplay winner winner'

/-- Winners that differ have different texts, and a signature issued for the first one is not good for
the other one. -/
def WinnerBound (signer : StashedSendSigner) (winner winner' : CMasternodePaymentWinner) : Prop :=
  ¬winner.SameFields winner' → winner.strMessage ≠ winner'.strMessage ∧
    ∀ signed, winner.sign signer = some signed →
      CMasternodePaymentWinner.checkSignature signer { winner' with vchSig := signed.vchSig } = false

/-! ### Signatures -/

namespace StashedSendSigner

theorem sign_eq_some {strMessage : List Char} {vchSig : List UInt8}
    (h : signer.sign strMessage = some vchSig) :
    signer.signMessage strMessage = some vchSig ∧ signer.verifyOwn vchSig strMessage = true := by
  rw [sign, Option.bind_eq_bind, Option.bind_eq_some_iff] at h
  obtain ⟨sig, hsign, h⟩ := h
  split_ifs at h with hverify
  cases h
  exact ⟨hsign, hverify⟩

theorem Unforgeable.verifyMain_eq_false (hsigner : signer.Unforgeable)
    {strMessage strMessage' : List Char} (hne : strMessage ≠ strMessage') {vchSig : List UInt8}
    (h : signer.sign strMessage = some vchSig) : signer.verifyMain vchSig strMessage' = false := by
  rw [← Bool.not_eq_true]
  exact fun hverify => hne (hsigner _ _ _ (sign_eq_some h).1 hverify).symm

def ofText (strMessage : List Char) : StashedSendSigner where
  signMessage := fun text => if text = strMessage then some [1] else none
  verifyOwn := fun vchSig text => vchSig = [1] && text = strMessage
  verifyMain := fun vchSig text => vchSig = [1] && text = strMessage

theorem unforgeable_ofText (strMessage : List Char) : (ofText strMessage).Unforgeable := by
  intro text text' vchSig hsign hverify
  simp only [ofText] at hsign hverify
  split_ifs at hsign with htext
  simp only [Bool.and_eq_true, decide_eq_true_eq] at hverify
  rw [hverify.2, htext]

end StashedSendSigner

theorem sporkBound_iff (hsigner : signer.Unforgeable) :
    SporkBound signer spork spork' ↔ ¬SporkReplay spork spork' := by
  constructor
  · intro h hreplay
    exact (h hreplay.not_sameFields).1 (CSporkMessage.strMessage_eq_iff.mpr (.inr hreplay))
  · intro h hdiffer
    have hne : spork.strMessage ≠ spork'.strMessage :=
      fun heq => (CSporkMessage.strMessage_eq_iff.mp heq).elim hdiffer h
    refine ⟨hne, fun signed hsigned => ?_⟩
    obtain ⟨vchSig, hsign, rfl⟩ := Option.map_eq_some_iff.mp hsigned
    exact hsigner.verifyMain_eq_false hne hsign

theorem winnerBound_iff (hsigner : signer.Unforgeable) {winner winner' : CMasternodePaymentWinner} :
    WinnerBound signer winner winner' ↔ ¬WinnerReplay winner winner' := by
  constructor
  · intro h hreplay
    exact (h hreplay.1).1 (CMasternodePaymentWinner.strMessage_eq_iff.mpr hreplay.2)
  · intro h hdiffer
    have hne : winner.strMessage ≠ winner'.strMessage :=
      fun heq => h ⟨hdiffer, CMasternodePaymentWinner.strMessage_eq_iff.mp heq⟩
    refine ⟨hne, fun signed hsigned => ?_⟩
    obtain ⟨vchSig, hsign, rfl⟩ := Option.map_eq_some_iff.mp hsigned
    exact hsigner.verifyMain_eq_false hne hsign

/-- **A signature binds the message it was issued for, unless the message can be replayed**: of two
sporks that digits cannot be moved between, and of two winners that are not printed alike, a signature
issued for the first one is never good for the other one; in all other cases the texts are equal. -/
theorem messages_bound_iff {signer : StashedSendSigner} (hsigner : signer.Unforgeable) :
    (∀ spork spork', SporkBound signer spork spork' ↔ ¬SporkReplay spork spork') ∧
      ∀ winner winner', WinnerBound signer winner winner' ↔ ¬WinnerReplay winner winner' :=
  ⟨fun _ _ => sporkBound_iff hsigner, fun _ _ => winnerBound_iff hsigner⟩

/-- A signature for the value 12 turns into one for the value 1 and a later time. -/
def sporkOff : CSporkMessage := { nSporkID := 10001, nValue := 12, nTimeSigned := 1500000000 }

def sporkLater : CSporkMessage := { nSporkID := 10001, nValue := 1, nTimeSigned := 21500000000 }

def winnerAt (hash : Uint256) : CMasternodePaymentWinner where
  nBlockHeight := 100
  vin := { prevout := ⟨hash, 0⟩ }
  payee := [0x76]

theorem messages_bound_of_value :
    SporkBound (.ofText sporkOff.strMessage) sporkOff { sporkLater with nValue := 2 } ∧
      WinnerBound (.ofText sporkOff.strMessage) (winnerAt (2 ^ 255)) (winnerAt (2 ^ 254)) := by
  have hbound := messages_bound_iff (StashedSendSigner.unforgeable_ofText sporkOff.strMessage)
  constructor
  · refine (hbound.1 _ _).mpr fun hreplay => ?_
    exact absurd (CSporkMessage.strMessage_eq_iff.mpr (.inr hreplay)) (by decide)
  · refine (hbound.2 _ _).mpr fun hreplay => ?_
    exact absurd (CMasternodePaymentWinner.strMessage_eq_iff.mpr hreplay.2) (by decide)

/-- Signatures are good for other messages. -/
theorem messages_replayed :
    ¬SporkBound (.ofText sporkOff.strMessage) sporkOff sporkLater ∧
      ¬WinnerBound (.ofText (winnerAt (2 ^ 255)).strMessage) (winnerAt (2 ^ 255))
        (winnerAt (2 ^ 255 + 1)) := by
  constructor
  · intro h
    exact (h (by decide)).1 (by decide)
  · intro h
    exact (h (by decide)).1 (by decide)

end Sphinx
