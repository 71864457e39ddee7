import Sphinx.Equiv.MasternodeList
import Sphinx.MasternodeMessages

/-!
# How long a masternode counts as alive

`lastTimeSeen` of a masternode decides whether `CheckAndRemove` drops it.  A run keeps a log of the
messages that were taken for a masternode: signed announcements that add it or refresh it, and pings.

* `receiveDsee_eq`, `processDseep_eq`: what a message does, by what is taken of it;
* `LivenessInv`: an entry was last seen no later than a message with a newer signature than all before it
  was taken, kept by every step under `LivenessEvent.Honest`;
* `liveness_run`: so `lastTimeSeen` advances with such messages only, is never in the future, and
  `CheckAndRemove` drops the others;
* `liveness_faked`: an announcement refreshes an entry before its signature time is compared, and the time
  that it brings for a new entry is not signed.
-/

namespace Sphinx

open CMasternodeMan (announceNew inactive processDsee processDseep receiveDsee)

/-! ### What is taken of a message -/

section

variable (env : MasternodeEnv) (ctx : DseeCtx)
variable {vin : CTxIn} {nTime : Int}

/-- The checks of a `dsee` up to the signature. -/
def Dsee.signed (m : Dsee) : Bool :=
  ctx.fBlockchainSynced && decide (m.sigTime ≤ ctx.nAdjustedTime + 60 * 60) &&
    decide (0 ≤ m.donationPercentage ∧ m.donationPercentage ≤ 100) &&
    decide (minPoolPeerProtoVersion ≤ m.protocolVersion) &&
    decide ((env.getScriptForDestination m.pubkey).length = 25) &&
    decide ((env.getScriptForDestination m.pubkey2).length = 25) && m.vin.scriptSig.isEmpty &&
    env.verifyMessage m.pubkey m.vchSig (m.strMessage env)

/-- The checks of a `dsee` on its input. -/
def Dsee.inputFine (m : Dsee) : Bool :=
  ctx.isVinAssociatedWithPubkey m.vin m.pubkey && ctx.fLockMain && ctx.acceptableInputs m.vin &&
    decide (masternodeMinConfirmations ≤ ctx.getInputAge m.vin) &&
    !(ctx.confirmationTime m.vin).any (m.sigTime < ·)

/-- A `dsee` for a node that waits for this very message. -/
def Dsee.activates (m : Dsee) : Bool :=
  ctx.fMasterNode && ctx.fActiveVinNull && decide (m.pubkey2 = ctx.pubKeyMasternode)

/-- The masternode that a `dsee` adds. -/
def Dsee.newEntry (m : Dsee) : MasternodeEntry :=
  let multisig := m.donationAddress.isPayToScriptHash
  (MasternodeEntry.new m.addr m.vin m.pubkey m.vchSig m.sigTime m.pubkey2 m.protocolVersion
    (if multisig then [] else m.donationAddress) (if multisig then 0 else m.donationPercentage)
    ctx.nLastPaidBefore).updateLastSeen ctx.toMasternodeCtx m.lastUpdated

/-- A `dsee` refreshes this masternode. -/
def Dsee.refreshes (m : Dsee) (pmn : MasternodeEntry) : Bool :=
  decide (m.count = -1) && decide (pmn.pubkey = m.pubkey) &&
    !pmn.updatedWithin ctx.toMasternodeCtx masternodeMinDseeSeconds

/-- A `dsee` is taken, for the masternode it adds or refreshes. -/
def Dsee.taken (man : CMasternodeMan) (m : Dsee) : Bool :=
  m.signed env ctx &&
    match man.find m.vin with
    | none => m.inputFine ctx
    | some pmn => !m.activates ctx && m.refreshes ctx pmn

/-- A `dseep` is taken by this masternode. -/
def Dseep.takenBy (m : Dseep) (pmn : MasternodeEntry) : Bool :=
  ctx.fBlockchainSynced && decide (m.sigTime ≤ ctx.nAdjustedTime + 60 * 60) &&
    decide (ctx.nAdjustedTime - 60 * 60 < m.sigTime) &&
    decide (minPoolPeerProtoVersion ≤ pmn.protocolVersion) && decide (pmn.lastDseep < m.sigTime) &&
    env.verifyMessage pmn.pubkey2 m.vchSig (m.strMessage env pmn.addr)

def Dseep.taken (man : CMasternodeMan) (m : Dseep) : Bool := (man.find m.vin).any (m.takenBy env ctx)

end

variable {env : MasternodeEnv} {ctx : DseeCtx} {man : CMasternodeMan} {m : Dsee}

theorem signed_iff : m.signed env ctx = true ↔
    ctx.fBlockchainSynced = true ∧ m.sigTime ≤ ctx.nAdjustedTime + 60 * 60 ∧
      (0 ≤ m.donationPercentage ∧ m.donationPercentage ≤ 100) ∧
      minPoolPeerProtoVersion ≤ m.protocolVersion ∧
      (env.getScriptForDestination m.pubkey).length = 25 ∧
      (env.getScriptForDestination m.pubkey2).length = 25 ∧ m.vin.scriptSig.isEmpty = true ∧
      env.verifyMessage m.pubkey m.vchSig (m.strMessage env) = true := by
  simp only [Dsee.signed, Bool.and_eq_true, decide_eq_true_eq, and_assoc]

theorem receiveDsee_of_not_signed (h : m.signed env ctx = false) :
    man.receiveDsee env ctx m = man := by
  rw [← Bool.not_eq_true, signed_iff] at h
  unfold receiveDsee processDsee
  split_ifs with hsynced htime hpercent hversion hkey hkey2 hscript hverify
  · rfl
  · rfl
  · rfl
  · rfl
  · rfl
  · rfl
  · rfl
  · rfl
  all_goals
    simp only [Bool.not_eq_true', Bool.not_eq_false] at hsynced hscript hverify
    exact absurd ⟨hsynced, not_lt.mp htime, by omega, not_lt.mp hversion, not_not.mp hkey, not_not.mp hkey2,
      hscript, hverify⟩ h

theorem inputFine_iff : m.inputFine ctx = true ↔
    ctx.isVinAssociatedWithPubkey m.vin m.pubkey = true ∧ ctx.fLockMain = true ∧
      ctx.acceptableInputs m.vin = true ∧ masternodeMinConfirmations ≤ ctx.getInputAge m.vin ∧
      (ctx.confirmationTime m.vin).any (m.sigTime < ·) = false := by
  simp only [Dsee.inputFine, Bool.and_eq_true, decide_eq_true_eq, Bool.not_eq_true', and_assoc]

theorem after_announceNew : man.after (man.announceNew env ctx m) =
    if m.inputFine ctx then (man.add env ctx.toMasternodeCtx (m.newEntry ctx)).2 else man := by
  unfold announceNew
  by_cases h : m.inputFine ctx = true
  · obtain ⟨hvin, hlock, hinputs, hage, htime⟩ := inputFine_iff.mp h
    simp only [hvin, hlock, hinputs, hage.not_gt, htime, h, Bool.not_true, Bool.false_eq_true, if_false,
      if_true]
    cases hmultisig : m.donationAddress.isPayToScriptHash <;>
      simp [Dsee.newEntry, hmultisig, CMasternodeMan.after]
  · rw [if_neg h]
    rw [inputFine_iff] at h
    split_ifs with hvin hlock hinputs hage htime
    · rfl
    · rfl
    · rfl
    · rfl
    · rfl
    all_goals
      exact absurd ⟨by simpa using hvin, by simpa using hlock, by simpa using hinputs, by omega,
        by simpa using htime⟩ h

theorem receiveDsee_of_signed (h : m.signed env ctx = true) : man.receiveDsee env ctx m =
    if (man.find m.vin).isSome && !m.activates ctx then man.update m.vin (.announceAgain ctx m)
    else if m.inputFine ctx then (man.add env ctx.toMasternodeCtx (m.newEntry ctx)).2 else man := by
  obtain ⟨hsynced, htime, hpercent, hversion, hkey, hkey2, hscript, hverify⟩ := signed_iff.mp h
  have hpercent' : ¬(m.donationPercentage < 0 ∨ 100 < m.donationPercentage) := by omega
  unfold receiveDsee processDsee
  simp only [hsynced, htime.not_gt, hpercent', hversion.not_gt, hkey, hkey2, hscript, hverify, Bool.not_true,
    Bool.false_eq_true, ne_eq, not_true, if_false]
  have hlisted : ((man.find m.vin).isSome = true ∧
      ¬(ctx.fMasterNode = true ∧ ctx.fActiveVinNull = true ∧ m.pubkey2 = ctx.pubKeyMasternode)) ↔
      ((man.find m.vin).isSome && !m.activates ctx) = true := by
    simp only [Dsee.activates, Bool.and_eq_true, Bool.not_eq_true', ← Bool.not_eq_true, decide_eq_true_eq,
      and_assoc]
  simp only [hlisted]
  rw [apply_ite man.after, after_announceNew]
  rfl

/-! ### What a message does to the entries -/

/-- The fields of an entry that tell how long it counts as alive. -/
structure LivePart where
  prevout : COutPoint
  sigTime : Int
  lastDseep : Int
  lastTimeSeen : Int
deriving DecidableEq, Repr

def MasternodeEntry.livePart (mn : MasternodeEntry) : LivePart :=
  ⟨mn.vin.prevout, mn.sigTime, mn.lastDseep, mn.lastTimeSeen⟩

/-- The live parts of the list. -/
def CMasternodeMan.liveParts (man : CMasternodeMan) : List LivePart :=
  man.vMasternodes.toList.map MasternodeEntry.livePart

theorem livePart_copy (t : Int) (mn : MasternodeEntry) : (mn.copy t).livePart = mn.livePart := rfl

theorem liveParts_add {ctx : MasternodeCtx} {mn : MasternodeEntry} : (man.add env ctx mn).2.liveParts =
    if mn.isEnabled ∧ mn.vin.prevout ∉ man.outpoints then man.liveParts ++ [mn.livePart]
    else man.liveParts := by
  unfold CMasternodeMan.liveParts
  rw [toList_add]
  split_ifs
  · exact CopyVector.map_pushBack (livePart_copy ctx.nAdjustedTime) _ _
  · rfl

theorem liveParts_check (ctx : MasternodeCtx) : (man.check ctx).liveParts = man.liveParts := by
  unfold CMasternodeMan.liveParts CMasternodeMan.check
  rw [CopyVector.toList_map, List.map_map]
  rfl

theorem outpoints_update {f : MasternodeEntry → MasternodeEntry}
    (hf : ∀ mn : MasternodeEntry, (f mn).vin.prevout = mn.vin.prevout) :
    (man.update vin f).outpoints = man.outpoints :=
  CopyVector.map_modifyFirst (f := fun mn : MasternodeEntry => mn.vin.prevout) hf _

theorem mem_update {f : MasternodeEntry → MasternodeEntry} {mn' : MasternodeEntry}
    (hnodup : man.outpoints.Nodup) (h : mn' ∈ (man.update vin f).vMasternodes.toList) :
    (mn' ∈ man.vMasternodes.toList ∧ mn'.vin.prevout ≠ vin.prevout) ∨
      ∃ pmn, man.find vin = some pmn ∧ mn' = f pmn :=
  CopyVector.mem_modifyFirst (g := fun mn : MasternodeEntry => mn.vin.prevout) hnodup h

theorem prevout_announceAgain (pmn : MasternodeEntry) :
    (pmn.announceAgain ctx m).vin.prevout = pmn.vin.prevout := by
  unfold MasternodeEntry.announceAgain
  dsimp only
  split_ifs <;> rfl

theorem livePart_announceAgain (pmn : MasternodeEntry) :
    (pmn.announceAgain ctx m).livePart =
      if m.refreshes ctx pmn then
        ⟨pmn.vin.prevout, max pmn.sigTime m.sigTime, pmn.lastDseep, ctx.nAdjustedTime⟩
      else pmn.livePart := by
  have hiff : m.refreshes ctx pmn = true ↔ m.count = -1 ∧ pmn.pubkey = m.pubkey ∧
      pmn.updatedWithin ctx.toMasternodeCtx masternodeMinDseeSeconds = false := by
    simp only [Dsee.refreshes, Bool.and_eq_true, decide_eq_true_eq, Bool.not_eq_true', and_assoc]
  unfold MasternodeEntry.announceAgain
  dsimp only
  simp only [hiff]
  split_ifs with hrefresh hnewer
  · have hmax : max pmn.sigTime m.sigTime = m.sigTime := max_eq_right (le_of_lt hnewer)
    rw [hmax]
    rfl
  · have hmax : max pmn.sigTime m.sigTime = pmn.sigTime := max_eq_left (not_lt.mp hnewer)
    rw [hmax]
    rfl
  · rfl

theorem prevout_ping {m : Dseep} (pmn : MasternodeEntry) :
    (pmn.ping env ctx m).vin.prevout = pmn.vin.prevout := by
  unfold MasternodeEntry.ping
  dsimp only
  split_ifs <;> rfl

theorem livePart_newEntry : (m.newEntry ctx).livePart =
    ⟨m.vin.prevout, m.sigTime, 0, if m.lastUpdated = 0 then ctx.nAdjustedTime else m.lastUpdated⟩ := rfl

variable {p : LivePart}

/-- **A `dsee`.**  Nothing but the entry for its outpoint changes, and that only if the message is taken. -/
theorem mem_receiveDsee (hnodup : man.outpoints.Nodup)
    (h : p ∈ (man.receiveDsee env ctx m).liveParts) :
    (p ∈ man.liveParts ∧ (m.taken env ctx man = true → p.prevout ≠ m.vin.prevout)) ∨
      (m.taken env ctx man = true ∧
        ((∃ pmn, man.find m.vin = some pmn ∧
          p = ⟨pmn.vin.prevout, max pmn.sigTime m.sigTime, pmn.lastDseep, ctx.nAdjustedTime⟩) ∨
        (man.find m.vin = none ∧ p = (m.newEntry ctx).livePart))) := by
  cases hsigned : m.signed env ctx with
  | false =>
    rw [receiveDsee_of_not_signed hsigned] at h
    exact .inl ⟨h, fun htaken => by rw [Dsee.taken, hsigned] at htaken; cases htaken⟩
  | true =>
    rw [receiveDsee_of_signed hsigned] at h
    unfold Dsee.taken
    rw [hsigned, Bool.true_and]
    cases hfind : man.find m.vin with
    | none =>
      have hnew : m.vin.prevout ∉ man.outpoints := find_eq_none_iff.mp hfind
      have hother : ∀ p ∈ man.liveParts, p.prevout ≠ m.vin.prevout := by
        rintro p hp heq
        obtain ⟨mn, hmn, rfl⟩ := List.mem_map.mp hp
        exact hnew (heq ▸ List.mem_map_of_mem (f := fun mn : MasternodeEntry => mn.vin.prevout) hmn)
      rw [hfind] at h
      simp only [Option.isSome_none, Bool.false_and, Bool.false_eq_true, if_false] at h
      split_ifs at h with hfine
      · rw [liveParts_add] at h
        split_ifs at h
        · rcases List.mem_append.mp h with h | h
          · exact .inl ⟨h, fun _ => hother p h⟩
          · exact .inr ⟨hfine, .inr ⟨rfl, List.mem_singleton.mp h⟩⟩
        · exact .inl ⟨h, fun _ => hother p h⟩
      · exact .inl ⟨h, fun htaken => absurd htaken hfine⟩
    | some pmn =>
      rw [hfind] at h
      simp only [Option.isSome_some, Bool.true_and] at h
      cases hactivates : m.activates ctx with
      | false =>
        rw [hactivates] at h
        obtain ⟨mn', hmn', rfl⟩ := List.mem_map.mp h
        rcases mem_update hnodup hmn' with ⟨hmn', hne⟩ | ⟨pmn', hpmn', rfl⟩
        · exact .inl ⟨List.mem_map_of_mem hmn', fun _ => hne⟩
        · obtain rfl : pmn = pmn' := Option.some.inj (hfind.symm.trans hpmn')
          rw [livePart_announceAgain]
          split_ifs with hrefreshes
          · exact .inr ⟨hrefreshes, .inl ⟨pmn, rfl, rfl⟩⟩
          · exact .inl ⟨List.mem_map_of_mem (List.mem_of_find?_eq_some hfind),
              fun htaken => absurd htaken hrefreshes⟩
      | true =>
        have hlisted : m.vin.prevout ∈ man.outpoints := by
          by_contra hnew
          rw [find_eq_none_iff.mpr hnew] at hfind
          cases hfind
        rw [hactivates] at h
        have hsame : p ∈ man.liveParts := by
          simp only [Bool.not_true, Bool.false_eq_true, if_false] at h
          split_ifs at h
          · rw [liveParts_add, if_neg fun hnew => hnew.2 hlisted] at h
            exact h
          · exact h
        exact .inl ⟨hsame, fun htaken => by cases htaken⟩

/-- The live part of an entry that takes a `dseep`. -/
def MasternodeEntry.pinged (ctx : DseeCtx) (m : Dseep) (pmn : MasternodeEntry) : LivePart where
  prevout := pmn.vin.prevout
  sigTime := pmn.sigTime
  lastDseep := m.sigTime
  lastTimeSeen :=
    if pmn.updatedWithin ctx.toMasternodeCtx masternodeMinDseepSeconds then pmn.lastTimeSeen
    else if m.stop then 0 else ctx.nAdjustedTime

theorem livePart_ping {m : Dseep} (pmn : MasternodeEntry) :
    (pmn.ping env ctx m).livePart =
      if pmn.lastDseep < m.sigTime ∧
          env.verifyMessage pmn.pubkey2 m.vchSig (m.strMessage env pmn.addr) = true then pmn.pinged ctx m
      else pmn.livePart := by
  unfold MasternodeEntry.ping MasternodeEntry.pinged
  have hsame : MasternodeEntry.updatedWithin ctx.toMasternodeCtx masternodeMinDseepSeconds
      { pmn with lastDseep := m.sigTime } =
        pmn.updatedWithin ctx.toMasternodeCtx masternodeMinDseepSeconds := rfl
  dsimp only
  rw [hsame]
  split_ifs <;> rfl

theorem mem_processDseep {m : Dseep} (hnodup : man.outpoints.Nodup)
    (h : p ∈ (man.processDseep env ctx m).liveParts) :
    (p ∈ man.liveParts ∧ (m.taken env ctx man = true → p.prevout ≠ m.vin.prevout)) ∨
      (m.taken env ctx man = true ∧ ∃ pmn, man.find m.vin = some pmn ∧ m.takenBy env ctx pmn = true ∧
        p = pmn.pinged ctx m) := by
  by_cases hpass : ctx.fBlockchainSynced = true ∧ m.sigTime ≤ ctx.nAdjustedTime + 60 * 60 ∧
      ctx.nAdjustedTime - 60 * 60 < m.sigTime ∧
      ((man.find m.vin).any fun pmn => minPoolPeerProtoVersion ≤ pmn.protocolVersion) = true
  · obtain ⟨hsynced, hfuture, hpast, hversion⟩ := hpass
    have hreach : man.processDseep env ctx m = man.update m.vin (.ping env ctx m) := by
      unfold processDseep
      simp only [hsynced, hfuture.not_gt, hpast.not_ge, hversion, Bool.not_true, Bool.false_eq_true,
        if_false, if_true]
    rw [hreach] at h
    obtain ⟨mn', hmn', rfl⟩ := List.mem_map.mp h
    rcases mem_update hnodup hmn' with ⟨hmn', hne⟩ | ⟨pmn, hpmn, rfl⟩
    · exact .inl ⟨List.mem_map_of_mem hmn', fun _ => hne⟩
    · have htaken : m.taken env ctx man = true ↔ pmn.lastDseep < m.sigTime ∧
          env.verifyMessage pmn.pubkey2 m.vchSig (m.strMessage env pmn.addr) = true := by
        rw [hpmn, Option.any_some, decide_eq_true_eq] at hversion
        simp only [Dseep.taken, hpmn, Option.any_some, Dseep.takenBy, hsynced, hfuture, hpast, hversion,
          decide_true, Bool.true_and, Bool.and_eq_true, decide_eq_true_eq]
      by_cases hyes : m.taken env ctx man = true
      · rw [livePart_ping, if_pos (htaken.mp hyes)]
        refine .inr ⟨hyes, pmn, hpmn, ?_, rfl⟩
        simpa only [Dseep.taken, hpmn, Option.any_some] using hyes
      · rw [livePart_ping, if_neg fun h => hyes (htaken.mpr h)]
        exact .inl ⟨List.mem_map_of_mem (List.mem_of_find?_eq_some hpmn), fun h => absurd h hyes⟩
  · have hsame : (man.processDseep env ctx m).liveParts = man.liveParts := by
      unfold processDseep
      split_ifs with hsynced hfuture hpast hversion hasked
      · rfl
      · rfl
      · rfl
      · exact absurd ⟨by simpa using hsynced, by omega, by omega, hversion⟩ hpass
      · rfl
      · rfl
    rw [hsame] at h
    refine .inl ⟨h, fun htaken => absurd ?_ hpass⟩
    obtain ⟨pmn, hpmn, htaken⟩ := Option.any_eq_true _ _ |>.mp htaken
    simp only [Dseep.takenBy, Bool.and_eq_true, decide_eq_true_eq] at htaken
    obtain ⟨⟨⟨⟨⟨hsynced, hfuture⟩, hpast⟩, hversion⟩, -⟩, -⟩ := htaken
    exact ⟨hsynced, by omega, by omega, by rw [hpmn]; exact decide_eq_true hversion⟩

/-- What `CheckAndRemove` keeps was seen during the last 70 minutes. -/
theorem mem_checkAndRemove {ctx : MasternodeCtx}
    (h : p ∈ (man.checkAndRemove env ctx).liveParts) : p ∈ man.liveParts ∧
      (ctx.fShutdownRequested = false → ctx.fLockMain = true →
        toInt64 (ctx.nAdjustedTime - p.lastTimeSeen) < masternodeRemovalSeconds) := by
  unfold CMasternodeMan.liveParts CMasternodeMan.checkAndRemove at h
  dsimp only at h
  rw [CopyVector.map_eraseWhere (livePart_copy ctx.nAdjustedTime) (inactive_copy env ctx.nAdjustedTime)] at h
  obtain ⟨mn', hmn', rfl⟩ := List.mem_map.mp h
  obtain ⟨hmn', hactive⟩ := List.mem_filter.mp hmn'
  obtain ⟨mn, hmn, rfl⟩ := List.mem_map.mp hmn'
  refine ⟨List.mem_map.mpr ⟨mn, hmn, rfl⟩, fun hshutdown hlock => ?_⟩
  by_contra hlate
  have hremove : (mn.check ctx).activeState = .vinSpent ∨ (mn.check ctx).activeState = .remove := by
    have hwithin : mn.updatedWithin ctx masternodeRemovalSeconds = false := decide_eq_false hlate
    simp only [MasternodeEntry.check, MasternodeEntry.checkedState, hshutdown, hlock, hwithin]
    simp only [Bool.not_true, Bool.or_false, Bool.false_eq_true, if_false, Bool.not_false, if_true]
    split_ifs with hspent
    · exact .inl hspent
    · exact .inr rfl
  rcases hremove with hstate | hstate <;> simp [inactive, hstate] at hactive

/-! ### The log of the messages that were taken -/

structure AcceptedMessage where
  prevout : COutPoint
  sigTime : Int
  /-- The adjusted time of the node then. -/
  nTime : Int
deriving DecidableEq, Repr

/-- No message taken before for the outpoint has as late a signature time. -/
def NewSignature (accepted : List AcceptedMessage) (prevout : COutPoint) (sigTime : Int) : Prop :=
  ∀ a ∈ accepted, a.prevout = prevout → a.sigTime < sigTime

/-- A message with a new signature was taken at this time; the log begins with the latest message. -/
def SignedNewAt (accepted : List AcceptedMessage) (prevout : COutPoint) (nTime : Int) : Prop :=
  ∃ newer older sigTime, accepted = newer ++ ⟨prevout, sigTime, nTime⟩ :: older ∧
    NewSignature older prevout sigTime

theorem SignedNewAt.append {accepted : List AcceptedMessage} {prevout : COutPoint}
    (h : SignedNewAt accepted prevout nTime) (newer : List AcceptedMessage) :
    SignedNewAt (newer ++ accepted) prevout nTime := by
  obtain ⟨newer', older, sigTime, rfl, hnew⟩ := h
  exact ⟨newer ++ newer', older, sigTime, (List.append_assoc _ _ _).symm, hnew⟩

/-- An entry was last seen no later than a message with a new signature was taken, and it knows the latest
signature time of its messages. -/
structure Alive (nAdjustedTime : Int) (accepted : List AcceptedMessage) (p : LivePart) : Prop where
  nonneg : 0 ≤ p.lastTimeSeen
  seen : ∃ nTime, SignedNewAt accepted p.prevout nTime ∧ p.lastTimeSeen ≤ nTime ∧ nTime ≤ nAdjustedTime
  logged : ∀ a ∈ accepted, a.prevout = p.prevout → a.sigTime ≤ max p.sigTime p.lastDseep

/-- Other messages do no harm. -/
theorem Alive.append {nTime' : Int} {accepted : List AcceptedMessage} {p : LivePart}
    (h : Alive nTime accepted p) (hclock : nTime ≤ nTime') {newer : List AcceptedMessage}
    (hother : ∀ a ∈ newer, a.prevout ≠ p.prevout) : Alive nTime' (newer ++ accepted) p where
  nonneg := h.nonneg
  seen := by
    obtain ⟨t, hsigned, hseen, ht⟩ := h.seen
    exact ⟨t, hsigned.append newer, hseen, ht.trans hclock⟩
  logged := by
    intro a ha hprevout
    rcases List.mem_append.mp ha with ha | ha
    · exact absurd hprevout (hother a ha)
    · exact h.logged a ha hprevout

/-- A message with a new signature refreshes an entry. -/
theorem alive_of_new {accepted : List AcceptedMessage} {sigTime : Int}
    (hnew : NewSignature accepted p.prevout sigTime) (hnonneg : 0 ≤ p.lastTimeSeen)
    (hseen : p.lastTimeSeen ≤ nTime) (hsig : sigTime ≤ max p.sigTime p.lastDseep) :
    Alive nTime (⟨p.prevout, sigTime, nTime⟩ :: accepted) p where
  nonneg := hnonneg
  seen := ⟨nTime, ⟨[], accepted, sigTime, rfl, hnew⟩, hseen, le_refl _⟩
  logged := by
    intro a ha hprevout
    rcases List.mem_cons.mp ha with rfl | ha
    · exact hsig
    · exact (hnew a ha hprevout).le.trans hsig

/-! ### Runs -/

structure LivenessState where
  man : CMasternodeMan := {}
  nAdjustedTime : Int
  /-- The messages taken so far, the latest first; the program does not keep these. -/
  accepted : List AcceptedMessage := []

inductive LivenessEvent
  | dsee (ctx : DseeCtx) (m : Dsee)
  | dseep (ctx : DseeCtx) (m : Dseep)
  | check (ctx : MasternodeCtx)
  | checkAndRemove (ctx : MasternodeCtx)

namespace LivenessEvent

def nAdjustedTime : LivenessEvent → Int
  | .dsee ctx _ => ctx.nAdjustedTime
  | .dseep ctx _ => ctx.nAdjustedTime
  | .check ctx => ctx.nAdjustedTime
  | .checkAndRemove ctx => ctx.nAdjustedTime

/-- The message, if it is taken. -/
def accepted (env : MasternodeEnv) (man : CMasternodeMan) : LivenessEvent → List AcceptedMessage
  | .dsee ctx m => if m.taken env ctx man then [⟨m.vin.prevout, m.sigTime, ctx.nAdjustedTime⟩] else []
  | .dseep ctx m => if m.taken env ctx man then [⟨m.vin.prevout, m.sigTime, ctx.nAdjustedTime⟩] else []
  | _ => []

def apply (env : MasternodeEnv) (man : CMasternodeMan) : LivenessEvent → CMasternodeMan
  | .dsee ctx m => man.receiveDsee env ctx m
  | .dseep ctx m => man.processDseep env ctx m
  | .check ctx => man.check ctx
  | .checkAndRemove ctx => man.checkAndRemove env ctx

/-- The clock does not go back.  A `dsee` that refreshes an entry is newer than the announcement and the
pings it had; one that adds an entry brings a time that is not in the future, and is newer than the messages
taken before the entry was dropped.  A `dseep` that refreshes an entry is newer than its announcement. -/
def Honest (env : MasternodeEnv) (s : LivenessState) (e : LivenessEvent) : Prop :=
  s.nAdjustedTime ≤ e.nAdjustedTime ∧ e.nAdjustedTime < 2 ^ 63 ∧
    match e with
    | .dsee ctx m => m.taken env ctx s.man = true →
      (∀ pmn, s.man.find m.vin = some pmn → pmn.sigTime < m.sigTime ∧ pmn.lastDseep < m.sigTime) ∧
      (s.man.find m.vin = none → 0 ≤ m.lastUpdated ∧ m.lastUpdated ≤ ctx.nAdjustedTime ∧
        NewSignature s.accepted m.vin.prevout m.sigTime)
    | .dseep ctx m => ∀ pmn, s.man.find m.vin = some pmn → m.takenBy env ctx pmn = true →
      pmn.updatedWithin ctx.toMasternodeCtx masternodeMinDseepSeconds = false → m.stop = false →
      pmn.sigTime < m.sigTime
    | _ => True

end LivenessEvent

def LivenessState.step (env : MasternodeEnv) (s : LivenessState) (e : LivenessEvent) :
    Option LivenessState :=
  some ⟨e.apply env s.man, e.nAdjustedTime, e.accepted env s.man ++ s.accepted⟩

/-- Wherever `lastTimeSeen` advances, the step takes a message with a new signature for the entry. -/
def AdvancesWithNew (env : MasternodeEnv) (s : LivenessState) (e : LivenessEvent) : Prop :=
  ∀ p' ∈ (e.apply env s.man).liveParts,
    (∃ p ∈ s.man.liveParts, p.prevout = p'.prevout ∧ p'.lastTimeSeen ≤ p.lastTimeSeen) ∨
      ∃ a ∈ e.accepted env s.man, a.prevout = p'.prevout ∧ NewSignature s.accepted a.prevout a.sigTime

/-- No entry was last seen in the future, and `CheckAndRemove` keeps no entry but those for which a message
with a new signature was taken during the last 70 minutes. -/
def LivenessHolds (env : MasternodeEnv) (s : LivenessState) : Prop :=
  (∀ p ∈ s.man.liveParts, p.lastTimeSeen ≤ s.nAdjustedTime) ∧
    ∀ ctx : MasternodeCtx, s.nAdjustedTime ≤ ctx.nAdjustedTime → ctx.nAdjustedTime < 2 ^ 63 →
      ctx.fShutdownRequested = false → ctx.fLockMain = true →
      ∀ p ∈ (s.man.checkAndRemove env ctx).liveParts,
        ∃ nTime, SignedNewAt s.accepted p.prevout nTime ∧
          ctx.nAdjustedTime - nTime < masternodeRemovalSeconds

structure LivenessInv (s : LivenessState) : Prop where
  nodup : s.man.outpoints.Nodup
  clock : 0 ≤ s.nAdjustedTime
  alive : ∀ p ∈ s.man.liveParts, Alive s.nAdjustedTime s.accepted p

variable {s s' : LivenessState} {e : LivenessEvent}

theorem nodup_outpoints_apply (h : man.outpoints.Nodup) : (e.apply env man).outpoints.Nodup := by
  cases e with
  | dsee ctx m =>
    change (man.receiveDsee env ctx m).outpoints.Nodup
    cases hsigned : m.signed env ctx with
    | false => rw [receiveDsee_of_not_signed hsigned]; exact h
    | true =>
      rw [receiveDsee_of_signed hsigned]
      split_ifs
      · rw [outpoints_update prevout_announceAgain]
        exact h
      · exact nodup_outpoints_add ctx.toMasternodeCtx _ h
      · exact h
  | dseep ctx m =>
    change (man.processDseep env ctx m).outpoints.Nodup
    unfold processDseep
    split_ifs
    · exact h
    · exact h
    · exact h
    · rw [outpoints_update prevout_ping]
      exact h
    · exact h
    · exact h
  | check ctx => exact (outpoints_check ctx).symm ▸ h
  | checkAndRemove ctx => exact nodup_outpoints_checkAndRemove ctx h

theorem livePart_of_find {pmn : MasternodeEntry} (h : man.find vin = some pmn) :
    pmn.livePart ∈ man.liveParts ∧ pmn.vin.prevout = vin.prevout :=
  ⟨List.mem_map_of_mem (List.mem_of_find?_eq_some h),
    of_decide_eq_true (List.find?_some (p := fun mn : MasternodeEntry => mn.vin.prevout = vin.prevout) h)⟩

/-- The messages that an entry knows of are older than one that is newer than both of its times. -/
theorem Alive.newSignature {sigTime : Int} {accepted : List AcceptedMessage}
    (h : Alive nTime accepted p) (hsig : p.sigTime < sigTime) (hdseep : p.lastDseep < sigTime) :
    NewSignature accepted p.prevout sigTime :=
  fun a ha hprevout => (h.logged a ha hprevout).trans_lt (max_lt hsig hdseep)

theorem alive_receiveDsee (hinv : LivenessInv s) (h : (LivenessEvent.dsee ctx m).Honest env s)
    {p' : LivePart} (hp' : p' ∈ (s.man.receiveDsee env ctx m).liveParts) :
    Alive ctx.nAdjustedTime ((LivenessEvent.dsee ctx m).accepted env s.man ++ s.accepted) p' ∧
      ((∃ p ∈ s.man.liveParts, p.prevout = p'.prevout ∧ p'.lastTimeSeen ≤ p.lastTimeSeen) ∨
        ∃ a ∈ (LivenessEvent.dsee ctx m).accepted env s.man, a.prevout = p'.prevout ∧
          NewSignature s.accepted a.prevout a.sigTime) := by
  obtain ⟨hclock, -, hhonest⟩ := h
  have hclock : s.nAdjustedTime ≤ ctx.nAdjustedTime := hclock
  simp only [LivenessEvent.accepted]
  rcases mem_receiveDsee hinv.nodup hp' with ⟨hp, hother⟩ | ⟨htaken, hcases⟩
  · refine ⟨(hinv.alive p' hp).append hclock fun a ha => ?_, .inl ⟨p', hp, rfl, le_refl _⟩⟩
    split_ifs at ha with htaken
    · rw [List.mem_singleton.mp ha]
      exact (hother htaken).symm
    · exact absurd ha List.not_mem_nil
  · rw [if_pos htaken]
    rcases hcases with ⟨pmn, hpmn, rfl⟩ | ⟨hnone, rfl⟩
    · obtain ⟨hmem, hprevout⟩ := livePart_of_find hpmn
      obtain ⟨hsig, hdseep⟩ := (hhonest htaken).1 pmn hpmn
      have hnew := (hinv.alive _ hmem).newSignature hsig hdseep
      have hnonneg : 0 ≤ ctx.nAdjustedTime := hinv.clock.trans hclock
      rw [← hprevout]
      refine ⟨alive_of_new (p := ⟨pmn.vin.prevout, max pmn.sigTime m.sigTime, pmn.lastDseep,
          ctx.nAdjustedTime⟩) hnew hnonneg (le_refl _) ?_, .inr ⟨_, List.mem_singleton_self _, rfl, hnew⟩⟩
      exact (le_max_right _ _).trans (le_max_left _ _)
    · obtain ⟨hpast, hfuture, hnew⟩ := (hhonest htaken).2 hnone
      have hnonneg : 0 ≤ ctx.nAdjustedTime := hinv.clock.trans hclock
      have hseen : 0 ≤ (m.newEntry ctx).livePart.lastTimeSeen ∧
          (m.newEntry ctx).livePart.lastTimeSeen ≤ ctx.nAdjustedTime := by
        rw [livePart_newEntry]
        dsimp only
        split_ifs
        · exact ⟨hnonneg, le_refl _⟩
        · exact ⟨hpast, hfuture⟩
      exact ⟨alive_of_new hnew hseen.1 hseen.2 (le_max_left _ _),
        .inr ⟨_, List.mem_singleton_self _, rfl, hnew⟩⟩

theorem alive_processDseep {m : Dseep} (hinv : LivenessInv s)
    (h : (LivenessEvent.dseep ctx m).Honest env s) {p' : LivePart}
    (hp' : p' ∈ (s.man.processDseep env ctx m).liveParts) :
    Alive ctx.nAdjustedTime ((LivenessEvent.dseep ctx m).accepted env s.man ++ s.accepted) p' ∧
      ((∃ p ∈ s.man.liveParts, p.prevout = p'.prevout ∧ p'.lastTimeSeen ≤ p.lastTimeSeen) ∨
        ∃ a ∈ (LivenessEvent.dseep ctx m).accepted env s.man, a.prevout = p'.prevout ∧
          NewSignature s.accepted a.prevout a.sigTime) := by
  obtain ⟨hclock, -, hhonest⟩ := h
  have hclock : s.nAdjustedTime ≤ ctx.nAdjustedTime := hclock
  simp only [LivenessEvent.accepted]
  rcases mem_processDseep hinv.nodup hp' with ⟨hp, hother⟩ | ⟨htaken, pmn, hpmn, hby, rfl⟩
  · refine ⟨(hinv.alive p' hp).append hclock fun a ha => ?_, .inl ⟨p', hp, rfl, le_refl _⟩⟩
    split_ifs at ha with htaken
    · rw [List.mem_singleton.mp ha]
      exact (hother htaken).symm
    · exact absurd ha List.not_mem_nil
  · rw [if_pos htaken]
    obtain ⟨hmem, hprevout⟩ := livePart_of_find hpmn
    have halive := hinv.alive _ hmem
    have hdseep : pmn.lastDseep < m.sigTime := by
      simp only [Dseep.takenBy, Bool.and_eq_true, decide_eq_true_eq] at hby
      exact hby.1.2
    have hlogged : ∀ a ∈ (⟨m.vin.prevout, m.sigTime, ctx.nAdjustedTime⟩ : AcceptedMessage) :: s.accepted,
        a.prevout = pmn.vin.prevout → a.sigTime ≤ max pmn.sigTime m.sigTime := by
      intro a ha hp
      rcases List.mem_cons.mp ha with rfl | ha
      · exact le_max_right _ _
      · exact (halive.logged a ha hp).trans (max_le_max_left _ hdseep.le)
    by_cases hrefresh : pmn.updatedWithin ctx.toMasternodeCtx masternodeMinDseepSeconds = false ∧
        m.stop = false
    · -- the entry is seen now
      have hnew := halive.newSignature (hhonest pmn hpmn hby hrefresh.1 hrefresh.2) hdseep
      have hp : pmn.pinged ctx m = ⟨pmn.vin.prevout, pmn.sigTime, m.sigTime, ctx.nAdjustedTime⟩ := by
        simp [MasternodeEntry.pinged, hrefresh]
      rw [hp, ← hprevout]
      exact ⟨alive_of_new (p := ⟨pmn.vin.prevout, pmn.sigTime, m.sigTime, ctx.nAdjustedTime⟩) hnew
          (hinv.clock.trans hclock) (le_refl _) (le_max_right _ _),
        .inr ⟨_, List.mem_singleton_self _, rfl, hnew⟩⟩
    · -- it was seen before, or is disabled
      have hle : 0 ≤ (pmn.pinged ctx m).lastTimeSeen ∧ (pmn.pinged ctx m).lastTimeSeen ≤ pmn.lastTimeSeen := by
        have hnonneg : 0 ≤ pmn.lastTimeSeen := halive.nonneg
        unfold MasternodeEntry.pinged
        dsimp only
        split_ifs with hwithin hstop
        · exact ⟨hnonneg, le_refl _⟩
        · exact ⟨le_refl _, hnonneg⟩
        · exact absurd ⟨by simpa using hwithin, by simpa using hstop⟩ hrefresh
      obtain ⟨nTime, hsigned, hseen, htime⟩ := halive.seen
      exact ⟨⟨hle.1, ⟨nTime, hsigned.append [_], hle.2.trans hseen, htime.trans hclock⟩, hlogged⟩,
        .inl ⟨_, hmem, rfl, hle.2⟩⟩

/-- **What a step does to the entries**: each is as it was, or the step takes a message for it; a message
that lets `lastTimeSeen` advance has a new signature. -/
theorem alive_apply (hinv : LivenessInv s) (h : e.Honest env s) {p' : LivePart}
    (hp' : p' ∈ (e.apply env s.man).liveParts) :
    Alive e.nAdjustedTime (e.accepted env s.man ++ s.accepted) p' ∧
      ((∃ p ∈ s.man.liveParts, p.prevout = p'.prevout ∧ p'.lastTimeSeen ≤ p.lastTimeSeen) ∨
        ∃ a ∈ e.accepted env s.man, a.prevout = p'.prevout ∧
          NewSignature s.accepted a.prevout a.sigTime) := by
  have hkept : ∀ {p'}, p' ∈ s.man.liveParts → e.accepted env s.man = [] →
      Alive e.nAdjustedTime (e.accepted env s.man ++ s.accepted) p' := fun hp hnone =>
    (hinv.alive _ hp).append h.1 fun a ha => by rw [hnone] at ha; exact absurd ha List.not_mem_nil
  cases e with
  | dsee ctx m => exact alive_receiveDsee hinv h hp'
  | dseep ctx m => exact alive_processDseep hinv h hp'
  | check ctx =>
    have hp : p' ∈ s.man.liveParts := liveParts_check ctx ▸ hp'
    exact ⟨hkept hp rfl, .inl ⟨p', hp, rfl, le_refl _⟩⟩
  | checkAndRemove ctx =>
    have hp : p' ∈ s.man.liveParts := (mem_checkAndRemove hp').1
    exact ⟨hkept hp rfl, .inl ⟨p', hp, rfl, le_refl _⟩⟩

theorem LivenessInv.step (hinv : LivenessInv s) (h : e.Honest env s) (hstep : s.step env e = some s') :
    LivenessInv s' := by
  obtain rfl := Option.some.inj hstep
  exact ⟨nodup_outpoints_apply hinv.nodup, hinv.clock.trans h.1, fun p hp => (alive_apply hinv h hp).1⟩

theorem LivenessInv.holds (hinv : LivenessInv s) : LivenessHolds env s := by
  have hnow : ∀ p ∈ s.man.liveParts, p.lastTimeSeen ≤ s.nAdjustedTime := by
    intro p hp
    obtain ⟨nTime, -, hseen, htime⟩ := (hinv.alive p hp).seen
    exact hseen.trans htime
  refine ⟨hnow, fun ctx hclock hmax hshutdown hlock p hp => ?_⟩
  obtain ⟨hp, hrecent⟩ := mem_checkAndRemove hp
  obtain ⟨nTime, hsigned, hseen, -⟩ := (hinv.alive p hp).seen
  have hnonneg := (hinv.alive p hp).nonneg
  have hrecent := hrecent hshutdown hlock
  rw [toInt64_of_nonneg (by have := hnow p hp; omega) (by omega)] at hrecent
  exact ⟨nTime, hsigned, by omega⟩

/-- **Liveness is not faked** in a run whose steps are all honest. -/
theorem liveness_run (env : MasternodeEnv) (nTime : Nat) (es : List LivenessEvent)
    (h : Run.EveryStep (LivenessState.step env) (fun s e => e.Honest env s) es { nAdjustedTime := nTime }) :
    Run.EveryStep (LivenessState.step env) (AdvancesWithNew env) es { nAdjustedTime := nTime } ∧
      Run.Along (LivenessState.step env) (LivenessHolds env) es { nAdjustedTime := nTime } := by
  have hinit : LivenessInv { nAdjustedTime := nTime } :=
    ⟨List.nodup_nil, Int.natCast_nonneg nTime, fun p hp => absurd hp List.not_mem_nil⟩
  exact ⟨Run.everyStep_of_everyStep (fun hinv hh p' hp' => (alive_apply hinv hh hp').2) LivenessInv.step es
      hinit h,
    Run.along_of_everyStep LivenessInv.holds LivenessInv.step es hinit h⟩

/-! ### One masternode -/

def liveEnv : MasternodeEnv where
  verifyMessage pubkey vchSig strMessage :=
    vchSig = pubkey ++ strMessage.map fun c => UInt8.ofNat c.toNat
  serviceToString _ := "10.0.0.1:9999".toList
  getScriptForDestination _ := List.replicate 25 0
  nMasternodeMinProtocol := 61403
  recommend n := 2 * n

def liveCtx (nAdjustedTime : Int) : DseeCtx where
  nAdjustedTime := nAdjustedTime
  nTime := nAdjustedTime
  acceptableInputs _ := true
  getInputAge _ := 20
  nBestHeight := some 500
  isVinAssociatedWithPubkey _ _ := true
  confirmationTime _ := none

/-- An announcement signed at 990, with a time that is not signed. -/
def liveDsee (lastUpdated : Int) : Dsee :=
  let m : Dsee := ⟨⟨⟨7, 0⟩, [], uintMax⟩, ⟨[10, 0, 0, 1], 9999⟩, [], 990, [2], [3], -1,
    0, lastUpdated, 61403,
    [], 0⟩
  { m with vchSig := [2] ++ (m.strMessage liveEnv).map fun c => UInt8.ofNat c.toNat }

/-- A ping signed at 2990. -/
def liveDseep : Dseep :=
  let m : Dseep := ⟨⟨⟨7, 0⟩, [], uintMax⟩, [], 2990, false⟩
  { m with vchSig := [3] ++ (m.strMessage liveEnv ⟨[10, 0, 0, 1], 9999⟩).map fun c => UInt8.ofNat c.toNat }

theorem liveness_run_pinged :
    Run.EveryStep (LivenessState.step liveEnv) (AdvancesWithNew liveEnv)
        [.dsee (liveCtx 1000) (liveDsee 0), .dseep (liveCtx 3000) liveDseep] { nAdjustedTime := (1000 : Nat) } ∧
      Run.Along (LivenessState.step liveEnv) (LivenessHolds liveEnv)
        [.dsee (liveCtx 1000) (liveDsee 0), .dseep (liveCtx 3000) liveDseep]
        { nAdjustedTime := (1000 : Nat) } := by
  refine liveness_run liveEnv 1000 _
    ⟨⟨by decide, by decide, fun _ => ⟨fun pmn hpmn => (nomatch hpmn), fun _ => ?_⟩⟩,
    fun s hs => ⟨?_, fun _ _ => trivial⟩⟩
  · exact ⟨by decide, by decide, fun a ha => absurd ha List.not_mem_nil⟩
  · obtain rfl := Option.some.inj hs
    refine ⟨by decide, by decide, fun pmn hpmn _ _ _ => ?_⟩
    have hall : ((({} : CMasternodeMan).receiveDsee liveEnv (liveCtx 1000) (liveDsee 0)).find
        liveDseep.vin).all (fun pmn => pmn.sigTime < 2990) = true := by decide
    have hpmn : (({} : CMasternodeMan).receiveDsee liveEnv (liveCtx 1000) (liveDsee 0)).find
        liveDseep.vin = some pmn := hpmn
    rw [hpmn] at hall
    exact of_decide_eq_true hall

/-- The same announcement again refreshes the entry, which stays 8000 seconds after it was signed; with
another time it adds an entry that was last seen in the future. -/
theorem liveness_faked :
    ¬Run.EveryStep (LivenessState.step liveEnv) (AdvancesWithNew liveEnv)
        [.dsee (liveCtx 1000) (liveDsee 0), .dsee (liveCtx 5000) (liveDsee 0)] { nAdjustedTime := 1000 } ∧
      ¬Run.Along (LivenessState.step liveEnv) (LivenessHolds liveEnv)
        [.dsee (liveCtx 1000) (liveDsee 0), .dsee (liveCtx 5000) (liveDsee 0)] { nAdjustedTime := 1000 } ∧
      ¬Run.Along (LivenessState.step liveEnv) (LivenessHolds liveEnv)
        [.dsee (liveCtx 1000) (liveDsee 1000000)] { nAdjustedTime := 1000 } := by
  let once := ({} : CMasternodeMan).receiveDsee liveEnv (liveCtx 1000) (liveDsee 0)
  let twice := once.receiveDsee liveEnv (liveCtx 5000) (liveDsee 0)
  have honce : once.liveParts = [⟨⟨7, 0⟩, 990, 0, 1000⟩] := by decide
  have htwice : twice.liveParts = [⟨⟨7, 0⟩, 990, 0, 5000⟩] := by decide
  have hkept : (twice.checkAndRemove liveEnv (liveCtx 9000).toMasternodeCtx).liveParts
      = [⟨⟨7, 0⟩, 990, 0, 5000⟩] := by decide
  have hlog : (LivenessEvent.dsee (liveCtx 5000) (liveDsee 0)).accepted liveEnv once ++
      ((LivenessEvent.dsee (liveCtx 1000) (liveDsee 0)).accepted liveEnv {} ++ [])
      = [⟨⟨7, 0⟩, 990, 5000⟩, ⟨⟨7, 0⟩, 990, 1000⟩] := by decide
  refine ⟨fun h => ?_, fun h => ?_, fun h => ?_⟩
  · have hadvance := (h.2 _ rfl).1 ⟨⟨7, 0⟩, 990, 0, 5000⟩
      (show _ ∈ twice.liveParts by rw [htwice]; exact List.mem_cons_self)
    rcases hadvance with ⟨p, hp, -, hle⟩ | ⟨a, ha, hprevout, hnew⟩
    · have hp : p ∈ once.liveParts := hp
      rw [honce, List.mem_singleton] at hp
      rw [hp] at hle
      exact absurd hle (by decide)
    · have hfirst : (⟨⟨7, 0⟩, 990, 1000⟩ : AcceptedMessage) ∈
          (LivenessEvent.dsee (liveCtx 1000) (liveDsee 0)).accepted liveEnv {} ++ [] := by decide
      have hsecond : (LivenessEvent.dsee (liveCtx 5000) (liveDsee 0)).accepted liveEnv once
          = [⟨⟨7, 0⟩, 990, 5000⟩] := by decide
      have ha : a ∈ (LivenessEvent.dsee (liveCtx 5000) (liveDsee 0)).accepted liveEnv once := ha
      rw [hsecond, List.mem_singleton] at ha
      have hlt := hnew _ hfirst hprevout.symm
      rw [ha] at hlt
      exact absurd hlt (by decide)
  · have hholds := (h.2 _ rfl).2 _ rfl
    obtain ⟨nTime, ⟨newer, older, sigTime, hsplit, hnew⟩, hrecent⟩ :=
      hholds.2 (liveCtx 9000).toMasternodeCtx (show (5000 : Int) ≤ 9000 by decide)
        (show (9000 : Int) < 2 ^ 63 by decide) rfl rfl ⟨⟨7, 0⟩, 990, 0, 5000⟩
        (show _ ∈ (twice.checkAndRemove liveEnv (liveCtx 9000).toMasternodeCtx).liveParts by
          rw [hkept]; exact List.mem_cons_self)
    have hrecent : (9000 : Int) - nTime < 4200 := hrecent
    replace hsplit := hlog.symm.trans hsplit
    -- the later of the two messages has no new signature, the earlier one is too old
    rcases newer with _ | ⟨b, _ | ⟨c, newer⟩⟩
    · simp only [List.nil_append, List.cons.injEq, AcceptedMessage.mk.injEq] at hsplit
      obtain ⟨⟨-, rfl, -⟩, rfl⟩ := hsplit
      exact absurd (hnew _ List.mem_cons_self rfl) (by decide)
    · simp only [List.cons_append, List.nil_append, List.cons.injEq, AcceptedMessage.mk.injEq] at hsplit
      obtain ⟨-, ⟨-, -, rfl⟩, -⟩ := hsplit
      exact absurd hrecent (by decide)
    · simp at hsplit
  · have hfuture : (({} : CMasternodeMan).receiveDsee liveEnv (liveCtx 1000) (liveDsee 1000000)).liveParts
        = [⟨⟨7, 0⟩, 990, 0, 1000000⟩] := by decide
    have hle := (h.2 _ rfl).1 ⟨⟨7, 0⟩, 990, 0, 1000000⟩ (show _ ∈ (({} : CMasternodeMan).receiveDsee liveEnv
      (liveCtx 1000) (liveDsee 1000000)).liveParts by rw [hfuture]; exact List.mem_cons_self)
    exact absurd (show (1000000 : Int) ≤ 1000 from hle) (by decide)

end Sphinx
