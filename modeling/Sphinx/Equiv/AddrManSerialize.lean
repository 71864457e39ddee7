import Sphinx.AddrManSerialize
import Sphinx.Equiv.AddrManEvict

/-!
# The peers are read back

What `Serialize` writes of a manager that passes `Check_`, `Unserialize` reads again, up to the ids, as long as no
"tried" bucket is overfull.

* `writeNewEntries_spec`, `writeTriedEntries_spec`: the loops end with the last entry of their kind;
* `reads_serialize`: the loops of `Unserialize` over what was written;
* `Loaded`, `TriedLoaded` and `RefsLoaded`: the manager after each of them;
* `unserialize_serialize`: the whole.
-/

namespace Sphinx

open Codec CAddrMan
open Function (update update_of_ne update_self)
open CAddrInfo (getTriedBucket)

variable {info : CAddrInfo} {id n : Nat} {b : NewBucket} {e : Nat × CAddrInfo}

/-! ### The addresses -/

/-- What is in the file of an entry. -/
def CAddrInfo.stored (info : CAddrInfo) : CAddrInfo :=
  { info with nLastTry := 0, nRefCount := 0, fInTried := false, nRandomPos := -1 }

/-- The ranges of the types. -/
structure CAddrInfo.Fits (info : CAddrInfo) : Prop where
  ip : info.service.ip.length = 16
  port : info.service.port < 256 ^ 2
  nServices : info.nServices < 256 ^ 8
  nTime : info.nTime < 256 ^ 4
  source : info.source.length = 16
  nLastSuccess : FitsInt 8 info.nLastSuccess
  nAttempts : FitsInt 4 info.nAttempts

theorem reads_readService {addr : CService} (hip : addr.ip.length = 16) (hport : addr.port < 256 ^ 2) :
    Reads readService addr.write addr := by
  have hlen : (toLE 2 addr.port).reverse.length = 2 := by rw [List.length_reverse, length_toLE]
  refine reads_bind (reads_readBytes hip) (reads_bind_nil (reads_readBytes hlen) ?_)
  rw [List.reverse_reverse, fromLE_toLE hport]
  exact reads_pure addr

theorem reads_readAddrInfo (h : info.Fits) : Reads readAddrInfo info.write info.stored := by
  have haddr : Reads readAddress info.toCAddress.write { info.toCAddress with nLastTry := 0 } := by
    refine reads_bind (reads_readLE (show 0 < 256 ^ 4 by decide)) ?_
    refine reads_bind (reads_readLE h.nTime) ?_
    refine reads_bind (reads_readLE h.nServices) ?_
    exact reads_bind_nil (reads_readService h.ip h.port) (reads_pure _)
  refine reads_bind haddr ?_
  refine reads_bind (reads_readBytes h.source) ?_
  refine reads_bind (reads_readInt h.nLastSuccess) ?_
  exact reads_bind_nil (reads_readInt h.nAttempts) (reads_pure _)

/-- A loop of which each round reads a value. -/
theorem reads_foldlM {σ α β : Type} {f : σ → α → Reader σ} {g : σ → β × α → σ}
    {write : β → List UInt8} :
    ∀ {l : List (β × α)} (s : σ), (∀ s, ∀ x ∈ l, Reads (f s x.2) (write x.1) (g s x)) →
      Reads ((l.map Prod.snd).foldlM f s) (l.flatMap fun x => write x.1) (l.foldl g s) := by
  intro l
  induction l with
  | nil => exact fun s _ => reads_pure s
  | cons x l ih =>
    intro s h
    rw [List.map_cons, List.foldlM_cons, List.flatMap_cons, List.foldl_cons]
    exact reads_bind (h s x List.mem_cons_self) (ih _ fun s x hx => h s x (List.mem_cons_of_mem _ hx))

namespace CAddrMan

variable {env : AddrManEnv} {am : CAddrMan}

/-! ### The entries -/

theorem Numbered.mem_entries (h : am.Numbered) :
    (id, info) ∈ am.entries ↔ am.mapInfo id = some info := by
  rw [entries, List.mem_filterMap]
  constructor
  · rintro ⟨id', -, hmap⟩
    obtain ⟨info', hid, heq⟩ := Option.map_eq_some_iff.mp hmap
    obtain ⟨rfl, rfl⟩ := Prod.mk.inj heq
    exact hid
  · intro hid
    exact ⟨id, List.mem_range.mpr (h id info hid), by rw [hid]; rfl⟩

theorem nodup_entries (am : CAddrMan) : (am.entries.map Prod.fst).Nodup := by
  rw [entries, List.map_filterMap]
  refine List.nodup_range.filterMap fun id id' n hid hid' => ?_
  have hfst {k : Nat} (h : n ∈ ((am.mapInfo k).map fun info => (k, info)).map Prod.fst) : k = n := by
    obtain ⟨e, he, rfl⟩ := Option.map_eq_some_iff.mp h
    obtain ⟨info, -, rfl⟩ := Option.map_eq_some_iff.mp he
    rfl
  rw [hfst hid, hfst hid']

/-- The entries that are "tried", or that are not. -/
def entriesOf (am : CAddrMan) (fInTried : Bool) : List (Nat × CAddrInfo) :=
  am.entries.filter fun e => e.2.fInTried = fInTried

theorem Numbered.mem_entriesOf (h : am.Numbered) {fInTried : Bool} :
    (id, info) ∈ am.entriesOf fInTried ↔ am.mapInfo id = some info ∧ info.fInTried = fInTried := by
  rw [entriesOf, List.mem_filter, h.mem_entries, decide_eq_true_eq]

theorem nodup_entriesOf (am : CAddrMan) (fInTried : Bool) : ((am.entriesOf fInTried).map Prod.fst).Nodup :=
  am.nodup_entries.sublist (List.filter_sublist.map _)

theorem Numbered.length_entriesOf (h : am.Numbered) (fInTried : Bool) :
    (am.entriesOf fInTried).length = (am.idsOf fInTried).card := by
  have hset : am.idsOf fInTried = ((am.entriesOf fInTried).map Prod.fst).toFinset := by
    ext id
    rw [h.mem_idsOf, List.mem_toFinset, List.mem_map]
    constructor
    · rintro ⟨info, hid⟩
      exact ⟨(id, info), h.mem_entriesOf.mpr hid, rfl⟩
    · rintro ⟨⟨id', info⟩, hmem, rfl⟩
      exact ⟨info, h.mem_entriesOf.mp hmem⟩
  rw [hset, List.toFinset_card_of_nodup (nodup_entriesOf am _), List.length_map]

/-! ### What is written -/

/-- The loop does not end before the last "new" entry. -/
theorem writeNewEntries_spec {nNew : Int} : ∀ {it : List (Nat × CAddrInfo)} {nIds : Int} {m : Nat → Int},
    (it.map Prod.fst).Nodup → nIds + (it.filter fun e => e.2.nRefCount ≠ 0).length = nNew →
    (writeNewEntries nNew it nIds m).1 = (it.filter fun e => e.2.nRefCount ≠ 0).flatMap (fun e => e.2.write) ∧
      (∀ (k : Nat) e, (it.filter fun e => e.2.nRefCount ≠ 0)[k]? = some e →
        (writeNewEntries nNew it nIds m).2 e.1 = nIds + k) ∧
      ∀ id, id ∉ it.map Prod.fst → (writeNewEntries nNew it nIds m).2 id = m id := by
  intro it
  induction it with
  | nil => exact fun _ _ => ⟨rfl, fun k e h => absurd h (by simp), fun _ _ => rfl⟩
  | cons e it ih =>
    intro nIds m hnodup hcount
    obtain ⟨nId, info⟩ := e
    rw [List.map_cons, List.nodup_cons] at hnodup
    unfold writeNewEntries
    by_cases hend : nIds = nNew
    · -- there is none left
      have hnone : ((nId, info) :: it).filter (fun e => e.2.nRefCount ≠ 0) = [] :=
        List.eq_nil_of_length_eq_zero (by omega)
      rw [if_pos hend, hnone]
      exact ⟨rfl, fun k e h => absurd h (by simp), fun _ _ => rfl⟩
    rw [if_neg hend]
    dsimp only
    by_cases hnew : info.nRefCount ≠ 0
    · have hcons : ((nId, info) :: it).filter (fun e => e.2.nRefCount ≠ 0) =
          (nId, info) :: it.filter fun e => e.2.nRefCount ≠ 0 := List.filter_cons_of_pos (decide_eq_true hnew)
      rw [hcons, List.length_cons] at hcount
      obtain ⟨hbytes, hindex, hout⟩ := @ih (nIds + 1) (update m nId nIds) hnodup.2 (by omega)
      rw [if_pos hnew, hcons]
      refine ⟨by rw [List.flatMap_cons, hbytes], fun k e hk => ?_, fun id hid => ?_⟩
      · cases k with
        | zero =>
          obtain rfl := Option.some.inj hk
          show (writeNewEntries nNew it (nIds + 1) (update m nId nIds)).2 nId = nIds + (0 : Nat)
          rw [hout nId hnodup.1, update_self]
          omega
        | succ k =>
          have hrest := hindex k e hk
          show (writeNewEntries nNew it (nIds + 1) (update m nId nIds)).2 e.1 = nIds + (k + 1 : Nat)
          omega
      · rw [List.map_cons, List.mem_cons, not_or] at hid
        show (writeNewEntries nNew it (nIds + 1) (update m nId nIds)).2 id = m id
        rw [hout id hid.2, update_of_ne hid.1]
    · have hcons : ((nId, info) :: it).filter (fun e => e.2.nRefCount ≠ 0) =
          it.filter fun e => e.2.nRefCount ≠ 0 := List.filter_cons_of_neg (by simpa using hnew)
      rw [hcons] at hcount
      obtain ⟨hbytes, hindex, hout⟩ := @ih nIds (update m nId nIds) hnodup.2 hcount
      rw [if_neg hnew, hcons]
      refine ⟨hbytes, hindex, fun id hid => ?_⟩
      rw [List.map_cons, List.mem_cons, not_or] at hid
      rw [hout id hid.2, update_of_ne hid.1]

theorem writeTriedEntries_spec {nTried : Int} : ∀ {it : List (Nat × CAddrInfo)} {nIds : Int},
    nIds + (it.filter fun e => e.2.fInTried = true).length = nTried →
    writeTriedEntries nTried it nIds = (it.filter fun e => e.2.fInTried = true).flatMap fun e => e.2.write := by
  intro it
  induction it with
  | nil => exact fun _ => rfl
  | cons e it ih =>
    intro nIds hcount
    obtain ⟨nId, info⟩ := e
    unfold writeTriedEntries
    by_cases hend : nIds = nTried
    · have hnone : ((nId, info) :: it).filter (fun e => e.2.fInTried = true) = [] :=
        List.eq_nil_of_length_eq_zero (by omega)
      rw [if_pos hend, hnone]
      rfl
    rw [if_neg hend]
    by_cases htried : info.fInTried = true
    · have hcons : ((nId, info) :: it).filter (fun e => e.2.fInTried = true) =
          (nId, info) :: it.filter fun e => e.2.fInTried = true := List.filter_cons_of_pos (decide_eq_true htried)
      rw [hcons, List.length_cons] at hcount
      rw [if_pos htried, hcons, List.flatMap_cons, ih (by omega)]
    · have hcons : ((nId, info) :: it).filter (fun e => e.2.fInTried = true) =
          it.filter fun e => e.2.fInTried = true := List.filter_cons_of_neg (by simpa using htried)
      rw [hcons] at hcount
      rw [if_neg htried, hcons, ih hcount]

/-! ### What is read of it -/

def loadNew (env : AddrManEnv) (am : CAddrMan) (news : List CAddrInfo) : CAddrMan :=
  news.zipIdx.foldl (fun am x => addNewEntry env addrmanNewBucketCount am x.2 x.1) am

def loadTried (env : AddrManEnv) (am : CAddrMan) (trieds : List CAddrInfo) : CAddrMan × Int :=
  trieds.foldl (addTriedEntry env) (am, 0)

def loadRefs (am : CAddrMan) (refs : List (NewBucket × Nat)) : CAddrMan :=
  refs.foldl (fun am r => addReference addrmanNewBucketCount am r.1 r.2) am

/-- The number of a "new" entry in the file. -/
def fileIndex (am : CAddrMan) (id : Nat) : Int := (writeNewEntries am.nNew am.entries 0 fun _ => 0).2 id

/-- The references in the file. -/
def fileRefs (am : CAddrMan) : List (NewBucket × Nat) :=
  (List.finRange addrmanNewBucketCount).flatMap fun b => (am.vvNew b).sort.map fun id => (b, (am.fileIndex id).toNat)

/-- The entries in the file. -/
def fileInfos (am : CAddrMan) (fInTried : Bool) : List CAddrInfo :=
  (am.entriesOf fInTried).map fun e => e.2.stored

/-- What `Unserialize` makes of the "new" entries in the file. -/
def afterNew (env : AddrManEnv) (am : CAddrMan) : CAddrMan :=
  { loadNew env { nNew := am.nNew, nTried := am.nTried } (am.fileInfos false) with nIdCount := am.nNew.toNat }

/-- What it makes of the "tried" entries then. -/
def afterTried (env : AddrManEnv) (am : CAddrMan) : CAddrMan × Int :=
  loadTried env (afterNew env am) (am.fileInfos true)

/-- What it makes of the file. -/
def reloaded (env : AddrManEnv) (am : CAddrMan) : CAddrMan :=
  loadRefs { (afterTried env am).1 with nTried := (afterTried env am).1.nTried - (afterTried env am).2 } am.fileRefs

/-- The ranges of the types. -/
structure Fits (am : CAddrMan) : Prop where
  numbered : am.Numbered
  nIdCount : (am.nIdCount : Int) < 256 ^ 4 / 2
  info : ∀ {id info}, am.mapInfo id = some info → info.Fits

section

variable (hn : am.Numbered) (hc : am.Checked)

include hn hc

theorem filter_entries :
    am.entries.filter (fun e => e.2.nRefCount ≠ 0) = am.entriesOf false := by
  refine List.filter_congr fun e he => decide_eq_decide.mpr ?_
  have hinfo := hc.info (hn.mem_entries.mp he)
  cases hkind : e.2.fInTried with
  | true => simp [(hinfo.tried hkind).2]
  | false =>
    have hnew := (hinfo.new hkind).1
    simp only [iff_true]
    omega

theorem length_new : ((am.entriesOf false).length : Int) = am.nNew := by
  rw [hn.length_entriesOf, hc.nNew_eq]

theorem length_tried : ((am.entriesOf true).length : Int) = am.nTried := by
  rw [hn.length_entriesOf, hc.nTried_eq]

theorem writeNewEntries_entries :
    (writeNewEntries am.nNew am.entries 0 fun _ => 0).1 = (am.entriesOf false).flatMap (fun e => e.2.write) ∧
      ∀ (k : Nat) e, (am.entriesOf false)[k]? = some e → am.fileIndex e.1 = k := by
  have hspec := @writeNewEntries_spec am.nNew am.entries 0 (fun _ => 0) am.nodup_entries
    (by rw [filter_entries hn hc, zero_add, length_new hn hc])
  rw [filter_entries hn hc] at hspec
  refine ⟨hspec.1, fun k e hk => ?_⟩
  rw [fileIndex, hspec.2.1 k e hk, zero_add]

theorem exists_fileIndex (hid : id ∈ am.vvNew b) :
    ∃ (k : Nat) (info : CAddrInfo), (am.entriesOf false)[k]? = some (id, info) ∧ am.fileIndex id = k := by
  obtain ⟨info, hinfo, hkind⟩ := hc.of_new hid
  obtain ⟨k, hk⟩ := List.mem_iff_getElem?.mp (hn.mem_entriesOf.mpr ⟨hinfo, hkind⟩)
  exact ⟨k, info, hk, (writeNewEntries_entries hn hc).2 k _ hk⟩

end

theorem length_entriesOf_le (am : CAddrMan) (fInTried : Bool) : (am.entriesOf fInTried).length ≤ am.nIdCount := by
  refine (List.length_filter_le _ _).trans ?_
  rw [entries]
  exact (List.length_filterMap_le _ _).trans (le_of_eq List.length_range)

theorem map_snd_zipIdx {α : Type} (l : List α) : l.zipIdx.map Prod.snd = List.range l.length := by
  rw [List.zipIdx_map_snd, List.range_eq_range']

theorem foldl_zipIdx {α σ : Type} (g : σ → α → σ) (l : List α) (s : σ) :
    l.zipIdx.foldl (fun s x => g s x.1) s = l.foldl g s := by
  rw [← List.foldl_map, List.zipIdx_map_fst]

theorem flatMap_zipIdx {α : Type} (write : α → List UInt8) (l : List α) :
    l.zipIdx.flatMap (fun x => write x.1) = l.flatMap write := by
  rw [← List.flatMap_map, List.zipIdx_map_fst]

theorem reads_readBucket (hfits : am.Fits) (hc : am.Checked) (am' : CAddrMan) (b : NewBucket) :
    Reads (readBucket addrmanNewBucketCount am' b) (writeBucket am.fileIndex (am.vvNew b))
      ((am.vvNew b).sort.foldl (fun am' id =>
        addReference addrmanNewBucketCount am' b (am.fileIndex id).toNat) am') := by
  have hcard : (am.vvNew b).card ≤ am.nIdCount := by
    refine (Finset.card_le_card fun id hid => ?_).trans (le_of_eq (Finset.card_range _))
    obtain ⟨info, hinfo, -⟩ := hc.of_new hid
    exact Finset.mem_range.mpr (hfits.numbered id info hinfo)
  have hcount := hfits.nIdCount
  rw [readBucket, dif_pos b.isLt]
  refine reads_bind (reads_readInt ⟨by omega, by omega⟩) ?_
  rw [Int.toNat_natCast, ← Finset.length_sort (· ≤ ·), ← map_snd_zipIdx, ← foldl_zipIdx, ← flatMap_zipIdx]
  refine @reads_foldlM _ _ _ _ (fun s x => addReference addrmanNewBucketCount s b (am.fileIndex x.1).toNat)
    (fun id => writeInt 4 (am.fileIndex id)) _ _ fun s x hx => ?_
  obtain ⟨k, info, hk, hindex⟩ := exists_fileIndex hfits.numbered hc
    ((Finset.mem_sort _).mp (List.fst_mem_of_mem_zipIdx hx))
  have hlt := (List.getElem?_eq_some_iff.mp hk).1
  have hle := length_entriesOf_le am false
  refine reads_bind_nil (reads_readInt (by rw [hindex]; exact ⟨by omega, by omega⟩)) ?_
  rw [if_neg (by rw [hindex]; omega)]
  exact reads_pure _

theorem reads_loadNew {L : List (Nat × CAddrInfo)} (hL : ∀ e ∈ L, e.2.Fits) (am' : CAddrMan) :
    Reads ((List.range L.length).foldlM (fun am n => addNewEntry env addrmanNewBucketCount am n <$> readAddrInfo) am')
      (L.flatMap fun e => e.2.write) (loadNew env am' (L.map fun e => e.2.stored)) := by
  rw [loadNew, List.zipIdx_map, List.foldl_map, ← map_snd_zipIdx, ← flatMap_zipIdx]
  refine @reads_foldlM CAddrMan Nat (Nat × CAddrInfo) _
    (fun s x => addNewEntry env addrmanNewBucketCount s x.2 x.1.2.stored) (fun e => e.2.write) _ _ fun s x hx => ?_
  exact reads_map (reads_readAddrInfo (hL x.1 (List.fst_mem_of_mem_zipIdx hx))) _

theorem reads_loadTried {L : List (Nat × CAddrInfo)} (hL : ∀ e ∈ L, e.2.Fits) (am' : CAddrMan) :
    Reads ((List.range L.length).foldlM (fun s _ => addTriedEntry env s <$> readAddrInfo) (am', (0 : Int)))
      (L.flatMap fun e => e.2.write) (loadTried env am' (L.map fun e => e.2.stored)) := by
  rw [loadTried, List.foldl_map, ← foldl_zipIdx, ← map_snd_zipIdx, ← flatMap_zipIdx]
  refine @reads_foldlM (CAddrMan × Int) Nat (Nat × CAddrInfo) _ (fun s x => addTriedEntry env s x.1.2.stored)
    (fun e => e.2.write) _ _ fun s x hx => ?_
  exact reads_map (reads_readAddrInfo (hL x.1 (List.fst_mem_of_mem_zipIdx hx))) _

theorem reads_loadRefs (hfits : am.Fits) (hc : am.Checked) (am' : CAddrMan) :
    Reads ((List.range addrmanNewBucketCount).foldlM (readBucket addrmanNewBucketCount) am')
      ((List.finRange addrmanNewBucketCount).flatMap fun b => writeBucket am.fileIndex (am.vvNew b))
      (loadRefs am' am.fileRefs) := by
  have hrange : ((List.finRange addrmanNewBucketCount).map fun b => (b, b.val)).map Prod.snd =
      List.range addrmanNewBucketCount := by
    rw [List.map_map]
    exact List.map_coe_finRange_eq_range
  have hread := @reads_foldlM CAddrMan Nat NewBucket (readBucket addrmanNewBucketCount)
    (fun am' x => (am.vvNew x.1).sort.foldl
      (fun am' id => addReference addrmanNewBucketCount am' x.1 (am.fileIndex id).toNat) am')
    (fun b => writeBucket am.fileIndex (am.vvNew b)) ((List.finRange addrmanNewBucketCount).map fun b => (b, b.val)) am'
    fun s x hx => by
      obtain ⟨b, -, rfl⟩ := List.mem_map.mp hx
      exact reads_readBucket hfits hc s b
  rw [hrange, List.flatMap_map, List.foldl_map] at hread
  rw [loadRefs, fileRefs, List.foldl_flatMap]
  simp only [List.foldl_map]
  exact hread

/-- **What is written is read** to the last byte. -/
theorem reads_serialize (hkey : env.nKey.length ≤ maxSize) (hfits : am.Fits) (hc : am.Checked) (nKey : List UInt8) :
    Reads (unserialize { env with nKey := nKey }) (serialize env.nKey am) (env.nKey, reloaded env am) := by
  have hnew := length_new hfits.numbered hc
  have htried := length_tried hfits.numbered hc
  have hcount := hfits.nIdCount
  have hfalse := length_entriesOf_le am false
  have htrue := length_entriesOf_le am true
  have hinfo (fInTried : Bool) : ∀ e ∈ am.entriesOf fInTried, e.2.Fits :=
    fun e he => hfits.info (hfits.numbered.mem_entriesOf.mp he).1
  have hbytes : serialize env.nKey am = toLE 1 0 ++ (writeBytes env.nKey ++ (writeInt 4 am.nNew ++
      (writeInt 4 am.nTried ++ (writeInt 4 addrmanNewBucketCount ++
        ((am.entriesOf false).flatMap (fun e => e.2.write) ++ ((am.entriesOf true).flatMap (fun e => e.2.write) ++
          ((List.finRange addrmanNewBucketCount).flatMap fun b => writeBucket am.fileIndex (am.vvNew b)))))))) := by
    have htriedBytes : writeTriedEntries am.nTried am.entries 0 = (am.entriesOf true).flatMap fun e => e.2.write :=
      writeTriedEntries_spec (by rw [zero_add]; exact htried)
    rw [← (writeNewEntries_entries hfits.numbered hc).1, ← htriedBytes]
    rfl
  rw [hbytes]
  refine reads_bind (reads_readLE (show 0 < 256 ^ 1 by decide)) ?_
  refine reads_bind (reads_readString hkey) ?_
  refine reads_bind (reads_readInt ⟨by omega, by omega⟩) ?_
  refine reads_bind (reads_readInt ⟨by omega, by omega⟩) ?_
  refine reads_bind (reads_readInt (by decide)) ?_
  have hN : am.nNew.toNat = (am.entriesOf false).length := by omega
  have hT : am.nTried.toNat = (am.entriesOf true).length := by omega
  rw [reloaded, afterTried, afterNew, hN, hT]
  refine reads_bind (reads_loadNew (hinfo false) _) ?_
  refine reads_bind (reads_loadTried (hinfo true) _) ?_
  exact reads_bind_nil (reads_loadRefs hfits hc _) (reads_pure _)

/-! ### The manager that was read -/

/-- The entries have their numbers in the file. -/
structure Loaded (nNew : Nat) (infos : List CAddrInfo) (am : CAddrMan) : Prop where
  mapInfo : ∀ n, am.mapInfo n = (infos[n]?).map fun info =>
    { info with nRandomPos := n, fInTried := decide (nNew ≤ n) }
  mapAddr : ∀ {n info}, infos[n]? = some info → am.mapAddr info.service.ip = some n
  vRandom : am.vRandom = List.range infos.length

theorem Loaded.snoc {nNew : Nat} {infos : List CAddrInfo} {am' : CAddrMan} (h : Loaded nNew infos am)
    (hfresh : ∀ other ∈ infos, other.service.ip ≠ info.service.ip)
    (hinfo : am'.mapInfo = update am.mapInfo infos.length
        (some { info with nRandomPos := infos.length, fInTried := decide (nNew ≤ infos.length) }))
    (haddr : am'.mapAddr = update am.mapAddr info.service.ip (some infos.length))
    (hrandom : am'.vRandom = am.vRandom ++ [infos.length]) : Loaded nNew (infos ++ [info]) am' := by
  constructor
  case mapInfo =>
    intro n
    rw [hinfo]
    by_cases hn : n = infos.length
    · rw [hn, update_self, List.getElem?_concat_length]
      rfl
    · rw [update_of_ne hn, h.mapInfo]
      rcases lt_or_gt_of_ne hn with hlt | hgt
      · rw [List.getElem?_append_left hlt]
      · rw [List.getElem?_eq_none hgt.le, List.getElem?_eq_none (by rw [List.length_append]; exact hgt)]
  case mapAddr =>
    intro n other hn
    rw [haddr]
    rcases lt_or_ge n infos.length with hlt | hge
    · rw [List.getElem?_append_left hlt] at hn
      rw [update_of_ne (hfresh other (List.mem_of_getElem? hn)), h.mapAddr hn]
    · rw [List.getElem?_append_right hge, List.getElem?_singleton] at hn
      split_ifs at hn with hzero
      obtain rfl := Option.some.inj hn
      rw [update_self, show infos.length = n by omega]
  case vRandom => rw [hrandom, h.vRandom, List.length_append, List.length_singleton, List.range_succ]

/-- The addresses are different. -/
def Apart (infos : List CAddrInfo) : Prop := infos.Pairwise fun info info' => info.service.ip ≠ info'.service.ip

theorem Apart.fresh {infos : List CAddrInfo} (h : Apart (infos ++ [info])) :
    Apart infos ∧ ∀ other ∈ infos, other.service.ip ≠ info.service.ip := by
  obtain ⟨hinfos, -, hcross⟩ := List.pairwise_append.mp h
  exact ⟨hinfos, fun other hmem => hcross other hmem info List.mem_cons_self⟩

theorem loadNew_spec {nNew : Nat} (h : Loaded nNew [] am) : ∀ {news : List CAddrInfo}, Apart news →
    (∀ info ∈ news, info.fInTried = false) → news.length ≤ nNew →
    Loaded nNew news (loadNew env am news) ∧ (loadNew env am news).vvTried = am.vvTried ∧
      (loadNew env am news).vvNew = am.vvNew ∧ (loadNew env am news).nNew = am.nNew ∧
      (loadNew env am news).nTried = am.nTried := by
  intro news
  induction news using List.reverseRecOn with
  | nil => exact fun _ _ _ => ⟨h, rfl, rfl, rfl, rfl⟩
  | append_singleton news info ih =>
    intro hapart hkind hlen
    obtain ⟨hnews, hfresh⟩ := hapart.fresh
    rw [List.length_append, List.length_singleton] at hlen
    obtain ⟨hloaded, hsame⟩ := ih hnews (fun i hi => hkind i (List.mem_append_left _ hi)) (by omega)
    have hstep : loadNew env am (news ++ [info]) =
        addNewEntry env addrmanNewBucketCount (loadNew env am news) news.length info := by
      rw [loadNew, List.zipIdx_append, List.foldl_append, zero_add]
      rfl
    rw [hstep, addNewEntry, if_pos rfl]
    refine ⟨hloaded.snoc hfresh ?_ rfl rfl, hsame⟩
    have hnot : decide (nNew ≤ news.length) = info.fInTried := by
      rw [hkind info (by simp), decide_eq_false (by omega)]
    rw [hloaded.vRandom, List.length_range, hnot]

theorem getElem?_snoc {α : Type} {l : List α} {a b : α} :
    (l ++ [a])[n]? = some b ↔ l[n]? = some b ∨ n = l.length ∧ b = a := by
  rcases lt_trichotomy n l.length with hlt | rfl | hgt
  · rw [List.getElem?_append_left hlt]
    exact (or_iff_left fun h => absurd h.1 hlt.ne).symm
  · rw [List.getElem?_concat_length, List.getElem?_eq_none le_rfl]
    simp [eq_comm]
  · rw [List.getElem?_eq_none (by rw [List.length_append]; exact hgt), List.getElem?_eq_none hgt.le]
    simp [hgt.ne']

/-- After the "tried" entries. -/
structure TriedLoaded (env : AddrManEnv) (news trieds : List CAddrInfo) (am : CAddrMan) : Prop where
  loaded : Loaded news.length (news ++ trieds) am
  nIdCount : am.nIdCount = (news ++ trieds).length
  tried : ∀ {b n}, n ∈ am.vvTried b ↔ news.length ≤ n ∧
    ∃ info, (news ++ trieds)[n]? = some info ∧ getTriedBucket env info.service = b
  nodup : ∀ b, (am.vvTried b).Nodup
  length : ∀ b, (am.vvTried b).length = trieds.countP fun info => getTriedBucket env info.service = b

theorem loadTried_spec {news : List CAddrInfo} (h : TriedLoaded env news [] am) : ∀ {trieds : List CAddrInfo},
    Apart (news ++ trieds) →
    (∀ b, trieds.countP (fun info => getTriedBucket env info.service = b) ≤ addrmanTriedBucketSize) →
    TriedLoaded env news trieds (loadTried env am trieds).1 ∧ (loadTried env am trieds).2 = 0 ∧
      (loadTried env am trieds).1.vvNew = am.vvNew ∧ (loadTried env am trieds).1.nNew = am.nNew ∧
      (loadTried env am trieds).1.nTried = am.nTried := by
  intro trieds
  induction trieds using List.reverseRecOn with
  | nil => exact fun _ _ => ⟨h, rfl, rfl, rfl, rfl⟩
  | append_singleton trieds info ih =>
    intro hapart hsize
    rw [← List.append_assoc] at hapart
    obtain ⟨hbefore, hfresh⟩ := hapart.fresh
    obtain ⟨ht, hlost, hsame⟩ := ih hbefore fun b => by
      have hb := hsize b
      rw [List.countP_append] at hb
      omega
    have hstep : loadTried env am (trieds ++ [info]) = addTriedEntry env (loadTried env am trieds) info := by
      rw [loadTried, List.foldl_append]
      rfl
    rw [hstep, addTriedEntry]
    have hroom := hsize (getTriedBucket env info.service)
    rw [List.countP_append, List.countP_singleton, if_pos (decide_eq_true rfl), ← ht.length] at hroom
    rw [if_pos (by omega), ht.nIdCount]
    refine ⟨?_, hlost, hsame⟩
    constructor
    case loaded =>
      rw [← List.append_assoc]
      refine ht.loaded.snoc hfresh ?_ rfl rfl
      rw [ht.loaded.vRandom, List.length_range, decide_eq_true (by rw [List.length_append]; omega)]
    case nIdCount =>
      simp only [List.length_append, List.length_singleton]
      omega
    case tried =>
      intro b n
      simp only [← List.append_assoc, getElem?_snoc, or_and_right, exists_or, and_or_left]
      by_cases hb : b = getTriedBucket env info.service
      · subst hb
        rw [update_self, List.mem_append, List.mem_singleton, ht.tried]
        refine or_congr_right ⟨?_, fun ⟨_, _, ⟨hn, _⟩, _⟩ => hn⟩
        rintro rfl
        exact ⟨by rw [List.length_append]; omega, info, ⟨rfl, rfl⟩, rfl⟩
      · rw [update_of_ne hb, ht.tried]
        refine (or_iff_left ?_).symm
        rintro ⟨-, _, ⟨-, rfl⟩, heq⟩
        exact hb heq.symm
    case nodup =>
      intro b
      dsimp only
      by_cases hb : b = getTriedBucket env info.service
      · subst hb
        rw [update_self, List.nodup_append]
        refine ⟨ht.nodup _, List.nodup_singleton _, fun n hn n' hn' heq => ?_⟩
        obtain ⟨-, other, hother, -⟩ := ht.tried.mp hn
        rw [heq, List.mem_singleton.mp hn', List.getElem?_eq_none le_rfl] at hother
        cases hother
      · rw [update_of_ne hb]
        exact ht.nodup b
    case length =>
      intro b
      rw [List.countP_append, List.countP_singleton]
      dsimp only
      by_cases hb : b = getTriedBucket env info.service
      · subst hb
        rw [update_self, List.length_append, ht.length, if_pos (decide_eq_true rfl)]
        rfl
      · rw [update_of_ne hb, ht.length, if_neg (by simpa using Ne.symm hb), add_zero]

/-- After some of the references. -/
structure RefsLoaded (am₀ : CAddrMan) (done : List (NewBucket × Nat)) (am : CAddrMan) : Prop where
  mapInfo : ∀ n, am.mapInfo n = (am₀.mapInfo n).map fun info =>
    { info with nRefCount := (done.countP fun r => r.2 = n : Nat) }
  vvNew : ∀ {b n}, n ∈ am.vvNew b ↔ (b, n) ∈ done
  same : am = { am₀ with mapInfo := am.mapInfo, vvNew := am.vvNew }

theorem RefsLoaded.snoc {am₀ : CAddrMan} {done : List (NewBucket × Nat)} (h : RefsLoaded am₀ done am)
    (hn : am₀.mapInfo n = some info)
    (hroom : ((done.countP fun r => r.2 = n : Nat) : Int) < addrmanNewBucketsPerAddress) :
    RefsLoaded am₀ (done ++ [(b, n)]) (addReference addrmanNewBucketCount am b n) := by
  have hinfo := h.mapInfo n
  rw [hn, Option.map_some] at hinfo
  unfold addReference
  dsimp only
  rw [hinfo, Option.getD_some, if_pos ⟨rfl, hroom⟩]
  constructor
  case mapInfo =>
    intro n'
    rw [List.countP_append, List.countP_singleton]
    show update (update am.mapInfo n _) n _ n' = _
    by_cases heq : n' = n
    · subst heq
      rw [update_self]
      dsimp only
      rw [update_self, hn, if_pos (decide_eq_true rfl)]
      rfl
    · rw [update_of_ne heq, update_of_ne heq, h.mapInfo, if_neg (by simpa using Ne.symm heq),
        add_zero]
  case vvNew =>
    intro b' n'
    rw [List.mem_append, List.mem_singleton, Prod.mk.injEq, ← h.vvNew]
    show n' ∈ update am.vvNew b (insert n (am.vvNew b)) b' ↔ _
    by_cases hb : b' = b
    · subst hb
      rw [update_self, Finset.mem_insert]
      tauto
    · rw [update_of_ne hb]
      tauto
  case same =>
    rw [h.same]
    rfl

theorem loadRefs_spec {am₀ : CAddrMan} {refs : List (NewBucket × Nat)} (h₀ : RefsLoaded am₀ [] am₀)
    (hmem : ∀ r ∈ refs, ∃ info, am₀.mapInfo r.2 = some info)
    (hcount : ∀ n, ((refs.countP fun r => r.2 = n : Nat) : Int) ≤ addrmanNewBucketsPerAddress) :
    RefsLoaded am₀ refs (loadRefs am₀ refs) := by
  refine Loop.foldl_inv (fun done am => RefsLoaded am₀ done am) h₀ ?_
  rintro done ⟨b, n⟩ rest am rfl h
  obtain ⟨info, hn⟩ := hmem (b, n) (by simp)
  have hroom := hcount n
  rw [List.countP_append, List.countP_cons, if_pos (decide_eq_true rfl)] at hroom
  exact h.snoc hn (by omega)

/-- The references of an entry, where each is there once. -/
theorem countP_refs {refs : List (NewBucket × Nat)} (hnodup : refs.Nodup) {buckets : Finset NewBucket}
    (hmem : ∀ b, b ∈ buckets ↔ (b, n) ∈ refs) : refs.countP (fun r => r.2 = n) = buckets.card := by
  have hset : buckets = ((refs.filter fun r => r.2 = n).map Prod.fst).toFinset := by
    ext b
    rw [hmem, List.mem_toFinset, List.mem_map]
    constructor
    · exact fun hb => ⟨(b, n), List.mem_filter.mpr ⟨hb, decide_eq_true rfl⟩, rfl⟩
    · rintro ⟨⟨b', n'⟩, hfilter, rfl⟩
      obtain ⟨hb, hn⟩ := List.mem_filter.mp hfilter
      rwa [← show n' = n from of_decide_eq_true hn]
  rw [hset, List.toFinset_card_of_nodup, List.length_map, List.countP_eq_length_filter]
  refine (hnodup.filter _).map_on fun r hr r' hr' heq => Prod.ext heq ?_
  rw [of_decide_eq_true (List.mem_filter.mp hr).2, of_decide_eq_true (List.mem_filter.mp hr').2]

/-! ### The whole -/

/-- The entries, as they are stored, that are of a certain kind. -/
def storedOf (am : CAddrMan) (P : Nat → CAddrInfo → Prop) : Set CAddrInfo :=
  {i | ∃ id info, am.mapInfo id = some info ∧ P id info ∧ info.stored = i}

/-- Both hold the same addresses with the same statistics, in the same buckets. -/
structure Restores (am am' : CAddrMan) : Prop where
  nNew : am'.nNew = am.nNew
  nTried : am'.nTried = am.nTried
  new : am'.storedOf (fun _ info => info.fInTried = false) = am.storedOf fun _ info => info.fInTried = false
  tried : am'.storedOf (fun _ info => info.fInTried = true) = am.storedOf fun _ info => info.fInTried = true
  newBucket : ∀ b, am'.storedOf (fun id _ => id ∈ am'.vvNew b) = am.storedOf fun id _ => id ∈ am.vvNew b
  triedBucket : ∀ b, am'.storedOf (fun id _ => id ∈ am'.vvTried b) = am.storedOf fun id _ => id ∈ am.vvTried b

/-- The "tried" entries are in their buckets. -/
def InBuckets (env : AddrManEnv) (am : CAddrMan) : Prop :=
  ∀ {id info}, am.mapInfo id = some info → info.fInTried = true →
    id ∈ am.vvTried (getTriedBucket env info.service)

theorem Checked.ip_inj (hc : am.Checked) {id' : Nat} {info' : CAddrInfo}
    (hid : am.mapInfo id = some info) (hid' : am.mapInfo id' = some info')
    (hip : info.service.ip = info'.service.ip) : id = id' := by
  rw [← (hc.info hid).addr, ← (hc.info hid').addr, hip]

/-- The entries in the order of the file. -/
def fileEntries (am : CAddrMan) : List (Nat × CAddrInfo) := am.entriesOf false ++ am.entriesOf true

theorem apart_file (hn : am.Numbered) (hc : am.Checked) : Apart (am.fileInfos false ++ am.fileInfos true) := by
  have hids : (am.fileEntries.map Prod.fst).Nodup := by
    rw [fileEntries, List.map_append, List.nodup_append']
    refine ⟨nodup_entriesOf am _, nodup_entriesOf am _, ?_⟩
    intro id hnew htried
    obtain ⟨e, he, rfl⟩ := List.mem_map.mp hnew
    obtain ⟨e', he', hid⟩ := List.mem_map.mp htried
    obtain ⟨hinfo, hkind⟩ := hn.mem_entriesOf.mp he
    obtain ⟨hinfo', hkind'⟩ := hn.mem_entriesOf.mp he'
    rw [hid, hinfo, Option.some.injEq] at hinfo'
    rw [← hinfo', hkind] at hkind'
    cases hkind'
  rw [fileInfos, fileInfos, ← List.map_append]
  refine List.pairwise_map.mpr ((List.pairwise_map.mp hids).imp_of_mem fun {e e'} he he' hne hip => hne ?_)
  have hinfo {e : Nat × CAddrInfo} (he : e ∈ am.fileEntries) : am.mapInfo e.1 = some e.2 := by
    rcases List.mem_append.mp he with he | he
    · exact (hn.mem_entriesOf.mp he).1
    · exact (hn.mem_entriesOf.mp he).1
  exact hc.ip_inj (hinfo he) (hinfo he') hip

theorem Checked.triedBucket_eq (hc : am.Checked) (hin : am.InBuckets env) {b : TriedBucket}
    (hid : am.mapInfo id = some info) (hb : id ∈ am.vvTried b) :
    info.fInTried = true ∧ getTriedBucket env info.service = b := by
  obtain ⟨info', hid', htried⟩ := (hc.tried_iff id).mp (List.mem_flatMap.mpr ⟨b, List.mem_finRange b, hb⟩)
  rw [hid, Option.some.injEq] at hid'
  subst hid'
  refine ⟨htried, by_contra fun hne => ?_⟩
  have hsymm : Std.Symm (Function.onFun List.Disjoint am.vvTried) := ⟨fun _ _ h => h.symm⟩
  have hpair := (List.nodup_flatMap.mp hc.tried_nodup).2
  exact hpair.forall (List.mem_finRange _) (List.mem_finRange _) hne (hin hid htried) hb

theorem countP_fileInfos_le (hn : am.Numbered) (hin : am.InBuckets env) (b : TriedBucket) :
    (am.fileInfos true).countP (fun info => getTriedBucket env info.service = b) ≤ (am.vvTried b).length := by
  rw [fileInfos, List.countP_map, List.countP_eq_length_filter, ← List.length_map Prod.fst]
  refine (List.subperm_of_subset ((nodup_entriesOf am true).sublist (List.filter_sublist.map _)) ?_).length_le
  intro id hid
  obtain ⟨e, he, rfl⟩ := List.mem_map.mp hid
  obtain ⟨he, hb⟩ := List.mem_filter.mp he
  obtain ⟨hinfo, htried⟩ := hn.mem_entriesOf.mp he
  rw [← show getTriedBucket env e.2.stored.service = b from of_decide_eq_true hb]
  show e.1 ∈ am.vvTried (getTriedBucket env e.2.service)
  exact hin hinfo htried

/-- The entries have new numbers, and nothing else that is in the file has changed. -/
structure Renumbered (am am' : CAddrMan) : Prop where
  mapInfo : ∀ n, am'.mapInfo n = (am.fileEntries[n]?).map fun e => { e.2 with nLastTry := 0, nRandomPos := n }
  mapAddr : ∀ {n e}, am.fileEntries[n]? = some e → am'.mapAddr e.2.service.ip = some n
  vRandom : am'.vRandom = List.range am.fileEntries.length
  nIdCount : am'.nIdCount = am.fileEntries.length
  nNew : am'.nNew = am.nNew
  nTried : am'.nTried = am.nTried
  vvNew : ∀ {b n}, n ∈ am'.vvNew b ↔ ∃ e, am.fileEntries[n]? = some e ∧ e.1 ∈ am.vvNew b
  vvTried : ∀ {b n}, n ∈ am'.vvTried b ↔ ∃ e, am.fileEntries[n]? = some e ∧ e.1 ∈ am.vvTried b
  nodup : ∀ b, (am'.vvTried b).Nodup

theorem mem_fileEntries (hn : am.Numbered) :
    e ∈ am.fileEntries ↔ am.mapInfo e.1 = some e.2 := by
  rw [fileEntries, List.mem_append, hn.mem_entriesOf, hn.mem_entriesOf, ← and_or_left]
  exact and_iff_left (Bool.eq_false_or_eq_true e.2.fInTried).symm

theorem getElem?_fileEntries_new (hn : am.Numbered) (h : am.fileEntries[n]? = some e) :
    e.2.fInTried = decide ((am.entriesOf false).length ≤ n) := by
  rcases lt_or_ge n (am.entriesOf false).length with hlt | hge
  · rw [fileEntries, List.getElem?_append_left hlt] at h
    rw [decide_eq_false (not_le.mpr hlt)]
    exact (hn.mem_entriesOf.mp (List.mem_of_getElem? h)).2
  · rw [fileEntries, List.getElem?_append_right hge] at h
    rw [decide_eq_true hge]
    exact (hn.mem_entriesOf.mp (List.mem_of_getElem? h)).2

theorem mem_fileRefs (hn : am.Numbered) (hc : am.Checked) :
    (b, n) ∈ am.fileRefs ↔ ∃ e, am.fileEntries[n]? = some e ∧ e.1 ∈ am.vvNew b := by
  rw [fileRefs, List.mem_flatMap]
  constructor
  · rintro ⟨b', -, hmem⟩
    obtain ⟨id, hid, heq⟩ := List.mem_map.mp hmem
    obtain ⟨rfl, rfl⟩ := Prod.mk.inj heq
    rw [Finset.mem_sort] at hid
    obtain ⟨k, info, hk, hindex⟩ := exists_fileIndex hn hc hid
    refine ⟨(id, info), ?_, hid⟩
    rw [hindex, Int.toNat_natCast, fileEntries, List.getElem?_append_left (List.getElem?_eq_some_iff.mp hk).1]
    exact hk
  · rintro ⟨⟨id, info⟩, he, hid⟩
    refine ⟨b, List.mem_finRange b, List.mem_map.mpr ⟨id, (Finset.mem_sort _).mpr hid, ?_⟩⟩
    have hkind := getElem?_fileEntries_new hn he
    have hinfo := (mem_fileEntries hn).mp (List.mem_of_getElem? he)
    obtain ⟨info', hinfo', hnew⟩ := hc.of_new hid
    rw [hinfo, Option.some.injEq] at hinfo'
    rw [hinfo', hnew, eq_comm, decide_eq_false_iff_not, not_le] at hkind
    rw [fileEntries, List.getElem?_append_left hkind] at he
    rw [(writeNewEntries_entries hn hc).2 n _ he]
    rfl

theorem nodup_fileRefs (hn : am.Numbered) (hc : am.Checked) : am.fileRefs.Nodup := by
  rw [fileRefs, List.nodup_flatMap]
  constructor
  · refine fun b _ => (Finset.sort_nodup _ _).map_on fun id hid id' hid' heq => ?_
    obtain ⟨k, info, hk, hindex⟩ := exists_fileIndex hn hc ((Finset.mem_sort _).mp hid)
    obtain ⟨k', info', hk', hindex'⟩ := exists_fileIndex hn hc ((Finset.mem_sort _).mp hid')
    have hsame := (Prod.mk.inj heq).2
    rw [hindex, hindex', Int.toNat_natCast, Int.toNat_natCast] at hsame
    rw [hsame, hk'] at hk
    exact (Prod.mk.inj (Option.some.inj hk)).1.symm
  · refine (List.nodup_finRange _).imp fun {b b'} hne r hr hr' => hne ?_
    obtain ⟨id, -, rfl⟩ := List.mem_map.mp hr
    obtain ⟨id', -, heq⟩ := List.mem_map.mp hr'
    exact (Prod.mk.inj heq).1.symm

theorem countP_fileRefs (hn : am.Numbered) (hc : am.Checked) (he : am.fileEntries[n]? = some e) :
    ((am.fileRefs.countP fun r => r.2 = n : Nat) : Int) = e.2.nRefCount := by
  have hmem (b : NewBucket) : e.1 ∈ am.vvNew b ↔ (b, n) ∈ am.fileRefs := by
    rw [mem_fileRefs hn hc, he]
    exact ⟨fun h => ⟨e, rfl, h⟩, fun ⟨_, heq, h⟩ => Option.some.inj heq ▸ h⟩
  have hinfo := (mem_fileEntries hn).mp (List.mem_of_getElem? he)
  cases hkind : e.2.fInTried with
  | false =>
    rw [hc.refs hinfo hkind]
    refine congrArg Nat.cast (countP_refs (nodup_fileRefs hn hc) fun b => ?_)
    rw [mem_newBuckets, hmem]
  | true =>
    rw [((hc.info hinfo).tried hkind).2, List.countP_eq_zero.mpr]
    · rfl
    rintro ⟨b, n'⟩ hr heq
    obtain rfl := of_decide_eq_true heq
    obtain ⟨info, hinfo', hnew⟩ := hc.of_new ((hmem b).mpr hr)
    rw [hinfo, Option.some.injEq] at hinfo'
    rw [← hinfo', hkind] at hnew
    cases hnew

theorem fileInfos_getElem? (am : CAddrMan) (n : Nat) :
    (am.fileInfos false ++ am.fileInfos true)[n]? = (am.fileEntries[n]?).map fun e => e.2.stored := by
  rw [fileInfos, fileInfos, ← List.map_append, List.getElem?_map]
  rfl

theorem length_fileInfos (am : CAddrMan) :
    (am.fileInfos false ++ am.fileInfos true).length = am.fileEntries.length := by
  rw [fileInfos, fileInfos, ← List.map_append, List.length_map]
  rfl

theorem afterNew_spec (hn : am.Numbered) (hc : am.Checked) :
    TriedLoaded env (am.fileInfos false) [] (afterNew env am) ∧ (∀ b, (afterNew env am).vvNew b = ∅) ∧
      (afterNew env am).nNew = am.nNew ∧ (afterNew env am).nTried = am.nTried := by
  have hnew := length_new hn hc
  have hlen : (am.fileInfos false).length = (am.entriesOf false).length := by rw [fileInfos, List.length_map]
  have hkind : ∀ info ∈ am.fileInfos false, info.fInTried = false := by
    intro info hmem
    obtain ⟨e, -, rfl⟩ := List.mem_map.mp hmem
    rfl
  obtain ⟨hloaded, hvvTried, hvvNew, hnNew, hnTried⟩ := @loadNew_spec env { nNew := am.nNew, nTried := am.nTried }
    (am.fileInfos false).length ⟨fun n => rfl, (fun h => by cases h), rfl⟩ _
    (List.pairwise_append.mp (apart_file hn hc)).1 hkind le_rfl
  have htried (b : TriedBucket) : (afterNew env am).vvTried b = [] := congrFun hvvTried b
  refine ⟨?_, fun b => congrFun hvvNew b, hnNew, hnTried⟩
  constructor
  case loaded =>
    rw [List.append_nil]
    exact ⟨hloaded.mapInfo, hloaded.mapAddr, hloaded.vRandom⟩
  case nIdCount =>
    rw [List.append_nil]
    show am.nNew.toNat = _
    omega
  case tried =>
    intro b n
    rw [List.append_nil, htried]
    refine iff_of_false List.not_mem_nil ?_
    rintro ⟨hge, info, hinfo, -⟩
    rw [List.getElem?_eq_none hge] at hinfo
    cases hinfo
  case nodup =>
    intro b
    rw [htried]
    exact List.nodup_nil
  case length =>
    intro b
    rw [htried]
    rfl

theorem countP_fileRefs_le (hn : am.Numbered) (hc : am.Checked) (n : Nat) :
    ((am.fileRefs.countP fun r => r.2 = n : Nat) : Int) ≤ addrmanNewBucketsPerAddress := by
  cases he : am.fileEntries[n]? with
  | none =>
    rw [List.countP_eq_zero.mpr]
    · decide
    rintro ⟨b, n'⟩ hr heq
    obtain ⟨e, he', -⟩ := (mem_fileRefs hn hc).mp hr
    rw [show n' = n from of_decide_eq_true heq, he] at he'
    cases he'
  | some e =>
    rw [countP_fileRefs hn hc he]
    have hchecked := hc.info ((mem_fileEntries hn).mp (List.mem_of_getElem? he))
    cases hkind : e.2.fInTried with
    | true =>
      rw [(hchecked.tried hkind).2]
      decide
    | false => exact (hchecked.new hkind).2

section

variable (hn : am.Numbered) (hc : am.Checked) (hin : am.InBuckets env)
  (hsize : ∀ b, (am.vvTried b).length ≤ addrmanTriedBucketSize)

include hn hc hin hsize

theorem afterTried_spec :
    TriedLoaded env (am.fileInfos false) (am.fileInfos true) (afterTried env am).1 ∧ (afterTried env am).2 = 0 ∧
      (∀ b, (afterTried env am).1.vvNew b = ∅) ∧ (afterTried env am).1.nNew = am.nNew ∧
      (afterTried env am).1.nTried = am.nTried := by
  obtain ⟨hstart, hvvNew, hnNew, hnTried⟩ := @afterNew_spec env am hn hc
  obtain ⟨ht, hlost, hvvNew', hnNew', hnTried'⟩ := loadTried_spec hstart (apart_file hn hc)
    fun b => (countP_fileInfos_le hn hin b).trans (hsize b)
  exact ⟨ht, hlost, fun b => (congrFun hvvNew' b).trans (hvvNew b), hnNew'.trans hnNew, hnTried'.trans hnTried⟩

theorem mapInfo_afterTried (n : Nat) : (afterTried env am).1.mapInfo n =
    (am.fileEntries[n]?).map fun e => { e.2 with nLastTry := 0, nRefCount := 0, nRandomPos := n } := by
  obtain ⟨ht, -⟩ := afterTried_spec hn hc hin hsize
  rw [ht.loaded.mapInfo, fileInfos_getElem?, Option.map_map]
  refine Option.map_congr fun e he => ?_
  show ({ e.2.stored with nRandomPos := n, fInTried := _ } : CAddrInfo) = _
  rw [fileInfos, List.length_map, ← getElem?_fileEntries_new hn he]
  rfl

theorem mem_vvTried_afterTried {b : TriedBucket} : n ∈ (afterTried env am).1.vvTried b ↔
    ∃ e, am.fileEntries[n]? = some e ∧ e.1 ∈ am.vvTried b := by
  obtain ⟨ht, -⟩ := afterTried_spec hn hc hin hsize
  refine ht.tried.trans ?_
  rw [fileInfos_getElem?, fileInfos, List.length_map]
  constructor
  · rintro ⟨hge, info, hinfo, rfl⟩
    obtain ⟨e, he, rfl⟩ := Option.map_eq_some_iff.mp hinfo
    have hkind := getElem?_fileEntries_new hn he
    rw [decide_eq_true hge] at hkind
    have hmem : e.1 ∈ am.vvTried (getTriedBucket env e.2.service) :=
      hin ((mem_fileEntries hn).mp (List.mem_of_getElem? he)) hkind
    exact ⟨e, he, hmem⟩
  · rintro ⟨e, he, hb⟩
    obtain ⟨hkind, hbucket⟩ := hc.triedBucket_eq hin ((mem_fileEntries hn).mp (List.mem_of_getElem? he)) hb
    rw [getElem?_fileEntries_new hn he, decide_eq_true_eq] at hkind
    exact ⟨hkind, e.2.stored, by rw [he]; rfl, hbucket⟩

theorem refsLoaded_reloaded : RefsLoaded { (afterTried env am).1 with
    nTried := (afterTried env am).1.nTried - (afterTried env am).2 } am.fileRefs (reloaded env am) := by
  obtain ⟨-, -, hvvNew, -⟩ := afterTried_spec hn hc hin hsize
  have hinfo := mapInfo_afterTried hn hc hin hsize
  apply loadRefs_spec
  case h₀ =>
    refine ⟨fun n => ?_, fun {b n} => iff_of_false ?_ List.not_mem_nil, rfl⟩
    · dsimp only
      rw [hinfo, Option.map_map]
      rfl
    · dsimp only
      rw [hvvNew]
      exact Finset.notMem_empty n
  case hmem =>
    rintro ⟨b, n⟩ hr
    obtain ⟨e, he, -⟩ := (mem_fileRefs hn hc).mp hr
    exact ⟨_, by dsimp only; rw [hinfo, he]; rfl⟩
  case hcount => exact countP_fileRefs_le hn hc

/-- **The manager that is read**, where no "tried" bucket is overfull. -/
theorem renumbered_reloaded : am.Renumbered (reloaded env am) := by
  obtain ⟨ht, hlost, -, hnNew, hnTried⟩ := afterTried_spec hn hc hin hsize
  have hrefs := refsLoaded_reloaded hn hc hin hsize
  have hsame := hrefs.same
  constructor
  case mapInfo =>
    intro n
    rw [hrefs.mapInfo]
    dsimp only
    rw [mapInfo_afterTried hn hc hin hsize, Option.map_map]
    refine Option.map_congr fun e he => ?_
    show ({ e.2 with nLastTry := 0, nRefCount := _, nRandomPos := n } : CAddrInfo) = _
    rw [countP_fileRefs hn hc he]
  case mapAddr =>
    intro n e he
    rw [hsame]
    have hstored : (am.fileInfos false ++ am.fileInfos true)[n]? = some e.2.stored := by
      rw [fileInfos_getElem?, he]
      rfl
    show (afterTried env am).1.mapAddr e.2.stored.service.ip = some n
    exact ht.loaded.mapAddr hstored
  case vRandom =>
    rw [hsame]
    exact ht.loaded.vRandom.trans (congrArg List.range am.length_fileInfos)
  case nIdCount =>
    rw [hsame]
    exact ht.nIdCount.trans am.length_fileInfos
  case nNew =>
    rw [hsame]
    exact hnNew
  case nTried =>
    rw [hsame]
    dsimp only
    rw [hlost, hnTried, sub_zero]
  case vvNew => exact hrefs.vvNew.trans (mem_fileRefs hn hc)
  case vvTried =>
    intro b n
    rw [hsame]
    exact mem_vvTried_afterTried hn hc hin hsize
  case nodup =>
    intro b
    rw [hsame]
    exact ht.nodup b

end

namespace Renumbered

variable {am' : CAddrMan}

section

variable (h : am.Renumbered am')

include h

theorem numbered : am'.Numbered := by
  intro n info hinfo
  rw [h.mapInfo] at hinfo
  obtain ⟨e, he, -⟩ := Option.map_eq_some_iff.mp hinfo
  rw [h.nIdCount]
  exact (List.getElem?_eq_some_iff.mp he).1

theorem mapInfo_of (he : am.fileEntries[n]? = some e) :
    am'.mapInfo n = some { e.2 with nLastTry := 0, nRandomPos := n } := by
  rw [h.mapInfo, he]
  rfl

theorem kind_iff (hn : am.Numbered) {fInTried : Bool} :
    (∃ info, am'.mapInfo n = some info ∧ info.fInTried = fInTried) ↔
      n < am.fileEntries.length ∧ decide ((am.entriesOf false).length ≤ n) = fInTried := by
  constructor
  · rintro ⟨info, hinfo, rfl⟩
    rw [h.mapInfo] at hinfo
    obtain ⟨e, he, rfl⟩ := Option.map_eq_some_iff.mp hinfo
    exact ⟨(List.getElem?_eq_some_iff.mp he).1, (getElem?_fileEntries_new hn he).symm⟩
  · rintro ⟨hlt, hkind⟩
    have he := List.getElem?_eq_getElem hlt
    exact ⟨_, h.mapInfo_of he, (getElem?_fileEntries_new hn he).trans hkind⟩

theorem newBuckets_eq (he : am.fileEntries[n]? = some e) :
    newBuckets am'.vvNew n = newBuckets am.vvNew e.1 := by
  ext b
  rw [mem_newBuckets, mem_newBuckets, h.vvNew, he]
  exact ⟨fun ⟨_, heq, hb⟩ => Option.some.inj heq ▸ hb, fun hb => ⟨e, rfl, hb⟩⟩

theorem checked (hn : am.Numbered) (hc : am.Checked) (hin : am.InBuckets env) :
    am'.Checked := by
  have hlen : am.fileEntries.length = (am.entriesOf false).length + (am.entriesOf true).length := List.length_append
  have hnew := length_new hn hc
  have htried := length_tried hn hc
  have hinfo {n : Nat} {info : CAddrInfo} (hid : am'.mapInfo n = some info) :
      ∃ e, am.fileEntries[n]? = some e ∧ am.mapInfo e.1 = some e.2 ∧
        info = { e.2 with nLastTry := 0, nRandomPos := n } := by
    rw [h.mapInfo] at hid
    obtain ⟨e, he, rfl⟩ := Option.map_eq_some_iff.mp hid
    exact ⟨e, he, (mem_fileEntries hn).mp (List.mem_of_getElem? he), rfl⟩
  constructor
  case size =>
    rw [h.vRandom, List.length_range, h.nNew, h.nTried]
    omega
  case info =>
    intro n info hid
    obtain ⟨e, he, hold, rfl⟩ := hinfo hid
    have hchecked := hc.info hold
    constructor
    case tried => exact hchecked.tried
    case new => exact hchecked.new
    case addr =>
      dsimp only
      rw [h.mapAddr he, Option.getD_some]
    case random =>
      refine ⟨Int.natCast_nonneg n, ?_⟩
      rw [h.vRandom, Int.toNat_natCast, List.getElem?_range (List.getElem?_eq_some_iff.mp he).1]
    case nLastTry => exact le_rfl
    case nLastSuccess => exact hchecked.nLastSuccess
  case nTried_eq =>
    have hset : am'.idsOf true = Finset.Ico (am.entriesOf false).length am.fileEntries.length := by
      ext n
      rw [h.numbered.mem_idsOf, h.kind_iff hn, decide_eq_true_eq, Finset.mem_Ico, and_comm]
    rw [hset, Nat.card_Ico, h.nTried]
    omega
  case nNew_eq =>
    have hset : am'.idsOf false = Finset.range (am.entriesOf false).length := by
      ext n
      rw [h.numbered.mem_idsOf, h.kind_iff hn, decide_eq_false_iff_not, Finset.mem_range]
      omega
    rw [hset, Finset.card_range, h.nNew]
    omega
  case tried_nodup =>
    rw [triedList, List.nodup_flatMap]
    refine ⟨fun b _ => h.nodup b, (List.nodup_finRange _).imp fun {b b'} hne n hb hb' => hne ?_⟩
    obtain ⟨e, he, hmem⟩ := h.vvTried.mp hb
    obtain ⟨e', he', hmem'⟩ := h.vvTried.mp hb'
    rw [he, Option.some.injEq] at he'
    subst he'
    have hold := (mem_fileEntries hn).mp (List.mem_of_getElem? he)
    rw [← (hc.triedBucket_eq hin hold hmem).2, ← (hc.triedBucket_eq hin hold hmem').2]
  case tried_iff =>
    intro n
    rw [triedList, List.mem_flatMap]
    constructor
    · rintro ⟨b, -, hb⟩
      obtain ⟨e, he, hmem⟩ := h.vvTried.mp hb
      have hold := (mem_fileEntries hn).mp (List.mem_of_getElem? he)
      exact ⟨_, h.mapInfo_of he, (hc.triedBucket_eq hin hold hmem).1⟩
    · rintro ⟨info, hid, hkind⟩
      obtain ⟨e, he, hold, rfl⟩ := hinfo hid
      have hmem : e.1 ∈ am.vvTried (getTriedBucket env e.2.service) := hin hold hkind
      exact ⟨_, List.mem_finRange _, h.vvTried.mpr ⟨e, he, hmem⟩⟩
  case refs =>
    intro n info hid hkind
    obtain ⟨e, he, hold, rfl⟩ := hinfo hid
    rw [h.newBuckets_eq he]
    show e.2.nRefCount = _
    exact hc.refs hold hkind
  case of_new =>
    intro b n hb
    obtain ⟨e, he, hmem⟩ := h.vvNew.mp hb
    obtain ⟨info, hold, hkind⟩ := hc.of_new hmem
    rw [(mem_fileEntries hn).mp (List.mem_of_getElem? he), Option.some.injEq] at hold
    subst hold
    exact ⟨_, h.mapInfo_of he, hkind⟩

theorem storedOf_eq (hn : am.Numbered) {P P' : Nat → CAddrInfo → Prop}
    (hP : ∀ {n e}, am.fileEntries[n]? = some e → (P' n { e.2 with nLastTry := 0, nRandomPos := n } ↔ P e.1 e.2)) :
    am'.storedOf P' = am.storedOf P := by
  ext i
  constructor
  · rintro ⟨n, info, hid, hP', rfl⟩
    rw [h.mapInfo] at hid
    obtain ⟨e, he, rfl⟩ := Option.map_eq_some_iff.mp hid
    exact ⟨e.1, e.2, (mem_fileEntries hn).mp (List.mem_of_getElem? he), (hP he).mp hP', rfl⟩
  · rintro ⟨id, info, hid, hP', rfl⟩
    obtain ⟨n, he⟩ := List.mem_iff_getElem?.mp ((mem_fileEntries (e := (id, info)) hn).mpr hid)
    exact ⟨n, _, h.mapInfo_of he, (hP he).mpr hP', rfl⟩

theorem restores (hn : am.Numbered) : am.Restores am' where
  nNew := h.nNew
  nTried := h.nTried
  new := h.storedOf_eq hn fun _ => Iff.rfl
  tried := h.storedOf_eq hn fun _ => Iff.rfl
  newBucket b := h.storedOf_eq hn fun he => by
    rw [h.vvNew, he]
    exact ⟨fun ⟨_, heq, hb⟩ => Option.some.inj heq ▸ hb, fun hb => ⟨_, rfl, hb⟩⟩
  triedBucket b := h.storedOf_eq hn fun he => by
    rw [h.vvTried, he]
    exact ⟨fun ⟨_, heq, hb⟩ => Option.some.inj heq ▸ hb, fun hb => ⟨_, rfl, hb⟩⟩

end

end Renumbered

/-- **The peers are read back**, with the key, where no "tried" bucket is overfull. -/
theorem unserialize_serialize (hkey : env.nKey.length ≤ maxSize) (hfits : am.Fits) (hcheck : am.check_ = .ok ())
    (hin : am.InBuckets env) (hsize : ∀ b, (am.vvTried b).length ≤ addrmanTriedBucketSize) (nKey : List UInt8) :
    ∃ am', Reads (unserialize { env with nKey := nKey }) (serialize env.nKey am) (env.nKey, am') ∧
      am.Restores am' ∧ am'.check_ = .ok () := by
  have hc := (check_eq_ok_iff hfits.numbered).mp hcheck
  have hnumbers := renumbered_reloaded hfits.numbered hc hin hsize
  exact ⟨_, reads_serialize hkey hfits hc nKey, hnumbers.restores hfits.numbered,
    (check_eq_ok_iff hnumbers.numbered).mpr (hnumbers.checked hfits.numbered hc hin)⟩

/-! ### A "tried" bucket that is overfull -/

theorem vvTried_loadRefs (am : CAddrMan) (refs : List (NewBucket × Nat)) :
    (loadRefs am refs).vvTried = am.vvTried := by
  refine Loop.foldl_inv (fun _ am' => CAddrMan.vvTried am' = am.vvTried) rfl fun done r rest am' _ h => ?_
  unfold addReference
  dsimp only
  split_ifs
  · exact h
  · exact h

theorem length_loadTried_le (h : ∀ b, (am.vvTried b).length ≤ addrmanTriedBucketSize) (trieds : List CAddrInfo) :
    ∀ b, ((loadTried env am trieds).1.vvTried b).length ≤ addrmanTriedBucketSize := by
  refine Loop.foldl_inv (fun _ (s : CAddrMan × Int) => ∀ b, (s.1.vvTried b).length ≤ addrmanTriedBucketSize) h ?_
  intro done info rest s _ hs b
  unfold addTriedEntry
  dsimp only
  split_ifs with hroom
  · dsimp only
    by_cases hb : b = getTriedBucket env info.service
    · subst hb
      rw [update_self, List.length_append]
      exact hroom
    · rw [update_of_ne hb]
      exact hs b
  · exact hs b

/-- Where everything is restored, no bucket was overfull. -/
theorem length_le_of_restores (hn : am.Numbered) (hc : am.Checked) (h : am.Restores (reloaded env am))
    (b : TriedBucket) : (am.vvTried b).length ≤ addrmanTriedBucketSize := by
  have hroom : ((reloaded env am).vvTried b).length ≤ addrmanTriedBucketSize := by
    rw [reloaded, vvTried_loadRefs]
    refine length_loadTried_le (fun b => ?_) _ b
    have hstart := (@afterNew_spec env am hn hc).1.length b
    rw [hstart]
    exact Nat.zero_le _
  refine le_trans ?_ hroom
  have hnodup : (am.vvTried b).Nodup := (List.nodup_flatMap.mp hc.tried_nodup).1 b (List.mem_finRange b)
  -- the entries of the bucket, as they are stored, are as many as before
  have hfound : ∀ id ∈ am.vvTried b, ∃ n ∈ (reloaded env am).vvTried b, ∃ info info',
      am.mapInfo id = some info ∧
      (reloaded env am).mapInfo n = some info' ∧ info'.stored = info.stored := by
    intro id hid
    obtain ⟨info, hinfo, -⟩ := (hc.tried_iff id).mp (List.mem_flatMap.mpr ⟨b, List.mem_finRange b, hid⟩)
    have hmem : info.stored ∈ (reloaded env am).storedOf fun id _ => id ∈ (reloaded env am).vvTried b := by
      rw [h.triedBucket b]
      exact ⟨id, info, hinfo, hid, rfl⟩
    obtain ⟨n, info', hinfo', hn', heq⟩ := hmem
    exact ⟨n, hn', info, info', hinfo, hinfo', heq⟩
  choose! place hplace using hfound
  have hinj : ∀ id ∈ am.vvTried b, ∀ id' ∈ am.vvTried b, place id = place id' → id = id' := by
    intro id hid id' hid' heq
    obtain ⟨-, info, info', hinfo, hread, hstored⟩ := hplace id hid
    obtain ⟨-, info₁, info₁', hinfo₁, hread₁, hstored₁⟩ := hplace id' hid'
    rw [heq, hread₁, Option.some.injEq] at hread
    rw [← hread, hstored₁] at hstored
    have hip : info₁.stored.service.ip = info.stored.service.ip := by rw [hstored]
    exact (hc.ip_inj hinfo₁ hinfo hip).symm
  rw [← List.length_map place]
  refine (List.subperm_of_subset (hnodup.map_on hinj) fun n hmem => ?_).length_le
  obtain ⟨id, hid, rfl⟩ := List.mem_map.mp hmem
  exact (hplace id hid).1

/-- A manager with so many "tried" entries in one bucket, and a "new" one behind them. -/
def crowdedAddrMan (n : Nat) : CAddrMan where
  nIdCount := n + 1
  mapInfo id := if id < n + 1 then some {
    service := ⟨fullIp id, 8333⟩
    source := fullIp 0
    nLastSuccess := 20
    nRefCount := if id = n then 1 else 0
    fInTried := id < n
    nRandomPos := id } else none
  mapAddr addr := (List.range (n + 1)).find? fun id => fullIp id = addr
  vRandom := List.range (n + 1)
  nTried := n
  vvTried b := if b = 10 then List.range n else []
  nNew := 1
  vvNew b := if b = 0 then {n} else ∅

theorem fits_crowdedAddrMan (hn : n < 100) : (crowdedAddrMan n).Fits := by
  constructor
  case numbered =>
    intro id info h
    exact (Option.ite_none_right_eq_some.mp h).1
  case nIdCount =>
    show ((n + 1 : Nat) : Int) < 256 ^ 4 / 2
    omega
  case info =>
    intro id info h
    obtain ⟨-, hinfo⟩ := Option.ite_none_right_eq_some.mp h
    obtain rfl := Option.some.inj hinfo
    constructor
    case ip => rfl
    case port => exact show 8333 < 256 ^ 2 by decide
    case nServices => exact show 1 < 256 ^ 8 by decide
    case nTime => exact show 100000000 < 256 ^ 4 by decide
    case source => rfl
    case nLastSuccess => exact show FitsInt 8 20 by decide
    case nAttempts => exact show FitsInt 4 0 by decide

theorem inBuckets_crowdedAddrMan (n : Nat) : (crowdedAddrMan n).InBuckets sampleAddrEnv := by
  intro id info h htried
  obtain ⟨-, hinfo⟩ := Option.ite_none_right_eq_some.mp h
  obtain rfl := Option.some.inj hinfo
  have hbucket : getTriedBucket sampleAddrEnv ⟨fullIp id, 8333⟩ = 10 := rfl
  show id ∈ if getTriedBucket sampleAddrEnv ⟨fullIp id, 8333⟩ = 10 then List.range n else []
  rw [hbucket, if_pos rfl, List.mem_range]
  exact of_decide_eq_true htried

/-- Two entries in the one bucket. -/
theorem unserialize_serialize_two : (crowdedAddrMan 2).check_ = .ok () ∧
    ∃ am', Reads (unserialize { sampleAddrEnv with nKey := [7] }) (serialize sampleAddrEnv.nKey (crowdedAddrMan 2))
        (sampleAddrEnv.nKey, am') ∧ (crowdedAddrMan 2).Restores am' ∧ am'.check_ = .ok () := by
  have hcheck : (crowdedAddrMan 2).check_ = .ok () := by decide +kernel
  refine ⟨hcheck, unserialize_serialize (by decide) (fits_crowdedAddrMan (by decide)) hcheck
    (inBuckets_crowdedAddrMan 2) (fun b => ?_) [7]⟩
  show (if b = 10 then List.range 2 else []).length ≤ addrmanTriedBucketSize
  split_ifs <;> decide

/-- One of 65 entries in a bucket gets lost. -/
theorem unserialize_loses : (crowdedAddrMan 65).Fits ∧ (crowdedAddrMan 65).check_ = .ok () ∧
    (crowdedAddrMan 65).InBuckets sampleAddrEnv ∧
    ¬ ∃ am', Reads (unserialize sampleAddrEnv) (serialize sampleAddrEnv.nKey (crowdedAddrMan 65))
        (sampleAddrEnv.nKey, am') ∧ (crowdedAddrMan 65).Restores am' := by
  have hfits := fits_crowdedAddrMan (n := 65) (by decide)
  have hcheck : (crowdedAddrMan 65).check_ = .ok () := by decide +kernel
  refine ⟨hfits, hcheck, inBuckets_crowdedAddrMan 65, ?_⟩
  rintro ⟨am', hread, hrestores⟩
  have hc := (check_eq_ok_iff hfits.numbered).mp hcheck
  have hkey : ({ sampleAddrEnv with nKey := sampleAddrEnv.nKey } : AddrManEnv) = sampleAddrEnv := rfl
  have hsame := (@reads_serialize sampleAddrEnv _ (by decide) hfits hc sampleAddrEnv.nKey).run
  rw [hkey, hread.run] at hsame
  obtain rfl := (Prod.mk.inj (Prod.mk.inj (Option.some.inj hsame)).1).2
  exact absurd (length_le_of_restores hfits.numbered hc hrestores 10) (by decide)

end CAddrMan

end Sphinx
