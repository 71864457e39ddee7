import Sphinx.Equiv.AddrManCheck

/-!
# Which entry is evicted

The rounds of `SelectTried` are a partial shuffle of the bucket: the inspected entries are the drawn ones, and
they end up at its front.  The position that is kept is the one from which the first of the oldest was drawn,
and the exchange of the same round has moved it away from there.

* `selectTried_eq`: the bucket afterwards, and the position, in terms of the shuffle;
* `makeTried_evicts`: `MakeTried` moves back whatever stands at that position;
* `selectTried_stalest_iff`: this is one of the oldest inspected entries exactly when the position is itself
  one of the inspected ones and its round has drawn an entry that is as old.
-/

namespace Sphinx

open PartialShuffle

namespace CAddrMan

variable {k : TriedBucket}

/-- `mapInfo[nId].nLastSuccess`. -/
def lastSuccess (am : CAddrMan) (id : Nat) : Int := (am.mapInfo id).elim 0 CAddrInfo.nLastSuccess

/-- The position that round `i` draws, in a bucket of `n` entries. -/
def drawPos (rnd : Nat → Nat) (n i : Nat) : Nat := getRandInt (rnd i) (n - i) + i

/-- The number of entries that are inspected. -/
def inspected (n : Nat) : Nat := min addrmanTriedEntriesInspectOnEvict n

theorem inspected_le (n : Nat) : inspected n ≤ n := min_le_right ..

theorem chooses_drawPos (rnd : Nat → Nat) (n : Nat) : Chooses (drawPos rnd n) n := by
  intro i hi
  have hmod := Nat.mod_lt (rnd i) (show 0 < n - i by omega)
  rw [drawPos, getRandInt, if_neg (by omega)]
  omega

section Select

variable {am : CAddrMan} {bucket : List Nat} {rnd : Nat → Nat}

/-- How old the entry is that round `i` draws. -/
def drawnAge (am : CAddrMan) (bucket : List Nat) (rnd : Nat → Nat) (i : Nat) : Int :=
  am.lastSuccess (drawn 0 (drawPos rnd bucket.length) bucket i)

/-- The state of the loop after `j` rounds. -/
structure RoundsDone (am : CAddrMan) (bucket : List Nat) (rnd : Nat → Nat) (j : Nat)
    (st : List Nat × Option (Nat × Nat)) : Prop where
  vTried : st.1 = shuffled 0 (drawPos rnd bucket.length) bucket j
  none : j = 0 → st.2 = none
  some : 0 < j → ∃ a, FirstMin (drawnAge am bucket rnd) j a ∧
    st.2 = some (drawn 0 (drawPos rnd bucket.length) bucket a, drawPos rnd bucket.length a)

theorem drawn_mem (rnd : Nat → Nat) {i : Nat} (hi : i < bucket.length) :
    drawn 0 (drawPos rnd bucket.length) bucket i ∈ bucket := by
  have hchoice := chooses_drawPos rnd bucket.length
  have hlen := length_shuffled (d := 0) hchoice hi.le
  rw [drawn, List.getD_eq_getElem _ 0 (by rw [hlen]; exact (hchoice i hi).2)]
  exact (shuffled_perm hchoice hi.le).mem_iff.mp (List.getElem_mem _)

theorem selectRound_done {j : Nat} {st : List Nat × Option (Nat × Nat)} (hj : j < bucket.length)
    (hinfo : ∀ id ∈ bucket, ∃ info, am.mapInfo id = some info) (h : RoundsDone am bucket rnd j st) :
    ∃ st', am.selectRound rnd st j = some st' ∧ RoundsDone am bucket rnd (j + 1) st' := by
  obtain ⟨vTried, oldest⟩ := st
  obtain rfl : vTried = _ := h.vTried
  have hlen := length_shuffled (d := 0) (chooses_drawPos rnd bucket.length) hj.le
  have hpos : getRandInt (rnd j) ((shuffled 0 (drawPos rnd bucket.length) bucket j).length - j) + j =
      drawPos rnd bucket.length j := by rw [hlen, drawPos]
  unfold selectRound
  dsimp only
  rw [hpos]
  obtain ⟨info, hmap⟩ := hinfo _ (drawn_mem rnd hj)
  have hage : info.nLastSuccess = drawnAge am bucket rnd j := by rw [drawnAge, lastSuccess, hmap]; rfl
  cases j with
  | zero =>
    obtain rfl : oldest = none := h.none rfl
    exact ⟨_, rfl, rfl, fun h0 => (by cases h0), fun _ => ⟨0, .one _, rfl⟩⟩
  | succ j =>
    obtain ⟨a, ha, rfl⟩ : ∃ a, _ ∧ oldest = _ := h.some (Nat.succ_pos j)
    rw [drawn] at hmap
    dsimp only
    rw [hmap, Option.bind_eq_bind, Option.bind_some, hage]
    have hstep := ha.step
    show ∃ st', (if drawnAge am bucket rnd (j + 1) < drawnAge am bucket rnd a then _ else _) = some st' ∧ _
    split_ifs at hstep ⊢ with hlt
    · exact ⟨_, rfl, rfl, fun h0 => (by cases h0), fun _ => ⟨j + 1, hstep, rfl⟩⟩
    · exact ⟨_, rfl, rfl, fun h0 => (by cases h0), fun _ => ⟨a, hstep, rfl⟩⟩

theorem foldlM_selectRound (rnd : Nat → Nat) (hinfo : ∀ id ∈ bucket, ∃ info, am.mapInfo id = some info) :
    ∀ {j : Nat}, j ≤ bucket.length → ∃ st,
      (List.range j).foldlM (am.selectRound rnd) (bucket, none) = some st ∧
      RoundsDone am bucket rnd j st := by
  intro j
  induction j with
  | zero => exact fun _ => ⟨_, rfl, rfl, fun _ => rfl, fun h => absurd h (Nat.lt_irrefl 0)⟩
  | succ j ih =>
    intro hle
    obtain ⟨st, hst, hdone⟩ := ih (Nat.le_of_succ_le hle)
    obtain ⟨st', hst', hdone'⟩ := selectRound_done hle hinfo hdone
    refine ⟨st', ?_, hdone'⟩
    rw [List.range_succ, List.foldlM_append, hst]
    simpa using hst'

/-- The bucket afterwards is the shuffled one, and the position is where the first of the oldest was drawn. -/
theorem selectTried_eq (rnd : Nat → Nat)
    (hinfo : ∀ id ∈ am.vvTried k, ∃ info, am.mapInfo id = some info) (hne : am.vvTried k ≠ []) :
    ∃ a, FirstMin (drawnAge am (am.vvTried k) rnd) (inspected (am.vvTried k).length) a ∧
      am.selectTried k rnd = some (shuffled 0 (drawPos rnd (am.vvTried k).length) (am.vvTried k)
        (inspected (am.vvTried k).length),
        some (drawn 0 (drawPos rnd (am.vvTried k).length) (am.vvTried k) a, drawPos rnd (am.vvTried k).length a)) := by
  have hlen : 0 < (am.vvTried k).length := List.length_pos_iff.mpr hne
  obtain ⟨⟨vTried, oldest⟩, hst, hdone⟩ := foldlM_selectRound rnd hinfo (min_le_right
    addrmanTriedEntriesInspectOnEvict (am.vvTried k).length)
  have hpos : 0 < min addrmanTriedEntriesInspectOnEvict (am.vvTried k).length :=
    lt_min (by decide) hlen
  obtain ⟨a, ha, holdest⟩ := hdone.some hpos
  refine ⟨a, ha, ?_⟩
  rw [selectTried]
  dsimp only at holdest ⊢
  rw [hst, holdest, show vTried = _ from hdone.vTried]
  rfl

theorem selectTried_congr {am' : CAddrMan} (hbucket : am'.vvTried k = am.vvTried k)
    (hmap : ∀ id, (am'.mapInfo id).map CAddrInfo.nLastSuccess = (am.mapInfo id).map CAddrInfo.nLastSuccess) :
    am'.selectTried k rnd = am.selectTried k rnd := by
  have hround : am'.selectRound rnd = am.selectRound rnd := by
    funext s i
    unfold selectRound
    dsimp only
    generalize getRandInt (rnd i) (s.1.length - i) + i = nPos
    generalize s.1.getD nPos 0 = nTemp
    cases s.2 with
    | none => rfl
    | some o =>
      have htemp := hmap nTemp
      have hold : (am'.mapInfo o.1).elim 0 CAddrInfo.nLastSuccess = (am.mapInfo o.1).elim 0 CAddrInfo.nLastSuccess := by
        have h := congrArg (fun s : Option Int => s.elim 0 id) (hmap o.1)
        rw [Option.elim_map, Option.elim_map] at h
        exact h
      dsimp only
      rw [hold]
      cases h1 : am'.mapInfo nTemp with
      | none =>
        rw [h1, Option.map_none] at htemp
        rw [Option.map_eq_none_iff.mp htemp.symm]
      | some info' =>
        rw [h1, Option.map_some] at htemp
        obtain ⟨info, h2, hsuccess⟩ := Option.map_eq_some_iff.mp htemp.symm
        simp only [h2, hsuccess, Option.bind_eq_bind, Option.bind_some]
  unfold selectTried
  rw [hround, hbucket]

/-! ### `MakeTried` -/

theorem mem_insertNew (am : CAddrMan) (b : NewBucket) (id : Nat) : id ∈ (am.insertNew b id).vvNew b := by
  show id ∈ Function.update am.vvNew b (insert id (am.vvNew b)) b
  rw [Function.update_self]
  exact Finset.mem_insert_self ..

/-- **What is moved back**: for a full bucket, the entry at the position that `SelectTried` returns becomes a "new" one,
and the entry that was tried takes its place. -/
theorem makeTried_evicts {env : AddrManEnv} {am' : CAddrMan} {id : Nat} {info : CAddrInfo}
    {nOrigin : NewBucket} (hid : am.mapInfo id = some info)
    (hk : CAddrInfo.getTriedBucket env info.service = k)
    (hfull : addrmanTriedBucketSize ≤ (am.vvTried k).length) (hout : id ∉ am.vvTried k)
    (hinfo : ∀ id ∈ am.vvTried k, ∃ info, am.mapInfo id = some info) {vTried : List Nat}
    {nOldest nPos : Nat} (hselect : am.selectTried k rnd = some (vTried, some (nOldest, nPos)))
    (hperm : vTried.Perm (am.vvTried k)) (hpos : nPos < vTried.length)
    (h : am.makeTried env id nOrigin rnd = some am') :
    am'.vvTried k = vTried.set nPos id ∧ (∃ b, vTried.getD nPos 0 ∈ am'.vvNew b) ∧
      ∃ infoOld, am'.mapInfo (vTried.getD nPos 0) = some infoOld ∧ infoOld.fInTried = false := by
  have hmemOld : vTried.getD nPos 0 ∈ am.vvTried k := by
    rw [List.getD_eq_getElem vTried 0 hpos]
    exact hperm.mem_iff.mp (List.getElem_mem hpos)
  have hold : vTried.getD nPos 0 ≠ id := by
    rintro rfl
    exact hout hmemOld
  unfold makeTried at h
  split_ifs at h with hmem
  obtain ⟨am1, hfold, htried1, hmap1⟩ : ∃ am1,
      (List.finRange addrmanNewBucketCount).foldl (eraseRound id) am = am1 ∧
      am1.vvTried = am.vvTried ∧ am1.mapInfo = Function.update am.mapInfo id (some { info with nRefCount :=
        info.nRefCount - ((List.finRange addrmanNewBucketCount).filter fun b => id ∈ am.vvNew b).length }) :=
    ⟨_, foldl_eraseRound hid (List.nodup_finRange _), rfl, rfl⟩
  have hselect1 : ({ am1 with nNew := am1.nNew - 1 } : CAddrMan).selectTried k rnd =
      some (vTried, some (nOldest, nPos)) := by
    rw [← hselect]
    refine selectTried_congr (congrFun htried1 k) fun id' => ?_
    dsimp only
    rw [hmap1]
    by_cases hid' : id' = id
    · rw [hid', Function.update_self, hid]
      rfl
    · rw [Function.update_of_ne hid']
  rw [hfold] at h
  simp only [hmap1, Function.update_self, Option.bind_eq_bind, Option.bind_some] at h
  split_ifs at h with hcount hplace
  · rw [hk, htried1] at hplace
    exact absurd hplace (not_lt.mpr hfull)
  · rw [hmap1] at hselect1
    simp only [hk, hselect1, Option.bind_some] at h
    obtain ⟨infoOld, hinfoOld⟩ := hinfo _ hmemOld
    rw [Function.update_of_ne hold, hinfoOld, Option.bind_some] at h
    obtain rfl := Option.some.inj h
    refine ⟨Function.update_self .., ⟨_, mem_insertNew ..⟩,
      { infoOld with fInTried := false, nRefCount := 1 }, ?_, rfl⟩
    rw [mapInfo_modify_of_ne hold]
    exact mapInfo_modify_self ((Function.update_of_ne hold ..).trans hinfoOld) _

/-! ### The evicted entry -/

/-- The position holds an inspected entry, and none of these has an older success; they stand at the front. -/
def HoldsStalest (am : CAddrMan) (n : Nat) (vTried : List Nat) (nPos : Nat) : Prop :=
  nPos < inspected n ∧ ∀ i < inspected n, am.lastSuccess (vTried.getD nPos 0) ≤ am.lastSuccess (vTried.getD i 0)

/-- The round that draws the first of the oldest draws it from a position that is inspected itself, and whose own
round draws an entry that is as old. -/
def DrawsBack (am : CAddrMan) (bucket : List Nat) (rnd : Nat → Nat) : Prop :=
  ∃ a, FirstMin (drawnAge am bucket rnd) (inspected bucket.length) a ∧
    drawPos rnd bucket.length a < inspected bucket.length ∧
    drawnAge am bucket rnd (drawPos rnd bucket.length a) = drawnAge am bucket rnd a

theorem holdsStalest_shuffled_iff {a : Nat}
    (ha : FirstMin (drawnAge am bucket rnd) (inspected bucket.length) a) :
    HoldsStalest am bucket.length (shuffled 0 (drawPos rnd bucket.length) bucket (inspected bucket.length))
      (drawPos rnd bucket.length a) ↔ DrawsBack am bucket rnd := by
  have hage {i : Nat} (hi : i < inspected bucket.length) : am.lastSuccess
      ((shuffled 0 (drawPos rnd bucket.length) bucket (inspected bucket.length)).getD i 0) =
        drawnAge am bucket rnd i := by
    rw [getD_shuffled (chooses_drawPos rnd _) (inspected_le _) hi, drawnAge]
  constructor
  · rintro ⟨hpos, hle⟩
    refine ⟨a, ha, hpos, le_antisymm ?_ (ha.le _ hpos)⟩
    rw [← hage hpos, ← hage ha.lt]
    exact hle a ha.lt
  · rintro ⟨a', ha', hpos, heq⟩
    obtain rfl := ha.unique ha'
    refine ⟨hpos, fun i hi => ?_⟩
    rw [hage hpos, hage hi, heq]
    exact ha.le i hi

/-- The bucket is only permuted, with the inspected entries at the front, and `MakeTried` moves back the entry at the
position that `SelectTried` returns.  This is one of the oldest of the inspected ones exactly when the first of the
oldest is drawn from a position that another entry as old, or itself, is drawn to. -/
theorem selectTried_stalest_iff {k : TriedBucket} (rnd : Nat → Nat)
    (hinfo : ∀ id ∈ am.vvTried k, ∃ info, am.mapInfo id = some info) (hne : am.vvTried k ≠ []) :
    ∃ vTried nOldest nPos, am.selectTried k rnd = some (vTried, some (nOldest, nPos)) ∧
      vTried.Perm (am.vvTried k) ∧ nPos < vTried.length ∧
      (∀ i < inspected (am.vvTried k).length,
        vTried.getD i 0 = drawn 0 (drawPos rnd (am.vvTried k).length) (am.vvTried k) i) ∧
      (∀ env id info nOrigin am', am.mapInfo id = some info → CAddrInfo.getTriedBucket env info.service = k →
        addrmanTriedBucketSize ≤ (am.vvTried k).length → id ∉ am.vvTried k →
        am.makeTried env id nOrigin rnd = some am' →
        am'.vvTried k = vTried.set nPos id ∧ (∃ b, vTried.getD nPos 0 ∈ am'.vvNew b) ∧
          ∃ infoOld, am'.mapInfo (vTried.getD nPos 0) = some infoOld ∧ infoOld.fInTried = false) ∧
      (HoldsStalest am (am.vvTried k).length vTried nPos ↔ DrawsBack am (am.vvTried k) rnd) := by
  obtain ⟨a, ha, hselect⟩ := selectTried_eq rnd hinfo hne
  have hchoice := chooses_drawPos rnd (am.vvTried k).length
  have hle := inspected_le (am.vvTried k).length
  have hperm := shuffled_perm (d := 0) hchoice hle
  have hpos : drawPos rnd (am.vvTried k).length a < (shuffled 0 (drawPos rnd (am.vvTried k).length) (am.vvTried k)
      (inspected (am.vvTried k).length)).length := by
    rw [hperm.length_eq]
    exact (hchoice a (ha.lt.trans_le hle)).2
  refine ⟨_, _, _, hselect, hperm, hpos, fun i hi => getD_shuffled hchoice hle hi, ?_, holdsStalest_shuffled_iff ha⟩
  intro env id info nOrigin am' hid hk hfull hout h
  exact makeTried_evicts hid hk hfull hout hinfo hselect hperm hpos h

end Select

def fullIp (id : Nat) : CNetAddr := List.replicate 15 0 ++ [UInt8.ofNat id]

/-- A full bucket: the second entry has had no success for longer than the others.  Entry 64 is a "new" one. -/
def fullAddrMan : CAddrMan where
  nIdCount := 65
  mapInfo id := if id < 65 then some {
    service := ⟨fullIp id, 8333⟩
    source := []
    nLastSuccess := if id = 1 then 10 else 20
    nRefCount := if id = 64 then 1 else 0
    fInTried := id < 64
    nRandomPos := id } else none
  mapAddr addr := (List.range 65).find? fun id => fullIp id = addr
  vRandom := List.range 65
  nTried := 64
  vvTried b := if b = 10 then List.range 64 else []
  nNew := 1
  vvNew b := if b = 0 then {64} else ∅

theorem info_fullAddrMan : ∀ id ∈ fullAddrMan.vvTried 10, ∃ info, fullAddrMan.mapInfo id = some info := by
  intro id hid
  have hlt : id < 64 := List.mem_range.mp hid
  exact ⟨_, if_pos (by omega)⟩

theorem selectTried_stalest_iff_full :
    ∃ vTried nOldest nPos, fullAddrMan.selectTried 10 (fun _ => 0) = some (vTried, some (nOldest, nPos)) ∧
      HoldsStalest fullAddrMan 64 vTried nPos := by
  obtain ⟨vTried, nOldest, nPos, hselect, -, -, -, -, hiff⟩ := selectTried_stalest_iff (fun _ => 0)
    info_fullAddrMan (by decide)
  exact ⟨vTried, nOldest, nPos, hselect,
    hiff.mpr ⟨1, ⟨by decide, by decide, by decide⟩, by decide, by decide⟩⟩

/-- The first round draws the oldest entry from the second position, and so moves it to the first one: it is the entry
that stands at the second position then that goes. -/
theorem makeTried_spares_stalest :
    ∃ vTried am', fullAddrMan.selectTried 10 (fun i => if i = 0 then 1 else 0) = some (vTried, some (1, 1)) ∧
      vTried.getD 1 0 = 0 ∧ vTried.getD 0 0 = 1 ∧ fullAddrMan.lastSuccess 1 < fullAddrMan.lastSuccess 0 ∧
      fullAddrMan.makeTried sampleAddrEnv 64 0 (fun i => if i = 0 then 1 else 0) = some am' ∧
      1 ∈ am'.vvTried 10 ∧ (∃ b, 0 ∈ am'.vvNew b) ∧ fullAddrMan.check_ = .ok () := by
  obtain ⟨am', h⟩ : ∃ am',
      fullAddrMan.makeTried sampleAddrEnv 64 0 (fun i => if i = 0 then 1 else 0) = some am' :=
    Option.isSome_iff_exists.mp (by decide +kernel)
  obtain ⟨vTried, hselect, hperm, h0, h1, hkept⟩ : ∃ vTried,
      fullAddrMan.selectTried 10 (fun i => if i = 0 then 1 else 0) = some (vTried, some (1, 1)) ∧
        vTried.Perm (fullAddrMan.vvTried 10) ∧ vTried.getD 1 0 = 0 ∧ vTried.getD 0 0 = 1 ∧
          1 ∈ vTried.set 1 64 :=
    ⟨_, rfl, by decide +kernel, rfl, rfl, by decide +kernel⟩
  obtain ⟨htried, ⟨b, hb⟩, -⟩ :=
      makeTried_evicts rfl (by decide) (by decide) (by decide) info_fullAddrMan hselect hperm
    (by rw [hperm.length_eq]; decide) h
  rw [h0] at hb
  rw [← htried] at hkept
  exact ⟨vTried, am', hselect, h0, h1, by decide, h, hkept, ⟨b, hb⟩, by decide +kernel⟩

end CAddrMan

end Sphinx
