import Sphinx.BlockFile

/-!
# Which records of a block file are offered

* `readWindow_spec`, `findMessageStart_spec`: the inner loop comes to the next `MessageStart`.
* `ImportStep`, `ImportEnd`: the moves of the outer loop, on positions that do not wrap around.
* `importsAll_iff`: when every record is offered, whatever `ProcessBlock` answers.
-/

namespace Sphinx

open Codec Relation

variable {network : Network} {sizes : ObjectSizes} {file : List UInt8}
variable {p m : Nat} {block : CBlock}

/-! ### Records -/

/-- `MessageStart` stands at `p`. -/
def IsMessageStart (network : Network) (file : List UInt8) (p : Nat) : Prop :=
  (file.drop p).take 4 = network.messageStart

/-- A record: `MessageStart`, a size `s`, and `s` bytes from which a block can be read. -/
structure IsImportRecord (network : Network) (sizes : ObjectSizes) (file : List UInt8) (p s : Nat) (block : CBlock) :
    Prop where
  start : IsMessageStart network file p
  size : (file.drop (p + 4)).take 4 = toLE 4 s
  pos : 0 < s
  le : s ≤ maxBlockSize
  complete : p + 8 + s ≤ file.length
  block : ∃ rest, unserializeBlock sizes SER_DISK ((file.drop (p + 8)).take s) = some (block, rest)

/-- An earlier record reaches beyond `p`. -/
def IsOverlapped (network : Network) (sizes : ObjectSizes) (file : List UInt8) (p : Nat) : Prop :=
  ∃ p' s block, IsImportRecord network sizes file p' s block ∧ p' < p ∧ p < p' + 8 + s

instance (network : Network) (file : List UInt8) (p : Nat) : Decidable (IsMessageStart network file p) :=
  inferInstanceAs (Decidable (_ = _))

theorem length_messageStart (network : Network) : network.messageStart.length = 4 := by
  cases network <;> rfl

theorem messageStart_ne_head {network : Network} {j : Nat} (hj : 0 < j) (hlt : j < 4) :
    network.messageStart[j]? ≠ network.messageStart[0]? := by
  obtain rfl | rfl | rfl : j = 1 ∨ j = 2 ∨ j = 3 := by omega
  all_goals cases network <;> decide

theorem IsMessageStart.add_four_le (h : IsMessageStart network file p) : p + 4 ≤ file.length := by
  have hlen := congrArg List.length h
  rw [length_messageStart, List.length_take, List.length_drop] at hlen
  omega

theorem IsMessageStart.getElem? {j : Nat} (h : IsMessageStart network file p) (hj : j < 4) :
    file[p + j]? = network.messageStart[j]? := by
  rw [← h, List.getElem?_take_of_lt hj, List.getElem?_drop]

theorem IsMessageStart.add_four_le_of_lt (hm : IsMessageStart network file m)
    (hp : IsMessageStart network file p) (hlt : m < p) : m + 4 ≤ p := by
  by_contra hfar
  have hhead := hp.getElem? (j := 0) (by decide)
  obtain ⟨j, rfl⟩ := Nat.exists_eq_add_of_lt hlt
  rw [Nat.add_zero, Nat.add_assoc, hm.getElem? (by omega)] at hhead
  exact messageStart_ne_head (Nat.succ_pos j) (by omega) hhead

theorem IsImportRecord.readImportRecord_eq {s : Nat} (h : IsImportRecord network sizes file p s block) :
    readImportRecord sizes file (p + 4) = .block s block := by
  obtain ⟨rest, hblock⟩ := h.block
  have hcomplete := h.complete
  have hsplit := (List.take_append_drop 4 (file.drop (p + 4))).symm
  have hlt : s < 256 ^ 4 := lt_of_le_of_lt h.le (by decide)
  have hread := (local_block sizes SER_DISK).append hblock ((file.drop (p + 8)).drop s)
  rw [List.take_append_drop] at hread
  rw [h.size, List.drop_drop] at hsplit
  rw [readImportRecord, hsplit, reads_readLE hlt]
  show (if 0 < s ∧ s ≤ maxBlockSize then _ else _) = _
  rw [if_pos ⟨h.pos, h.le⟩, hread]

/-! ### The window -/

/-- The next `MessageStart` from `q` on. -/
structure IsNextStart (network : Network) (file : List UInt8) (q m : Nat) : Prop where
  le : q ≤ m
  start : IsMessageStart network file m
  first : ∀ m', q ≤ m' → m' < m → ¬IsMessageStart network file m'

/-- There is no `MessageStart` in front of `q'`. -/
def NoStart (network : Network) (file : List UInt8) (q q' : Nat) : Prop :=
  ∀ m, q ≤ m → m < q' → ¬IsMessageStart network file m

theorem NoStart.trans {q q' q'' : Nat} (h : NoStart network file q q') (h' : NoStart network file q' q'') :
    NoStart network file q q'' := by
  intro m hq hq''
  rcases Nat.lt_or_ge m q' with hlt | hge
  · exact h m hq hlt
  · exact h' m hge hq''

/-- What a window says about the file. -/
def WindowSays (network : Network) (file : List UInt8) (nPos : Nat) : ImportWindow → Prop
  | .short => file.length ≤ nPos + 8
  | .found nFind => IsNextStart network file nPos (nPos + nFind)
  | .stray nFind => nPos + (nFind + 4) ≤ file.length ∧ NoStart network file nPos (nPos + (nFind + 1))
  | .clear => nPos + 8 < file.length ∧ NoStart network file nPos (nPos + (65536 - 4 + 1))

theorem take_drop_window {nPos k : Nat} (hk : k + 4 ≤ 65536) :
    ((((file.drop nPos).take 65536).drop k).take 4) = (file.drop (nPos + k)).take 4 := by
  rw [List.drop_take, List.drop_drop, List.take_take, Nat.min_eq_left (by omega)]

theorem readWindow_spec (network : Network) (file : List UInt8) (nPos : Nat) :
    WindowSays network file nPos (readWindow network file nPos) := by
  unfold readWindow
  simp only
  set pchData := (file.drop nPos).take 65536 with hdata
  have hlen : pchData.length = min 65536 (file.length - nPos) := by
    rw [hdata, List.length_take, List.length_drop]
  split_ifs with hshort
  · show file.length ≤ nPos + 8
    omega
  -- `memchr` looks at every place where `MessageStart` can stand
  have hhead (m : Nat) (hm : IsMessageStart network file m) (hle : nPos ≤ m) (hlt : m < nPos + (65536 - 4 + 1)) :
      (pchData.take (pchData.length + 1 - 4))[m - nPos]? = some (network.messageStart.headD 0) := by
    have hfour := hm.add_four_le
    rw [List.getElem?_take_of_lt (by omega), hdata, List.getElem?_take_of_lt (by omega), List.getElem?_drop,
      Nat.add_sub_cancel' hle, ← Nat.add_zero m, hm.getElem? (by decide)]
    cases network <;> rfl
  have hlong : nPos + 8 < file.length := by omega
  cases hfind : (pchData.take (pchData.length + 1 - 4)).findIdx? (· == network.messageStart.headD 0) with
  | none =>
    refine ⟨hlong, fun m hle hlt hm => ?_⟩
    have hfalse := List.findIdx?_eq_none_iff.mp hfind _ (List.mem_of_getElem? (hhead m hm hle hlt))
    rw [beq_self_eq_true] at hfalse
    cases hfalse
  | some nFind =>
    obtain ⟨hk, -, hbefore⟩ := List.findIdx?_eq_some_iff_getElem.mp hfind
    rw [List.length_take] at hk
    have hno : NoStart network file nPos (nPos + nFind) := by
      intro m hle hlt hm
      obtain ⟨hj, hget⟩ := List.getElem?_eq_some_iff.mp (hhead m hm hle (by omega))
      exact hbefore (m - nPos) (by omega) (by rw [hget, beq_self_eq_true])
    have hfour : ((pchData.drop nFind).take 4) = (file.drop (nPos + nFind)).take 4 := take_drop_window (by omega)
    simp only
    split_ifs with hmatch
    · exact ⟨Nat.le_add_right _ _, hfour.symm.trans hmatch, hno⟩
    · refine ⟨by omega, hno.trans fun m hle hlt hm => ?_⟩
      obtain rfl : m = nPos + nFind := by omega
      exact hmatch (hfour.trans hm)

/-! ### The positions that the scan comes to -/

/-- The positions that the loops come to, whatever `ProcessBlock` answers, if `nPos` does not wrap around. -/
inductive ScanReaches (network : Network) (sizes : ObjectSizes) (file : List UInt8) : Nat → Prop
  | zero : ScanReaches network sizes file 0
  | stray {p nFind : Nat} (hp : ScanReaches network sizes file p)
      (h : readWindow network file p = .stray nFind) : ScanReaches network sizes file (p + (nFind + 1))
  | clear {p : Nat} (hp : ScanReaches network sizes file p) (h : readWindow network file p = .clear) :
      ScanReaches network sizes file (p + (65536 - 4 + 1))
  | found {p nFind : Nat} (hp : ScanReaches network sizes file p)
      (h : readWindow network file p = .found nFind)
      (hread : readImportRecord sizes file (p + (nFind + 4)) ≠ .broken) :
      ScanReaches network sizes file (p + (nFind + 4))
  | accepted {p nFind nSize : Nat} {block : CBlock} (hp : ScanReaches network sizes file p)
      (h : readWindow network file p = .found nFind)
      (hread : readImportRecord sizes file (p + (nFind + 4)) = .block nSize block) :
      ScanReaches network sizes file (p + (nFind + 4) + (4 + nSize))

/-- `nPos` stays below `(unsigned int)-1`. -/
structure PositionFits (network : Network) (sizes : ObjectSizes) (file : List UInt8) : Prop where
  reaches : ∀ p, ScanReaches network sizes file p → p < uintMax
  found : ∀ p nFind, ScanReaches network sizes file p → readWindow network file p = .found nFind →
    p + (nFind + 4) < uintMax

theorem readImportRecord_block {nPos nSize : Nat}
    (h : readImportRecord sizes file nPos = .block nSize block) :
    nPos + 4 ≤ file.length ∧ nSize ≤ maxBlockSize := by
  unfold readImportRecord at h
  cases hread : readLE 4 (file.drop nPos) with
  | none =>
    rw [hread] at h
    cases h
  | some found =>
    have hlen : ¬(file.drop nPos).length < 4 := fun hshort => by
      rw [readLE_of_lt hshort] at hread
      cases hread
    simp only [hread] at h
    split_ifs at h with hrange
    cases hblock : unserializeBlock sizes SER_DISK found.2 with
    | none =>
      rw [hblock] at h
      cases h
    | some result =>
      rw [hblock] at h
      obtain ⟨rfl, -⟩ := ImportRecord.block.inj h
      rw [List.length_drop] at hlen
      exact ⟨by omega, hrange.2⟩

theorem scanReaches_le (h : ScanReaches network sizes file p) :
    p ≤ file.length + maxBlockSize + 65536 := by
  induction h with
  | zero => exact Nat.zero_le _
  | @stray p nFind _ h ih =>
    have hsays := readWindow_spec network file p
    rw [h] at hsays
    have hle := hsays.1
    omega
  | @clear p _ h ih =>
    have hsays := readWindow_spec network file p
    rw [h] at hsays
    have hlt := hsays.1
    omega
  | @found p nFind _ h hread ih =>
    have hsays := readWindow_spec network file p
    rw [h] at hsays
    have hle := hsays.start.add_four_le
    omega
  | @accepted p nFind nSize block _ h hread ih =>
    obtain ⟨hle, hsize⟩ := readImportRecord_block hread
    omega

/-- In a file that is well below 4 GiB. -/
theorem positionFits_of_length (h : file.length + maxBlockSize + 65536 < uintMax) :
    PositionFits network sizes file := by
  refine ⟨fun p hp => lt_of_le_of_lt (scanReaches_le hp) h, fun p nFind hp hfound => ?_⟩
  have hnext := readWindow_spec network file p
  rw [hfound] at hnext
  have hle := hnext.start.add_four_le
  omega

/-! ### The inner loop -/

/-- What the inner loop returns from `q` on: the place behind the next `MessageStart`, or `(unsigned int)-1`. -/
def FoundFrom (network : Network) (sizes : ObjectSizes) (file : List UInt8) (q r : Nat) : Prop :=
  (r = uintMax ∧ ∀ m, q ≤ m → IsMessageStart network file m → file.length < m + 9) ∨
    ∃ m, IsNextStart network file q m ∧ r = m + 4 ∧ m + 4 < uintMax ∧
      (readImportRecord sizes file (m + 4) ≠ .broken → ScanReaches network sizes file (m + 4)) ∧
      ∀ nSize block, readImportRecord sizes file (m + 4) = .block nSize block →
        ScanReaches network sizes file (m + 4 + (4 + nSize))

theorem FoundFrom.of_noStart {q q' r : Nat} (hno : NoStart network file q q') (hle : q ≤ q')
    (h : FoundFrom network sizes file q' r) : FoundFrom network sizes file q r := by
  rcases h with ⟨rfl, hlast⟩ | ⟨m, hnext, hr⟩
  · refine .inl ⟨rfl, fun m hq hm => ?_⟩
    rcases Nat.lt_or_ge m q' with hlt | hge
    · exact absurd hm (hno m hq hlt)
    · exact hlast m hge hm
  · exact .inr ⟨m, ⟨hle.trans hnext.le, hnext.start, hno.trans hnext.first⟩, hr⟩

theorem mod_of_fits (h : p < uintMax) : p % 2 ^ 32 = p :=
  Nat.mod_eq_of_lt (h.trans (by decide))

theorem findMessageStart_spec (hfits : PositionFits network sizes file) : ∀ {fuel q r : Nat},
    ScanReaches network sizes file q → findMessageStart network file fuel q = some r →
      FoundFrom network sizes file q r
  | 0, _, _, _, h => by cases h
  | fuel + 1, q, r, hq, h => by
    have hsays := readWindow_spec network file q
    unfold findMessageStart at h
    cases hw : readWindow network file q with
    | short =>
      rw [hw] at h hsays
      obtain rfl := Option.some.inj h
      refine .inl ⟨rfl, fun m hle _ => ?_⟩
      have hshort : file.length ≤ q + 8 := hsays
      omega
    | found nFind =>
      simp only [hw] at h hsays
      have hlt := hfits.found q nFind hq hw
      rw [mod_of_fits hlt] at h
      obtain rfl := Option.some.inj h
      refine .inr ⟨q + nFind, hsays, rfl, hlt, fun hread => ?_, fun nSize block hread => ?_⟩
      · show ScanReaches network sizes file (q + (nFind + 4))
        exact .found hq hw hread
      · show ScanReaches network sizes file (q + (nFind + 4) + (4 + nSize))
        exact .accepted hq hw hread
    | stray nFind =>
      simp only [hw] at h hsays
      have hnext := hq.stray hw
      rw [mod_of_fits (hfits.reaches _ hnext)] at h
      exact (findMessageStart_spec hfits hnext h).of_noStart hsays.2 (Nat.le_add_right _ _)
    | clear =>
      simp only [hw] at h hsays
      have hnext := hq.clear hw
      rw [mod_of_fits (hfits.reaches _ hnext)] at h
      exact (findMessageStart_spec hfits hnext h).of_noStart hsays.2 (Nat.le_add_right _ _)

theorem findMessageStart_total (hfits : PositionFits network sizes file) : ∀ {fuel q : Nat},
    ScanReaches network sizes file q → file.length + 1 ≤ q + fuel → 0 < fuel →
      ∃ r, findMessageStart network file fuel q = some r
  | fuel + 1, q, hq, hfuel, _ => by
    have hsays := readWindow_spec network file q
    unfold findMessageStart
    cases hw : readWindow network file q with
    | short => exact ⟨_, rfl⟩
    | found nFind => exact ⟨_, rfl⟩
    | stray nFind =>
      rw [hw] at hsays
      have hle := hsays.1
      have hnext := hq.stray hw
      simp only [mod_of_fits (hfits.reaches _ hnext)]
      exact findMessageStart_total hfits hnext (by omega) (by omega)
    | clear =>
      rw [hw] at hsays
      have hlong := hsays.1
      have hnext := hq.clear hw
      simp only [mod_of_fits (hfits.reaches _ hnext)]
      exact findMessageStart_total hfits hnext (by omega) (by omega)

/-! ### The outer loop -/

section

variable {σ : Type} {processBlock : σ → CBlock → σ × Bool} {st st' : ImportState σ}

/-- A round of the outer loop after which it goes on. -/
inductive ImportStep (network : Network) (sizes : ObjectSizes) (file : List UInt8)
    (processBlock : σ → CBlock → σ × Bool) (st : ImportState σ) : ImportState σ → Prop
  | ignored {m : Nat} (hnext : IsNextStart network file st.nPos m)
      (hread : readImportRecord sizes file (m + 4) = .ignored) :
      ImportStep network sizes file processBlock st { st with nPos := m + 4 }
  | block {m nSize : Nat} {block : CBlock} (hnext : IsNextStart network file st.nPos m)
      (hread : readImportRecord sizes file (m + 4) = .block nSize block)
      (hfit : m + 4 + (4 + nSize) < uintMax) :
      ImportStep network sizes file processBlock st (st.offer processBlock (m + 4) nSize block)

/-- The last round: there is no record any more, or an exception. -/
inductive ImportEnd (network : Network) (sizes : ObjectSizes) (file : List UInt8) (st : ImportState σ) : Prop
  | last (h : ∀ m, st.nPos ≤ m → IsMessageStart network file m → file.length < m + 9)
  | broken {m : Nat} (hnext : IsNextStart network file st.nPos m)
      (hread : readImportRecord sizes file (m + 4) = .broken)

theorem offer_nPos (st : ImportState σ) {nSize : Nat} (hfit : m + 4 + (4 + nSize) < uintMax) :
    (st.offer processBlock (m + 4) nSize block).nPos =
      if (processBlock st.chain block).2 then m + 4 + (4 + nSize) else m + 4 := by
  show (if (processBlock st.chain block).2 then (m + 4 + (4 + nSize)) % 2 ^ 32 else m + 4) = _
  rw [mod_of_fits hfit]

theorem scanReaches_offer (hfits : PositionFits network sizes file) {nSize : Nat}
    (hrejected : ScanReaches network sizes file (m + 4))
    (haccepted : ScanReaches network sizes file (m + 4 + (4 + nSize))) :
    ScanReaches network sizes file (st.offer processBlock (m + 4) nSize block).nPos := by
  rw [offer_nPos st (hfits.reaches _ haccepted)]
  split_ifs
  · exact haccepted
  · exact hrejected

theorem importLoop_runs (hfits : PositionFits network sizes file) : ∀ {fuel : Nat} {st res : ImportState σ},
    ScanReaches network sizes file st.nPos →
      importLoop network sizes file processBlock fuel st = some res →
        ∃ st', ReflTransGen (ImportStep network sizes file processBlock) st st' ∧
          ImportEnd network sizes file st' ∧ res.offered = st'.offered
  | 0, _, _, _, h => by cases h
  | fuel + 1, st, res, hreach, h => by
    rw [importLoop, if_neg (hfits.reaches _ hreach).ne] at h
    cases hfind : findMessageStart network file fuel st.nPos with
    | none =>
      rw [hfind] at h
      cases h
    | some nPos =>
      simp only [hfind] at h
      rcases findMessageStart_spec hfits hreach hfind with ⟨rfl, hlast⟩ | ⟨m, hnext, rfl, hlt, hgo, haccept⟩
      · rw [if_pos rfl] at h
        obtain rfl := Option.some.inj h
        exact ⟨st, .refl, .last hlast, rfl⟩
      · rw [if_neg hlt.ne] at h
        cases hread : readImportRecord sizes file (m + 4) with
        | broken =>
          rw [hread] at h
          obtain rfl := Option.some.inj h
          exact ⟨st, .refl, .broken hnext hread, rfl⟩
        | ignored =>
          simp only [hread] at h
          have hm := hgo (by rw [hread]; exact ImportRecord.noConfusion)
          obtain ⟨st', hrun, hend⟩ := importLoop_runs hfits hm h
          exact ⟨st', .head (.ignored hnext hread) hrun, hend⟩
        | block nSize block =>
          simp only [hread] at h
          have hm := hgo (by rw [hread]; exact ImportRecord.noConfusion)
          have haccepted := haccept nSize block hread
          obtain ⟨st', hrun, hend⟩ := importLoop_runs hfits (scanReaches_offer hfits hm haccepted) h
          exact ⟨st', .head (.block hnext hread (hfits.reaches _ haccepted)) hrun, hend⟩

/-- As many rounds as there are bytes are enough. -/
theorem importLoop_total (hfits : PositionFits network sizes file) : ∀ (fuel : Nat) (st : ImportState σ),
    ScanReaches network sizes file st.nPos → file.length + 2 ≤ st.nPos + fuel → 2 ≤ fuel →
      ∃ res, importLoop network sizes file processBlock fuel st = some res
  | fuel + 1, st, hreach, hfuel, htwo => by
    obtain ⟨nPos, hfind⟩ := findMessageStart_total hfits hreach (show file.length + 1 ≤ st.nPos + fuel by omega)
      (by omega)
    rw [importLoop, if_neg (hfits.reaches _ hreach).ne, hfind]
    simp only
    rcases findMessageStart_spec hfits hreach hfind with ⟨rfl, hlast⟩ | ⟨m, hnext, rfl, hlt, hgo, haccept⟩
    · exact ⟨_, if_pos rfl⟩
    · rw [if_neg hlt.ne]
      have hle := hnext.le
      have hfour := hnext.start.add_four_le
      cases hread : readImportRecord sizes file (m + 4) with
      | broken => exact ⟨_, rfl⟩
      | ignored =>
        have hm := hgo (by rw [hread]; exact ImportRecord.noConfusion)
        have hrest : file.length + 2 ≤ m + 4 + fuel := by omega
        exact importLoop_total hfits fuel _ hm hrest (by omega)
      | block nSize block =>
        have hm := hgo (by rw [hread]; exact ImportRecord.noConfusion)
        have haccepted := haccept nSize block hread
        have hpos : m + 4 ≤ (st.offer processBlock (m + 4) nSize block).nPos := by
          rw [offer_nPos st (hfits.reaches _ haccepted)]
          split_ifs
          · exact Nat.le_add_right _ _
          · exact le_refl _
        exact importLoop_total hfits fuel _ (scanReaches_offer hfits hm haccepted) (by omega) (by omega)

/-! ### When every record is offered -/

/-- The import ends, and every record that no earlier one overlaps has been offered to `ProcessBlock`, whatever
`ProcessBlock` answers. -/
def ImportsAll (network : Network) (sizes : ObjectSizes) (file : List UInt8) : Prop :=
  ∀ (σ : Type) (processBlock : σ → CBlock → σ × Bool) (chain : σ), ∃ fuel st,
    loadExternalBlockFile network sizes file processBlock fuel chain = some st ∧
      ∀ p s block, IsImportRecord network sizes file p s block → ¬IsOverlapped network sizes file p →
        (p + 4, block) ∈ st.offered

/-- The record behind a `MessageStart` does not keep the import from coming to `p`. -/
def LetsThrough (sizes : ObjectSizes) (file : List UInt8) (m p : Nat) : Prop :=
  match readImportRecord sizes file (m + 4) with
  | .broken => False
  | .ignored => True
  | .block nSize _ => m + 8 + nSize ≤ p

/-- In front of a record that no earlier one overlaps, every `MessageStart` is followed by a size that is out of range
or by a block and a size that does not reach beyond the start of the record. -/
def NothingInTheWay (network : Network) (sizes : ObjectSizes) (file : List UInt8) : Prop :=
  ∀ p s block, IsImportRecord network sizes file p s block → ¬IsOverlapped network sizes file p →
    ∀ m < p, IsMessageStart network file m → LetsThrough sizes file m p

/-- The record at `p` has been offered or is still to come. -/
def OfferedOrAhead (st : ImportState σ) (p : Nat) (block : CBlock) : Prop :=
  (p + 4, block) ∈ st.offered ∨ st.nPos ≤ p

theorem importStep_offeredOrAhead (hnothing : NothingInTheWay network sizes file)
    (hstep : ImportStep network sizes file processBlock st st') {s : Nat}
    (hrecord : IsImportRecord network sizes file p s block) (hfree : ¬IsOverlapped network sizes file p)
    (h : OfferedOrAhead st p block) : OfferedOrAhead st' p block := by
  cases hstep with
  | @ignored m hnext hread =>
    refine h.imp id fun hle => ?_
    rcases Nat.lt_trichotomy p m with hlt | rfl | hgt
    · exact absurd hrecord.start (hnext.first p hle hlt)
    · rw [hrecord.readImportRecord_eq] at hread
      cases hread
    · exact hnext.start.add_four_le_of_lt hrecord.start hgt
  | @block m nSize block' hnext hread hfit =>
    rcases h with hmem | hle
    · exact .inl (List.mem_append_left _ hmem)
    rcases Nat.lt_trichotomy p m with hlt | rfl | hgt
    · exact absurd hrecord.start (hnext.first p hle hlt)
    · rw [hrecord.readImportRecord_eq] at hread
      obtain ⟨-, rfl⟩ := ImportRecord.block.inj hread
      exact .inl (List.mem_append_right _ (List.mem_singleton_self _))
    · have hlets := hnothing p s block hrecord hfree m hgt hnext.start
      rw [LetsThrough, hread] at hlets
      refine .inr ?_
      rw [offer_nPos st hfit]
      split_ifs
      · have hskip : m + 8 + nSize ≤ p := hlets
        omega
      · exact hnext.start.add_four_le_of_lt hrecord.start hgt

/-- No record is ahead of the end. -/
theorem importEnd_offered (hnothing : NothingInTheWay network sizes file)
    (hend : ImportEnd network sizes file st) {s : Nat}
    (hrecord : IsImportRecord network sizes file p s block) (hfree : ¬IsOverlapped network sizes file p)
    (h : OfferedOrAhead st p block) : (p + 4, block) ∈ st.offered := by
  rcases h with hmem | hle
  · exact hmem
  exfalso
  cases hend with
  | last hlast =>
    have hshort := hlast p hle hrecord.start
    have hpos := hrecord.pos
    have hcomplete := hrecord.complete
    omega
  | @broken m hnext hread =>
    rcases Nat.lt_trichotomy p m with hlt | rfl | hgt
    · exact hnext.first p hle hlt hrecord.start
    · rw [hrecord.readImportRecord_eq] at hread
      cases hread
    · have hlets := hnothing p s block hrecord hfree m hgt hnext.start
      rw [LetsThrough, hread] at hlets
      exact hlets

theorem importRun_offeredOrAhead (hnothing : NothingInTheWay network sizes file)
    (hrun : ReflTransGen (ImportStep network sizes file processBlock) st st') {s : Nat}
    (hrecord : IsImportRecord network sizes file p s block) (hfree : ¬IsOverlapped network sizes file p)
    (h : OfferedOrAhead st p block) : OfferedOrAhead st' p block := by
  induction hrun with
  | refl => exact h
  | tail _ hstep ih => exact importStep_offeredOrAhead hnothing hstep hrecord hfree ih

theorem importsAll_of_nothingInTheWay (hfits : PositionFits network sizes file)
    (hnothing : NothingInTheWay network sizes file) : ImportsAll network sizes file := by
  intro σ processBlock chain
  obtain ⟨res, hres⟩ : ∃ res, loadExternalBlockFile network sizes file processBlock (file.length + 2) chain =
    some res := importLoop_total hfits _ _ .zero (by omega) (by omega)
  obtain ⟨st', hrun, hend, hoffered⟩ := importLoop_runs hfits .zero hres
  refine ⟨_, res, hres, fun p s block hrecord hfree => ?_⟩
  rw [hoffered]
  exact importEnd_offered hnothing hend hrecord hfree
    (importRun_offeredOrAhead hnothing hrun hrecord hfree (.inr (Nat.zero_le p)))

/-! ### A record that is missed -/

/-- What has been offered lies in front of `nPos`, and what is still to be offered behind it. -/
theorem importRun_ahead (hrun : ReflTransGen (ImportStep network sizes file processBlock) st st')
    (hle : p < st.nPos) (h : (p + 4, block) ∉ st.offered) : (p + 4, block) ∉ st'.offered := by
  suffices hboth : p < st'.nPos ∧ (p + 4, block) ∉ st'.offered from hboth.2
  induction hrun with
  | refl => exact ⟨hle, h⟩
  | tail _ hstep ih =>
    obtain ⟨hlt, hnot⟩ := ih
    cases hstep with
    | @ignored m hnext hread => exact ⟨by have hm := hnext.le; show p < m + 4; omega, hnot⟩
    | @block m nSize block' hnext hread hfit =>
      have hm := hnext.le
      refine ⟨?_, ?_⟩
      · rw [offer_nPos _ hfit]
        split_ifs <;> omega
      · intro hmem
        rcases List.mem_append.mp hmem with hold | hnew
        · exact hnot hold
        · have hpos := (Prod.mk.inj (List.mem_singleton.mp hnew)).1
          omega

theorem IsNextStart.unique {q m' : Nat} (h : IsNextStart network file q m)
    (h' : IsNextStart network file q m') :
    m = m' := by
  rcases Nat.lt_trichotomy m m' with hlt | heq | hgt
  · exact absurd h.start (h'.first m h.le hlt)
  · exact heq
  · exact absurd h'.start (h.first m' h'.le hgt)

theorem exists_isNextStart {q : Nat} (hle : q ≤ m) (hm : IsMessageStart network file m) :
    ∃ m', IsNextStart network file q m' ∧ m' ≤ m := by
  classical
  have hex : ∃ m', q ≤ m' ∧ IsMessageStart network file m' := ⟨m, hle, hm⟩
  obtain ⟨hge, hstart⟩ := Nat.find_spec hex
  exact ⟨Nat.find hex, ⟨hge, hstart, fun m' hq hlt hm' => Nat.find_min hex hlt ⟨hq, hm'⟩⟩,
    Nat.find_min' hex ⟨hle, hm⟩⟩

/-- A `ProcessBlock` that counts the blocks and accepts the one with the number `n` only. -/
def acceptNth (n : Nat) (count : Nat) (_ : CBlock) : Nat × Bool := (count + 1, count == n)

/-- What the next `MessageStart` says about a round. -/
theorem importStep_of_isNextStart (hstep : ImportStep network sizes file processBlock st st')
    (hnext : IsNextStart network file st.nPos m) :
    match readImportRecord sizes file (m + 4) with
    | .broken => False
    | .ignored => st' = { st with nPos := m + 4 }
    | .block nSize block => m + 4 + (4 + nSize) < uintMax ∧ st' = st.offer processBlock (m + 4) nSize block := by
  cases hstep with
  | ignored hnext' hread =>
    obtain rfl := hnext.unique hnext'
    rw [hread]
  | block hnext' hread hfit =>
    obtain rfl := hnext.unique hnext'
    rw [hread]
    exact ⟨hfit, rfl⟩

/-- Some answers of `ProcessBlock` bring the scan to `m` and, if there is a block, beyond `p`. -/
theorem exists_missed (block : CBlock) (hm : IsMessageStart network file m) (hlt : m < p)
    (hblocked : ¬LetsThrough sizes file m p) (d : Nat) : ∀ q count : Nat, q + d = m → ∃ n, count ≤ n ∧
      ∀ st st' : ImportState Nat, st.nPos = q → st.chain = count → (p + 4, block) ∉ st.offered →
        ReflTransGen (ImportStep network sizes file (acceptNth n)) st st' → (p + 4, block) ∉ st'.offered := by
  induction d using Nat.strong_induction_on with
  | _ d ih =>
    intro q count hd
    obtain ⟨m', hnext, hle⟩ := exists_isNextStart (show q ≤ m by omega) hm
    have hq := hnext.le
    cases hread : readImportRecord sizes file (m' + 4) with
    | broken =>
      refine ⟨count, le_refl _, fun st st' hpos hcount hnot hrun => ?_⟩
      rcases hrun.cases_head with rfl | ⟨st₁, hstep, -⟩
      · exact hnot
      · have hinv := importStep_of_isNextStart hstep (by rwa [hpos])
        rw [hread] at hinv
        exact hinv.elim
    | ignored =>
      have hne : m' ≠ m := by
        rintro rfl
        rw [LetsThrough, hread] at hblocked
        exact hblocked trivial
      have hfour := hnext.start.add_four_le_of_lt hm (by omega)
      obtain ⟨n, hn, hmissed⟩ := ih (m - (m' + 4)) (by omega) (m' + 4) count (by omega)
      refine ⟨n, hn, fun st st' hpos hcount hnot hrun => ?_⟩
      rcases hrun.cases_head with rfl | ⟨st₁, hstep, hrest⟩
      · exact hnot
      · have hinv := importStep_of_isNextStart hstep (by rwa [hpos])
        rw [hread] at hinv
        subst hinv
        exact hmissed { st with nPos := m' + 4 } st' rfl hcount hnot hrest
    | block nSize b =>
      have hnew (n : Nat) (st : ImportState Nat) (hnot : (p + 4, block) ∉ st.offered) :
          (p + 4, block) ∉ (st.offer (acceptNth n) (m' + 4) nSize b).offered := by
        intro hmem
        rcases List.mem_append.mp hmem with hold | hadded
        · exact hnot hold
        · have hpos := (Prod.mk.inj (List.mem_singleton.mp hadded)).1
          omega
      by_cases hne : m' = m
      · -- the block at `m` is accepted
        subst hne
        rw [LetsThrough, hread] at hblocked
        refine ⟨count, le_refl _, fun st st' hpos hcount hnot hrun => ?_⟩
        rcases hrun.cases_head with rfl | ⟨st₁, hstep, hrest⟩
        · exact hnot
        · have hinv := importStep_of_isNextStart hstep (by rwa [hpos])
          rw [hread] at hinv
          obtain ⟨hfit, rfl⟩ := hinv
          refine importRun_ahead hrest ?_ (hnew count st hnot)
          have haccepted : (acceptNth count st.chain b).2 = true := by rw [acceptNth, hcount, beq_self_eq_true]
          rw [offer_nPos st hfit, if_pos haccepted]
          have hbeyond : ¬m' + 8 + nSize ≤ p := hblocked
          omega
      · have hfour := hnext.start.add_four_le_of_lt hm (by omega)
        obtain ⟨n, hn, hmissed⟩ := ih (m - (m' + 4)) (by omega) (m' + 4) (count + 1) (by omega)
        refine ⟨n, by omega, fun st st' hpos hcount hnot hrun => ?_⟩
        rcases hrun.cases_head with rfl | ⟨st₁, hstep, hrest⟩
        · exact hnot
        · have hinv := importStep_of_isNextStart hstep (by rwa [hpos])
          rw [hread] at hinv
          obtain ⟨hfit, rfl⟩ := hinv
          have hrejected : ¬(acceptNth n st.chain b).2 = true := by
            rw [acceptNth, hcount, beq_iff_eq]
            omega
          refine hmissed _ st' ?_ (congrArg (· + 1) hcount) (hnew n st hnot) hrest
          rw [offer_nPos st hfit, if_neg hrejected]

theorem nothingInTheWay_of_importsAll (hfits : PositionFits network sizes file)
    (h : ImportsAll network sizes file) : NothingInTheWay network sizes file := by
  intro p s block hrecord hfree m hlt hm
  by_contra hblocked
  obtain ⟨n, -, hmissed⟩ := exists_missed block hm hlt hblocked m 0 0 (Nat.zero_add m)
  obtain ⟨fuel, res, hres, hall⟩ := h Nat (acceptNth n) 0
  obtain ⟨st', hrun, -, hoffered⟩ := importLoop_runs hfits .zero hres
  have hmem := hall p s block hrecord hfree
  rw [hoffered] at hmem
  exact hmissed _ st' rfl rfl List.not_mem_nil hrun hmem

/-! ### Beyond 4 GiB -/

/-- A file beyond the range of `nPos`: each `MessageStart` is followed, at the position that is left of it in 32 bits,
by something that does not end the import. -/
structure RunsRound (network : Network) (sizes : ObjectSizes) (file : List UInt8) : Prop where
  long : 2 ^ 32 + 8 ≤ file.length
  goes : ∀ m, IsMessageStart network file m →
    (m + 4) % 2 ^ 32 ≠ uintMax ∧ readImportRecord sizes file ((m + 4) % 2 ^ 32) ≠ .broken

theorem findMessageStart_of_long (hlong : 2 ^ 32 + 8 ≤ file.length) : ∀ {fuel q r : Nat}, q < 2 ^ 32 →
    findMessageStart network file fuel q = some r → ∃ m, IsMessageStart network file m ∧ r = (m + 4) % 2 ^ 32
  | 0, _, _, _, h => by cases h
  | fuel + 1, q, r, hq, h => by
    have hsays := readWindow_spec network file q
    have hmod (n : Nat) : n % 2 ^ 32 < 2 ^ 32 := Nat.mod_lt n (by decide)
    unfold findMessageStart at h
    cases hw : readWindow network file q with
    | short =>
      rw [hw] at hsays
      have hshort : file.length ≤ q + 8 := hsays
      omega
    | found nFind =>
      rw [hw] at h hsays
      exact ⟨q + nFind, hsays.start, (Option.some.inj h).symm⟩
    | stray nFind =>
      rw [hw] at h
      exact findMessageStart_of_long hlong (hmod _) h
    | clear =>
      rw [hw] at h
      exact findMessageStart_of_long hlong (hmod _) h

/-- If `ProcessBlock` accepts nothing, the loop has no end. -/
theorem importLoop_of_runsRound (h : RunsRound network sizes file) : ∀ (fuel : Nat) (st : ImportState Unit),
    st.nPos < 2 ^ 32 → st.nPos ≠ uintMax →
      importLoop network sizes file (fun _ _ => ((), false)) fuel st = none
  | 0, _, _, _ => rfl
  | fuel + 1, st, hlt, hne => by
    rw [importLoop, if_neg hne]
    cases hfind : findMessageStart network file fuel st.nPos with
    | none => rfl
    | some nPos =>
      obtain ⟨m, hm, rfl⟩ := findMessageStart_of_long h.long hlt hfind
      obtain ⟨hmax, hgoes⟩ := h.goes m hm
      have hmod : (m + 4) % 2 ^ 32 < 2 ^ 32 := Nat.mod_lt _ (by decide)
      simp only [if_neg hmax]
      cases hread : readImportRecord sizes file ((m + 4) % 2 ^ 32) with
      | broken => exact absurd hread hgoes
      | ignored => exact importLoop_of_runsRound h fuel _ hmod hmax
      | block nSize block => exact importLoop_of_runsRound h fuel _ hmod hmax

theorem not_importsAll_of_runsRound (h : RunsRound network sizes file) : ¬ImportsAll network sizes file := by
  intro hall
  obtain ⟨fuel, st, hst, -⟩ := hall Unit (fun _ _ => ((), false)) ()
  rw [loadExternalBlockFile, importLoop_of_runsRound h fuel _ (by decide) (by decide)] at hst
  cases hst

end

/-! ### Sample files -/

def bareBlock : CBlock := { hashPrevBlock := 0, nTime := 0xff000000, vtx := [] }

def bareRecord : List UInt8 := Network.main.messageStart ++ (toLE 4 82 ++ bareBlock.write SER_DISK)

def tornFile : List UInt8 := Network.main.messageStart ++ (toLE 4 82 ++ (0 :: bareRecord))

theorem isMessageStart_tornFile : ∀ m, IsMessageStart .main tornFile m → m = 0 ∨ m = 9 := by
  intro m hm
  have hlt : m < 96 := by
    have hle : m + 4 ≤ 99 := hm.add_four_le
    omega
  have hall : ∀ m < 96, IsMessageStart .main tornFile m → m = 0 ∨ m = 9 := by decide
  exact hall m hlt hm

theorem readImportRecord_tornFile : readImportRecord sampleSizes tornFile 4 = .broken := by rfl

theorem isImportRecord_tornFile : IsImportRecord .main sampleSizes tornFile 9 82 bareBlock := by
  have hfits : bareBlock.Fits :=
    ⟨by decide, by decide, by decide, by decide, by decide, by decide, by simp [bareBlock]⟩
  have hbounded : bareBlock.Bounded := ⟨⟨by decide, by simp [bareBlock]⟩, by decide⟩
  have hblock : Reads (unserializeBlock sampleSizes SER_DISK) (bareBlock.write SER_DISK) bareBlock :=
    reads_unserializeBlock (by rfl) hfits hbounded
  have hbytes : (tornFile.drop 17).take 82 = bareBlock.write SER_DISK := by decide
  refine ⟨by decide, by decide, by decide, by decide, by decide, [], ?_⟩
  rw [hbytes]
  exact hblock.run

/-- The whole record is not offered if the exception over the torn one has ended the import. -/
theorem tornFile_not_importsAll : ¬ImportsAll .main sampleSizes tornFile := by
  intro hall
  have hnothing := nothingInTheWay_of_importsAll (positionFits_of_length (by decide)) hall
  have hfree : ¬IsOverlapped .main sampleSizes tornFile 9 := by
    rintro ⟨p', s, block, hrecord, hlt, -⟩
    rcases isMessageStart_tornFile p' hrecord.start with rfl | rfl
    · have hread := hrecord.readImportRecord_eq
      rw [readImportRecord_tornFile] at hread
      cases hread
    · omega
  have hlets := hnothing 9 82 bareBlock isImportRecord_tornFile hfree 0 (by decide) (by decide)
  rw [LetsThrough, readImportRecord_tornFile] at hlets
  exact hlets

/-- While `nPos` does not wrap around, every record is offered just if nothing is in its way.  A file that the scan
goes round in is not imported at all. -/
theorem importsAll_iff (network : Network) (sizes : ObjectSizes) (file : List UInt8) :
    (PositionFits network sizes file → (ImportsAll network sizes file ↔ NothingInTheWay network sizes file)) ∧
      (RunsRound network sizes file → ¬ImportsAll network sizes file) :=
  ⟨fun hfits => ⟨nothingInTheWay_of_importsAll hfits, importsAll_of_nothingInTheWay hfits⟩,
    not_importsAll_of_runsRound⟩

/-- A stray byte in front of a record, and a file of zeros. -/
theorem importsAll_bareRecord : ImportsAll .main sampleSizes (5 :: bareRecord) ∧
    ¬ImportsAll .main sampleSizes (List.replicate (2 ^ 32 + 8) 0) := by
  refine ⟨((importsAll_iff _ _ _).1 (positionFits_of_length (by decide))).mpr ?_,
    (importsAll_iff _ _ _).2 ⟨(List.length_replicate).ge, fun m hm => ?_⟩⟩
  · intro p s block hrecord _ m hlt hm
    have hall : ∀ p < 88, IsMessageStart .main (5 :: bareRecord) p → p = 1 := by decide
    have hp : p + 4 ≤ 91 := hrecord.start.add_four_le
    have hone := hall p (by omega) hrecord.start
    have hzero := hall m (by omega) hm
    omega
  · have hmem : (0xd2 : UInt8) ∈ List.replicate (2 ^ 32 + 8) (0 : UInt8) :=
      List.mem_of_getElem? (hm.getElem? (j := 0) (by decide))
    have hzero := List.eq_of_mem_replicate hmem
    cases hzero

end Sphinx
