import Sphinx.AddrMan
import Sphinx.Util.PosIndex

/-!
# The indices of the address manager

`IndexInv` says that `mapAddr` is the inverse of `mapInfo`, and that `vRandom` and `nRandomPos` are inverse.  It depends
on the address and on the position of an entry, so a change of anything else keeps it.
-/

namespace Sphinx

open Function (update_of_ne update_self)

variable {f : CAddrInfo → CAddrInfo}

structure IndexInv (mapInfo : Nat → Option CAddrInfo) (mapAddr : CNetAddr → Option Nat) (vRandom : List Nat)
    (nIdCount : Nat) : Prop where
  random : PosIndex.Inverse (fun id => (mapInfo id).map CAddrInfo.nRandomPos) vRandom
  addr_iff : ∀ addr id, mapAddr addr = some id ↔ ∃ info, mapInfo id = some info ∧ info.service.ip = addr
  id_lt : ∀ id info, mapInfo id = some info → id < nIdCount

/-- The invariant of a manager. -/
def CAddrMan.Indexed (am : CAddrMan) : Prop := IndexInv am.mapInfo am.mapAddr am.vRandom am.nIdCount

variable {mapInfo mapInfo' : Nat → Option CAddrInfo} {mapAddr : CNetAddr → Option Nat} {vRandom vRandom' : List Nat}
  {nIdCount : Nat} {am am' : CAddrMan} {id : Nat} {info : CAddrInfo}

theorem indexInv_empty : IndexInv (fun _ => none) (fun _ => none) [] 0 :=
  ⟨PosIndex.inverse_nil, fun _ _ => by simp, fun _ _ hid => (by cases hid)⟩

namespace IndexInv

/-! ### What follows from the invariant -/

section

variable (h : IndexInv mapInfo mapAddr vRandom nIdCount)

include h

theorem mem_vRandom_iff :
    id ∈ vRandom ↔ ∃ info, mapInfo id = some info := by
  rw [h.random.mem_iff]
  constructor
  · rintro ⟨i, hi⟩
    obtain ⟨info, hinfo, -⟩ := Option.map_eq_some_iff.mp hi
    exact ⟨info, hinfo⟩
  · rintro ⟨info, hinfo⟩
    exact ⟨info.nRandomPos, by rw [hinfo]; rfl⟩

theorem nRandomPos_eq (hid : mapInfo id = some info) :
    0 ≤ info.nRandomPos ∧ vRandom[info.nRandomPos.toNat]? = some id :=
  (h.random id info.nRandomPos).mp (by dsimp only; rw [hid]; rfl)

theorem mapAddr_eq (hid : mapInfo id = some info) :
    mapAddr info.service.ip = some id := (h.addr_iff info.service.ip id).mpr ⟨info, hid, rfl⟩

/-! ### What happens to an entry -/

/-- The addresses stay as they are. -/
theorem of_services
    (hkept : ∀ id, (mapInfo' id).map (fun info => info.service) = (mapInfo id).map fun info => info.service)
    (hrandom : PosIndex.Inverse (fun id => (mapInfo' id).map CAddrInfo.nRandomPos) vRandom') :
    IndexInv mapInfo' mapAddr vRandom' nIdCount := by
  constructor
  case random => exact hrandom
  case addr_iff =>
    intro addr id
    have hmap := hkept id
    refine (h.addr_iff addr id).trans ⟨?_, ?_⟩
    · rintro ⟨info, hid, rfl⟩
      rw [hid, Option.map_some, Option.map_eq_some_iff] at hmap
      obtain ⟨info', hid', hservice⟩ := hmap
      exact ⟨info', hid', by rw [hservice]⟩
    · rintro ⟨info, hid, rfl⟩
      rw [hid, Option.map_some, eq_comm, Option.map_eq_some_iff] at hmap
      obtain ⟨info', hid', hservice⟩ := hmap
      exact ⟨info', hid', by rw [hservice]⟩
  case id_lt =>
    intro id info hid
    have hmap := hkept id
    rw [hid, Option.map_some, eq_comm, Option.map_eq_some_iff] at hmap
    obtain ⟨info', hid', -⟩ := hmap
    exact h.id_lt id info' hid'

/-- The addresses and the positions stay as they are. -/
theorem congr
    (hkept : ∀ id, (mapInfo' id).map (fun info => (info.service, info.nRandomPos)) =
      (mapInfo id).map fun info => (info.service, info.nRandomPos)) :
    IndexInv mapInfo' mapAddr vRandom nIdCount := by
  have hpos : (fun id => (mapInfo' id).map CAddrInfo.nRandomPos) = fun id => (mapInfo id).map CAddrInfo.nRandomPos := by
    funext id
    have hmap := congrArg (Option.map Prod.snd) (hkept id)
    rw [Option.map_map, Option.map_map] at hmap
    exact hmap
  refine h.of_services (fun id => ?_) (by rw [hpos]; exact h.random)
  have hmap := congrArg (Option.map Prod.fst) (hkept id)
  rw [Option.map_map, Option.map_map] at hmap
  exact hmap

theorem update (hid : mapInfo id = some info) {info' : CAddrInfo}
    (hservice : info'.service = info.service) (hpos : info'.nRandomPos = info.nRandomPos) :
    IndexInv (Function.update mapInfo id (some info')) mapAddr vRandom nIdCount := by
  refine h.congr fun id' => ?_
  by_cases hne : id' = id
  · rw [hne, update_self, hid, Option.map_some, Option.map_some, hservice, hpos]
  · rw [update_of_ne hne]

/-- A new entry, at the end of `vRandom`. -/
theorem create (hpos : info.nRandomPos = vRandom.length)
    (haddr : ∀ id info', mapInfo id = some info' → info'.service.ip ≠ info.service.ip) :
    IndexInv (Function.update mapInfo nIdCount (some info))
      (Function.update mapAddr info.service.ip (some nIdCount)) (vRandom ++ [nIdCount]) (nIdCount + 1) := by
  have hfresh : nIdCount ∉ vRandom := by
    intro hmem
    obtain ⟨info', hid⟩ := h.mem_vRandom_iff.mp hmem
    exact absurd (h.id_lt nIdCount info' hid) (lt_irrefl _)
  constructor
  case random =>
    convert h.random.push hfresh using 1
    funext id
    by_cases hne : id = nIdCount
    · subst hne
      rw [update_self, update_self, ← hpos]
      rfl
    · rw [update_of_ne hne, update_of_ne hne]
  case addr_iff =>
    intro addr id
    by_cases hne : id = nIdCount
    · subst hne
      rw [update_self]
      by_cases heq : addr = info.service.ip
      · simp [heq]
      · rw [update_of_ne heq, h.addr_iff]
        constructor
        · rintro ⟨info', hid, -⟩
          exact absurd (h.id_lt id info' hid) (lt_irrefl _)
        · rintro ⟨info', hid, hip⟩
          rw [Option.some.injEq] at hid
          exact absurd (by rw [hid, hip]) heq
    · rw [update_of_ne hne]
      by_cases heq : addr = info.service.ip
      · subst heq
        rw [update_self, Option.some.injEq]
        constructor
        · exact fun heq => absurd heq.symm hne
        · rintro ⟨info', hid, hip⟩
          exact absurd hip (haddr id info' hid)
      · rw [update_of_ne heq]
        exact h.addr_iff addr id
  case id_lt =>
    intro id info' hid
    by_cases hne : id = nIdCount
    · omega
    · rw [update_of_ne hne] at hid
      have := h.id_lt id info' hid
      omega

/-- The entry that is the last one of `vRandom` goes. -/
theorem pop (hid : mapInfo id = some info)
    (hpos : info.nRandomPos = ((vRandom.length - 1 : Nat) : Int)) :
    IndexInv (Function.update mapInfo id none) (Function.update mapAddr info.service.ip none) vRandom.dropLast
      nIdCount := by
  constructor
  case random =>
    convert h.random.pop (by rw [hid, Option.map_some, hpos]) using 1
    funext id'
    by_cases hne : id' = id
    · subst hne
      rw [update_self, update_self]
      rfl
    · rw [update_of_ne hne, update_of_ne hne]
  case addr_iff =>
    intro addr id'
    by_cases heq : addr = info.service.ip
    · subst heq
      rw [update_self]
      refine ⟨fun hsome => (by cases hsome), ?_⟩
      rintro ⟨info', hid', hip⟩
      by_cases hne : id' = id
      · rw [hne, update_self] at hid'
        cases hid'
      · rw [update_of_ne hne] at hid'
        have haddr := (h.addr_iff info.service.ip id').mpr ⟨info', hid', hip⟩
        rw [h.mapAddr_eq hid, Option.some.injEq] at haddr
        exact absurd haddr.symm hne
    · rw [update_of_ne heq]
      by_cases hne : id' = id
      · subst hne
        rw [update_self, h.addr_iff]
        constructor
        · rintro ⟨info', hid', rfl⟩
          rw [hid, Option.some.injEq] at hid'
          exact absurd (by rw [hid']) heq
        · rintro ⟨info', hid', -⟩
          cases hid'
      · rw [update_of_ne hne]
        exact h.addr_iff addr id'
  case id_lt =>
    intro id' info' hid'
    by_cases hne : id' = id
    · rw [hne, update_self] at hid'
      cases hid'
    · rw [update_of_ne hne] at hid'
      exact h.id_lt id' info' hid'

end

end IndexInv

namespace CAddrMan

/-! ### Changes of an entry -/

theorem mapInfo_modify (id : Nat) (f : CAddrInfo → CAddrInfo) :
    (am.modify id f).mapInfo = Function.update am.mapInfo id ((am.mapInfo id).map f) := rfl

theorem mapInfo_modify_self (hid : am.mapInfo id = some info) (f : CAddrInfo → CAddrInfo) :
    (am.modify id f).mapInfo id = some (f info) := by
  rw [mapInfo_modify, hid, update_self]
  rfl

theorem mapInfo_modify_of_ne {id' : Nat} (hne : id' ≠ id) (f : CAddrInfo → CAddrInfo) :
    (am.modify id f).mapInfo id' = am.mapInfo id' := update_of_ne hne ..

theorem map_modify {α : Type} (g : CAddrInfo → α) (hid : am.mapInfo id = some info) (f : CAddrInfo → CAddrInfo) :
    (fun id' => ((am.modify id f).mapInfo id').map g) =
      Function.update (fun id' => (am.mapInfo id').map g) id (some (g (f info))) := by
  funext id'
  by_cases hne : id' = id
  · subst hne
    rw [update_self, mapInfo_modify_self hid]
    rfl
  · rw [update_of_ne hne, mapInfo_modify_of_ne hne]

theorem map_modify_of_eq {α : Type} {g : CAddrInfo → α} (hf : ∀ info, g (f info) = g info) (id' : Nat) :
    ((am.modify id f).mapInfo id').map g = (am.mapInfo id').map g := by
  by_cases hne : id' = id
  · subst hne
    cases hid : am.mapInfo id' with
    | none => rw [mapInfo_modify, hid, update_self, Option.map_none]
    | some info => rw [mapInfo_modify_self hid, Option.map_some, Option.map_some, hf]
  · rw [mapInfo_modify_of_ne hne]

/-- What holds of every entry still does, where it does of the changed one. -/
theorem modify_all {P : Nat → CAddrInfo → Prop}
    (hall : ∀ id info, am.mapInfo id = some info → P id info)
    (hf : ∀ info, am.mapInfo id = some info → P id (f info)) :
    ∀ id' info', (am.modify id f).mapInfo id' = some info' → P id' info' := by
  intro id' info' hid'
  by_cases hne : id' = id
  · subst hne
    rw [mapInfo_modify, update_self, Option.map_eq_some_iff] at hid'
    obtain ⟨info, hid, rfl⟩ := hid'
    exact hf info hid
  · rw [mapInfo_modify_of_ne hne] at hid'
    exact hall id' info' hid'

namespace Indexed

theorem modify (h : am.Indexed) (hservice : ∀ info, (f info).service = info.service)
    (hpos : ∀ info, (f info).nRandomPos = info.nRandomPos) : (am.modify id f).Indexed :=
  IndexInv.congr h (map_modify_of_eq fun info => by rw [hservice, hpos])

theorem find_eq_some_iff (h : am.Indexed) {addr : CNetAddr} :
    am.find addr = some (id, info) ↔ am.mapInfo id = some info ∧ info.service.ip = addr := by
  constructor
  · intro hfind
    simp only [find, Option.bind_eq_bind, Option.pure_def, Option.bind_eq_some_iff, Option.some.injEq,
      Prod.mk.injEq] at hfind
    obtain ⟨id', hid', info', hinfo', rfl, rfl⟩ := hfind
    obtain ⟨info, hinfo, hip⟩ := (h.addr_iff addr id').mp hid'
    rw [hinfo', Option.some.injEq] at hinfo
    exact ⟨hinfo', by rw [hinfo, hip]⟩
  · rintro ⟨hid, hip⟩
    have haddr := (h.addr_iff addr id).mpr ⟨info, hid, hip⟩
    simp [find, haddr, hid]

theorem find_eq_none_iff (h : am.Indexed) {addr : CNetAddr} :
    am.find addr = none ↔ ∀ id info, am.mapInfo id = some info → info.service.ip ≠ addr := by
  rw [Option.eq_none_iff_forall_ne_some]
  constructor
  · intro hne id info hid hip
    exact hne (id, info) (h.find_eq_some_iff.mpr ⟨hid, hip⟩)
  · rintro hall ⟨id, info⟩ hfind
    obtain ⟨hid, hip⟩ := h.find_eq_some_iff.mp hfind
    exact hall id info hid hip

end Indexed

end CAddrMan

/-! ### `SwapRandom` -/

/-- An entry without its place in `vRandom`. -/
def CAddrInfo.placeless (info : CAddrInfo) : CAddrInfo := { info with nRandomPos := -1 }

/-- `am'` differs from `am` in the order of `vRandom` only. -/
structure Moved (am am' : CAddrMan) : Prop where
  eq : am' = { am with mapInfo := am'.mapInfo, vRandom := am'.vRandom }
  length : am'.vRandom.length = am.vRandom.length
  placeless : ∀ id, (am'.mapInfo id).map CAddrInfo.placeless = (am.mapInfo id).map CAddrInfo.placeless

namespace Moved

theorem refl (am : CAddrMan) : Moved am am := ⟨rfl, rfl, fun _ => rfl⟩

/-- What does not depend on the place. -/
theorem map_eq {α : Type} {g : CAddrInfo → α} (h : Moved am am') (hg : ∀ info, g info.placeless = g info)
    (id : Nat) :
    (am'.mapInfo id).map g = (am.mapInfo id).map g := by
  have hmap (mapInfo : Nat → Option CAddrInfo) :
      (mapInfo id).map g = ((mapInfo id).map CAddrInfo.placeless).map g := by
    rw [Option.map_map]
    exact congrArg (fun g => (mapInfo id).map g) (funext fun info => (hg info).symm)
  rw [hmap am'.mapInfo, hmap am.mapInfo, h.placeless]

theorem exists_info (h : Moved am am') (hid : am'.mapInfo id = some info) :
    ∃ info', am.mapInfo id = some info' ∧ info'.placeless = info.placeless := by
  have hmap := h.placeless id
  rw [hid, Option.map_some, eq_comm] at hmap
  exact Option.map_eq_some_iff.mp hmap

end Moved

/-- What was at the first position is at the second. -/
theorem CAddrMan.Indexed.swapRandom_spec (h : am.Indexed) {n m : Nat} (hn : n < am.vRandom.length)
    (hm : m < am.vRandom.length) :
    ∃ am', am.swapRandom n m = some am' ∧ am'.Indexed ∧ Moved am am' ∧
      (am'.mapInfo am.vRandom[n]).map CAddrInfo.nRandomPos = some (m : Int) := by
  by_cases hnm : n = m
  · subst hnm
    exact ⟨am, by rw [swapRandom, if_pos rfl], h, Moved.refl am, h.random.pos_getElem hn⟩
  obtain ⟨info1, hinfo1⟩ := h.mem_vRandom_iff.mp (List.getElem_mem hn)
  obtain ⟨info2, hinfo2⟩ := h.mem_vRandom_iff.mp (List.getElem_mem hm)
  have hne : am.vRandom[m] ≠ am.vRandom[n] := fun heq => hnm (h.random.nodup.getElem_inj_iff.mp heq).symm
  let am1 := am.modify am.vRandom[n] fun info => { info with nRandomPos := m }
  let am2 := am1.modify am.vRandom[m] fun info => { info with nRandomPos := n }
  have hinfo2' : am1.mapInfo am.vRandom[m] = some info2 := by rw [mapInfo_modify_of_ne hne, hinfo2]
  have hpos : (fun id => (am2.mapInfo id).map CAddrInfo.nRandomPos) =
      Function.update (Function.update (fun id => (am.mapInfo id).map CAddrInfo.nRandomPos) am.vRandom[n]
        (some (m : Int))) am.vRandom[m] (some (n : Int)) := by
    rw [map_modify _ hinfo2', map_modify _ hinfo1]
  have hmoved : Moved am { am2 with vRandom := (am.vRandom.set n am.vRandom[m]).set m am.vRandom[n] } := by
    have h1 (id : Nat) : (am1.mapInfo id).map CAddrInfo.placeless = (am.mapInfo id).map CAddrInfo.placeless :=
      map_modify_of_eq (fun info => by rfl) id
    have h2 (id : Nat) : (am2.mapInfo id).map CAddrInfo.placeless = (am1.mapInfo id).map CAddrInfo.placeless :=
      map_modify_of_eq (fun info => by rfl) id
    exact ⟨rfl, by simp, fun id => (h2 id).trans (h1 id)⟩
  refine ⟨_, ?_, ?_, hmoved, ?_⟩
  · rw [swapRandom, if_neg hnm, dif_pos ⟨hn, hm⟩]
    simp only [hinfo1, hinfo2, Option.isSome_some, Bool.and_self, if_true]
    rfl
  · refine IndexInv.of_services h (hmoved.map_eq fun info => rfl) ?_
    rw [hpos]
    exact h.random.swap hn hm hnm
  · have hget := congrFun hpos am.vRandom[n]
    rw [update_of_ne hne.symm, update_self] at hget
    exact hget

end Sphinx
