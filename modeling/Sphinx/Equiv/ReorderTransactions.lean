import Sphinx.ReorderTransactions

/-!
# When the order of the wallet is sound

The positions that are given out increase, and no one of them is below what was placed before.  So a position `p` that
was there becomes `p` plus the number of those at or below `p`, whenever it comes (`ScanInv`): the entries that had a
position keep their order.

* `scanInv_run`: the positions after the loop;
* `foldlM_reorderRound`: they are what the wallet and the records hold then;
* `mem_listAccountCreditDebit`: only the entries of the account "" are among them;
* `reorderTransactions_sound_iff`: the result is sound exactly if no position that was there is moved onto one that
  was given out, and the entries of other accounts are out of the way.
-/

namespace Sphinx

open Codec

/-! ### The positions in the loop -/

namespace OrderScan

variable {s : OrderScan}
variable {p : Int} {item : OrderItem}

/-- The old and the new positions. -/
def moves (s : OrderScan) : List Int → List (Int × Int)
  | [] => []
  | p :: ps => (p, s.place p) :: moves (s.next p) ps

/-- The numbers after the loop. -/
def after (s : OrderScan) (ps : List Int) : OrderScan := ps.foldl next s

theorem after_append (s : OrderScan) (ps ps' : List Int) : s.after (ps ++ ps') = (s.after ps).after ps' :=
  List.foldl_append ..

theorem place_unset (s : OrderScan) : s.place (-1) = s.nOrderPosNext := if_pos rfl

theorem place_set (hp : p ≠ -1) : s.place p = p + s.nOrderPosOff p := if_neg hp

theorem next_unset (s : OrderScan) :
    s.next (-1) = ⟨s.nOrderPosNext + 1, s.nOrderPosOffsets ++ [s.nOrderPosNext]⟩ := if_pos rfl

theorem next_set (hp : p ≠ -1) :
    s.next p = { s with nOrderPosNext := max s.nOrderPosNext (s.place p + 1) } := if_neg hp

theorem nOrderPosOff_nonneg (s : OrderScan) (p : Int) : 0 ≤ s.nOrderPosOff p := Int.natCast_nonneg _

theorem nOrderPosOff_mono (s : OrderScan) {q : Int} (h : p ≤ q) :
    s.nOrderPosOff p ≤ s.nOrderPosOff q := by
  refine Int.ofNat_le.mpr (List.countP_mono_left fun o _ ho => ?_)
  rw [decide_eq_true_eq] at ho ⊢
  exact ho.trans h

/-- **After the loop over `done`.** -/
structure ScanInv (s : OrderScan) (done : List (Int × Int)) : Prop where
  nonneg : 0 ≤ s.nOrderPosNext
  increasing : s.nOrderPosOffsets.Pairwise (· < ·)
  offsets : ∀ o ∈ s.nOrderPosOffsets, o < s.nOrderPosNext
  range : ∀ m ∈ done, 0 ≤ m.2 ∧ m.2 < s.nOrderPosNext
  unset : (done.filter fun m => m.1 = -1).map Prod.snd = s.nOrderPosOffsets
  set : ∀ m ∈ done, m.1 ≠ -1 → m.2 = m.1 + s.nOrderPosOff m.1

theorem scanInv_start : ScanInv {} [] where
  nonneg := le_rfl
  increasing := .nil
  offsets _ ho := absurd ho List.not_mem_nil
  range _ hm := absurd hm List.not_mem_nil
  unset := rfl
  set _ hm := absurd hm List.not_mem_nil

theorem ScanInv.unset_step {done : List (Int × Int)} (h : ScanInv s done) :
    ScanInv (s.next (-1)) (done ++ [(-1, s.place (-1))]) := by
  rw [next_unset, place_unset]
  constructor
  case nonneg =>
    have hnonneg := h.nonneg
    dsimp only
    omega
  case increasing =>
    refine List.pairwise_append.mpr ⟨h.increasing, List.pairwise_singleton .., fun o ho o' ho' => ?_⟩
    rw [List.mem_singleton.mp ho']
    exact h.offsets o ho
  case offsets =>
    intro o ho
    rcases List.mem_append.mp ho with ho | ho
    · exact (h.offsets o ho).trans (lt_add_one _)
    · rw [List.mem_singleton.mp ho]
      exact lt_add_one _
  case range =>
    intro m hm
    rcases List.mem_append.mp hm with hm | hm
    · exact ⟨(h.range m hm).1, (h.range m hm).2.trans (lt_add_one _)⟩
    · rw [List.mem_singleton.mp hm]
      exact ⟨h.nonneg, lt_add_one _⟩
  case unset => rw [List.filter_append, List.map_append, h.unset]; rfl
  case set =>
    intro m hm hset
    rcases List.mem_append.mp hm with hm | hm
    · -- the new one is behind all that were placed
      have hmove := h.set m hm hset
      have hlt := (h.range m hm).2
      have hoff := nOrderPosOff_nonneg s m.1
      rw [hmove, nOrderPosOff, nOrderPosOff, List.countP_append, List.countP_singleton,
        if_neg (by rw [decide_eq_true_eq]; omega), Nat.add_zero]
    · rw [List.mem_singleton.mp hm] at hset
      exact absurd rfl hset

theorem ScanInv.set_step {done : List (Int × Int)} (h : ScanInv s done) (hp : 0 ≤ p) :
    ScanInv (s.next p) (done ++ [(p, s.place p)]) := by
  have hset : p ≠ -1 := by omega
  have hoff := nOrderPosOff_nonneg s p
  rw [next_set hset]
  constructor
  case nonneg => exact h.nonneg.trans (le_max_left ..)
  case increasing => exact h.increasing
  case offsets => exact fun o ho => (h.offsets o ho).trans_le (le_max_left ..)
  case range =>
    intro m hm
    rcases List.mem_append.mp hm with hm | hm
    · exact ⟨(h.range m hm).1, (h.range m hm).2.trans_le (le_max_left ..)⟩
    · rw [List.mem_singleton.mp hm]
      refine ⟨?_, (lt_add_one _).trans_le (le_max_right ..)⟩
      dsimp only
      rw [place_set hset]
      omega
  case unset =>
    rw [List.filter_append, List.map_append, h.unset, List.filter_singleton]
    simp [hset]
  case set =>
    intro m hm hm'
    rcases List.mem_append.mp hm with hm | hm
    · exact h.set m hm hm'
    · rw [List.mem_singleton.mp hm]
      exact place_set hset

theorem scanInv_run : ∀ {ps : List Int} {s : OrderScan} {done : List (Int × Int)},
    (∀ p ∈ ps, p = -1 ∨ 0 ≤ p) → ScanInv s done → ScanInv (s.after ps) (done ++ s.moves ps) := by
  intro ps
  induction ps with
  | nil =>
    intro s done _ h
    rw [moves, List.append_nil]
    exact h
  | cons p ps ih =>
    intro s done hps h
    obtain ⟨hp, hps⟩ := List.forall_mem_cons.mp hps
    have hstep : ScanInv (s.next p) (done ++ [(p, s.place p)]) := by
      rcases hp with rfl | hp
      · exact h.unset_step
      · exact h.set_step hp
    rw [moves, List.append_cons]
    exact ih hps hstep

/-- Positions that are given out later are not below the next one. -/
theorem offsets_after : ∀ (ps : List Int) (s : OrderScan),
    s.nOrderPosNext ≤ (s.after ps).nOrderPosNext ∧
      ∃ later, (s.after ps).nOrderPosOffsets = s.nOrderPosOffsets ++ later ∧
        ∀ o ∈ later, s.nOrderPosNext ≤ o := by
  intro ps
  induction ps with
  | nil => exact fun s => ⟨le_rfl, [], (List.append_nil _).symm, fun _ ho => absurd ho List.not_mem_nil⟩
  | cons p ps ih =>
    intro s
    obtain ⟨hle, later, heq, hlater⟩ := ih (s.next p)
    rw [show s.after (p :: ps) = (s.next p).after ps from rfl]
    by_cases hp : p = -1
    · subst hp
      rw [next_unset] at *
      refine ⟨(lt_add_one _).le.trans hle, s.nOrderPosNext :: later, heq.trans (List.append_assoc ..), ?_⟩
      exact List.forall_mem_cons.mpr ⟨le_rfl, fun o ho => (lt_add_one _).le.trans (hlater o ho)⟩
    · rw [next_set hp] at *
      exact ⟨(le_max_left ..).trans hle, later, heq, fun o ho => (le_max_left ..).trans (hlater o ho)⟩

theorem place_mem_iff {ps₁ ps₂ : List Int} (hp : p ≠ -1) :
    (after {} ps₁).place p ∈ (after {} (ps₁ ++ p :: ps₂)).nOrderPosOffsets ↔
      (after {} ps₁).place p ∈ (after {} ps₁).nOrderPosOffsets := by
  obtain ⟨-, later, heq, hlater⟩ := offsets_after ps₂ ((after {} ps₁).next p)
  have hsplit : after {} (ps₁ ++ p :: ps₂) = ((after {} ps₁).next p).after ps₂ :=
      after_append {} ps₁ (p :: ps₂)
  rw [hsplit, heq, next_set hp] at *
  constructor
  · intro hmem
    rcases List.mem_append.mp hmem with hmem | hmem
    · exact hmem
    · exact absurd (hlater _ hmem) (not_le.mpr ((lt_add_one _).trans_le (le_max_right ..)))
  · exact fun hmem => List.mem_append_left _ hmem

theorem mem_moves_iff {m : Int × Int} : ∀ {ps : List Int} {s : OrderScan}, m ∈ s.moves ps ↔
    ∃ ps₁ ps₂, ps = ps₁ ++ m.1 :: ps₂ ∧ (s.after ps₁).place m.1 = m.2 := by
  intro ps
  induction ps with
  | nil => exact fun {s} => iff_of_false List.not_mem_nil fun ⟨ps₁, ps₂, h, _⟩ => absurd h.symm (by simp)
  | cons p ps ih =>
    intro s
    rw [moves, List.mem_cons, ih]
    constructor
    · rintro (rfl | ⟨ps₁, ps₂, rfl, hplace⟩)
      · exact ⟨[], ps, rfl, rfl⟩
      · exact ⟨p :: ps₁, ps₂, rfl, hplace⟩
    · rintro ⟨ps₁, ps₂, hsplit, hplace⟩
      cases ps₁ with
      | nil =>
        obtain ⟨rfl, rfl⟩ := List.cons.inj hsplit
        exact .inl (Prod.ext rfl hplace.symm)
      | cons p' ps₁ =>
        obtain ⟨rfl, rfl⟩ := List.cons.inj hsplit
        exact .inr ⟨ps₁, ps₂, rfl, hplace⟩

theorem place_lt_next (s : OrderScan) (p : Int) : s.place p < (s.next p).nOrderPosNext := by
  by_cases hp : p = -1
  · rw [hp, next_unset, place_unset]
    exact lt_add_one _
  · rw [next_set hp]
    exact (lt_add_one _).trans_le (le_max_right ..)

theorem place_lt_of_later (s : OrderScan) (ps₁ ps₂ : List Int) (p : Int) :
    (s.after ps₁).place p < (s.after (ps₁ ++ p :: ps₂)).place (-1) := by
  have hsplit : s.after (ps₁ ++ p :: ps₂) = ((s.after ps₁).next p).after ps₂ :=
      after_append s ps₁ (p :: ps₂)
  rw [hsplit, place_unset]
  exact (place_lt_next _ p).trans_le (offsets_after ps₂ _).1

end OrderScan

/-! ### The entries that are listed -/

theorem append_lt_append_left {pre x y : List UInt8} : pre ++ x < pre ++ y ↔ x < y := by
  induction pre with
  | nil => rfl
  | cons c pre ih => rw [List.cons_append, List.cons_append, List.cons_lt_cons_iff, ih]; simp

theorem not_lt_replicate_zero {n : Nat} : ∀ {x : List UInt8}, n ≤ x.length → ¬ x < List.replicate n 0 := by
  induction n with
  | zero => exact fun _ => List.not_lt_nil _
  | succ n ih =>
    intro x hx
    cases x with
    | nil => cases hx
    | cons c x =>
      rw [List.replicate_succ, List.cons_lt_cons_iff, not_or, not_and]
      exact ⟨fun h => absurd h (by simp), fun _ => ih (Nat.le_of_succ_le_succ hx)⟩

theorem writeBytes_nil : writeBytes [] = [0] := rfl

theorem writeBytes_head {v : List UInt8} (hv : v ≠ []) : ∃ c rest, writeBytes v = c :: rest ∧ 0 < c := by
  have hpos : 0 < v.length := List.length_pos_iff.mpr hv
  unfold writeBytes writeCompactSize
  have hsmall (hlt : v.length < 253) : (0 : UInt8) < UInt8.ofNat v.length := by
    rw [UInt8.lt_iff_toNat_lt, UInt8.toNat_ofNat', UInt8.toNat_zero]
    omega
  split_ifs with h1 h2 h3
  · exact ⟨_, _, rfl, hsmall h1⟩
  · exact ⟨_, _, rfl, by decide⟩
  · exact ⟨_, _, rfl, by decide⟩
  · exact ⟨_, _, rfl, by decide⟩

theorem acentryKey_first (k : List UInt8 × Nat) : ¬ acentryKey k < acentryKey ([], 0) := by
  rw [acentryKey, acentryKey, append_lt_append_left]
  refine not_lt_replicate_zero (n := 9) ?_
  rw [List.length_append, writeBytes, List.length_append, length_toLE]
  have hone : 1 ≤ (writeCompactSize k.1.length).length := by
    unfold writeCompactSize
    split_ifs <;> simp [length_toLE]
  omega

theorem acentryKey_lt {a : List UInt8} (ha : a ≠ []) (n m : Nat) : acentryKey ([], n) < acentryKey (a, m) := by
  obtain ⟨c, rest, heq, hc⟩ := writeBytes_head ha
  rw [acentryKey, acentryKey, append_lt_append_left]
  dsimp only
  rw [writeBytes_nil, heq, List.cons_append, List.cons_append, List.cons_lt_cons_iff]
  exact .inl hc

theorem takeWhile_eq_filter {α : Type} {P : α → Bool} {l : List α}
    (h : l.Pairwise fun a b => P b = true → P a = true) :
    l.takeWhile P = l.filter P := by
  induction l with
  | nil => rfl
  | cons a l ih =>
    rw [List.pairwise_cons] at h
    by_cases ha : P a = true
    · rw [List.takeWhile_cons_of_pos ha, List.filter_cons_of_pos ha, ih h.2]
    · rw [List.takeWhile_cons_of_neg ha, List.filter_cons_of_neg ha, List.filter_eq_nil_iff.mpr]
      exact fun b hb hPb => ha (h.1 b hb hPb)

theorem pairwise_acentryCursor (records : StdMap (List UInt8 × Nat) CAccountingEntry) :
    (acentryCursor records).Pairwise fun a b => b.strAccount = [] → a.strAccount = [] := by
  have hsorted : (acentryCursor records).Pairwise fun a b =>
      ¬ acentryKey (b.strAccount, b.nEntryNo) < acentryKey (a.strAccount, a.nEntryNo) := by
    have : Std.Total fun a b : CAccountingEntry =>
        ¬ acentryKey (b.strAccount, b.nEntryNo) < acentryKey (a.strAccount, a.nEntryNo) :=
      ⟨fun a b => List.le_total (acentryKey (a.strAccount, a.nEntryNo)) (acentryKey (b.strAccount, b.nEntryNo))⟩
    have : IsTrans CAccountingEntry fun a b =>
        ¬ acentryKey (b.strAccount, b.nEntryNo) < acentryKey (a.strAccount, a.nEntryNo) :=
      ⟨fun _ _ _ hab hbc => List.le_trans hab hbc⟩
    exact List.pairwise_insertionSort _ _
  refine hsorted.imp fun {a b} hle hb => ?_
  by_contra ha
  rw [hb] at hle
  exact hle (acentryKey_lt ha _ _)

theorem mem_acentryCursor {records : StdMap (List UInt8 × Nat) CAccountingEntry} {e : CAccountingEntry} :
    e ∈ acentryCursor records ↔ ∃ r, records.lookup (e.strAccount, e.nEntryNo) = some r ∧
      e = { r with strAccount := e.strAccount, nEntryNo := e.nEntryNo } := by
  rw [acentryCursor, (List.perm_insertionSort _ _).mem_iff, List.mem_map]
  constructor
  · rintro ⟨⟨⟨a, n⟩, r⟩, hr, rfl⟩
    exact ⟨r, AList.mem_lookup_iff.mpr hr, rfl⟩
  · rintro ⟨r, hr, heq⟩
    exact ⟨⟨(e.strAccount, e.nEntryNo), r⟩, AList.mem_lookup_iff.mp hr, heq.symm⟩

theorem listAccountCreditDebit_eq (records : StdMap (List UInt8 × Nat) CAccountingEntry) :
    listAccountCreditDebit records [] = (acentryCursor records).filter fun e => e.strAccount = [] := by
  have hstart : (acentryCursor records).dropWhile (fun acentry =>
      acentryKey (acentry.strAccount, acentry.nEntryNo) < acentryKey ([], 0)) = acentryCursor records := by
    cases acentryCursor records with
    | nil => rfl
    | cons e rest => exact List.dropWhile_cons_of_neg (by simpa using acentryKey_first (e.strAccount, e.nEntryNo))
  have hall : ([] : List UInt8) ≠ [42] := by decide
  unfold listAccountCreditDebit
  simp only [hall, if_false, false_or]
  rw [hstart, takeWhile_eq_filter]
  refine (pairwise_acentryCursor records).imp fun hinherit hb => ?_
  rw [decide_eq_true_eq] at hb ⊢
  exact hinherit hb

/-- **The listed entries** are those of the account "". -/
theorem mem_listAccountCreditDebit {records : StdMap (List UInt8 × Nat) CAccountingEntry} {e : CAccountingEntry} :
    e ∈ listAccountCreditDebit records [] ↔ e.strAccount = [] ∧
      ∃ r, records.lookup (e.strAccount, e.nEntryNo) = some r ∧
        e = { r with strAccount := e.strAccount, nEntryNo := e.nEntryNo } := by
  rw [listAccountCreditDebit_eq, List.mem_filter, mem_acentryCursor, decide_eq_true_eq, and_comm]

/-! ### The wallet in the loop -/

/-- What an element stands for. -/
def OrderItem.key : OrderItem → OrderKey
  | .tx hash _ => .tx hash
  | .acentry entry => .acentry entry.strAccount entry.nEntryNo

theorem OrderScan.place_of_not_writes {s : OrderScan} (h : ¬ s.writes p) : s.place p = p := by
  rw [writes, Bool.or_eq_true, not_or, decide_eq_true_eq, decide_eq_true_eq, not_not] at h
  rw [place_set h.1, h.2, add_zero]

namespace OrderWallet

variable {getHash : CTransaction → Uint256} {fails : OrderKey → Bool} {w w' : OrderWallet}

/-- The position of a transaction in memory, or of an accounting entry in its record. -/
def pos (w : OrderWallet) : OrderKey → Option Int
  | .tx hash => (w.mapWallet.lookup hash).map CWalletTx.nOrderPos
  | .acentry strAccount nEntryNo => (w.acentryRecords.lookup (strAccount, nEntryNo)).map CAccountingEntry.nOrderPos
  | .orderposnext => none

/-- The wallet still holds what was listed. -/
def Current (w : OrderWallet) : OrderItem → Prop
  | .tx hash wtx => w.mapWallet.lookup hash = some wtx
  | .acentry entry => ∃ record, w.acentryRecords.lookup (entry.strAccount, entry.nEntryNo) = some record ∧
      record.nOrderPos = entry.nOrderPos

theorem Current.pos_eq (h : w.Current item) : w.pos item.key = some item.nOrderPos := by
  cases item with
  | tx hash wtx => exact congrArg (Option.map CWalletTx.nOrderPos) h
  | acentry entry =>
    obtain ⟨record, hrecord, hpos⟩ := h
    exact (congrArg (Option.map CAccountingEntry.nOrderPos) hrecord).trans (congrArg some hpos)

/-- The transactions are under their hashes, and their records hold what is in memory. -/
structure Synced (getHash : CTransaction → Uint256) (w : OrderWallet) : Prop where
  keyed : ∀ {hash wtx}, w.mapWallet.lookup hash = some wtx → getHash wtx.tx = hash
  stored : ∀ hash, w.txRecords.lookup hash = w.mapWallet.lookup hash

/-- What one round does. -/
structure Round (getHash : CTransaction → Uint256) (w w' : OrderWallet) (key : OrderKey) (p : Int) : Prop where
  placed : w'.pos key = some p
  others : ∀ r, r ≠ key → w'.pos r = w.pos r
  current : ∀ item : OrderItem, item.key ≠ key → w.Current item → w'.Current item
  synced : w.Synced getHash → w'.Synced getHash
  record : w'.orderposnextRecord = w.orderposnextRecord

/-- A transaction gets a position, in memory and in its record. -/
theorem round_tx {hash : Uint256} {wtx : CWalletTx} (hcur : w.mapWallet.lookup hash = some wtx) (p : Int)
    (records : StdMap Uint256 CWalletTx)
    (hrecords : w.Synced getHash → ∀ h, records.lookup h =
      (w.mapWallet.insert hash { wtx with nOrderPos := p }).lookup h) :
    Round getHash w { w with mapWallet := w.mapWallet.insert hash { wtx with nOrderPos := p }, txRecords := records }
      (.tx hash) p where
  placed := by
    show ((w.mapWallet.insert hash { wtx with nOrderPos := p }).lookup hash).map CWalletTx.nOrderPos = some p
    rw [AList.lookup_insert]
    rfl
  others r hr := by
    cases r with
    | tx h => exact congrArg (Option.map CWalletTx.nOrderPos) (AList.lookup_insert_ne fun heq => hr (by rw [heq]))
    | acentry => rfl
    | orderposnext => rfl
  current item hne hitem := by
    cases item with
    | tx h other => exact (AList.lookup_insert_ne fun heq => hne (congrArg OrderKey.tx heq)).trans hitem
    | acentry entry => exact hitem
  synced hsynced := by
    refine ⟨fun {h other} hl => ?_, hrecords hsynced⟩
    dsimp only at hl
    by_cases heq : h = hash
    · subst heq
      rw [AList.lookup_insert, Option.some.injEq] at hl
      rw [← hl]
      exact show getHash wtx.tx = h from hsynced.keyed hcur
    · rw [AList.lookup_insert_ne heq] at hl
      exact hsynced.keyed hl
  record := rfl

/-- The record of an accounting entry is written. -/
theorem round_acentry (w : OrderWallet) (entry : CAccountingEntry) :
    Round getHash w { w with acentryRecords := w.acentryRecords.insert (entry.strAccount, entry.nEntryNo) entry }
      (.acentry entry.strAccount entry.nEntryNo) entry.nOrderPos where
  placed := by
    show ((w.acentryRecords.insert (entry.strAccount, entry.nEntryNo) entry).lookup
      (entry.strAccount, entry.nEntryNo)).map CAccountingEntry.nOrderPos = some entry.nOrderPos
    rw [AList.lookup_insert]
    rfl
  others r hr := by
    cases r with
    | tx h => rfl
    | acentry a n =>
      refine congrArg (Option.map CAccountingEntry.nOrderPos) (AList.lookup_insert_ne fun heq => hr ?_)
      rw [(Prod.mk.inj heq).1, (Prod.mk.inj heq).2]
    | orderposnext => rfl
  current item hne hitem := by
    cases item with
    | tx h other => exact hitem
    | acentry other =>
      obtain ⟨record, hrecord, hpos⟩ := hitem
      refine ⟨record, (AList.lookup_insert_ne fun heq => hne ?_).trans hrecord, hpos⟩
      rw [OrderItem.key, (Prod.mk.inj heq).1, (Prod.mk.inj heq).2]
  synced hsynced := ⟨hsynced.keyed, hsynced.stored⟩
  record := rfl

theorem reorderRound_spec {s s' : OrderScan} (hcur : w.Current item) (hsynced : w.Synced getHash)
    (h : reorderRound getHash fails (w, s) item = some (w', s')) :
    s' = s.next item.nOrderPos ∧ Round getHash w w' item.key (s.place item.nOrderPos) := by
  unfold reorderRound at h
  dsimp only at h
  split_ifs at h with hwrites
  · obtain ⟨w₁, hwrite, heq⟩ := Option.map_eq_some_iff.mp h
    obtain ⟨rfl, rfl⟩ := Prod.mk.inj heq
    refine ⟨rfl, ?_⟩
    cases item with
    | tx hash wtx =>
      rw [OrderItem.setOrderPos, assign, write] at hwrite
      split_ifs at hwrite
      obtain rfl := Option.some.inj hwrite
      refine round_tx hcur _ _ fun _ h => ?_
      rw [show getHash wtx.tx = hash from hsynced.keyed hcur]
      by_cases heq : h = hash
      · rw [heq, AList.lookup_insert, AList.lookup_insert]
      · rw [AList.lookup_insert_ne heq, AList.lookup_insert_ne heq, hsynced.stored]
    | acentry entry =>
      rw [OrderItem.setOrderPos, assign, write] at hwrite
      split_ifs at hwrite
      obtain rfl := Option.some.inj hwrite
      exact round_acentry w { entry with nOrderPos := s.place entry.nOrderPos }
  · obtain ⟨rfl, rfl⟩ := Prod.mk.inj (Option.some.inj h)
    refine ⟨rfl, ?_⟩
    -- nothing is written, for the position is the same
    have hplace := OrderScan.place_of_not_writes hwrites
    cases item with
    | tx hash wtx =>
      refine round_tx hcur _ _ fun _ h => ?_
      rw [show s.place (OrderItem.tx hash wtx).nOrderPos = wtx.nOrderPos from hplace, hsynced.stored]
      by_cases heq : h = hash
      · rw [heq, AList.lookup_insert, hcur]
      · rw [AList.lookup_insert_ne heq]
    | acentry entry =>
      exact ⟨by rw [hplace]; exact Current.pos_eq hcur, fun _ _ => rfl, fun _ _ h => h, fun h => h, rfl⟩

theorem foldlM_reorderRound : ∀ {items : List OrderItem} {w w' : OrderWallet} {s s' : OrderScan},
    (items.map OrderItem.key).Nodup → (∀ item ∈ items, w.Current item) → w.Synced getHash →
    items.foldlM (reorderRound getHash fails) (w, s) = some (w', s') →
    s' = s.after (items.map OrderItem.nOrderPos) ∧ w'.Synced getHash ∧
      w'.orderposnextRecord = w.orderposnextRecord ∧ (∀ r, r ∉ items.map OrderItem.key → w'.pos r = w.pos r) ∧
      ∀ items₁ item items₂, items = items₁ ++ item :: items₂ →
        w'.pos item.key = some ((s.after (items₁.map OrderItem.nOrderPos)).place item.nOrderPos) := by
  intro items
  induction items with
  | nil =>
    intro w w' s s' _ _ hsynced h
    obtain ⟨rfl, rfl⟩ := Prod.mk.inj (Option.some.inj h)
    exact ⟨rfl, hsynced, rfl, fun _ _ => rfl, fun items₁ item items₂ h => absurd h.symm (by simp)⟩
  | cons item items ih =>
    intro w w' s s' hnodup hcur hsynced h
    rw [List.foldlM_cons] at h
    obtain ⟨⟨w₁, s₁⟩, hround, hrest⟩ := Option.bind_eq_some_iff.mp h
    obtain ⟨hhead, hcur⟩ := List.forall_mem_cons.mp hcur
    rw [List.map_cons, List.nodup_cons] at hnodup
    obtain ⟨rfl, hr⟩ := reorderRound_spec hhead hsynced hround
    have hne : ∀ other ∈ items, other.key ≠ item.key := by
      intro other hmem heq
      exact hnodup.1 (List.mem_map.mpr ⟨other, hmem, heq⟩)
    obtain ⟨hs, hsynced', hrecord, hothers, hplaced⟩ := ih hnodup.2
      (fun other hmem => hr.current other (hne other hmem) (hcur other hmem)) (hr.synced hsynced) hrest
    refine ⟨hs, hsynced', hrecord.trans hr.record, ?_, ?_⟩
    · intro r hmem
      rw [List.map_cons, List.mem_cons, not_or] at hmem
      rw [hothers r hmem.2, hr.others r hmem.1]
    · intro items₁ other items₂ hsplit
      cases items₁ with
      | nil =>
        obtain ⟨rfl, -⟩ := List.cons.inj hsplit
        rw [hothers _ hnodup.1]
        exact hr.placed
      | cons _ items₁ =>
        obtain ⟨rfl, rfl⟩ := List.cons.inj hsplit
        exact hplaced items₁ other items₂ rfl

/-! ### What is reordered -/

theorem mem_txByTime : item ∈ w.txByTime ↔
    match item with
    | .tx hash wtx => w.mapWallet.lookup hash = some wtx
    | .acentry entry => entry ∈ listAccountCreditDebit w.acentryRecords [] := by
  rw [txByTime, (List.perm_insertionSort _ _).mem_iff, List.mem_append]
  cases item with
  | tx hash wtx =>
    rw [or_iff_left (by simp), List.mem_map]
    constructor
    · rintro ⟨⟨h, other⟩, hmem, heq⟩
      obtain ⟨rfl, rfl⟩ := OrderItem.tx.inj heq
      exact AList.mem_lookup_iff.mpr ((List.perm_insertionSort _ _).mem_iff.mp hmem)
    · intro hl
      exact ⟨⟨hash, wtx⟩, (List.perm_insertionSort _ _).mem_iff.mpr (AList.mem_lookup_iff.mp hl), rfl⟩
  | acentry entry =>
    rw [or_iff_right (by simp), List.mem_map]
    constructor
    · rintro ⟨e, hmem, heq⟩
      exact OrderItem.acentry.inj heq ▸ hmem
    · exact fun hmem => ⟨entry, hmem, rfl⟩

theorem current_txByTime : ∀ item ∈ w.txByTime, w.Current item := by
  intro item hmem
  rw [mem_txByTime] at hmem
  cases item with
  | tx hash wtx => exact hmem
  | acentry entry =>
    obtain ⟨-, r, hr, heq⟩ := mem_listAccountCreditDebit.mp hmem
    exact ⟨r, hr, by rw [heq]⟩

theorem nodup_txByTime (w : OrderWallet) : (w.txByTime.map OrderItem.key).Nodup := by
  rw [txByTime, ((List.perm_insertionSort _ _).map OrderItem.key).nodup_iff, List.map_append, List.nodup_append']
  refine ⟨?_, ?_, ?_⟩
  · rw [List.map_map, ((List.perm_insertionSort _ _).map _).nodup_iff]
    have hkeys := w.mapWallet.keys_nodup.map (f := OrderKey.tx) fun _ _ h => OrderKey.tx.inj h
    rwa [AList.keys, List.keys, List.map_map] at hkeys
  · have hcursor : ((acentryCursor w.acentryRecords).map fun e => (e.strAccount, e.nEntryNo)).Nodup := by
      have hkeys := w.acentryRecords.keys_nodup
      rw [acentryCursor, ((List.perm_insertionSort _ _).map _).nodup_iff, List.map_map]
      exact hkeys
    rw [listAccountCreditDebit_eq, List.map_map]
    have hfilter : (((acentryCursor w.acentryRecords).filter fun e => e.strAccount = []).map
        fun e => (e.strAccount, e.nEntryNo)).Nodup := hcursor.sublist (List.filter_sublist.map _)
    have hkeys := hfilter.map (f := fun k : List UInt8 × Nat => OrderKey.acentry k.1 k.2) fun a b h => by
      obtain ⟨h1, h2⟩ := OrderKey.acentry.inj h
      exact Prod.ext h1 h2
    rwa [List.map_map] at hkeys
  · intro r htx hacentry
    rw [List.map_map] at htx hacentry
    obtain ⟨e, -, rfl⟩ := List.mem_map.mp htx
    obtain ⟨e', -, heq⟩ := List.mem_map.mp hacentry
    cases heq

theorem exists_listed {r : OrderKey} (h : w.pos r = some p) :
    (∃ item ∈ w.txByTime, item.key = r ∧ item.nOrderPos = p) ∨
      ∃ account n, account ≠ [] ∧ r = .acentry account n := by
  cases r with
  | tx hash =>
    obtain ⟨wtx, hl, hp⟩ := Option.map_eq_some_iff.mp h
    exact .inl ⟨.tx hash wtx, mem_txByTime.mpr hl, rfl, hp⟩
  | acentry account n =>
    by_cases haccount : account = []
    · obtain ⟨record, hl, hp⟩ := Option.map_eq_some_iff.mp h
      subst haccount
      exact .inl ⟨.acentry { record with strAccount := [], nEntryNo := n },
        mem_txByTime.mpr (mem_listAccountCreditDebit.mpr ⟨rfl, record, hl, rfl⟩), rfl, hp⟩
    · exact .inr ⟨account, n, haccount, rfl⟩
  | orderposnext => cases h

theorem not_listed {account : List UInt8} (haccount : account ≠ []) (n : Nat) :
    .acentry account n ∉ w.txByTime.map OrderItem.key := by
  intro hmem
  obtain ⟨item, hitem, heq⟩ := List.mem_map.mp hmem
  cases item with
  | tx => cases heq
  | acentry entry =>
    obtain ⟨rfl, rfl⟩ := OrderKey.acentry.inj heq
    exact haccount (mem_listAccountCreditDebit.mp (mem_txByTime.mp hitem)).1

/-- The numbers after the loop over so many elements. -/
def scanOf (items : List OrderItem) : OrderScan := OrderScan.after {} (items.map OrderItem.nOrderPos)

theorem reorderTransactions_spec (hsynced : w.Synced getHash) (h : w.reorderTransactions getHash fails = some w') :
    w'.Synced getHash ∧ w'.nOrderPosNext = (scanOf w.txByTime).nOrderPosNext ∧
      w'.orderposnextRecord =
        (if fails .orderposnext then w.orderposnextRecord else some (scanOf w.txByTime).nOrderPosNext) ∧
      (∀ r, r ∉ w.txByTime.map OrderItem.key → w'.pos r = w.pos r) ∧
      ∀ items₁ item items₂, w.txByTime = items₁ ++ item :: items₂ →
        w'.pos item.key = some ((scanOf items₁).place item.nOrderPos) := by
  obtain ⟨⟨w₁, s⟩, hloop, heq⟩ := Option.map_eq_some_iff.mp h
  obtain ⟨rfl, hsynced', hrecord, hothers, hplaced⟩ :=
    foldlM_reorderRound w.nodup_txByTime current_txByTime hsynced hloop
  obtain rfl := heq
  refine ⟨⟨hsynced'.keyed, hsynced'.stored⟩, rfl, ?_, hothers, hplaced⟩
  dsimp only
  rw [hrecord]
  rfl

/-! ### When the order is sound -/

/-- The positions are unset or different, and the records hold what is in memory. -/
structure Loaded (getHash : CTransaction → Uint256) (w : OrderWallet) : Prop extends Synced getHash w where
  valid : ∀ {r p}, w.pos r = some p → p = -1 ∨ 0 ≤ p
  apart : ∀ {r r' p}, 0 ≤ p → w.pos r = some p → w.pos r' = some p → r = r'

/-- The positions of the transactions and of the accounting entries of every account are different and below the next
one, the order of those that had one is kept, and the records hold what is in memory. -/
structure Sound (w w' : OrderWallet) : Prop where
  nonneg : ∀ {r q}, w'.pos r = some q → 0 ≤ q
  below : ∀ {r q}, w'.pos r = some q → q < w'.nOrderPosNext
  distinct : ∀ {r r' q}, w'.pos r = some q → w'.pos r' = some q → r = r'
  order : ∀ {r r' p p' q q'}, w.pos r = some p → w.pos r' = some p' → w'.pos r = some q →
    w'.pos r' = some q' →
    0 ≤ p → p < p' → q < q'
  stored : ∀ hash, w'.txRecords.lookup hash = w'.mapWallet.lookup hash
  storedNext : w'.orderposnextRecord = some w'.nOrderPosNext

/-- No position is moved onto one that was given out before, the entries of other accounts are out of the way, and the
last write succeeds or changes nothing. -/
structure PlacesApart (fails : OrderKey → Bool) (w : OrderWallet) : Prop where
  free : ∀ {items₁ item items₂}, w.txByTime = items₁ ++ item :: items₂ → item.nOrderPos ≠ -1 →
    (scanOf items₁).place item.nOrderPos ∉ (scanOf items₁).nOrderPosOffsets
  others : ∀ {account n q}, account ≠ [] → w.pos (.acentry account n) = some q →
    0 ≤ q ∧ q < (scanOf w.txByTime).nOrderPosNext ∧ q ∉ (scanOf w.txByTime).nOrderPosOffsets ∧
      ∀ item ∈ w.txByTime, 0 ≤ item.nOrderPos → item.nOrderPos < q →
        item.nOrderPos + (scanOf w.txByTime).nOrderPosOff item.nOrderPos < q
  next : fails .orderposnext = false ∨ w.orderposnextRecord = some (scanOf w.txByTime).nOrderPosNext

theorem pos_txByTime (hmem : item ∈ w.txByTime) : w.pos item.key = some item.nOrderPos :=
  (current_txByTime item hmem).pos_eq

theorem scanInv_txByTime (hw : w.Loaded getHash) : OrderScan.ScanInv (scanOf w.txByTime)
    (OrderScan.moves {} (w.txByTime.map OrderItem.nOrderPos)) := by
  refine OrderScan.scanInv_run (fun p hp => ?_) OrderScan.scanInv_start
  obtain ⟨item, hmem, rfl⟩ := List.mem_map.mp hp
  exact hw.valid (pos_txByTime hmem)

/-- The new position of a listed element. -/
theorem place_spec (hw : w.Loaded getHash) {items₁ items₂ : List OrderItem}
    (hsplit : w.txByTime = items₁ ++ item :: items₂) :
    (0 ≤ (scanOf items₁).place item.nOrderPos ∧
      (scanOf items₁).place item.nOrderPos < (scanOf w.txByTime).nOrderPosNext) ∧
      (item.nOrderPos = -1 → (scanOf items₁).place item.nOrderPos ∈ (scanOf w.txByTime).nOrderPosOffsets) ∧
      (item.nOrderPos ≠ -1 → 0 ≤ item.nOrderPos ∧ (scanOf items₁).place item.nOrderPos =
        item.nOrderPos + (scanOf w.txByTime).nOrderPosOff item.nOrderPos) := by
  have hinv := scanInv_txByTime hw
  have hmove : (item.nOrderPos, (scanOf items₁).place item.nOrderPos) ∈
      OrderScan.moves {} (w.txByTime.map OrderItem.nOrderPos) := by
    refine OrderScan.mem_moves_iff.mpr ⟨items₁.map OrderItem.nOrderPos, items₂.map OrderItem.nOrderPos, ?_, rfl⟩
    rw [hsplit, List.map_append, List.map_cons]
  refine ⟨hinv.range _ hmove, fun hunset => ?_, fun hset => ⟨?_, hinv.set _ hmove hset⟩⟩
  · rw [← hinv.unset]
    exact List.mem_map.mpr ⟨_, List.mem_filter.mpr ⟨hmove, decide_eq_true hunset⟩, rfl⟩
  · exact (hw.valid (pos_txByTime (by rw [hsplit]; simp))).resolve_left hset

/-- Whom a position was given out to. -/
theorem exists_unset (hw : w.Loaded getHash) {items₁ items₂ : List OrderItem}
    (hsplit : w.txByTime = items₁ ++ items₂)
    {o : Int} (ho : o ∈ (scanOf items₁).nOrderPosOffsets) :
    ∃ A item B, items₁ = A ++ item :: B ∧ (scanOf A).place item.nOrderPos = o := by
  have hinv : OrderScan.ScanInv (scanOf items₁) (OrderScan.moves {} (items₁.map OrderItem.nOrderPos)) := by
    refine OrderScan.scanInv_run (fun p hp => ?_) OrderScan.scanInv_start
    obtain ⟨item, hmem, rfl⟩ := List.mem_map.mp hp
    exact hw.valid (pos_txByTime (by rw [hsplit]; exact List.mem_append_left _ hmem))
  rw [← hinv.unset] at ho
  obtain ⟨m, hm, rfl⟩ := List.mem_map.mp ho
  obtain ⟨ps₁, ps₂, heq, hplace⟩ := OrderScan.mem_moves_iff.mp (List.mem_filter.mp hm).1
  obtain ⟨A, rest, rfl, rfl, hrest⟩ := List.map_eq_append_iff.mp heq
  obtain ⟨item, B, rfl, hpos, -⟩ := List.map_eq_cons_iff.mp hrest
  exact ⟨A, item, B, rfl, by rw [hpos]; exact hplace⟩

/-- Whoever has a position afterwards. -/
theorem pos_cases (hsynced : w.Synced getHash) (h : w.reorderTransactions getHash fails = some w') {r : OrderKey}
    {q : Int} (hq : w'.pos r = some q) :
    (∃ items₁ item items₂, w.txByTime = items₁ ++ item :: items₂ ∧ item.key = r ∧
      (scanOf items₁).place item.nOrderPos = q) ∨
    ∃ account n, account ≠ [] ∧ r = .acentry account n ∧ w.pos r = some q := by
  obtain ⟨-, -, -, hothers, hplaced⟩ := reorderTransactions_spec hsynced h
  by_cases hlisted : r ∈ w.txByTime.map OrderItem.key
  · obtain ⟨item, hmem, rfl⟩ := List.mem_map.mp hlisted
    obtain ⟨items₁, items₂, hsplit⟩ := List.append_of_mem hmem
    rw [hplaced _ _ _ hsplit, Option.some.injEq] at hq
    exact .inl ⟨items₁, item, items₂, hsplit, rfl, hq⟩
  · rw [hothers r hlisted] at hq
    rcases exists_listed hq with ⟨item, hmem, rfl, -⟩ | ⟨account, n, haccount, rfl⟩
    · exact absurd (List.mem_map_of_mem hmem) hlisted
    · exact .inr ⟨account, n, haccount, rfl, hq⟩

theorem off_lt (s : OrderScan) {p' : Int} (h : p < p') :
    p + s.nOrderPosOff p < p' + s.nOrderPosOff p' := by
  have hmono := s.nOrderPosOff_mono h.le
  omega

/-- Elements without a position get different ones. -/
theorem eq_of_unset {items₁ items₂ items₁' items₂' : List OrderItem} {item' : OrderItem}
    (hsplit : w.txByTime = items₁ ++ item :: items₂)
    (hsplit' : w.txByTime = items₁' ++ item' :: items₂') (hunset : item.nOrderPos = -1)
    (hunset' : item'.nOrderPos = -1)
    (heq : (scanOf items₁).place item.nOrderPos = (scanOf items₁').place item'.nOrderPos) :
    item = item' := by
  have hlater (A B : List OrderItem) (i : OrderItem) :
      (scanOf A).place i.nOrderPos < (scanOf (A ++ i :: B)).place (-1) := by
    rw [scanOf, scanOf, List.map_append, List.map_cons]
    exact OrderScan.place_lt_of_later {} _ _ _
  rcases List.append_eq_append_iff.mp (hsplit.symm.trans hsplit') with ⟨A, rfl, hA⟩ | ⟨A, rfl, hA⟩
  · cases A with
    | nil => exact (List.cons.inj hA).1
    | cons i A =>
      obtain ⟨rfl, rfl⟩ := List.cons.inj hA
      have hlt := hlater items₁ A item
      rw [heq, hunset'] at hlt
      exact absurd hlt (lt_irrefl _)
  · cases A with
    | nil => exact (List.cons.inj hA).1.symm
    | cons i A =>
      obtain ⟨rfl, rfl⟩ := List.cons.inj hA
      have hlt := hlater items₁' A item'
      rw [← heq, hunset] at hlt
      exact absurd hlt (lt_irrefl _)

section

variable {items₁ items₂ items₁' items₂' : List OrderItem} {item' : OrderItem}
  (hapart : w.PlacesApart fails) (hw : w.Loaded getHash)

theorem pos_of_split (hsplit : w.txByTime = items₁ ++ item :: items₂) : w.pos item.key = some item.nOrderPos :=
  pos_txByTime (by rw [hsplit]; simp)

include hapart

/-- A position that was there is not moved onto one that was given out, at its round or later. -/
theorem place_notMem (hsplit : w.txByTime = items₁ ++ item :: items₂) (hset : item.nOrderPos ≠ -1) :
    (scanOf items₁).place item.nOrderPos ∉ (scanOf w.txByTime).nOrderPosOffsets := by
  rw [hsplit, scanOf, scanOf, List.map_append, List.map_cons, OrderScan.place_mem_iff hset]
  exact hapart.free hsplit hset

include hw

/-- No listed element comes to the position of an entry of another account. -/
theorem key_eq_of_other {account : List UInt8} {n : Nat} (hsplit : w.txByTime = items₁ ++ item :: items₂)
    (ha : account ≠ []) (hold : w.pos (.acentry account n) = some ((scanOf items₁).place item.nOrderPos)) :
    item.key = .acentry account n := by
  obtain ⟨hge, -, hout, hbefore⟩ := hapart.others ha hold
  obtain ⟨-, hunset, hset⟩ := place_spec hw hsplit
  by_cases hp : item.nOrderPos = -1
  · exact absurd (hunset hp) hout
  · obtain ⟨hnonneg, hplace⟩ := hset hp
    have hoff := OrderScan.nOrderPosOff_nonneg (scanOf w.txByTime) item.nOrderPos
    have hle : ¬ item.nOrderPos < (scanOf items₁).place item.nOrderPos := by
      intro hlt
      have hlt' := hbefore item (by rw [hsplit]; simp) hnonneg hlt
      rw [hplace] at hlt'
      exact lt_irrefl _ hlt'
    rw [show (scanOf items₁).place item.nOrderPos = item.nOrderPos by omega] at hold
    exact hw.apart hnonneg (pos_of_split hsplit) hold

/-- Two listed elements come to different positions. -/
theorem key_eq_of_place (hsplit : w.txByTime = items₁ ++ item :: items₂)
    (hsplit' : w.txByTime = items₁' ++ item' :: items₂')
    (heq : (scanOf items₁).place item.nOrderPos = (scanOf items₁').place item'.nOrderPos) :
    item.key = item'.key := by
  obtain ⟨-, hunset, hset⟩ := place_spec hw hsplit
  obtain ⟨-, hunset', hset'⟩ := place_spec hw hsplit'
  by_cases hp : item.nOrderPos = -1
  · by_cases hp' : item'.nOrderPos = -1
    · rw [eq_of_unset hsplit hsplit' hp hp' heq]
    · exact absurd (heq ▸ hunset hp) (place_notMem hapart hsplit' hp')
  · by_cases hp' : item'.nOrderPos = -1
    · rw [← heq] at hunset'
      exact absurd (hunset' hp') (place_notMem hapart hsplit hp)
    · obtain ⟨hnonneg, hplace⟩ := hset hp
      rw [hplace, (hset' hp').2] at heq
      have hsame : item.nOrderPos = item'.nOrderPos := by
        rcases lt_trichotomy item.nOrderPos item'.nOrderPos with hlt | hsame | hlt
        · exact absurd heq (off_lt _ hlt).ne
        · exact hsame
        · exact absurd heq.symm (off_lt _ hlt).ne
      exact hw.apart hnonneg (pos_of_split hsplit) (hsame ▸ pos_of_split hsplit')

variable {r r' : OrderKey} {p p' q q' : Int} (h : w.reorderTransactions getHash fails = some w')
  (hq : w'.pos r = some q)

include h hq

theorem PlacesApart.inRange : 0 ≤ q ∧ q < (scanOf w.txByTime).nOrderPosNext := by
  rcases pos_cases hw.toSynced h hq with ⟨items₁, item, items₂, hsplit, rfl, rfl⟩ | ⟨a, n, ha, rfl, hold⟩
  · exact (place_spec hw hsplit).1
  · obtain ⟨hge, hlt, -⟩ := hapart.others ha hold
    exact ⟨hge, hlt⟩

theorem PlacesApart.distinct (hq' : w'.pos r' = some q) : r = r' := by
  rcases pos_cases hw.toSynced h hq with ⟨items₁, item, items₂, hsplit, rfl, heq⟩ | ⟨a, n, ha, rfl, hold⟩ <;>
    rcases pos_cases hw.toSynced h hq' with ⟨items₁', item', items₂', hsplit', rfl, rfl⟩ | ⟨a', n', ha', rfl, hold'⟩
  · exact key_eq_of_place hapart hw hsplit hsplit' heq
  · exact key_eq_of_other hapart hw hsplit ha' (heq ▸ hold')
  · exact (key_eq_of_other hapart hw hsplit' ha hold).symm
  · exact hw.apart (hapart.others ha hold).1 hold hold'

theorem PlacesApart.order (hp : w.pos r = some p) (hp' : w.pos r' = some p') (hq' : w'.pos r' = some q')
    (hnonneg : 0 ≤ p) (hlt : p < p') : q < q' := by
  rcases pos_cases hw.toSynced h hq' with ⟨items₁', item', items₂', hsplit', rfl, rfl⟩ | ⟨a', n', ha', rfl, hold'⟩
  · -- the later one is listed: its position goes up by as much at least
    rw [pos_of_split hsplit', Option.some.injEq] at hp'
    rw [((place_spec hw hsplit').2.2 (by omega)).2, hp']
    rcases pos_cases hw.toSynced h hq with ⟨items₁, item, items₂, hsplit, rfl, rfl⟩ | ⟨a, n, ha, rfl, hold⟩
    · rw [pos_of_split hsplit, Option.some.injEq] at hp
      rw [((place_spec hw hsplit).2.2 (by omega)).2, hp]
      exact off_lt _ hlt
    · rw [hp, Option.some.injEq] at hold
      have hoff := OrderScan.nOrderPosOff_nonneg (scanOf w.txByTime) p'
      omega
  · rw [hp', Option.some.injEq] at hold'
    rw [← hold']
    rcases pos_cases hw.toSynced h hq with ⟨items₁, item, items₂, hsplit, rfl, rfl⟩ | ⟨a, n, ha, rfl, hold⟩
    · rw [pos_of_split hsplit, Option.some.injEq] at hp
      rw [((place_spec hw hsplit).2.2 (by omega)).2]
      exact (hapart.others ha' hp').2.2.2 item (by rw [hsplit]; simp) (by omega) (by omega)
    · rw [hp, Option.some.injEq] at hold
      omega

end

theorem sound_of_placesApart (hw : w.Loaded getHash) (h : w.reorderTransactions getHash fails = some w')
    (hapart : w.PlacesApart fails) : Sound w w' := by
  obtain ⟨hsynced, hnext, hrecord, -⟩ := reorderTransactions_spec hw.toSynced h
  refine ⟨fun hq => (hapart.inRange hw h hq).1, fun hq => hnext ▸ (hapart.inRange hw h hq).2,
    fun hq hq' => hapart.distinct hw h hq hq',
    fun hp hp' hq hq' hnonneg hlt => hapart.order hw h hq hp hp' hq' hnonneg hlt, hsynced.stored, ?_⟩
  rw [hrecord, hnext]
  rcases hapart.next with hok | hsame
  · rw [hok]
    rfl
  · rw [hsame, ite_self]

theorem placesApart_of_sound (hw : w.Loaded getHash) (h : w.reorderTransactions getHash fails = some w')
    (hsound : Sound w w') : w.PlacesApart fails := by
  obtain ⟨-, hnext, hrecord, hothers, hplaced⟩ := reorderTransactions_spec hw.toSynced h
  constructor
  case free =>
    intro items₁ item items₂ hsplit hset hmem
    obtain ⟨A, other, B, rfl, hplace⟩ := exists_unset hw hsplit hmem
    have hkey : other.key = item.key := by
      refine hsound.distinct (hplaced A other (B ++ item :: items₂) (by rw [hsplit]; simp)) ?_
      rw [hplace]
      exact hplaced _ _ _ hsplit
    have hnodup := w.nodup_txByTime
    rw [hsplit, List.map_append, List.map_cons, List.nodup_append] at hnodup
    exact hnodup.2.2 _ (List.mem_map_of_mem (by simp)) _ List.mem_cons_self hkey
  case others =>
    intro account n q ha hold
    have hsame : w'.pos (.acentry account n) = some q := by rw [hothers _ (not_listed ha n), hold]
    refine ⟨hsound.nonneg hsame, by rw [← hnext]; exact hsound.below hsame, ?_, ?_⟩
    · intro hmem
      obtain ⟨A, other, B, hsplit, hplace⟩ := exists_unset hw (List.append_nil _).symm hmem
      have hkey : other.key = .acentry account n := by
        refine hsound.distinct (hplaced A other B hsplit) ?_
        rw [hplace]
        exact hsame
      exact not_listed ha n (List.mem_map.mpr ⟨other, by rw [hsplit]; simp, hkey⟩)
    · intro item hmem hnonneg hlt
      obtain ⟨items₁, items₂, hsplit⟩ := List.append_of_mem hmem
      rw [← ((place_spec hw hsplit).2.2 (by omega)).2]
      exact hsound.order (pos_txByTime hmem) hold (hplaced _ _ _ hsplit) hsame hnonneg hlt
  case next =>
    have hstored := hsound.storedNext
    rw [hrecord, hnext] at hstored
    cases hfails : fails .orderposnext with
    | false => exact .inl rfl
    | true =>
      rw [hfails] at hstored
      exact .inr hstored

/-! ### A second call -/

theorem reorderRound_set {s : OrderScan} (hs : s.nOrderPosOffsets = []) (hset : item.nOrderPos ≠ -1)
    (w : OrderWallet) :
    ∃ w₁ s₁, reorderRound getHash fails (w, s) item = some (w₁, s₁) ∧ s₁.nOrderPosOffsets = [] := by
  have hwrites : s.writes item.nOrderPos = false := by
    rw [OrderScan.writes, OrderScan.nOrderPosOff, hs]
    simpa using hset
  unfold reorderRound
  dsimp only
  rw [if_neg (by rw [hwrites]; exact Bool.false_ne_true), OrderScan.next_set hset]
  exact ⟨_, _, rfl, hs⟩

theorem foldlM_reorderRound_set : ∀ {items : List OrderItem} {s : OrderScan} (w : OrderWallet),
    s.nOrderPosOffsets = [] → (∀ item ∈ items, item.nOrderPos ≠ -1) →
    ∃ r, items.foldlM (reorderRound getHash fails) (w, s) = some r := by
  intro items
  induction items with
  | nil => exact fun w _ _ => ⟨_, rfl⟩
  | cons item items ih =>
    intro s w hs hset
    obtain ⟨hitem, hset⟩ := List.forall_mem_cons.mp hset
    obtain ⟨w₁, s₁, hround, hs₁⟩ : ∃ w₁ s₁,
        reorderRound getHash fails (w, s) item = some (w₁, s₁) ∧
        s₁.nOrderPosOffsets = [] := reorderRound_set hs hitem w
    obtain ⟨r, hr⟩ := ih w₁ hs₁ hset
    refine ⟨r, ?_⟩
    rw [List.foldlM_cons, hround]
    exact hr

theorem offsets_after_set : ∀ {ps : List Int} {s : OrderScan}, s.nOrderPosOffsets = [] →
    (∀ p ∈ ps, p ≠ -1) →
    (s.after ps).nOrderPosOffsets = [] := by
  intro ps
  induction ps with
  | nil => exact fun hs _ => hs
  | cons p ps ih =>
    intro s hs hps
    obtain ⟨hp, hps⟩ := List.forall_mem_cons.mp hps
    refine ih (s := s.next p) ?_ hps
    rw [OrderScan.next_set hp]
    exact hs

/-- **A second call** succeeds, whatever cannot be written, and moves nothing. -/
theorem reorderTransactions_again (hset : ∀ item ∈ w.txByTime, item.nOrderPos ≠ -1) (hsynced : w.Synced getHash)
    (fails : OrderKey → Bool) :
    ∃ w', w.reorderTransactions getHash fails = some w' ∧ ∀ r, w'.pos r = w.pos r := by
  obtain ⟨⟨w₁, s⟩, hloop⟩ : ∃ r, w.txByTime.foldlM (reorderRound getHash fails) (w, {}) = some r :=
    foldlM_reorderRound_set w rfl hset
  obtain ⟨w', hrun⟩ : ∃ w', w.reorderTransactions getHash fails = some w' := by
    rw [reorderTransactions, hloop]
    exact ⟨_, rfl⟩
  refine ⟨w', hrun, fun r => ?_⟩
  obtain ⟨-, -, -, hothers, hplaced⟩ := reorderTransactions_spec hsynced hrun
  by_cases hlisted : r ∈ w.txByTime.map OrderItem.key
  · obtain ⟨item, hmem, rfl⟩ := List.mem_map.mp hlisted
    obtain ⟨items₁, items₂, hsplit⟩ := List.append_of_mem hmem
    have hnone : (scanOf items₁).nOrderPosOffsets = [] := by
      refine offsets_after_set rfl fun p hp => ?_
      obtain ⟨other, hother, rfl⟩ := List.mem_map.mp hp
      exact hset other (by rw [hsplit]; exact List.mem_append_left _ hother)
    rw [hplaced _ _ _ hsplit, OrderScan.place_set (hset item hmem), OrderScan.nOrderPosOff, hnone,
      pos_txByTime hmem]
    simp
  · exact hothers r hlisted

theorem set_of_reorderTransactions (hw : w.Loaded getHash) (h : w.reorderTransactions getHash fails = some w') :
    ∀ item ∈ w'.txByTime, item.nOrderPos ≠ -1 := by
  intro item hmem
  have hpos := pos_txByTime hmem
  rcases pos_cases hw.toSynced h hpos with ⟨items₁, other, items₂, hsplit, -, hplace⟩ | ⟨a, n, ha, hkey, -⟩
  · have hnonneg := (place_spec hw hsplit).1.1
    omega
  · exact absurd (List.mem_map.mpr ⟨item, hmem, hkey⟩) (not_listed ha n)

/-! ### The whole -/

/-- **The order after the call** is sound exactly if the places are apart, and the next call moves nothing. -/
theorem reorderTransactions_sound_iff (hw : w.Loaded getHash) (h : w.reorderTransactions getHash fails = some w') :
    (w.Sound w' ↔ w.PlacesApart fails) ∧
      ∀ fails', ∃ w'', w'.reorderTransactions getHash fails' = some w'' ∧ ∀ r, w''.pos r = w'.pos r :=
  ⟨⟨placesApart_of_sound hw h, sound_of_placesApart hw h⟩,
    reorderTransactions_again (set_of_reorderTransactions hw h) (reorderTransactions_spec hw.toSynced h).1⟩

/-- A wallet that holds transactions only, as they are stored. -/
theorem loaded_of_txs {m : StdMap Uint256 CWalletTx}
    (hvalid : ∀ e ∈ m.entries, getHash e.2.tx = e.1 ∧ (e.2.nOrderPos = -1 ∨ 0 ≤ e.2.nOrderPos))
    (hapart : ∀ e ∈ m.entries, ∀ e' ∈ m.entries, 0 ≤ e.2.nOrderPos → e.2.nOrderPos = e'.2.nOrderPos →
        e.1 = e'.1) :
    Loaded getHash { mapWallet := m, txRecords := m } := by
  have htx {r : OrderKey} {p : Int} (h : ({ mapWallet := m, txRecords := m } : OrderWallet).pos r = some p) :
      ∃ hash wtx, r = .tx hash ∧ ⟨hash, wtx⟩ ∈ m.entries ∧ wtx.nOrderPos = p := by
    cases r with
    | tx hash =>
      obtain ⟨wtx, hl, hp⟩ := Option.map_eq_some_iff.mp h
      exact ⟨hash, wtx, rfl, AList.mem_lookup_iff.mp hl, hp⟩
    | acentry => cases h
    | orderposnext => cases h
  constructor
  case toSynced => exact ⟨fun hl => (hvalid _ (AList.mem_lookup_iff.mp hl)).1, fun _ => rfl⟩
  case valid =>
    intro r p h
    obtain ⟨hash, wtx, -, hmem, rfl⟩ := htx h
    exact (hvalid _ hmem).2
  case apart =>
    intro r r' p hp h h'
    obtain ⟨hash, wtx, rfl, hmem, rfl⟩ := htx h
    obtain ⟨hash', wtx', rfl, hmem', heq⟩ := htx h'
    exact congrArg OrderKey.tx (hapart _ hmem _ hmem' hp heq.symm)

def sampleOrderTx (nTime : Nat) (nOrderPos : Int) : Sigma fun _ : Uint256 => CWalletTx :=
  ⟨nTime, { tx := { nTime := nTime, vin := [], vout := [] }, nTimeReceived := nTime, nOrderPos := nOrderPos }⟩

def sampleOrderWallet (txs : List (Sigma fun _ : Uint256 => CWalletTx)) : OrderWallet :=
  { mapWallet := txs.toAList, txRecords := txs.toAList }

/-- A transaction without a position comes first, and the other one is moved behind it. -/
theorem reorderTransactions_sound_iff_moved :
    ∃ w', (sampleOrderWallet [sampleOrderTx 1 (-1), sampleOrderTx 2 0]).reorderTransactions (fun tx => tx.nTime)
        (fun _ => false) = some w' ∧ (w'.pos (.tx 1) = some 0 ∧ w'.pos (.tx 2) = some 1) ∧
      (Sound (sampleOrderWallet [sampleOrderTx 1 (-1), sampleOrderTx 2 0]) w' ↔
        PlacesApart (fun _ => false) (sampleOrderWallet [sampleOrderTx 1 (-1), sampleOrderTx 2 0])) := by
  obtain ⟨w', hrun, hpos⟩ : ∃ w',
      (sampleOrderWallet [sampleOrderTx 1 (-1), sampleOrderTx 2 0]).reorderTransactions
      (fun tx => tx.nTime) (fun _ => false) = some w' ∧ (w'.pos (.tx 1) = some 0 ∧ w'.pos (.tx 2) = some 1) :=
    ⟨_, rfl, by decide +kernel⟩
  exact ⟨w', hrun, hpos,
    (reorderTransactions_sound_iff (loaded_of_txs (by decide +kernel) (by decide +kernel)) hrun).1⟩

/-- Two transactions without a position come first, and the third one is moved onto the second. -/
theorem reorderTransactions_collide : ∃ w w' : OrderWallet, w.Loaded (fun tx => tx.nTime) ∧
    w.reorderTransactions (fun tx => tx.nTime) (fun _ => false) = some w' ∧ ¬ w.Sound w' := by
  obtain ⟨w', hrun, hpos⟩ : ∃ w', (sampleOrderWallet [sampleOrderTx 1 (-1), sampleOrderTx 2 (-1),
      sampleOrderTx 3 0]).reorderTransactions (fun tx => tx.nTime) (fun _ => false) = some w' ∧
      (w'.pos (.tx 2) = some 1 ∧ w'.pos (.tx 3) = some 1) := ⟨_, rfl, by decide +kernel⟩
  refine ⟨_, w', loaded_of_txs (by decide +kernel) (by decide +kernel), hrun, fun hsound => ?_⟩
  exact absurd (hsound.distinct hpos.1 hpos.2) (by decide)

end OrderWallet

end Sphinx
