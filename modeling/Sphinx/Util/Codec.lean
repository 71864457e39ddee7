import Mathlib.Algebra.Order.BigOperators.Group.List
import Mathlib.Data.Nat.Digits.Defs

/-!
# Readers of byte streams

A `Reader` takes its value from the front of the bytes still to be read, and fails if they end too early.
`Reads r bytes a` says that `r` reads `a` from `bytes`, and just these bytes, whatever comes after them.
The rules follow the reader:

* `reads_pure`, `reads_map` and `reads_bind` for what is read in sequence;
* `reads_readLE` and `reads_readInt` for numbers of a fixed width, lowest byte first;
* `reads_readMany` for a known number of values of the same kind.

`Fails r bytes` says that `r` reads nothing from a stream that begins with `bytes`, and has the same rules.

`Canonical r write` is the converse: whatever `r` accepts is what `write` gives for the value, so that a value has
one encoding only.  `Local r` says that `r` reads its value from the bytes that it takes away: then the value is read
again from its encoding (`Local.reads`).

`BN_bin2bn`, `BN_num_bytes` and `BN_bn2bin`: a number is written in as few bytes as it takes, the highest first.
-/

namespace Sphinx.Codec

variable {bytes s rest : List UInt8} {n : Nat}

/-- What reads a value from the front of a stream, and what is left of the stream. -/
abbrev Reader (α : Type) := StateT (List UInt8) Option α

/-- `r` reads `a` from `bytes`, to the last byte. -/
def Reads {α : Type} (r : Reader α) (bytes : List UInt8) (a : α) : Prop :=
  ∀ rest, r (bytes ++ rest) = some (a, rest)

variable {α β : Type} {r : Reader α} {f : α → Reader β} {as : List α} {a : α} {write : α → List UInt8}

theorem Reads.run (h : Reads r bytes a) :
    r bytes = some (a, []) := by
  have hnil := h []
  rwa [List.append_nil] at hnil

theorem reads_pure (a : α) : Reads (pure a) [] a := fun _ => rfl

theorem bind_apply (r : Reader α) (f : α → Reader β) (s : List UInt8) :
    (r >>= f) s = (r s).bind fun x => f x.1 x.2 := rfl

theorem bind_apply_of_eq {s' : List UInt8}
    (h : r s = some (a, s')) : (r >>= f) s = f a s' := by
  rw [bind_apply, h, Option.bind_some]

theorem reads_bind {bytes' : List UInt8} {b : β}
    (h : Reads r bytes a) (hf : Reads (f a) bytes' b) : Reads (r >>= f) (bytes ++ bytes') b := by
  intro rest
  rw [bind_apply, List.append_assoc, h (bytes' ++ rest)]
  exact hf rest

theorem reads_bind_nil {b : β} (h : Reads r bytes a)
    (hf : Reads (f a) [] b) : Reads (r >>= f) bytes b := by
  have hread := reads_bind h hf
  rwa [List.append_nil] at hread

/-- `r` reads no value that begins with `bytes`. -/
def Fails {α : Type} (r : Reader α) (bytes : List UInt8) : Prop := ∀ rest, r (bytes ++ rest) = none

theorem fails_failure : Fails (failure : Reader α) [] := fun _ => rfl

theorem fails_bind {bytes' : List UInt8} (h : Reads r bytes a)
    (hf : Fails (f a) bytes') : Fails (r >>= f) (bytes ++ bytes') := by
  intro rest
  rw [bind_apply, List.append_assoc, h (bytes' ++ rest)]
  exact hf rest

theorem fails_bind_nil (h : Reads r bytes a)
    (hf : Fails (f a) []) : Fails (r >>= f) bytes := by
  have hfails := fails_bind h hf
  rwa [List.append_nil] at hfails

theorem fails_bind_left (h : Fails r bytes) (bytes' : List UInt8) :
    Fails (r >>= f) (bytes ++ bytes') := by
  intro rest
  rw [bind_apply, List.append_assoc, h (bytes' ++ rest)]
  rfl

theorem fails_map (h : Fails r bytes) (f : α → β) :
    Fails (f <$> r) bytes := by
  intro rest
  show (r (bytes ++ rest)).bind (fun x => some (f x.1, x.2)) = _
  rw [h rest]
  rfl

theorem reads_map (h : Reads r bytes a) (f : α → β) :
    Reads (f <$> r) bytes (f a) := by
  intro rest
  show (r (bytes ++ rest)).bind (fun x => some (f x.1, x.2)) = _
  rw [h rest]
  rfl

theorem bind_eq_some {b : β} :
    (r >>= f) s = some (b, rest) ↔ ∃ a s', r s = some (a, s') ∧ f a s' = some (b, rest) := by
  rw [bind_apply, Option.bind_eq_some_iff, Prod.exists]

theorem map_eq_some {f : α → β} {b : β} :
    (f <$> r) s = some (b, rest) ↔ ∃ a, r s = some (a, rest) ∧ f a = b := by
  show (r s).bind (fun x => some (f x.1, x.2)) = _ ↔ _
  simp [Option.bind_eq_some_iff]

theorem pure_eq_some {b : α} :
    (pure a : Reader α) s = some (b, rest) ↔ a = b ∧ s = rest := by
  show some (a, s) = _ ↔ _
  rw [Option.some.injEq, Prod.mk.injEq]

/-- `r` accepts a value in one encoding only, that of `write`. -/
def Canonical (r : Reader α) (write : α → List UInt8) : Prop :=
  ∀ s a rest, r s = some (a, rest) → s = write a ++ rest

/-- What `r` accepts it reads from the bytes that it takes away, whatever comes after them. -/
def Local (r : Reader α) : Prop :=
  ∀ s a rest, r s = some (a, rest) → ∃ bytes, s = bytes ++ rest ∧ Reads r bytes a

theorem Local.append (hr : Local r) (h : r s = some (a, rest)) (s' : List UInt8) :
    r (s ++ s') = some (a, rest ++ s') := by
  obtain ⟨bytes, rfl, hread⟩ := hr s a rest h
  rw [List.append_assoc]
  exact hread (rest ++ s')

/-- A value in its one encoding is read again. -/
theorem Local.reads (hr : Local r) (hc : Canonical r write) (h : r s = some (a, rest)) :
    Reads r (write a) a := by
  obtain ⟨bytes, hs, hread⟩ := hr s a rest h
  rwa [List.append_cancel_right ((hc s a rest h).symm.trans hs)]

theorem local_pure (a : α) : Local (pure a) := by
  intro s b rest h
  obtain ⟨rfl, rfl⟩ := pure_eq_some.mp h
  exact ⟨[], rfl, reads_pure a⟩

theorem local_failure : Local (failure : Reader α) := by
  intro s a rest h
  cases h

theorem local_bind (h : Local r) (hf : ∀ a, Local (f a)) : Local (r >>= f) := by
  intro s b rest hb
  obtain ⟨a, s', ha, hfa⟩ := bind_eq_some.mp hb
  obtain ⟨bytes, rfl, hread⟩ := h s a s' ha
  obtain ⟨bytes', rfl, hread'⟩ := hf a s' b rest hfa
  exact ⟨bytes ++ bytes', (List.append_assoc ..).symm, reads_bind hread hread'⟩

theorem local_map (h : Local r) (f : α → β) : Local (f <$> r) := by
  rw [map_eq_pure_bind]
  exact local_bind h fun a => local_pure (f a)

theorem local_ite {p : Prop} [Decidable p] {r' : Reader α} (h : Local r) (h' : Local r') :
    Local (if p then r else r') := by
  split_ifs <;> assumption

/-! ### What determines its value

Unlike a reader, this sets no limit to what is written. -/

/-- Where two streams begin with values in `P`, the values are the same, as far as `f` tells, and so is the rest. -/
def SplitsOff (P : α → Prop) (write : α → List UInt8) (f : α → β) : Prop :=
  ∀ a b s t, P a → P b → write a ++ s = write b ++ t → f a = f b ∧ s = t

theorem splitsOff_of_reads {P : α → Prop} {f : α → β} {r : Reader β}
    (h : ∀ a, P a → Reads r (write a) (f a)) : SplitsOff P write f := by
  intro a b s t ha hb heq
  have hread := h a ha s
  rw [heq, h b hb t] at hread
  obtain ⟨hvalue, hrest⟩ := Prod.mk.inj (Option.some.inj hread)
  exact ⟨hvalue.symm, hrest.symm⟩

theorem splitsOff_flatMap {P : α → Prop} {f : α → β} (h : SplitsOff P write f)
    {bs : List α} {t : List UInt8} (hlen : as.length = bs.length) (has : ∀ a ∈ as, P a)
    (hbs : ∀ b ∈ bs, P b) (heq : as.flatMap write ++ s = bs.flatMap write ++ t) :
    as.map f = bs.map f ∧ s = t := by
  induction as generalizing bs with
  | nil =>
    obtain rfl := List.eq_nil_of_length_eq_zero hlen.symm
    exact ⟨rfl, heq⟩
  | cons a as ih =>
    cases bs with
    | nil => cases hlen
    | cons b bs =>
      rw [List.flatMap_cons, List.flatMap_cons, List.append_assoc, List.append_assoc] at heq
      obtain ⟨hhead, hrest⟩ := h a b _ _ (has a List.mem_cons_self) (hbs b List.mem_cons_self) heq
      obtain ⟨htail, hst⟩ := ih (Nat.succ.inj hlen) (fun c hc => has c (List.mem_cons_of_mem a hc))
        (fun c hc => hbs c (List.mem_cons_of_mem b hc)) hrest
      rw [List.map_cons, List.map_cons, hhead, htail]
      exact ⟨rfl, hst⟩

/-! ### Bytes and numbers -/

/-- Reads `n` bytes. -/
def readBytes (n : Nat) : Reader (List UInt8) := fun s =>
  if s.length < n then none else some (s.take n, s.drop n)

theorem reads_readBytes (h : bytes.length = n) :
    Reads (readBytes n) bytes bytes := by
  intro rest
  have hlen : ¬ (bytes ++ rest).length < n := by rw [List.length_append, h]; omega
  rw [readBytes, if_neg hlen, ← h, List.take_left, List.drop_left]

theorem readBytes_zero : readBytes 0 = pure [] := rfl

theorem readBytes_eq_some :
    readBytes n s = some (bytes, rest) ↔ s = bytes ++ rest ∧ bytes.length = n := by
  constructor
  · intro h
    unfold readBytes at h
    split_ifs at h with hlen
    obtain ⟨rfl, rfl⟩ := Prod.mk.inj (Option.some.inj h)
    exact ⟨(List.take_append_drop n s).symm, List.length_take_of_le (by omega)⟩
  · rintro ⟨rfl, hlen⟩
    exact reads_readBytes hlen rest

theorem local_readBytes (n : Nat) : Local (readBytes n) := by
  intro s bytes rest h
  obtain ⟨rfl, hlen⟩ := readBytes_eq_some.mp h
  exact ⟨bytes, rfl, reads_readBytes hlen⟩

theorem readBytes_add (n k : Nat) :
    readBytes (n + k) = readBytes n >>= fun as => (as ++ ·) <$> readBytes k := by
  funext s
  rw [bind_apply]
  by_cases hn : s.length < n
  · rw [readBytes, readBytes, if_pos hn, if_pos (by omega)]
    rfl
  · show _ = (readBytes n s).bind fun x => (readBytes k x.2).bind fun y => some (x.1 ++ y.1, y.2)
    rw [readBytes, readBytes, if_neg hn, Option.bind_some]
    by_cases hk : (s.drop n).length < k
    · rw [readBytes, if_pos hk, if_pos (by rw [List.length_drop] at hk; omega)]
      rfl
    · rw [readBytes, if_neg hk, if_neg (by rw [List.length_drop] at hk; omega), Option.bind_some, List.take_add,
        List.drop_drop]

/-- The lowest `n` bytes of a number, the lowest first. -/
def toLE : Nat → Nat → List UInt8
  | 0, _ => []
  | n + 1, v => UInt8.ofNat v :: toLE n (v / 256)

/-- The number that bytes stand for, the lowest first. -/
def fromLE : List UInt8 → Nat
  | [] => 0
  | b :: bytes => b.toNat + 256 * fromLE bytes

@[simp] theorem length_toLE (n v : Nat) : (toLE n v).length = n := by
  induction n generalizing v with
  | zero => rfl
  | succ n ih => rw [toLE, List.length_cons, ih]

theorem fromLE_toLE {v : Nat} (h : v < 256 ^ n) : fromLE (toLE n v) = v := by
  induction n generalizing v with
  | zero =>
    rw [pow_zero] at h
    rw [toLE, fromLE]
    omega
  | succ n ih =>
    have hdiv : v / 256 < 256 ^ n := by
      rw [pow_succ] at h
      exact Nat.div_lt_of_lt_mul (by rwa [mul_comm])
    rw [toLE, fromLE, ih hdiv, UInt8.toNat_ofNat']
    omega

theorem toLE_fromLE (bytes : List UInt8) : toLE bytes.length (fromLE bytes) = bytes := by
  induction bytes with
  | nil => rfl
  | cons b bytes ih =>
    have hlt := b.toNat_lt
    have hhead : UInt8.ofNat (b.toNat + 256 * fromLE bytes) = b := by
      apply UInt8.toNat.inj
      rw [UInt8.toNat_ofNat']
      omega
    have htail : (b.toNat + 256 * fromLE bytes) / 256 = fromLE bytes := by omega
    rw [fromLE, List.length_cons, toLE, hhead, htail, ih]

theorem fromLE_lt (bytes : List UInt8) : fromLE bytes < 256 ^ bytes.length := by
  induction bytes with
  | nil => exact Nat.one_pos
  | cons b bytes ih =>
    have hlt := b.toNat_lt
    rw [fromLE, List.length_cons, pow_succ]
    omega

def readLE (n : Nat) : Reader Nat := fromLE <$> readBytes n

theorem reads_readLE {v : Nat} (h : v < 256 ^ n) : Reads (readLE n) (toLE n v) v := by
  have hread := reads_map (reads_readBytes (length_toLE n v)) fromLE
  rwa [fromLE_toLE h] at hread

theorem canonical_readLE (n : Nat) : Canonical (readLE n) (toLE n) := by
  intro s v rest h
  obtain ⟨bytes, hbytes, rfl⟩ := map_eq_some.mp h
  obtain ⟨rfl, rfl⟩ := readBytes_eq_some.mp hbytes
  rw [toLE_fromLE]

theorem readLE_lt {v : Nat} (h : readLE n s = some (v, rest)) : v < 256 ^ n := by
  obtain ⟨bytes, hbytes, rfl⟩ := map_eq_some.mp h
  obtain ⟨rfl, rfl⟩ := readBytes_eq_some.mp hbytes
  exact fromLE_lt bytes

theorem local_readLE (n : Nat) : Local (readLE n) := local_map (local_readBytes n) fromLE

theorem readLE_of_le (h : n ≤ s.length) :
    readLE n s = some (fromLE (s.take n), s.drop n) := by
  show (readBytes n s).bind (fun x => some (fromLE x.1, x.2)) = _
  rw [readBytes, if_neg (not_lt.mpr h)]
  rfl

theorem readLE_of_lt (h : s.length < n) : readLE n s = none := by
  show (readBytes n s).bind (fun x => some (fromLE x.1, x.2)) = _
  rw [readBytes, if_pos h]
  rfl

/-- A number in two's complement, `n` bytes wide. -/
def writeInt (n : Nat) (i : Int) : List UInt8 := toLE n (i % 256 ^ n).toNat

def readInt (n : Nat) : Reader Int := (fun v : Nat => (v : Int).bmod (256 ^ n)) <$> readLE n

@[simp] theorem length_writeInt (n : Nat) (i : Int) : (writeInt n i).length = n := length_toLE n _

/-- The numbers that fit into `n` bytes, in two's complement. -/
def FitsInt (n : Nat) (i : Int) : Prop := -(256 ^ n / 2) ≤ i ∧ i < 256 ^ n / 2

instance (n : Nat) (i : Int) : Decidable (FitsInt n i) := inferInstanceAs (Decidable (_ ∧ _))

theorem reads_readInt {i : Int} (h : FitsInt n i) :
    Reads (readInt n) (writeInt n i) i := by
  have hpos : (0 : Int) < 256 ^ n := by positivity
  have hcast : ((256 ^ n : Nat) : Int) = 256 ^ n := by push_cast; rfl
  have hnonneg : 0 ≤ i % 256 ^ n := Int.emod_nonneg _ hpos.ne'
  have hlt : (i % 256 ^ n).toNat < 256 ^ n := by
    zify
    rw [Int.toNat_of_nonneg hnonneg]
    exact Int.emod_lt_of_pos i hpos
  have hread := reads_map (reads_readLE hlt) fun v : Nat => (v : Int).bmod (256 ^ n)
  have hback : (((i % 256 ^ n).toNat : Nat) : Int).bmod (256 ^ n) = i := by
    rw [Int.toNat_of_nonneg hnonneg, ← hcast, Int.emod_bmod]
    unfold FitsInt at h
    rw [← hcast] at h
    exact Int.bmod_eq_of_le (by omega) (by omega)
  rwa [hback] at hread

theorem canonical_readInt (n : Nat) : Canonical (readInt n) (writeInt n) := by
  intro s i rest h
  obtain ⟨v, hv, rfl⟩ := map_eq_some.mp h
  have hcast : ((256 ^ n : Nat) : Int) = 256 ^ n := by push_cast; rfl
  have hlt : (v : Int) < 256 ^ n := by exact_mod_cast readLE_lt hv
  have hback : ((v : Int).bmod (256 ^ n) % 256 ^ n).toNat = v := by
    rw [← hcast, Int.bmod_emod, hcast, Int.emod_eq_of_lt (Int.natCast_nonneg v) hlt, Int.toNat_natCast]
  rw [writeInt, hback]
  exact canonical_readLE n s v rest hv

theorem local_readInt (n : Nat) : Local (readInt n) := local_map (local_readLE n) _

theorem readInt_of_le (h : n ≤ s.length) :
    readInt n s = some ((fromLE (s.take n) : Int).bmod (256 ^ n), s.drop n) := by
  show (readLE n s).bind (fun x => some ((x.1 : Int).bmod (256 ^ n), x.2)) = _
  rw [readLE_of_le h]
  rfl

/-! ### Many values -/

def readMany (r : Reader α) : Nat → Reader (List α)
  | 0 => pure []
  | n + 1 => do
    let a ← r
    (a :: ·) <$> readMany r n

/-- Values written one after the other are read one after the other; `f` is what a value looks like once
it is read. -/
theorem reads_readMany {r : Reader β} {f : α → β} (as : List α)
    (h : ∀ a ∈ as, Reads r (write a) (f a)) :
    Reads (readMany r as.length) (as.flatMap write) (as.map f) := by
  induction as with
  | nil => exact reads_pure []
  | cons a as ih =>
    have htail := ih fun b hb => h b (List.mem_cons_of_mem a hb)
    exact reads_bind (h a List.mem_cons_self) (reads_map htail (f a :: ·))

/-- The first value that is not read stops the loop. -/
theorem fails_readMany {r : Reader β} {f : α → β} (as bs : List α)
    (has : ∀ b ∈ as, Reads r (write b) (f b)) (ha : Fails r (write a)) :
    Fails (readMany r (as ++ a :: bs).length) ((as ++ a :: bs).flatMap write) := by
  induction as with
  | nil => exact fails_bind_left ha _
  | cons b as ih =>
    have htail := ih fun c hc => has c (List.mem_cons_of_mem b hc)
    exact fails_bind (has b List.mem_cons_self) (fails_map htail (f b :: ·))

theorem readMany_eq_some (hr : Canonical r write)
    (h : readMany r n s = some (as, rest)) :
    s = as.flatMap write ++ rest ∧ as.length = n := by
  induction n generalizing s as with
  | zero =>
    obtain ⟨rfl, rfl⟩ := pure_eq_some.mp h
    exact ⟨rfl, rfl⟩
  | succ n ih =>
    obtain ⟨a, s', ha, hmap⟩ := bind_eq_some.mp h
    obtain ⟨as', htail, rfl⟩ := map_eq_some.mp hmap
    obtain ⟨rfl, hlen⟩ := ih htail
    rw [hr _ _ _ ha, List.flatMap_cons, List.append_assoc, List.length_cons, hlen]
    exact ⟨rfl, rfl⟩

theorem local_readMany (h : Local r) (n : Nat) : Local (readMany r n) := by
  induction n with
  | zero => exact local_pure []
  | succ n ih => exact local_bind h fun a => local_map ih (a :: ·)

/-- Where each of the values was read. -/
theorem readMany_getElem? (hr : Canonical r write)
    (h : readMany r n s = some (as, rest)) {i : Nat} (ha : as[i]? = some a) :
    ∃ s' rest', s = (as.take i).flatMap write ++ s' ∧ r s' = some (a, rest') := by
  induction n generalizing s as i with
  | zero =>
    obtain ⟨rfl, -⟩ := pure_eq_some.mp h
    cases ha
  | succ n ih =>
    obtain ⟨b, s₁, hb, hmap⟩ := bind_eq_some.mp h
    obtain ⟨as', htail, rfl⟩ := map_eq_some.mp hmap
    cases i with
    | zero =>
      obtain rfl := Option.some.inj ha
      exact ⟨s, s₁, rfl, hb⟩
    | succ i =>
      obtain ⟨s', rest', rfl, hread⟩ := ih htail ha
      refine ⟨s', rest', ?_, hread⟩
      rw [hr _ _ _ hb, List.take_succ_cons, List.flatMap_cons, List.append_assoc]

theorem readMany_add (r : Reader α) (n k : Nat) :
    readMany r (n + k) = readMany r n >>= fun as => (as ++ ·) <$> readMany r k := by
  induction n with
  | zero => simp [readMany]
  | succ n ih => simp [readMany, Nat.succ_add, ih]

theorem length_le_length_flatMap (write : α → List UInt8) (h : a ∈ as) :
    (write a).length ≤ (as.flatMap write).length := by
  rw [List.length_flatMap]
  exact List.le_sum_of_mem (List.mem_map_of_mem h)

theorem length_le_length_flatMap_of_pos (hpos : ∀ a, 1 ≤ (write a).length)
    (as : List α) : as.length ≤ (as.flatMap write).length := by
  induction as with
  | nil => exact Nat.zero_le _
  | cons a as ih =>
    have ha := hpos a
    rw [List.flatMap_cons, List.length_append, List.length_cons]
    omega

end Sphinx.Codec

/-! ### Big-endian numbers -/

namespace Sphinx.BigEndian

open Codec

/-- `BN_bin2bn`. -/
def bin2bn (bytes : List UInt8) : Nat := fromLE bytes.reverse

/-- `BN_num_bits`. -/
def numBits (n : Nat) : Nat := if n = 0 then 0 else n.log2 + 1

/-- `BN_num_bytes`. -/
def numBytes (n : Nat) : Nat := (numBits n + 7) / 8

/-- `BN_bn2bin`. -/
def bn2bin (n : Nat) : List UInt8 := (toLE (numBytes n) n).reverse

theorem length_bn2bin (n : Nat) : (bn2bin n).length = numBytes n := by
  rw [bn2bin, List.length_reverse, length_toLE]

theorem pow_256 (k : Nat) : 256 ^ k = 2 ^ (8 * k) := by
  rw [pow_mul]
  norm_num

theorem numBytes_eq_succ {n k : Nat} : numBytes n = k + 1 ↔ 256 ^ k ≤ n ∧ n < 256 ^ (k + 1) := by
  rw [pow_256, pow_256]
  by_cases hn : n = 0
  · subst hn
    have hpos : 0 < 2 ^ (8 * k) := by positivity
    rw [numBytes, numBits, if_pos rfl]
    omega
  · rw [numBytes, numBits, if_neg hn, ← Nat.le_log2 hn, ← Nat.log2_lt hn]
    omega

theorem lt_pow_numBytes (n : Nat) : n < 256 ^ numBytes n := by
  cases hk : numBytes n with
  | zero =>
    by_contra hn
    have hpos : n ≠ 0 := by
      rintro rfl
      exact hn (by decide)
    rw [numBytes, numBits, if_neg hpos] at hk
    omega
  | succ k => exact (numBytes_eq_succ.mp hk).2

theorem bin2bn_bn2bin (n : Nat) : bin2bn (bn2bin n) = n := by
  rw [bin2bn, bn2bin, List.reverse_reverse, fromLE_toLE (lt_pow_numBytes n)]

theorem bin2bn_lt (bytes : List UInt8) : bin2bn bytes < 256 ^ bytes.length := by
  have hlt := fromLE_lt bytes.reverse
  rwa [List.length_reverse] at hlt

theorem fromLE_append (a b : List UInt8) : fromLE (a ++ b) = fromLE a + 256 ^ a.length * fromLE b := by
  induction a with
  | nil => rw [List.nil_append, fromLE, List.length_nil, pow_zero, one_mul, Nat.zero_add]
  | cons x a ih =>
    rw [List.cons_append, fromLE, ih, fromLE, List.length_cons, pow_succ]
    ring

theorem bin2bn_cons (b : UInt8) (bytes : List UInt8) :
    bin2bn (b :: bytes) = b.toNat * 256 ^ bytes.length + bin2bn bytes := by
  rw [bin2bn, List.reverse_cons, fromLE_append, List.length_reverse, fromLE, fromLE, bin2bn]
  ring

theorem numBytes_bin2bn {b : UInt8} {bytes : List UInt8} (hb : b ≠ 0) :
    numBytes (bin2bn (b :: bytes)) = bytes.length + 1 := by
  have hpos : 1 ≤ b.toNat := by
    by_contra hzero
    exact hb (UInt8.toNat.inj (by rw [UInt8.toNat_zero]; omega))
  refine numBytes_eq_succ.mpr ⟨?_, bin2bn_lt (b :: bytes)⟩
  rw [bin2bn_cons]
  exact (Nat.le_mul_of_pos_left _ hpos).trans (Nat.le_add_right _ _)

theorem bn2bin_bin2bn {b : UInt8} {bytes : List UInt8} (hb : b ≠ 0) :
    bn2bin (bin2bn (b :: bytes)) = b :: bytes := by
  have hlen : (b :: bytes).reverse.length = bytes.length + 1 := by rw [List.length_reverse, List.length_cons]
  rw [bn2bin, numBytes_bin2bn hb, bin2bn, ← hlen, toLE_fromLE, List.reverse_reverse]

end Sphinx.BigEndian
