import Mathlib.Algebra.BigOperators.Group.Finset.Basic
import Sphinx.AddrMan

/-!
# The buckets of the address manager

`BucketInv` says where every entry is: a tried one in its "tried" bucket, and any other in as many "new" buckets as it
counts references.  While an entry is moved, a reference is counted for which it is in no bucket yet; `held` is this
entry.  There is a lemma for each thing that happens to an entry.
-/

namespace Sphinx

open Function (update update_of_ne update_self)

/-- What the buckets depend on of an entry. -/
structure AddrEntry where
  service : CService
  fInTried : Bool
  nRefCount : Int

def CAddrInfo.entry (info : CAddrInfo) : AddrEntry := ⟨info.service, info.fInTried, info.nRefCount⟩

/-- The "new" buckets of an entry. -/
def newBuckets (vvNew : NewBucket → Finset Nat) (id : Nat) : Finset NewBucket :=
  Finset.univ.filter fun b => id ∈ vvNew b

structure BucketInv (env : AddrManEnv) (entry : Nat → Option AddrEntry) (vvTried : TriedBucket → List Nat)
    (vvNew : NewBucket → Finset Nat) (held : Option Nat) : Prop where
  tried_iff : ∀ b id, id ∈ vvTried b ↔
    ∃ e, entry id = some e ∧ e.fInTried = true ∧ CAddrInfo.getTriedBucket env e.service = b
  tried_nodup : ∀ b, (vvTried b).Nodup
  tried_size : ∀ b, (vvTried b).length ≤ addrmanTriedBucketSize
  new_entry : ∀ b id, id ∈ vvNew b → ∃ e, entry id = some e ∧ e.fInTried = false
  new_size : ∀ b, (vvNew b).card ≤ addrmanNewBucketSize
  refs : ∀ id e, entry id = some e →
    e.nRefCount = (newBuckets vvNew id).card + if held = some id then 1 else 0
  refs_new : ∀ id e, entry id = some e → e.fInTried = false →
    1 ≤ e.nRefCount ∧ e.nRefCount ≤ addrmanNewBucketsPerAddress
  held_new : ∀ id, held = some id → ∃ e, entry id = some e ∧ e.fInTried = false

variable {env : AddrManEnv} {entry : Nat → Option AddrEntry} {vvTried vvTried' : TriedBucket → List Nat}
  {vvNew : NewBucket → Finset Nat} {held : Option Nat} {id : Nat} {e : AddrEntry} {b : NewBucket}

/-! ### The "new" buckets of an entry -/

theorem mem_newBuckets {b : NewBucket} : b ∈ newBuckets vvNew id ↔ id ∈ vvNew b := by
  rw [newBuckets, Finset.mem_filter]
  exact and_iff_right (Finset.mem_univ b)

theorem newBuckets_erase_self :
    newBuckets (update vvNew b ((vvNew b).erase id)) id = (newBuckets vvNew id).erase b := by
  ext b'
  rw [mem_newBuckets, Finset.mem_erase, mem_newBuckets]
  by_cases hb : b' = b
  · subst hb
    simp
  · rw [update_of_ne hb]
    exact (and_iff_right hb).symm

theorem newBuckets_insert_self :
    newBuckets (update vvNew b (insert id (vvNew b))) id = insert b (newBuckets vvNew id) := by
  ext b'
  rw [mem_newBuckets, Finset.mem_insert, mem_newBuckets]
  by_cases hb : b' = b
  · subst hb
    simp
  · rw [update_of_ne hb]
    exact (or_iff_right hb).symm

/-- What is true of the other elements of the one bucket that changes is true of them in every bucket. -/
theorem mem_update_iff {ι σ : Type} [DecidableEq ι] [Membership Nat σ] {f : ι → σ} {k : ι} {s : σ} {id' : Nat}
    (h : id' ∈ s ↔ id' ∈ f k) (k' : ι) : id' ∈ update f k s k' ↔ id' ∈ f k' := by
  by_cases hk : k' = k
  · rw [hk, update_self, h]
  · rw [update_of_ne hk]

/-- What is true of the one bucket that changes, and of all others before, is true of every bucket. -/
theorem forall_update {ι σ : Type} [DecidableEq ι] {P : σ → Prop} {f : ι → σ} {k : ι}
    {s : σ} (h : ∀ k', P (f k'))
    (hs : P s) (k' : ι) : P (update f k s k') := by
  by_cases hk : k' = k
  · rwa [hk, update_self]
  · rw [update_of_ne hk]
    exact h k'

namespace BucketInv

/-! ### One entry -/

/-- What the buckets say of an entry. -/
structure At (env : AddrManEnv) (vvTried : TriedBucket → List Nat) (vvNew : NewBucket → Finset Nat)
    (held : Option Nat) (id : Nat) (e : AddrEntry) : Prop where
  tried_iff : ∀ b, id ∈ vvTried b ↔ e.fInTried = true ∧ CAddrInfo.getTriedBucket env e.service = b
  refs : e.nRefCount = (newBuckets vvNew id).card + if held = some id then 1 else 0
  refs_new : e.fInTried = false → 1 ≤ e.nRefCount ∧ e.nRefCount ≤ addrmanNewBucketsPerAddress
  refs_tried : e.fInTried = true → newBuckets vvNew id = ∅ ∧ held ≠ some id

section

variable (h : BucketInv env entry vvTried vvNew held) (he : entry id = some e)

include h he

theorem entryAt :
    At env vvTried vvNew held id e where
  tried_iff b := (h.tried_iff b id).trans ⟨fun ⟨e', he', hb⟩ => Option.some.inj (he'.symm.trans he) ▸ hb,
    fun hb => ⟨e, he, hb⟩⟩
  refs := h.refs id e he
  refs_new := h.refs_new id e he
  refs_tried htried := by
    constructor
    · refine Finset.eq_empty_iff_forall_notMem.mpr fun b hb => ?_
      obtain ⟨e', he', hnew⟩ := h.new_entry b id (mem_newBuckets.mp hb)
      obtain rfl := Option.some.inj (he.symm.trans he')
      rw [htried] at hnew
      cases hnew
    · intro hheld
      obtain ⟨e', he', hnew⟩ := h.held_new id hheld
      obtain rfl := Option.some.inj (he.symm.trans he')
      rw [htried] at hnew
      cases hnew

theorem not_tried (hnew : e.fInTried = false)
    (b : TriedBucket) : id ∉ vvTried b := fun hmem => by
  have htried := (((h.entryAt he).tried_iff b).mp hmem).1
  rw [hnew] at htried
  cases htried

theorem refs_tried (htried : e.fInTried = true) :
    e.nRefCount = 0 := by
  obtain ⟨hempty, hheld⟩ := (h.entryAt he).refs_tried htried
  rw [(h.entryAt he).refs, hempty, if_neg hheld]
  rfl

end

/-- **Only one entry changes.**  The other ones stay where they are, so what is to be shown is what the buckets say of
the one, and the sizes. -/
theorem change (id : Nat) {entry' : Nat → Option AddrEntry} {vvNew' : NewBucket → Finset Nat} {held' : Option Nat}
    (h : BucketInv env entry vvTried vvNew held) (hentry : ∀ id' ≠ id, entry' id' = entry id')
    (htried : ∀ id' ≠ id, ∀ b, id' ∈ vvTried' b ↔ id' ∈ vvTried b)
    (hnew : ∀ id' ≠ id, ∀ b, id' ∈ vvNew' b ↔ id' ∈ vvNew b)
    (hheld : ∀ id' ≠ id, held' = some id' ↔ held = some id')
    (hnodup : ∀ b, (vvTried' b).Nodup) (hsize : ∀ b, (vvTried' b).length ≤ addrmanTriedBucketSize)
    (hcard : ∀ b, (vvNew' b).card ≤ addrmanNewBucketSize)
    (hsome : ∀ e, entry' id = some e → At env vvTried' vvNew' held' id e)
    (hnone : entry' id = none → (∀ b, id ∉ vvTried' b) ∧ (∀ b, id ∉ vvNew' b) ∧ held' ≠ some id) :
    BucketInv env entry' vvTried' vvNew' held' := by
  have hbuckets : ∀ id' ≠ id, newBuckets vvNew' id' = newBuckets vvNew id' := fun id' hne => by
    ext b
    rw [mem_newBuckets, mem_newBuckets, hnew id' hne]
  -- of each entry the buckets say what they should
  have hat : ∀ id' e, entry' id' = some e → At env vvTried' vvNew' held' id' e := by
    intro id' e he
    by_cases hne : id' = id
    · exact hne ▸ hsome e (hne ▸ he)
    · have hold := h.entryAt ((hentry id' hne).symm.trans he)
      refine ⟨fun b => (htried id' hne b).trans (hold.tried_iff b), ?_, hold.refs_new, ?_⟩
      · simp only [hbuckets id' hne, hheld id' hne]
        exact hold.refs
      · rw [hbuckets id' hne, Ne, hheld id' hne]
        exact hold.refs_tried
  have hin : ∀ id', entry' id' = none → (∀ b, id' ∉ vvTried' b) ∧ (∀ b, id' ∉ vvNew' b) ∧
      held' ≠ some id' := by
    intro id' he
    by_cases hne : id' = id
    · exact hne ▸ hnone (hne ▸ he)
    · rw [hentry id' hne] at he
      refine ⟨fun b hmem => ?_, fun b hmem => ?_, fun hmem => ?_⟩
      · obtain ⟨e, he', -⟩ := (h.tried_iff b id').mp ((htried id' hne b).mp hmem)
        rw [he] at he'
        cases he'
      · obtain ⟨e, he', -⟩ := h.new_entry b id' ((hnew id' hne b).mp hmem)
        rw [he] at he'
        cases he'
      · obtain ⟨e, he', -⟩ := h.held_new id' ((hheld id' hne).mp hmem)
        rw [he] at he'
        cases he'
  have hnewOf : ∀ {id' e}, entry' id' = some e → newBuckets vvNew' id' ≠ ∅ ∨
      held' = some id' → e.fInTried = false :=
    fun {id' e} he hor => by
      by_contra htrue
      obtain ⟨hempty, hnot⟩ := (hat id' e he).refs_tried (Bool.not_eq_false _ ▸ htrue)
      exact hor.elim (fun hne => hne hempty) hnot
  refine ⟨fun b id' => ?_, hnodup, hsize, fun b id' hmem => ?_, hcard, fun id' e he => (hat id' e he).refs,
    fun id' e he => (hat id' e he).refs_new, fun id' hmem => ?_⟩
  · cases he : entry' id' with
    | none => simp [(hin id' he).1 b]
    | some e => simp [(hat id' e he).tried_iff b]
  · cases he : entry' id' with
    | none => exact absurd hmem ((hin id' he).2.1 b)
    | some e => exact ⟨e, rfl, hnewOf he (.inl (Finset.ne_empty_of_mem (mem_newBuckets.mpr hmem)))⟩
  · cases he : entry' id' with
    | none => exact absurd hmem (hin id' he).2.2
    | some e => exact ⟨e, rfl, hnewOf he (.inr hmem)⟩

/-! ### What happens to an entry -/

section

variable (h : BucketInv env entry vvTried vvNew held)

include h

theorem perm (hperm : ∀ b, (vvTried' b).Perm (vvTried b)) :
    BucketInv env entry vvTried' vvNew held :=
  { h with
    tried_iff := fun b id => (hperm b).mem_iff.trans (h.tried_iff b id)
    tried_nodup := fun b => (hperm b).nodup_iff.mpr (h.tried_nodup b)
    tried_size := fun b => (hperm b).length_eq.trans_le (h.tried_size b) }

theorem card_erase_le (b' : NewBucket) :
    (update vvNew b ((vvNew b).erase id) b').card ≤ addrmanNewBucketSize :=
  forall_update (P := fun s : Finset Nat => s.card ≤ addrmanNewBucketSize) h.new_size
    (Finset.card_erase_le.trans (h.new_size b)) b'

/-- The entry loses a reference that was not the last. -/
theorem decrease (he : entry id = some e) (hid : id ∈ vvNew b)
    (hcount : e.nRefCount ≠ 1) :
    BucketInv env (update entry id (some { e with nRefCount := e.nRefCount - 1 })) vvTried
      (update vvNew b ((vvNew b).erase id)) held := by
  obtain ⟨e', he', hnew⟩ := h.new_entry b id hid
  obtain rfl : e = e' := Option.some.inj (he.symm.trans he')
  obtain ⟨hlo, hhi⟩ := h.refs_new id e he hnew
  refine h.change id (fun id' hne => update_of_ne hne ..) (fun _ _ _ => Iff.rfl)
    (fun id' hne => mem_update_iff (by simp [hne])) (fun _ _ => Iff.rfl) h.tried_nodup h.tried_size h.card_erase_le
    (fun e' he' => ?_) fun he' => by simp at he'
  rw [update_self, Option.some.injEq] at he'
  obtain rfl := he'
  refine ⟨(h.entryAt he).tried_iff, ?_, fun _ => ⟨by dsimp only; omega, by dsimp only; omega⟩, fun htried => ?_⟩
  · have hpos := Finset.card_pos.mpr ⟨b, mem_newBuckets.mpr hid⟩
    have hrefs := h.refs id e he
    rw [newBuckets_erase_self, Finset.card_erase_of_mem (mem_newBuckets.mpr hid)]
    dsimp only
    omega
  · rw [hnew] at htried
    cases htried

theorem remove (he : entry id = some e) (hid : id ∈ vvNew b)
    (hcount : e.nRefCount = 1) (hheld : held ≠ some id) :
    BucketInv env (update entry id none) vvTried (update vvNew b ((vvNew b).erase id)) held := by
  obtain ⟨e', he', hnew⟩ := h.new_entry b id hid
  obtain rfl : e = e' := Option.some.inj (he.symm.trans he')
  refine h.change id (fun id' hne => update_of_ne hne ..) (fun _ _ _ => Iff.rfl)
    (fun id' hne => mem_update_iff (by simp [hne])) (fun _ _ => Iff.rfl) h.tried_nodup h.tried_size h.card_erase_le
    (fun e' he' => by simp at he') fun _ => ⟨h.not_tried he hnew, fun b' hmem => ?_, hheld⟩
  -- it is in no other bucket
  have hrefs := h.refs id e he
  rw [if_neg hheld, hcount] at hrefs
  obtain ⟨b₁, hone⟩ := Finset.card_eq_one.mp (by omega : (newBuckets vvNew id).card = 1)
  have hall : ∀ {b'}, id ∈ vvNew b' → b' = b₁ := fun hmem =>
    Finset.mem_singleton.mp (hone ▸ mem_newBuckets.mpr hmem)
  rw [← mem_newBuckets, newBuckets_erase_self, Finset.mem_erase, mem_newBuckets] at hmem
  exact hmem.1 ((hall hmem.2).trans (hall hid).symm)

end

/-- An entry that is not tried gets another reference; it may be a new entry. -/
theorem hold (h : BucketInv env entry vvTried vvNew none) (hnew : e.fInTried = false)
    (hcount : e.nRefCount = (newBuckets vvNew id).card) (hlt : e.nRefCount < addrmanNewBucketsPerAddress)
    (hid : ∀ e', entry id = some e' → e'.fInTried = false) :
    BucketInv env (update entry id (some { e with nRefCount := e.nRefCount + 1 })) vvTried vvNew
      (some id) := by
  refine h.change id (fun id' hne => update_of_ne hne ..) (fun _ _ _ => Iff.rfl)
    (fun _ _ _ => Iff.rfl) (fun id' hne => by simp [Ne.symm hne]) h.tried_nodup h.tried_size h.new_size
    (fun e' he' => ?_) fun he' => by simp at he'
  rw [update_self, Option.some.injEq] at he'
  obtain rfl := he'
  refine ⟨fun b => ?_, ?_, fun _ => ⟨by dsimp only; omega, by dsimp only; omega⟩, fun htried => ?_⟩
  · have hout : id ∉ vvTried b := fun hmem => by
      obtain ⟨e', he', htried, -⟩ := (h.tried_iff b id).mp hmem
      rw [hid e' he'] at htried
      cases htried
    simp [hout, hnew]
  · rw [if_pos rfl, ← hcount]
  · rw [hnew] at htried
    cases htried

theorem insertHeld (h : BucketInv env entry vvTried vvNew (some id)) (hid : id ∉ vvNew b)
    (hsize : (vvNew b).card < addrmanNewBucketSize) :
    BucketInv env entry vvTried (update vvNew b (insert id (vvNew b))) none := by
  obtain ⟨e, he, hnew⟩ := h.held_new id rfl
  refine h.change id (fun _ _ => rfl) (fun _ _ _ => Iff.rfl)
    (fun id' hne => mem_update_iff (by simp [hne])) (fun id' hne => by simp [Ne.symm hne]) h.tried_nodup h.tried_size
    (forall_update (P := fun s : Finset Nat => s.card ≤ addrmanNewBucketSize) h.new_size
      ((Finset.card_insert_of_notMem hid).trans_le hsize)) (fun e' he' => ?_) fun he' => by simp [he] at he'
  obtain rfl := Option.some.inj (he.symm.trans he')
  refine ⟨(h.entryAt he).tried_iff, ?_, h.refs_new id e he, fun htried => ?_⟩
  · have hnot : b ∉ newBuckets vvNew id := fun hmem => hid (mem_newBuckets.mp hmem)
    have hrefs := h.refs id e he
    rw [if_pos rfl] at hrefs
    rw [newBuckets_insert_self, Finset.card_insert_of_notMem hnot, hrefs]
    simp
  · rw [hnew] at htried
    cases htried

/-- The entry moves from all of its "new" buckets to its "tried" bucket. -/
theorem promote (h : BucketInv env entry vvTried vvNew held) (he : entry id = some e) (hnew : e.fInTried = false)
    (hheld : held ≠ some id) {k : TriedBucket} (hk : CAddrInfo.getTriedBucket env e.service = k)
    (hsize : (vvTried k).length < addrmanTriedBucketSize) :
    BucketInv env (update entry id (some { e with nRefCount := 0, fInTried := true }))
      (update vvTried k (vvTried k ++ [id])) (fun b => (vvNew b).erase id) held := by
  have hout := h.not_tried he hnew
  have hempty : newBuckets (fun b => (vvNew b).erase id) id = ∅ :=
    Finset.eq_empty_iff_forall_notMem.mpr fun b hb => absurd rfl (Finset.mem_erase.mp (mem_newBuckets.mp hb)).1
  refine h.change id (fun id' hne => update_of_ne hne ..)
    (fun id' hne => mem_update_iff (by simp [hne])) (fun id' hne b => by simp [hne]) (fun _ _ => Iff.rfl)
    (forall_update h.tried_nodup ?_)
        (forall_update (P := fun l : List Nat => l.length ≤ addrmanTriedBucketSize) h.tried_size ?_)
    (fun b' => Finset.card_erase_le.trans (h.new_size b')) (fun e' he' => ?_) fun he' => by simp at he'
  · exact List.nodup_append.mpr ⟨h.tried_nodup k, List.nodup_singleton id, fun x hx y hy heq =>
      hout k (List.mem_singleton.mp hy ▸ heq ▸ hx)⟩
  · rwa [List.length_append]
  · rw [update_self, Option.some.injEq] at he'
    obtain rfl := he'
    refine ⟨fun b => ?_, by rw [hempty, if_neg hheld]; rfl, fun hfalse => (by cases hfalse),
      fun _ => ⟨hempty, hheld⟩⟩
    by_cases hb : b = k
    · subst hb
      simp [hk]
    · rw [update_of_ne hb]
      simp [hout b, hk, Ne.symm hb]

/-- The entry leaves its "tried" bucket, with a reference that is still open. -/
theorem demote (h : BucketInv env entry vvTried vvNew none) (he : entry id = some e) {k : TriedBucket} {l : List Nat}
    (hperm : (vvTried k).Perm (id :: l)) :
    BucketInv env (update entry id (some { e with fInTried := false, nRefCount := 1 }))
      (update vvTried k l) vvNew (some id) := by
  obtain ⟨htried, hk⟩ := ((h.entryAt he).tried_iff k).mp (hperm.mem_iff.mpr List.mem_cons_self)
  have hnodup := hperm.nodup_iff.mp (h.tried_nodup k)
  have hlen := hperm.length_eq
  have hsize := h.tried_size k
  rw [List.length_cons] at hlen
  refine h.change id (fun id' hne => update_of_ne hne ..)
    (fun id' hne => mem_update_iff (by rw [hperm.mem_iff, List.mem_cons]; exact (or_iff_right hne).symm))
    (fun _ _ _ => Iff.rfl) (fun id' hne => by simp [Ne.symm hne])
        (forall_update h.tried_nodup (List.nodup_cons.mp hnodup).2)
    (forall_update (P := fun l : List Nat => l.length ≤ addrmanTriedBucketSize) h.tried_size (by omega)) h.new_size
    (fun e' he' => ?_) fun he' => by simp at he'
  rw [update_self, Option.some.injEq] at he'
  obtain rfl := he'
  refine ⟨fun b => ?_, ?_, fun _ => ⟨le_rfl, show (1 : Int) ≤ addrmanNewBucketsPerAddress by decide⟩,
    fun hfalse => (by cases hfalse)⟩
  · by_cases hb : b = k
    · subst hb
      simp [(List.nodup_cons.mp hnodup).1]
    · rw [update_of_ne hb, (h.entryAt he).tried_iff, hk]
      simp [Ne.symm hb]
  · rw [((h.entryAt he).refs_tried htried).1, if_pos rfl]
    rfl

end BucketInv

theorem bucketInv_empty : BucketInv env (fun _ => none) (fun _ => []) (fun _ => ∅) none := by
  constructor <;> simp

end Sphinx
