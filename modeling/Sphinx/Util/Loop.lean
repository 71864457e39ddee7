import Mathlib.Algebra.Ring.Int.Defs
import Mathlib.Data.List.AList

/-!
# Loop rules

A loop over a list that may fail is a `foldlM` into `Except ε` or `Option`.  The rules below reason
about it with an invariant `I done st` on the elements already handled and the loop state:

* `foldlM_inv`: if the loop ends well and every round keeps the invariant, it holds at the end;
* `foldlM_rounds`: then also every element was handled in a round that began under the invariant;
* `foldlM_error`: if the loop fails, it does so in a round that began under the invariant;
* `foldlM_total`: if every round started under the invariant ends well and keeps it, so does the
  whole loop.

Each round is known to be a round of this very list, `xs = done ++ x :: rest`.

What a map holds after a loop that erases keys, or that adds a value at the keys not yet there, and
`Kept`: what a loop does that changes values in place.
-/

namespace Sphinx.Loop

variable {ε σ α : Type}
variable {xs : List α} {f : σ → α → Except ε σ}

private theorem foldlM_inv_from (I : List α → σ → Prop)
    (hstep : ∀ done x rest st st', xs = done ++ x :: rest → I done st → f st x = .ok st' →
      I (done ++ [x]) st') :
    ∀ rest done st st', xs = done ++ rest → I done st → rest.foldlM f st = .ok st' → I xs st' := by
  intro rest
  induction rest with
  | nil =>
    intro done st st' hxs hI h
    obtain rfl : st = st' := Except.ok.inj h
    rw [hxs, List.append_nil]
    exact hI
  | cons x rest ih =>
    intro done st st' hxs hI h
    rw [List.foldlM_cons] at h
    cases hx : f st x with
    | error e => rw [hx] at h; cases h
    | ok st1 =>
      rw [hx] at h
      exact ih (done ++ [x]) st1 st' (by rw [hxs, List.append_assoc]; rfl)
        (hstep done x rest st st1 hxs hI hx) h

/-- **Invariant rule.** -/
theorem foldlM_inv {st st' : σ} (I : List α → σ → Prop)
    (h : xs.foldlM f st = .ok st') (hinit : I [] st)
    (hstep : ∀ done x rest st st', xs = done ++ x :: rest → I done st → f st x = .ok st' →
      I (done ++ [x]) st') : I xs st' :=
  foldlM_inv_from I hstep xs [] st st' rfl hinit h

/-- A loop whose rounds succeed wherever those of another loop do, with the same result. -/
theorem foldlM_ok_of_round {g : σ → α → Except ε σ}
    (hround : ∀ st x st', f st x = .ok st' → g st x = .ok st') :
    ∀ (xs : List α) {st st' : σ}, xs.foldlM f st = .ok st' → xs.foldlM g st = .ok st' := by
  intro xs
  induction xs with
  | nil => exact fun h => h
  | cons x xs ih =>
    intro st st' h
    rw [List.foldlM_cons] at h ⊢
    cases hx : f st x with
    | error e => rw [hx] at h; cases h
    | ok st1 =>
      rw [hx] at h
      rw [hround st x st1 hx]
      exact ih h

/-- A loop of which each round ends well on certain elements, with a known result. -/
theorem foldlM_eq_ok_iff {g : σ → α → σ} {P : α → Prop}
    (hround : ∀ st x st', f st x = .ok st' ↔ P x ∧ st' = g st x) :
    ∀ {xs : List α} {st st' : σ}, xs.foldlM f st = .ok st' ↔ (∀ x ∈ xs, P x) ∧ st' = xs.foldl g st := by
  intro xs
  induction xs with
  | nil =>
    intro st st'
    rw [List.foldlM_nil, List.foldl_nil]
    exact ⟨fun h => ⟨fun _ hx => absurd hx List.not_mem_nil, (Except.ok.inj h).symm⟩,
      fun h => congrArg Except.ok h.2.symm⟩
  | cons x xs ih =>
    intro st st'
    rw [List.foldlM_cons, List.foldl_cons, List.forall_mem_cons, and_assoc, ← ih]
    constructor
    · intro h
      cases hx : f st x with
      | error e => rw [hx] at h; cases h
      | ok st1 =>
        rw [hx] at h
        obtain ⟨hP, rfl⟩ := (hround st x st1).mp hx
        exact ⟨hP, h⟩
    · rintro ⟨hP, h⟩
      rw [(hround st x _).mpr ⟨hP, rfl⟩]
      exact h

/-- **Error rule.** A loop that fails does so in a round that began under the invariant. -/
theorem foldlM_error {st : σ} {e : ε} (I : List α → σ → Prop)
    (h : xs.foldlM f st = .error e) (hinit : I [] st)
    (hstep : ∀ done x rest st st', xs = done ++ x :: rest → I done st → f st x = .ok st' →
      I (done ++ [x]) st') :
    ∃ done x rest st', xs = done ++ x :: rest ∧ I done st' ∧ f st' x = .error e := by
  suffices key : ∀ rest done st, xs = done ++ rest → I done st → rest.foldlM f st = .error e →
      ∃ done x rest st', xs = done ++ x :: rest ∧ I done st' ∧ f st' x = .error e from
    key xs [] st rfl hinit h
  intro rest
  induction rest with
  | nil => intro done st _ _ h; cases h
  | cons x rest ih =>
    intro done st hxs hI h
    rw [List.foldlM_cons] at h
    cases hx : f st x with
    | error e' =>
      rw [hx] at h
      obtain rfl : e' = e := Except.error.inj h
      exact ⟨done, x, rest, st, hxs, hI, hx⟩
    | ok st1 =>
      rw [hx] at h
      exact ih (done ++ [x]) st1 (by rw [hxs, List.append_assoc]; rfl)
        (hstep done x rest st st1 hxs hI hx) h

section Progress

variable {m : Type → Type} [Monad m] [LawfulMonad m]

private theorem foldlM_total_from {f : σ → α → m σ} (I : List α → σ → Prop)
    (hstep : ∀ done x rest st, xs = done ++ x :: rest → I done st →
      ∃ st', f st x = pure st' ∧ I (done ++ [x]) st') :
    ∀ rest done st, xs = done ++ rest → I done st →
      ∃ st', rest.foldlM f st = pure st' ∧ I xs st' := by
  intro rest
  induction rest with
  | nil =>
    intro done st hxs hI
    exact ⟨st, rfl, by rw [hxs, List.append_nil]; exact hI⟩
  | cons x rest ih =>
    intro done st hxs hI
    obtain ⟨st1, hx, hI1⟩ := hstep done x rest st hxs hI
    obtain ⟨st', h, hI'⟩ := ih (done ++ [x]) st1 (by rw [hxs, List.append_assoc]; rfl) hI1
    refine ⟨st', ?_, hI'⟩
    rw [List.foldlM_cons, hx, pure_bind]
    exact h

/-- **Progress rule.** -/
theorem foldlM_total {f : σ → α → m σ} {st : σ} (I : List α → σ → Prop)
    (hinit : I [] st)
    (hstep : ∀ done x rest st, xs = done ++ x :: rest → I done st →
      ∃ st', f st x = pure st' ∧ I (done ++ [x]) st') :
    ∃ st', xs.foldlM f st = pure st' ∧ I xs st' :=
  foldlM_total_from I hstep xs [] st rfl hinit

end Progress

/-- **Rounds of a loop.**  If the loop ends well and every round keeps the invariant, every element
was handled in a round that began under the invariant and ended well. -/
theorem foldlM_rounds {st st' : σ} (I : List α → σ → Prop)
    (h : xs.foldlM f st = .ok st') (hinit : I [] st)
    (hstep : ∀ done x rest st st', xs = done ++ x :: rest → I done st → f st x = .ok st' →
      I (done ++ [x]) st') :
    ∀ done x rest, xs = done ++ x :: rest → ∃ st1 st2, I done st1 ∧ f st1 x = .ok st2 := by
  intro done x rest hxs
  rw [hxs, List.foldlM_append] at h
  cases hdone : done.foldlM f st with
  | error e => rw [hdone] at h; cases h
  | ok st1 =>
    rw [hdone] at h
    change (x :: rest).foldlM f st1 = .ok st' at h
    rw [List.foldlM_cons] at h
    cases hx : f st1 x with
    | error e => rw [hx] at h; cases h
    | ok st2 =>
      refine ⟨st1, st2, foldlM_inv I hdone hinit fun d y r s s' hd hI hs => ?_, hx⟩
      refine hstep d y (r ++ x :: rest) s s' ?_ hI hs
      rw [hxs, hd, List.append_assoc, List.cons_append]

/-- The invariant rule for a loop that cannot fail. -/
theorem foldl_inv {f : σ → α → σ} {xs : List α} {st : σ} (I : List α → σ → Prop)
    (hinit : I [] st)
    (hstep : ∀ done x rest st, xs = done ++ x :: rest → I done st → I (done ++ [x]) (f st x)) :
    I xs (xs.foldl f st) := by
  have key : ∀ rest done st, xs = done ++ rest → I done st → I xs (rest.foldl f st) := by
    intro rest
    induction rest with
    | nil => intro done st hxs hI; rw [hxs, List.append_nil]; exact hI
    | cons x rest ih =>
      intro done st hxs hI
      exact ih (done ++ [x]) (f st x) (by rw [hxs, List.append_assoc]; rfl)
        (hstep done x rest st hxs hI)
  exact key xs [] st rfl hinit

/-! ### Sums along a list

`sumAlong f [] xs` adds up `f done x` over the elements `x` of `xs`, where `done` are the elements
before `x`: what a loop adds up when each round depends on the rounds before. -/

def sumAlong (f : List α → α → Int) : List α → List α → Int
  | _, [] => 0
  | done, x :: xs => f done x + sumAlong f (done ++ [x]) xs

theorem sumAlong_append_of (f : List α → α → Int) (x : α) :
    ∀ xs done, sumAlong f done (xs ++ [x]) = sumAlong f done xs + f (done ++ xs) x := by
  intro xs
  induction xs with
  | nil => intro done; simp [sumAlong]
  | cons y ys ih =>
    intro done
    simp only [List.cons_append, sumAlong, ih, List.append_assoc, List.nil_append]
    omega

theorem sumAlong_append (f : List α → α → Int) (xs : List α) (x : α) :
    sumAlong f [] (xs ++ [x]) = sumAlong f [] xs + f xs x :=
  sumAlong_append_of f x xs []

theorem sumAlong_congr {f g : List α → α → Int} :
    ∀ {done : List α}, (∀ done x, x ∈ xs → f done x = g done x) →
      sumAlong f done xs = sumAlong g done xs := by
  induction xs with
  | nil => intro done _; rfl
  | cons x xs ih =>
    intro done h
    rw [sumAlong, sumAlong, h done x (by simp), ih fun d y hy => h d y (by simp [hy])]

/-- A sum along a list of which no round depends on the rounds before. -/
theorem sumAlong_eq_sum {f : List α → α → Int} {g : α → Int} :
    ∀ {xs done : List α}, (∀ before x rest, xs = before ++ x :: rest → f (done ++ before) x = g x) →
      sumAlong f done xs = (xs.map g).sum := by
  intro xs
  induction xs with
  | nil => exact fun _ => rfl
  | cons x xs ih =>
    intro done h
    have hx : f done x = g x := by
      rw [← h [] x xs rfl, List.append_nil]
    rw [sumAlong, List.map_cons, List.sum_cons, hx, ih]
    intro before y rest hsplit
    rw [← h (x :: before) y rest (by rw [hsplit, List.cons_append]), List.append_assoc, List.singleton_append]

theorem sumAlong_sub (f g : List α → α → Int) :
    ∀ xs done, sumAlong (fun d x => f d x - g d x) done xs
      = sumAlong f done xs - sumAlong g done xs := by
  intro xs
  induction xs with
  | nil => intro done; rfl
  | cons x xs ih => intro done; simp only [sumAlong, ih]; omega

theorem sumAlong_eq_zero {f : List α → α → Int} {done : List α}
    (h : ∀ done x, x ∈ xs → f done x = 0) : sumAlong f done xs = 0 := by
  rw [sumAlong_congr h]
  induction xs generalizing done with
  | nil => rfl
  | cons x xs ih => rw [sumAlong, ih fun d y hy => h d y (by simp [hy]), Int.add_zero]

theorem findRev?_zipIdx_eq_none {l : List α} {p : α → Bool} {q : α × Nat → Bool}
    (hq : ∀ x, q x = p x.1) : l.zipIdx.findRev? q = none ↔ ∀ a ∈ l, p a = false := by
  rw [List.findRev?_eq_find?_reverse, List.find?_eq_none]
  constructor
  · intro h a ha
    obtain ⟨i, hi, rfl⟩ := List.getElem_of_mem ha
    have hmem : (l[i], i) ∈ l.zipIdx.reverse := by
      rw [List.mem_reverse, List.mk_mem_zipIdx_iff_getElem?, List.getElem?_eq_getElem hi]
    exact Bool.eq_false_iff.mpr fun hp => h _ hmem ((hq _).trans hp)
  · intro h x hx
    rw [List.mem_reverse] at hx
    rw [hq, h x.1 (List.fst_mem_of_mem_zipIdx hx)]
    exact Bool.false_ne_true

end Sphinx.Loop

/-! ### Loops over the keys of a finite map -/

namespace Sphinx.MapLoop

variable {K V : Type} [DecidableEq K]

theorem lookup_foldl_erase (ks : List K) :
    ∀ (m : AList fun _ : K => V) (k : K),
      (ks.foldl (fun m k => m.erase k) m).lookup k = if k ∈ ks then none else m.lookup k := by
  induction ks with
  | nil => intro m k; simp
  | cons k' ks ih =>
    intro m k
    rw [List.foldl_cons, ih]
    by_cases hk : k = k'
    · subst hk; simp
    · simp [hk, AList.lookup_erase_ne hk]

theorem lookup_insert_ite (v : V) (m : AList fun _ : K => V) (k' k : K) :
    (m.insert k' v).lookup k = if k = k' then some v else m.lookup k := by
  by_cases hk : k = k'
  · rw [if_pos hk, hk, AList.lookup_insert]
  · rw [if_neg hk, AList.lookup_insert_ne hk]

theorem erase_insert (m : AList fun _ : K => V) (k : K) (v : V) : (m.insert k v).erase k = m.erase k := by
  apply AList.ext
  change (m.insert k v).entries.kerase k = m.entries.kerase k
  rw [AList.entries_insert]
  exact @List.kerase_cons_eq K (fun _ => V) _ k ⟨k, v⟩ _ rfl

theorem erase_insert_of_ne (m : AList fun _ : K => V) {k k' : K} (v : V) (hk : k ≠ k') :
    (m.insert k v).erase k' = (m.erase k').insert k v := by
  apply AList.ext
  change (m.insert k v).entries.kerase k' = ((m.erase k').insert k v).entries
  rw [AList.entries_insert, AList.entries_insert, List.kerase_cons_ne hk.symm, List.kerase_comm]
  rfl

theorem foldl_erase_insert {ks : List K} {k : K} (hk : k ∈ ks) (m : AList fun _ : K => V) (v : V) :
    ks.foldl (fun m k => m.erase k) (m.insert k v) = ks.foldl (fun m k => m.erase k) m := by
  induction ks generalizing m with
  | nil => exact absurd hk List.not_mem_nil
  | cons k' ks ih =>
    rw [List.foldl_cons, List.foldl_cons]
    by_cases hne : k = k'
    · rw [← hne, erase_insert]
    · rw [erase_insert_of_ne m v hne]
      exact ih ((List.mem_cons.mp hk).resolve_left hne) _

theorem foldl_erase_of_absent {ks : List K} {m : AList fun _ : K => V} (h : ∀ k ∈ ks, m.lookup k = none) :
    ks.foldl (fun m k => m.erase k) m = m := by
  induction ks with
  | nil => rfl
  | cons k ks ih =>
    have herase : m.erase k = m := by
      apply AList.ext
      change m.entries.kerase k = m.entries
      exact List.kerase_of_notMem_keys (AList.lookup_eq_none.mp (h k List.mem_cons_self))
    show ks.foldl (fun m k => m.erase k) (m.erase k) = m
    rw [herase]
    exact ih fun k' hk' => h k' (List.mem_cons_of_mem k hk')

theorem isSome_lookup_insert (v : V) (m : AList fun _ : K => V) (k' k : K) :
    ((m.insert k' v).lookup k).isSome = ((m.lookup k).isSome || decide (k = k')) := by
  by_cases hk : k = k'
  · subst hk; simp
  · simp [hk, AList.lookup_insert_ne hk]

/-- `if (!m.count(k)) m.insert(make_pair(k, v))`. -/
def insertNew (v : V) (m : AList fun _ : K => V) (k : K) : AList fun _ : K => V :=
  if (m.lookup k).isSome then m else m.insert k v

theorem lookup_insertNew (v : V) (m : AList fun _ : K => V) (k' k : K) :
    (insertNew v m k').lookup k = (m.lookup k).or (if k = k' then some v else none) := by
  unfold insertNew
  by_cases hk : k = k'
  · subst hk
    cases hm : m.lookup k <;> simp [hm]
  · rw [if_neg hk, Option.or_none]
    split
    · rfl
    · exact AList.lookup_insert_ne hk

theorem lookup_foldl_insertNew (v : V) (ks : List K) :
    ∀ (m : AList fun _ : K => V) (k : K),
      (ks.foldl (insertNew v) m).lookup k = (m.lookup k).or (if k ∈ ks then some v else none) := by
  induction ks with
  | nil => intro m k; simp
  | cons k' ks ih =>
    intro m k
    rw [List.foldl_cons, ih, lookup_insertNew, Option.or_assoc]
    by_cases hk : k = k'
    · simp [hk]
    · simp [hk]

/-! ### Values changed in place -/

/-- The same keys, with related values. -/
structure Kept (R : K → V → V → Prop) (m m' : AList fun _ : K => V) : Prop where
  absent : ∀ k, m.lookup k = none → m'.lookup k = none
  present : ∀ k v, m.lookup k = some v → ∃ v', m'.lookup k = some v' ∧ R k v v'

variable {R : K → V → V → Prop} {m m' m'' : AList fun _ : K => V}

theorem Kept.refl (hR : ∀ k v, R k v v) (m : AList fun _ : K => V) : Kept R m m :=
  ⟨fun _ h => h, fun k v h => ⟨v, h, hR k v⟩⟩

theorem Kept.trans {R' R'' : K → V → V → Prop} (hR : ∀ {k v v' v''}, R k v v' → R' k v' v'' → R'' k v v'')
    (h : Kept R m m') (h' : Kept R' m' m'') : Kept R'' m m'' := by
  refine ⟨fun k hk => h'.absent k (h.absent k hk), fun k v hk => ?_⟩
  obtain ⟨v', hv', hrel⟩ := h.present k v hk
  obtain ⟨v'', hv'', hrel'⟩ := h'.present k v' hv'
  exact ⟨v'', hv'', hR hrel hrel'⟩

theorem Kept.mono {R' : K → V → V → Prop} (hR : ∀ {k v v'}, R k v v' → R' k v v') (h : Kept R m m') :
    Kept R' m m' := by
  refine ⟨h.absent, fun k v hk => ?_⟩
  obtain ⟨v', hv', hrel⟩ := h.present k v hk
  exact ⟨v', hv', hR hrel⟩

theorem Kept.source (h : Kept R m m') {k : K} {v' : V} (hk : m'.lookup k = some v') :
    ∃ v, m.lookup k = some v ∧ R k v v' := by
  cases hv : m.lookup k with
  | none =>
    rw [h.absent k hv] at hk
    cases hk
  | some v =>
    obtain ⟨v'', hv'', hrel⟩ := h.present k v hv
    rw [hv'', Option.some.injEq] at hk
    exact ⟨v, rfl, hk ▸ hrel⟩

theorem Kept.insert {k : K} {v v' : V} (hR : ∀ k' u, k' ≠ k → R k' u u) (hk : m.lookup k = some v)
    (hrel : R k v v') : Kept R m (m.insert k v') := by
  refine ⟨fun k' hk' => ?_, fun k' u hk' => ?_⟩
  · have hne : k' ≠ k := by
      rintro rfl
      rw [hk] at hk'
      cases hk'
    rwa [AList.lookup_insert_ne hne]
  · by_cases heq : k' = k
    · subst heq
      rw [hk, Option.some.injEq] at hk'
      exact ⟨v', AList.lookup_insert m, hk' ▸ hrel⟩
    · exact ⟨u, by rwa [AList.lookup_insert_ne heq], hR k' u heq⟩

end Sphinx.MapLoop
