import Mathlib.Data.Option.Basic

/-!
# Runs of a state machine

A machine takes a step for each event of a list and may stop (`none`).  `Along P` says that `P` holds
in every state that a run passes through, `EveryStep Q` that every step is taken under `Q`.

* `inv_of_foldlM`: an invariant that every step keeps;
* `along_of_everyStep`, `everyStep_of_everyStep`: what follows from an invariant that the steps under
  `Q` keep;
* `rel_foldlM`: two machines whose steps stay related;
* `rel_filter`: a run compared with one in which some events do not happen;
* `along_iff_everyStep`: if an invariant is kept by the steps under `Q` and `P` is lost by every other
  step, then `P` holds all along a run exactly when every step of it is taken under `Q`.
-/

namespace Sphinx.Run

variable {σ ε : Type} (step : σ → ε → Option σ)

def Along (P : σ → Prop) : List ε → σ → Prop
  | [], s => P s
  | e :: es, s => P s ∧ ∀ s', step s e = some s' → Along P es s'

def EveryStep (Q : σ → ε → Prop) : List ε → σ → Prop
  | [], _ => True
  | e :: es, s => Q s e ∧ ∀ s', step s e = some s' → EveryStep Q es s'

variable {step} {P Inv : σ → Prop} {Q : σ → ε → Prop}

theorem Along.head {es : List ε} {s : σ} (h : Along step P es s) : P s := by
  cases es with
  | nil => exact h
  | cons e es => exact h.1

/-- What holds all along a run holds at its end. -/
theorem Along.last : ∀ {es : List ε} {s s' : σ}, Along step P es s → es.foldlM step s = some s' → P s' := by
  intro es
  induction es with
  | nil => exact fun h hrun => Option.some.inj hrun ▸ h
  | cons e es ih =>
    intro s s' h hrun
    rw [List.foldlM_cons, Option.bind_eq_bind, Option.bind_eq_some_iff] at hrun
    obtain ⟨s1, hs1, hrest⟩ := hrun
    exact ih (h.2 s1 hs1) hrest

theorem everyStep_of_forall : ∀ (es : List ε) {s : σ}, (∀ e ∈ es, ∀ s, Q s e) → EveryStep step Q es s := by
  intro es
  induction es with
  | nil => exact fun _ => trivial
  | cons e es ih =>
    intro s hall
    rw [List.forall_mem_cons] at hall
    exact ⟨hall.1 s, fun s' _ => ih hall.2⟩

/-- Of a machine that never stops, and a condition on the events alone. -/
theorem everyStep_iff_forall {f : σ → ε → σ} {R : ε → Prop} : ∀ (es : List ε) {s : σ},
    EveryStep (fun s e => some (f s e)) (fun _ e => R e) es s ↔ ∀ e ∈ es, R e := by
  intro es
  induction es with
  | nil => exact ⟨fun _ e he => absurd he List.not_mem_nil, fun _ => trivial⟩
  | cons e es ih =>
    intro s
    rw [List.forall_mem_cons]
    constructor
    · rintro ⟨hR, hrest⟩
      exact ⟨hR, (@ih (f s e)).mp (hrest _ rfl)⟩
    · rintro ⟨hR, hrest⟩
      exact ⟨hR, fun s' _ => ih.mpr hrest⟩

theorem everyStep_and {R : σ → ε → Prop} : ∀ (es : List ε) {s : σ}, EveryStep step Q es s →
    EveryStep step R es s → EveryStep step (fun s e => Q s e ∧ R s e) es s := by
  intro es
  induction es with
  | nil => exact fun _ _ => trivial
  | cons e es ih => exact fun h h' => ⟨⟨h.1, h'.1⟩, fun s' hs' => ih (h.2 s' hs') (h'.2 s' hs')⟩

theorem exists_end : ∀ (es : List ε) {s : σ}, EveryStep step (fun s e => ∃ s', step s e = some s') es s →
    ∃ s', es.foldlM step s = some s' := by
  intro es
  induction es with
  | nil => exact fun _ => ⟨_, rfl⟩
  | cons e es ih =>
    rintro s ⟨⟨s1, hs1⟩, hrest⟩
    obtain ⟨s', hs'⟩ := ih (hrest s1 hs1)
    refine ⟨s', ?_⟩
    rw [List.foldlM_cons, hs1]
    exact hs'

theorem inv_of_foldlM : ∀ (es : List ε),
    (∀ {s e s'}, e ∈ es → Inv s → step s e = some s' → Inv s') →
    ∀ {s s' : σ}, Inv s → es.foldlM step s = some s' → Inv s' := by
  intro es
  induction es with
  | nil => exact fun _ _ _ hinv hrun => Option.some.inj hrun ▸ hinv
  | cons e es ih =>
    intro hkeep s s' hinv hrun
    rw [List.foldlM_cons, Option.bind_eq_bind, Option.bind_eq_some_iff] at hrun
    obtain ⟨s1, hs1, hrest⟩ := hrun
    exact ih (fun hmem => hkeep (List.mem_cons_of_mem _ hmem)) (hkeep List.mem_cons_self hinv hs1) hrest

theorem along_of_everyStep (hP : ∀ {s}, Inv s → P s)
    (hkeep : ∀ {s e s'}, Inv s → Q s e → step s e = some s' → Inv s') :
    ∀ (es : List ε) {s : σ}, Inv s → EveryStep step Q es s → Along step P es s := by
  intro es
  induction es with
  | nil => exact fun hinv _ => hP hinv
  | cons e es ih =>
    rintro s hinv ⟨hQ, hrest⟩
    exact ⟨hP hinv, fun s' hs' => ih (hkeep hinv hQ hs') (hrest s' hs')⟩

theorem everyStep_of_everyStep {R : σ → ε → Prop} (hR : ∀ {s e}, Inv s → Q s e → R s e)
    (hkeep : ∀ {s e s'}, Inv s → Q s e → step s e = some s' → Inv s') :
    ∀ (es : List ε) {s : σ}, Inv s → EveryStep step Q es s → EveryStep step R es s := by
  intro es
  induction es with
  | nil => exact fun _ _ => trivial
  | cons e es ih =>
    rintro s hinv ⟨hQ, hrest⟩
    exact ⟨hR hinv hQ, fun s' hs' => ih (hkeep hinv hQ hs') (hrest s' hs')⟩

theorem along_iff_everyStep (hP : ∀ {s}, Inv s → P s)
    (hkeep : ∀ {s e s'}, Inv s → Q s e → step s e = some s' → Inv s')
    (hbreak : ∀ {s e}, Inv s → ¬ Q s e → ∃ s', step s e = some s' ∧ ¬ P s') :
    ∀ (es : List ε) {s : σ}, Inv s → (Along step P es s ↔ EveryStep step Q es s) := by
  intro es
  induction es with
  | nil => exact fun hinv => ⟨fun _ => trivial, fun _ => hP hinv⟩
  | cons e es ih =>
    intro s hinv
    constructor
    · rintro ⟨-, hrest⟩
      by_cases hQ : Q s e
      · exact ⟨hQ, fun s' hs' => (ih (hkeep hinv hQ hs')).mp (hrest s' hs')⟩
      · obtain ⟨s', hs', hlost⟩ := hbreak hinv hQ
        exact absurd (hrest s' hs').head hlost
    · rintro ⟨hQ, hrest⟩
      exact ⟨hP hinv, fun s' hs' => (ih (hkeep hinv hQ hs')).mpr (hrest s' hs')⟩

/-- **Two runs.**  A run is compared with one that leaves out the events without `p`. -/
theorem rel_filter {R : σ → σ → Prop} {p : ε → Bool}
    (hskip : ∀ {s t e}, R s t → p e = false → Q s e → ∃ s', step s e = some s' ∧ R s' t)
    (hboth : ∀ {s t e}, R s t → p e = true → Q s e → Option.Rel R (step s e) (step t e)) :
    ∀ (es : List ε) {s t : σ}, R s t → EveryStep step Q es s →
      Option.Rel R (es.foldlM step s) ((es.filter p).foldlM step t) := by
  intro es
  induction es with
  | nil => exact fun h _ => .some h
  | cons e es ih =>
    rintro s t h ⟨hQ, hrest⟩
    cases hp : p e with
    | false =>
      obtain ⟨s', hs', h'⟩ := hskip h hp hQ
      rw [List.filter_cons_of_neg (by rw [hp]; exact Bool.false_ne_true), List.foldlM_cons, hs']
      exact ih h' (hrest s' hs')
    | true =>
      have hstep := hboth h hp hQ
      rw [List.filter_cons_of_pos hp, List.foldlM_cons, List.foldlM_cons]
      generalize hs : step s e = o at hstep ⊢
      generalize step t e = o' at hstep ⊢
      cases hstep with
      | none => exact .none
      | some h' => exact ih h' (hrest _ hs)

/-- **Two machines.**  If their steps stay related, their runs end in related states or stop at once. -/
theorem rel_foldlM {τ : Type} {step' : τ → ε → Option τ} {R S : σ → τ → Prop}
    (hS : ∀ {s t}, R s t → S s t) (hstep : ∀ {s t}, R s t → ∀ e, Option.Rel R (step s e) (step' t e)) :
    ∀ (es : List ε) {s : σ} {t : τ}, R s t → Option.Rel S (es.foldlM step s) (es.foldlM step' t) := by
  intro es
  induction es with
  | nil => exact fun h => .some (hS h)
  | cons e es ih =>
    intro s t h
    have he := hstep h e
    rw [List.foldlM_cons, List.foldlM_cons]
    generalize step s e = o at he ⊢
    generalize step' t e = o' at he ⊢
    cases he with
    | none => exact .none
    | some h' => exact ih h'

end Sphinx.Run
