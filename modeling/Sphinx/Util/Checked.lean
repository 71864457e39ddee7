import Mathlib.Init

/-!
# Computations that can stop

A computation in `Except ε` stops with an error of `ε`; some of the errors are faults, which a correct
program never reaches.

* `Safe`: the computation does not end in a fault, and its value has a property; `Safe.bind` is the rule
  for sequences;
* `bind_ok`: the parts of a sequence that ends with a value;
* `Implies`: if the first computation has a value, the second has the same one; `Implies.bind` is the rule
  for sequences.

A `Traced` computation is one in `Except ε` that also writes a log of events.  The log stays when the
computation stops with an error, so it tells what has happened also in a run that fails.

* `result_bind`, `result_lift`: without its log, a sequence of `Traced` computations is the sequence of
  their results;
* `LogsAtMost k post`: at most `k` events are logged, and a value has the property `post`;
  `LogsAtMost.bind` is the rule for sequences.
-/

namespace Sphinx.Checked

variable {ε α β : Type} {fault : ε → Prop}
variable {f : α → Except ε β}

def Safe (fault : ε → Prop) (post : α → Prop) : Except ε α → Prop
  | .ok a => post a
  | .error e => ¬ fault e

def Implies (m m' : Except ε α) : Prop := ∀ a, m = .ok a → m' = .ok a

/-- A sequence that ends with a value has gone through a value of its first part. -/
theorem bind_ok {m : Except ε α} {b : β} (h : m >>= f = .ok b) :
    ∃ a, m = .ok a ∧ f a = .ok b := by
  cases m with
  | error e => cases h
  | ok a => exact ⟨a, rfl, h⟩

section Safe

variable {post post' : α → Prop} {m : Except ε α}

@[simp] theorem safe_ok {a : α} : Safe fault post (.ok a) ↔ post a := Iff.rfl

@[simp] theorem safe_pure {a : α} : Safe fault post (pure a) ↔ post a := Iff.rfl

@[simp] theorem safe_error {e : ε} : Safe fault post (.error e) ↔ ¬ fault e := Iff.rfl

theorem Safe.bind_eq {postB : β → Prop} (h : Safe fault post m)
    (hf : ∀ a, m = .ok a → post a → Safe fault postB (f a)) : Safe fault postB (m >>= f) := by
  cases m with
  | error e => exact h
  | ok a => exact hf a rfl h

theorem Safe.bind {postB : β → Prop} (h : Safe fault post m) (hf : ∀ a, post a → Safe fault postB (f a)) :
    Safe fault postB (m >>= f) :=
  h.bind_eq fun a _ => hf a

theorem Safe.of_ok {a : α} (h : Safe fault post m) (hm : m = .ok a) : post a := by
  subst hm
  exact h

theorem Safe.of_error {e : ε} (h : Safe fault post m) (hm : m = .error e) : ¬ fault e := by
  subst hm
  exact h

end Safe

section Implies

variable {m m' m'' : Except ε α}

theorem Implies.refl (m : Except ε α) : Implies m m := fun _ h => h

theorem implies_error {e : ε} : Implies (.error e) m := fun _ h => (nomatch h)

theorem Implies.bind {f' : α → Except ε β} (h : Implies m m') (hf : ∀ a, Implies (f a) (f' a)) :
    Implies (m >>= f) (m' >>= f') := by
  intro b hb
  cases m with
  | error e => cases hb
  | ok a =>
    rw [h a rfl]
    exact hf a b hb

theorem Implies.foldlM {f f' : β → α → Except ε β} (h : ∀ b a, Implies (f b a) (f' b a)) :
    ∀ (l : List α) (b : β), Implies (l.foldlM f b) (l.foldlM f' b) := by
  intro l
  induction l with
  | nil => exact fun b => .refl _
  | cons a l ih =>
    intro b
    rw [List.foldlM_cons, List.foldlM_cons]
    exact (h b a).bind ih

end Implies

end Sphinx.Checked

/-! ### Computations with a log -/

namespace Sphinx

structure Traced (ε ω α : Type) where
  log : List ω
  result : Except ε α

namespace Traced

variable {ε ω α β : Type}

instance : Monad (Traced ε ω) where
  pure a := ⟨[], .ok a⟩
  bind m f :=
    match m.result with
    | .error e => ⟨m.log, .error e⟩
    | .ok a => ⟨m.log ++ (f a).log, (f a).result⟩

instance : MonadLift (Except ε) (Traced ε ω) where
  monadLift m := ⟨[], m⟩

/-! ### Without the log -/

@[simp] theorem result_pure (a : α) : (pure a : Traced ε ω α).result = .ok a := rfl

@[simp] theorem result_lift (m : Except ε α) : (liftM m : Traced ε ω α).result = m := rfl

@[simp] theorem result_bind (m : Traced ε ω α) (f : α → Traced ε ω β) :
    (m >>= f).result = m.result >>= fun a => (f a).result := by
  show (match m.result with
    | .error e => (⟨m.log, .error e⟩ : Traced ε ω β)
    | .ok a => ⟨m.log ++ (f a).log, (f a).result⟩).result = _
  cases m.result <;> rfl

/-! ### The log of a sequence -/

theorem log_lift_bind (m : Except ε α) (f : α → Traced ε ω β) :
    (liftM m >>= f).log = match m with
      | .ok a => (f a).log
      | .error _ => [] := by
  cases m <;> rfl

theorem log_bind_ok {m : Traced ε ω α} {f : α → Traced ε ω β} {a : α} (h : m.result = .ok a) :
    (m >>= f).log = m.log ++ (f a).log := by
  rcases m with ⟨log, result⟩
  obtain rfl : result = .ok a := h
  rfl

theorem log_bind_error {m : Traced ε ω α} {f : α → Traced ε ω β} {e : ε} (h : m.result = .error e) :
    (m >>= f).log = m.log := by
  rcases m with ⟨log, result⟩
  obtain rfl : result = .error e := h
  rfl

/-! ### The size of the log -/

/-- At most `k` events, and a value that has the property `post`. -/
structure LogsAtMost (k : Nat) (post : α → Prop) (m : Traced ε ω α) : Prop where
  length : m.log.length ≤ k
  value : ∀ a, m.result = .ok a → post a

variable {k j : Nat} {post : α → Prop} {q : β → Prop} {m : Traced ε ω α} {f : α → Traced ε ω β}

theorem logsAtMost_pure {a : α} (h : post a) : LogsAtMost k post (pure a : Traced ε ω α) :=
  ⟨Nat.zero_le k, fun _ ha => Except.ok.inj ha ▸ h⟩

theorem logsAtMost_lift {m : Except ε α} (h : ∀ a, m = .ok a → post a) :
    LogsAtMost 0 post (liftM m : Traced ε ω α) :=
  ⟨Nat.le_refl 0, h⟩

theorem LogsAtMost.mono {post' : α → Prop} (h : LogsAtMost k post m) (hk : k ≤ j)
    (hpost : ∀ a, post a → post' a) : LogsAtMost j post' m :=
  ⟨Nat.le_trans h.length hk, fun a ha => hpost a (h.value a ha)⟩

theorem LogsAtMost.bind (h : LogsAtMost k post m) (hf : ∀ a, post a → LogsAtMost j q (f a)) :
    LogsAtMost (k + j) q (m >>= f) := by
  rcases m with ⟨log, result⟩
  have hlen : log.length ≤ k := h.length
  cases result with
  | error e => exact ⟨Nat.le_trans hlen (Nat.le_add_right k j), fun _ hb => (nomatch hb)⟩
  | ok a =>
    obtain ⟨hlen', hvalue⟩ := hf a (h.value a rfl)
    refine ⟨?_, hvalue⟩
    show (log ++ (f a).log).length ≤ k + j
    rw [List.length_append]
    exact Nat.add_le_add hlen hlen'

/-- A part that logs nothing comes first. -/
theorem LogsAtMost.lift_bind {m : Except ε α} (hf : ∀ a, m = .ok a → LogsAtMost k q (f a)) :
    LogsAtMost k q (liftM m >>= f) := by
  have h := (logsAtMost_lift (ω := ω) fun a ha => ha).bind hf
  rwa [Nat.zero_add] at h

end Traced

end Sphinx
