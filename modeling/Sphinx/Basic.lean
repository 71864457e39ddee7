import Mathlib.Data.List.AList

/-!
# Common types

* `Uint256`: hash values.  They are only compared and used as map keys here, so the model keeps
  them as natural numbers.
* `StdMap`: the `std::map`s of the program that are iterated over or whose size matters.
* `Reject`: what a failed check leaves behind, the text given to `error(...)` and the
  misbehaviour score given to `DoS(...)`.
* `CAmount`: amounts of money.  The type is `int64_t` in the source; the model computes with exact integers.
-/

namespace Sphinx

abbrev Uint256 := Nat

/-- `std::map<K, V>`. -/
abbrev StdMap (K V : Type) := AList (fun _ : K => V)

/-- A failed check: `DoS(nDoS, error(text))`; a plain `error(text)` has score `0`. -/
structure Reject where
  nDoS : Nat
  text : String
deriving DecidableEq, Repr

/-- `return error(text)`. -/
def error {α : Type} (text : String) : Except Reject α := .error ⟨0, text⟩

/-- `return DoS(nDoS, error(text))`. -/
def dos {α : Type} (nDoS : Nat) (text : String) : Except Reject α := .error ⟨nDoS, text⟩

/-- `if (bad) return DoS(nDoS, error(text))`. -/
def rejectIf (bad : Bool) (nDoS : Nat) (text : String) : Except Reject Unit :=
  if bad then .error ⟨nDoS, text⟩ else .ok ()

@[simp] theorem rejectIf_eq_ok {bad : Bool} {nDoS : Nat} {text : String} {u : Unit} :
    rejectIf bad nDoS text = .ok u ↔ bad = false := by
  cases bad <;> simp [rejectIf]

@[simp] theorem exceptOk_bind {ε α β : Type} (a : α) (f : α → Except ε β) :
    (Except.ok a >>= f) = f a := rfl

@[simp] theorem exceptError_bind {ε α β : Type} (e : ε) (f : α → Except ε β) :
    (Except.error e >>= f) = .error e := rfl

/-- A sequence of two checks passes exactly when the first passes with some result and the second
passes on it. -/
theorem exceptBind_ok {ε α β : Type} {x : Except ε α} {f : α → Except ε β} {b : β} :
    x >>= f = .ok b ↔ ∃ a, x = .ok a ∧ f a = .ok b := by
  rcases x with e | a
  · constructor
    · intro h; cases h
    · rintro ⟨a, h, -⟩; cases h
  · constructor
    · intro h; exact ⟨a, rfl, h⟩
    · rintro ⟨a', ha, h⟩; cases ha; exact h

theorem exists_of_isOk {ε α : Type} {x : Except ε α} (h : x.isOk = true) : ∃ a, x = .ok a := by
  rcases x with e | a
  · cases h
  · exact ⟨a, rfl⟩

/-! ### Amounts -/

abbrev CAmount := Int

def coin : CAmount := 100000000

def cent : CAmount := 1000000

/-- The sanity bound of a single amount, `21000000 * COIN`. -/
def maxMoney : CAmount := 21000000 * coin

def moneyRange (nValue : CAmount) : Bool := 0 ≤ nValue && nValue ≤ maxMoney

end Sphinx
