import Mathlib.Data.Nat.Digits.Defs

/-!
# Numbers and words in a text

Texts are lists of characters.  `decimal` prints an integer, `hexDigits` a fixed number of hexadecimal
digits.

* `decimal_inj`, `hexDigits_inj`, `hexBytes_inj`, `intercalate_inj`: what can be read back from a text;
* `append_eq_append_iff`: where two fields follow each other without a separator, characters can move
  from the front of the second one to the end of the first one (`Moved`);
* `moved_decimal_iff`: at the end of a number these are digits.
-/

namespace Sphinx.Text

variable {c sep : Char} {x : Int} {b b' : List Char} {ws : List (List Char)}

/-! ### Decimals -/

/-- An integer, printed with `%d`. -/
def decimal : Int → List Char
  | .ofNat n => Nat.toDigits 10 n
  | .negSucc n => '-' :: Nat.toDigits 10 (n + 1)

theorem toDigits_inj {n m : Nat} (h : Nat.toDigits 10 n = Nat.toDigits 10 m) : n = m := by
  have hread := congrArg (fun ds => Nat.ofDigitChars 10 ds 0) h
  simpa only [Nat.ofDigitChars_ten_toDigits] using hread

theorem isDigit_of_mem_toDigits {n : Nat} (hc : c ∈ Nat.toDigits 10 n) : c.isDigit = true :=
  Nat.isDigit_of_mem_toDigits (by decide) (by decide) hc

theorem toDigits_ne_minus (n : Nat) (ds : List Char) : Nat.toDigits 10 n ≠ '-' :: ds := by
  intro h
  have hmem : '-' ∈ Nat.toDigits 10 n := by
    rw [h]
    exact List.mem_cons_self
  exact absurd (isDigit_of_mem_toDigits hmem) (by decide)

theorem decimal_inj {y : Int} : decimal x = decimal y ↔ x = y := by
  refine ⟨fun h => ?_, fun h => h ▸ rfl⟩
  cases x with
  | ofNat n =>
    cases y with
    | ofNat m => rw [toDigits_inj h]
    | negSucc m => exact absurd h (toDigits_ne_minus n _)
  | negSucc n =>
    cases y with
    | ofNat m => exact absurd h.symm (toDigits_ne_minus m _)
    | negSucc m => rw [Nat.succ.inj (toDigits_inj (List.cons.inj h).2)]

theorem decimal_ne_nil (x : Int) : decimal x ≠ [] := by
  cases x with
  | ofNat n => exact Nat.toDigits_ne_nil
  | negSucc n => exact List.cons_ne_nil _ _

theorem mem_decimal (hc : c ∈ decimal x) : c = '-' ∨ c.isDigit = true := by
  cases x with
  | ofNat n => exact .inr (isDigit_of_mem_toDigits hc)
  | negSucc n => exact (List.mem_cons.mp hc).imp_right isDigit_of_mem_toDigits

theorem isDigit_of_mem_tail (hc : c ∈ (decimal x).tail) : c.isDigit = true := by
  cases x with
  | ofNat n => exact isDigit_of_mem_toDigits (List.mem_of_mem_tail hc)
  | negSucc n => exact isDigit_of_mem_toDigits hc

/-! ### Hexadecimal digits -/

/-- The last `k` hexadecimal digits of a number. -/
def hexDigits : Nat → Nat → List Char
  | 0, _ => []
  | k + 1, n => hexDigits k (n / 16) ++ [Nat.digitChar (n % 16)]

theorem isAlphanum_of_mem_hexDigits : ∀ {k n : Nat}, c ∈ hexDigits k n → c.isAlphanum = true := by
  have hdigit : ∀ d < 16, (Nat.digitChar d).isAlphanum = true := by decide
  intro k
  induction k with
  | zero => exact fun hc => nomatch hc
  | succ k ih =>
    intro n hc
    rcases List.mem_append.mp hc with hhigh | hlow
    · exact ih hhigh
    · rw [List.mem_singleton.mp hlow]
      exact hdigit _ (Nat.mod_lt n (by decide))

theorem length_hexDigits : ∀ k n : Nat, (hexDigits k n).length = k := by
  intro k
  induction k with
  | zero => exact fun _ => rfl
  | succ k ih =>
    intro n
    rw [hexDigits, List.length_append, ih, List.length_singleton]

theorem digitChar_inj : ∀ d < 16, ∀ e < 16, Nat.digitChar d = Nat.digitChar e → d = e := by decide

theorem hexDigits_inj : ∀ k {n m : Nat}, hexDigits k n = hexDigits k m ↔ n % 16 ^ k = m % 16 ^ k := by
  intro k
  induction k with
  | zero =>
    intro n m
    simp [hexDigits, Nat.mod_one]
  | succ k ih =>
    intro n m
    have hmod : ∀ n : Nat, n % 16 ^ (k + 1) = n % 16 + 16 * (n / 16 % 16 ^ k) := by
      intro n
      rw [Nat.pow_succ', Nat.mod_mul]
    rw [hexDigits, hexDigits, List.append_singleton_inj, ih, hmod, hmod]
    constructor
    · rintro ⟨hhigh, hlow⟩
      rw [hhigh, digitChar_inj _ (Nat.mod_lt _ (by decide)) _ (Nat.mod_lt _ (by decide)) hlow]
    · intro h
      have hn : n % 16 < 16 := Nat.mod_lt _ (by decide)
      have hm : m % 16 < 16 := Nat.mod_lt _ (by decide)
      have hlow : n % 16 = m % 16 := by omega
      exact ⟨by omega, by rw [hlow]⟩

theorem hexDigits_add (j k n : Nat) : hexDigits (j + k) n = hexDigits j (n / 16 ^ k) ++ hexDigits k n := by
  induction k generalizing n with
  | zero => simp [hexDigits]
  | succ k ih =>
    rw [← Nat.add_assoc, hexDigits, ih, hexDigits, List.append_assoc, Nat.div_div_eq_div_mul,
      Nat.pow_succ']

/-- A byte vector, two digits a byte. -/
def hexBytes (bytes : List UInt8) : List Char := bytes.flatMap fun b => hexDigits 2 b.toNat

theorem hexBytes_inj : ∀ {bs bs' : List UInt8}, hexBytes bs = hexBytes bs' ↔ bs = bs' := by
  intro bs bs'
  refine ⟨fun h => ?_, fun h => h ▸ rfl⟩
  induction bs generalizing bs' with
  | nil =>
    cases bs' with
    | nil => rfl
    | cons b bs' => cases h
  | cons b bs ih =>
    cases bs' with
    | nil => cases h
    | cons b' bs' =>
      have hlen : (hexDigits 2 b.toNat).length = (hexDigits 2 b'.toNat).length := by
        rw [length_hexDigits, length_hexDigits]
      have heq : hexDigits 2 b.toNat ++ hexBytes bs = hexDigits 2 b'.toNat ++ hexBytes bs' := h
      obtain ⟨hfirst, hrest⟩ := List.append_inj heq hlen
      have hlt : ∀ b : UInt8, b.toNat < 16 ^ 2 := fun b => b.toNat_lt
      have hb := (hexDigits_inj 2).mp hfirst
      rw [Nat.mod_eq_of_lt (hlt b), Nat.mod_eq_of_lt (hlt b')] at hb
      rw [UInt8.toNat.inj hb, ih hrest]

/-! ### Fields next to each other -/

theorem append_inj_iff {a a' : List Char} (h : a.length = a'.length) :
    a ++ b = a' ++ b' ↔ a = a' ∧ b = b' :=
  ⟨fun heq => List.append_inj heq h, fun ⟨ha, hb⟩ => by rw [ha, hb]⟩

theorem append_cons_inj {p : Char → Prop} {a a' : List Char} {c' : Char} (ha : ∀ x ∈ a, ¬p x)
    (ha' : ∀ x ∈ a', ¬p x) (hc : p c) (hc' : p c') :
    a ++ c :: b = a' ++ c' :: b' ↔ a = a' ∧ c = c' ∧ b = b' := by
  refine ⟨fun h => ?_, fun ⟨h, h', h''⟩ => by rw [h, h', h'']⟩
  induction a generalizing a' with
  | nil =>
    cases a' with
    | nil => exact ⟨rfl, List.cons.inj h⟩
    | cons x' a' => exact absurd ((List.cons.inj h).1 ▸ hc) (ha' x' List.mem_cons_self)
  | cons x a ih =>
    cases a' with
    | nil => exact absurd ((List.cons.inj h).1 ▸ hc') (ha x List.mem_cons_self)
    | cons x' a' =>
      obtain ⟨hx, hrest⟩ := List.cons.inj h
      obtain ⟨htext, hsep⟩ := ih (fun y hy => ha y (List.mem_cons_of_mem x hy))
        (fun y hy => ha' y (List.mem_cons_of_mem x' hy)) hrest
      exact ⟨by rw [hx, htext], hsep⟩

theorem intercalate_eq_nil (h : ∀ w ∈ ws, w ≠ []) :
    [sep].intercalate ws = [] ↔ ws = [] := by
  cases ws with
  | nil => exact iff_of_true rfl rfl
  | cons w ws =>
    have hw : w ≠ [] := h w List.mem_cons_self
    cases ws with
    | nil => simp [hw]
    | cons v ws => simp

theorem intercalate_concat (h : ws ≠ []) (w : List Char) :
    [sep].intercalate (ws ++ [w]) = [sep].intercalate ws ++ sep :: w := by
  induction ws with
  | nil => exact absurd rfl h
  | cons v ws ih =>
    cases ws with
    | nil => simp
    | cons u ws =>
      have hrest := ih (List.cons_ne_nil u ws)
      simp only [List.cons_append] at hrest ⊢
      rw [List.intercalate_cons_cons, hrest, List.intercalate_cons_cons]
      simp only [List.append_assoc]

theorem mem_intercalate (hc : c ∈ [sep].intercalate ws) :
    c = sep ∨ ∃ w ∈ ws, c ∈ w := by
  induction ws with
  | nil => cases hc
  | cons w ws ih =>
    cases ws with
    | nil =>
      rw [List.intercalate_singleton] at hc
      exact .inr ⟨w, List.mem_cons_self, hc⟩
    | cons v ws =>
      rw [List.intercalate_cons_cons, List.append_assoc, List.mem_append] at hc
      rcases hc with hfirst | hrest
      · exact .inr ⟨w, List.mem_cons_self, hfirst⟩
      · rcases List.mem_cons.mp hrest with hsep | hlater
        · exact .inl hsep
        · exact (ih hlater).imp_right fun ⟨u, hu, hcu⟩ => ⟨u, List.mem_cons_of_mem w hu, hcu⟩

theorem intercalate_inj {ws' : List (List Char)} (h : ∀ w ∈ ws, w ≠ [] ∧ sep ∉ w)
    (h' : ∀ w ∈ ws', w ≠ [] ∧ sep ∉ w) : [sep].intercalate ws = [sep].intercalate ws' ↔ ws = ws' := by
  refine ⟨fun heq => ?_, fun heq => heq ▸ rfl⟩
  have hnil := @intercalate_eq_nil sep ws fun w hw => (h w hw).1
  have hnil' := @intercalate_eq_nil sep ws' fun w hw => (h' w hw).1
  by_cases hws : ws = []
  · exact hws.trans (hnil'.mp (heq ▸ hnil.mpr hws)).symm
  have hws' : ws' ≠ [] := fun hempty => hws (hnil.mp (heq ▸ hnil'.mpr hempty))
  calc ws = ([sep].intercalate ws).splitOn sep :=
        (List.splitOn_intercalate sep (fun w hw => (h w hw).2) hws).symm
    _ = ([sep].intercalate ws').splitOn sep := by rw [heq]
    _ = ws' := List.splitOn_intercalate sep (fun w hw => (h' w hw).2) hws'

/-- The characters in between move from the front of the second field to the end of the first one. -/
def Moved (a b a' b' : List Char) : Prop := ∃ u, u ≠ [] ∧ a' = a ++ u ∧ b = u ++ b'

theorem append_eq_append_iff {a a' : List Char} :
    a ++ b = a' ++ b' ↔ (a = a' ∧ b = b') ∨ Moved a b a' b' ∨ Moved a' b' a b := by
  rw [List.append_eq_append_iff]
  constructor
  · rintro (⟨u, ha, hb⟩ | ⟨u, ha, hb⟩)
    · cases u with
      | nil => exact .inl ⟨by rw [ha, List.append_nil], hb⟩
      | cons c u => exact .inr (.inl ⟨_, List.cons_ne_nil c u, ha, hb⟩)
    · cases u with
      | nil => exact .inl ⟨by rw [ha, List.append_nil], hb.symm⟩
      | cons c u => exact .inr (.inr ⟨_, List.cons_ne_nil c u, ha, hb⟩)
  · rintro (⟨rfl, rfl⟩ | ⟨u, -, ha, hb⟩ | ⟨u, -, ha, hb⟩)
    · exact .inl ⟨[], (List.append_nil _).symm, rfl⟩
    · exact .inl ⟨u, ha, hb⟩
    · exact .inr ⟨u, ha, hb⟩

/-- Digits move from the front of a text to the end of the number before it. -/
def DigitsMoved (x : Int) (b : List Char) (x' : Int) (b' : List Char) : Prop :=
  ∃ u, u ≠ [] ∧ (∀ c ∈ u, c.isDigit = true) ∧ decimal x' = decimal x ++ u ∧ b = u ++ b'

theorem moved_decimal_iff {x' : Int} :
    Moved (decimal x) b (decimal x') b' ↔ DigitsMoved x b x' b' := by
  constructor
  · rintro ⟨u, hne, hx, hb⟩
    refine ⟨u, hne, fun c hc => ?_, hx, hb⟩
    have htail : (decimal x').tail = (decimal x).tail ++ u := by
      rw [hx, List.tail_append_of_ne_nil (decimal_ne_nil x)]
    exact isDigit_of_mem_tail (htail ▸ List.mem_append_right _ hc)
  · rintro ⟨u, hne, -, hx, hb⟩
    exact ⟨u, hne, hx, hb⟩

theorem DigitsMoved.ne {x' : Int} (h : DigitsMoved x b x' b') : x ≠ x' := by
  rintro rfl
  obtain ⟨u, hne, -, hx, -⟩ := h
  exact hne (List.self_eq_append_right.mp hx)

/-- A number before a text: both are the same, or digits have moved. -/
theorem decimal_append_iff {x' : Int} :
    decimal x ++ b = decimal x' ++ b' ↔
      (x = x' ∧ b = b') ∨ DigitsMoved x b x' b' ∨ DigitsMoved x' b' x b := by
  rw [append_eq_append_iff, decimal_inj, moved_decimal_iff, moved_decimal_iff]

end Sphinx.Text
