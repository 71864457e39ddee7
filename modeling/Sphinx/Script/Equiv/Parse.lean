import Sphinx.Script.Equiv.Standard

/-!
# Correctness of building and of parsing scripts

What `GetOp` reads at the front of a script is an element of its own, which is read alike in front of anything
else (`getOp2_split`).  So the script built from opcodes and byte strings is read as these, every loop over `GetOp`
ends, and `FindAndDelete`, which compares bytes, takes out exactly the elements with these bytes.
-/

namespace Sphinx.CScript

variable {pc rest tail b : CScript} {op : Nat} {vch : Valtype} {es : List CScript}

/-! ### Elements -/

theorem getPush_split {opcode nSize : Nat} (h : getPush opcode nSize pc = ⟨true, op, vch, rest⟩) :
    op = opcode ∧ pc = vch ++ rest ∧ vch.length = nSize := by
  unfold getPush at h
  split at h
  · cases h
  · cases h
    exact ⟨rfl, (List.take_append_drop _ _).symm, List.length_take_of_le (by omega)⟩

theorem getPushData_split {opcode nBytes : Nat} (h : getPushData opcode nBytes pc = ⟨true, op, vch, rest⟩) :
    ∃ size, pc = size ++ vch ++ rest ∧ ∀ x,
      getPushData opcode nBytes (size ++ vch ++ x) = ⟨true, op, vch, x⟩ := by
  unfold getPushData at h
  split at h
  · cases h
  · obtain ⟨rfl, hpc, hlen⟩ := getPush_split h
    refine ⟨pc.take nBytes, ?_, fun x => ?_⟩
    · rw [List.append_assoc, ← hpc, List.take_append_drop]
    · exact getPushData_append vch x (List.length_take_of_le (by omega)) hlen.symm

theorem getOp2_split (h : getOp2 pc = ⟨true, op, vch, rest⟩) :
    ∃ e, e ≠ [] ∧ pc = e ++ rest ∧ ∀ x, getOp2 (e ++ x) = ⟨true, op, vch, x⟩ := by
  cases pc with
  | nil => cases h
  | cons c pc =>
    have hdata : ∀ {nBytes : Nat}, (∀ pc, getOp2 (c :: pc) = getPushData c.toNat nBytes pc) →
        ∃ e, e ≠ [] ∧ c :: pc = e ++ rest ∧ ∀ x, getOp2 (e ++ x) = ⟨true, op, vch, x⟩ := fun heq => by
      obtain ⟨size, rfl, hread⟩ := getPushData_split ((heq _).symm.trans h)
      exact ⟨c :: (size ++ vch), List.cons_ne_nil _ _, rfl, fun x => (heq _).trans (hread x)⟩
    by_cases h0 : c.toNat < OP_PUSHDATA1
    · have heq : ∀ pc, getOp2 (c :: pc) = getPush c.toNat c.toNat pc := fun pc => if_pos h0
      obtain ⟨rfl, rfl, hlen⟩ := getPush_split ((heq _).symm.trans h)
      refine ⟨c :: vch, List.cons_ne_nil _ _, rfl, fun x => (heq _).trans ?_⟩
      rw [← hlen]
      exact getPush_append _ _ _
    · by_cases h1 : c.toNat = OP_PUSHDATA1
      · exact hdata fun pc => (if_neg h0).trans (if_pos h1)
      by_cases h2 : c.toNat = OP_PUSHDATA2
      · exact hdata fun pc => (if_neg h0).trans ((if_neg h1).trans (if_pos h2))
      by_cases h4 : c.toNat = OP_PUSHDATA4
      · exact hdata fun pc => (if_neg h0).trans ((if_neg h1).trans ((if_neg h2).trans (if_pos h4)))
      have heq : ∀ pc, getOp2 (c :: pc) = ⟨true, c.toNat, [], pc⟩ := fun pc =>
        (if_neg h0).trans ((if_neg h1).trans ((if_neg h2).trans (if_neg h4)))
      cases (heq pc).symm.trans h
      exact ⟨[c], List.cons_ne_nil _ _, rfl, heq⟩

/-- Bytes that `GetOp` reads as one element. -/
def IsElement (e : CScript) : Prop := ∃ op vch, ∀ x, getOp2 (e ++ x) = ⟨true, op, vch, x⟩

theorem IsElement.ne_nil (h : IsElement b) : b ≠ [] := by
  rintro rfl
  obtain ⟨op, vch, h⟩ := h
  cases h []

/-- The elements of a script, up to the first one that is malformed or to its end. -/
inductive Parses : CScript → List CScript → CScript → Prop
  | stop {tail : CScript} : (getOp2 tail).ok = false → Parses tail [] tail
  | next {e pc tail : CScript} {es : List CScript} : IsElement e → Parses pc es tail →
      Parses (e ++ pc) (e :: es) tail

theorem exists_parses (script : CScript) : ∃ es tail, Parses script es tail := by
  induction hn : script.length using Nat.strong_induction_on generalizing script with
  | _ n ih =>
    cases hok : (getOp2 script).ok with
    | false => exact ⟨[], script, .stop hok⟩
    | true =>
      obtain ⟨e, -, heq, hread⟩ := getOp2_split (getOp2_eq_of_ok hok)
      have hlt := getOp2_isSome (getOp2_eq_of_ok hok)
      obtain ⟨es, tail, hparses⟩ := ih _ (hn ▸ hlt) _ rfl
      exact ⟨e :: es, tail, heq ▸ .next ⟨_, _, hread⟩ hparses⟩

theorem Parses.filter (h : Parses pc es tail) (p : CScript → Bool) :
    Parses ((es.filter p).flatten ++ tail) (es.filter p) tail := by
  induction h with
  | stop hend => exact .stop hend
  | @next e _ _ _ he _ ih =>
    rw [List.filter_cons]
    split
    · rw [List.flatten_cons, List.append_assoc]
      exact .next he ih
    · exact ih

theorem Parses.length_le (h : Parses pc es tail) : es.length ≤ pc.length := by
  induction h with
  | stop => exact Nat.zero_le _
  | next he _ ih =>
    have hpos := List.length_pos_of_ne_nil he.ne_nil
    rw [List.length_cons, List.length_append]
    omega

/-! ### `FindAndDelete` -/

theorem isPrefixOf_element {e : CScript} (hb : IsElement b) (he : IsElement e) :
    b.isPrefixOf (e ++ pc) = decide (e = b) := by
  rw [Bool.eq_iff_iff, List.isPrefixOf_iff_prefix, decide_eq_true_iff]
  constructor
  · rintro ⟨x, heq⟩
    obtain ⟨op, vch, hb⟩ := hb
    obtain ⟨op', vch', he⟩ := he
    have hsame := (hb x).symm.trans ((congrArg getOp2 heq).trans (he pc))
    obtain rfl : x = pc := congrArg GetOpRet.pc hsame
    exact (List.append_cancel_right heq).symm
  · rintro rfl
    exact List.prefix_append _ _

theorem eraseCopies_parses (hb : IsElement b) (h : Parses pc es tail) : ∀ {fuel : Nat}, es.length ≤ fuel →
    Parses (eraseCopies b fuel pc) (es.dropWhile (· = b)) tail := by
  induction h with
  | @stop pc hend =>
    intro fuel _
    cases fuel with
    | zero => exact .stop hend
    | succ fuel =>
      have hprefix : ¬ b.isPrefixOf pc = true := by
        rw [List.isPrefixOf_iff_prefix]
        rintro ⟨x, rfl⟩
        obtain ⟨op, vch, hb⟩ := hb
        rw [hb x] at hend
        cases hend
      rw [eraseCopies, if_neg hprefix]
      exact .stop hend
  | @next e pc _ es he hparses ih =>
    intro fuel hfuel
    cases fuel with
    | zero => cases hfuel
    | succ fuel =>
      rw [eraseCopies, isPrefixOf_element hb he, List.dropWhile_cons]
      by_cases heq : e = b
      · rw [if_pos (decide_eq_true heq), if_pos (decide_eq_true heq), ← heq, List.drop_left]
        exact heq ▸ ih (Nat.le_of_succ_le_succ hfuel)
      · rw [if_neg (by simpa using heq), if_neg (by simpa using heq)]
        exact .next he hparses

theorem findAndDeleteLoop_eq (hb : IsElement b) : ∀ {fuel : Nat} {pc : CScript} {es : List CScript},
    Parses pc es tail → es.length < fuel →
      findAndDeleteLoop b fuel pc = (es.filter (· ≠ b)).flatten ++ tail := by
  intro fuel
  induction fuel with
  | zero => exact fun _ hlt => absurd hlt (Nat.not_lt_zero _)
  | succ fuel ih =>
    intro pc es h hlt
    have herase := eraseCopies_parses hb h h.length_le
    have hdrop : es.filter (· ≠ b) = (es.dropWhile (· = b)).filter (· ≠ b) := by
      conv_lhs => rw [← List.takeWhile_append_dropWhile (p := fun e => decide (e = b)) (l := es), List.filter_append]
      rw [List.filter_eq_nil_iff.mpr fun e he => ?_, List.nil_append]
      simpa using List.all_eq_true.mp List.all_takeWhile e he
    have hle := (List.dropWhile_suffix (p := fun e => decide (e = b)) (l := es)).length_le
    rw [findAndDeleteLoop, hdrop]
    generalize eraseCopies b pc.length pc = pc' at herase
    generalize hes : es.dropWhile (fun e => decide (e = b)) = es' at herase hle
    cases herase with
    | stop hend => rw [if_neg (by rw [hend]; exact Bool.false_ne_true)]; rfl
    | @next e rest _ es'' he hrest =>
      have hne : e ≠ b := fun heq => by
        have hhead := List.head?_dropWhile_not (fun e => decide (e = b)) es
        rw [hes] at hhead
        simp [heq] at hhead
      obtain ⟨op, vch, hread⟩ := he
      rw [List.length_cons] at hle
      have hlen : (e ++ rest).length - rest.length = e.length := by rw [List.length_append, Nat.add_sub_cancel]
      simp only [hread rest, if_true, hlen, List.take_left]
      rw [ih hrest (by omega), List.filter_cons, if_pos (by simpa using hne), List.flatten_cons, List.append_assoc]

theorem findAndDelete_eq (hb : IsElement b) (h : Parses pc es tail) :
    findAndDelete pc b = (es.filter (· ≠ b)).flatten ++ tail := by
  rw [findAndDelete, if_neg (by simpa using hb.ne_nil)]
  exact findAndDeleteLoop_eq hb h (Nat.lt_succ_of_le h.length_le)

/-! ### Building -/

/-- What `operator<<` takes. -/
inductive ScriptItem
  | op (opcode : UInt8)
  | data (b : Valtype)
deriving DecidableEq, Repr

namespace ScriptItem

def push : ScriptItem → CScript
  | .op opcode => [opcode]
  | .data b => pushVch b

/-- The element `GetOp` reads for it; the opcode of a push is one of those that push bytes. -/
def IsRead : ScriptItem → Nat × Valtype → Prop
  | .op opcode, instr => instr = (opcode.toNat, [])
  | .data b, instr => instr.1 ≤ OP_PUSHDATA4 ∧ instr.2 = b

/-- An opcode that is followed by no operand, and a byte string whose size fits into four bytes. -/
def Plain : ScriptItem → Prop
  | .op opcode => opcode.toNat = OP_0 ∨ OP_PUSHDATA4 < opcode.toNat
  | .data b => b.length < 2 ^ 32

theorem Plain.getOp2 {item : ScriptItem} (h : item.Plain) :
    ∃ instr : Nat × Valtype, item.IsRead instr ∧ ∀ x,
      getOp2 (item.push ++ x) = ⟨true, instr.1, instr.2, x⟩ := by
  cases item with
  | op opcode =>
    obtain h0 | hgt := h
    · obtain rfl : opcode = 0 := UInt8.toNat_inj.mp h0
      exact ⟨(0, []), rfl, fun x => rfl⟩
    · exact ⟨(opcode.toNat, []), rfl, fun x => getOp2_op hgt x⟩
  | data b =>
    obtain ⟨op, hop, hread⟩ := getOp2_pushVch b [] h
    obtain ⟨e, -, heq, hany⟩ := getOp2_split hread
    rw [List.append_nil, List.append_nil] at heq
    exact ⟨(op, b), ⟨hop, rfl⟩, fun x => by rw [push, heq, hany]⟩

end ScriptItem

/-- The script built from the items is read as them, to its last byte. -/
def ReadsBack (items : List ScriptItem) : Prop :=
  ∃ instrs, Reads (items.flatMap ScriptItem.push) instrs ∧ List.Forall₂ ScriptItem.IsRead items instrs

theorem readsBack_of_plain : ∀ {items : List ScriptItem}, (∀ item ∈ items, item.Plain) → ReadsBack items := by
  intro items
  induction items with
  | nil => exact fun _ => ⟨[], .nil, .nil⟩
  | cons item items ih =>
    intro h
    obtain ⟨hitem, hitems⟩ := List.forall_mem_cons.mp h
    obtain ⟨instr, his, hread⟩ := hitem.getOp2
    obtain ⟨instrs, hreads, hall⟩ := ih hitems
    exact ⟨instr :: instrs, .cons (hread _) hreads, .cons his hall⟩

/-! ### The loops over `GetOp` -/

/-- The rounds of `GetSigOpCount`, with the count and `lastOpcode`. -/
def sigOpScan (script : CScript) (fAccurate : Bool) : Option Nat :=
  scan Prod.fst Prod.fst (fun s r => .inl (s.1 + sigOpsOf fAccurate s.2 r.opcodeRet, r.opcodeRet)) script.length
    (0, OP_INVALIDOPCODE) script

/-- The rounds of `IsPushOnly`. -/
def pushOnlyScan (script : CScript) : Option Bool :=
  scan (fun _ => true) (fun _ => false) (fun _ r => if OP_16 < r.opcodeRet then .inr false else .inl ())
    script.length () script

/-- The rounds of `GetSigOpCount(const CScript&)`, with the last item that was read. -/
def lastPushScan (script : CScript) : Option (Option (List UInt8)) :=
  scan some (fun _ => none) (fun _ r => if OP_16 < r.opcodeRet then .inr none else .inl r.vchRet)
    script.length [] script

section Scan

variable {σ β : Type} {done failed : σ → β} {next : σ → GetOpRet → σ ⊕ β}

/-- Each round takes an element, so as many as there are bytes suffice, and a function with the same rounds has the
same value. -/
theorem exists_scan : ∀ {fuel : Nat} {s : σ} {pc : CScript}, pc.length ≤ fuel →
    ∃ b, scan done failed next fuel s pc = some b ∧ ∀ F : Nat → σ → CScript → β,
      (∀ fuel s, F fuel s [] = done s) →
      (∀ fuel s c pc, F (fuel + 1) s (c :: pc) = if (getOp2 (c :: pc)).ok then
        (next s (getOp2 (c :: pc))).elim (fun s => F fuel s (getOp2 (c :: pc)).pc) id else failed s) →
      F fuel s pc = b := by
  intro fuel
  induction fuel with
  | zero =>
    intro s pc hle
    obtain rfl := List.length_eq_zero_iff.mp (Nat.le_zero.mp hle)
    exact ⟨done s, rfl, fun F hnil _ => hnil _ _⟩
  | succ fuel ih =>
    intro s pc hle
    cases pc with
    | nil => exact ⟨done s, rfl, fun F hnil _ => hnil _ _⟩
    | cons c pc =>
      rw [scan, if_neg (by simp)]
      dsimp only
      cases hok : (getOp2 (c :: pc)).ok with
      | false => exact ⟨failed s, rfl, fun F _ hcons => by rw [hcons, hok]; rfl⟩
      | true =>
        cases heq : next s (getOp2 (c :: pc)) with
        | inl s' =>
          have hlt := getOp2_isSome (getOp2_eq_of_ok hok)
          obtain ⟨b, hscan, hF⟩ := @ih s' (getOp2 (c :: pc)).pc (by omega)
          exact ⟨b, hscan, fun F hnil hcons => by rw [hcons, hok, heq]; exact hF F hnil hcons⟩
        | inr b => exact ⟨b, rfl, fun F _ hcons => by rw [hcons, hok, heq]; rfl⟩

end Scan

theorem sigOpScan_eq (script : CScript) (fAccurate : Bool) :
    script.sigOpScan fAccurate = some (script.getSigOpCount fAccurate) := by
  obtain ⟨n, hscan, hF⟩ := exists_scan (le_refl script.length)
  refine hscan.trans (congrArg some (hF (fun fuel s pc => sigOpLoop fAccurate fuel s.1 s.2 pc) ?_ ?_).symm)
  · exact fun fuel s => by cases fuel <;> rfl
  · exact fun fuel s c pc => by rw [sigOpLoop]; rfl

theorem pushOnlyScan_eq (script : CScript) : script.pushOnlyScan = some script.isPushOnly := by
  obtain ⟨f, hscan, hF⟩ := exists_scan (le_refl script.length)
  refine hscan.trans (congrArg some (hF (fun fuel _ pc => pushOnlyLoop fuel pc) ?_ ?_).symm)
  · exact fun fuel s => by cases fuel <;> rfl
  · intro fuel s c pc
    rw [pushOnlyLoop, if_neg (by simp)]
    cases hok : (getOp2 (c :: pc)).ok
    · simp [hok]
    · by_cases hop : OP_16 < (getOp2 (c :: pc)).opcodeRet <;> simp [hok, hop]

theorem lastPushScan_eq (script : CScript) : script.lastPushScan = some (lastPushLoop script.length [] script) := by
  obtain ⟨data, hscan, hF⟩ := exists_scan (le_refl script.length)
  refine hscan.trans (congrArg some (hF (fun fuel data pc => lastPushLoop fuel data pc) ?_ ?_).symm)
  · exact fun fuel s => by cases fuel <;> rfl
  · intro fuel s c pc
    rw [lastPushLoop, if_neg (by simp)]
    cases hok : (getOp2 (c :: pc)).ok
    · simp [hok]
    · by_cases hop : OP_16 < (getOp2 (c :: pc)).opcodeRet <;> simp [hok, hop]

/-- What is built is what is read, every loop ends, and what is deleted is what is read. -/
structure BuildsAndParses : Prop where
  build : ∀ items : List ScriptItem, (∀ item ∈ items, item.Plain) → ReadsBack items
  progress : ∀ pc, (getOp2 pc).ok = false ∨ (getOp2 pc).pc <:+ pc ∧ (getOp2 pc).pc.length < pc.length
  sigOps : ∀ (script : CScript) fAccurate, script.sigOpScan fAccurate = some (script.getSigOpCount fAccurate)
  lastPush : ∀ script : CScript, script.lastPushScan = some (lastPushLoop script.length [] script)
  pushOnly : ∀ script : CScript, script.pushOnlyScan = some script.isPushOnly
  canonical : ∀ script : CScript, ∃ f, script.hasCanonicalPushes = some f
  finds : ∀ (script : CScript) op, ∃ nFound, script.find op = some nFound
  element : ∀ item : ScriptItem, item.Plain → IsElement item.push
  deletes : ∀ script b : CScript, IsElement b → ∃ es tail, Parses script es tail ∧
    script.findAndDelete b = (es.filter (· ≠ b)).flatten ++ tail
  idempotent : ∀ script b : CScript, IsElement b →
    (script.findAndDelete b).findAndDelete b = script.findAndDelete b

/-- **Scripts are read as they are built.** -/
theorem buildsAndParses : BuildsAndParses where
  build _ := readsBack_of_plain
  progress pc := by
    cases hok : (getOp2 pc).ok with
    | false => exact .inl rfl
    | true =>
      obtain ⟨e, -, heq, -⟩ := getOp2_split (getOp2_eq_of_ok hok)
      exact .inr ⟨⟨e, heq.symm⟩, getOp2_isSome (getOp2_eq_of_ok hok)⟩
  sigOps := sigOpScan_eq
  lastPush := lastPushScan_eq
  pushOnly := pushOnlyScan_eq
  canonical _ := (exists_scan le_rfl).imp fun _ h => h.1
  finds _ _ := (exists_scan le_rfl).imp fun _ h => h.1
  element item h := by
    obtain ⟨instr, -, hread⟩ := h.getOp2
    exact ⟨_, _, hread⟩
  deletes script b hb := by
    obtain ⟨es, tail, h⟩ := exists_parses script
    exact ⟨es, tail, h, findAndDelete_eq hb h⟩
  idempotent script b hb := by
    obtain ⟨es, tail, h⟩ := exists_parses script
    rw [findAndDelete_eq hb h, findAndDelete_eq hb (h.filter _), List.filter_filter]
    simp only [Bool.and_self]

/-- An opcode that pushes bytes is written without them, and is not read back. -/
theorem not_readsBack_pushdata1 : ¬ ReadsBack [.op 0x4c] := by
  rintro ⟨instrs, hreads, -⟩
  cases hreads with
  | cons hread _ => cases hread

end Sphinx.CScript
