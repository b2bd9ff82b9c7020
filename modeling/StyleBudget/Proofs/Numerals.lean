/-
  Integers in texts.

  * `DigitRow` is a row of digits of any script, with single underscores between them, and
    `IntegerText` such a row that is not too long, with or without a sign;
  * `digitRow_iff` and `digitsValueFrom?_eq_some_iff` say what becomes of a row of digits;
  * `readInteger?_eq_some_iff`: these texts, with white space around them, are exactly those
    that are read as integers; `readInteger?_intText`: the text of an integer is one.
-/
import StyleBudget.Decimal.Literal
import StyleBudget.Proofs.Writing

namespace StyleBudget

/-! ## Integer literals -/

/-- A row of digits of any script, with single underscores between them, and the values of the
    digits. -/
inductive DigitRow : List Char → List Nat → Prop
  | last {c d} (h : digitValue? c = some d) : DigitRow [c] [d]
  | next {c d cs ds} (h : digitValue? c = some d) (hrest : DigitRow cs ds) :
      DigitRow (c :: cs) (d :: ds)
  | gap {c d cs ds} (h : digitValue? c = some d) (hrest : DigitRow cs ds) :
      DigitRow (c :: '_' :: cs) (d :: ds)

/-- The number that digits write. -/
def numberOf (digits : List Nat) : Nat := digits.foldl (fun n d => 10 * n + d) 0

/-- A row of digits that is not too long, after a sign or by itself, and the integer that it
    writes. -/
inductive IntegerText : List Char → Int → Prop
  | bare {cs ds} (h : DigitRow cs ds) (hlen : ds.length ≤ maxIntegerDigits) :
      IntegerText cs (numberOf ds)
  | plus {cs ds} (h : DigitRow cs ds) (hlen : ds.length ≤ maxIntegerDigits) :
      IntegerText ('+' :: cs) (numberOf ds)
  | minus {cs ds} (h : DigitRow cs ds) (hlen : ds.length ≤ maxIntegerDigits) :
      IntegerText ('-' :: cs) (-numberOf ds)

/-! ## Rows of digits -/

theorem digitsValueFrom?_eq_some_iff {cs : List Char} {n m : Nat} :
    digitsValueFrom? n cs = some m ↔
      ∃ ds, List.Forall₂ (fun c d => digitValue? c = some d) cs ds ∧
        m = ds.foldl (fun n d => 10 * n + d) n := by
  induction cs generalizing n with
  | nil => simp [digitsValueFrom?, eq_comm]
  | cons c cs ih =>
    rw [digitsValueFrom?, Option.bind_eq_some_iff]
    simp only [ih, List.forall₂_cons_left_iff]
    constructor
    · rintro ⟨d, hd, ds, hds, rfl⟩
      exact ⟨d :: ds, ⟨d, ds, hd, hds, rfl⟩, rfl⟩
    · rintro ⟨_, ⟨d, ds, hd, hds, rfl⟩, rfl⟩
      exact ⟨d, hd, ds, hds, rfl⟩

theorem isDecimalDigit_of_digitValue? {c : Char} {d : Nat} (h : digitValue? c = some d) :
    isDecimalDigit c = true := by
  rw [isDecimalDigit, h]
  rfl

theorem digitValue?_underscore : digitValue? '_' = none := by
  decide

theorem ne_underscore_of_digitValue? {c : Char} {d : Nat} (h : digitValue? c = some d) :
    c ≠ '_' := by
  rintro rfl
  cases digitValue?_underscore.symm.trans h

/-- A row starts with a digit. -/
theorem DigitRow.head {cs : List Char} {ds : List Nat} (h : DigitRow cs ds) :
    ∃ c rest d, cs = c :: rest ∧ digitValue? c = some d := by
  cases h with
  | last h => exact ⟨_, _, _, rfl, h⟩
  | next h _ => exact ⟨_, _, _, rfl, h⟩
  | gap h _ => exact ⟨_, _, _, rfl, h⟩

theorem ne_nil_of_dropSeparators? {cs row : List Char} (h : dropSeparators? cs = some row)
    (hne : cs ≠ []) : row ≠ [] := by
  rintro rfl
  unfold dropSeparators? at h
  split at h
  · exact hne rfl
  · cases h
  · cases h
  · split at h
    · simp at h
    · cases h
  · simp at h

/-- The rows are the texts of which digits are left when separators are dropped. -/
theorem digitRow_iff {cs : List Char} {ds : List Nat} :
    DigitRow cs ds ↔ ∃ row, dropSeparators? cs = some row ∧ row ≠ [] ∧
      List.Forall₂ (fun c d => digitValue? c = some d) row ds := by
  constructor
  · intro h
    induction h with
    | last h =>
      refine ⟨[_], ?_, List.cons_ne_nil _ _, .cons h .nil⟩
      rw [dropSeparators?]
      exact ne_underscore_of_digitValue? h
    | @next c d cs ds h hrest ih =>
      obtain ⟨row, hrow, -, hds⟩ := ih
      obtain ⟨e, rest, d', rfl, he⟩ := hrest.head
      refine ⟨c :: row, ?_, List.cons_ne_nil _ _, .cons h hds⟩
      rw [dropSeparators?, hrow]
      · rfl
      · exact ne_underscore_of_digitValue? h
      · exact List.cons_ne_nil _ _
      · rintro _ _ ⟨⟩
        exact ne_underscore_of_digitValue? he rfl
    | @gap c d cs ds h hrest ih =>
      obtain ⟨row, hrow, -, hds⟩ := ih
      obtain ⟨e, rest, d', rfl, he⟩ := hrest.head
      refine ⟨c :: row, ?_, List.cons_ne_nil _ _, .cons h hds⟩
      rw [dropSeparators?, isDecimalDigit_of_digitValue? h, isDecimalDigit_of_digitValue? he, hrow]
      · rfl
      · exact ne_underscore_of_digitValue? h
  · rintro ⟨row, hrow, hne, hds⟩
    fun_induction dropSeparators? cs generalizing row ds with
    | case1 => cases hrow; exact absurd rfl hne
    | case2 => cases hrow
    | case3 c _ =>
      cases hrow
      obtain ⟨d, _, hd, hnil, rfl⟩ := List.forall₂_cons_left_iff.1 hds
      cases hnil
      exact .last hd
    | case4 c e rest _ _ ih =>
      obtain ⟨row', hrest, rfl⟩ := Option.map_eq_some_iff.1 hrow
      obtain ⟨d, ds', hd, hrow, rfl⟩ := List.forall₂_cons_left_iff.1 hds
      exact .gap hd (ih row' hrest (ne_nil_of_dropSeparators? hrest (List.cons_ne_nil _ _)) hrow)
    | case5 => cases hrow
    | case6 c rest _ hone _ ih =>
      obtain ⟨row', hrest, rfl⟩ := Option.map_eq_some_iff.1 hrow
      obtain ⟨d, ds', hd, hrow, rfl⟩ := List.forall₂_cons_left_iff.1 hds
      exact .next hd (ih row' hrest (ne_nil_of_dropSeparators? hrest hone) hrow)

/-! ## Reading integers -/

/-- What is read behind the sign. -/
theorem readRow_eq_some_iff {cs : List Char} {f : Nat → Int} {n : Int} :
    ((dropSeparators? cs).bind fun digits =>
      if digits.isEmpty || maxIntegerDigits < digits.length then none
      else (digitsValue? digits).map f) = some n ↔
      ∃ ds, DigitRow cs ds ∧ ds.length ≤ maxIntegerDigits ∧ n = f (numberOf ds) := by
  rw [Option.bind_eq_some_iff]
  constructor
  · rintro ⟨row, hrow, h⟩
    split at h
    · cases h
    · rename_i hlen
      simp only [Bool.or_eq_true, List.isEmpty_iff, decide_eq_true_eq, not_or, not_lt] at hlen
      obtain ⟨n, hn, rfl⟩ := Option.map_eq_some_iff.1 h
      obtain ⟨ds, hds, rfl⟩ := digitsValueFrom?_eq_some_iff.1 hn
      exact ⟨ds, digitRow_iff.2 ⟨row, hrow, hlen.1, hds⟩, hds.length_eq ▸ hlen.2, rfl⟩
  · rintro ⟨ds, h, hlen, rfl⟩
    obtain ⟨row, hrow, hne, hds⟩ := digitRow_iff.1 h
    have hvalue : digitsValue? row = some (numberOf ds) :=
      digitsValueFrom?_eq_some_iff.2 ⟨ds, hds, rfl⟩
    refine ⟨row, hrow, ?_⟩
    rw [if_neg, hvalue]
    · rfl
    · simp [hne, hds.length_eq, hlen]

/-- A row of digits has no sign. -/
theorem DigitRow.takeSign {cs : List Char} {ds : List Nat} (h : DigitRow cs ds) :
    takeSign cs = (false, cs) := by
  obtain ⟨c, rest, d, rfl, hd⟩ := h.head
  rw [StyleBudget.takeSign]
  · rintro _ ⟨⟩
    cases hd
  · rintro _ ⟨⟩
    cases hd

/-- The integer with a sign, true for a minus, and an absolute value. -/
def signed (negative : Bool) (n : Nat) : Int := if negative then -(n : Int) else n

theorem readInteger?_eq (cs : List Char) :
    readInteger? cs = (dropSeparators? (takeSign (trim cs)).2).bind fun digits =>
      if digits.isEmpty || maxIntegerDigits < digits.length then none
      else (digitsValue? digits).map (signed (takeSign (trim cs)).1) := by
  have hcast : ∀ digits negative, ((digitsValue? digits).bind fun n => some (n : Int)).map
      (fun n => if negative then -n else n) = (digitsValue? digits).map (signed negative) := by
    intro digits negative
    cases digitsValue? digits <;> rfl
  simp only [readInteger?, Option.pure_def, Option.bind_eq_bind, hcast]

/-- What is read as an integer are the integer literals, with white space around them. -/
theorem readInteger?_eq_some_iff {cs : List Char} {n : Int} :
    readInteger? cs = some n ↔ IntegerText (trim cs) n := by
  rw [readInteger?_eq, readRow_eq_some_iff]
  constructor
  · rintro ⟨ds, hrow, hlen, rfl⟩
    generalize trim cs = body at hrow ⊢
    unfold takeSign at hrow ⊢
    split at hrow
    · exact .minus hrow hlen
    · exact .plus hrow hlen
    · exact .bare hrow hlen
  · intro h
    generalize trim cs = body at h ⊢
    cases h with
    | bare hrow hlen =>
      rw [hrow.takeSign]
      exact ⟨_, hrow, hlen, rfl⟩
    | plus hrow hlen => exact ⟨_, hrow, hlen, rfl⟩
    | minus hrow hlen => exact ⟨_, hrow, hlen, rfl⟩

/-! ## Integer literals and white space -/

theorem find?_digitZeros_of_mem_wideBlanks : ∀ n ∈ wideBlanks,
    (digitZeros.find? fun z => z ≤ n && n < z + 10) = none := by
  decide

/-- No digit is white space. -/
theorem isBlank_of_digitValue? {c : Char} {d : Nat} (h : digitValue? c = some d) :
    isBlank c = false := by
  cases hb : isBlank c with
  | false => rfl
  | true =>
    have hlow : c.toNat < 33 → c.isDigit = false := by
      intro hn
      rw [Char.isDigit, Bool.and_eq_false_iff]
      left
      rw [decide_eq_false_iff_not, ge_iff_le, UInt32.le_iff_toNat_le]
      change ¬ 48 ≤ c.toNat
      omega
    unfold digitValue? at h
    rcases isBlank_cases hb with hn | hn | hn
    · rw [if_pos (by omega), hlow (by omega)] at h; cases h
    · rw [if_pos (by omega), hlow (by omega)] at h; cases h
    · rw [if_neg (by have := (notMem_of_mem_wideBlanks _ hn).1; omega),
        find?_digitZeros_of_mem_wideBlanks _ hn] at h
      cases h

theorem DigitRow.isBlank_eq_false {cs : List Char} {ds : List Nat} (h : DigitRow cs ds) :
    ∀ c ∈ cs, isBlank c = false := by
  induction h with
  | last h => exact List.forall_mem_singleton.2 (isBlank_of_digitValue? h)
  | next h _ ih => exact List.forall_mem_cons.2 ⟨isBlank_of_digitValue? h, ih⟩
  | gap h _ ih =>
    exact List.forall_mem_cons.2 ⟨isBlank_of_digitValue? h, List.forall_mem_cons.2 ⟨rfl, ih⟩⟩

theorem IntegerText.isBlank_eq_false {cs : List Char} {n : Int} (h : IntegerText cs n) :
    ∀ c ∈ cs, isBlank c = false := by
  cases h with
  | bare h _ => exact h.isBlank_eq_false
  | plus h _ => exact List.forall_mem_cons.2 ⟨rfl, h.isBlank_eq_false⟩
  | minus h _ => exact List.forall_mem_cons.2 ⟨rfl, h.isBlank_eq_false⟩

/-! ## Written integers -/

theorem digitRow_of_isDigit {cs : List Char} (hne : cs ≠ []) (h : ∀ c ∈ cs, c.isDigit = true) :
    DigitRow cs (cs.map fun c => c.toNat - '0'.toNat) := by
  induction cs with
  | nil => exact absurd rfl hne
  | cons c rest ih =>
    have hc := digitValue?_of_isDigit (h c (List.mem_cons_self ..))
    by_cases hrest : rest = []
    · rw [hrest]
      exact .last hc
    · exact .next hc (ih hrest fun d hd => h d (List.mem_cons_of_mem c hd))

theorem numberOf_toDigits (n : Nat) :
    numberOf ((Nat.toDigits 10 n).map fun c => c.toNat - '0'.toNat) = n := by
  rw [numberOf, List.foldl_map]
  exact Nat.ofDigitChars_ten_toDigits

/-- The text of an integer is an integer literal if it is not too long. -/
theorem integerText_intText {n : Int} (h : (Nat.toDigits 10 n.natAbs).length ≤ maxIntegerDigits) :
    IntegerText (intText n).toList n := by
  have hrow := digitRow_of_isDigit (@Nat.toDigits_ne_nil n.natAbs 10)
    fun _ hc => isDigit_of_mem_toDigits hc
  have hvalue := numberOf_toDigits n.natAbs
  have hlen := (List.length_map fun c : Char => c.toNat - '0'.toNat).trans_le h
  rw [toList_intText]
  by_cases hn : n < 0
  · have htext := IntegerText.minus hrow hlen
    rw [hvalue] at htext
    rw [if_pos hn]
    rwa [Int.ofNat_natAbs_of_nonpos hn.le, neg_neg] at htext
  · have htext := IntegerText.bare hrow hlen
    rw [hvalue, Int.natAbs_of_nonneg (not_lt.1 hn)] at htext
    rwa [if_neg hn]

end StyleBudget
