/-
  Placeholders in a text that is put together from pieces.

  * `Bounded cs`: the text does not start inside a name, so that a name that
    ends before it is whole;
  * `firstPlaceholder?_append_right` and `firstPlaceholder?_append_left`: the
    first placeholder of a piece is the first of the whole, if what follows is
    bounded and what comes before forms none;
  * `placeholdersOf_append`: the placeholders of two pieces side by side;
  * `mem_placeholdersOf_append`: no placeholder is lost by text before it, even
    if that text swallows the name in front.
-/
import Mathlib
import StyleBudget.Selector

namespace StyleBudget

/-! ## Starts of texts -/

/-- The text starts with a character that a placeholder's name may start with. -/
def startsName (cs : List Char) : Bool := (cs.head?.map isNameStart).getD false

/-- The text does not start with a character that a name may go on with. -/
def Bounded (cs : List Char) : Prop := ∀ c ∈ cs.head?, isNameChar c = false

@[simp] theorem bounded_nil : Bounded [] := by simp [Bounded]

theorem isNameChar_of_isNameStart {c : Char} (h : isNameStart c = true) : isNameChar c = true := by
  simp only [isNameStart, Bool.or_eq_true, beq_iff_eq] at h
  have hw : isAsciiWordChar c = true := by
    simp only [isAsciiWordChar, Char.isAlphanum, Bool.or_eq_true, beq_iff_eq]
    exact h.imp_left .inl
  have hlt : c.toNat < 128 := by
    rcases h with h | rfl
    · simp only [Char.isAlpha, Char.isUpper, Char.isLower, Bool.or_eq_true, Bool.and_eq_true,
        decide_eq_true_eq, UInt32.le_iff_toNat_le] at h
      change (65 ≤ c.toNat ∧ c.toNat ≤ 90) ∨ (97 ≤ c.toNat ∧ c.toNat ≤ 122) at h
      omega
    · decide
  simp [isNameChar, isWordChar, hlt, hw]

theorem Bounded.startsName {cs : List Char} (h : Bounded cs) : startsName cs = false := by
  cases cs with
  | nil => rfl
  | cons c cs =>
    cases hs : isNameStart c with
    | false => exact hs
    | true => exact absurd (isNameChar_of_isNameStart hs) (by simp [h c rfl])

theorem Bounded.append {cs ds : List Char} (hc : Bounded cs) (hd : Bounded ds) :
    Bounded (cs ++ ds) := by
  cases cs with
  | nil => exact hd
  | cons c cs => exact fun x hx => hc x hx

theorem bounded_dropWhile (cs : List Char) : Bounded (cs.dropWhile isNameChar) := by
  intro c hc
  have := List.head?_dropWhile_not isNameChar cs
  rw [Option.mem_def] at hc
  rw [hc] at this
  simpa using this

theorem takeWhile_dropWhile_append (cs : List Char) {ds : List Char} (hd : Bounded ds) :
    (cs ++ ds).takeWhile isNameChar = cs.takeWhile isNameChar ∧
      (cs ++ ds).dropWhile isNameChar = cs.dropWhile isNameChar ++ ds := by
  induction cs with
  | nil =>
    cases ds with
    | nil => exact ⟨rfl, rfl⟩
    | cons d ds => simp [hd d rfl]
  | cons c cs ih =>
    cases hc : isNameChar c <;> simp [hc, ih]

theorem startsName_append {cs ds : List Char} (hd : Bounded ds) :
    startsName (cs ++ ds) = startsName cs := by
  cases cs with
  | nil => exact hd.startsName
  | cons c cs => rfl

theorem bounded_percent (cs : List Char) : Bounded ('%' :: cs) := by
  rintro c ⟨⟩
  decide

/-! ## The first placeholder of a text in pieces -/

abbrev Opens (c : Char) (cs : List Char) : Prop := c = '%' ∧ startsName cs = true

theorem firstPlaceholder?_of_opens {c : Char} {cs : List Char} (h : Opens c cs) :
    firstPlaceholder? (c :: cs) =
      some ⟨[], cs.takeWhile isNameChar, cs.dropWhile isNameChar⟩ := by
  rw [firstPlaceholder?]
  exact if_pos (by simpa [Opens, startsName] using h)

theorem firstPlaceholder?_of_not_opens {c : Char} {cs : List Char} (h : ¬ Opens c cs) :
    firstPlaceholder? (c :: cs) =
      (firstPlaceholder? cs).map fun o => { o with before := c :: o.before } := by
  rw [firstPlaceholder?]
  exact if_neg (by simpa [Opens, startsName] using h)

theorem firstPlaceholder?_cons_eq_none {c : Char} {cs : List Char} :
    firstPlaceholder? (c :: cs) = none ↔ ¬ Opens c cs ∧ firstPlaceholder? cs = none := by
  by_cases h : Opens c cs
  · rw [firstPlaceholder?_of_opens h]
    constructor
    · intro h'; cases h'
    · exact fun h' => absurd h h'.1
  · rw [firstPlaceholder?_of_not_opens h, Option.map_eq_none_iff]
    exact (and_iff_right h).symm

theorem bounded_after {cs : List Char} {o : Occurrence} (h : firstPlaceholder? cs = some o) :
    Bounded o.after := by
  induction cs generalizing o with
  | nil => cases h
  | cons c cs ih =>
    by_cases hc : Opens c cs
    · rw [firstPlaceholder?_of_opens hc] at h
      cases h; exact bounded_dropWhile cs
    · rw [firstPlaceholder?_of_not_opens hc] at h
      obtain ⟨o', ho', rfl⟩ := Option.map_eq_some_iff.1 h
      exact ih (o := o') ho'

theorem firstPlaceholder?_eq_none_left {cs ds : List Char}
    (h : firstPlaceholder? (cs ++ ds) = none) : firstPlaceholder? cs = none := by
  induction cs with
  | nil => rfl
  | cons c cs ih =>
    rw [List.cons_append, firstPlaceholder?_cons_eq_none] at h
    refine firstPlaceholder?_cons_eq_none.2 ⟨fun ⟨hp, hs⟩ => h.1 ⟨hp, ?_⟩, ih h.2⟩
    cases cs with
    | nil => cases hs
    | cons d cs => exact hs

theorem firstPlaceholder?_eq_none_right {cs ds : List Char}
    (h : firstPlaceholder? (cs ++ ds) = none) : firstPlaceholder? ds = none := by
  induction cs with
  | nil => exact h
  | cons c cs ih => exact ih (firstPlaceholder?_cons_eq_none.1 h).2

theorem startsName_eq_false_of_percent {cs ds : List Char}
    (h : firstPlaceholder? (cs ++ ds) = none) (hp : cs.getLast? = some '%') :
    startsName ds = false := by
  obtain ⟨bs, rfl⟩ := List.getLast?_eq_some_iff.1 hp
  rw [List.append_assoc] at h
  have hn := (firstPlaceholder?_cons_eq_none.1 (firstPlaceholder?_eq_none_right h)).1
  cases hs : startsName ds with
  | false => rfl
  | true => exact absurd ⟨rfl, hs⟩ hn

theorem firstPlaceholder?_before {cs : List Char} {o : Occurrence}
    (h : firstPlaceholder? cs = some o) : firstPlaceholder? o.before = none := by
  induction cs generalizing o with
  | nil => cases h
  | cons c cs ih =>
    by_cases hc : Opens c cs
    · rw [firstPlaceholder?_of_opens hc] at h
      cases h; rfl
    · rw [firstPlaceholder?_of_not_opens hc] at h
      obtain ⟨o', ho', rfl⟩ := Option.map_eq_some_iff.1 h
      refine firstPlaceholder?_cons_eq_none.2 ⟨?_, ih (o := o') ho'⟩
      rwa [Opens, eq_of_firstPlaceholder? ho', startsName_append (bounded_percent _)] at hc

theorem startsName_name {cs : List Char} {o : Occurrence} (h : firstPlaceholder? cs = some o) :
    startsName (o.name ++ o.after) = true := by
  induction cs generalizing o with
  | nil => cases h
  | cons c cs ih =>
    by_cases hc : Opens c cs
    · rw [firstPlaceholder?_of_opens hc] at h
      cases h
      rw [List.takeWhile_append_dropWhile]; exact hc.2
    · rw [firstPlaceholder?_of_not_opens hc] at h
      obtain ⟨o', ho', rfl⟩ := Option.map_eq_some_iff.1 h
      exact ih (o := o') ho'

/-- The first placeholder of a piece is the first of the whole text, if its name
    does not go on in what follows. -/
theorem firstPlaceholder?_append_right {cs ds : List Char} {o : Occurrence}
    (h : firstPlaceholder? cs = some o) (hd : Bounded ds) :
    firstPlaceholder? (cs ++ ds) = some { o with after := o.after ++ ds } := by
  induction cs generalizing o with
  | nil => cases h
  | cons c cs ih =>
    by_cases hc : Opens c cs
    · rw [firstPlaceholder?_of_opens hc] at h
      cases h
      obtain ⟨ht, hr⟩ := takeWhile_dropWhile_append cs hd
      have hopens : Opens c (cs ++ ds) := ⟨hc.1, (startsName_append hd).trans hc.2⟩
      rw [List.cons_append, firstPlaceholder?_of_opens hopens, ht, hr]
    · rw [firstPlaceholder?_of_not_opens hc] at h
      obtain ⟨o', ho', rfl⟩ := Option.map_eq_some_iff.1 h
      rw [List.cons_append, firstPlaceholder?_of_not_opens, ih ho']
      · rfl
      · rwa [Opens, startsName_append hd]

/-- The first placeholder of a piece is the first of the whole text, if what
    comes before its percent sign forms none. -/
theorem firstPlaceholder?_append_left {bs cs : List Char} {o : Occurrence}
    (h : firstPlaceholder? cs = some o) (hb : firstPlaceholder? (bs ++ o.before) = none) :
    firstPlaceholder? (bs ++ cs) = some { o with before := bs ++ o.before } := by
  induction bs with
  | nil => exact h
  | cons b bs ih =>
    obtain ⟨hn, hb⟩ := firstPlaceholder?_cons_eq_none.1 hb
    rw [List.cons_append, firstPlaceholder?_of_not_opens, ih hb]
    · rfl
    · rwa [Opens, eq_of_firstPlaceholder? h, ← List.append_assoc,
        startsName_append (bounded_percent _)]

/-- Text without placeholders in front of another text is passed over, unless a
    percent sign at its end forms a placeholder with what follows. -/
theorem firstPlaceholder?_append_of_none {bs cs : List Char} (hb : firstPlaceholder? bs = none)
    (hs : bs.getLast? = some '%' → startsName cs = false) :
    firstPlaceholder? (bs ++ cs) =
      (firstPlaceholder? cs).map fun o => { o with before := bs ++ o.before } := by
  induction bs with
  | nil => simp
  | cons b bs ih =>
    obtain ⟨hn, hb⟩ := firstPlaceholder?_cons_eq_none.1 hb
    cases bs with
    | nil =>
      rw [List.singleton_append, firstPlaceholder?_of_not_opens]
      · rfl
      · rintro ⟨rfl, h⟩
        rw [hs rfl] at h; cases h
    | cons b' bs =>
      have hn : ¬ Opens b (b' :: bs ++ cs) := hn
      rw [List.cons_append, firstPlaceholder?_of_not_opens hn,
        ih hb fun h => hs (by rwa [List.getLast?_cons_cons]), Option.map_map]
      rfl

/-! ## The placeholders of a text in pieces -/

theorem placeholdersOf_of_none {cs : List Char} (h : firstPlaceholder? cs = none) :
    placeholdersOf cs = [] := by
  rw [placeholdersOf]; split
  · rfl
  · rename_i h'; rw [h] at h'; cases h'

theorem placeholdersOf_of_some {cs : List Char} {o : Occurrence}
    (h : firstPlaceholder? cs = some o) :
    placeholdersOf cs = String.ofList o.name :: placeholdersOf o.after := by
  rw [placeholdersOf]; split
  · rename_i h'; rw [h] at h'; cases h'
  · rename_i h'; rw [h] at h'; cases h'; rfl

theorem placeholdersOf_append {ds : List Char} (hd : Bounded ds) (cs : List Char) :
    placeholdersOf (cs ++ ds) = placeholdersOf cs ++ placeholdersOf ds := by
  cases h : firstPlaceholder? cs with
  | none =>
    rw [placeholdersOf_of_none h, List.nil_append]
    have happ := firstPlaceholder?_append_of_none h fun _ => hd.startsName
    cases h' : firstPlaceholder? ds with
    | none =>
      rw [h'] at happ
      rw [placeholdersOf_of_none happ, placeholdersOf_of_none h']
    | some o =>
      rw [h'] at happ
      rw [placeholdersOf_of_some happ, placeholdersOf_of_some h']
  | some o =>
    have := after_length_lt h
    rw [placeholdersOf_of_some (firstPlaceholder?_append_right h hd), placeholdersOf_of_some h,
      placeholdersOf_append hd o.after]
    rfl
termination_by cs.length

theorem firstPlaceholder?_takeWhile (cs : List Char) :
    firstPlaceholder? (cs.takeWhile isNameChar) = none := by
  induction cs with
  | nil => rfl
  | cons c cs ih =>
    rw [List.takeWhile_cons]
    split
    · rename_i hc
      refine firstPlaceholder?_cons_eq_none.2 ⟨fun ⟨hp, _⟩ => ?_, ih⟩
      subst hp
      exact absurd hc (by decide)
    · rfl

/-- No placeholder is lost by text before it, even if the text forms another
    one with the characters in front. -/
theorem mem_placeholdersOf_append {name : String} {cs : List Char}
    (h : name ∈ placeholdersOf cs) (bs : List Char) : name ∈ placeholdersOf (bs ++ cs) := by
  rw [← List.takeWhile_append_dropWhile (p := isNameChar) (l := cs)] at h ⊢
  rw [placeholdersOf_append (bounded_dropWhile cs),
    placeholdersOf_of_none (firstPlaceholder?_takeWhile cs), List.nil_append] at h
  rw [← List.append_assoc, placeholdersOf_append (bounded_dropWhile cs)]
  exact List.mem_append_right _ h

end StyleBudget
