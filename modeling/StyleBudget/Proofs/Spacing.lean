/-
  Texts in normal form: single spaces between words, and none at the ends.

  * `wordsOf_append_cons`: a text splits into words at any white space;
  * `Squeezed` says that a text has a word, and single spaces only; `squeezed_iff` ties it
    to `squeeze`, and `squeezed_squeeze` says that `squeeze` leads to it;
  * `Squeezed.join` and `Squeezed.replace` keep it: two texts with a space between them,
    and a text in the place of a piece of another one;
  * `dropEndWhile_append_cons` and the lemmas on `trim` are about the ends of a text:
    `trim_around` and `exists_around_trim` say what is taken off;
  * `cutAt?_eq_some_iff`: a text is cut at the first separator;
  * `isBlank_of_isNameChar`: no name has white space in it.
-/
import Mathlib.Data.List.Chain
import Mathlib.Data.List.DropRight
import StyleBudget.Proofs.Gaps

namespace StyleBudget

variable {c d : Char} {cs ds word before after : List Char} {words : List (List Char)}

/-! ## Names and white space -/

/-- The white space characters outside ASCII. -/
def wideBlanks : List Nat :=
  [0x85, 0xa0, 0x1680, 0x2000, 0x2001, 0x2002, 0x2003, 0x2004, 0x2005, 0x2006, 0x2007, 0x2008,
    0x2009, 0x200a, 0x2028, 0x2029, 0x202f, 0x205f, 0x3000]

theorem isBlank_cases (h : isBlank c = true) :
    (9 ≤ c.toNat ∧ c.toNat ≤ 13) ∨ (28 ≤ c.toNat ∧ c.toNat ≤ 32) ∨ c.toNat ∈ wideBlanks := by
  simp only [isBlank, Bool.or_eq_true, Bool.and_eq_true, decide_eq_true_eq, beq_iff_eq] at h
  simp only [wideBlanks, List.mem_cons, List.not_mem_nil, or_false]
  omega

theorem notMem_of_mem_wideBlanks : ∀ n ∈ wideBlanks, 128 ≤ n ∧
    (inRanges letterOrNumberLow n || inRanges letterOrNumberMiddle n
      || inRanges letterOrNumberHigh n) = false := by
  decide +kernel

theorem le_of_isNameChar (h : isNameChar c = true) (hc : c.toNat < 128) : 45 ≤ c.toNat := by
  rw [isNameChar, isWordChar, if_pos hc] at h
  simp only [isAsciiWordChar, Char.isAlphanum, Char.isAlpha, Char.isUpper, Char.isLower,
    Char.isDigit, Bool.or_eq_true, Bool.and_eq_true, decide_eq_true_eq, UInt32.le_iff_toNat_le,
    beq_iff_eq] at h
  rcases h with (((h | h) | h) | rfl) | rfl
  · exact (show 45 ≤ 65 by omega).trans h.1
  · exact (show 45 ≤ 97 by omega).trans h.1
  · exact (show 45 ≤ 48 by omega).trans h.1
  · decide
  · decide

theorem isBlank_of_isNameChar (h : isNameChar c = true) : isBlank c = false := by
  cases hb : isBlank c with
  | false => rfl
  | true =>
    rcases isBlank_cases hb with hn | hn | hn
    · have := le_of_isNameChar h (by omega)
      omega
    · have := le_of_isNameChar h (by omega)
      omega
    · obtain ⟨hwide, hranges⟩ := notMem_of_mem_wideBlanks _ hn
      rw [isNameChar, isWordChar, if_neg (by omega), hranges] at h
      obtain rfl : c = '-' := by simpa using h
      exact absurd hwide (by decide)

/-! ## Words -/

theorem wordsOf_nil : wordsOf [] = [] := by
  rw [wordsOf, List.splitOnP_nil]; rfl

/-- A text splits into words at any white space. -/
theorem wordsOf_append_cons (hd : isBlank d = true) (cs ds : List Char) :
    wordsOf (cs ++ d :: ds) = wordsOf cs ++ wordsOf ds := by
  rw [wordsOf, List.splitOnP_append_cons cs ds hd, List.filter_append]
  rfl

theorem wordsOf_of_blank (h : ∀ c ∈ cs, isBlank c = true) : wordsOf cs = [] := by
  induction cs with
  | nil => exact wordsOf_nil
  | cons c cs ih =>
    have hsplit := wordsOf_append_cons (h c (List.mem_cons_self ..)) [] cs
    rw [List.nil_append, wordsOf_nil, List.nil_append] at hsplit
    rw [hsplit]
    exact ih fun d hd => h d (List.mem_cons_of_mem c hd)

/-- White space around a text belongs to no word of it. -/
theorem wordsOf_around (hb : ∀ c ∈ before, isBlank c = true)
    (ha : ∀ c ∈ after, isBlank c = true) (cs : List Char) :
    wordsOf (before ++ cs ++ after) = wordsOf cs := by
  have hfront : ∀ ds, wordsOf (before ++ ds) = wordsOf ds := by
    intro ds
    induction before with
    | nil => rfl
    | cons b before ih =>
      have hsplit := wordsOf_append_cons (hb b (List.mem_cons_self ..)) [] (before ++ ds)
      rw [List.nil_append, wordsOf_nil, List.nil_append] at hsplit
      rw [List.cons_append, hsplit]
      exact ih fun c hc => hb c (List.mem_cons_of_mem b hc)
  rw [List.append_assoc, hfront]
  cases after with
  | nil => rw [List.append_nil]
  | cons a after =>
    rw [wordsOf_append_cons (ha a (List.mem_cons_self ..)),
      wordsOf_of_blank fun c hc => ha c (List.mem_cons_of_mem a hc), List.append_nil]

/-- A text that is not empty and has no white space is a word. -/
theorem wordsOf_word (hne : word ≠ []) (hw : ∀ c ∈ word, isBlank c = false) :
    wordsOf word = [word] := by
  rw [wordsOf, List.splitOnP_eq_singleton hw]
  simp [hne]

/-- The pieces of a split are made of characters of the text that are no separators. -/
theorem of_mem_splitOnP {p : Char → Bool} (hw : word ∈ cs.splitOnP p) :
    ∀ c ∈ word, c ∈ cs ∧ p c = false := by
  induction cs generalizing word with
  | nil =>
    rw [List.splitOnP_nil, List.mem_singleton] at hw
    rw [hw]
    exact fun c hc => by cases hc
  | cons d cs ih =>
    rw [List.splitOnP_cons_eq_if_modifyHead] at hw
    obtain ⟨first, pieces, hs⟩ := List.exists_cons_of_ne_nil (List.splitOnP_ne_nil p cs)
    rw [hs] at hw ih
    have ih : ∀ {word}, word ∈ first :: pieces → ∀ c ∈ word, c ∈ d :: cs ∧ p c = false :=
      fun hw c hc => (ih hw c hc).imp_left (List.mem_cons_of_mem d)
    split at hw
    · rcases List.mem_cons.1 hw with rfl | hw
      · exact fun c hc => by cases hc
      · exact ih hw
    · rename_i hd
      rw [List.modifyHead_cons] at hw
      rcases List.mem_cons.1 hw with rfl | hw
      · intro c hc
        rcases List.mem_cons.1 hc with rfl | hc
        · exact ⟨List.mem_cons_self .., by simpa using hd⟩
        · exact ih (List.mem_cons_self ..) c hc
      · exact ih (List.mem_cons_of_mem first hw)

theorem of_mem_wordsOf (hw : word ∈ wordsOf cs) :
    word ≠ [] ∧ ∀ c ∈ word, c ∈ cs ∧ isBlank c = false := by
  obtain ⟨hw, hne⟩ := List.mem_filter.1 hw
  exact ⟨by simpa using hne, of_mem_splitOnP hw⟩

theorem of_mem_intercalate {sep : List Char} (h : c ∈ sep.intercalate words) :
    c ∈ sep ∨ ∃ word ∈ words, c ∈ word := by
  induction words with
  | nil => cases h
  | cons first rest ih =>
    cases rest with
    | nil =>
      rw [List.intercalate_singleton] at h
      exact .inr ⟨first, List.mem_cons_self .., h⟩
    | cons second rest =>
      rw [List.intercalate_cons_cons, List.mem_append, List.mem_append] at h
      rcases h with (h | h) | h
      · exact .inr ⟨first, List.mem_cons_self .., h⟩
      · exact .inl h
      · rcases ih h with h | ⟨word, hw, h⟩
        · exact .inl h
        · exact .inr ⟨word, List.mem_cons_of_mem first hw, h⟩

/-- Making the spaces of a text single brings nothing into it but spaces. -/
theorem of_mem_squeeze (h : c ∈ squeeze cs) : c = ' ' ∨ c ∈ cs := by
  rcases of_mem_intercalate h with h | ⟨word, hw, h⟩
  · exact .inl (List.mem_singleton.1 h)
  · exact .inr ((of_mem_wordsOf hw).2 c h).1

/-- Separators are all that a split loses. -/
theorem flatten_splitOnP (p : Char → Bool) (cs : List Char) :
    (cs.splitOnP p).flatten = cs.filter fun c => !p c := by
  induction cs with
  | nil => rw [List.splitOnP_nil]; rfl
  | cons c cs ih =>
    obtain ⟨first, pieces, hs⟩ := List.exists_cons_of_ne_nil (List.splitOnP_ne_nil p cs)
    rw [List.splitOnP_cons_eq_if_modifyHead, List.filter_cons, ← ih, hs]
    cases hc : p c with
    | true => simp
    | false => simp

/-- A kind of characters without the separator is not touched by putting it in. -/
theorem filter_intercalate {q : Char → Bool} {sep : List Char} (hsep : sep.filter q = [])
    (words : List (List Char)) : (sep.intercalate words).filter q = words.flatten.filter q := by
  induction words with
  | nil => rfl
  | cons first rest ih =>
    cases rest with
    | nil => simp
    | cons second rest =>
      rw [List.intercalate_cons_cons, List.filter_append, List.filter_append, hsep,
        List.append_nil, ih, ← List.filter_append]
      rfl

/-- Making the spaces of a text single leaves everything else as it is. -/
theorem filter_squeeze (cs : List Char) :
    (squeeze cs).filter (fun c => !isBlank c) = cs.filter fun c => !isBlank c := by
  rw [squeeze, filter_intercalate (by decide), wordsOf, List.flatten_filter_not_isEmpty,
    flatten_splitOnP, List.filter_filter]
  simp only [Bool.and_self]

/-! ## Single spaces -/

/-- White space is a space, and stands behind a character that is none. -/
def SpacedBy (a b : Char) : Prop := isBlank b = true → b = ' ' ∧ isBlank a = false

theorem spacedBy_of_not_blank {a b : Char} (h : isBlank b = false) : SpacedBy a b := by
  intro hb
  rw [h] at hb; cases hb

/-- Between two spaces the text has single spaces only: it starts and ends with a character
    that is no white space. -/
def Squeezed (cs : List Char) : Prop := List.IsChain SpacedBy (' ' :: (cs ++ [' ']))

namespace Squeezed

theorem ne_nil (h : Squeezed cs) : cs ≠ [] := by
  rintro rfl
  have := (List.isChain_cons.1 h).1 ' ' rfl rfl
  exact absurd this.2 (by decide)

theorem of_word (hne : word ≠ []) (hw : ∀ c ∈ word, isBlank c = false) : Squeezed word := by
  have hchain : ∀ a : Char, List.IsChain SpacedBy (a :: word) := by
    clear hne
    induction word with
    | nil => exact fun a => .singleton a
    | cons c word ih =>
      intro a
      have hc := hw c (List.mem_cons_self ..)
      exact .cons_cons (spacedBy_of_not_blank hc)
        (ih (fun d hd => hw d (List.mem_cons_of_mem c hd)) c)
  rw [Squeezed, ← List.cons_append]
  refine List.isChain_append.2 ⟨hchain ' ', .singleton ' ', ?_⟩
  rintro x hx _ ⟨⟩ -
  refine ⟨rfl, hw x ?_⟩
  rw [List.getLast?_cons, List.getLast?_eq_some_getLast hne] at hx
  cases hx
  exact List.getLast_mem hne

/-- Two texts with a space between them. -/
theorem join (hc : Squeezed cs) (hd : Squeezed ds) : Squeezed (cs ++ ' ' :: ds) := by
  have h := @List.IsChain.append_overlap _ SpacedBy (' ' :: cs) [' '] (ds ++ [' ']) hc hd
    (by simp)
  rw [Squeezed]
  simpa using h

theorem intercalate (hne : words ≠ []) (h : ∀ word ∈ words, Squeezed word) :
    Squeezed ([' '].intercalate words) := by
  induction words with
  | nil => exact absurd rfl hne
  | cons first rest ih =>
    have hfirst := h first (List.mem_cons_self ..)
    cases rest with
    | nil => rwa [List.intercalate_singleton]
    | cons second rest =>
      have := ih (by simp) fun w hw => h w (List.mem_cons_of_mem first hw)
      rw [List.intercalate_cons_cons, List.append_assoc]
      exact hfirst.join this

theorem head (h : Squeezed (c :: cs)) : isBlank c = false := by
  cases hc : isBlank c with
  | false => rfl
  | true => exact absurd ((List.isChain_cons.1 h).1 c rfl hc).2 (by decide)

/-- What stands behind the white space of a squeezed text is squeezed. -/
theorem behind (h : Squeezed (cs ++ d :: ds)) (hd : isBlank d = true) : d = ' ' ∧ Squeezed ds := by
  have hchain : List.IsChain SpacedBy ((' ' :: cs) ++ d :: (ds ++ [' '])) := by
    rw [Squeezed] at h
    simpa using h
  obtain ⟨-, hback, hbetween⟩ := List.isChain_append.1 hchain
  have hd := hbetween ((' ' :: cs).getLast (by simp)) (List.getLast?_eq_some_getLast _) d rfl hd
  obtain ⟨rfl, -⟩ := hd
  exact ⟨rfl, hback⟩

/-- A squeezed text is left as it is. -/
theorem squeeze (h : Squeezed cs) : squeeze cs = cs := by
  -- the first word ends at the first space, and what is behind it is squeezed again
  induction hn : cs.length using Nat.strong_induction_on generalizing cs with
  | _ n ih =>
    have hsplit := List.takeWhile_append_dropWhile (p := fun c => !isBlank c) (l := cs)
    generalize hw : cs.takeWhile (fun c => !isBlank c) = w at hsplit
    have hword : ∀ c ∈ w, isBlank c = false := by
      intro c hc
      rw [← hw] at hc
      simpa using List.mem_takeWhile_imp hc
    have hne : w ≠ [] := by
      rw [← hw]
      cases cs with
      | nil => exact absurd rfl h.ne_nil
      | cons c cs => rw [List.takeWhile_cons_of_pos (by simp [h.head])]; simp
    cases hrest : cs.dropWhile (fun c => !isBlank c) with
    | nil =>
      rw [hrest, List.append_nil] at hsplit
      rw [← hsplit, StyleBudget.squeeze, wordsOf_word hne hword, List.intercalate_singleton]
    | cons d ds =>
      have hd : isBlank d = true := by
        have := List.head?_dropWhile_not (fun c => !isBlank c) cs
        rw [hrest] at this
        simpa using this
      rw [hrest] at hsplit
      obtain ⟨rfl, hds⟩ := (hsplit ▸ h : Squeezed (w ++ d :: ds)).behind hd
      have hlt : ds.length < n := by
        rw [← hn, ← hsplit, List.length_append, List.length_cons]
        omega
      have hwords : wordsOf ds ≠ [] := by
        intro he
        have := ih _ hlt hds rfl
        rw [StyleBudget.squeeze, he] at this
        exact hds.ne_nil this.symm
      obtain ⟨second, more, hmore⟩ := List.exists_cons_of_ne_nil hwords
      have hagain := ih _ hlt hds rfl
      rw [StyleBudget.squeeze] at hagain
      rw [← hsplit, StyleBudget.squeeze, wordsOf_append_cons hd, wordsOf_word hne hword,
        List.singleton_append, hmore, List.intercalate_cons_cons, ← hmore, hagain]
      simp

end Squeezed

/-- A text with a word is squeezed when its spaces are made single. -/
theorem squeezed_squeeze (h : wordsOf cs ≠ []) : Squeezed (squeeze cs) :=
  .intercalate h fun _ hw =>
    .of_word (of_mem_wordsOf hw).1 fun c hc => ((of_mem_wordsOf hw).2 c hc).2

theorem squeezed_iff : Squeezed cs ↔ cs ≠ [] ∧ squeeze cs = cs := by
  constructor
  · intro h
    exact ⟨h.ne_nil, h.squeeze⟩
  · rintro ⟨hne, hs⟩
    have hw : wordsOf cs ≠ [] := by
      intro hw
      rw [squeeze, hw] at hs
      exact hne hs.symm
    rw [← hs]
    exact squeezed_squeeze hw

namespace Squeezed

/-- A squeezed text may stand behind any character. -/
theorem follows (h : Squeezed cs) (a : Char) : List.IsChain SpacedBy (a :: cs) := by
  obtain ⟨c, rest, rfl⟩ := List.exists_cons_of_ne_nil h.ne_nil
  have hchain : List.IsChain SpacedBy ((' ' :: c :: rest) ++ [' ']) := h
  exact .cons_cons (spacedBy_of_not_blank h.head)
    (List.isChain_cons_cons.1 (List.isChain_append.1 hchain).1).2

theorem last (h : Squeezed cs) : ∀ c ∈ cs.getLast?, isBlank c = false := by
  intro c hc
  have hchain : List.IsChain SpacedBy ((' ' :: cs) ++ [' ']) := h
  have hlast : c ∈ (' ' :: cs).getLast? := by
    obtain ⟨d, rest, rfl⟩ := List.exists_cons_of_ne_nil h.ne_nil
    exact hc
  exact ((List.isChain_append.1 hchain).2.2 c hlast ' ' rfl rfl).2

/-- A squeezed text may stand for any piece of another one. -/
theorem replace {piece text : List Char} (h : Squeezed (before ++ (piece ++ after)))
    (hne : piece ≠ []) (ht : Squeezed text) : Squeezed (before ++ (text ++ after)) := by
  have hchain : List.IsChain SpacedBy ((' ' :: before) ++ (piece ++ (after ++ [' ']))) := by
    rw [Squeezed] at h
    simpa using h
  obtain ⟨hbefore, hrest, -⟩ := List.isChain_append.1 hchain
  obtain ⟨-, hafter, hjoin⟩ := List.isChain_append.1 hrest
  have htext : List.IsChain SpacedBy text := (ht.follows ' ').tail
  have hnew : List.IsChain SpacedBy ((' ' :: before) ++ (text ++ (after ++ [' ']))) := by
    refine List.isChain_append.2 ⟨hbefore, List.isChain_append.2 ⟨htext, hafter, ?_⟩, ?_⟩
    · intro x hx y hy hyb
      obtain ⟨p, hp⟩ : ∃ p, p ∈ piece.getLast? := ⟨_, List.getLast?_eq_some_getLast hne⟩
      exact ⟨(hjoin p hp y hy hyb).1, ht.last x hx⟩
    · intro x _ y hy
      obtain ⟨t, ts, rfl⟩ := List.exists_cons_of_ne_nil ht.ne_nil
      cases hy
      exact spacedBy_of_not_blank ht.head
  rw [Squeezed]
  simpa using hnew

end Squeezed

/-! ## The ends of a text -/

section

variable {p : Char → Bool}

/-- What is taken off the end of a text does not reach over a character of another kind. -/
theorem dropEndWhile_append_cons (hd : p d = false) (cs ds : List Char) :
    dropEndWhile p (cs ++ d :: ds) = cs ++ d :: dropEndWhile p ds := by
  have hscan := scan_append_of_stops ds.reverse (Stops.cons hd cs.reverse)
  rw [dropEndWhile, List.reverse_append, List.reverse_cons, List.append_assoc,
    List.singleton_append, hscan.2]
  simp [dropEndWhile]

theorem dropEndWhile_append (cs : List Char) (h : ∀ c ∈ ds, p c = true) :
    dropEndWhile p (cs ++ ds) = dropEndWhile p cs := by
  rw [dropEndWhile, List.reverse_append,
    List.dropWhile_append_of_pos fun c hc => h c (List.mem_reverse.1 hc)]
  rfl

theorem dropEndWhile_of_forall (h : ∀ c ∈ cs, p c = false) : dropEndWhile p cs = cs := by
  refine List.rdropWhile_eq_self_iff.2 fun hne => ?_
  simpa using h _ (List.getLast_mem hne)

end

theorem trim_cons (hc : isBlank c = true) (cs : List Char) : trim (c :: cs) = trim cs := by
  rw [trim, trimStart, List.dropWhile_cons_of_pos hc]
  rfl

/-- White space behind a text makes no difference to what is left of it. -/
theorem trim_append_of_blank (cs : List Char) (ha : ∀ c ∈ after, isBlank c = true) :
    trim (cs ++ after) = trim cs := by
  by_cases h : ∀ c ∈ cs, isBlank c = true
  · rw [trim_of_blank h, trim_of_blank]
    exact List.forall_mem_append.2 ⟨h, ha⟩
  · have hstart : trimStart (cs ++ after) = trimStart cs ++ after := by
      obtain ⟨d, ds, hd⟩ := List.exists_cons_of_ne_nil (mt List.dropWhile_eq_nil_iff.1 h)
      rw [trimStart, trimStart, List.dropWhile_append, hd]
      rfl
    rw [trim, hstart, trimEnd, dropEndWhile_append _ ha]
    rfl

theorem trim_of_forall (h : ∀ c ∈ cs, isBlank c = false) : trim cs = cs := by
  cases cs with
  | nil => rfl
  | cons c cs =>
    rw [trim, trimStart, List.dropWhile_cons_of_neg (by simp [h c (List.mem_cons_self ..)])]
    exact dropEndWhile_of_forall h

/-- A name is all that is left of it when the white space behind it is taken off. -/
theorem trim_append (hw : ∀ c ∈ word, isBlank c = false) (ha : ∀ c ∈ after, isBlank c = true) :
    trim (word ++ after) = word :=
  (trim_append_of_blank word ha).trans (trim_of_forall hw)

theorem mem_of_mem_trim (h : c ∈ trim cs) : c ∈ cs :=
  (List.dropWhile_suffix _).mem ((List.rdropWhile_prefix isBlank (trimStart cs)).mem h)

theorem trim_ne_nil (hc : c ∈ cs) (hb : isBlank c = false) : trim cs ≠ [] := by
  intro h
  have hall := List.rdropWhile_eq_nil_iff.1 h
  have hmem : c ∈ trimStart cs := by
    rw [← List.takeWhile_append_dropWhile (p := isBlank) (l := cs)] at hc
    rcases List.mem_append.1 hc with hc | hc
    · rw [List.mem_takeWhile_imp hc] at hb; cases hb
    · exact hc
  rw [hall c hmem] at hb; cases hb

theorem trim_trim (cs : List Char) : trim (trim cs) = trim cs := by
  have hstart : trimStart (trim cs) = trim cs := by
    obtain ⟨rest, hrest⟩ := List.rdropWhile_prefix isBlank (trimStart cs)
    cases ht : trim cs with
    | nil => rfl
    | cons c ds =>
      have hhead := stops_dropWhile isBlank cs c
      have hsplit : trimStart cs = c :: (ds ++ rest) := by
        rw [← hrest, ← List.cons_append, ← ht]; rfl
      rw [trimStart, List.dropWhile_cons_of_neg]
      rw [← trimStart, hsplit] at hhead
      simpa using hhead rfl
  rw [trim, hstart]
  exact List.rdropWhile_idempotent isBlank (trimStart cs)

/-- White space around a text makes no difference to what is left of it. -/
theorem trim_around (hb : ∀ c ∈ before, isBlank c = true) (ha : ∀ c ∈ after, isBlank c = true)
    (cs : List Char) : trim (before ++ cs ++ after) = trim cs := by
  rw [trim_append_of_blank _ ha]
  induction before with
  | nil => rfl
  | cons b before ih =>
    rw [List.cons_append, trim_cons (hb b (List.mem_cons_self ..))]
    exact ih fun c hc => hb c (List.mem_cons_of_mem b hc)

/-- A text is what is left of it with white space around. -/
theorem exists_around_trim (cs : List Char) : ∃ before after, (∀ c ∈ before, isBlank c = true) ∧
    (∀ c ∈ after, isBlank c = true) ∧ cs = before ++ trim cs ++ after := by
  refine ⟨cs.takeWhile isBlank, (trimStart cs).rtakeWhile isBlank,
    fun _ => List.mem_takeWhile_imp, fun _ => List.mem_rtakeWhile_imp, ?_⟩
  have hend : trim cs ++ (trimStart cs).rtakeWhile isBlank = trimStart cs :=
    List.rdropWhile_append_rtakeWhile
  rw [List.append_assoc, hend]
  exact List.takeWhile_append_dropWhile.symm

theorem trim_eq_nil_iff : trim cs = [] ↔ ∀ c ∈ cs, isBlank c = true := by
  refine ⟨fun h c hc => ?_, trim_of_blank⟩
  by_contra hb
  exact trim_ne_nil hc (by simpa using hb) h

/-! ## Cuts -/

theorem cutAt?_eq_some_iff : cutAt? d cs = some (before, after) ↔
    cs = before ++ d :: after ∧ d ∉ before := by
  constructor
  · intro h
    unfold cutAt? at h
    split at h
    · cases h
    · rename_i e rest hdrop
      cases h
      have he : e = d := by
        have := List.head?_dropWhile_not (· != d) cs
        rw [hdrop] at this
        simpa using this
      refine ⟨?_, fun hd => by simpa using List.mem_takeWhile_imp hd⟩
      rw [← he, ← hdrop, he]
      exact List.takeWhile_append_dropWhile.symm
  · rintro ⟨rfl, hd⟩
    have hfree : ∀ c ∈ before, (c != d) = true := fun c hc => bne_iff_ne.2 fun he => hd (he ▸ hc)
    have hcut := scan_append hfree (.cons (c := d) (by simp) after)
    rw [cutAt?, hcut.1, hcut.2]

theorem cutAt?_eq_none_iff : cutAt? d cs = none ↔ d ∉ cs := by
  unfold cutAt?
  split
  · rename_i h
    simp only [true_iff]
    intro hd
    simpa using List.dropWhile_eq_nil_iff.1 h d hd
  · rename_i e rest h
    refine iff_of_false (by simp) (not_not.2 ?_)
    have he := List.head?_dropWhile_not (· != d) cs
    rw [h] at he
    obtain rfl : e = d := by simpa using he
    exact (List.dropWhile_suffix _).mem (h ▸ List.mem_cons_self ..)

end StyleBudget
