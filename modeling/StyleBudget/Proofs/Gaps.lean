/-
  The walk over a text, lexeme by lexeme, and what it leaves out.

  * `readFrom_skip`, `readFrom_take` and `readFrom_stuck` are the three things that
    reading can do with the lexeme at the front of a text;
  * `Stops` says that a scan ends before a text, `scan_append` and its variants what is
    scanned of two texts in a row;
  * `IsGap` is white space with whole comments, and `readFrom_gap` says that it makes no
    difference.
-/
import StyleBudget.Proofs.Lexing
import StyleBudget.Syntax.Reading

namespace StyleBudget

variable {st st' : ReadState} {last : Option Token} {offset : Nat} {cs ds l rest : List Char}
  {t : Terminal}

/-! ## One lexeme -/

theorem readFrom_nil (st : ReadState) (last : Option Token) (offset : Nat) :
    readFrom st last offset [] =
      if st.isComplete then .ok st else .error (.unfinished last st) := by
  rw [readFrom]; rfl

/-- What reading does with the one terminal that stands at the front of a text. -/
theorem readFrom_of_lexeme? (ht : t ∈ st.phase.looked) (hl : t.lexeme? (l ++ rest) = some l) :
    readFrom st last offset (l ++ rest) =
      if t.skipped then readFrom st last (offset + l.length) rest
      else
        match st.advance t l with
        | none => .error (.misplaced ⟨t, l, offset⟩ st)
        | some st' => readFrom st' (some ⟨t, l, offset⟩) (offset + l.length) rest := by
  have hf := Phase.firstLexeme?_eq_some_iff.2 ⟨ht, hl⟩
  have hne : (l ++ rest).isEmpty = false := by
    simp [(Terminal.isLexeme hl).1]
  rw [readFrom, if_neg (by simp [hne])]
  split
  · rename_i hn
    rw [hn] at hf; cases hf
  · rename_i u m hu
    obtain ⟨rfl, rfl⟩ := Prod.mk.inj (Option.some.inj (hu.symm.trans hf))
    cases hs : u.skipped with
    | true => simp only [if_true, List.drop_left]
    | false =>
      cases ha : st.advance u m with
      | none => simp only [if_neg Bool.false_ne_true, List.drop_left]
      | some st' => simp only [if_neg Bool.false_ne_true, List.drop_left]

theorem readFrom_skip (hs : t.skipped = true) (hl : t.lexeme? (l ++ rest) = some l) :
    readFrom st last offset (l ++ rest) = readFrom st last (offset + l.length) rest := by
  rw [readFrom_of_lexeme? (Phase.mem_looked.2 (.inr hs)) hl, if_pos hs]

theorem readFrom_take (ht : t ∈ st.phase.looked) (hs : ¬ t.skipped = true)
    (hl : t.lexeme? (l ++ rest) = some l) (ha : st.advance t l = some st') :
    readFrom st last offset (l ++ rest) =
      readFrom st' (some ⟨t, l, offset⟩) (offset + l.length) rest := by
  rw [readFrom_of_lexeme? ht hl, if_neg hs, ha]

theorem readFrom_stuck (ht : t ∈ st.phase.looked) (hs : ¬ t.skipped = true)
    (hl : t.lexeme? (l ++ rest) = some l) (ha : st.advance t l = none) :
    readFrom st last offset (l ++ rest) = .error (.misplaced ⟨t, l, offset⟩ st) := by
  rw [readFrom_of_lexeme? ht hl, if_neg hs, ha]

theorem readFrom_of_none (hcs : cs ≠ []) (hn : firstLexeme? st.phase.allowed cs = none) :
    readFrom st last offset cs = .error (complaintAt st last offset cs) := by
  rw [readFrom, if_neg (by simpa using hcs)]
  split
  · rfl
  · rename_i hf
    rw [hn] at hf; cases hf

/-! ## Scans -/

/-- The text does not go on with characters of a kind. -/
def Stops (p : Char → Bool) (cs : List Char) : Prop := ∀ c ∈ cs.head?, p c = false

section

variable {p : Char → Bool}

theorem Stops.cons {c : Char} (h : p c = false) (cs : List Char) : Stops p (c :: cs) := by
  rintro d ⟨⟩; exact h

theorem Stops.scan (h : Stops p cs) : cs.takeWhile p = [] ∧ cs.dropWhile p = cs := by
  cases cs with
  | nil => exact ⟨rfl, rfl⟩
  | cons c cs =>
    have hc := h c rfl
    simp [hc]

/-- A scan takes the characters of a kind up to the first other one. -/
theorem scan_append (hcs : ∀ c ∈ cs, p c = true) (hds : Stops p ds) :
    (cs ++ ds).takeWhile p = cs ∧ (cs ++ ds).dropWhile p = ds := by
  obtain ⟨ht, hd⟩ := hds.scan
  rw [List.takeWhile_append_of_pos hcs, List.dropWhile_append_of_pos hcs, ht, hd, List.append_nil]
  exact ⟨rfl, rfl⟩

theorem stops_dropWhile (p : Char → Bool) (cs : List Char) : Stops p (cs.dropWhile p) := by
  intro c hc
  have h := List.head?_dropWhile_not p cs
  rw [Option.mem_def] at hc
  simpa [hc] using h

/-- A scan of a text goes no further if another text follows at which it stops. -/
theorem scan_append_of_stops (cs : List Char) (hds : Stops p ds) :
    (cs ++ ds).takeWhile p = cs.takeWhile p ∧ (cs ++ ds).dropWhile p = cs.dropWhile p ++ ds := by
  have hstop : Stops p (cs.dropWhile p ++ ds) := by
    cases h : cs.dropWhile p with
    | nil => exact hds
    | cons d rest =>
      have hd := stops_dropWhile p cs
      rw [h] at hd
      exact .cons (hd d rfl) _
  have hsplit : cs ++ ds = cs.takeWhile p ++ (cs.dropWhile p ++ ds) := by
    rw [← List.append_assoc, List.takeWhile_append_dropWhile]
  rw [hsplit]
  exact scan_append (fun c hc => List.mem_takeWhile_imp hc) hstop

/-- A scan that stops inside a text does so whatever follows. -/
theorem scan_append_of_dropWhile {d : Char} (h : cs.dropWhile p = d :: rest) (ds : List Char) :
    (cs ++ ds).takeWhile p = cs.takeWhile p ∧ (cs ++ ds).dropWhile p = d :: (rest ++ ds) := by
  have hd : p d = false := by
    have := stops_dropWhile p cs
    rw [h] at this
    exact this d rfl
  have hsplit : cs ++ ds = cs.takeWhile p ++ (d :: (rest ++ ds)) := by
    conv => lhs; rw [← List.takeWhile_append_dropWhile (p := p) (l := cs), h]
    simp
  rw [hsplit]
  exact scan_append (fun c hc => List.mem_takeWhile_imp hc) (.cons hd _)

end

theorem takeHyphen_append_of_ne_nil (hcs : cs ≠ []) (ds : List Char) :
    takeHyphen (cs ++ ds) = ((takeHyphen cs).1, (takeHyphen cs).2 ++ ds) := by
  cases cs with
  | nil => exact absurd rfl hcs
  | cons c cs =>
    by_cases hc : c = '-'
    · subst hc; rfl
    · have hplain : ∀ more, takeHyphen (c :: more) = ([], c :: more) := by
        intro more
        rw [takeHyphen]
        rintro rest ⟨⟩
        exact hc rfl
      rw [List.cons_append, hplain, hplain, List.cons_append]

/-! ## White space -/

theorem spaceLexeme?_cons {c : Char} (hc : isSpace c = true) (cs : List Char) :
    spaceLexeme? (c :: cs) = some (c :: cs.takeWhile isSpace) := by
  rw [spaceLexeme?, if_pos hc]

theorem isSpace_of_spaceLexeme? (h : spaceLexeme? cs = some l) : ∀ c ∈ l, isSpace c = true := by
  unfold spaceLexeme? at h
  split at h
  · split at h
    · rename_i hc
      cases h
      intro d hd
      rcases List.mem_cons.1 hd with rfl | hd
      · exact hc
      · exact List.mem_takeWhile_imp hd
    · cases h
  · cases h

/-- White space may be read character by character. -/
theorem readFrom_space {c : Char} (hc : isSpace c = true) (cs : List Char) :
    readFrom st last offset (c :: cs) = readFrom st last (offset + 1) cs := by
  have hrun : ∀ {d : Char} {ds : List Char} {k : Nat}, isSpace d = true →
      readFrom st last k (d :: ds) =
        readFrom st last (k + (ds.takeWhile isSpace).length + 1) (ds.dropWhile isSpace) := by
    intro d ds k hd
    have hsplit : d :: ds = (d :: ds.takeWhile isSpace) ++ ds.dropWhile isSpace := by
      rw [List.cons_append, List.takeWhile_append_dropWhile]
    have hl := spaceLexeme?_cons hd ds
    rw [hsplit] at hl ⊢
    exact readFrom_skip (t := .space) rfl hl
  rw [hrun hc]
  cases cs with
  | nil => rfl
  | cons d ds =>
    cases hd : isSpace d with
    | false => simp [hd]
    | true =>
      rw [hrun hd]
      simp only [List.takeWhile_cons_of_pos hd, List.dropWhile_cons_of_pos hd, List.length_cons]
      congr 1
      omega

theorem readFrom_spaces (hl : ∀ c ∈ l, isSpace c = true) (rest : List Char) :
    readFrom st last offset (l ++ rest) = readFrom st last (offset + l.length) rest := by
  induction l generalizing offset with
  | nil => rfl
  | cons c l ih =>
    rw [List.cons_append, readFrom_space (hl c (List.mem_cons_self ..)),
      ih fun d hd => hl d (List.mem_cons_of_mem c hd), List.length_cons]
    congr 1
    omega

/-! ## Gaps -/

/-- White space and whole comments: a comment of one line with its line end, any other
    up to the first mark that closes it. -/
inductive IsGap : List Char → Prop
  | nil : IsGap []
  | space {c : Char} {gap : List Char} : isSpace c = true → IsGap gap → IsGap (c :: gap)
  | lineComment {words gap : List Char} : '\n' ∉ words → IsGap gap →
    IsGap ('/' :: '/' :: (words ++ '\n' :: gap))
  | blockComment {words gap : List Char} : ¬ ['*', '/'] <:+: words → IsGap gap →
    IsGap ('/' :: '*' :: (words ++ '*' :: '/' :: gap))

theorem lineCommentLexeme?_append {words : List Char} (hw : '\n' ∉ words) (rest : List Char) :
    lineCommentLexeme? (('/' :: '/' :: words) ++ '\n' :: rest) = some ('/' :: '/' :: words) := by
  have hwords : ∀ c ∈ words, (c != '\n') = true := fun c hc => bne_iff_ne.2 fun he => hw (he ▸ hc)
  have hscan := scan_append hwords (Stops.cons (c := '\n') rfl rest)
  simp only [List.cons_append, lineCommentLexeme?, hscan.1]

theorem commentTail?_append {words : List Char} (hw : ¬ ['*', '/'] <:+: words)
    (rest : List Char) :
    commentTail? (words ++ '*' :: '/' :: rest) = some (words ++ ['*', '/']) := by
  induction words with
  | nil => rfl
  | cons c words ih =>
    have ih := ih fun h => hw (h.trans (List.suffix_cons c words).isInfix)
    rw [List.cons_append, commentTail?, ih]
    · rfl
    · -- the first two characters do not close the comment
      rintro more rfl he
      cases words with
      | nil => cases he
      | cons d words =>
        obtain ⟨rfl, -⟩ := List.cons.inj he
        exact hw ⟨[], words, rfl⟩

/-- **Gaps carry no meaning.** -/
theorem readFrom_gap {gap : List Char} (hg : IsGap gap) (rest : List Char) :
    readFrom st last offset (gap ++ rest) = readFrom st last (offset + gap.length) rest := by
  induction hg generalizing offset with
  | nil => rfl
  | @space c gap hc _ ih =>
    rw [List.cons_append, readFrom_space hc, ih, List.length_cons]
    congr 1
    omega
  | @lineComment words gap hw _ ih =>
    have hl : Terminal.lexeme? .lineComment (('/' :: '/' :: words) ++ '\n' :: (gap ++ rest)) = _ :=
      lineCommentLexeme?_append hw (gap ++ rest)
    have hsplit : '/' :: '/' :: (words ++ '\n' :: gap) ++ rest =
        ('/' :: '/' :: words) ++ '\n' :: (gap ++ rest) := by simp
    rw [hsplit, readFrom_skip rfl hl, readFrom_space rfl, ih]
    congr 1
    simp only [List.length_cons, List.length_append]
    omega
  | @blockComment words gap hw _ ih =>
    have hl : Terminal.lexeme? .blockComment
        (('/' :: '*' :: (words ++ ['*', '/'])) ++ (gap ++ rest)) =
          some ('/' :: '*' :: (words ++ ['*', '/'])) := by
      have ht := commentTail?_append hw (gap ++ rest)
      simp only [List.cons_append, List.append_assoc, List.nil_append, Terminal.lexeme?,
        blockCommentLexeme?, ht, Option.map_some]
    have hsplit : '/' :: '*' :: (words ++ '*' :: '/' :: gap) ++ rest =
        ('/' :: '*' :: (words ++ ['*', '/'])) ++ (gap ++ rest) := by simp
    rw [hsplit, readFrom_skip rfl hl, ih]
    congr 1
    simp only [List.length_cons, List.length_append, List.length_nil]
    omega

end StyleBudget
