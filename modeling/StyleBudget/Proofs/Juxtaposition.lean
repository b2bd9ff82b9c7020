/-
  Texts one behind the other.

  A text that is a style sheet ends between two statements, where more is looked for than at
  the start of a text: a declaration or a closing brace.  Outside all rules neither of
  them can stand, so what follows is read as at the start.

  * `Terminal.lexeme?_append`: a line end keeps lexemes apart, and `readFrom_append` that a
    text is read in front of one as it is alone;
  * `ReadState.Resumes` ties the state at the start of a text to the one behind another,
    and `follows_readFrom` is the run of both over the same text;
  * `Sheet.read_append` is the result, `Complaint.position_append` its part on places.
-/
import StyleBudget.Proofs.Gaps

namespace StyleBudget

variable {cs ds l : List Char}

/-! ## Lexemes before a line end -/

theorem hyphenated?_append {f : List Char → Option (List Char)} (hn : f [] = none)
    (hf : ∀ cs l, f cs = some l → f (cs ++ ds) = some l) (h : hyphenated? f cs = some l) :
    hyphenated? f (cs ++ ds) = some l := by
  have hne : cs ≠ [] := by
    rintro rfl
    rw [hyphenated?, takeHyphen, hn] at h
    · cases h
    · rintro _ ⟨⟩
  obtain ⟨m, hm, rfl⟩ := Option.map_eq_some_iff.1 h
  rw [hyphenated?, takeHyphen_append_of_ne_nil hne, hf _ _ hm]
  rfl

theorem plainNameLexeme?_append (h : plainNameLexeme? cs = some l) (ds : List Char) :
    plainNameLexeme? (cs ++ '\n' :: ds) = some l := by
  cases cs with
  | nil => cases h
  | cons c cs =>
    have hscan := scan_append_of_stops (p := isNameChar) cs (.cons (c := '\n') rfl ds)
    simpa only [List.cons_append, plainNameLexeme?, hscan.1] using h

theorem fractionLexeme_append (cs ds : List Char) :
    fractionLexeme (cs ++ '\n' :: ds) = fractionLexeme cs := by
  cases cs with
  | nil => rfl
  | cons c cs =>
    by_cases hc : c = '.'
    · subst hc
      cases cs with
      | nil => rfl
      | cons d cs =>
        have hscan := scan_append_of_stops (p := isDecimalDigit) cs (.cons (c := '\n') rfl ds)
        simp only [List.cons_append, fractionLexeme, hscan.1]
    · have hnone : ∀ more, fractionLexeme (c :: more) = [] := by
        intro more
        rw [fractionLexeme]
        rintro _ _ ⟨⟩
        exact hc rfl
      rw [List.cons_append, hnone, hnone]

theorem plainNumberLexeme?_append (h : plainNumberLexeme? cs = some l) (ds : List Char) :
    plainNumberLexeme? (cs ++ '\n' :: ds) = some l := by
  cases cs with
  | nil => cases h
  | cons c cs =>
    have hscan := scan_append_of_stops (p := isDecimalDigit) cs (.cons (c := '\n') rfl ds)
    simpa only [List.cons_append, plainNumberLexeme?, hscan.1, hscan.2, fractionLexeme_append]
      using h

theorem markedNameLexeme?_append {mark : Char} (h : markedNameLexeme? mark cs = some l)
    (ds : List Char) : markedNameLexeme? mark (cs ++ '\n' :: ds) = some l := by
  match cs, h with
  | m :: c :: cs, h =>
    have hscan := scan_append_of_stops (p := isNameChar) cs (.cons (c := '\n') rfl ds)
    simpa only [List.cons_append, markedNameLexeme?, hscan.1] using h

theorem flagLexeme?_append (h : flagLexeme? cs = some l) (ds : List Char) :
    flagLexeme? (cs ++ '\n' :: ds) = some l := by
  unfold flagLexeme? at h
  split at h
  · rename_i c cs
    have hscan := scan_append_of_stops (p := Char.isAlpha) cs (.cons (c := '\n') rfl ds)
    simpa only [List.cons_append, flagLexeme?, hscan.1] using h
  · cases h

theorem stringLexeme?_append (h : stringLexeme? cs = some l) (ds : List Char) :
    stringLexeme? (cs ++ ds) = some l := by
  cases cs with
  | nil => cases h
  | cons q cs =>
    simp only [stringLexeme?] at h
    split at h
    · rename_i hq
      split at h
      · cases h
      · rename_i d rest hrest
        have hscan := scan_append_of_dropWhile hrest ds
        simp only [List.cons_append, stringLexeme?, if_pos hq, hscan.1, hscan.2]
        exact h
    · cases h

theorem selectorLexeme?_append (h : selectorLexeme? cs = some l) (ds : List Char) :
    selectorLexeme? (cs ++ ds) = some l := by
  cases cs with
  | nil => cases h
  | cons c cs =>
    simp only [selectorLexeme?] at h
    split at h
    · cases h
    · rename_i hc
      split at h
      · rename_i rest hrest
        have hscan := scan_append_of_dropWhile hrest ds
        simp only [List.cons_append, selectorLexeme?, if_neg hc, hscan.1, hscan.2]
        exact h
      · cases h

theorem valueLexeme?_append (h : valueLexeme? cs = some l) (ds : List Char) :
    valueLexeme? (cs ++ ds) = some l := by
  simp only [valueLexeme?] at h
  split at h
  · rename_i rest hrest
    have hscan := scan_append_of_dropWhile hrest ds
    simp only [valueLexeme?, hscan.1, hscan.2]
    exact h
  · rename_i rest hrest
    have hscan := scan_append_of_dropWhile hrest ds
    simp only [valueLexeme?, hscan.1, hscan.2]
    exact h
  · cases h

theorem colonValueLexeme?_append (h : colonValueLexeme? cs = some l) (ds : List Char) :
    colonValueLexeme? (cs ++ ds) = some l := by
  simp only [colonValueLexeme?] at h
  split at h
  · rename_i rest hrest
    obtain ⟨m, hm, rfl⟩ := Option.map_eq_some_iff.1 h
    have hscan := scan_append_of_dropWhile hrest ds
    simp only [colonValueLexeme?, hscan.1, hscan.2, valueLexeme?_append hm, Option.map_some]
  · cases h

theorem declarationLexeme?_append (h : declarationLexeme? cs = some l) (ds : List Char) :
    declarationLexeme? (cs ++ '\n' :: ds) = some l := by
  cases cs with
  | nil => cases h
  | cons c cs =>
    simp only [declarationLexeme?] at h
    split at h
    · rename_i hc
      obtain ⟨m, hm, rfl⟩ := Option.map_eq_some_iff.1 h
      have hscan := scan_append_of_stops (p := isNameChar) cs (.cons (c := '\n') rfl ds)
      simp only [List.cons_append, declarationLexeme?, if_pos hc, hscan.1, hscan.2,
        colonValueLexeme?_append hm, Option.map_some]
    · cases h

theorem commentTail?_append_right (h : commentTail? cs = some l) (ds : List Char) :
    commentTail? (cs ++ ds) = some l := by
  fun_induction commentTail? cs generalizing l with
  | case1 rest => exact h
  | case2 c rest hc ih =>
    obtain ⟨m, hm, rfl⟩ := Option.map_eq_some_iff.1 h
    rw [List.cons_append, commentTail?, ih hm]
    · rfl
    · rintro more rfl he
      cases rest with
      | nil => cases hm
      | cons d rest =>
        obtain ⟨rfl, -⟩ := List.cons.inj he
        exact hc rest rfl rfl
  | case3 => cases h

theorem blockCommentLexeme?_append (h : blockCommentLexeme? cs = some l) (ds : List Char) :
    blockCommentLexeme? (cs ++ ds) = some l := by
  unfold blockCommentLexeme? at h
  split at h
  · obtain ⟨m, hm, rfl⟩ := Option.map_eq_some_iff.1 h
    simp only [List.cons_append, blockCommentLexeme?, commentTail?_append_right hm ds,
      Option.map_some]
  · cases h

theorem lineCommentLexeme?_append_line (h : lineCommentLexeme? cs = some l) (ds : List Char) :
    lineCommentLexeme? (cs ++ '\n' :: ds) = some l := by
  unfold lineCommentLexeme? at h
  split at h
  · rename_i words
    have hscan := scan_append_of_stops (p := (· != '\n')) words (.cons (c := '\n') rfl ds)
    simpa only [List.cons_append, lineCommentLexeme?, hscan.1] using h
  · cases h

theorem wordLexeme?_append {word : List Char} (h : wordLexeme? word cs = some l)
    (ds : List Char) : wordLexeme? word (cs ++ ds) = some l := by
  simp only [wordLexeme?, List.isPrefixOf_iff_prefix] at h ⊢
  split at h
  · rename_i hp
    rw [if_pos (hp.trans (List.prefix_append cs ds))]
    exact h
  · cases h

/-- **A line end keeps lexemes apart**, all but white space: no lexeme goes on behind
    it, and none that needs what follows reaches so far. -/
theorem Terminal.lexeme?_append {t : Terminal} (ht : t ≠ .space) (h : t.lexeme? cs = some l)
    (ds : List Char) : t.lexeme? (cs ++ '\n' :: ds) = some l := by
  cases t with
  | space => exact absurd rfl ht
  | declaration => exact declarationLexeme?_append h ds
  | selector => exact selectorLexeme?_append h _
  | name => exact hyphenated?_append rfl (fun _ _ h => plainNameLexeme?_append h ds) h
  | number => exact hyphenated?_append rfl (fun _ _ h => plainNumberLexeme?_append h ds) h
  | dollarName | placeholder => exact markedNameLexeme?_append h ds
  | blockComment => exact blockCommentLexeme?_append h _
  | lineComment => exact lineCommentLexeme?_append_line h ds
  | string => exact stringLexeme?_append h _
  | flag => exact flagLexeme?_append h ds
  | includeWord | extendWord | colon | comma | openBrace | openParen | closeBrace | closeParen
  | semicolon => exact wordLexeme?_append h _

/-! ## The text in front -/

variable {st st' : ReadState} {last last' : Option Token} {offset shift : Nat} {t : Terminal}

/-- A text that is read whole is read the same way in front of a line end, and what
    follows is read in the state that it leads to. -/
theorem readFrom_append (h : readFrom st last offset cs = .ok st') (ds : List Char) :
    ∃ last', readFrom st last offset (cs ++ '\n' :: ds) =
      readFrom st' last' (offset + cs.length + 1) ds := by
  fun_induction readFrom st last offset cs with
  | case1 st last offset cs he hc =>
    obtain rfl := List.isEmpty_iff.1 he
    cases h
    exact ⟨last, readFrom_space rfl ds⟩
  | case2 => cases h
  | case3 => cases h
  | case4 st last offset cs he t l hl hlt hs ih =>
    obtain ⟨ht, hl⟩ := Phase.firstLexeme?_eq_some_iff.1 hl
    obtain ⟨-, rest, rfl⟩ := Terminal.isLexeme hl
    rw [List.drop_left] at ih h
    obtain ⟨last', ih⟩ := ih h
    refine ⟨last', ?_⟩
    have hskip : readFrom st last offset (l ++ (rest ++ '\n' :: ds)) =
        readFrom st last (offset + l.length) (rest ++ '\n' :: ds) := by
      by_cases hsp : t = .space
      · -- the line end may lengthen the white space, which is read bit by bit
        subst hsp
        exact readFrom_spaces (isSpace_of_spaceLexeme? hl) _
      · have hl' := Terminal.lexeme?_append hsp hl ds
        rw [List.append_assoc] at hl'
        exact readFrom_skip hs hl'
    rw [List.append_assoc, hskip, ih, List.length_append]
    congr 1
    omega
  | case5 => cases h
  | case6 st last offset cs he t l hl hlt hs st'' ha ih =>
    obtain ⟨ht, hl⟩ := Phase.firstLexeme?_eq_some_iff.1 hl
    obtain ⟨-, rest, rfl⟩ := Terminal.isLexeme hl
    rw [List.drop_left] at ih h
    obtain ⟨last', ih⟩ := ih h
    refine ⟨last', ?_⟩
    have hsp : t ≠ .space := by rintro rfl; exact hs rfl
    have hl' := Terminal.lexeme?_append hsp hl ds
    rw [List.append_assoc] at hl' ⊢
    rw [readFrom_take ht hs hl' ha, ih, List.length_append]
    congr 1
    omega

/-! ## Older statements -/

namespace ReadState

variable {older : List Statement}

/-- The state with statements that have been read before its own. -/
def onto (st : ReadState) (older : List Statement) : ReadState :=
  { st with statements := st.statements ++ older }

theorem finish_onto (st : ReadState) (older : List Statement) (phase : Phase) (s : Statement) :
    (st.onto older).finish phase s = (st.finish phase s).onto older := by
  simp only [finish, onto]
  split <;> rfl

theorem closeRule?_onto (st : ReadState) (older : List Statement) :
    (st.onto older).closeRule? = st.closeRule?.map (·.onto older) := by
  simp only [closeRule?]
  cases hr : st.rules with
  | nil => simp only [onto, hr]; rfl
  | cons r rs =>
    simp only [onto, hr, Option.map_some]
    exact congrArg some (finish_onto { st with rules := rs } older _ _)

theorem start?_onto (st : ReadState) (older : List Statement) (t : Terminal) (l : List Char) :
    (st.onto older).start? t l = (st.start? t l).map (·.onto older) := by
  cases t with
  | closeBrace => exact closeRule?_onto st older
  | dollarName =>
    simp only [start?]
    have hr : (st.onto older).rules = st.rules := rfl
    rw [hr]
    split <;> rfl
  | declaration =>
    simp only [start?, finish_onto]
    have hr : (st.onto older).rules = st.rules := rfl
    rw [hr]
    split <;> rfl
  | _ => rfl

theorem map_scalar?_onto (st : ReadState) (older : List Statement) (t : Terminal) (l : List Char)
    (f : Scalar → Phase) :
    (((st.onto older).scalar? t l).map fun (value, st) => st.enter (f value)) =
      ((st.scalar? t l).map fun (value, st) => st.enter (f value)).map (·.onto older) := by
  cases t <;> rfl

theorem map_argument?_onto (st : ReadState) (older : List Statement) (t : Terminal)
    (l : List Char) (f : String → Phase) :
    ((argument? t l).map fun a => (st.onto older).enter (f a)) =
      ((argument? t l).map fun a => st.enter (f a)).map (·.onto older) := by
  cases t <;> rfl

/-- What has been read before has no part in what a terminal does. -/
theorem advance_onto (st : ReadState) (older : List Statement) (t : Terminal) (l : List Char) :
    (st.onto older).advance t l = (st.advance t l).map (·.onto older) := by
  have hp : (st.onto older).phase = st.phase := rfl
  simp only [advance, hp]
  split
  case h_12 name entries key _ =>
    exact map_scalar?_onto st older _ l
      (fun value => .mapEntry name (insertPair (.text key) (.scalar value) entries))
  -- the branches are of five kinds: most of them enter a phase
  all_goals first
    | rfl
    | exact start?_onto _ _ _ _
    | exact map_scalar?_onto _ _ _ _ _
    | exact map_argument?_onto _ _ _ _ _
    | exact congrArg some (finish_onto _ _ _ _)

/-- Between two statements the phase has no part in it either. -/
theorem start?_phase (st : ReadState) (phase : Phase) (t : Terminal) (l : List Char) :
    { st with phase }.start? t l = st.start? t l := by
  cases t <;> rfl

/-! ## Resuming -/

theorem mem_looked_between (t : Terminal) : t ∈ Phase.between.looked ↔
    t ∈ Phase.opening.looked ∨ t = .declaration ∨ t = .closeBrace := by
  cases t <;> decide

/-- The second state goes on where the first does, with statements read before.  A new text
    is read in the phase at the start of a text; after other statements it may be
    the one after a closing brace, in which more is looked for. -/
inductive Resumes (older : List Statement) : ReadState → ReadState → Prop
  | same (st : ReadState) : Resumes older st (st.onto older)
  | fresh (st : ReadState) (hp : st.phase = .opening) (hr : st.rules = []) :
    Resumes older st ({ st with phase := .between }.onto older)

namespace Resumes

variable {older : List Statement} (h : Resumes older st st')
include h

theorem isComplete : st'.isComplete = st.isComplete := by
  cases h with
  | same => rfl
  | fresh hp hr => simp [ReadState.isComplete, onto, hp, hr]

theorem advance : st'.advance t l = (st.advance t l).map (·.onto older) := by
  cases h with
  | same => exact advance_onto st older t l
  | fresh hp hr =>
    rw [advance_onto]
    congr 1
    simp only [ReadState.advance, hp]
    exact start?_phase st .between t l

theorem mem_looked (ht : t ∈ st.phase.looked) : t ∈ st'.phase.looked := by
  cases h with
  | same => exact ht
  | fresh hp hr =>
    rw [hp] at ht
    exact (mem_looked_between t).2 (.inl ht)

/-- What is looked for in addition cannot stand outside all rules. -/
theorem advance_of_notMem (ht : t ∈ st'.phase.looked) (hn : t ∉ st.phase.looked) :
    st'.advance t l = none := by
  cases h with
  | same => exact absurd ht hn
  | fresh hp hr =>
    rw [advance_onto, Option.map_eq_none_iff]
    rw [hp] at hn
    rcases (mem_looked_between t).1 ht with ht | rfl | rfl
    · exact absurd ht hn
    · simp [ReadState.advance, start?, hr]
    · simp [ReadState.advance, start?, closeRule?, hr]

end Resumes

end ReadState

/-! ## The text behind -/

theorem offset_complaintAt (st : ReadState) (last : Option Token) (offset : Nat)
    (cs : List Char) : (complaintAt st last offset cs).offset = offset := by
  unfold complaintAt
  split <;> rfl

/-- The second reading ends as the first does: with the same statements and others before
    them, or with a fault at the same place of its text, which starts later. -/
inductive Follows (older : List Statement) (shift : Nat) :
    Except Complaint ReadState → Except Complaint ReadState → Prop
  | read {st st' : ReadState} (hs : st'.statements = st.statements ++ older)
    (ho : st'.overlong = st.overlong) : Follows older shift (.ok st) (.ok st')
  | refused {c c' : Complaint} (hc : c'.offset = shift + c.offset) :
    Follows older shift (.error c) (.error c')

/-- **Reading goes on as it starts.**  A text is read in the same way, up to the phase,
    after other statements and at the start of a text. -/
theorem follows_readFrom {older : List Statement} (h : ReadState.Resumes older st st')
    (hlast : st.isComplete = false → ∃ a b, last = some a ∧ last' = some b ∧
      b.offset = shift + a.offset) :
    Follows older shift (readFrom st last offset cs) (readFrom st' last' (shift + offset) cs) := by
  fun_induction readFrom st last offset cs generalizing st' last' with
  | case1 st last offset cs he hc =>
    obtain rfl := List.isEmpty_iff.1 he
    rw [readFrom_nil, h.isComplete, if_pos hc]
    cases h with
    | same => exact .read rfl rfl
    | fresh => exact .read rfl rfl
  | case2 st last offset cs he hc =>
    obtain rfl := List.isEmpty_iff.1 he
    rw [readFrom_nil, h.isComplete, if_neg hc]
    obtain ⟨a, b, rfl, rfl, hab⟩ := hlast (by simpa using hc)
    exact .refused hab
  | case3 st last offset cs he hn =>
    have hcs : cs ≠ [] := by simpa using he
    cases hn' : firstLexeme? st'.phase.allowed cs with
    | none =>
      rw [readFrom_of_none hcs hn']
      exact .refused (by rw [offset_complaintAt, offset_complaintAt])
    | some found =>
      -- it is found in the richer phase only, where it is misplaced
      obtain ⟨t, l⟩ := found
      obtain ⟨ht, hl⟩ := Phase.firstLexeme?_eq_some_iff.1 hn'
      have hnew : t ∉ st.phase.looked := by
        intro hold
        rw [Phase.firstLexeme?_eq_some_iff.2 ⟨hold, hl⟩] at hn
        cases hn
      have hs : ¬ t.skipped = true := fun hs => hnew (Phase.mem_looked.2 (.inr hs))
      obtain ⟨-, rest, rfl⟩ := Terminal.isLexeme hl
      rw [readFrom_stuck ht hs hl (h.advance_of_notMem ht hnew)]
      exact .refused (by rw [offset_complaintAt]; rfl)
  | case4 st last offset cs he t l hl hlt hs ih =>
    obtain ⟨-, hl⟩ := Phase.firstLexeme?_eq_some_iff.1 hl
    obtain ⟨-, rest, rfl⟩ := Terminal.isLexeme hl
    rw [List.drop_left] at ih ⊢
    rw [readFrom_skip hs hl, Nat.add_assoc]
    exact ih h hlast
  | case5 st last offset cs he t l hl hlt hs ha =>
    obtain ⟨ht, hl⟩ := Phase.firstLexeme?_eq_some_iff.1 hl
    obtain ⟨-, rest, rfl⟩ := Terminal.isLexeme hl
    rw [readFrom_stuck (h.mem_looked ht) hs hl (by rw [h.advance, ha]; rfl)]
    exact .refused rfl
  | case6 st last offset cs he t l hl hlt hs st'' ha ih =>
    obtain ⟨ht, hl⟩ := Phase.firstLexeme?_eq_some_iff.1 hl
    obtain ⟨-, rest, rfl⟩ := Terminal.isLexeme hl
    rw [List.drop_left] at ih ⊢
    rw [readFrom_take (h.mem_looked ht) hs hl (by rw [h.advance, ha]; rfl), Nat.add_assoc]
    exact ih (.same st'') fun _ => ⟨_, _, rfl, rfl, rfl⟩

/-! ## Places -/

/-- What stands before a line end moves a place down, and leaves its column. -/
theorem Position.after_append (cs ds : List Char) :
    Position.after (cs ++ '\n' :: ds) =
      ⟨(Position.after ds).line + cs.count '\n' + 1, (Position.after ds).column⟩ := by
  have hline : lastLine (cs ++ '\n' :: ds) = lastLine ds := by
    have hscan := scan_append_of_stops (p := (· != '\n')) ds.reverse
      (.cons (c := '\n') rfl cs.reverse)
    simp only [lastLine, List.reverse_append, List.reverse_cons, List.append_assoc,
      List.singleton_append, hscan.1]
  simp only [Position.after, hline, List.count_append, List.count_cons_self]
  congr 1
  omega

/-! ## Sheets -/

theorem readFrom_of_read {source : List Char} {sheet : Sheet}
    (h : Sheet.read source = .ok sheet) :
    ∃ st, readFrom {} none 0 source = .ok st ∧ st.overlong = none ∧
      sheet.statements = st.statements.reverse := by
  unfold Sheet.read at h
  split at h
  · cases h
  · rename_i st hr
    refine ⟨st, hr, ?_⟩
    unfold ReadState.sheet at h
    split at h
    · cases h
    · rename_i ho
      cases h
      exact ⟨ho, rfl⟩

theorem isComplete_of_readFrom (h : readFrom st last offset cs = .ok st') :
    st'.isComplete = true := by
  fun_induction readFrom st last offset cs with
  | case1 st last offset cs he hc => cases h; exact hc
  | case2 => cases h
  | case3 => cases h
  | case4 st last offset cs he t l hl hlt hs ih => exact ih h
  | case5 => cases h
  | case6 st last offset cs he t l hl hlt hs st'' ha ih => exact ih h

/-- A state that is complete and has noted no fault goes on where a new text starts. -/
theorem resumes_start (hc : st.isComplete = true) (ho : st.overlong = none) :
    ReadState.Resumes st.statements {} st := by
  obtain ⟨phase, rules, statements, overlong⟩ := st
  obtain rfl : overlong = none := ho
  cases phase with
  | opening =>
    obtain rfl : rules = [] := List.isEmpty_iff.1 hc
    exact .same {}
  | between =>
    obtain rfl : rules = [] := List.isEmpty_iff.1 hc
    exact .fresh {} rfl rfl
  | _ => cases hc

section

variable {front gap : List Char} (source : List Char)

/-- A text is read behind another one, and behind a gap, as it is read alone. -/
theorem follows_append (hf : readFrom {} none 0 front = .ok st) (ho : st.overlong = none)
    (hg : IsGap gap) :
    Follows st.statements (front.length + 1 + gap.length) (readFrom {} none 0 source)
      (readFrom {} none 0 (front ++ '\n' :: (gap ++ source))) := by
  obtain ⟨last, hr⟩ := readFrom_append hf (gap ++ source)
  rw [hr, readFrom_gap hg, Nat.zero_add]
  refine follows_readFrom (resumes_start (isComplete_of_readFrom hf) ho) ?_
  intro hc
  cases hc

theorem Complaint.position_append {c c' : Complaint} (front : List Char)
    (hc : c'.offset = front.length + 1 + c.offset) :
    c'.position (front ++ '\n' :: source) =
      ⟨(c.position source).line + front.count '\n' + 1, (c.position source).column⟩ := by
  have htake : (front ++ '\n' :: source).take c'.offset =
      front ++ '\n' :: source.take c.offset := by
    rw [hc, Nat.add_assoc, List.take_length_add_append, Nat.add_comm 1, List.take_succ_cons]
  rw [Complaint.position, htake, Position.after_append]
  rfl

/-- **Reading is compositional.**  Behind a text that is a style sheet, a line end and a
    gap, a text is a style sheet exactly if it is one alone, and its statements follow
    the others.  Its faults stay the same and move with it. -/
theorem Sheet.read_append {first : Sheet} (hf : Sheet.read front = .ok first) (hg : IsGap gap) :
    (∀ sheet, Sheet.read (front ++ '\n' :: (gap ++ source)) = .ok sheet ↔
        ∃ second, Sheet.read source = .ok second ∧
          sheet.statements = first.statements ++ second.statements) ∧
      (∀ digits, Sheet.read source = .error (.overlong digits) →
        Sheet.read (front ++ '\n' :: (gap ++ source)) = .error (.overlong digits)) ∧
      ∀ fault, Sheet.read source = .error (.complaint fault) →
        ∃ fault', Sheet.read (front ++ '\n' :: (gap ++ source)) = .error (.complaint fault') ∧
          fault'.offset = front.length + 1 + gap.length + fault.offset ∧
          (gap = [] → fault'.position (front ++ '\n' :: source) =
            ⟨(fault.position source).line + front.count '\n' + 1,
              (fault.position source).column⟩) := by
  obtain ⟨st, hr, ho, hs⟩ := readFrom_of_read hf
  have hfollow := follows_append source hr ho hg
  simp only [Sheet.read]
  generalize readFrom {} none 0 source = alone at hfollow ⊢
  generalize readFrom {} none 0 (front ++ '\n' :: (gap ++ source)) = behind at hfollow ⊢
  cases hfollow with
  | @read st₁ st₂ hst hov =>
    refine ⟨fun sheet => ?_, fun digits h => ?_, fun fault h => ?_⟩
    · simp only [ReadState.sheet, hov]
      cases st₁.overlong with
      | some digits => simp
      | none =>
        simp only [Except.ok.injEq, exists_eq_left', hst, List.reverse_append, ← hs]
        constructor
        · rintro rfl; rfl
        · intro h; exact congrArg Sheet.mk h.symm
    · simp only [ReadState.sheet, hov] at h ⊢
      cases hd : st₁.overlong with
      | some digits' => rw [hd] at h; cases h; rfl
      | none => rw [hd] at h; cases h
    · simp only [ReadState.sheet] at h
      cases hd : st₁.overlong with
      | some digits' => rw [hd] at h; cases h
      | none => rw [hd] at h; cases h
  | @refused c c' hc =>
    refine ⟨fun sheet => by simp, fun digits h => (by cases h), fun fault h => ?_⟩
    cases h
    refine ⟨c', rfl, hc, ?_⟩
    rintro rfl
    exact Complaint.position_append source front hc

end

/-- A rule without a line end, and behind it notes and a variable or half of one. -/
def redSource : List Char := ".x \x7b color: red \x7d".toList

def redSheet : Sheet := ⟨[.rule [".x"] [.declaration ⟨"color", "red"⟩]]⟩

def notesGap : List Char := "\t// b: c; \x7d\n/* * \x7b */\r\x0c ".toList

theorem isGap_notesGap : IsGap notesGap :=
  .space rfl (@IsGap.lineComment " b: c; \x7d".toList _ (by decide) (@IsGap.blockComment " * \x7b ".toList
    _ (by decide) (.space rfl (.space rfl (.space rfl .nil)))))

theorem read_append_redSource :
    (∃ sheet, Sheet.read (redSource ++ '\n' :: (notesGap ++ "$a: 1;".toList)) = .ok sheet ∧
        sheet.statements = redSheet.statements ++ [.assign "a" (.scalar (.int 1))]) ∧
      ∃ fault, Sheet.read (redSource ++ '\n' :: "$a: 1;\n $b".toList) = .error (.complaint fault) ∧
        fault.position (redSource ++ '\n' :: "$a: 1;\n $b".toList) = ⟨3, 2⟩ := by
  have hred : Sheet.read redSource = .ok redSheet := by cbv
  have hsheet : Sheet.read "$a: 1;".toList = .ok ⟨[.assign "a" (.scalar (.int 1))]⟩ := by cbv
  have hfault : Sheet.read "$a: 1;\n $b".toList =
      .error (.complaint (.unfinished (some ⟨.dollarName, ['$', 'b'], 8⟩)
        ⟨.assignName "b", [], [.assign "a" (.scalar (.int 1))], none⟩)) := by cbv
  constructor
  · refine ⟨⟨_⟩, ((Sheet.read_append "$a: 1;".toList hred isGap_notesGap).1 _).2 ⟨_, hsheet, rfl⟩, rfl⟩
  · obtain ⟨fault, hr, -, hp⟩ :=
      (Sheet.read_append "$a: 1;\n $b".toList hred .nil).2.2 _ hfault
    exact ⟨fault, hr, hp rfl⟩

end StyleBudget
