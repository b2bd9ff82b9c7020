/-
  Walks over a text that has been written, piece by piece.

  * `Leads` is a walk of the reader from one place of a text to another: white space is left
    out, terminals change the state; `Leads.readFrom` says that reading goes this way;
  * `leads_scalar` and `leads_value` are the walks over what a variable holds, with
    `leads_entries` for a map;
  * `leads_call` is the walk over the arguments of a call, `leads_flag` the one over the flag
    of an extension.
-/
import StyleBudget.Proofs.Writing

namespace StyleBudget

/-! ## Walks -/

/-- Reading goes from one place of a text to another, where it is in the second state. -/
inductive Leads (st'' : ReadState) (ds : List Char) : ReadState → List Char → Prop
  | here : Leads st'' ds st'' ds
  | space {st : ReadState} {c : Char} {cs : List Char} (hc : isSpace c = true)
    (h : Leads st'' ds st cs) : Leads st'' ds st (c :: cs)
  | take {st st' : ReadState} {t : Terminal} {l rest : List Char} (ht : t ∈ st.phase.allowed)
    (hl : t.lexeme? (l ++ rest) = some l) (ha : st.advance t l = some st')
    (h : Leads st'' ds st' rest) : Leads st'' ds st (l ++ rest)

theorem Phase.not_skipped (p : Phase) {t : Terminal} (ht : t ∈ p.allowed) :
    ¬ t.skipped = true := by
  have h : p.allowed.all (fun t => !t.skipped) = true := by cases p <;> rfl
  simpa using List.all_eq_true.1 h t ht

namespace Leads

variable {st st' st'' : ReadState} {cs ds es : List Char}

theorem trans (h : Leads st' ds st cs) (h' : Leads st'' es st' ds) : Leads st'' es st cs := by
  induction h with
  | here => exact h'
  | space hc _ ih => exact .space hc ih
  | take ht hl ha _ ih => exact .take ht hl ha ih

theorem readFrom (h : Leads st' ds st cs) (last : Option Token) (offset : Nat) :
    ∃ last' offset', readFrom st last offset cs = readFrom st' last' offset' ds := by
  induction h generalizing last offset with
  | here => exact ⟨last, offset, rfl⟩
  | space hc _ ih =>
    obtain ⟨last', offset', ih⟩ := ih last (offset + 1)
    exact ⟨last', offset', (readFrom_space hc _).trans ih⟩
  | @take st _ t l rest ht hl ha _ ih =>
    obtain ⟨last', offset', ih⟩ := ih (some ⟨t, l, offset⟩) (offset + l.length)
    have hs := st.phase.not_skipped ht
    exact ⟨last', offset', (readFrom_take (Phase.mem_looked.2 (.inl ht)) hs hl ha).trans ih⟩

/-- A mark of one character. -/
theorem mark {t : Terminal} {c : Char} (ht : t ∈ st.phase.allowed)
    (hl : t.lexeme? = wordLexeme? [c]) (ha : st.advance t [c] = some st')
    (h : Leads st'' ds st' cs) : Leads st'' ds st (c :: cs) := by
  refine take (l := [c]) ht ?_ ha h
  rw [hl]
  exact wordLexeme?_self [c] cs

end Leads

/-! ## Values -/

section

variable {st : ReadState} {name : String} {rest : List Char}

/-- What a scalar can be written with in front of: a mark that ends it. -/
def endsScalar (c : Char) : Bool := c == ';' || c == ',' || c == ')'

theorem lexeme?_source {s : Scalar} (hs : s.canonical = true) {c : Char} (hc : endsScalar c = true)
    (cs : List Char) : ∃ t ∈ [Terminal.number, .string, .name],
      t.lexeme? (s.source.toList ++ c :: cs) = some s.source.toList ∧
        ∀ st : ReadState, st.scalar? t s.source.toList = some (s, st) := by
  have hname : isNameChar c = false := by
    simp only [endsScalar, Bool.or_eq_true, beq_iff_eq] at hc
    rcases hc with (rfl | rfl) | rfl <;> rfl
  have hword : ∀ word : String, isNameText word.toList = true → wordScalar word.toList = s →
      s.source = word → ∃ t ∈ [Terminal.number, .string, .name],
        t.lexeme? (s.source.toList ++ c :: cs) = some s.source.toList ∧
          ∀ st : ReadState, st.scalar? t s.source.toList = some (s, st) := by
    rintro word hw hv he
    refine ⟨.name, by simp, ?_, fun st => ?_⟩
    · rw [he]
      exact nameLexeme?_of_isNameText hw (.cons hname cs)
    · rw [he, ReadState.scalar?, hv]
  cases s with
  | null => exact hword "null" (by decide) (by decide) rfl
  | bool b =>
    cases b with
    | true => exact hword "true" (by decide) (by decide) rfl
    | false => exact hword "false" (by decide) (by decide) rfl
  | int n =>
    have hd : isDecimalDigit c = false ∧ c ≠ '.' := by
      simp only [endsScalar, Bool.or_eq_true, beq_iff_eq] at hc
      rcases hc with (rfl | rfl) | rfl <;> decide
    refine ⟨.number, by simp, ?_, fun st => ?_⟩
    · exact numberLexeme?_intText n (.cons hd.1 cs) (by simpa using hd.2)
    · obtain ⟨phase, rules, statements, overlong⟩ := st
      simp only [Scalar.source, ReadState.scalar?, numberScalar_intText, overlongDigits?_intText hs]
      cases overlong <;> rfl
  | float x => cases hs
  | text s =>
    refine ⟨.string, by simp, stringLexeme?_stringSource hs _, fun st => ?_⟩
    rw [Scalar.source, ReadState.scalar?, stringScalar, unquoted_stringSource]

/-- A scalar where one is awaited. -/
theorem leads_scalar {st st' : ReadState} {ds : List Char} {s : Scalar} {f : Scalar → Phase}
    (hs : s.canonical = true) {c : Char} {cs : List Char} (hc : endsScalar c = true)
    (ht : ∀ t ∈ [Terminal.number, .string, .name], t ∈ st.phase.allowed)
    (ha : ∀ t ∈ [Terminal.number, .string, .name], ∀ l,
      st.advance t l = (st.scalar? t l).map fun (value, st) => st.enter (f value))
    (h : Leads st' ds (st.enter (f s)) (c :: cs)) :
    Leads st' ds st (s.source.toList ++ c :: cs) := by
  obtain ⟨t, hmem, hl, hv⟩ := lexeme?_source hs hc cs
  refine .take (ht t hmem) hl ?_ h
  rw [ha t hmem, hv st]
  rfl

theorem insertPair_of_notMem {key : Scalar} {entries : List (Scalar × Value)}
    (h : key ∉ entries.map Prod.fst) (v : Value) :
    insertPair key v entries = entries ++ [(key, v)] := by
  induction entries with
  | nil => rfl
  | cons p rest ih =>
    obtain ⟨key', v'⟩ := p
    simp only [List.map_cons, List.mem_cons, not_or] at h
    rw [insertPair, if_neg (Ne.symm h.1), ih h.2]
    rfl

theorem leads_entry {st' : ReadState} {ds : List Char} {e : Scalar × Value}
    {before : List (Scalar × Value)} (hs : entryCanonical e = true)
    (hn : e.1 ∉ before.map Prod.fst) {c : Char} (hc : endsScalar c = true) {cs : List Char}
    (h : Leads st' ds (st.enter (.mapEntry name (before ++ [e]))) (c :: cs)) :
    Leads st' ds (st.enter (.mapOpen name before)) ((entrySource e).toList ++ c :: cs) := by
  unfold entryCanonical at hs
  split at hs
  · rename_i key s
    simp only [Bool.and_eq_true] at hs
    have hsplit : (entrySource (.text key, .scalar s)).toList ++ c :: cs =
        key.toList ++ ':' :: (' ' :: (s.source.toList ++ c :: cs)) := by
      simp [entrySource, Scalar.keyText]
    have hkey : (st.enter (.mapOpen name before)).advance .name key.toList =
        some (st.enter (.mapKey name before key)) := by
      simp only [ReadState.advance, ReadState.enter, String.ofList_toList]
    rw [hsplit]
    refine .take (t := .name) (by simp [ReadState.enter, Phase.allowed])
      (nameLexeme?_of_isNameText hs.1 (.cons rfl _)) hkey ?_
    refine .mark (t := .colon) (by simp [ReadState.enter, Phase.allowed]) rfl rfl ?_
    refine .space rfl (leads_scalar (f := fun value =>
      .mapEntry name (insertPair (.text key) (.scalar value) before)) hs.2 hc ?_ ?_ ?_)
    · simp [ReadState.enter, Phase.allowed]
    · intro t _ l
      cases t <;> rfl
    · rw [insertPair_of_notMem hn]
      exact h
  · cases hs

/-- The entries of a map, with or without a comma at the end. -/
def entriesSource (full : Bool) (entries : List (Scalar × Value)) : List Char :=
  [',', ' '].intercalate (entries.map fun e => (entrySource e).toList)
    ++ (if full && !entries.isEmpty then [','] else [])

theorem leads_entries {full : Bool} {entries before : List (Scalar × Value)}
    (hs : ∀ e ∈ entries, entryCanonical e = true)
    (hn : ((before ++ entries).map Prod.fst).Nodup) :
    Leads (st.enter (.mapClosed name (before ++ entries))) rest (st.enter (.mapOpen name before))
      (entriesSource full entries ++ ')' :: rest) := by
  -- the entries read so far stand before the others
  induction entries generalizing before with
  | nil =>
    rw [List.append_nil]
    simp only [entriesSource, List.map_nil, List.isEmpty_nil, Bool.not_true, Bool.and_false,
      Bool.false_eq_true, if_false, List.append_nil]
    exact .mark (t := .closeParen) (by simp [ReadState.enter, Phase.allowed]) rfl rfl .here
  | cons e more ih =>
    have he := hs e (List.mem_cons_self ..)
    have hnew : e.1 ∉ before.map Prod.fst := by
      rw [List.map_append, List.map_cons] at hn
      intro hm
      exact (List.nodup_append.1 hn).2.2 _ hm _ (List.mem_cons_self ..) rfl
    have hassoc : before ++ e :: more = (before ++ [e]) ++ more := by simp
    rw [hassoc] at hn ⊢
    have ih := ih (fun e' hm => hs e' (List.mem_cons_of_mem e hm)) hn
    have hclose : Leads (st.enter (.mapClosed name (before ++ [e]))) rest
        (st.enter (.mapEntry name (before ++ [e]))) (')' :: rest) :=
      .mark (t := .closeParen) (by simp [ReadState.enter, Phase.allowed]) rfl rfl .here
    cases more with
    | nil =>
      cases full with
      | false =>
        have hsplit : entriesSource false [e] ++ ')' :: rest =
            (entrySource e).toList ++ ')' :: rest := by simp [entriesSource]
        rw [hsplit, List.append_nil]
        exact leads_entry he hnew rfl hclose
      | true =>
        have hsplit : entriesSource true [e] ++ ')' :: rest =
            (entrySource e).toList ++ ',' :: (entriesSource true [] ++ ')' :: rest) := by
          simp [entriesSource]
        rw [hsplit]
        exact leads_entry he hnew rfl (.mark (t := .comma)
          (by simp [ReadState.enter, Phase.allowed]) rfl rfl ih)
    | cons e' more =>
      have hsplit : entriesSource full (e :: e' :: more) ++ ')' :: rest =
          (entrySource e).toList ++ ',' :: (' ' :: (entriesSource full (e' :: more) ++ ')' :: rest)) := by
        simp [entriesSource, List.intercalate_cons_cons]
      rw [hsplit]
      exact leads_entry he hnew rfl (.mark (t := .comma)
        (by simp [ReadState.enter, Phase.allowed]) rfl rfl (.space rfl ih))

theorem leads_value {full : Bool} {value : Value} (hv : value.canonical = true) :
    Leads (st.finish .opening (.assign name value)) rest (st.enter (.assignColon name))
      ((value.source full).toList ++ ';' :: rest) := by
  cases value with
  | scalar s =>
    refine leads_scalar (f := .assignScalar name) hv rfl ?_ ?_ ?_
    · simp [ReadState.enter, Phase.allowed]
    · intro t ht l
      simp only [List.mem_cons, List.not_mem_nil, or_false] at ht
      rcases ht with rfl | rfl | rfl <;> rfl
    · exact .mark (t := .semicolon) (by simp [ReadState.enter, Phase.allowed]) rfl rfl .here
  | list items => cases hv
  | map entries =>
    simp only [Value.canonical, Bool.and_eq_true, decide_eq_true_eq, List.all_eq_true] at hv
    have hsplit : (Value.source full (.map entries)).toList ++ ';' :: rest =
        '(' :: (entriesSource full entries ++ ')' :: ';' :: rest) := by
      simp only [Value.source, entriesSource, String.toList_append, String.toList_intercalate,
        List.map_map]
      split <;> simp [Function.comp_def]
    have hclosed : Leads (st.finish .opening (.assign name (.map entries))) rest
        (st.enter (.mapClosed name entries)) (';' :: rest) :=
      .mark (t := .semicolon) (by simp [ReadState.enter, Phase.allowed]) rfl rfl .here
    rw [hsplit]
    exact .mark (t := .openParen) (by simp [ReadState.enter, Phase.allowed]) rfl rfl
      ((leads_entries hv.2 (by simpa using hv.1)).trans hclosed)

/-! ## Calls -/

/-- The arguments of a call behind those that have been read. -/
theorem leads_arguments {args before : List String} (hne : args ≠ [])
    (hs : ∀ a ∈ args, isQuotable a = true) {phase : Phase} (ht : .string ∈ phase.allowed)
    (ha : ∀ l, (st.enter phase).advance .string l =
      some (st.enter (.argument name (before ++ [unquoted l])))) :
    Leads (st.enter (.argumentsClosed name (before ++ args))) rest (st.enter phase)
      ([',', ' '].intercalate (args.map fun a => (stringSource a).toList) ++ ')' :: rest) := by
  induction args generalizing before phase with
  | nil => exact absurd rfl hne
  | cons a more ih =>
    have hlex := stringLexeme?_stringSource (hs a (List.mem_cons_self ..))
    have hread := ha (stringSource a).toList
    rw [unquoted_stringSource] at hread
    cases more with
    | nil =>
      rw [List.map_cons, List.map_nil, List.intercalate_singleton]
      exact .take ht (hlex _) hread (.mark (t := .closeParen)
        (by simp [ReadState.enter, Phase.allowed]) rfl rfl .here)
    | cons a' more =>
      have hread' : ∀ l, (st.enter (.argumentsComma name (before ++ [a]))).advance .string l =
          some (st.enter (.argument name (before ++ [a] ++ [unquoted l]))) := fun l => rfl
      have ih := ih (by simp) (fun b hm => hs b (List.mem_cons_of_mem a hm))
        (by simp [Phase.allowed]) hread'
      have hsplit : [',', ' '].intercalate ((a :: a' :: more).map fun a => (stringSource a).toList)
            ++ ')' :: rest =
          (stringSource a).toList ++ ',' :: (' ' ::
            ([',', ' '].intercalate ((a' :: more).map fun a => (stringSource a).toList)
              ++ ')' :: rest)) := by
        simp [List.intercalate_cons_cons]
      have hassoc : before ++ a :: a' :: more = (before ++ [a]) ++ a' :: more := by simp
      rw [hsplit, hassoc]
      exact .take ht (hlex _) hread (.mark (t := .comma)
        (by simp [ReadState.enter, Phase.allowed]) rfl rfl (.space rfl ih))

theorem leads_call (full : Bool) {args : List String} (hs : ∀ a ∈ args, isQuotable a = true) :
    Leads (st.finish .between (.mixin name args)) rest (st.enter (.mixinName name))
      ((argumentsSource full args).toList ++ ';' :: rest) := by
  cases args with
  | nil =>
    cases full with
    | false =>
      exact .mark (t := .semicolon) (by simp [ReadState.enter, Phase.allowed]) rfl rfl .here
    | true =>
      refine .mark (t := .openParen) (by simp [ReadState.enter, Phase.allowed]) rfl rfl ?_
      refine .mark (t := .closeParen) (by simp [ReadState.enter, Phase.allowed]) rfl rfl ?_
      exact .mark (t := .semicolon) (by simp [ReadState.enter, Phase.allowed]) rfl rfl .here
  | cons a more =>
    have hsplit : (argumentsSource full (a :: more)).toList ++ ';' :: rest =
        '(' :: ([',', ' '].intercalate ((a :: more).map fun a => (stringSource a).toList)
          ++ ')' :: ';' :: rest) := by
      simp [argumentsSource, String.toList_intercalate, Function.comp_def]
    have hclosed : Leads (st.finish .between (.mixin name (a :: more))) rest
        (st.enter (.argumentsClosed name (a :: more))) (';' :: rest) :=
      .mark (t := .semicolon) (by simp [ReadState.enter, Phase.allowed]) rfl rfl .here
    have hread : ∀ l, (st.enter (.argumentsOpen name)).advance .string l =
        some (st.enter (.argument name ([] ++ [unquoted l]))) := fun l => rfl
    rw [hsplit]
    exact .mark (t := .openParen) (by simp [ReadState.enter, Phase.allowed]) rfl rfl
      ((leads_arguments (by simp) hs (by simp [Phase.allowed]) hread).trans hclosed)

/-! ## Flags -/

theorem leads_flag {placeholder flag : String} (hf : flag = "" ∨ isFlagText flag.toList = true) :
    Leads (st.finish .between (.extend placeholder flag)) rest
      (st.enter (.extendTarget placeholder)) ((flagSource flag).toList ++ ';' :: rest) := by
  rcases hf with rfl | hf
  · exact .mark (t := .semicolon) (by simp [ReadState.enter, Phase.allowed]) rfl rfl .here
  · have hne : flag.isEmpty = false := by
      rw [String.isEmpty_eq_false_iff]
      rintro rfl
      cases hf
    have hread : (st.enter (.extendTarget placeholder)).advance .flag flag.toList =
        some (st.enter (.extendFlag placeholder flag)) := by
      simp only [ReadState.advance, ReadState.enter, String.ofList_toList]
    have hclose : Leads (st.finish .between (.extend placeholder flag)) rest
        (st.enter (.extendFlag placeholder flag)) (';' :: rest) :=
      .mark (t := .semicolon) (by simp [ReadState.enter, Phase.allowed]) rfl rfl .here
    rw [flagSource, hne, if_neg (by simp), String.toList_append]
    exact .space rfl (.take (t := .flag) (by simp [ReadState.enter, Phase.allowed])
      (flagLexeme?_of_isFlagText hf (.cons rfl _)) hread hclose)

end

end StyleBudget
