/-
  Extensions one after the other.

  A run of extensions goes on after one that fails and has changed nothing.  The consumers that
  it leads to are those that the extensions which have succeeded name, in order and each once:
  adding selectors to a list that may hold them already comes to the same as putting all of them
  together and dropping the repeats.

  * `Inheritance.after` is one extension, `Inheritance.afterAll` the run, and `Inheritance.made`
    are those of the run that have succeeded;
  * `Inheritance.made_eq_filter`: their flags and the declared placeholders decide which these are;
  * `Inheritance.consumers_after` is the step, `Inheritance.consumers_afterAll` the run;
  * `Inheritance.consumers_eq_dropRepeats` compares the run with the filter of repeats.
-/
import StyleBudget.Inheritance
import StyleBudget.Proofs.Findings

namespace StyleBudget

/-! ## Runs -/

/-- What an extension is given. -/
structure Extension where
  placeholder : String
  flag : String := ""
  selectors : List String

/-- The extension that a call asks for. -/
def Call.extension (c : Call) : Extension := ⟨c.placeholder, c.flag, c.named⟩

/-- The placeholder of the extension is declared or need not be. -/
def Extension.Allowed (e : Extension) (declared : List String) : Prop :=
  (trimText e.flag = "" ∧ e.placeholder ∈ declared) ∨ trimText e.flag = optionalFlag

instance (e : Extension) (declared : List String) : Decidable (e.Allowed declared) :=
  inferInstanceAs (Decidable (_ ∨ _))

/-- The selectors that some extensions of a placeholder name, in order. -/
def selectorsFor (placeholder : String) (es : List Extension) : List String :=
  (es.filter fun e => e.placeholder = placeholder).flatMap Extension.selectors

namespace Inheritance

/-- The extension of a placeholder. -/
def make (inh : Inheritance) (e : Extension) : Except InheritanceFault Inheritance :=
  inh.extend e.placeholder e.selectors e.flag

/-- The inheritance after an extension; one that fails leaves it as it is. -/
def after (inh : Inheritance) (e : Extension) : Inheritance := (inh.make e).toOption.getD inh

/-- The inheritance after extensions, each made whatever came of those before it. -/
def afterAll (inh : Inheritance) (es : List Extension) : Inheritance := es.foldl after inh

/-- The extensions that succeed, in order. -/
def made (inh : Inheritance) : List Extension → List Extension
  | [] => []
  | e :: rest =>
    match inh.make e with
    | .ok inh' => e :: inh'.made rest
    | .error _ => inh.made rest

variable {inh inh' : Inheritance} {e : Extension}

/-! ## One extension -/

theorem after_of_ok (h : inh.make e = .ok inh') : inh.after e = inh' := by
  rw [after, h]
  rfl

theorem after_of_error {f : InheritanceFault} (h : inh.make e = .error f) : inh.after e = inh := by
  rw [after, h]
  rfl

/-- An extension succeeds exactly if it is allowed. -/
theorem make_cases (inh : Inheritance) (e : Extension) :
    (e.Allowed inh.declared ∧ ∃ inh', inh.make e = .ok inh') ∨
      (¬ e.Allowed inh.declared ∧ ∃ f, inh.make e = .error f) := by
  cases h : inh.make e with
  | ok inh' =>
    refine .inl ⟨?_, inh', rfl⟩
    by_cases he : trimText e.flag = ""
    · refine .inl ⟨he, Decidable.byContradiction fun hd => ?_⟩
      cases h.symm.trans (extend_eq_error_iff.2 (.inr ⟨rfl, he, hd⟩))
    · refine .inr (Decidable.byContradiction fun ho => ?_)
      cases h.symm.trans (extend_eq_error_iff.2 (.inl ⟨rfl, he, ho⟩))
  | error f =>
    refine .inr ⟨?_, f, rfl⟩
    rcases extend_eq_error_iff.1 h with ⟨-, he, ho⟩ | ⟨-, he, hd⟩
    · rintro (⟨he', -⟩ | ho')
      · exact he he'
      · exact ho ho'
    · rintro (⟨-, hd'⟩ | ho')
      · exact hd hd'
      · exact absurd (he.symm.trans ho') (by decide)

/-- No extension declares a placeholder, whatever comes of it. -/
@[simp] theorem declared_after (inh : Inheritance) (e : Extension) :
    (inh.after e).declared = inh.declared := by
  cases h : inh.make e with
  | ok inh' => rw [after_of_ok h, declared_extend h]
  | error f => rw [after_of_error h]

/-- **One extension.**  If it is allowed, it adds what it names to the consumers of its
    placeholder. -/
theorem consumers_after {placeholder : String} (hd : placeholder ∈ inh.declared) :
    (inh.after e).consumers placeholder =
      (selectorsFor placeholder (if e.Allowed inh.declared then [e] else [])).foldl addNew
        (inh.consumers placeholder) := by
  rcases make_cases inh e with ⟨ha, inh', h⟩ | ⟨ha, f, h⟩
  · rw [after_of_ok h, consumers_extend h, if_pos ha]
    by_cases hp : e.placeholder = placeholder
    · subst hp
      simp [selectorsFor, hd]
    · simp [selectorsFor, hp, Ne.symm hp]
  · rw [after_of_error h, if_neg ha]
    rfl

/-! ## Extensions one after the other -/

@[simp] theorem afterAll_cons (inh : Inheritance) (e : Extension) (rest : List Extension) :
    inh.afterAll (e :: rest) = (inh.after e).afterAll rest := rfl

theorem afterAll_concat (inh : Inheritance) (es : List Extension) (e : Extension) :
    inh.afterAll (es ++ [e]) = (inh.afterAll es).after e := by
  simp only [afterAll, List.foldl_append, List.foldl_cons, List.foldl_nil]

@[simp] theorem declared_afterAll (inh : Inheritance) (es : List Extension) :
    (inh.afterAll es).declared = inh.declared := by
  induction es generalizing inh with
  | nil => rfl
  | cons e rest ih => rw [afterAll_cons, ih, declared_after]

/-- Whether an extension succeeds does not depend on those before it. -/
theorem made_eq_filter (inh : Inheritance) (es : List Extension) :
    inh.made es = es.filter fun e => e.Allowed inh.declared := by
  induction es generalizing inh with
  | nil => rfl
  | cons e rest ih =>
    rw [made]
    rcases make_cases inh e with ⟨ha, inh', h⟩ | ⟨ha, f, h⟩
    · rw [List.filter_cons_of_pos (by simpa using ha)]
      simp only [h, ih, declared_extend h]
    · rw [List.filter_cons_of_neg (by simpa using ha)]
      simp only [h, ih]

/-- **Extensions one after the other.**  Those that have succeeded add what they name. -/
theorem consumers_afterAll {placeholder : String} (hd : placeholder ∈ inh.declared)
    (es : List Extension) :
    (inh.afterAll es).consumers placeholder =
      (selectorsFor placeholder (inh.made es)).foldl addNew (inh.consumers placeholder) := by
  rw [made_eq_filter]
  induction es generalizing inh with
  | nil => rfl
  | cons e rest ih =>
    have hstep := consumers_after (e := e) hd
    rw [afterAll_cons, ih (by simpa using hd), declared_after, hstep, ← List.foldl_append]
    by_cases ha : e.Allowed inh.declared
    · simp [ha, selectorsFor, List.filter_cons]
      split <;> simp
    · simp [ha, selectorsFor]

theorem mem_selectorsFor {placeholder selector : String} {es : List Extension} :
    selector ∈ selectorsFor placeholder es ↔
      ∃ e ∈ es, e.placeholder = placeholder ∧ selector ∈ e.selectors := by
  simp [selectorsFor, List.mem_flatMap, and_assoc]

/-- The consumers after a run are those before it and those that an allowed extension of it
    names, in whatever order these are made. -/
theorem mem_consumers_afterAll {placeholder consumer : String} {es : List Extension} :
    consumer ∈ (inh.afterAll es).consumers placeholder ↔
      consumer ∈ inh.consumers placeholder ∨ (placeholder ∈ inh.declared ∧
        ∃ e ∈ es, e.Allowed inh.declared ∧ e.placeholder = placeholder ∧
          consumer ∈ e.selectors) := by
  by_cases hd : placeholder ∈ inh.declared
  · rw [consumers_afterAll hd, mem_foldl_addNew, mem_selectorsFor, made_eq_filter]
    simp [hd, and_assoc]
  · have hafter : placeholder ∉ (inh.afterAll es).declared := by simpa using hd
    rw [consumers_of_notMem_declared hafter, consumers_of_notMem_declared hd]
    simp [hd]

/-- An extension that has succeeded once succeeds again, and changes nothing. -/
theorem make_again {es : List Extension} (he : e ∈ inh.made es) :
    (inh.afterAll es).make e = .ok (inh.afterAll es) := by
  rw [made_eq_filter, List.mem_filter, decide_eq_true_eq] at he
  obtain ⟨hm, ha⟩ := he
  rcases make_cases (inh.afterAll es) e with ⟨-, inh', h⟩ | ⟨hn, -⟩
  · have hsame : inh' = inh.afterAll es := by
      refine extend_again h fun s hs hd => mem_consumers_afterAll.2 (.inr ?_)
      exact ⟨declared_afterAll inh es ▸ hd, e, hm, ha, rfl, hs⟩
    rw [h, hsame]
  · rw [declared_afterAll] at hn
    exact absurd ha hn

/-- **Both filters of repeats agree.**  Take any extensions of declared placeholders, made on
    whether or not those before them failed.  The placeholders are those that have been declared.
    The consumers of one of them are what the filter of repeats keeps, in a run that neither
    stops at a repeat nor warns of it, of all the selectors that the extensions of this
    placeholder which have succeeded name; nothing is a consumer of any other.  An extension
    that fails changes nothing, and one that has succeeded may be made again and then changes
    nothing either. -/
theorem consumers_eq_dropRepeats (names : List String) (es : List Extension) :
    ((declare names).afterAll es).declared = distinct names ∧
    (∀ placeholder ∈ names, ∀ options : Options, options.strict = false →
      options.warnDuplicates = false →
      dropRepeats placeholder options (selectorsFor placeholder ((declare names).made es)) =
        .ok (((declare names).afterAll es).consumers placeholder, [])) ∧
    (∀ placeholder, placeholder ∉ names →
      ((declare names).afterAll es).consumers placeholder = []) ∧
    (∀ e f, ((declare names).afterAll es).make e = .error f →
      (declare names).afterAll (es ++ [e]) = (declare names).afterAll es) ∧
    ∀ e ∈ (declare names).made es,
      ((declare names).afterAll es).make e = .ok ((declare names).afterAll es) := by
  have hmem : ∀ placeholder, placeholder ∈ (declare names).declared ↔ placeholder ∈ names := by
    intro placeholder
    rw [declared_declare_eq, mem_distinct]
  refine ⟨?_, fun placeholder hp options hs hw => ?_, fun placeholder hp => ?_, fun e f hf => ?_,
    fun e he => make_again he⟩
  · rw [declared_afterAll, declared_declare_eq]
  · rw [dropRepeats_of_lax hs, hw, consumers_afterAll ((hmem placeholder).2 hp), consumers_declare]
    rfl
  · refine consumers_of_notMem_declared fun hd => hp ?_
    rwa [declared_afterAll, hmem] at hd
  · rw [afterAll_concat, after_of_error hf]

end Inheritance

/-- Extensions of which one repeats a selector, one fails, one is of a placeholder that is not
    declared and need not be, and the last has been made before. -/
def mixedExtensions : List Extension :=
  [⟨"a", "", [".x", ".y", ".x"]⟩, ⟨"b", "!default", [".x"]⟩, ⟨"c", " !optional ", [".z"]⟩,
    ⟨"a", "!optional", [".z", ".y"]⟩, ⟨"a", "", [".x", ".y", ".x"]⟩]

theorem consumers_mixedExtensions :
    "a" ∈ ["a", "b", "a"] ∧ "c" ∉ ["a", "b", "a"] ∧
      selectorsFor "a" ((Inheritance.declare ["a", "b", "a"]).made mixedExtensions) =
        [".x", ".y", ".x", ".z", ".y", ".x", ".y", ".x"] ∧
      dropRepeats "a" { warnDuplicates := false }
          [".x", ".y", ".x", ".z", ".y", ".x", ".y", ".x"] = .ok ([".x", ".y", ".z"], []) ∧
      ((Inheritance.declare ["a", "b", "a"]).afterAll mixedExtensions).consumers "a" =
        [".x", ".y", ".z"] ∧
      ((Inheritance.declare ["a", "b", "a"]).afterAll mixedExtensions).consumers "c" = [] := by
  have ha : "a" ∈ ["a", "b", "a"] := by simp
  have hc : "c" ∉ ["a", "b", "a"] := by decide
  have hmade : selectorsFor "a" ((Inheritance.declare ["a", "b", "a"]).made mixedExtensions) =
      [".x", ".y", ".x", ".z", ".y", ".x", ".y", ".x"] := by
    rw [Inheritance.made_eq_filter]
    decide +kernel
  have hkept : dropRepeats "a" { warnDuplicates := false }
      [".x", ".y", ".x", ".z", ".y", ".x", ".y", ".x"] = .ok ([".x", ".y", ".z"], []) := by
    cbv
  obtain ⟨-, hdeclared, hother, -⟩ :=
    Inheritance.consumers_eq_dropRepeats ["a", "b", "a"] mixedExtensions
  have hboth := hdeclared "a" ha { warnDuplicates := false } rfl rfl
  rw [hmade, hkept] at hboth
  refine ⟨ha, hc, hmade, hkept, ?_, hother "c" hc⟩
  simpa using hboth.symm

end StyleBudget
