/-
  Inheritance: which selectors have extended which placeholder.

  * `Inheritance` holds the consumers of every declared placeholder, in the
    order in which they extended it and without repeats;
  * `Inheritance.declare` starts with placeholders that nothing has extended;
  * `Inheritance.extend` makes selectors consumers of a placeholder;
    `extend_eq_error_iff` says when it fails, and `consumers_extend` which
    consumers there are afterwards.
-/
import StyleBudget.Table
import StyleBudget.Distinct
import StyleBudget.Text.Blank

namespace StyleBudget

/-! ## Consumers -/

/-- The consumers of each declared placeholder. -/
structure Inheritance where
  buckets : Table String (List String) := .empty

/-- Why a placeholder cannot be extended. -/
inductive InheritanceFault where
  | unknownFlag (flag : String)
  | undeclared (placeholder : String)
  deriving DecidableEq, Repr

/-- The flag of an extension whose placeholder need not be declared. -/
def optionalFlag : String := "!optional"

def InheritanceFault.message : InheritanceFault → String
  | unknownFlag flag =>
    "Unknown extend flag '" ++ flag ++ "'. Only " ++ optionalFlag ++ " is supported."
  | undeclared placeholder =>
    "The target selector was not found: %" ++ placeholder ++ ". Use \"@extend %" ++ placeholder
      ++ " !optional\" to avoid this error."

namespace Inheritance

/-- The declared placeholders, none of them with a consumer. -/
def declare (placeholders : List String) : Inheritance :=
  ⟨.ofList (placeholders.map fun p => (p, []))⟩

def declared (inh : Inheritance) : List String := inh.buckets.keys

/-- The declared placeholders, each at the place of its first declaration. -/
theorem declared_declare_eq (placeholders : List String) :
    (declare placeholders).declared = distinct placeholders := by
  rw [declared, declare, Table.keys_ofList, List.map_map]
  exact congrArg distinct (List.map_id placeholders)

theorem declared_declare {placeholders : List String} (h : placeholders.Nodup) :
    (declare placeholders).declared = placeholders := by
  rw [declared_declare_eq, distinct_of_nodup h]

/-- The consumers of a placeholder; none if it is not declared. -/
def consumers (inh : Inheritance) (placeholder : String) : List String :=
  (inh.buckets.get? placeholder).getD []

theorem consumers_declare (placeholders : List String) (placeholder : String) :
    (declare placeholders).consumers placeholder = [] := by
  unfold consumers
  cases h : (declare placeholders).buckets.get? placeholder with
  | none => rfl
  | some bucket =>
    obtain ⟨p, -, hp⟩ := List.mem_map.1 (Table.mem_of_get?_ofList h)
    exact (Prod.mk.inj hp).2.symm

theorem mem_declared_of_mem_consumers {inh : Inheritance} {placeholder consumer : String}
    (h : consumer ∈ inh.consumers placeholder) : placeholder ∈ inh.declared := by
  refine Table.mem_keys_iff.2 ?_
  unfold consumers at h
  cases hb : inh.buckets.get? placeholder with
  | none => rw [hb] at h; cases h
  | some bucket => rfl

theorem consumers_of_notMem_declared {inh : Inheritance} {placeholder : String}
    (h : placeholder ∉ inh.declared) : inh.consumers placeholder = [] :=
  List.eq_nil_iff_forall_not_mem.2 fun _ hc => h (mem_declared_of_mem_consumers hc)

/-- The selectors become consumers of the placeholder. -/
def extend (inh : Inheritance) (placeholder : String) (selectors : List String) (flag : String) :
    Except InheritanceFault Inheritance :=
  let flag := trimText flag
  if flag ≠ "" ∧ flag ≠ optionalFlag then .error (.unknownFlag flag)
  else
    match inh.buckets.get? placeholder with
    | some bucket => .ok ⟨inh.buckets.insert placeholder (selectors.foldl addNew bucket)⟩
    | none => if flag = optionalFlag then .ok inh else .error (.undeclared placeholder)

section

variable {inh inh' : Inheritance} {placeholder flag : String} {selectors : List String}

/-- An extension stores the consumers of its placeholder, or nothing if the
    placeholder is not declared and need not be. -/
theorem extend_cases (h : inh.extend placeholder selectors flag = .ok inh') :
    (∃ bucket, inh.buckets.get? placeholder = some bucket ∧
      inh' = ⟨inh.buckets.insert placeholder (selectors.foldl addNew bucket)⟩) ∨
    (inh.buckets.get? placeholder = none ∧ inh' = inh) := by
  simp only [extend] at h
  split at h
  · cases h
  · split at h
    · rename_i bucket hb
      cases h
      exact .inl ⟨bucket, hb, rfl⟩
    · rename_i hn
      split at h
      · cases h
        exact .inr ⟨hn, rfl⟩
      · cases h

/-- An extension declares no placeholder. -/
theorem declared_extend (h : inh.extend placeholder selectors flag = .ok inh') :
    inh'.declared = inh.declared := by
  rcases extend_cases h with ⟨bucket, hb, rfl⟩ | ⟨-, rfl⟩
  · have hk : placeholder ∈ inh.buckets.keys := Table.mem_keys_iff.2 (by rw [hb]; rfl)
    exact (Table.keys_insert ..).trans (if_pos hk)
  · rfl

/-- An extension puts its selectors behind the consumers of its placeholder, each once, if
    that is declared, and changes no others. -/
theorem consumers_extend (h : inh.extend placeholder selectors flag = .ok inh') (other : String) :
    inh'.consumers other =
      if other = placeholder ∧ placeholder ∈ inh.declared then
        selectors.foldl addNew (inh.consumers other)
      else inh.consumers other := by
  have hk : placeholder ∈ inh.declared ↔ (inh.buckets.get? placeholder).isSome := Table.mem_keys_iff
  rcases extend_cases h with ⟨bucket, hb, rfl⟩ | ⟨hn, rfl⟩
  · rw [hb] at hk
    by_cases ho : other = placeholder
    · subst ho
      simp [consumers, Table.get?_insert, hb, hk]
    · simp [consumers, Table.get?_insert, ho]
  · rw [hn] at hk
    simp [hk]

/-- An extension adds its selectors to the consumers of its placeholder, if that is
    declared, and changes no others. -/
theorem mem_consumers_extend (h : inh.extend placeholder selectors flag = .ok inh')
    {other consumer : String} :
    consumer ∈ inh'.consumers other ↔ consumer ∈ inh.consumers other ∨
      (other = placeholder ∧ placeholder ∈ inh.declared ∧ consumer ∈ selectors) := by
  rw [consumers_extend h]
  split
  · rename_i ho
    rw [mem_foldl_addNew]
    simp [ho]
  · rename_i ho
    constructor
    · exact .inl
    · rintro (hm | ⟨hp, hd, -⟩)
      · exact hm
      · exact absurd ⟨hp, hd⟩ ho

/-- An extension fails on a flag that is not known, and on a placeholder that is not declared
    but has to be. -/
theorem extend_eq_error_iff {f : InheritanceFault} :
    inh.extend placeholder selectors flag = .error f ↔
      (f = .unknownFlag (trimText flag) ∧ trimText flag ≠ "" ∧ trimText flag ≠ optionalFlag) ∨
      (f = .undeclared placeholder ∧ trimText flag = "" ∧ placeholder ∉ inh.declared) := by
  have hk : placeholder ∈ inh.declared ↔ (inh.buckets.get? placeholder).isSome := Table.mem_keys_iff
  have hempty : "" ≠ optionalFlag := by decide
  rw [hk, extend]
  by_cases he : trimText flag = ""
  · cases inh.buckets.get? placeholder with
    | none => simp [he, hempty, @eq_comm _ _ f]
    | some bucket => simp [he]
  · by_cases ho : trimText flag = optionalFlag
    · cases inh.buckets.get? placeholder <;> simp [ho, hempty.symm]
    · simp [he, ho, @eq_comm _ _ f]

/-- An extension by selectors that are consumers already changes nothing. -/
theorem extend_again (h : inh.extend placeholder selectors flag = .ok inh')
    (hs : ∀ s ∈ selectors, placeholder ∈ inh.declared → s ∈ inh.consumers placeholder) :
    inh' = inh := by
  rcases extend_cases h with ⟨bucket, hb, rfl⟩ | ⟨-, rfl⟩
  · have hk : placeholder ∈ inh.declared := Table.mem_keys_iff.2 (by rw [hb]; rfl)
    have hc : inh.consumers placeholder = bucket := by rw [consumers, hb]; rfl
    rw [foldl_addNew_of_subset fun s hm => hc ▸ hs s hm hk, Table.insert_of_get? hb]
  · rfl

end

end Inheritance

end StyleBudget
