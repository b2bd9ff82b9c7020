/-
  Selectors: their normal form, nesting, and the placeholders in them.

  * `normalizeSelector` writes every run of white space as one space;
  * `nestSelectors` combines the selectors of a rule with those of the rule
    around it;
  * `firstPlaceholder?` finds the first placeholder of a selector, a percent
    sign and the longest name after it, and `placeholdersOf` all of them;
  * `Occurrence.replaceWith` puts a consumer in the place of a placeholder.
-/
import StyleBudget.Text.Blank
import StyleBudget.Syntax.Lexeme

namespace StyleBudget

/-! ## Normal form -/

/-- A selector with single spaces between its words. -/
def normalizeSelector (s : String) : String := String.ofList (squeeze s.toList)

def joinSelectors (selectors : List String) : String := ", ".intercalate selectors

/-! ## Nesting -/

def replaceAmpersands (parent : List Char) (child : List Char) : List Char :=
  child.flatMap fun c => if c == '&' then parent else [c]

/-- A selector in the place of a parent: the parent stands for its ampersands,
    and without any the selector stands for a descendant of the parent. -/
def nestSelector (parent child : String) : String :=
  if child.toList.contains '&' then
    String.ofList (replaceAmpersands parent.toList child.toList)
  else parent ++ " " ++ child

/-- The selectors of a rule under each selector of the rule around it; outside
    all rules they stay as they are. -/
def nestSelectors (parents children : List String) : List String :=
  if parents.isEmpty then children
  else parents.flatMap fun parent => children.map (nestSelector parent)

theorem nestSelector_ne_empty {parent child : String} (hp : parent ≠ "") (hc : child ≠ "") :
    nestSelector parent child ≠ "" := by
  rw [nestSelector]
  split
  · rename_i ha
    have hm : '&' ∈ child.toList := by simpa using ha
    intro he
    have hn : replaceAmpersands parent.toList child.toList = [] := by
      rw [← String.toList_ofList (l := replaceAmpersands _ _), he]; rfl
    have hp' : parent.toList = [] := List.flatMap_eq_nil_iff.1 hn '&' hm
    exact hp (String.toList_eq_nil_iff.1 hp')
  · intro he
    have hl := congrArg String.toList he
    rw [String.toList_append, String.toList_append] at hl
    exact hc (String.toList_eq_nil_iff.1 (List.append_eq_nil_iff.1 hl).2)

/-- Nesting leaves no selector empty. -/
theorem ne_empty_of_mem_nestSelectors {parents children : List String} (hp : "" ∉ parents)
    (hc : "" ∉ children) : "" ∉ nestSelectors parents children := by
  rw [nestSelectors]
  split
  · exact hc
  · intro h
    obtain ⟨parent, hm, h⟩ := List.mem_flatMap.1 h
    obtain ⟨child, hm', he⟩ := List.mem_map.1 h
    exact nestSelector_ne_empty (fun h => hp (h ▸ hm)) (fun h => hc (h ▸ hm')) he

/-! ## Placeholders -/

/-- A placeholder in a text: the text before its percent sign, its name, and
    the text after it. -/
structure Occurrence where
  before : List Char
  name : List Char
  after : List Char

def firstPlaceholder? : List Char → Option Occurrence
  | [] => none
  | c :: rest =>
    if c == '%' && (rest.head?.map isNameStart).getD false then
      some ⟨[], rest.takeWhile isNameChar, rest.dropWhile isNameChar⟩
    else (firstPlaceholder? rest).map fun o => { o with before := c :: o.before }

/-- A placeholder is a piece of the text it is found in. -/
theorem eq_of_firstPlaceholder? {cs : List Char} {o : Occurrence}
    (h : firstPlaceholder? cs = some o) : cs = o.before ++ '%' :: (o.name ++ o.after) := by
  induction cs generalizing o with
  | nil => cases h
  | cons c rest ih =>
    rw [firstPlaceholder?] at h
    split at h
    · rename_i hc
      cases h
      simp only [Bool.and_eq_true, beq_iff_eq] at hc
      simp [hc.1]
    · obtain ⟨o', ho', rfl⟩ := Option.map_eq_some_iff.1 h
      simp only [List.cons_append]
      rw [← ih ho']

/-- What follows a placeholder is shorter than the text. -/
theorem after_length_lt {cs : List Char} {o : Occurrence} (h : firstPlaceholder? cs = some o) :
    o.after.length < cs.length := by
  rw [eq_of_firstPlaceholder? h]
  simp only [List.length_append, List.length_cons]
  omega

/-- The names of all placeholders in a text, from left to right. -/
def placeholdersOf (cs : List Char) : List String :=
  match h : firstPlaceholder? cs with
  | none => []
  | some o =>
    have := after_length_lt h
    String.ofList o.name :: placeholdersOf o.after
termination_by cs.length

/-- The text with a consumer in the place of the placeholder. -/
def Occurrence.replaceWith (o : Occurrence) (consumer : String) : String :=
  String.ofList (o.before ++ consumer.toList ++ o.after)

end StyleBudget
