/-
  Expansion: placeholders in selectors give way to their consumers.

  A selector without a placeholder stands for itself.  In any other the first
  placeholder is replaced by each of its consumers in turn, and what comes out
  is expanded again, without that placeholder: one that extends itself would
  never end, and expands to nothing.

  * `expandWith` expands selectors with the placeholders that may still be
    replaced;
  * `Inheritance.expand` starts with all declared ones.
-/
import StyleBudget.Inheritance
import StyleBudget.Selector

namespace StyleBudget

/-- The selectors without placeholders that the given ones stand for, each once,
    when only the placeholders in `free` may be replaced. -/
def expandWith (inh : Inheritance) (free : List String) (selectors : List String) :
    List String :=
  distinct <| selectors.flatMap fun s =>
    match firstPlaceholder? s.toList with
    | none => [s]
    | some o =>
      if h : String.ofList o.name ∈ free then
        have : (free.erase (String.ofList o.name)).length < free.length := by
          have := List.length_pos_of_mem h
          rw [List.length_erase_of_mem h]
          omega
        expandWith inh (free.erase (String.ofList o.name))
          ((inh.consumers (String.ofList o.name)).map o.replaceWith)
      else []
termination_by free.length

/-- The selectors without placeholders that the given ones stand for. -/
def Inheritance.expand (inh : Inheritance) (selectors : List String) : List String :=
  expandWith inh inh.declared selectors

end StyleBudget
