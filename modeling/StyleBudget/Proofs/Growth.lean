/-
  More consumers, no fewer selectors.

  Expansion gives a branch up when it comes back to a placeholder, so a new consumer can close a
  new circle.  It does so on branches of its own only: every branch that was there before can
  still be followed to its end, with the same names on its way.

  * `Rewriting.mono`: a branch stays one when placeholders gain consumers;
  * `Inheritance.expand_subset`: expansion is monotone, in the consumers and in the selectors;
  * `Inheritance.consumers_foldl_subset` and `Inheritance.expand_foldl_subset`: the directives of
    a sheet are a run of extensions, and more of them take nothing away;
  * `expand_monotone` is the result about states, about further directives and about their order.
-/
import Mathlib
import StyleBudget.Proofs.Expansion
import StyleBudget.Proofs.Phases

namespace StyleBudget

/-! ## Branches -/

section

variable {inh inh' : Inheritance} {selectors selectors' : List String}

/-- The names on a branch are the same in both states, so that none of them is repeated in one
    of the two only. -/
theorem Rewriting.mono (hc : ∀ placeholder, inh.consumers placeholder ⊆ inh'.consumers placeholder)
    {names : List String} {s t : String} (h : Rewriting inh names s t) :
    Rewriting inh' names s t := by
  induction h with
  | stop s => exact .stop s
  | step hs hm _ ih => exact .step hs (hc _ hm) ih

/-- **Expansion is monotone.** -/
theorem Inheritance.expand_subset
    (hc : ∀ placeholder, inh.consumers placeholder ⊆ inh'.consumers placeholder)
    (hs : selectors ⊆ selectors') : inh.expand selectors ⊆ inh'.expand selectors' := by
  intro t ht
  obtain ⟨hn, s, hm, names, hnd, hr⟩ := mem_expand_iff.1 ht
  exact mem_expand_iff.2 ⟨hn, s, hs hm, names, hnd, hr.mono hc⟩

/-- A block that is written goes on to be written. -/
theorem Block.isSome_rule?_of_subset {b : Block}
    (h : inh.expand b.selectors ⊆ inh'.expand b.selectors) (hr : (b.rule? inh).isSome) :
    (b.rule? inh').isSome := by
  rw [Block.rule?] at hr ⊢
  simp only [Bool.or_eq_true, List.isEmpty_iff] at hr ⊢
  split at hr
  · cases hr
  · rename_i hne
    rw [not_or] at hne
    obtain ⟨t, ht⟩ := List.exists_mem_of_ne_nil _ hne.1
    rw [if_neg (not_or.2 ⟨List.ne_nil_of_mem (h ht), hne.2⟩)]
    rfl

end

/-! ## Directives -/

namespace Inheritance

variable {ds ds' : List Directive}

/-- What some directives make consumers, any directives that include them do as well. -/
theorem consumers_foldl_subset (inh : Inheritance) (h : ds ⊆ ds') (placeholder : String) :
    (ds.foldl follow inh).consumers placeholder ⊆ (ds'.foldl follow inh).consumers placeholder := by
  intro consumer hc
  rw [foldl_follow, mem_consumers_afterAll] at hc ⊢
  rcases hc with hold | ⟨hd, e, he, hrest⟩
  · exact .inl hold
  · exact .inr ⟨hd, e, List.map_subset _ h he, hrest⟩

/-- Further directives take no selector from a block, and no block from what is written. -/
theorem expand_foldl_subset (inh : Inheritance) (h : ds ⊆ ds') (b : Block) :
    (ds.foldl follow inh).expand b.selectors ⊆ (ds'.foldl follow inh).expand b.selectors ∧
      ((b.rule? (ds.foldl follow inh)).isSome → (b.rule? (ds'.foldl follow inh)).isSome) := by
  have hsub : (ds.foldl follow inh).expand b.selectors ⊆
      (ds'.foldl follow inh).expand b.selectors :=
    expand_subset (consumers_foldl_subset inh h) (List.Subset.refl _)
  exact ⟨hsub, Block.isSome_rule?_of_subset hsub⟩

end Inheritance

/-- **Expansion is monotone.**  If each placeholder has at least the consumers that it has in
    another state, and if there are at least the same selectors, then at least the same
    selectors come out, whatever circles the new consumers close.  So further directives,
    wherever they stand among the others, take no selector from a block and no block from what
    is written; and the order of the directives decides neither which selectors a block has nor
    whether it is written. -/
theorem expand_monotone :
    (∀ (inh inh' : Inheritance) (selectors selectors' : List String),
      (∀ placeholder, inh.consumers placeholder ⊆ inh'.consumers placeholder) →
      selectors ⊆ selectors' → inh.expand selectors ⊆ inh'.expand selectors') ∧
    (∀ (inh : Inheritance) (ds ds' : List Directive), ds ⊆ ds' → ∀ b : Block,
      (ds.foldl Inheritance.follow inh).expand b.selectors ⊆
          (ds'.foldl Inheritance.follow inh).expand b.selectors ∧
        ((b.rule? (ds.foldl Inheritance.follow inh)).isSome →
          (b.rule? (ds'.foldl Inheritance.follow inh)).isSome)) ∧
    ∀ (inh : Inheritance) (ds ds' : List Directive), ds.Perm ds' → ∀ b : Block,
      (∀ t, t ∈ (ds.foldl Inheritance.follow inh).expand b.selectors ↔
          t ∈ (ds'.foldl Inheritance.follow inh).expand b.selectors) ∧
        ((b.rule? (ds.foldl Inheritance.follow inh)).isSome ↔
          (b.rule? (ds'.foldl Inheritance.follow inh)).isSome) := by
  refine ⟨fun inh inh' selectors selectors' hc hs => Inheritance.expand_subset hc hs,
    fun inh ds ds' h b => Inheritance.expand_foldl_subset inh h b, fun inh ds ds' h b => ?_⟩
  obtain ⟨hsub, hrule⟩ := Inheritance.expand_foldl_subset inh h.subset b
  obtain ⟨hsub', hrule'⟩ := Inheritance.expand_foldl_subset inh h.symm.subset b
  exact ⟨fun t => ⟨fun ht => hsub ht, fun ht => hsub' ht⟩, hrule, hrule'⟩

/-- A placeholder that is extended by a selector, and by another placeholder that it extends
    in turn. -/
def circleDirectives : List Directive :=
  [.plain "a" "" [".x"], .plain "a" "" ["%b .z"], .plain "b" "" ["%a", ".y"]]

/-- What directives lead to if there are two placeholders. -/
def circleAfter (ds : List Directive) : Inheritance :=
  ds.foldl Inheritance.follow (.declare ["a", "b"])

/-- The last of them closes a circle; without it, and in any order, there is no less. -/
theorem expand_circleDirectives :
    (∀ placeholder, (circleAfter (circleDirectives.take 1)).consumers placeholder ⊆
      (circleAfter circleDirectives).consumers placeholder) ∧
    ["%a"] ⊆ [".q", "%a"] ∧ circleDirectives.Perm circleDirectives.reverse ∧
    (circleAfter (circleDirectives.take 1)).expand ["%a"] = [".x"] ∧
    ".x" ∈ (circleAfter circleDirectives).expand [".q", "%a"] ∧
    ".y .z" ∈ (circleAfter circleDirectives.reverse).expand ["%a"] := by
  have hc : ∀ placeholder, (circleAfter (circleDirectives.take 1)).consumers placeholder ⊆
      (circleAfter circleDirectives).consumers placeholder :=
    Inheritance.consumers_foldl_subset _ (List.take_subset 1 circleDirectives)
  have hs : ["%a"] ⊆ [".q", "%a"] := by simp
  have hperm : circleDirectives.Perm circleDirectives.reverse := (List.reverse_perm _).symm
  have hfirst : (circleAfter (circleDirectives.take 1)).expand ["%a"] = [".x"] := by cbv
  have hall : (circleAfter circleDirectives).expand ["%a"] = [".x", ".y .z"] := by cbv
  obtain ⟨hgrows, -, horder⟩ := expand_monotone
  have hx : ".x" ∈ (circleAfter (circleDirectives.take 1)).expand ["%a"] := by simp [hfirst]
  have hyz : ".y .z" ∈ (circleAfter circleDirectives).expand ["%a"] := by simp [hall]
  have hreversed := (horder (.declare ["a", "b"]) _ _ hperm ⟨["%a"], []⟩).1 ".y .z"
  exact ⟨hc, hs, hperm, hfirst, hgrows _ _ _ _ hc hs hx, hreversed.1 hyz⟩

end StyleBudget
