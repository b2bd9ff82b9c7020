/-
  Rules in rules, to any depth.

  A rule that stands in others has a selector for every way to choose one from each of the lists
  around it and from its own: the choice nests from the outermost selector inwards.  The
  outermost list counts most for the order.

  * `choices` are the ways to choose an item from every list, `positions` the same by numbers;
    `mem_positions` and `pairwise_positions` say that these are all, in lexicographic order;
  * `foldl_nestSelectors`: nesting goes through the choices, from any outer selectors;
  * `nestSelector_pieces` and `count_nestChoice`: the outer selector stands between the pieces of
    the inner one as it is, and no ampersand in it is replaced again;
  * `Nested` are the rules in a block that stand one in the other, and `Nested.place` is where
    the last of them stands;
  * `Sheet.nested_eq_nestings` is the result about sheets.
-/
import Mathlib
import StyleBudget.Proofs.Nesting

namespace StyleBudget

/-! ## Choices -/

/-- All ways to choose an item from every list; of two the one with the earlier item in the
    first list where they differ comes first. -/
def choices {α : Type} : List (List α) → List (List α)
  | [] => [[]]
  | items :: rest => items.flatMap fun a => (choices rest).map (a :: ·)

/-- The ways to choose from every list, as the numbers of the chosen items. -/
def positions {α : Type} (lists : List (List α)) : List (List ℕ) :=
  choices (lists.map fun items => List.range items.length)

/-- The items with the given numbers, one of each list. -/
def itemsAt (lists : List (List String)) (numbers : List ℕ) : List String :=
  List.zipWith (fun items i => items.getD i "") lists numbers

section

variable {α : Type}

theorem mem_choices {choice : List α} {lists : List (List α)} :
    choice ∈ choices lists ↔ List.Forall₂ (· ∈ ·) choice lists := by
  induction lists generalizing choice with
  | nil => simp [choices]
  | cons items rest ih =>
    simp only [choices, List.mem_flatMap, List.mem_map]
    constructor
    · rintro ⟨a, ha, tail, ht, rfl⟩
      exact .cons ha (ih.1 ht)
    · intro h
      cases h with
      | @cons a _ tail _ ha ht => exact ⟨a, ha, tail, ih.2 ht, rfl⟩

theorem length_choices (lists : List (List α)) :
    (choices lists).length = (lists.map List.length).prod := by
  induction lists with
  | nil => rfl
  | cons items rest ih => simp [choices, List.length_flatMap, ih]

/-- From increasing lists the choices come in lexicographic order, and none comes twice. -/
theorem pairwise_choices {lists : List (List ℕ)} (h : ∀ items ∈ lists, items.Pairwise (· < ·)) :
    (choices lists).Pairwise (List.Lex (· < ·)) := by
  induction lists with
  | nil => simp [choices]
  | cons items rest ih =>
    obtain ⟨hitems, hrest⟩ := List.forall_mem_cons.1 h
    rw [choices, List.pairwise_flatMap]
    constructor
    · intro a _
      exact List.pairwise_map.2 ((ih hrest).imp .cons)
    · refine hitems.imp fun {a b} hab => ?_
      intro x hx y hy
      obtain ⟨_, _, rfl⟩ := List.mem_map.1 hx
      obtain ⟨_, _, rfl⟩ := List.mem_map.1 hy
      exact .rel hab

/-- Every number that there is in each list is chosen. -/
theorem mem_positions {lists : List (List α)} {numbers : List ℕ} :
    numbers ∈ positions lists ↔ List.Forall₂ (fun i items => i < items.length) numbers lists := by
  rw [positions, mem_choices, List.forall₂_map_right_iff]
  simp only [List.mem_range]

theorem pairwise_positions (lists : List (List α)) :
    (positions lists).Pairwise (List.Lex (· < ·)) := by
  refine pairwise_choices fun items hm => ?_
  obtain ⟨_, _, rfl⟩ := List.mem_map.1 hm
  exact List.pairwise_lt_range

end

theorem choices_eq_map_positions (lists : List (List String)) :
    choices lists = (positions lists).map (itemsAt lists) := by
  induction lists with
  | nil => rfl
  | cons items rest ih =>
    have hitems : items = (List.range items.length).map fun i => items.getD i "" := by
      refine List.ext_getElem (by simp) fun i hi _ => ?_
      simp [List.getElem?_eq_getElem hi]
    have hpositions : positions (items :: rest) =
        (List.range items.length).flatMap fun i => (positions rest).map (i :: ·) := rfl
    conv_lhs => rw [choices, hitems, List.flatMap_map]
    rw [hpositions, List.map_flatMap, ih]
    simp only [List.map_map]
    rfl

/-! ## Nesting through choices -/

/-- The selector that a choice nests to, from the outermost one inwards. -/
def nestChoice : List String → String
  | [] => ""
  | outermost :: inner => inner.foldl nestSelector outermost

/-- What the lists of rules that stand one in the other nest to: a selector for every choice. -/
def nestings (chain : List (List String)) : List String :=
  (positions chain).map fun numbers => nestChoice (itemsAt chain numbers)

theorem nestSelectors_of_ne_nil {parents : List String} (h : parents ≠ [])
    (children : List String) :
    nestSelectors parents children =
      parents.flatMap fun parent => children.map (nestSelector parent) :=
  if_neg (mt List.isEmpty_iff.1 h)

/-- **Nesting goes through the choices**, for each of the outer selectors in turn. -/
theorem foldl_nestSelectors {chain : List (List String)} (hne : ∀ own ∈ chain, own ≠ [])
    {parents : List String} (hp : parents ≠ []) :
    chain.foldl nestSelectors parents =
      parents.flatMap fun parent => (choices chain).map (List.foldl nestSelector parent) := by
  induction chain generalizing parents with
  | nil => simp [choices]
  | cons own rest ih =>
    obtain ⟨hown, hrest⟩ := List.forall_mem_cons.1 hne
    have hnested : nestSelectors parents own ≠ [] := mt nestSelectors_eq_nil_iff.1 hown
    rw [List.foldl_cons, ih hrest hnested, nestSelectors_of_ne_nil hp, List.flatMap_assoc]
    refine List.flatMap_congr fun parent _ => ?_
    rw [choices, List.flatMap_map, List.map_flatMap]
    simp only [List.map_map]
    rfl

/-- The selectors of the innermost of some rules are one for each choice. -/
theorem foldl_nestSelectors_eq_nestings {chain : List (List String)} (hc : chain ≠ [])
    (hne : ∀ own ∈ chain, own ≠ []) : chain.foldl nestSelectors [] = nestings chain := by
  have hmap : nestings chain = (choices chain).map nestChoice := by
    rw [nestings, choices_eq_map_positions, List.map_map]
    rfl
  obtain ⟨outermost, inner, rfl⟩ := List.exists_cons_of_ne_nil hc
  obtain ⟨hown, hrest⟩ := List.forall_mem_cons.1 hne
  rw [hmap, List.foldl_cons, nestSelectors_nil_left, foldl_nestSelectors hrest hown, choices,
    List.map_flatMap]
  simp only [List.map_map]
  rfl

theorem length_nestings (chain : List (List String)) :
    (nestings chain).length = (chain.map List.length).prod := by
  simp [nestings, positions, length_choices, Function.comp_def]

/-! ## Ampersands -/

theorem intercalate_modifyHead_cons {α : Type} (sep : List α) (a : α) {pieces : List (List α)}
    (h : pieces ≠ []) :
    sep.intercalate (pieces.modifyHead (a :: ·)) = a :: sep.intercalate pieces := by
  match pieces with
  | [piece] => simp
  | piece :: next :: rest => simp

/-- An ampersand splits a selector in two, and the parent is put between the pieces. -/
theorem replaceAmpersands_eq_intercalate (parent child : List Char) :
    replaceAmpersands parent child = parent.intercalate (child.splitOn '&') := by
  induction child with
  | nil => simp [replaceAmpersands, List.splitOn]
  | cons c rest ih =>
    have hne : rest.splitOn '&' ≠ [] := List.splitOnP_ne_nil _ rest
    have hsplit : (c :: rest).splitOn '&' =
        if (c == '&') = true then [] :: rest.splitOn '&'
        else (rest.splitOn '&').modifyHead (c :: ·) :=
      List.splitOnP_cons_eq_if_modifyHead c rest
    rw [replaceAmpersands] at ih ⊢
    rw [List.flatMap_cons, ih, hsplit]
    split
    · obtain ⟨piece, pieces, hs⟩ := List.exists_cons_of_ne_nil hne
      simp [hs]
    · exact (intercalate_modifyHead_cons parent c hne).symm

/-- The parent stands as it is between the pieces of the child, or in front of it. -/
theorem nestSelector_pieces (parent child : String) :
    (nestSelector parent child).toList =
      if '&' ∈ child.toList then parent.toList.intercalate (child.toList.splitOn '&')
      else parent.toList ++ ' ' :: child.toList := by
  rw [nestSelector]
  by_cases h : '&' ∈ child.toList
  · rw [if_pos (List.contains_iff_mem.2 h), if_pos h, String.toList_ofList,
      replaceAmpersands_eq_intercalate]
  · rw [if_neg (mt List.contains_iff_mem.1 h), if_neg h]
    simp

theorem count_replaceAmpersands (parent child : List Char) :
    (replaceAmpersands parent child).count '&' = parent.count '&' * child.count '&' := by
  induction child with
  | nil => rfl
  | cons c rest ih =>
    rw [replaceAmpersands] at ih ⊢
    rw [List.flatMap_cons, List.count_append, ih]
    by_cases hc : c = '&'
    · simp [hc]
      ring
    · simp [hc]

/-- The ampersands of the parent stay, once for each time that the parent is put. -/
theorem count_nestSelector (parent child : String) :
    (nestSelector parent child).toList.count '&' =
      parent.toList.count '&' * max 1 (child.toList.count '&') := by
  rw [nestSelector]
  by_cases h : '&' ∈ child.toList
  · have hpos := List.count_pos_iff.2 h
    rw [if_pos (List.contains_iff_mem.2 h), String.toList_ofList, count_replaceAmpersands,
      Nat.max_eq_right hpos]
  · rw [if_neg (mt List.contains_iff_mem.1 h)]
    simp [List.count_eq_zero_of_not_mem h]

theorem count_nestChoice (outermost : String) (inner : List String) :
    (nestChoice (outermost :: inner)).toList.count '&' =
      outermost.toList.count '&' * (inner.map fun s => max 1 (s.toList.count '&')).prod := by
  rw [nestChoice]
  induction inner generalizing outermost with
  | nil => simp
  | cons s rest ih =>
    rw [List.foldl_cons, ih, count_nestSelector, List.map_cons, List.prod_cons, Nat.mul_assoc]

/-! ## Rules in a sheet -/

/-- Rules that stand one in the other, the first of them in a block: their lists of selectors,
    and the block of the last. -/
inductive Nested : List Statement → List (List String) → List Statement → Prop
  | rule {block children : List Statement} {own : List String} :
      .rule own children ∈ block → Nested block [own] children
  | inside {block children last : List Statement} {own : List String}
      {chain : List (List String)} :
      .rule own children ∈ block → Nested children chain last → Nested block (own :: chain) last

namespace Nested

variable {block last : List Statement} {chain : List (List String)}

theorem ne_nil (h : Nested block chain last) : chain ≠ [] := by
  cases h with
  | rule _ => exact List.cons_ne_nil _ _
  | inside _ _ => exact List.cons_ne_nil _ _

/-- The places in the block of a rule are places in the block around it. -/
theorem places_subset {children : List Statement} {own : List String}
    (h : .rule own children ∈ block) (parents : List String) :
    placesAll (nestSelectors parents own) children ⊆ placesAll parents block := by
  intro place hm
  refine mem_placesAll.2 ⟨_, h, ?_⟩
  rw [Statement.places]
  exact List.mem_cons_of_mem _ hm

/-- The last of the rules stands under the selectors that the others nest to. -/
theorem place (h : Nested block chain last) (parents : List String) :
    ∃ outer own, ⟨outer, .rule own last⟩ ∈ placesAll parents block ∧
      nestSelectors outer own = chain.foldl nestSelectors parents := by
  induction h generalizing parents with
  | @rule block children own hm =>
    exact ⟨parents, own, mem_placesAll_of_mem rfl hm, rfl⟩
  | @inside block children last own chain hm _ ih =>
    obtain ⟨outer, inner, hplace, hnest⟩ := ih (nestSelectors parents own)
    exact ⟨outer, inner, places_subset hm parents hplace, hnest⟩

end Nested

/-- **Rules in rules, to any depth.**  Let rules of a sheet stand one in the other, each with at
    least one selector of its own.  The block of the last, and all that stands in it, has the
    selectors that the rules nest to: one for every way to choose a selector of each rule,
    in the lexicographic order of the choices in which the outermost counts most, and so as
    many as the product of the numbers of selectors.  Two selectors nest by putting the outer
    one between the pieces of the inner one where there is an ampersand, and in front of it
    with a space where there is none; so the ampersands of a nested selector are those of the
    outermost one, which are never replaced, once for each time that it is put. -/
theorem Sheet.nested_eq_nestings {sheet : Sheet} {chain : List (List String)}
    {last : List Statement} (h : Nested sheet.statements chain last)
    (hne : ∀ own ∈ chain, own ≠ []) :
    chain.foldl nestSelectors [] = nestings chain ∧
    (∃ place ∈ sheet.places, place.block? = some ⟨nestings chain, declarationsOf last⟩) ∧
    (∀ s ∈ last, ⟨nestings chain, s⟩ ∈ sheet.places) ∧
    (∀ numbers, numbers ∈ positions chain ↔
      List.Forall₂ (fun i own => i < own.length) numbers chain) ∧
    (positions chain).Pairwise (List.Lex (· < ·)) ∧
    (nestings chain).length = (chain.map List.length).prod ∧
    (∀ parent child, (nestSelector parent child).toList =
      if '&' ∈ child.toList then parent.toList.intercalate (child.toList.splitOn '&')
      else parent.toList ++ ' ' :: child.toList) ∧
    ∀ outermost inner, (nestChoice (outermost :: inner)).toList.count '&' =
      outermost.toList.count '&' * (inner.map fun s => max 1 (s.toList.count '&')).prod := by
  have hchain := foldl_nestSelectors_eq_nestings h.ne_nil hne
  obtain ⟨outer, own, hplace, hnest⟩ := h.place []
  rw [hchain] at hnest
  refine ⟨hchain, ⟨_, hplace, ?_⟩, fun s hs => ?_, fun numbers => mem_positions,
    pairwise_positions chain, length_nestings chain, nestSelector_pieces, count_nestChoice⟩
  · rw [← hnest]
    rfl
  · exact Sheet.mem_places_iff.2 (.inr ⟨_, hplace, own, last, rfl, hs, hnest.symm⟩)

/-- Rules of which the outermost has an ampersand of its own, and one in it puts its parent
    twice. -/
def deepSheet : Sheet where
  statements :=
    [.rule ["&.x", ".y"] [.rule ["& + &", "> .z"] [.rule [".u", "&.v"] [.extend "a" ""]]]]

def deepChain : List (List String) := [["&.x", ".y"], ["& + &", "> .z"], [".u", "&.v"]]

theorem nested_deepSheet :
    Nested deepSheet.statements deepChain [.extend "a" ""] ∧ (∀ own ∈ deepChain, own ≠ []) ∧
      nestings deepChain =
        ["&.x + &.x .u", "&.x + &.x.v", "&.x > .z .u", "&.x > .z.v", ".y + .y .u", ".y + .y.v",
          ".y > .z .u", ".y > .z.v"] ∧
      ⟨nestings deepChain, .extend "a" ""⟩ ∈ deepSheet.places := by
  have h : Nested deepSheet.statements deepChain [.extend "a" ""] :=
    .inside (List.mem_singleton_self _) (.inside (List.mem_singleton_self _)
      (.rule (List.mem_singleton_self _)))
  have hne : ∀ own ∈ deepChain, own ≠ [] := by simp [deepChain]
  obtain ⟨hnest, -, hinside, -⟩ := Sheet.nested_eq_nestings h hne
  refine ⟨h, hne, ?_, hinside _ (List.mem_singleton_self _)⟩
  rw [← hnest]
  cbv

end StyleBudget
