/-
  How deep expansion goes.

  A call of expansion makes a further call for each selector whose first placeholder it
  replaces.  The texts may grow with every replacement, and a consumer may bring any number of
  new placeholders, but no call replaces a placeholder that is being replaced further up: each
  call below the outermost one uses up a declared placeholder, or finds that its placeholder is
  not declared and has no consumers.

  * `Inheritance.expandWithin` is expansion with a limit on the calls that may stand one in the
    other, and no result if the limit is too low;
  * `expandWithin_eq_leaves`: two more calls than there are declared placeholders left are enough;
  * `expandWithin_eq_expand` is the result about the outermost call, and `expandWithin_chain`
    says that no lower limit is enough, however many placeholders are declared.
-/
import Mathlib
import StyleBudget.Proofs.Expansion
import StyleBudget.Proofs.Placeholders

namespace StyleBudget

/-! ## Expansion with a limit -/

/-- The selectors that come out of one selector, where `deeper` answers the calls that are made
    for it.  The placeholders in `active` are being replaced further up. -/
def Inheritance.candidates (inh : Inheritance)
    (deeper : List String → List String → Option (List String)) (active : List String)
    (s : String) : Option (List String) :=
  match firstPlaceholder? s.toList with
  | none => some [s]
  | some o =>
    if String.ofList o.name ∈ active then some []
    else
      deeper (String.ofList o.name :: active)
        ((inh.consumers (String.ofList o.name)).map o.replaceWith)

/-- Expansion with at most `calls` calls one in the other, this one among them; nothing if a
    call is made beyond the limit. -/
def Inheritance.expandWithin (inh : Inheritance) :
    (calls : ℕ) → (active selectors : List String) → Option (List String)
  | 0, _, _ => none
  | calls + 1, active, selectors =>
    (selectors.mapM (inh.candidates (inh.expandWithin calls) active)).map
      fun parts => distinct parts.flatten

section

variable {inh : Inheritance} {calls : ℕ} {active selectors : List String} {s : String}

/-- A call for no selectors needs no further call. -/
theorem expandWithin_nil (inh : Inheritance) (calls : ℕ) (active : List String) :
    inh.expandWithin (calls + 1) active [] = some [] := rfl

/-- Calls that give something for each selector give it for all of them. -/
theorem expandWithin_succ {f : String → List String}
    (h : ∀ s, inh.candidates (inh.expandWithin calls) active s = some (distinct (f s))) :
    inh.expandWithin (calls + 1) active selectors = some (distinct (selectors.flatMap f)) := by
  have hall : inh.candidates (inh.expandWithin calls) active = fun s => pure (distinct (f s)) :=
    funext h
  rw [Inheritance.expandWithin, hall, List.mapM_pure, ← distinct_flatMap_distinct]
  rfl

/-- **Two calls more than there are placeholders left are enough.** -/
theorem expandWithin_eq_leaves (h : (inh.declared.filter fun p => p ∉ active).length + 2 ≤ calls) :
    inh.expandWithin calls active selectors =
      some (distinct (selectors.flatMap (inh.leaves active))) := by
  induction calls generalizing active selectors with
  | zero => omega
  | succ calls ih =>
    refine expandWithin_succ fun s => ?_
    cases hs : firstPlaceholder? s.toList with
    | none => rw [Inheritance.candidates, hs, leaves_of_none hs]; rfl
    | some o =>
      rw [Inheritance.candidates, hs]
      dsimp only
      by_cases hactive : String.ofList o.name ∈ active
      · rw [if_pos hactive, leaves_of_replaced hs hactive]; rfl
      · rw [if_neg hactive, leaves_of_some hs hactive]
        by_cases hd : String.ofList o.name ∈ inh.declared
        · -- one placeholder fewer is left for the call
          have hlt := length_filter_notMem_lt hd hactive
          rw [ih (by omega), List.flatMap_map]
        · -- the call gets no selectors, but it is made
          obtain ⟨k, rfl⟩ : ∃ k, calls = k + 1 := ⟨calls - 1, by omega⟩
          rw [Inheritance.consumers_of_notMem_declared hd]
          exact expandWithin_nil inh k _

end

/-- **Expansion ends**, whatever extends what: with two calls more than there are declared
    placeholders, one in the other, every list of selectors is expanded. -/
theorem expandWithin_eq_expand (inh : Inheritance) (selectors : List String) :
    inh.expandWithin (inh.declared.length + 2) [] selectors = some (inh.expand selectors) := by
  have hall : (inh.declared.filter fun p => p ∉ ([] : List String)) = inh.declared := by simp
  rw [expandWithin_eq_leaves (by rw [hall]), expand_eq]

/-! ## Chains -/

/-- The names of the placeholders in a chain. -/
def link (i : ℕ) : String := String.ofList (List.replicate (i + 1) 'a')

/-- The names of the first `n` placeholders in a chain. -/
def links (n : ℕ) : List String := (List.range n).map link

/-- Placeholders each of which is extended by the next one, with a longer name; the one behind
    the last is not declared. -/
def chain (n : ℕ) : Inheritance :=
  ⟨.ofList ((links n).map fun name => (name, ["%" ++ name ++ "a"]))⟩

theorem link_inj {i j : ℕ} (h : link i = link j) : i = j := by
  have hlen := congrArg String.length h
  simpa [link] using hlen

theorem link_mem_links {i n : ℕ} : link i ∈ links n ↔ i < n := by
  rw [links, List.mem_map]
  constructor
  · rintro ⟨j, hj, he⟩
    exact link_inj he ▸ List.mem_range.1 hj
  · exact fun h => ⟨i, List.mem_range.2 h, rfl⟩

theorem declared_chain (n : ℕ) : (chain n).declared = links n := by
  have hnodup : (links n).Nodup := List.nodup_range.map fun _ _ => link_inj
  rw [Inheritance.declared, chain, Table.keys_ofList, List.map_map]
  exact (congrArg distinct (List.map_id _)).trans (distinct_of_nodup hnodup)

theorem link_succ (i : ℕ) : "%" ++ link i ++ "a" = "%" ++ link (i + 1) := by
  apply String.toList_inj.1
  simp [link, List.replicate_succ' (n := i + 1)]

theorem consumers_chain {i n : ℕ} (h : i < n) :
    (chain n).consumers (link i) = ["%" ++ link (i + 1)] := by
  have hmem : (link i, ["%" ++ link i ++ "a"]) ∈ (chain n).buckets.entries := by
    rw [chain, Table.entries_ofList_map, List.mem_map]
    exact ⟨link i, mem_distinct.2 (link_mem_links.2 h), rfl⟩
  rw [Inheritance.consumers, Table.mem_entries_iff.1 hmem, Option.getD_some, link_succ]

theorem firstPlaceholder?_link (i : ℕ) :
    firstPlaceholder? ("%" ++ link i).toList = some ⟨[], (link i).toList, []⟩ := by
  have htext : ("%" ++ link i).toList = '%' :: (link i).toList := by
    rw [String.toList_append]; rfl
  have hname : ∀ c ∈ (link i).toList, isNameChar c = true := by
    intro c hc
    rw [link, String.toList_ofList] at hc
    rw [List.eq_of_mem_replicate hc]
    decide
  have hopens : Opens '%' (link i).toList := by
    rw [link, String.toList_ofList]
    exact ⟨rfl, rfl⟩
  rw [htext, firstPlaceholder?_of_opens hopens, List.takeWhile_eq_self_iff.2 hname,
    List.dropWhile_eq_nil_iff.2 hname]

/-- From a placeholder of the chain there is a call for each of those behind it, and one more. -/
theorem expandWithin_link {n i calls : ℕ} {active : List String} (hi : i ≤ n)
    (hc : calls ≤ n - i + 1) (ha : ∀ j, i ≤ j → link j ∉ active) :
    (chain n).expandWithin calls active ["%" ++ link i] = none := by
  induction calls generalizing i active with
  | zero => rfl
  | succ calls ih =>
    have hdeeper : (chain n).candidates ((chain n).expandWithin calls) active ("%" ++ link i) =
        (chain n).expandWithin calls (link i :: active)
          (((chain n).consumers (link i)).map
            (Occurrence.replaceWith ⟨[], (link i).toList, []⟩)) := by
      rw [Inheritance.candidates, firstPlaceholder?_link]
      dsimp only
      rw [String.ofList_toList, if_neg (ha i le_rfl)]
    have hnone : (chain n).candidates ((chain n).expandWithin calls) active ("%" ++ link i) =
        none := by
      rw [hdeeper]
      rcases Nat.lt_or_ge i n with hlt | hge
      · have hnext : Occurrence.replaceWith ⟨[], (link i).toList, []⟩ ("%" ++ link (i + 1)) =
            "%" ++ link (i + 1) := by
          simp [Occurrence.replaceWith]
        rw [consumers_chain hlt, List.map_singleton, hnext]
        refine ih hlt (by omega) fun j hj => ?_
        rw [List.mem_cons, not_or]
        exact ⟨fun he => by have := link_inj he; omega, ha j (by omega)⟩
      · -- behind the last one, and no call is left
        obtain rfl : calls = 0 := by omega
        rfl
    rw [Inheritance.expandWithin, List.mapM_cons, hnone]
    rfl

/-- **No lower limit is enough**: for every number of placeholders there is a state in which
    the calls stand one in the other as deep as they may. -/
theorem expandWithin_chain (n : ℕ) :
    (chain n).declared.length = n ∧
      (chain n).expandWithin (n + 1) [] ["%" ++ link 0] = none := by
  constructor
  · rw [declared_chain, links, List.length_map, List.length_range]
  · exact expandWithin_link (Nat.zero_le n) (by omega) (fun _ _ => List.not_mem_nil)

end StyleBudget
