/-
  The meaning of expansion, as a rewriting of selectors.

  A selector with a placeholder is rewritten by putting one of the consumers in
  the place of its first placeholder.  A branch of such steps ends at a selector
  without placeholders, its leaf, and is given up when it would rewrite a
  placeholder for the second time.

  * `Rewriting inh names s t`: a branch leads from `s` to `t`, and rewrites the
    placeholders `names` on its way;
  * `Inheritance.leaves` are the leaves below a selector, depth first;
  * `mem_leaves_iff`: a leaf is what a branch without a repeated name reaches;
  * `expandWith_eq`: expansion gives the leaves, each at its first occurrence,
    although it drops repeats at every level;
  * `expand_eq_distinct_leaves` puts these together.
-/
import StyleBudget.Expansion

namespace StyleBudget

/-! ## Branches -/

/-- A branch of rewriting steps, with the names of the placeholders that it
    rewrites. -/
inductive Rewriting (inh : Inheritance) : List String → String → String → Prop
  | stop (s : String) : Rewriting inh [] s s
  | step {s t consumer : String} {o : Occurrence} {names : List String} :
      firstPlaceholder? s.toList = some o →
      consumer ∈ inh.consumers (String.ofList o.name) →
      Rewriting inh names (o.replaceWith consumer) t →
      Rewriting inh (String.ofList o.name :: names) s t

theorem toList_replaceWith (o : Occurrence) (consumer : String) :
    (o.replaceWith consumer).toList = o.before ++ consumer.toList ++ o.after :=
  String.toList_ofList

/-! ## Leaves -/

theorem length_filter_notMem_lt {declared replaced : List String} {name : String}
    (hd : name ∈ declared) (hr : name ∉ replaced) :
    (declared.filter fun p => p ∉ name :: replaced).length <
      (declared.filter fun p => p ∉ replaced).length := by
  have h : (declared.filter fun p => p ∉ name :: replaced) =
      (declared.filter fun p => p ∉ replaced).filter fun p => p ≠ name := by
    rw [List.filter_filter]
    refine List.filter_congr fun p _ => ?_
    simp only [List.mem_cons, not_or, Bool.decide_and, ne_eq]
  rw [h, List.length_filter_lt_length_iff_exists]
  exact ⟨name, List.mem_filter.2 ⟨hd, by simpa using hr⟩, by simp⟩

/-- The leaves below a selector, depth first, on a branch that has replaced the
    given placeholders. -/
def Inheritance.leaves (inh : Inheritance) (replaced : List String) (s : String) : List String :=
  match firstPlaceholder? s.toList with
  | none => [s]
  | some o =>
    if String.ofList o.name ∈ replaced then []
    else
      (inh.consumers (String.ofList o.name)).attach.flatMap fun consumer =>
        inh.leaves (String.ofList o.name :: replaced) (o.replaceWith consumer.1)
termination_by (inh.declared.filter fun p => p ∉ replaced).length
decreasing_by
  exact length_filter_notMem_lt (Inheritance.mem_declared_of_mem_consumers consumer.2) ‹_›

section

variable {inh : Inheritance} {replaced : List String} {s : String} {o : Occurrence}

theorem leaves_of_none (h : firstPlaceholder? s.toList = none) : inh.leaves replaced s = [s] := by
  rw [Inheritance.leaves, h]

theorem leaves_of_replaced (h : firstPlaceholder? s.toList = some o)
    (hr : String.ofList o.name ∈ replaced) : inh.leaves replaced s = [] := by
  rw [Inheritance.leaves, h]
  exact if_pos hr

theorem leaves_of_some (h : firstPlaceholder? s.toList = some o)
    (hr : String.ofList o.name ∉ replaced) :
    inh.leaves replaced s = (inh.consumers (String.ofList o.name)).flatMap fun consumer =>
      inh.leaves (String.ofList o.name :: replaced) (o.replaceWith consumer) := by
  rw [Inheritance.leaves, h]
  simp [hr]

end

/-- **The leaves are what the branches without a repeated name reach.** -/
theorem mem_leaves_iff {inh : Inheritance} {replaced : List String} {s t : String} :
    t ∈ inh.leaves replaced s ↔ firstPlaceholder? t.toList = none ∧
      ∃ names : List String, names.Nodup ∧ (∀ name ∈ names, name ∉ replaced) ∧
        Rewriting inh names s t := by
  constructor
  · intro h
    induction replaced, s using Inheritance.leaves.induct inh with
    | case1 replaced s hs =>
      rw [leaves_of_none hs, List.mem_singleton] at h
      subst h
      exact ⟨hs, [], List.nodup_nil, by simp, .stop _⟩
    | case2 replaced s o hs hr =>
      rw [leaves_of_replaced hs hr] at h
      cases h
    | case3 replaced s o hs hr ih =>
      rw [leaves_of_some hs hr, List.mem_flatMap] at h
      obtain ⟨consumer, hc, ht⟩ := h
      obtain ⟨hn, names, hnd, hnew, hb⟩ := ih ⟨consumer, hc⟩ ht
      refine ⟨hn, String.ofList o.name :: names, List.nodup_cons.2 ⟨fun hm => ?_, hnd⟩, ?_,
        .step hs hc hb⟩
      · exact hnew _ hm (List.mem_cons_self ..)
      · rintro name (_ | ⟨_, hm⟩)
        · exact hr
        · exact fun h' => hnew name hm (List.mem_cons_of_mem _ h')
  · rintro ⟨hn, names, hnd, hnew, hb⟩
    induction hb generalizing replaced with
    | stop s => rw [leaves_of_none hn]; exact List.mem_singleton_self s
    | @step s t consumer o names hs hc hb ih =>
      obtain ⟨hfresh, hnd⟩ := List.nodup_cons.1 hnd
      rw [leaves_of_some hs (hnew _ (List.mem_cons_self ..)), List.mem_flatMap]
      refine ⟨consumer, hc, ih hn hnd fun name hm => ?_⟩
      rintro (_ | ⟨_, h'⟩)
      · exact hfresh hm
      · exact hnew name (List.mem_cons_of_mem _ hm) h'

/-! ## Expansion -/

/-- **Expansion gives the leaves**, when the placeholders that may still be
    replaced are the declared ones that have not been. -/
theorem expandWith_eq {inh : Inheritance} {free replaced : List String} (hnd : free.Nodup)
    (hf : ∀ p, p ∈ free ↔ p ∈ inh.declared ∧ p ∉ replaced) (selectors : List String) :
    expandWith inh free selectors = distinct (selectors.flatMap (inh.leaves replaced)) := by
  induction free, selectors using expandWith.induct inh generalizing replaced with
  | case1 free selectors ih =>
    rw [expandWith, ← distinct_flatMap_distinct selectors (inh.leaves replaced),
      ← distinct_flatMap_distinct selectors]
    congr 2
    funext s
    cases hs : firstPlaceholder? s.toList with
    | none => rw [leaves_of_none hs]
    | some o =>
      simp only
      split
      · rename_i hmem
        have hr := ((hf _).1 hmem).2
        have hf' : ∀ p, p ∈ free.erase (String.ofList o.name) ↔
            p ∈ inh.declared ∧ p ∉ String.ofList o.name :: replaced := by
          intro p
          rw [hnd.mem_erase_iff, hf, List.mem_cons, not_or]
          exact and_left_comm
        rw [leaves_of_some hs hr, ih o hmem (hnd.erase _) hf', List.flatMap_map,
          distinct_of_nodup (nodup_distinct _)]
      · rename_i hmem
        by_cases hr : String.ofList o.name ∈ replaced
        · rw [leaves_of_replaced hs hr]
        · -- not declared, so nothing consumes it
          have hd : String.ofList o.name ∉ inh.declared := fun hd => hmem ((hf _).2 ⟨hd, hr⟩)
          rw [leaves_of_some hs hr, Inheritance.consumers_of_notMem_declared hd]; rfl

theorem expand_eq (inh : Inheritance) (selectors : List String) :
    inh.expand selectors = distinct (selectors.flatMap (inh.leaves [])) :=
  expandWith_eq inh.buckets.nodup (fun p => by simp [Inheritance.declared, Table.keys]) selectors

theorem mem_expand_iff {inh : Inheritance} {selectors : List String} {t : String} :
    t ∈ inh.expand selectors ↔ firstPlaceholder? t.toList = none ∧
      ∃ s ∈ selectors, ∃ names : List String, names.Nodup ∧ Rewriting inh names s t := by
  rw [expand_eq, mem_distinct, List.mem_flatMap]
  constructor
  · rintro ⟨s, hs, ht⟩
    obtain ⟨hn, names, hnd, -, hb⟩ := mem_leaves_iff.1 ht
    exact ⟨hn, s, hs, names, hnd, hb⟩
  · rintro ⟨hn, s, hs, names, hnd, hb⟩
    exact ⟨s, hs, mem_leaves_iff.2 ⟨hn, names, hnd, by simp, hb⟩⟩

/-- **The exact meaning of expansion**: it gives the leaves of the selectors,
    depth first and each at its first occurrence.  So nothing comes out twice
    or with a placeholder in it, and a selector comes out iff some branch that
    rewrites no placeholder twice leads to it.  A step of a branch leaves the text
    before and after the placeholder as it is and puts the consumer between them;
    that this replaces its first occurrence in the text is shown in `Replacement`. -/
theorem expand_eq_distinct_leaves (inh : Inheritance) (selectors : List String) :
    inh.expand selectors = distinct (selectors.flatMap (inh.leaves [])) ∧
      (inh.expand selectors).Nodup ∧
      (∀ t ∈ inh.expand selectors, firstPlaceholder? t.toList = none) ∧
      (∀ t, t ∈ inh.expand selectors ↔ firstPlaceholder? t.toList = none ∧
        ∃ s ∈ selectors, ∃ names : List String, names.Nodup ∧ Rewriting inh names s t) ∧
      ∀ (s consumer : String) (o : Occurrence), firstPlaceholder? s.toList = some o →
        s.toList = o.before ++ '%' :: (o.name ++ o.after) ∧
        (o.replaceWith consumer).toList = o.before ++ consumer.toList ++ o.after := by
  refine ⟨expand_eq inh selectors, ?_, fun t ht => (mem_expand_iff.1 ht).1,
    fun t => mem_expand_iff,
    fun s consumer o ho => ⟨eq_of_firstPlaceholder? ho, toList_replaceWith o consumer⟩⟩
  rw [expand_eq]; exact nodup_distinct _

end StyleBudget
