/-
  First and later occurrences.

  Dropping the repeats of a list cuts it in two: the selectors at the positions where one stands
  for the first time, and those at all other positions.  Both are told from the positions alone,
  here also for a list that comes behind another one.

  * `occursBefore` is the test of a position; `newIn` and `repeatedIn` are the given selectors
    that fail and pass it, `newIn_append_repeatedIn_perm` says that these are all;
  * `distinct_eq_newIn` and `repeats_eq_repeatedIn`: the filter of repeats cuts a list like this,
    and `repeats_append` is the case of a list without repeats and others behind it;
  * `repeats_eq_nil_iff` says which lists have no repeat, `head?_repeats_eq_some_iff` which
    repeat is the first.
-/
import StyleBudget.Proofs.Findings

namespace StyleBudget

/-! ## Positions -/

/-- The selector at a position stands in a list already, or at an earlier position. -/
def occursBefore (held given : List String) (p : String × Nat) : Bool :=
  p.1 ∈ held ∨ p.1 ∈ given.take p.2

/-- The selectors that stand in a list already, or earlier among the given ones, once for each
    of their positions. -/
def repeatedIn (held given : List String) : List String :=
  (given.zipIdx.filter fun p => p.1 ∈ held ∨ p.1 ∈ given.take p.2).map Prod.fst

/-- The given selectors at all other positions: those at which one stands for the first time. -/
def newIn (held given : List String) : List String :=
  (given.zipIdx.filter fun p => ¬ (p.1 ∈ held ∨ p.1 ∈ given.take p.2)).map Prod.fst

theorem repeatedIn_eq (held given : List String) :
    repeatedIn held given = (given.zipIdx.filter (occursBefore held given)).map Prod.fst := rfl

theorem newIn_eq (held given : List String) :
    newIn held given = (given.zipIdx.filter fun p => !occursBefore held given p).map Prod.fst := by
  simp only [newIn, occursBefore, decide_not]

theorem repeatedIn_congr {held held' : List String} (h : ∀ s, s ∈ held' ↔ s ∈ held)
    (given : List String) : repeatedIn held' given = repeatedIn held given := by
  simp only [repeatedIn, h]

theorem newIn_congr {held held' : List String} (h : ∀ s, s ∈ held' ↔ s ∈ held)
    (given : List String) : newIn held' given = newIn held given := by
  simp only [newIn, h]

/-- Both pieces together are the given selectors. -/
theorem newIn_append_repeatedIn_perm (held given : List String) :
    (newIn held given ++ repeatedIn held given).Perm given := by
  have hparts := List.filter_append_perm (occursBefore held given) given.zipIdx
  have hgiven := (List.perm_append_comm.trans hparts).map Prod.fst
  rwa [List.map_append, List.zipIdx_map_fst, ← newIn_eq, ← repeatedIn_eq] at hgiven

theorem length_newIn_add (held given : List String) :
    (newIn held given).length + (repeatedIn held given).length = given.length := by
  rw [← List.length_append]
  exact (newIn_append_repeatedIn_perm held given).length_eq

theorem count_newIn_add (held given : List String) (s : String) :
    (newIn held given).count s + (repeatedIn held given).count s = given.count s := by
  rw [← List.count_append]
  exact (newIn_append_repeatedIn_perm held given).count_eq s

/-! ## The first selector -/

/-- For those behind it, the first selector is one that stands in the list already. -/
theorem map_filter_zipIdx_cons (test : Bool → Bool) (held : List String) (s : String)
    (rest : List String) :
    ((rest.zipIdx 1).filter fun p => test (occursBefore held (s :: rest) p)).map Prod.fst =
      (rest.zipIdx.filter fun p => test (occursBefore (s :: held) rest p)).map Prod.fst := by
  rw [List.zipIdx_succ, List.filter_map, List.map_map]
  simp only [occursBefore, Function.comp_def, List.take_succ_cons, List.mem_cons, or_left_comm,
    or_assoc]

theorem occursBefore_zero (held : List String) (s : String) (rest : List String) :
    occursBefore held (s :: rest) (s, 0) = decide (s ∈ held) := by
  simp [occursBefore]

theorem repeatedIn_cons (held : List String) (s : String) (rest : List String) :
    repeatedIn held (s :: rest) =
      if s ∈ held then s :: repeatedIn (s :: held) rest else repeatedIn (s :: held) rest := by
  have hrest := map_filter_zipIdx_cons id held s rest
  rw [repeatedIn_eq, repeatedIn_eq, List.zipIdx_cons, List.filter_cons, occursBefore_zero]
  by_cases hs : s ∈ held
  · rw [if_pos hs, if_pos (decide_eq_true hs)]
    exact congrArg (s :: ·) hrest
  · rw [if_neg hs, if_neg (by simpa using hs)]
    exact hrest

theorem newIn_cons (held : List String) (s : String) (rest : List String) :
    newIn held (s :: rest) =
      if s ∈ held then newIn (s :: held) rest else s :: newIn (s :: held) rest := by
  have hrest := map_filter_zipIdx_cons not held s rest
  rw [newIn_eq, newIn_eq, List.zipIdx_cons, List.filter_cons, occursBefore_zero]
  by_cases hs : s ∈ held
  · rw [if_pos hs, if_neg (by simpa using hs)]
    exact hrest
  · rw [if_neg hs, if_pos (by simpa using hs)]
    exact congrArg (s :: ·) hrest

/-- A selector that stands in a list already makes no difference to it. -/
theorem mem_cons_of_held {held : List String} {s : String} (hs : s ∈ held) (t : String) :
    t ∈ s :: held ↔ t ∈ held :=
  ⟨fun ht => (List.mem_cons.1 ht).elim (fun h => h ▸ hs) id, List.mem_cons_of_mem s⟩

theorem mem_concat_iff_mem_cons {held : List String} {s : String} (t : String) :
    t ∈ held ++ [s] ↔ t ∈ s :: held := by
  rw [List.mem_append, List.mem_singleton, List.mem_cons, or_comm]

/-! ## The filter of repeats -/

theorem repeatsAfter_eq (seen given : List String) :
    repeatsAfter seen given = repeatedIn seen given := by
  induction given generalizing seen with
  | nil => rfl
  | cons s rest ih =>
    rw [repeatsAfter, repeatedIn_cons, ih, ih]
    by_cases hs : s ∈ seen
    · rw [if_pos hs, if_pos hs, repeatedIn_congr (mem_cons_of_held hs)]
    · rw [if_neg hs, if_neg hs]

theorem repeats_eq_repeatedIn (selectors : List String) :
    repeats selectors = repeatedIn [] selectors := repeatsAfter_eq [] selectors

/-- Adding selectors to a list puts those behind it that are new. -/
theorem foldl_addNew_eq_newIn (start given : List String) :
    given.foldl addNew start = start ++ newIn start given := by
  induction given generalizing start with
  | nil => exact (List.append_nil start).symm
  | cons s rest ih =>
    rw [List.foldl_cons, ih, newIn_cons]
    by_cases hs : s ∈ start
    · rw [if_pos hs, addNew_of_mem hs, newIn_congr (mem_cons_of_held hs)]
    · rw [if_neg hs, addNew_of_notMem hs, newIn_congr mem_concat_iff_mem_cons, List.append_assoc]
      rfl

theorem distinct_eq_newIn (selectors : List String) :
    distinct selectors = newIn [] selectors := foldl_addNew_eq_newIn [] selectors

/-- Every selector is kept or is a repeat. -/
theorem length_repeats (selectors : List String) :
    (repeats selectors).length + (distinct selectors).length = selectors.length := by
  rw [repeats_eq_repeatedIn, distinct_eq_newIn, Nat.add_comm]
  exact length_newIn_add [] selectors

/-! ## Lists without repeats -/

/-- A list without repeats is passed over. -/
theorem repeatsAfter_append {held : List String} (h : held.Nodup) {seen : List String}
    (hseen : ∀ s ∈ held, s ∉ seen) (given : List String) :
    repeatsAfter seen (held ++ given) = repeatsAfter (held.reverse ++ seen) given := by
  induction held generalizing seen with
  | nil => rfl
  | cons s rest ih =>
    obtain ⟨hs, hrest⟩ := List.nodup_cons.1 h
    have hnext : ∀ t ∈ rest, t ∉ s :: seen := fun t ht hm =>
      (List.mem_cons.1 hm).elim (fun he => hs (he ▸ ht)) (hseen t (List.mem_cons_of_mem s ht))
    rw [List.cons_append, repeatsAfter, if_neg (hseen s (List.mem_cons_self ..)), ih hrest hnext,
      List.reverse_cons, List.append_assoc]
    rfl

/-- **Behind a list without repeats** all repeats are new ones. -/
theorem repeats_append {held : List String} (h : held.Nodup) (given : List String) :
    repeats (held ++ given) = repeatedIn held given := by
  rw [repeats, repeatsAfter_append h (fun _ _ => List.not_mem_nil), repeatsAfter_eq]
  exact repeatedIn_congr (fun s => by rw [List.append_nil, List.mem_reverse]) given

theorem repeats_eq_nil_iff {selectors : List String} :
    repeats selectors = [] ↔ selectors.Nodup := by
  constructor
  · intro h
    have hperm := newIn_append_repeatedIn_perm [] selectors
    rw [← repeats_eq_repeatedIn, h, List.append_nil, ← distinct_eq_newIn] at hperm
    exact hperm.nodup_iff.1 (nodup_distinct selectors)
  · intro h
    have hnone : repeats (selectors ++ []) = [] := repeats_append h []
    rwa [List.append_nil] at hnone

/-- Where the first repeat stands: behind selectors of which none is repeated, and it is one of
    these.  `held` are those that have been passed. -/
theorem exists_of_repeatedIn_eq_cons {held given more : List String} {s : String}
    (hheld : held.Nodup) (h : repeatedIn held given = s :: more) :
    ∃ before after, given = before ++ s :: after ∧ (held ++ before).Nodup ∧
      s ∈ held ++ before := by
  induction given generalizing held with
  | nil => cases h
  | cons t rest ih =>
    rw [repeatedIn_cons] at h
    by_cases ht : t ∈ held
    · rw [if_pos ht] at h
      obtain ⟨rfl, -⟩ := List.cons.inj h
      exact ⟨[], rest, rfl, by rwa [List.append_nil], by rwa [List.append_nil]⟩
    · rw [if_neg ht, ← repeatedIn_congr mem_concat_iff_mem_cons] at h
      have hnext : (held ++ [t]).Nodup := addNew_of_notMem ht ▸ nodup_addNew hheld
      obtain ⟨before, after, rfl, hnodup, hs⟩ := ih hnext h
      rw [List.append_assoc] at hnodup hs
      exact ⟨t :: before, after, rfl, hnodup, hs⟩

theorem head?_repeats_eq_some_iff {selectors : List String} {s : String} :
    (repeats selectors).head? = some s ↔
      ∃ before after, selectors = before ++ s :: after ∧ before.Nodup ∧ s ∈ before := by
  constructor
  · intro h
    obtain ⟨more, hmore⟩ := List.head?_eq_some_iff.1 h
    rw [repeats_eq_repeatedIn] at hmore
    obtain ⟨before, after, hsplit, hnodup, hs⟩ := exists_of_repeatedIn_eq_cons List.nodup_nil hmore
    exact ⟨before, after, hsplit, hnodup, hs⟩
  · rintro ⟨before, after, rfl, hnodup, hs⟩
    rw [repeats_append hnodup, repeatedIn_cons, if_pos hs, List.head?_cons]

/-- What holds of the selector at the first position that repeats one. -/
theorem exists_first_repeat_iff {selectors : List String} {P : String → Prop} :
    (∃ before s after, selectors = before ++ s :: after ∧ before.Nodup ∧ s ∈ before ∧ P s) ↔
      ∃ s, (repeats selectors).head? = some s ∧ P s := by
  constructor
  · rintro ⟨before, s, after, hsplit, hnodup, hs, hp⟩
    exact ⟨s, head?_repeats_eq_some_iff.2 ⟨before, after, hsplit, hnodup, hs⟩, hp⟩
  · rintro ⟨s, hfirst, hp⟩
    obtain ⟨before, after, hsplit, hnodup, hs⟩ := head?_repeats_eq_some_iff.1 hfirst
    exact ⟨before, s, after, hsplit, hnodup, hs, hp⟩

end StyleBudget
