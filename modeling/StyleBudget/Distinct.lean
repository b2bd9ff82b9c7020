/-
  Lists without repeats, in the order of first occurrences.

  * `addNew` puts an item at the end of a list that does not hold it;
  * `distinct` keeps the first occurrence of every item;
  * `distinct_flatMap_distinct`: dropping the repeats of the parts first and
    then of the whole is dropping those of the whole;
  * `foldl_addNew_eq`: adding the items of a list to another one puts those
    that are new behind it, each once;
  * `distinct_append`: a list without repeats stays, and of what follows it the
    new items are added.
-/

namespace StyleBudget

variable {α : Type} [DecidableEq α]

/-- The list with the item at its end, unless it holds the item already. -/
def addNew (items : List α) (a : α) : List α := if a ∈ items then items else items ++ [a]

/-- The items of a list, each at the place of its first occurrence only. -/
def distinct (items : List α) : List α := items.foldl addNew []

theorem mem_addNew {items : List α} {a b : α} : b ∈ addNew items a ↔ b ∈ items ∨ b = a := by
  unfold addNew
  split
  · rename_i h
    exact ⟨.inl, fun h' => h'.elim id fun e => e ▸ h⟩
  · simp

theorem nodup_addNew {items : List α} {a : α} (h : items.Nodup) : (addNew items a).Nodup := by
  unfold addNew
  split
  · exact h
  · rename_i ha
    refine List.nodup_append.2 ⟨h, by simp, ?_⟩
    intro x hx y hy
    simp only [List.mem_singleton] at hy
    exact fun e => ha (hy ▸ e ▸ hx)

theorem mem_foldl_addNew {items : List α} {start : List α} {a : α} :
    a ∈ items.foldl addNew start ↔ a ∈ start ∨ a ∈ items := by
  induction items generalizing start with
  | nil => simp
  | cons b rest ih =>
    simp only [List.foldl_cons, ih, mem_addNew, List.mem_cons]
    exact or_assoc

theorem nodup_foldl_addNew {items : List α} {start : List α} (h : start.Nodup) :
    (items.foldl addNew start).Nodup := by
  induction items generalizing start with
  | nil => exact h
  | cons b rest ih => exact ih (nodup_addNew h)

/-- No item is lost and none is new. -/
@[simp] theorem mem_distinct {items : List α} {a : α} : a ∈ distinct items ↔ a ∈ items := by
  simp [distinct, mem_foldl_addNew]

/-- No item is there twice. -/
theorem nodup_distinct (items : List α) : (distinct items).Nodup :=
  nodup_foldl_addNew (by simp)

/-! ## Lists in parts -/

theorem addNew_of_mem {items : List α} {a : α} (h : a ∈ items) : addNew items a = items :=
  if_pos h

theorem addNew_of_notMem {items : List α} {a : α} (h : a ∉ items) :
    addNew items a = items ++ [a] :=
  if_neg h

/-- Adding items of which the repeats have been dropped is adding them all. -/
theorem foldl_addNew_foldl (start items more : List α) :
    (more.foldl addNew items).foldl addNew start =
      more.foldl addNew (items.foldl addNew start) := by
  induction more generalizing items with
  | nil => rfl
  | cons a rest ih =>
    have h : (addNew items a).foldl addNew start = addNew (items.foldl addNew start) a := by
      by_cases ha : a ∈ items
      · rw [addNew_of_mem ha, addNew_of_mem (mem_foldl_addNew.2 (.inr ha))]
      · rw [addNew_of_notMem ha, List.foldl_append]; rfl
    rw [List.foldl_cons, List.foldl_cons, ih, h]

theorem foldl_addNew_distinct (start items : List α) :
    (distinct items).foldl addNew start = items.foldl addNew start :=
  foldl_addNew_foldl start [] items

theorem distinct_distinct_append (items more : List α) :
    distinct (distinct items ++ more) = distinct (items ++ more) := by
  simp only [distinct, List.foldl_append]
  rw [foldl_addNew_foldl]; rfl

/-- The repeats may be dropped part by part and then once more. -/
theorem distinct_flatMap_distinct {β : Type} (parts : List β) (f : β → List α) :
    distinct (parts.flatMap fun b => distinct (f b)) = distinct (parts.flatMap f) := by
  suffices h : ∀ start : List α, (parts.flatMap fun b => distinct (f b)).foldl addNew start =
      (parts.flatMap f).foldl addNew start from h []
  induction parts with
  | nil => intro start; rfl
  | cons b rest ih =>
    intro start
    rw [List.flatMap_cons, List.flatMap_cons, List.foldl_append, List.foldl_append,
      foldl_addNew_distinct, ih]

/-- What is added to a list in two pieces goes to the second one, unless the
    first holds it already. -/
theorem foldl_addNew_append (front back items : List α) :
    items.foldl addNew (front ++ back) =
      front ++ (items.filter fun a => a ∉ front).foldl addNew back := by
  induction items generalizing back with
  | nil => rfl
  | cons a rest ih =>
    by_cases hf : a ∈ front
    · rw [List.foldl_cons, addNew_of_mem (List.mem_append_left _ hf), ih,
        List.filter_cons_of_neg (by simpa using hf)]
    · have h : addNew (front ++ back) a = front ++ addNew back a := by
        by_cases hb : a ∈ back
        · rw [addNew_of_mem hb, addNew_of_mem (List.mem_append_right _ hb)]
        · rw [addNew_of_notMem hb, addNew_of_notMem (by simp [hf, hb]), List.append_assoc]
      rw [List.foldl_cons, h, ih, List.filter_cons_of_pos (by simpa using hf), List.foldl_cons]

theorem distinct_of_nodup {items : List α} (h : items.Nodup) : distinct items = items := by
  suffices h' : ∀ start : List α, (start ++ items).Nodup →
      items.foldl addNew start = start ++ items from h' [] h
  clear h
  induction items with
  | nil => intro start _; simp
  | cons a rest ih =>
    intro start h
    have ha : a ∉ start := fun hs =>
      (List.nodup_append.1 h).2.2 a hs a (List.mem_cons_self ..) rfl
    rw [List.foldl_cons, addNew_of_notMem ha, ih _ (by simpa using h), List.append_assoc]
    rfl

/-- Added items stand behind a list, those that it does not hold and each once. -/
theorem foldl_addNew_eq (start items : List α) :
    items.foldl addNew start = start ++ distinct (items.filter fun a => a ∉ start) := by
  have h := foldl_addNew_append start [] items
  rwa [List.append_nil] at h

/-- Items that a list holds already add nothing to it. -/
theorem foldl_addNew_of_subset {start items : List α} (h : ∀ a ∈ items, a ∈ start) :
    items.foldl addNew start = start := by
  have hnone : items.filter (fun a => a ∉ start) = [] :=
    List.filter_eq_nil_iff.2 fun a ha => by simp [h a ha]
  rw [foldl_addNew_eq, hnone]
  exact List.append_nil start

theorem distinct_append {items : List α} (h : items.Nodup) (more : List α) :
    distinct (items ++ more) = items ++ distinct (more.filter fun a => a ∉ items) := by
  rw [distinct, List.foldl_append, ← foldl_addNew_eq]
  exact congrArg (more.foldl addNew) (distinct_of_nodup h)

end StyleBudget
