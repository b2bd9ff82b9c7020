/-
  Filling the placeholders of a selector independently of each other.

  A filling puts, in the place of every placeholder of a text on its own, one
  of its consumers, filled in the same way.  Expansion takes the placeholders
  from left to right instead, and gives up a branch that replaces one twice.

  * `Filling inh names cs ds`: filling `cs` can give `ds`, replacing the
    placeholders `names`;
  * `rewriting_of_filling` and `filling_of_rewriting`: the fillings are what the
    branches of the rewriting reach, as long as no percent sign forms a
    placeholder with the text that is put behind it;
  * `expand_complete_iff`: expansion gives every filling iff each of them can be
    made without replacing a placeholder twice;
  * `expand_eq_nil_of_repeat`: a selector that names one placeholder twice loses
    its fillings, although nothing extends itself.
-/
import Mathlib
import StyleBudget.Proofs.Expansion
import StyleBudget.Proofs.Placeholders

namespace StyleBudget

/-! ## Fillings -/

/-- A way to fill a text: each of its placeholders gives way to one of its
    consumers, which is filled itself.  The names are those of the placeholders
    that are replaced, from left to right, each before those in its consumer. -/
inductive Filling (inh : Inheritance) : List String → List Char → List Char → Prop
  | text {cs : List Char} : firstPlaceholder? cs = none → Filling inh [] cs cs
  | place {cs ds es : List Char} {o : Occurrence} {consumer : String}
      {inner outer : List String} :
      firstPlaceholder? cs = some o →
      consumer ∈ inh.consumers (String.ofList o.name) →
      Filling inh inner consumer.toList ds →
      Filling inh outer o.after es →
      Filling inh (String.ofList o.name :: (inner ++ outer)) cs (o.before ++ ds ++ es)

variable {inh : Inheritance}

theorem Filling.startsName {names : List String} {cs ds : List Char} (h : Filling inh names cs ds)
    (hs : startsName cs = true) : startsName ds = true := by
  cases h with
  | text _ => exact hs
  | @place cs ds es o consumer inner outer ho _ _ _ =>
    rw [eq_of_firstPlaceholder? ho, startsName_append (bounded_percent _)] at hs
    cases hb : o.before with
    | nil => rw [hb] at hs; cases hs
    | cons c bs => rw [hb] at hs; exact hs

/-! ## From fillings to branches -/

theorem Rewriting.append {names more : List String} {s t u : String}
    (h : Rewriting inh names s t) (h' : Rewriting inh more t u) :
    Rewriting inh (names ++ more) s u := by
  induction h with
  | stop s => exact h'
  | step ho hc _ ih => exact .step ho hc (ih h')

theorem Rewriting.step_between {bs cs as : List Char} {o : Occurrence} {consumer t : String}
    {names : List String} (ho : firstPlaceholder? cs = some o)
    (hb : firstPlaceholder? (bs ++ o.before) = none) (ha : Bounded as)
    (hc : consumer ∈ inh.consumers (String.ofList o.name))
    (h : Rewriting inh names
      (String.ofList (bs ++ o.before ++ consumer.toList ++ (o.after ++ as))) t) :
    Rewriting inh (String.ofList o.name :: names) (String.ofList (bs ++ cs ++ as)) t := by
  have ho' := firstPlaceholder?_append_right (firstPlaceholder?_append_left ho hb) ha
  rw [← String.toList_ofList (l := bs ++ cs ++ as)] at ho'
  exact .step (o := ⟨bs ++ o.before, o.name, o.after ++ as⟩) ho' hc h

/-- **A filling is reached by a branch**, also with text around it, if what
    comes before its end holds no placeholder in the end. -/
theorem rewriting_of_filling {names : List String} {cs ds : List Char}
    (h : Filling inh names cs ds) (bs as : List Char)
    (hb : firstPlaceholder? (bs ++ ds) = none) (ha : Bounded as) :
    Rewriting inh names (String.ofList (bs ++ cs ++ as)) (String.ofList (bs ++ ds ++ as)) := by
  induction h generalizing bs as with
  | text _ => exact .stop _
  | @place cs ds es o consumer inner outer ho hc _ _ ih₁ ih₂ =>
    have hafter := bounded_after ho
    -- all that is already in front of the consumer stays
    have hall : firstPlaceholder? (bs ++ o.before ++ ds ++ es) = none := by simpa using hb
    have hd := firstPlaceholder?_eq_none_left hall
    have h₁ := ih₁ (bs ++ o.before) (o.after ++ as) hd (hafter.append ha)
    have h₂ := ih₂ (bs ++ o.before ++ ds) as hall ha
    refine .step_between ho (firstPlaceholder?_eq_none_left hd) ha hc (h₁.append ?_)
    simpa using h₂

/-! ## From branches to fillings -/

/-- A filling of two texts side by side is made of one of each, if the second is
    bounded. -/
theorem Filling.split {names : List String} {us vs ds : List Char}
    (h : Filling inh names (us ++ vs) ds) (hv : Bounded vs) :
    ∃ left right ds₁ ds₂, names = left ++ right ∧ ds = ds₁ ++ ds₂ ∧
      Filling inh left us ds₁ ∧ Filling inh right vs ds₂ := by
  generalize hcs : us ++ vs = cs at h
  induction h generalizing us with
  | @text cs hn =>
    subst hcs
    have hu := firstPlaceholder?_eq_none_left hn
    have hv' : firstPlaceholder? vs = none := by
      rwa [firstPlaceholder?_append_of_none hu fun _ => hv.startsName,
        Option.map_eq_none_iff] at hn
    exact ⟨[], [], us, vs, rfl, rfl, .text hu, .text hv'⟩
  | @place cs ds es o consumer inner outer ho hc h₁ h₂ _ ih₂ =>
    subst hcs
    cases hu : firstPlaceholder? us with
    | none =>
      rw [firstPlaceholder?_append_of_none hu fun _ => hv.startsName,
        Option.map_eq_some_iff] at ho
      obtain ⟨o', ho', rfl⟩ := ho
      exact ⟨[], _, us, o'.before ++ ds ++ es, rfl, by simp, .text hu, .place ho' hc h₁ h₂⟩
    | some o' =>
      rw [firstPlaceholder?_append_right hu hv, Option.some_inj] at ho
      subst ho
      obtain ⟨left, right, es₁, es₂, rfl, rfl, hl, hr⟩ := ih₂ rfl
      exact ⟨String.ofList o'.name :: (inner ++ left), right, o'.before ++ ds ++ es₁, es₂,
        by simp, by simp, .place hu hc h₁ hl, hr⟩

/-- Text without placeholders in front stays in front, if no percent sign at its
    end forms a placeholder with what follows. -/
theorem Filling.drop_front {names : List String} {bs cs ds : List Char}
    (h : Filling inh names (bs ++ cs) ds) (hb : firstPlaceholder? bs = none)
    (hs : bs.getLast? = some '%' → StyleBudget.startsName cs = false) :
    ∃ es, ds = bs ++ es ∧ Filling inh names cs es := by
  generalize hx : bs ++ cs = xs at h
  cases h with
  | text hn =>
    subst hx
    rw [firstPlaceholder?_append_of_none hb hs, Option.map_eq_none_iff] at hn
    exact ⟨cs, rfl, .text hn⟩
  | place ho hc h₁ h₂ =>
    subst hx
    rw [firstPlaceholder?_append_of_none hb hs, Option.map_eq_some_iff] at ho
    obtain ⟨o, ho, rfl⟩ := ho
    exact ⟨_, by simp, .place (o := o) ho hc h₁ h₂⟩

theorem mem_placeholdersOf_replaceWith {cs : List Char} {o : Occurrence} {name consumer : String}
    (ho : firstPlaceholder? cs = some o)
    (h : name ∈ placeholdersOf consumer.toList ∨ name ∈ placeholdersOf o.after) :
    name ∈ placeholdersOf (o.replaceWith consumer).toList := by
  rw [toList_replaceWith, placeholdersOf_append (bounded_after ho), List.mem_append]
  exact h.imp_left fun h => mem_placeholdersOf_append h _

/-- The placeholder can be replaced by something that is filled. -/
def Fillable (inh : Inheritance) (name : String) : Prop :=
  ∃ consumer ∈ inh.consumers name, ∃ names ds, Filling inh names consumer.toList ds

theorem exists_filling {cs : List Char} (h : ∀ name ∈ placeholdersOf cs, Fillable inh name) :
    ∃ names ds, Filling inh names cs ds := by
  cases ho : firstPlaceholder? cs with
  | none => exact ⟨[], cs, .text ho⟩
  | some o =>
    have := after_length_lt ho
    rw [placeholdersOf_of_some ho] at h
    obtain ⟨consumer, hc, inner, ds, h₁⟩ := h _ (List.mem_cons_self ..)
    obtain ⟨outer, es, h₂⟩ := exists_filling fun name hn => h name (List.mem_cons_of_mem _ hn)
    exact ⟨_, _, .place ho hc h₁ h₂⟩
termination_by cs.length

theorem fillable_of_rewriting {names : List String} {s t : String}
    (h : Rewriting inh names s t) (ht : firstPlaceholder? t.toList = none) :
    ∀ name ∈ placeholdersOf s.toList, Fillable inh name := by
  induction h with
  | stop s => rw [placeholdersOf_of_none ht]; simp
  | @step s t consumer o names ho hc _ ih =>
    have ih := fun name hn => ih ht name (mem_placeholdersOf_replaceWith ho hn)
    rw [placeholdersOf_of_some ho]
    rintro name (_ | ⟨_, hn⟩)
    · exact ⟨consumer, hc, exists_filling fun name hn => ih name (.inl hn)⟩
    · exact ih name (.inr hn)

/-- **A branch that leaves no placeholder is a filling**, if no filling has a
    placeholder left. -/
theorem filling_of_rewriting {names : List String} {s t : String} (h : Rewriting inh names s t)
    (ht : firstPlaceholder? t.toList = none)
    (hs : ∀ names ds, Filling inh names s.toList ds → firstPlaceholder? ds = none) :
    Filling inh names s.toList t.toList := by
  induction h with
  | stop s => exact .text ht
  | @step s t consumer o names ho hc h ih =>
    have hlater := fun name hn =>
      fillable_of_rewriting h ht name (mem_placeholdersOf_replaceWith ho hn)
    obtain ⟨inner, ds, hin⟩ := exists_filling fun name hn => hlater name (.inl hn)
    obtain ⟨outer, es, hout⟩ := exists_filling fun name hn => hlater name (.inr hn)
    have hfree := hs _ _ (.place ho hc hin hout)
    -- a placeholder formed by the consumer's start would stay in the filling
    have hsplice : o.before.getLast? = some '%' → startsName consumer.toList = false := by
      intro hp
      have hds := startsName_eq_false_of_percent (firstPlaceholder?_eq_none_left hfree) hp
      cases hc : startsName consumer.toList with
      | false => rfl
      | true => rw [hin.startsName hc] at hds; cases hds
    have hstep : ∀ more fs, Filling inh more (o.replaceWith consumer).toList fs →
        ∃ inner outer ds es, more = inner ++ outer ∧ fs = o.before ++ ds ++ es ∧
          Filling inh inner consumer.toList ds ∧ Filling inh outer o.after es := by
      intro more fs hf
      rw [toList_replaceWith] at hf
      obtain ⟨inner, outer, ds, es, rfl, rfl, hf, he⟩ := hf.split (bounded_after ho)
      obtain ⟨ds, rfl, hd⟩ := hf.drop_front (firstPlaceholder?_before ho) hsplice
      exact ⟨inner, outer, ds, es, rfl, rfl, hd, he⟩
    obtain ⟨inner, outer, ds, es, rfl, heq, hd, he⟩ := hstep _ _ (ih ht fun more fs hf => by
      obtain ⟨inner, outer, ds, es, -, rfl, hd, he⟩ := hstep _ _ hf
      exact hs _ _ (.place ho hc hd he))
    rw [heq]
    exact .place ho hc hd he

/-! ## Percent signs -/

/-- No percent sign of the text stands in front of a placeholder. -/
def Spaced (cs : List Char) : Prop :=
  ∀ us vs, cs = us ++ '%' :: '%' :: vs → startsName vs = false

/-- Every consumer is spaced and does not end in a percent sign, which would come
    to stand in front of a placeholder that follows. -/
def Inheritance.Spaced (inh : Inheritance) : Prop :=
  ∀ name, ∀ consumer ∈ inh.consumers name,
    StyleBudget.Spaced consumer.toList ∧ consumer.toList.getLast? ≠ some '%'

theorem Spaced.before {cs : List Char} {o : Occurrence} (h : Spaced cs)
    (ho : firstPlaceholder? cs = some o) : o.before.getLast? ≠ some '%' := by
  intro hp
  obtain ⟨us, hu⟩ := List.getLast?_eq_some_iff.1 hp
  have hs := h us (o.name ++ o.after) (by rw [eq_of_firstPlaceholder? ho, hu]; simp)
  rw [startsName_name ho] at hs; cases hs

theorem Spaced.after {cs : List Char} {o : Occurrence} (h : Spaced cs)
    (ho : firstPlaceholder? cs = some o) : Spaced o.after := by
  intro us vs hv
  refine h (o.before ++ '%' :: (o.name ++ us)) vs ?_
  rw [eq_of_firstPlaceholder? ho, hv]; simp

theorem getLast?_append_ne {us vs : List Char} {c : Char} (hu : us.getLast? ≠ some c)
    (hv : vs.getLast? ≠ some c) : (us ++ vs).getLast? ≠ some c := by
  rw [List.getLast?_append]
  cases h : vs.getLast? with
  | none => exact hu
  | some d => rw [h] at hv; exact hv

theorem getLast?_after {cs : List Char} {o : Occurrence} {c : Char}
    (ho : firstPlaceholder? cs = some o) (h : cs.getLast? ≠ some c) :
    o.after.getLast? ≠ some c := by
  intro ha
  refine h ?_
  rw [eq_of_firstPlaceholder? ho, ← List.cons_append, ← List.append_assoc,
    List.getLast?_append, ha]
  rfl

/-- **A filling of a spaced text leaves no placeholder.** -/
theorem Filling.firstPlaceholder?_eq_none (hinh : inh.Spaced) {names : List String}
    {cs ds : List Char} (h : Filling inh names cs ds) (hs : Spaced cs) :
    firstPlaceholder? ds = none ∧ (cs.getLast? ≠ some '%' → ds.getLast? ≠ some '%') := by
  induction h with
  | text hn => exact ⟨hn, id⟩
  | @place cs ds es o consumer inner outer ho hc _ _ ih₁ ih₂ =>
    obtain ⟨hsc, hlc⟩ := hinh _ consumer hc
    obtain ⟨hd, hld⟩ := ih₁ hsc
    obtain ⟨he, hle⟩ := ih₂ (hs.after ho)
    have hlb := hs.before ho
    have hbd : firstPlaceholder? (o.before ++ ds) = none := by
      rw [firstPlaceholder?_append_of_none (firstPlaceholder?_before ho) fun h => absurd h hlb, hd]
      rfl
    have hlbd := getLast?_append_ne hlb (hld hlc)
    constructor
    · rw [firstPlaceholder?_append_of_none hbd fun h => absurd h hlbd, he]
      rfl
    · exact fun hl => getLast?_append_ne hlbd (hle (getLast?_after ho hl))

/-! ## Sharing -/

/-- A placeholder extends another: one of its consumers names it. -/
def Extends (inh : Inheritance) (name other : String) : Prop :=
  ∃ consumer ∈ inh.consumers name, other ∈ placeholdersOf consumer.toList

/-- No placeholder extends itself, be it through others. -/
def Inheritance.Acyclic (inh : Inheritance) : Prop :=
  ∀ name, ¬ Relation.TransGen (Extends inh) name name

/-- No two placeholders of the text lead to the same one. -/
def Unshared (inh : Inheritance) (cs : List Char) : Prop :=
  (placeholdersOf cs).Pairwise fun p q =>
    ∀ name, Relation.ReflTransGen (Extends inh) p name →
      ¬ Relation.ReflTransGen (Extends inh) q name

theorem Filling.reaches {names : List String} {cs ds : List Char} (h : Filling inh names cs ds) :
    ∀ name ∈ names, ∃ p ∈ placeholdersOf cs, Relation.ReflTransGen (Extends inh) p name := by
  induction h with
  | text _ => simp
  | @place cs ds es o consumer inner outer ho hc _ _ ih₁ ih₂ =>
    rw [placeholdersOf_of_some ho]
    intro name hn
    rcases List.mem_cons.1 hn with rfl | hn
    · exact ⟨_, List.mem_cons_self .., .refl⟩
    rcases List.mem_append.1 hn with hn | hn
    · obtain ⟨p, hp, hr⟩ := ih₁ name hn
      exact ⟨_, List.mem_cons_self .., hr.head ⟨consumer, hc, hp⟩⟩
    · obtain ⟨p, hp, hr⟩ := ih₂ name hn
      exact ⟨p, List.mem_cons_of_mem _ hp, hr⟩

/-- **Where nothing extends itself and nothing is shared, no filling replaces a
    placeholder twice.** -/
theorem Filling.nodup (hac : inh.Acyclic)
    (hinh : ∀ name, ∀ consumer ∈ inh.consumers name, Unshared inh consumer.toList)
    {names : List String} {cs ds : List Char} (h : Filling inh names cs ds)
    (hs : Unshared inh cs) : names.Nodup := by
  induction h with
  | text _ => exact List.nodup_nil
  | @place cs ds es o consumer inner outer ho hc h₁ h₂ ih₁ ih₂ =>
    rw [Unshared, placeholdersOf_of_some ho, List.pairwise_cons] at hs
    refine List.nodup_cons.2 ⟨fun hn => ?_,
      List.nodup_append.2 ⟨ih₁ (hinh _ consumer hc), ih₂ hs.2, ?_⟩⟩
    · rcases List.mem_append.1 hn with hn | hn
      · obtain ⟨p, hp, hr⟩ := h₁.reaches _ hn
        exact hac _ (.head' ⟨consumer, hc, hp⟩ hr)
      · obtain ⟨p, hp, hr⟩ := h₂.reaches _ hn
        exact hs.1 p hp _ .refl hr
    · rintro name hin _ hout rfl
      obtain ⟨p, hp, hr⟩ := h₁.reaches _ hin
      obtain ⟨q, hq, hr'⟩ := h₂.reaches _ hout
      exact hs.1 q hq _ (hr.head ⟨consumer, hc, hp⟩) hr'

/-! ## Completeness -/

theorem mem_expand_of_filling {names : List String} {s t : String}
    (h : Filling inh names s.toList t.toList) (ht : firstPlaceholder? t.toList = none)
    (hnd : names.Nodup) : t ∈ inh.expand [s] := by
  have hb := rewriting_of_filling h [] [] ht bounded_nil
  simp only [List.nil_append, List.append_nil, String.ofList_toList] at hb
  exact mem_expand_iff.2 ⟨ht, s, List.mem_singleton_self s, names, hnd, hb⟩

theorem filling_of_mem_expand {s t : String} (ht : t ∈ inh.expand [s])
    (hs : ∀ names ds, Filling inh names s.toList ds → firstPlaceholder? ds = none) :
    ∃ names : List String, names.Nodup ∧ Filling inh names s.toList t.toList := by
  obtain ⟨hn, s', hs', names, hnd, hb⟩ := mem_expand_iff.1 ht
  obtain rfl := List.mem_singleton.1 hs'
  exact ⟨names, hnd, filling_of_rewriting hb hn hs⟩

/-- **When expansion loses nothing**: it gives every filling of a selector iff
    no filling has a placeholder left and each can be made without replacing a
    placeholder twice.  The first holds where no percent sign comes to stand in
    front of a placeholder; the second where nothing extends itself and no two
    placeholders side by side lead to the same one, and not only where nothing
    extends itself. -/
theorem expand_complete_iff (inh : Inheritance) (s : String) :
    ((∀ (names) (t : String), Filling inh names s.toList t.toList → t ∈ inh.expand [s]) ↔
      ∀ (names) (t : String), Filling inh names s.toList t.toList →
        firstPlaceholder? t.toList = none ∧
        ∃ once : List String, once.Nodup ∧ Filling inh once s.toList t.toList) ∧
    ((∀ (names) (t : String), Filling inh names s.toList t.toList →
        firstPlaceholder? t.toList = none) →
      (inh.expand [s] = [] ↔
        ∀ (names) (t : String), Filling inh names s.toList t.toList → ¬ names.Nodup)) ∧
    (inh.Spaced → Spaced s.toList →
      ∀ (names) (t : String), Filling inh names s.toList t.toList →
        firstPlaceholder? t.toList = none) ∧
    (inh.Acyclic → (∀ name, ∀ consumer ∈ inh.consumers name, Unshared inh consumer.toList) →
      Unshared inh s.toList →
      ∀ (names) (t : String), Filling inh names s.toList t.toList → names.Nodup) := by
  have htext : (∀ (names) (t : String), Filling inh names s.toList t.toList →
      firstPlaceholder? t.toList = none) →
      ∀ names ds, Filling inh names s.toList ds → firstPlaceholder? ds = none := by
    intro h names ds hf
    rw [← String.toList_ofList (l := ds)] at hf ⊢
    exact h names _ hf
  refine ⟨⟨fun h => ?_, fun h => ?_⟩, fun hfree => ⟨fun h => ?_, fun h => ?_⟩, ?_, ?_⟩
  · have hfree := htext fun names t hf => (mem_expand_iff.1 (h names t hf)).1
    exact fun names t hf => ⟨hfree _ _ hf, filling_of_mem_expand (h names t hf) hfree⟩
  · intro names t hf
    obtain ⟨ht, once, hnd, ho⟩ := h names t hf
    exact mem_expand_of_filling ho ht hnd
  · intro names t hf hnd
    have := mem_expand_of_filling hf (hfree names t hf) hnd
    rw [h] at this; cases this
  · refine List.eq_nil_iff_forall_not_mem.2 fun t ht => ?_
    obtain ⟨names, hnd, hf⟩ := filling_of_mem_expand ht (htext hfree)
    exact h names t hf hnd
  · exact fun hinh hs names t hf => (hf.firstPlaceholder?_eq_none hinh hs).1
  · exact fun hac hinh hs names t hf => hf.nodup hac hinh hs

/-! ## A placeholder named twice -/

/-- The placeholder `a` with the one consumer `.x`. -/
def singleConsumer : Inheritance := ⟨Table.empty.insert "a" [".x"]⟩

theorem consumers_singleConsumer {name consumer : String}
    (h : consumer ∈ singleConsumer.consumers name) : name = "a" ∧ consumer = ".x" := by
  simp only [Inheritance.consumers, singleConsumer, Table.get?_insert, Table.get?_empty] at h
  split at h
  · rename_i hn
    exact ⟨hn, by simpa using h⟩
  · cases h

theorem spaced_of_no_pair {cs : List Char} (h : ¬ ['%', '%'] <:+: cs) : Spaced cs := by
  rintro us vs rfl
  exact absurd ⟨us, vs, by simp⟩ h

/-- **A selector that names one placeholder twice loses its filling**, although
    nothing extends itself, no percent sign stands in front of a placeholder, and
    the placeholder has a consumer without placeholders. -/
theorem expand_eq_nil_of_repeat :
    singleConsumer.Acyclic ∧ singleConsumer.Spaced ∧ Spaced "%a %a".toList ∧
      singleConsumer.consumers "a" = [".x"] ∧ firstPlaceholder? ".x".toList = none ∧
      Filling singleConsumer ["a", "a"] "%a %a".toList ".x .x".toList ∧
      singleConsumer.expand ["%a %a"] = [] := by
  have hx : Filling singleConsumer [] ".x".toList ".x".toList := .text (by decide)
  have hc : ".x" ∈ singleConsumer.consumers (String.ofList ['a']) := by decide
  refine ⟨fun name h => ?_, fun name consumer h => ?_, spaced_of_no_pair (by decide), by decide,
    by decide, ?_, by cbv⟩
  · obtain ⟨other, ⟨consumer, hm, ho⟩, -⟩ := Relation.TransGen.head'_iff.1 h
    obtain ⟨-, rfl⟩ := consumers_singleConsumer hm
    rw [placeholdersOf_of_none (by decide)] at ho
    cases ho
  · obtain ⟨-, rfl⟩ := consumers_singleConsumer h
    exact ⟨spaced_of_no_pair (by decide), by decide⟩
  · exact .place (o := ⟨[], ['a'], " %a".toList⟩) rfl hc hx
      (.place (o := ⟨[' '], ['a'], []⟩) rfl hc hx (.text rfl))

end StyleBudget
