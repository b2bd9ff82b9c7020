/-
  Tables: finite maps that remember the order in which their keys came.

  * `Table.insert` gives a key its value: a key that is there keeps its place,
    a new one goes to the end;
  * `Table.get?` looks a key up, `Table.keys` lists the keys in order;
  * `mem_keys_iff` ties the keys to the values and `get?_eq_some_iff` both to the
    entries, `get?_insert` and `keys_insert` say what an insertion does to them;
  * `Table.ofList` inserts pairs one after the other, so of equal keys the
    first gives the place (`keys_ofList`) and the last gives the value
    (`get?_ofList`).
-/
import StyleBudget.Distinct

namespace StyleBudget

/-! ## Insertion into a list of pairs -/

section

variable {κ α : Type} [DecidableEq κ]

/-- The pairs with the value of one key set. -/
def insertPair (k : κ) (a : α) : List (κ × α) → List (κ × α)
  | [] => [(k, a)]
  | (k', b) :: rest => if k' = k then (k, a) :: rest else (k', b) :: insertPair k a rest

theorem map_fst_insertPair (k : κ) (a : α) (l : List (κ × α)) :
    (insertPair k a l).map Prod.fst =
      if k ∈ l.map Prod.fst then l.map Prod.fst else l.map Prod.fst ++ [k] := by
  induction l with
  | nil => simp [insertPair]
  | cons p rest ih =>
    obtain ⟨k', b⟩ := p
    by_cases h : k' = k
    · simp [insertPair, h]
    · have h' : ¬ k = k' := fun e => h e.symm
      simp only [insertPair, h, if_false, List.map_cons, ih, List.mem_cons, h', false_or]
      split <;> simp

theorem lookup_pair_cons (j k : κ) (b : α) (l : List (κ × α)) :
    ((k, b) :: l).lookup j = if j = k then some b else l.lookup j := by
  by_cases h : j = k
  · rw [h, List.lookup_cons_self, if_pos rfl]
  · have h' : (j == k) = false := by simpa using h
    rw [List.lookup_cons, h', if_neg h]

theorem lookup_insertPair (k j : κ) (a : α) (l : List (κ × α)) :
    (insertPair k a l).lookup j = if j = k then some a else l.lookup j := by
  induction l with
  | nil => simp [insertPair, lookup_pair_cons]
  | cons p rest ih =>
    obtain ⟨k', b⟩ := p
    by_cases h : k' = k
    · subst h
      by_cases hj : j = k' <;> simp [insertPair, lookup_pair_cons, hj]
    · by_cases hj : j = k'
      · subst hj; simp [insertPair, h]
      · simp [insertPair, lookup_pair_cons, h, hj, ih]

/-- Setting a key to the value that it has changes nothing. -/
theorem insertPair_of_lookup {k : κ} {a : α} {l : List (κ × α)} (h : l.lookup k = some a) :
    insertPair k a l = l := by
  induction l with
  | nil => cases h
  | cons p rest ih =>
    obtain ⟨k', b⟩ := p
    rw [lookup_pair_cons] at h
    by_cases hk : k' = k
    · subst hk
      rw [if_pos rfl] at h
      cases h
      simp [insertPair]
    · rw [if_neg fun e => hk e.symm] at h
      simp [insertPair, hk, ih h]

end

/-! ## Tables -/

/-- A map from keys to values whose keys are kept in order. -/
structure Table (κ α : Type) where
  entries : List (κ × α) := []
  nodup : (entries.map Prod.fst).Nodup := by simp

namespace Table

variable {κ α : Type}

def empty : Table κ α := {}

instance : EmptyCollection (Table κ α) := ⟨empty⟩

def keys (t : Table κ α) : List κ := t.entries.map Prod.fst

def size (t : Table κ α) : Nat := t.entries.length

def isEmpty (t : Table κ α) : Bool := t.entries.isEmpty

@[simp] theorem keys_empty : (empty : Table κ α).keys = [] := rfl

variable [DecidableEq κ]

def get? (t : Table κ α) (k : κ) : Option α := t.entries.lookup k

def contains (t : Table κ α) (k : κ) : Bool := (t.get? k).isSome

/-- The table with the value of one key set. -/
def insert (t : Table κ α) (k : κ) (a : α) : Table κ α where
  entries := insertPair k a t.entries
  nodup := by
    rw [map_fst_insertPair]
    split
    · exact t.nodup
    · rename_i h
      refine List.nodup_append.2 ⟨t.nodup, by simp, ?_⟩
      intro x hx y hy
      simp only [List.mem_singleton] at hy
      exact fun e => h (hy ▸ e ▸ hx)

/-- The table of a list of pairs, inserted from left to right. -/
def ofList (pairs : List (κ × α)) : Table κ α :=
  pairs.foldl (fun t p => t.insert p.1 p.2) empty

@[simp] theorem get?_empty (k : κ) : (empty : Table κ α).get? k = none := rfl

/-- The keys are those with a value. -/
theorem mem_keys_iff {t : Table κ α} {k : κ} : k ∈ t.keys ↔ (t.get? k).isSome := by
  simp only [keys, get?, List.lookup_isSome_iff, List.mem_map, beq_iff_eq]
  exact ⟨fun ⟨p, hp, hk⟩ => ⟨p, hp, hk.symm⟩, fun ⟨p, hp, hk⟩ => ⟨p, hp, hk.symm⟩⟩

/-- A key has the value that stands beside it. -/
theorem get?_eq_some_iff {t : Table κ α} {k : κ} {a : α} :
    t.get? k = some a ↔ ∃ before after, t.entries = before ++ (k, a) :: after := by
  rw [get?, List.lookup_eq_some_iff]
  constructor
  · rintro ⟨before, after, h, -⟩
    exact ⟨before, after, h⟩
  · rintro ⟨before, after, h⟩
    refine ⟨before, after, h, fun p hp => ?_⟩
    have hn := t.nodup
    rw [h, List.map_append, List.map_cons] at hn
    have hne := (List.nodup_append.1 hn).2.2 p.1 (List.mem_map_of_mem hp) k (List.mem_cons_self ..)
    exact bne_iff_ne.2 hne.symm

theorem mem_entries_iff {t : Table κ α} {k : κ} {a : α} :
    (k, a) ∈ t.entries ↔ t.get? k = some a := by
  rw [get?_eq_some_iff, List.mem_iff_append]

/-- An insertion changes the value of its key only. -/
theorem get?_insert (t : Table κ α) (k j : κ) (a : α) :
    (t.insert k a).get? j = if j = k then some a else t.get? j :=
  lookup_insertPair k j a t.entries

/-- An insertion keeps the order of the keys and puts a new one last. -/
theorem keys_insert (t : Table κ α) (k : κ) (a : α) :
    (t.insert k a).keys = if k ∈ t.keys then t.keys else t.keys ++ [k] :=
  map_fst_insertPair k a t.entries

/-- Setting a key to the value that it has changes nothing. -/
theorem insert_of_get? {t : Table κ α} {k : κ} {a : α} (h : t.get? k = some a) :
    t.insert k a = t := by
  obtain ⟨entries, hn⟩ := t
  simp only [insert, mk.injEq]
  exact insertPair_of_lookup h

/-- Insertions keep the order of the keys and put the new ones last. -/
theorem keys_foldl_insert (pairs : List (κ × α)) (t : Table κ α) :
    (pairs.foldl (fun t p => t.insert p.1 p.2) t).keys =
      (pairs.map Prod.fst).foldl addNew t.keys := by
  induction pairs generalizing t with
  | nil => rfl
  | cons p rest ih =>
    rw [List.foldl_cons, ih, keys_insert, List.map_cons, List.foldl_cons, addNew]

/-- The keys of a list of pairs, each at the place of its first occurrence. -/
theorem keys_ofList (pairs : List (κ × α)) :
    (ofList pairs).keys = distinct (pairs.map Prod.fst) :=
  keys_foldl_insert pairs empty

/-- The value that pairs give a key last. -/
def lastValue? (pairs : List (κ × α)) (k : κ) : Option α :=
  ((pairs.filter fun p => p.1 = k).getLast?).map Prod.snd

theorem lastValue?_cons (p : κ × α) (rest : List (κ × α)) (k : κ) :
    lastValue? (p :: rest) k = (lastValue? rest k).or (if k = p.1 then some p.2 else none) := by
  unfold lastValue?
  by_cases hk : k = p.1
  · rw [List.filter_cons_of_pos (by simp [hk]), List.getLast?_cons, if_pos hk]
    cases (rest.filter fun p => p.1 = k).getLast? <;> rfl
  · rw [List.filter_cons_of_neg (by simpa using Ne.symm hk), if_neg hk, Option.or_none]

/-- Insertions give each key the last value that comes for it. -/
theorem get?_foldl_insert (pairs : List (κ × α)) (t : Table κ α) (k : κ) :
    (pairs.foldl (fun t p => t.insert p.1 p.2) t).get? k = (lastValue? pairs k).or (t.get? k) := by
  induction pairs generalizing t with
  | nil => rfl
  | cons p rest ih =>
    rw [List.foldl_cons, ih, get?_insert, lastValue?_cons, Option.or_assoc]
    split <;> rfl

/-- Of the values of a key in a list of pairs the last one counts. -/
theorem get?_ofList (pairs : List (κ × α)) (k : κ) :
    (ofList pairs).get? k = lastValue? pairs k :=
  (get?_foldl_insert pairs empty k).trans Option.or_none

theorem mem_of_get?_ofList {pairs : List (κ × α)} {k : κ} {a : α}
    (h : (ofList pairs).get? k = some a) : (k, a) ∈ pairs := by
  rw [get?_ofList, lastValue?, Option.map_eq_some_iff] at h
  obtain ⟨p, hp, rfl⟩ := h
  obtain ⟨hm, hk⟩ := List.mem_filter.1 (List.mem_of_getLast? hp)
  obtain rfl : p.1 = k := of_decide_eq_true hk
  exact hm

/-- The entries are the keys in their order, each with its value. -/
theorem entries_eq_map_keys (t : Table κ α) (default : α) :
    t.entries = t.keys.map fun k => (k, (t.get? k).getD default) := by
  rw [keys, List.map_map]
  refine ((List.map_congr_left ?_).trans (List.map_id _)).symm
  rintro ⟨k, a⟩ he
  simp only [Function.comp_apply, mem_entries_iff.1 he, Option.getD_some, id_eq]

/-- A list of keys, repeats included, with values that depend on them alone. -/
theorem entries_ofList_map (keys : List κ) (f : κ → α) :
    (ofList (keys.map fun k => (k, f k))).entries = (distinct keys).map fun k => (k, f k) := by
  have hvalues : ∀ e ∈ (ofList (keys.map fun k => (k, f k))).entries, (e.1, f e.1) = e := by
    rintro ⟨k, a⟩ he
    obtain ⟨k', -, hk⟩ := List.mem_map.1 (mem_of_get?_ofList (mem_entries_iff.1 he))
    cases hk
    rfl
  have hkeys : (ofList (keys.map fun k => (k, f k))).keys = distinct keys := by
    rw [keys_ofList, List.map_map]
    exact congrArg distinct (List.map_id keys)
  calc (ofList (keys.map fun k => (k, f k))).entries
      = (ofList (keys.map fun k => (k, f k))).entries.map fun e => (e.1, f e.1) :=
        ((List.map_congr_left hvalues).trans (List.map_id _)).symm
    _ = (ofList (keys.map fun k => (k, f k))).keys.map fun k => (k, f k) := by
        rw [Table.keys, List.map_map]
        rfl
    _ = (distinct keys).map fun k => (k, f k) := by rw [hkeys]

end Table

end StyleBudget
