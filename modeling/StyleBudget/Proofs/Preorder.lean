/-
  The walk over a sheet as a loop, as a recursion and as an order.

  The statements of a sheet can be listed by a loop over a stack of those that wait: each round
  lists the statement on top of the stack and puts its children in its place, the first one on
  top.  What the loop has listed, followed by what the recursion lists for the stack from the
  top down, is the same before and after a round.

  * `Walk.round?` is one round, `Walk.Ends` says after how many of them the loop ends, and with
    which list; `Walk.pending_round?` is the step and `Walk.ends_iff` the loop;
  * `Statement.addresses` are the places in a tree, each as the numbers of the children on the
    way to it; `Statement.map_at?_addresses`, `Statement.mem_addresses_iff` and
    `Statement.pairwise_addresses`: the walk is the tree by its addresses, all of them, in
    lexicographic order;
  * `Sheet.walk_preorder` is the result about sheets, which compilation takes in this order.
-/
import Mathlib.Data.List.Lex
import StyleBudget.Proofs.Places

namespace StyleBudget

/-! ## Trees -/

/-- The statements that stand directly in a statement. -/
def Statement.children : Statement → List Statement
  | .rule _ children => children
  | _ => []

theorem walkAll_eq_flatMap (block : List Statement) :
    walkAll block = block.flatMap Statement.walk := by
  induction block with
  | nil => rw [walkAll]; rfl
  | cons s rest ih => rw [walkAll, ih, List.flatMap_cons]

/-- Each statement comes before what stands in it. -/
theorem Statement.walk_eq (s : Statement) : s.walk = s :: walkAll s.children := by
  cases s <;> simp [Statement.walk, Statement.children, walkAll]

mutual

/-- What holds of a statement whenever it holds of its children holds of all. -/
theorem Statement.of_children {P : Statement → Prop}
    (step : ∀ s : Statement, (∀ child ∈ s.children, P child) → P s) : ∀ s : Statement, P s
  | .rule _ children => step _ (of_children_all step children)
  | .declaration _ => step _ nofun
  | .mixin _ _ => step _ nofun
  | .extend _ _ => step _ nofun
  | .assign _ _ => step _ nofun

theorem of_children_all {P : Statement → Prop}
    (step : ∀ s : Statement, (∀ child ∈ s.children, P child) → P s) :
    ∀ block : List Statement, ∀ s ∈ block, P s
  | [] => nofun
  | s :: rest => List.forall_mem_cons.2 ⟨s.of_children step, of_children_all step rest⟩

end

/-! ## The loop -/

/-- A walk that is under way: the statements that have been listed, and those that wait on the
    stack, whose top is its last item. -/
structure Walk where
  found : List Statement := []
  stack : List Statement

namespace Walk

/-- Before the first round the statements outside all rules wait, the first one on top. -/
def start (sheet : Sheet) : Walk := ⟨[], sheet.statements.reverse⟩

/-- A round: the statement on top is listed, and its children are put in its place, the first
    one on top.  There is no round when none waits. -/
def round? (w : Walk) : Option Walk :=
  w.stack.getLast?.map fun s => ⟨w.found ++ [s], w.stack.dropLast ++ s.children.reverse⟩

/-- The loop ends after a number of rounds, with a list. -/
inductive Ends : ℕ → Walk → List Statement → Prop
  | now {w : Walk} (h : w.round? = none) : Ends 0 w w.found
  | later {n : ℕ} {w w' : Walk} {l : List Statement} (h : w.round? = some w')
    (hrest : Ends n w' l) : Ends (n + 1) w l

/-- What the stack still has to give, from the top down. -/
def pending (w : Walk) : List Statement := walkAll w.stack.reverse

variable {w w' : Walk} {n : ℕ} {l : List Statement}

theorem round?_eq_none_iff : w.round? = none ↔ w.pending = [] := by
  rw [round?, Option.map_eq_none_iff, List.getLast?_eq_none_iff, pending]
  constructor
  · intro h
    rw [h]; rfl
  · intro h
    cases hs : w.stack.reverse with
    | nil => exact List.reverse_eq_nil_iff.1 hs
    | cons s rest =>
      rw [hs, walkAll, s.walk_eq] at h
      cases h

/-- The step: a round moves one statement from what is pending to what has been found. -/
theorem pending_round? (h : w.round? = some w') :
    ∃ s, w'.found = w.found ++ [s] ∧ w.pending = s :: w'.pending := by
  obtain ⟨s, hs, rfl⟩ := Option.map_eq_some_iff.1 h
  obtain ⟨below, hbelow⟩ := List.getLast?_eq_some_iff.1 hs
  refine ⟨s, rfl, ?_⟩
  simp only [pending, hbelow, List.dropLast_concat, List.reverse_append, List.reverse_reverse,
    List.reverse_cons, List.reverse_nil, List.nil_append, List.singleton_append,
    walkAll_eq_flatMap, List.flatMap_cons, List.flatMap_append]
  rw [s.walk_eq, walkAll_eq_flatMap, List.cons_append]

/-- The loop ends after as many rounds as there are statements pending, and lists them. -/
theorem ends_of_pending {pending : List Statement} (h : w.pending = pending) :
    w.Ends pending.length (w.found ++ pending) := by
  induction pending generalizing w with
  | nil =>
    rw [List.append_nil]
    exact .now (round?_eq_none_iff.2 h)
  | cons s rest ih =>
    cases hr : w.round? with
    | none => rw [round?_eq_none_iff.1 hr] at h; cases h
    | some w' =>
      obtain ⟨s', hfound, hpending⟩ := pending_round? hr
      obtain ⟨rfl, hrest⟩ := List.cons.inj (h.symm.trans hpending)
      have hends := ih hrest.symm
      rw [hfound, List.append_assoc, List.singleton_append] at hends
      exact .later hr hends

/-- The loop ends in one way only. -/
theorem Ends.unique (h : w.Ends n l) {n' : ℕ} {l' : List Statement} (h' : w.Ends n' l') :
    n = n' ∧ l = l' := by
  induction h generalizing n' l' with
  | now h =>
    cases h' with
    | now _ => exact ⟨rfl, rfl⟩
    | later hr _ => cases h.symm.trans hr
  | later hr _ ih =>
    cases h' with
    | now h => cases h.symm.trans hr
    | later hr' hrest' =>
      cases hr.symm.trans hr'
      obtain ⟨rfl, rfl⟩ := ih hrest'
      exact ⟨rfl, rfl⟩

/-- **The loop ends**, after as many rounds as there are statements pending, and lists them. -/
theorem ends_iff : w.Ends n l ↔ n = w.pending.length ∧ l = w.found ++ w.pending := by
  constructor
  · exact fun h => h.unique (ends_of_pending rfl)
  · rintro ⟨rfl, rfl⟩
    exact ends_of_pending rfl

end Walk

/-! ## Addresses -/

/-- The statement at an address in a tree: each number leads to one of the children. -/
def Statement.at? (s : Statement) : List ℕ → Option Statement
  | [] => some s
  | i :: address => s.children[i]?.bind fun child => child.at? address

/-- The statement at an address in a block; the first number leads to one of its statements. -/
def at? (block : List Statement) : List ℕ → Option Statement
  | [] => none
  | i :: address => block[i]?.bind fun s => s.at? address

mutual

/-- The addresses in a tree, its own first. -/
def Statement.addresses : Statement → List (List ℕ)
  | .rule _ children => [] :: addressesAll 0 children
  | .declaration _ => [[]]
  | .mixin _ _ => [[]]
  | .extend _ _ => [[]]
  | .assign _ _ => [[]]

/-- The addresses in a block whose first statement has the given number. -/
def addressesAll (i : ℕ) : List Statement → List (List ℕ)
  | [] => []
  | s :: rest => s.addresses.map (i :: ·) ++ addressesAll (i + 1) rest

end

theorem Statement.addresses_eq (s : Statement) : s.addresses = [] :: addressesAll 0 s.children := by
  cases s <;> simp [Statement.addresses, Statement.children, addressesAll]

theorem mem_addressesAll_iff {i : ℕ} {block : List Statement} {address : List ℕ} :
    address ∈ addressesAll i block ↔
      ∃ j s rest, block[j]? = some s ∧ address = (i + j) :: rest ∧ rest ∈ s.addresses := by
  induction block generalizing i with
  | nil => simp [addressesAll]
  | cons s block ih =>
    rw [addressesAll, List.mem_append, List.mem_map, ih]
    constructor
    · rintro (⟨rest, hrest, rfl⟩ | ⟨j, t, rest, hj, rfl, hrest⟩)
      · exact ⟨0, s, rest, rfl, rfl, hrest⟩
      · exact ⟨j + 1, t, rest, hj, by rw [Nat.add_right_comm, Nat.add_assoc], hrest⟩
    · rintro ⟨j, t, rest, hj, rfl, hrest⟩
      cases j with
      | zero =>
        cases hj
        exact .inl ⟨rest, hrest, rfl⟩
      | succ j => exact .inr ⟨j, t, rest, hj, by rw [Nat.add_right_comm, Nat.add_assoc], hrest⟩

/-- The addresses in a block are those at which something stands, if they are for its trees. -/
theorem mem_addressesAll_zero {block : List Statement}
    (h : ∀ s ∈ block, ∀ address, address ∈ s.addresses ↔ (s.at? address).isSome)
    (address : List ℕ) : address ∈ addressesAll 0 block ↔ (at? block address).isSome := by
  rw [mem_addressesAll_iff]
  cases address with
  | nil => simp [at?]
  | cons i rest =>
    rw [at?]
    constructor
    · rintro ⟨j, s, rest', hj, he, hrest⟩
      rw [Nat.zero_add] at he
      cases he
      rw [hj, Option.bind_some]
      exact (h s (List.mem_of_getElem? hj) rest).1 hrest
    · intro hsome
      cases hi : block[i]? with
      | none => rw [hi] at hsome; cases hsome
      | some s =>
        rw [hi, Option.bind_some] at hsome
        exact ⟨i, s, rest, hi, by rw [Nat.zero_add], (h s (List.mem_of_getElem? hi) rest).2 hsome⟩

/-- The addresses in a tree are those at which something stands. -/
theorem Statement.mem_addresses_iff (s : Statement) :
    ∀ address, address ∈ s.addresses ↔ (s.at? address).isSome := by
  induction s using Statement.of_children with
  | step s ih =>
    intro address
    rw [addresses_eq, List.mem_cons]
    cases address with
    | nil => simp [Statement.at?]
    | cons i rest =>
      have hblock := mem_addressesAll_zero ih (i :: rest)
      simpa [Statement.at?, StyleBudget.at?] using hblock

/-- The addresses in a block come in lexicographic order, if they do in its trees. -/
theorem pairwise_addressesAll {block : List Statement}
    (h : ∀ s ∈ block, s.addresses.Pairwise (List.Lex (· < ·))) (i : ℕ) :
    (addressesAll i block).Pairwise (List.Lex (· < ·)) := by
  induction block generalizing i with
  | nil => simp [addressesAll]
  | cons s rest ih =>
    obtain ⟨hs, hrest⟩ := List.forall_mem_cons.1 h
    rw [addressesAll, List.pairwise_append]
    refine ⟨List.pairwise_map.2 (hs.imp .cons), ih hrest (i + 1), ?_⟩
    intro a ha b hb
    obtain ⟨_, _, rfl⟩ := List.mem_map.1 ha
    obtain ⟨j, _, _, _, rfl, _⟩ := mem_addressesAll_iff.1 hb
    exact .rel (by omega)

theorem Statement.pairwise_addresses (s : Statement) :
    s.addresses.Pairwise (List.Lex (· < ·)) := by
  induction s using Statement.of_children with
  | step s ih =>
    rw [addresses_eq, List.pairwise_cons]
    refine ⟨fun address h => ?_, pairwise_addressesAll ih 0⟩
    obtain ⟨_, _, _, _, rfl, _⟩ := mem_addressesAll_iff.1 h
    exact .nil

/-- The walk over a block is the block by its addresses, if this is so for its trees; `before`
    are the statements with lower numbers. -/
theorem map_at?_addressesAll {block : List Statement}
    (h : ∀ s ∈ block, s.addresses.map s.at? = s.walk.map some) (before : List Statement) :
    (addressesAll before.length block).map (at? (before ++ block)) = (walkAll block).map some := by
  induction block generalizing before with
  | nil => simp [addressesAll, walkAll]
  | cons s rest ih =>
    obtain ⟨hs, hrest⟩ := List.forall_mem_cons.1 h
    have ih := ih hrest (before ++ [s])
    rw [List.length_append, List.length_singleton, List.append_assoc, List.singleton_append] at ih
    have hfirst : (s.addresses.map (before.length :: ·)).map (at? (before ++ s :: rest)) =
        s.addresses.map s.at? := by
      rw [List.map_map]
      refine List.map_congr_left fun address _ => ?_
      simp [at?]
    rw [addressesAll, walkAll, List.map_append, List.map_append, hfirst, hs, ih]

theorem Statement.map_at?_addresses (s : Statement) : s.addresses.map s.at? = s.walk.map some := by
  induction s using Statement.of_children with
  | step s ih =>
    have hchildren : (addressesAll 0 s.children).map s.at? = (walkAll s.children).map some := by
      rw [← map_at?_addressesAll ih []]
      refine List.map_congr_left fun address h => ?_
      obtain ⟨_, _, _, _, rfl, _⟩ := mem_addressesAll_iff.1 h
      rfl
    rw [addresses_eq, walk_eq, List.map_cons, List.map_cons, hchildren]
    rfl

/-! ## Sheets -/

namespace Sheet

/-- The statement at an address of a sheet. -/
def at? (sheet : Sheet) (address : List ℕ) : Option Statement :=
  StyleBudget.at? sheet.statements address

/-- The addresses of a sheet. -/
def addresses (sheet : Sheet) : List (List ℕ) := addressesAll 0 sheet.statements

/-- **The walk is the recursive pre-order.**  The loop over the stack ends, after exactly as many
    rounds as there are statements, and exactly with the walk: each statement of a block followed
    by the walk over its children, in order.  Read by the addresses of a sheet, of which none is
    missing and none comes twice, the walk has them in lexicographic order, so that each statement
    stands in it exactly once.  And compilation takes the statements of the walk one after the
    other, calls of mixins among them, up to the first that fails. -/
theorem walk_preorder (sheet : Sheet) :
    (∀ n l, (Walk.start sheet).Ends n l ↔ n = sheet.walk.length ∧ l = sheet.walk) ∧
    sheet.walk = sheet.statements.flatMap Statement.walk ∧
    (∀ s : Statement, s.walk = s :: s.children.flatMap Statement.walk) ∧
    sheet.walk.map some = sheet.addresses.map sheet.at? ∧
    sheet.addresses.Pairwise (List.Lex (· < ·)) ∧
    (∀ address, address ∈ sheet.addresses ↔ (sheet.at? address).isSome) ∧
    sheet.walk = sheet.places.map Place.statement ∧
    ∀ p : Progress, compileAll [] p sheet.statements = p.takeAll sheet.places := by
  have hpending : (Walk.start sheet).pending = sheet.walk := by
    rw [Walk.pending, Walk.start, List.reverse_reverse, walk]
  refine ⟨fun n l => ?_, walkAll_eq_flatMap _, fun s => ?_, ?_, ?_, ?_,
    sheet.map_statement_places.symm, fun p => compileAll_eq_takeAll [] p sheet.statements⟩
  · rw [Walk.ends_iff, hpending]
    rfl
  · rw [s.walk_eq, walkAll_eq_flatMap]
  · exact (map_at?_addressesAll (fun s _ => s.map_at?_addresses) []).symm
  · exact pairwise_addressesAll (fun s _ => s.pairwise_addresses) 0
  · exact mem_addressesAll_zero fun s _ => s.mem_addresses_iff

end Sheet

end StyleBudget
