/-
  Flags that a sheet sets and its caller sets again.

  The map of the caller is put on top of the map of the sheet key by key, as the keys
  are written, and only the result is read as flags.  Most flags have two spellings,
  so both may stand in the result, and there the last one counts, whoever gave it.

  * `Table.onTop` is a table with another on top of it: `keys_onTop` is its order,
    `get?_onTop` its values;
  * `Flag.spellings` are the keys of a map that name a flag, and the last of them holds
    the value of the flag (`Options.holds_of_ofTable`);
  * `Flag.Settled` is what two maps make of a flag, `Options.settled_onTop` that the
    reading of both makes it so;
  * `Sheet.ledger_settled` is the result for all sheets and callers, and
    `sheet_over_caller` a sheet whose value stands against its caller's.
-/
import Mathlib
import StyleBudget.Compile

namespace StyleBudget

/-! ## Tables on top of tables -/

namespace Table

variable {κ α : Type} [DecidableEq κ]

/-- A table with the entries of another put on top, from first to last. -/
def onTop (base top : Table κ α) : Table κ α :=
  top.entries.foldl (fun t p => t.insert p.1 p.2) base

/-- The keys of the lower table keep their places. -/
theorem keys_onTop (base top : Table κ α) :
    (base.onTop top).keys = base.keys ++ top.keys.filter fun k => k ∉ base.keys := by
  have hadd := foldl_addNew_append base.keys [] top.keys
  rw [List.append_nil] at hadd
  have hnew : (top.keys.filter fun k => k ∉ base.keys).Nodup := top.nodup.filter _
  rw [onTop, keys_foldl_insert]
  exact hadd.trans (congrArg (base.keys ++ ·) (distinct_of_nodup hnew))

/-- The values are those of the upper table, if it has one for the key. -/
theorem get?_onTop (base top : Table κ α) (k : κ) :
    (base.onTop top).get? k = (top.get? k).or (base.get? k) := by
  suffices h : ∀ entries : List (κ × α), (entries.map Prod.fst).Nodup → ∀ t : Table κ α,
      (entries.foldl (fun t p => t.insert p.1 p.2) t).get? k = (entries.lookup k).or (t.get? k)
    from h top.entries top.nodup base
  intro entries
  induction entries with
  | nil => intro _ t; rfl
  | cons p rest ih =>
    intro hn t
    rw [List.map_cons, List.nodup_cons] at hn
    rw [List.foldl_cons, ih hn.2, get?_insert, lookup_pair_cons]
    by_cases hk : k = p.1
    · have hrest : rest.lookup k = none := by
        refine List.lookup_eq_none_iff.2 fun q hq => bne_iff_ne.2 fun he => ?_
        exact hn.1 (hk ▸ he ▸ List.mem_map_of_mem hq)
      rw [if_pos hk, if_pos hk, hrest]; rfl
    · rw [if_neg hk, if_neg hk]

theorem mem_of_mem_onTop {base top : Table κ α} {p : κ × α} (h : p ∈ (base.onTop top).entries) :
    p ∈ top.entries ∨ p ∈ base.entries := by
  obtain ⟨k, a⟩ := p
  rw [mem_entries_iff, get?_onTop, Option.or_eq_some_iff] at h
  exact h.imp mem_entries_iff.2 fun h => mem_entries_iff.2 h.2

end Table

theorem entries_onTop (base top : Table Scalar Value) :
    (base.onTop top).entries = overlayEntries base.entries top.entries := by
  rw [Table.onTop, overlayEntries]
  generalize top.entries = entries
  induction entries generalizing base with
  | nil => rfl
  | cons p rest ih => exact ih (base.insert p.1 p.2)

/-! ## The spellings of a flag -/

namespace Flag

/-- The key is a spelling of the flag. -/
def NamedBy (flag : Flag) (key : Scalar) : Prop := ofName? key.keyText = some flag

instance (flag : Flag) (key : Scalar) : Decidable (flag.NamedBy key) :=
  inferInstanceAs (Decidable (_ = _))

/-- The keys of a map that are spellings of the flag, in their order. -/
def spellings (flag : Flag) (t : Table Scalar Value) : List Scalar := t.keys.filter flag.NamedBy

theorem spellings_eq_map (flag : Flag) (t : Table Scalar Value) :
    flag.spellings t = (t.entries.filter fun p => flag.NamedBy p.1).map Prod.fst := by
  rw [spellings, Table.keys, List.filter_map]; rfl

theorem spellings_onTop (flag : Flag) (base top : Table Scalar Value) :
    flag.spellings (base.onTop top) =
      flag.spellings base ++ (flag.spellings top).filter fun k => k ∉ base.keys := by
  simp only [spellings, Table.keys_onTop, List.filter_append, List.filter_filter, Bool.and_comm]

end Flag

/-! ## The value of a flag -/

/-- The entry sets a flag. -/
def SetsFlag (p : Scalar × Value) : Prop :=
  ∃ flag b, Flag.NamedBy flag p.1 ∧ p.2 = .scalar (.bool b)

namespace Options

theorem setEntry_eq_ok_iff {o o' : Options} {key : Scalar} {value : Value} :
    o.setEntry key value = .ok o' ↔
      ∃ flag b, Flag.NamedBy flag key ∧ value = .scalar (.bool b) ∧ o' = o.set flag b := by
  constructor
  · intro h
    unfold setEntry at h
    split at h
    · cases h
    · rename_i flag b hf
      cases h
      exact ⟨flag, b, hf, rfl, rfl⟩
    · cases h
  · rintro ⟨flag, b, hf, rfl, rfl⟩
    have hname : Flag.ofName? key.keyText = some flag := hf
    unfold setEntry
    rw [hname]

theorem setEntries_cons_eq_ok_iff {o o' : Options} {p : Scalar × Value}
    {rest : List (Scalar × Value)} :
    o.setEntries (p :: rest) = .ok o' ↔
      ∃ flag b, Flag.NamedBy flag p.1 ∧ p.2 = .scalar (.bool b) ∧
        (o.set flag b).setEntries rest = .ok o' := by
  rw [setEntries]
  constructor
  · intro h
    cases hp : o.setEntry p.1 p.2 with
    | error e => rw [hp] at h; cases h
    | ok o₁ =>
      rw [hp] at h
      obtain ⟨flag, b, hf, hb, rfl⟩ := setEntry_eq_ok_iff.1 hp
      exact ⟨flag, b, hf, hb, h⟩
  · rintro ⟨flag, b, hf, hb, h⟩
    rw [setEntry_eq_ok_iff.2 ⟨flag, b, hf, hb, rfl⟩]
    exact h

/-- A map gives options if and only if each of its entries sets a flag. -/
theorem exists_setEntries_iff {entries : List (Scalar × Value)} {o : Options} :
    (∃ o', o.setEntries entries = .ok o') ↔ ∀ p ∈ entries, SetsFlag p := by
  induction entries generalizing o with
  | nil => exact ⟨fun _ p hp => (by cases hp), fun _ => ⟨o, rfl⟩⟩
  | cons p rest ih =>
    rw [List.forall_mem_cons]
    constructor
    · rintro ⟨o', h⟩
      obtain ⟨flag, b, hf, hb, h⟩ := setEntries_cons_eq_ok_iff.1 h
      exact ⟨⟨flag, b, hf, hb⟩, ih.1 ⟨o', h⟩⟩
    · rintro ⟨⟨flag, b, hf, hb⟩, hrest⟩
      obtain ⟨o', h⟩ := ih.2 hrest
      exact ⟨o', setEntries_cons_eq_ok_iff.2 ⟨flag, b, hf, hb, h⟩⟩

/-- Entries that do not name a flag do not change it. -/
theorem get_setEntries_of_unnamed {flag : Flag} {entries : List (Scalar × Value)} {o o' : Options}
    (h : o.setEntries entries = .ok o') (hn : ∀ p ∈ entries, ¬ flag.NamedBy p.1) :
    o'.get flag = o.get flag := by
  induction entries generalizing o with
  | nil => cases h; rfl
  | cons p rest ih =>
    rw [List.forall_mem_cons] at hn
    obtain ⟨flag', b, hf, -, h⟩ := setEntries_cons_eq_ok_iff.1 h
    have hne : flag ≠ flag' := fun he => hn.1 (he ▸ hf)
    rw [ih h hn.2, get_set, if_neg hne]

/-- The last entry that names a flag holds its value. -/
theorem holds_of_setEntries {flag : Flag} {entries : List (Scalar × Value)} {o o' : Options}
    {p : Scalar × Value} (h : o.setEntries entries = .ok o')
    (hp : (entries.filter fun p => flag.NamedBy p.1).getLast? = some p) :
    p.2 = .scalar (.bool (o'.get flag)) := by
  induction entries generalizing o with
  | nil => cases hp
  | cons q rest ih =>
    obtain ⟨flag', b, hf, hb, h⟩ := setEntries_cons_eq_ok_iff.1 h
    by_cases hrest : (rest.filter fun p => flag.NamedBy p.1) = []
    · by_cases hq : flag.NamedBy q.1
      · rw [List.filter_cons_of_pos (by simpa using hq), hrest] at hp
        obtain rfl : q = p := Option.some.inj hp
        obtain rfl : flag' = flag := Option.some.inj (hf.symm.trans hq)
        have hn : ∀ p ∈ rest, ¬ flag'.NamedBy p.1 := by simpa using List.filter_eq_nil_iff.1 hrest
        rw [get_setEntries_of_unnamed h hn, get_set, if_pos rfl, hb]
      · rw [List.filter_cons_of_neg (by simpa using hq), hrest] at hp
        cases hp
    · refine ih h ?_
      by_cases hq : flag.NamedBy q.1
      · rw [List.filter_cons_of_pos (by simpa using hq), List.getLast?_cons_of_ne_nil hrest] at hp
        exact hp
      · rwa [List.filter_cons_of_neg (by simpa using hq)] at hp

variable {flag : Flag} {t : Table Scalar Value} {o : Options}

/-- A flag that a map does not name has its default. -/
theorem get_of_ofTable (h : ofValue (.map t.entries) = .ok o) (hn : flag.spellings t = []) :
    o.get flag = ({} : Options).get flag := by
  rw [Flag.spellings_eq_map, List.map_eq_nil_iff, List.filter_eq_nil_iff] at hn
  exact get_setEntries_of_unnamed h (by simpa using hn)

/-- The last spelling of a flag holds its value. -/
theorem holds_of_ofTable (h : ofValue (.map t.entries) = .ok o) {key : Scalar}
    (hl : (flag.spellings t).getLast? = some key) :
    t.get? key = some (.scalar (.bool (o.get flag))) := by
  rw [Flag.spellings_eq_map, List.getLast?_map, Option.map_eq_some_iff] at hl
  obtain ⟨⟨key, value⟩, hp, rfl⟩ := hl
  obtain rfl : value = _ := holds_of_setEntries h hp
  exact Table.mem_entries_iff.1 (List.mem_filter.1 (List.mem_of_getLast? hp)).1

end Options

/-! ## The flags of two maps -/

namespace Flag

variable {flag : Flag} {base top : Table Scalar Value}

theorem mem_spellings_iff {t : Table Scalar Value} {key : Scalar} :
    key ∈ flag.spellings t ↔ key ∈ t.keys ∧ flag.NamedBy key := by
  rw [spellings, List.mem_filter, decide_eq_true_iff]

theorem get?_of_spellings_eq_nil {t : Table Scalar Value} {key : Scalar}
    (h : flag.spellings t = []) (hnamed : flag.NamedBy key) : t.get? key = none := by
  rw [← Option.not_isSome_iff_eq_none, ← Table.mem_keys_iff]
  intro hk
  have hmem := mem_spellings_iff.2 ⟨hk, hnamed⟩
  rw [h] at hmem
  cases hmem

/-- The last spelling of the upper map stays last if the lower one does not name the
    flag, and also if each of them names it only once. -/
theorem getLast?_spellings_onTop (htop : flag.spellings top ≠ [])
    (h : flag.spellings base = [] ∨
      ((flag.spellings base).length ≤ 1 ∧ (flag.spellings top).length ≤ 1)) :
    (flag.spellings (base.onTop top)).getLast? = (flag.spellings top).getLast? := by
  have hold : ∀ key ∈ flag.spellings top, key ∈ base.keys → key ∈ flag.spellings base :=
    fun key hk hb => mem_spellings_iff.2 ⟨hb, (mem_spellings_iff.1 hk).2⟩
  rw [spellings_onTop]
  rcases h with hbase | ⟨hbase, hone⟩
  · have hnew : ∀ key ∈ flag.spellings top, key ∉ base.keys := fun key hk hb => by
      have := hold key hk hb
      rw [hbase] at this
      cases this
    rw [hbase, List.nil_append, List.filter_eq_self.2 (by simpa using hnew)]
  · obtain ⟨key, hkey⟩ : ∃ key, flag.spellings top = [key] :=
      List.length_eq_one_iff.1 (by have := List.length_pos_iff.2 htop; omega)
    rw [hkey] at hold ⊢
    by_cases hb : key ∈ base.keys
    · have hmem := hold key (List.mem_singleton_self key) hb
      obtain ⟨key', hkey'⟩ : ∃ key', flag.spellings base = [key'] :=
        List.length_eq_one_iff.1 (by have := List.length_pos_of_mem hmem; omega)
      rw [hkey', List.mem_singleton] at hmem
      rw [hkey', List.filter_cons_of_neg (by simpa using hb), hmem]; rfl
    · rw [List.filter_cons_of_pos (by simpa using hb), List.filter_nil, List.getLast?_concat]; rfl

/-- What the map of a sheet and the map of its caller on top of it make of a flag,
    beside the options that each of them gives alone. -/
structure Settled (flag : Flag) (base top : Table Scalar Value) (own given options : Options) :
    Prop where
  /-- A flag that neither map names has its default. -/
  default : flag.spellings base = [] → flag.spellings top = [] →
    options.get flag = ({} : Options).get flag
  /-- A flag that the caller does not name is the sheet's. -/
  own : flag.spellings top = [] → options.get flag = own.get flag
  /-- A flag that the caller names is the caller's if the sheet does not name it, and
      also if both name it in one spelling only, be it the same one or not. -/
  given : flag.spellings top ≠ [] →
    (flag.spellings base = [] ∨
      ((flag.spellings base).length ≤ 1 ∧ (flag.spellings top).length ≤ 1)) →
    options.get flag = given.get flag
  /-- In any case the last spelling counts, those of the sheet standing before the new
      ones of the caller, with the value of the caller if it has that spelling. -/
  last : ∀ key, (flag.spellings base ++
      (flag.spellings top).filter fun k => k ∉ base.keys).getLast? = some key →
    (top.get? key).or (base.get? key) = some (.scalar (.bool (options.get flag)))

end Flag

namespace Options

variable {base top : Table Scalar Value} {own given options : Options}

/-- Two maps that give options alone also give options together. -/
theorem exists_ofTable_onTop (hown : ofValue (.map base.entries) = .ok own)
    (hgiven : ofValue (.map top.entries) = .ok given) :
    ∃ options, ofValue (.map (base.onTop top).entries) = .ok options :=
  exists_setEntries_iff.2 fun p hp => (Table.mem_of_mem_onTop hp).elim
    (exists_setEntries_iff.1 ⟨given, hgiven⟩ p) (exists_setEntries_iff.1 ⟨own, hown⟩ p)

theorem eq_of_held {held : Option Value} {b b' : Bool} (h : held = some (.scalar (.bool b)))
    (h' : held = some (.scalar (.bool b'))) : b = b' := by
  cases h.symm.trans h'; rfl

theorem settled_onTop (hown : ofValue (.map base.entries) = .ok own)
    (hgiven : ofValue (.map top.entries) = .ok given)
    (h : ofValue (.map (base.onTop top).entries) = .ok options) (flag : Flag) :
    flag.Settled base top own given options where
  default hb ht := get_of_ofTable h (by rw [Flag.spellings_onTop, hb, ht]; rfl)
  own ht := by
    have hs : flag.spellings (base.onTop top) = flag.spellings base := by
      rw [Flag.spellings_onTop, ht, List.filter_nil, List.append_nil]
    cases hl : (flag.spellings base).getLast? with
    | none =>
      have hb := List.getLast?_eq_none_iff.1 hl
      rw [get_of_ofTable h (hs.trans hb), get_of_ofTable hown hb]
    | some key =>
      have hnamed := (Flag.mem_spellings_iff.1 (List.mem_of_getLast? hl)).2
      have hheld := holds_of_ofTable h ((congrArg List.getLast? hs).trans hl)
      rw [Table.get?_onTop, Flag.get?_of_spellings_eq_nil ht hnamed, Option.none_or] at hheld
      exact eq_of_held hheld (holds_of_ofTable hown hl)
  given ht hone := by
    obtain ⟨key, hl⟩ : ∃ key, (flag.spellings top).getLast? = some key :=
      ⟨_, List.getLast?_eq_some_getLast ht⟩
    have hheld := holds_of_ofTable h ((Flag.getLast?_spellings_onTop ht hone).trans hl)
    have hgheld := holds_of_ofTable hgiven hl
    rw [Table.get?_onTop, hgheld, Option.some_or] at hheld
    exact eq_of_held hheld rfl
  last key hl := by
    rw [← Flag.spellings_onTop] at hl
    rw [← Table.get?_onTop]
    exact holds_of_ofTable h hl

end Options

/-! ## The flags of a run -/

/-- **If the map of a sheet and the map of its caller both give options, so do they
    together, and a run starts with them.  A flag that the caller does not name is as
    the sheet has it, and one that neither names has its default.  A flag that the
    caller names is as the caller has it if the sheet does not name it, or if neither of
    them spells it in two ways; else the spelling that comes last counts.** -/
theorem Sheet.ledger_settled {sheet : Sheet} {budgets : Option (List (Scalar × Value))}
    {base top : Table Scalar Value} {own given : Options} {limits : Table String Nat}
    (htracks : sheet.tracks = true)
    (hlimits : limitsOfValue (overlay ((sheet.assignments.get? "ext-budget").getD .null) budgets) =
      .ok limits)
    (hbase : sheet.assignments.get? "ext-options" = some (.map base.entries))
    (hown : Options.ofValue (.map base.entries) = .ok own)
    (hgiven : Options.ofValue (.map top.entries) = .ok given) :
    ∃ options, sheet.ledger budgets (some top.entries) = .ok (some (.start ⟨limits, options⟩)) ∧
      ∀ flag : Flag, flag.Settled base top own given options := by
  obtain ⟨options, h⟩ := Options.exists_ofTable_onTop hown hgiven
  refine ⟨options, ?_, Options.settled_onTop hown hgiven h⟩
  rw [entries_onTop] at h
  have hover : overlay ((sheet.assignments.get? "ext-options").getD .null) (some top.entries) =
      .map (overlayEntries base.entries top.entries) := by rw [hbase]; rfl
  have hsettings : sheet.settings budgets (some top.entries) = .ok ⟨limits, options⟩ := by
    simp only [Sheet.settings, Settings.resolve, hlimits, hover, h]
  rw [Sheet.ledger, if_pos htracks, hsettings]; rfl

/-- The flags of a sheet, and those of a caller who spells one of them in the other
    way and names a third one. -/
def sheetFlags : Table Scalar Value where
  entries := [(.text "warn_over", .scalar (.bool false)), (.text "strict", .scalar (.bool true))]

def callerFlags : Table Scalar Value where
  entries := [(.text "warn-over", .scalar (.bool true)), (.text "show-all", .scalar (.bool false))]

/-- A sheet that counts, with flags of its own. -/
def flaggedSheet : Sheet where
  statements :=
    [.assign "ext-budget" (.map [(.text "total", .scalar (.int 2))]),
      .assign "ext-options" (.map sheetFlags.entries), .rule [".a"] [.mixin "ext-debug" []]]

theorem ledger_settled_flaggedSheet :
    ∃ limits options,
      flaggedSheet.ledger none (some callerFlags.entries) = .ok (some (.start ⟨limits, options⟩)) ∧
      options.strict = true ∧ options.warnOver = true ∧ options.showAll = false ∧
      options.overOnly = true := by
  have hlimits : limitsOfValue
      (overlay ((flaggedSheet.assignments.get? "ext-budget").getD .null) none) =
      .ok (Table.empty.insert "total" 2) := rfl
  have hbase : flaggedSheet.assignments.get? "ext-options" = some (.map sheetFlags.entries) := rfl
  have hgiven : Options.ofValue (.map callerFlags.entries) = .ok { showAll := false } := rfl
  obtain ⟨options, hledger, hsettled⟩ :=
    Sheet.ledger_settled (by decide +kernel) hlimits hbase rfl hgiven
  exact ⟨_, options, hledger, (hsettled .strict).own (by decide +kernel),
    (hsettled .warnOver).given (by decide +kernel) (.inr (by decide +kernel)),
    (hsettled .showAll).given (by decide +kernel) (.inl (by decide +kernel)),
    (hsettled .overOnly).default (by decide +kernel) (by decide +kernel)⟩

/-- The text of a sheet that spells one flag in both ways. -/
def spelledTwiceSource : String :=
  "$ext-budget: (total: 1);\n$ext-options: (warn-over: true, warn_over: true);\n" ++
    "@include ext-debug;"

/-- The map of the flags in that sheet, and a map of a caller who wants the other value. -/
def spelledTwice : Table Scalar Value where
  entries := [(.text "warn-over", .scalar (.bool true)), (.text "warn_over", .scalar (.bool true))]

def spelledOnce : Table Scalar Value where
  entries := [(.text "warn-over", .scalar (.bool false))]

def spelledTwiceSheet : Sheet where
  statements :=
    [.assign "ext-budget" (.map [(.text "total", .scalar (.int 1))]),
      .assign "ext-options" (.map spelledTwice.entries), .mixin "ext-debug" []]

/-- The caller names the flag and the value of the sheet counts: the second spelling of
    the sheet stands after the one that the caller has set. -/
theorem sheet_over_caller :
    Sheet.read spelledTwiceSource.toList = .ok spelledTwiceSheet ∧
      spelledTwiceSheet.assignments.get? "ext-options" = some (.map spelledTwice.entries) ∧
      Options.ofValue (.map spelledTwice.entries) = .ok { warnOver := true } ∧
      Options.ofValue (.map spelledOnce.entries) = .ok { warnOver := false } ∧
      Flag.warnOver.spellings spelledOnce = [.text "warn-over"] ∧
      spelledTwiceSheet.ledger none (some spelledOnce.entries) =
        .ok (some (.start ⟨Table.empty.insert "total" 1, { warnOver := true }⟩)) := by
  have hread : Sheet.read spelledTwiceSource.toList = .ok spelledTwiceSheet := by cbv
  exact ⟨hread, rfl, rfl, rfl, rfl, rfl⟩

end StyleBudget
