/-
  Which maps are settings.

  The limits are checked before the flags, and the entries of a map from first to last.  Both
  checks are runs that build something up and stop at the first entry that does not fit.

  * `Value.ListsLimits` and `Value.ListsFlags` say which values are accepted, `LimitsFault` and
    `FlagsFault` what is told of any other;
  * `foldlM_eq_error_iff`: a run stops at the first item that does not fit;
  * `limitsOfValue_eq_ok_iff` and `limitsOfValue_eq_error_iff` are what becomes of the limits,
    `Options.exists_ofValue_iff` and `Options.ofValue_eq_error_iff` what becomes of the flags;
  * `Settings.resolve_eq_checked` puts them together.
-/
import StyleBudget.Proofs.Precedence

namespace StyleBudget

/-! ## Values that are accepted -/

/-- The entries of a map; any other value has none. -/
def Value.entries : Value → List (Scalar × Value)
  | .map entries => entries
  | _ => []

/-- The value is neither absent nor a map. -/
def Value.Unlisted (v : Value) : Prop := v ≠ .null ∧ ∀ entries, v ≠ .map entries

/-- An integer of at least one. -/
def Value.IsLimit (v : Value) : Prop := ∃ n : Int, v = .scalar (.int n) ∧ 1 ≤ n

/-- A map that is not empty and gives a limit under every key. -/
def Value.ListsLimits (v : Value) : Prop :=
  ∃ entries, v = .map entries ∧ entries ≠ [] ∧ ∀ p ∈ entries, p.2.IsLimit

/-- The key is the name of a flag, with hyphens or underscores. -/
def Scalar.NamesFlag (key : Scalar) : Prop :=
  Flag.hyphenated key.keyText ∈ Flag.all.map Flag.name

instance (key : Scalar) : Decidable key.NamesFlag := inferInstanceAs (Decidable (_ ∈ _))

/-- The entry gives a flag a truth value. -/
def IsFlagEntry (p : Scalar × Value) : Prop := p.1.NamesFlag ∧ ∃ b, p.2 = .scalar (.bool b)

/-- Nothing at all, or a map that gives truth values to flags only. -/
def Value.ListsFlags (v : Value) : Prop :=
  v = .null ∨ ∃ entries, v = .map entries ∧ ∀ p ∈ entries, IsFlagEntry p

/-! ## Values that are refused -/

/-- What is told of a value that lists no limits: of a map it is the first entry that gives
    none. -/
inductive LimitsFault : Value → SettingsFault → Prop
  | absent : LimitsFault .null .noBudgets
  | unlisted {v} (hv : v.Unlisted) : LimitsFault v (.budgetsNotMap v)
  | empty : LimitsFault (.map []) .emptyBudgets
  | entry {before key value after} (hbefore : ∀ p ∈ before, p.2.IsLimit) (hv : ¬ value.IsLimit) :
      LimitsFault (.map (before ++ (key, value) :: after)) (.badLimit key.keyText value)

/-- What is told of an entry that gives no flag a truth value: its key before its value. -/
inductive EntryFault : Scalar × Value → SettingsFault → Prop
  | key {key value} (hk : ¬ key.NamesFlag) : EntryFault (key, value) (.unknownOption key.keyText)
  | value {key value} (hk : key.NamesFlag) (hv : ∀ b, value ≠ .scalar (.bool b)) :
      EntryFault (key, value) (.badOption key.keyText value)

/-- What is told of a value that lists no flags: of a map it is the first entry at fault. -/
inductive FlagsFault : Value → SettingsFault → Prop
  | unlisted {v} (hv : v.Unlisted) : FlagsFault v (.optionsNotMap v)
  | entry {before p after f} (hbefore : ∀ q ∈ before, IsFlagEntry q) (hp : EntryFault p f) :
      FlagsFault (.map (before ++ p :: after)) f

/-! ## Runs that stop at a fault -/

section

variable {σ α ε : Type} {step : σ → α → Except ε σ} {fits : α → Prop} {fault : α → ε → Prop}

/-- A run of steps of which each succeeds if its item fits succeeds if all items fit. -/
theorem exists_foldlM_iff (hok : ∀ s a, (∃ s', step s a = .ok s') ↔ fits a) {l : List α} {s : σ} :
    (∃ s', l.foldlM step s = .ok s') ↔ ∀ a ∈ l, fits a := by
  induction l generalizing s with
  | nil => exact ⟨fun _ => nofun, fun _ => ⟨s, rfl⟩⟩
  | cons a rest ih =>
    rw [List.foldlM_cons, List.forall_mem_cons, ← hok s a]
    cases ha : step s a with
    | error e => exact ⟨nofun, nofun⟩
    | ok t => exact ih.trans (and_iff_right ⟨t, rfl⟩).symm

/-- And otherwise it fails at the first item that does not fit, as the step fails there. -/
theorem foldlM_eq_error_iff (hok : ∀ s a, (∃ s', step s a = .ok s') ↔ fits a)
    (herror : ∀ s a e, step s a = .error e ↔ fault a e) {l : List α} {s : σ} {e : ε} :
    l.foldlM step s = .error e ↔
      ∃ before a after, l = before ++ a :: after ∧ (∀ b ∈ before, fits b) ∧ fault a e := by
  constructor
  · intro h
    induction l generalizing s with
    | nil => cases h
    | cons a rest ih =>
      rw [List.foldlM_cons] at h
      cases ha : step s a with
      | error f =>
        rw [ha] at h
        cases h
        exact ⟨[], a, rest, rfl, nofun, (herror s a e).1 ha⟩
      | ok t =>
        rw [ha] at h
        obtain ⟨before, b, after, rfl, hbefore, hb⟩ := ih h
        exact ⟨a :: before, b, after, rfl,
          List.forall_mem_cons.2 ⟨(hok s a).1 ⟨t, ha⟩, hbefore⟩, hb⟩
  · rintro ⟨before, a, after, rfl, hbefore, ha⟩
    obtain ⟨t, ht⟩ := (exists_foldlM_iff hok (s := s)).2 hbefore
    rw [List.foldlM_append, ht]
    exact congrArg (fun r => r >>= fun t => after.foldlM step t) ((herror t a e).2 ha)

end

/-! ## Limits -/

/-- The limit that a value gives. -/
def Value.limit : Value → Nat
  | .scalar (.int n) => n.toNat
  | _ => 0

theorem isLimit_int {n : Int} : (Value.scalar (.int n)).IsLimit ↔ 1 ≤ n :=
  ⟨fun ⟨_, h, hle⟩ => by cases h; exact hle, fun h => ⟨n, rfl, h⟩⟩

/-- An entry that gives a limit is put into the table; any other is told. -/
theorem setLimit_cases (t : Table String Nat) (key : Scalar) (v : Value) :
    (v.IsLimit ∧ setLimit t key v = .ok (t.insert key.keyText v.limit)) ∨
      (¬ v.IsLimit ∧ setLimit t key v = .error (.badLimit key.keyText v)) := by
  unfold setLimit
  split
  · rename_i n
    rw [isLimit_int]
    split
    · exact .inr ⟨by omega, rfl⟩
    · exact .inl ⟨by omega, rfl⟩
  · rename_i hn
    exact .inr ⟨fun ⟨n, h, _⟩ => hn n h, rfl⟩

theorem exists_setLimit_iff (t : Table String Nat) (p : Scalar × Value) :
    (∃ t', setLimit t p.1 p.2 = .ok t') ↔ p.2.IsLimit := by
  rcases setLimit_cases t p.1 p.2 with ⟨hv, h⟩ | ⟨hv, h⟩
  · rw [h]
    exact ⟨fun _ => hv, fun _ => ⟨_, rfl⟩⟩
  · rw [h]
    exact ⟨nofun, fun h => absurd h hv⟩

theorem setLimit_eq_error_iff (t : Table String Nat) (p : Scalar × Value) (f : SettingsFault) :
    setLimit t p.1 p.2 = .error f ↔ ¬ p.2.IsLimit ∧ f = .badLimit p.1.keyText p.2 := by
  rcases setLimit_cases t p.1 p.2 with ⟨hv, h⟩ | ⟨hv, h⟩
  · rw [h]
    exact ⟨nofun, fun h => absurd hv h.1⟩
  · rw [h, and_iff_right hv, Except.error.injEq, eq_comm]

theorem setLimits_eq_foldlM (t : Table String Nat) (entries : List (Scalar × Value)) :
    setLimits t entries = entries.foldlM (fun t p => setLimit t p.1 p.2) t := by
  induction entries generalizing t with
  | nil => rfl
  | cons p rest ih =>
    rw [setLimits, List.foldlM_cons]
    cases setLimit t p.1 p.2 with
    | error f => rfl
    | ok t => exact ih t

/-- The names and limits that the entries of a map give. -/
def limitPairs (entries : List (Scalar × Value)) : List (String × Nat) :=
  entries.map fun p => (p.1.keyText, p.2.limit)

/-- Entries that give limits are inserted one after the other. -/
theorem setLimits_of_limits {entries : List (Scalar × Value)} (h : ∀ p ∈ entries, p.2.IsLimit)
    (t : Table String Nat) :
    setLimits t entries = .ok ((limitPairs entries).foldl (fun t p => t.insert p.1 p.2) t) := by
  induction entries generalizing t with
  | nil => rfl
  | cons p rest ih =>
    obtain ⟨hp, hrest⟩ := List.forall_mem_cons.1 h
    rcases setLimit_cases t p.1 p.2 with ⟨-, hstep⟩ | ⟨hn, -⟩
    · rw [setLimits, hstep]
      exact ih hrest _
    · exact absurd hp hn

theorem exists_setLimits_iff {t : Table String Nat} {entries : List (Scalar × Value)} :
    (∃ t', setLimits t entries = .ok t') ↔ ∀ p ∈ entries, p.2.IsLimit := by
  rw [setLimits_eq_foldlM]
  exact exists_foldlM_iff exists_setLimit_iff

theorem limitsOfValue_map {entries : List (Scalar × Value)} (hne : entries ≠ []) :
    limitsOfValue (.map entries) = setLimits .empty entries := by
  cases entries with
  | nil => exact absurd rfl hne
  | cons p rest => rfl

/-- A value that lists limits gives the table of them, and no other value gives one. -/
theorem limitsOfValue_eq_ok_iff {v : Value} {t : Table String Nat} :
    limitsOfValue v = .ok t ↔ v.ListsLimits ∧ t = .ofList (limitPairs v.entries) := by
  constructor
  · intro h
    unfold limitsOfValue at h
    split at h
    · cases h
    · cases h
    · rename_i entries hne
      have hall := exists_setLimits_iff.1 ⟨t, h⟩
      rw [setLimits_of_limits hall] at h
      exact ⟨⟨entries, rfl, hne, hall⟩, (Except.ok.inj h).symm⟩
    · cases h
  · rintro ⟨⟨entries, rfl, hne, hall⟩, rfl⟩
    rw [limitsOfValue_map hne]
    exact setLimits_of_limits hall .empty

theorem limitsOfValue_eq_error_iff {v : Value} {f : SettingsFault} :
    limitsOfValue v = .error f ↔ LimitsFault v f := by
  constructor
  · intro h
    unfold limitsOfValue at h
    split at h
    · cases h
      exact .absent
    · cases h
      exact .empty
    · rw [setLimits_eq_foldlM] at h
      obtain ⟨before, p, after, rfl, hbefore, hp, rfl⟩ :=
        (foldlM_eq_error_iff exists_setLimit_iff setLimit_eq_error_iff).1 h
      exact .entry hbefore hp
    · rename_i hnull _ hmap
      cases h
      exact .unlisted ⟨hnull, hmap⟩
  · intro h
    cases h with
    | absent => rfl
    | empty => rfl
    | unlisted hv =>
      unfold limitsOfValue
      split
      · exact absurd rfl hv.1
      · exact absurd rfl (hv.2 _)
      · exact absurd rfl (hv.2 _)
      · rfl
    | entry hbefore hp =>
      rw [limitsOfValue_map (by simp), setLimits_eq_foldlM]
      exact (foldlM_eq_error_iff exists_setLimit_iff setLimit_eq_error_iff).2
        ⟨_, _, _, rfl, hbefore, hp, rfl⟩

/-! ## Names of flags -/

namespace Flag

theorem mem_all (flag : Flag) : flag ∈ all := by
  cases flag <;> decide

theorem name_inj {flag flag' : Flag} (h : flag.name = flag'.name) : flag = flag' := by
  revert h
  cases flag <;> cases flag' <;> decide

/-- A key names the flag whose name it is when its underscores are hyphens. -/
theorem namedBy_iff {flag : Flag} {key : Scalar} :
    flag.NamedBy key ↔ hyphenated key.keyText = flag.name := by
  rw [NamedBy, ofName?]
  constructor
  · intro h
    have hname := List.find?_some h
    exact (beq_iff_eq.1 hname).symm
  · intro h
    cases hf : all.find? fun flag => flag.name == hyphenated key.keyText with
    | none =>
      have hnone := List.find?_eq_none.1 hf flag flag.mem_all
      exact absurd (beq_iff_eq.2 h.symm) hnone
    | some flag' =>
      have hname := List.find?_some hf
      rw [name_inj ((beq_iff_eq.1 hname).trans h)]

end Flag

theorem Scalar.namesFlag_iff {key : Scalar} : key.NamesFlag ↔ ∃ flag : Flag, flag.NamedBy key := by
  simp only [NamesFlag, List.mem_map, Flag.namedBy_iff]
  exact ⟨fun ⟨flag, _, h⟩ => ⟨flag, h.symm⟩, fun ⟨flag, h⟩ => ⟨flag, flag.mem_all, h.symm⟩⟩

/-! ## Flags -/

namespace Options

/-- An entry that gives a flag a truth value sets it; any other is told. -/
theorem setEntry_cases (o : Options) (p : Scalar × Value) :
    (IsFlagEntry p ∧ (∀ f, ¬ EntryFault p f) ∧ ∃ o', o.setEntry p.1 p.2 = .ok o') ∨
      (¬ IsFlagEntry p ∧ ∃ f, EntryFault p f ∧ (∀ f', EntryFault p f' → f' = f) ∧
        o.setEntry p.1 p.2 = .error f) := by
  obtain ⟨key, value⟩ := p
  unfold setEntry
  split
  · rename_i hn
    have hk : ¬ key.NamesFlag := fun h => by
      obtain ⟨flag, hf⟩ := Scalar.namesFlag_iff.1 h
      cases hn.symm.trans hf
    refine .inr ⟨fun h => hk h.1, _, .key hk, ?_, rfl⟩
    rintro _ (_ | ⟨hk', -⟩)
    · rfl
    · exact absurd hk' hk
  · rename_i flag b hf hb
    have hk := Scalar.namesFlag_iff.2 ⟨flag, hf⟩
    refine .inl ⟨⟨hk, b, hb⟩, ?_, _, rfl⟩
    rintro _ (hk' | ⟨-, hv⟩)
    · exact hk' hk
    · exact hv b hb
  · rename_i flag hf hv
    have hk := Scalar.namesFlag_iff.2 ⟨flag, hf⟩
    refine .inr ⟨fun ⟨_, b, hb⟩ => hv b hb, _, .value hk hv, ?_, rfl⟩
    rintro _ (hk' | _)
    · exact absurd hk hk'
    · rfl

theorem exists_setEntry_iff (o : Options) (p : Scalar × Value) :
    (∃ o', o.setEntry p.1 p.2 = .ok o') ↔ IsFlagEntry p := by
  rcases o.setEntry_cases p with ⟨hp, -, h⟩ | ⟨hp, f, -, -, h⟩
  · exact ⟨fun _ => hp, fun _ => h⟩
  · rw [h]
    exact ⟨nofun, fun h => absurd h hp⟩

theorem setEntry_eq_error_iff (o : Options) (p : Scalar × Value) (f : SettingsFault) :
    o.setEntry p.1 p.2 = .error f ↔ EntryFault p f := by
  rcases o.setEntry_cases p with ⟨-, hn, o', h⟩ | ⟨-, f', hf, hone, h⟩
  · rw [h]
    exact ⟨nofun, fun h => absurd h (hn f)⟩
  · rw [h]
    exact ⟨fun he => Except.error.inj he ▸ hf, fun he => congrArg _ (hone f he).symm⟩

theorem setEntries_eq_foldlM (o : Options) (entries : List (Scalar × Value)) :
    o.setEntries entries = entries.foldlM (fun o p => o.setEntry p.1 p.2) o := by
  induction entries generalizing o with
  | nil => rfl
  | cons p rest ih =>
    rw [setEntries, List.foldlM_cons]
    cases o.setEntry p.1 p.2 with
    | error f => rfl
    | ok o => exact ih o

theorem ofValue_eq_setEntries {v : Value} (h : v.ListsFlags) :
    ofValue v = ({} : Options).setEntries v.entries := by
  rcases h with rfl | ⟨entries, rfl, -⟩
  · rfl
  · rfl

/-- A value that lists flags gives options, and no other value does. -/
theorem exists_ofValue_iff {v : Value} : (∃ o, ofValue v = .ok o) ↔ v.ListsFlags := by
  constructor
  · rintro ⟨o, h⟩
    unfold ofValue at h
    split at h
    · exact .inl rfl
    · rename_i entries
      rw [setEntries_eq_foldlM] at h
      exact .inr ⟨entries, rfl, (exists_foldlM_iff exists_setEntry_iff).1 ⟨o, h⟩⟩
    · cases h
  · rintro (rfl | ⟨entries, rfl, hall⟩)
    · exact ⟨{}, rfl⟩
    · obtain ⟨o, h⟩ := (exists_foldlM_iff exists_setEntry_iff (s := {})).2 hall
      exact ⟨o, (setEntries_eq_foldlM {} entries).trans h⟩

theorem ofValue_eq_error_iff {v : Value} {f : SettingsFault} :
    ofValue v = .error f ↔ FlagsFault v f := by
  constructor
  · intro h
    unfold ofValue at h
    split at h
    · cases h
    · rw [setEntries_eq_foldlM] at h
      obtain ⟨before, p, after, rfl, hbefore, hp⟩ :=
        (foldlM_eq_error_iff exists_setEntry_iff setEntry_eq_error_iff).1 h
      exact .entry hbefore hp
    · rename_i hnull hmap
      cases h
      exact .unlisted ⟨hnull, hmap⟩
  · intro h
    cases h with
    | unlisted hv =>
      unfold ofValue
      split
      · exact absurd rfl hv.1
      · exact absurd rfl (hv.2 _)
      · rfl
    | entry hbefore hp =>
      rw [ofValue, setEntries_eq_foldlM]
      exact (foldlM_eq_error_iff exists_setEntry_iff setEntry_eq_error_iff).2
        ⟨_, _, _, rfl, hbefore, hp⟩

end Options

/-! ## Settings -/

namespace Settings

/-- What accepted values make of a run: the limits by name, and the flags. -/
structure Made (budgets options : Value) (s : Settings) : Prop where
  /-- Of names that are written alike the first gives the place. -/
  names : s.budgets.keys = distinct (budgets.entries.map fun p => p.1.keyText)
  /-- And the last one gives the limit. -/
  limits : ∀ name limit, s.limit? name = some limit ↔
    ∃ key, (budgets.entries.filter fun p => p.1.keyText = name).getLast? =
      some (key, .scalar (.int limit))
  /-- The last entry for a flag, in either spelling, gives its value. -/
  given : ∀ (flag : Flag) (p : Scalar × Value),
    (options.entries.filter fun p => Flag.hyphenated p.1.keyText = flag.name).getLast? = some p →
      p.2 = .scalar (.bool (s.options.get flag))
  /-- A flag without an entry has its default. -/
  default : ∀ flag : Flag, (∀ p ∈ options.entries, Flag.hyphenated p.1.keyText ≠ flag.name) →
    s.options.get flag = ({} : Options).get flag

theorem limitPairs_last {entries : List (Scalar × Value)} (h : ∀ p ∈ entries, p.2.IsLimit)
    (name : String) (limit : Nat) :
    Table.lastValue? (limitPairs entries) name = some limit ↔
      ∃ key, (entries.filter fun p => p.1.keyText = name).getLast? =
        some (key, .scalar (.int limit)) := by
  have hfilter : (limitPairs entries).filter (fun p => p.1 = name) =
      limitPairs (entries.filter fun p => p.1.keyText = name) := by
    rw [limitPairs, List.filter_map]
    rfl
  rw [Table.lastValue?, hfilter, limitPairs, List.getLast?_map, Option.map_map]
  constructor
  · intro hlast
    obtain ⟨⟨key, value⟩, hp, rfl⟩ := Option.map_eq_some_iff.1 hlast
    obtain ⟨n, hn, hle⟩ := h _ (List.mem_filter.1 (List.mem_of_getLast? hp)).1
    obtain rfl : value = _ := hn
    refine ⟨key, hp.trans ?_⟩
    have hcast : ((n.toNat : Nat) : Int) = n := Int.toNat_of_nonneg (by omega)
    simp [Value.limit, hcast]
  · rintro ⟨key, hp⟩
    rw [hp]
    simp [Value.limit]

theorem made_of_resolve {budgets options : Value} {s : Settings}
    (h : resolve budgets options = .ok s) : Made budgets options s := by
  unfold resolve at h
  cases hb : limitsOfValue budgets with
  | error f => rw [hb] at h; cases h
  | ok limits =>
    cases ho : Options.ofValue options with
    | error f => rw [hb, ho] at h; cases h
    | ok flags =>
      rw [hb, ho] at h
      cases h
      obtain ⟨⟨entries, rfl, -, hall⟩, rfl⟩ := limitsOfValue_eq_ok_iff.1 hb
      have hset := Options.ofValue_eq_setEntries (Options.exists_ofValue_iff.1 ⟨flags, ho⟩)
      rw [ho] at hset
      constructor
      · rw [Table.keys_ofList, limitPairs, List.map_map]
        rfl
      · intro name limit
        rw [limit?, Table.get?_ofList]
        exact limitPairs_last hall name limit
      · intro flag p hp
        simp only [← Flag.namedBy_iff] at hp
        exact Options.holds_of_setEntries hset.symm hp
      · intro flag hn
        simp only [ne_eq, ← Flag.namedBy_iff] at hn
        exact Options.get_setEntries_of_unnamed hset.symm hn

end Settings

/-- **Exactly the valid maps give settings.**  Two values give settings if the first lists limits
    and the second lists flags, and otherwise a fault is told: that of the limits, and if there
    is none that of the flags, of a map always the first entry at fault.  The settings hold the
    limits under the texts of their keys, of keys with the same text the first for the place and
    the last for the limit, and each flag as the last entry for it has it in either spelling, or
    as it is by default. -/
theorem Settings.resolve_eq_checked (budgets options : Value) :
    ((∃ s, resolve budgets options = .ok s) ↔ budgets.ListsLimits ∧ options.ListsFlags) ∧
    (∀ f, resolve budgets options = .error f ↔
      LimitsFault budgets f ∨ (budgets.ListsLimits ∧ FlagsFault options f)) ∧
    ∀ s, resolve budgets options = .ok s → Made budgets options s := by
  refine ⟨?_, fun f => ?_, fun s => made_of_resolve⟩
  · rw [← Options.exists_ofValue_iff]
    unfold resolve
    cases hb : limitsOfValue budgets with
    | error f =>
      refine ⟨nofun, fun h => ?_⟩
      cases hb.symm.trans (limitsOfValue_eq_ok_iff.2 ⟨h.1, rfl⟩)
    | ok limits =>
      rw [and_iff_right (limitsOfValue_eq_ok_iff.1 hb).1]
      cases Options.ofValue options with
      | error f => exact ⟨nofun, nofun⟩
      | ok flags => exact ⟨fun _ => ⟨flags, rfl⟩, fun _ => ⟨⟨limits, flags⟩, rfl⟩⟩
  · rw [← limitsOfValue_eq_error_iff, ← Options.ofValue_eq_error_iff]
    unfold resolve
    cases hb : limitsOfValue budgets with
    | error f' =>
      have hn : ¬ budgets.ListsLimits := fun h => by
        cases hb.symm.trans (limitsOfValue_eq_ok_iff.2 ⟨h, rfl⟩)
      simp [hn]
    | ok limits =>
      have hlists := (limitsOfValue_eq_ok_iff.1 hb).1
      cases Options.ofValue options <;> simp [hlists]

/-- Limits of which two keys are written alike, and flags of which one is given in both
    spellings. -/
def collidingLimits : List (Scalar × Value) :=
  [(.int 1, .scalar (.int 3)), (.text "total", .scalar (.int 2)), (.text "1", .scalar (.int 5))]

def respelledFlags : List (Scalar × Value) :=
  [(.text "warn_over", .scalar (.bool false)), (.text "strict", .scalar (.bool true)),
    (.text "warn-over", .scalar (.bool true))]

theorem resolve_collidingLimits :
    (∃ s, Settings.resolve (.map collidingLimits) (.map respelledFlags) = .ok s ∧
      s.budgets.keys = ["1", "total"] ∧ s.limit? "1" = some 5 ∧
      s.options.get .warnOver = true ∧ s.options.get .showAll = true) ∧
    Settings.resolve (.map (collidingLimits ++ [(.text "a", .scalar (.bool true)),
        (.text "b", .scalar (.int 0))])) (.scalar (.text "none")) =
      .error (.badLimit "a" (.scalar (.bool true))) := by
  have hlimits : ∀ p ∈ collidingLimits, p.2.IsLimit := by
    simp [collidingLimits, isLimit_int]
  have hflags : ∀ p ∈ respelledFlags, IsFlagEntry p := by
    simp only [respelledFlags, List.forall_mem_cons]
    exact ⟨⟨by decide +kernel, _, rfl⟩, ⟨by decide +kernel, _, rfl⟩, ⟨by decide +kernel, _, rfl⟩,
      nofun⟩
  obtain ⟨hok, -, hmade⟩ := Settings.resolve_eq_checked (.map collidingLimits) (.map respelledFlags)
  obtain ⟨s, hs⟩ := hok.2 ⟨⟨_, rfl, by simp [collidingLimits], hlimits⟩, .inr ⟨_, rfl, hflags⟩⟩
  obtain ⟨hnames, hlimit, hgiven, hdefault⟩ := hmade s hs
  refine ⟨⟨s, hs, hnames, (hlimit "1" 5).2 ⟨.text "1", by cbv⟩, ?_, ?_⟩, ?_⟩
  · have hlast := hgiven .warnOver (.text "warn-over", .scalar (.bool true)) (by cbv)
    simpa using hlast.symm
  · exact hdefault .showAll (by decide +kernel)
  · refine ((Settings.resolve_eq_checked _ _).2.1 _).2 (.inl (.entry hlimits ?_))
    rintro ⟨_, ⟨⟩, -⟩

end StyleBudget
