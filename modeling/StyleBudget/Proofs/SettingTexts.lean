/-
  Settings on the command line say what they write, and nothing else is accepted.

  * `WritesPair`: a text writes a name and a value, with white space around both;
  * a `SettingKind` has the spellings of its values; `Writes` are the texts of its settings,
    `Refuses` the texts that write none, with the fault that is told;
  * `readPair?_eq_some_iff` and `readPair?_eq_none_iff` are about the pair in a text,
    `readSetting_eq_ok_iff` and `readSetting_eq_error_iff` about the setting;
  * `mapM_eq_ok_iff` and `mapM_eq_error_iff` go from one text to a list of them, and
    `readSettings_decodes` says what is read of the list.
-/
import StyleBudget.CommandLine.Setting
import StyleBudget.Proofs.Numerals

namespace StyleBudget

variable {α : Type}

/-! ## Texts of settings -/

/-- The text writes a name and a value: an equals sign between them, and white space around
    each. -/
def WritesPair (name value text : String) : Prop :=
  ∃ before behind ahead after : List Char,
    (∀ c ∈ before ++ behind ++ ahead ++ after, isBlank c = true) ∧
    text.toList = (before ++ name.toList ++ behind) ++ '=' :: (ahead ++ value.toList ++ after)

/-- A name that can be told from what stands around it. -/
structure IsSettingName (name : String) : Prop where
  ne_empty : name ≠ ""
  noSign : '=' ∉ name.toList
  trimmed : trimText name = name

/-- An option, the spellings of its values, and what it tells of a name with another text. -/
structure SettingKind (α : Type) where
  option : String
  Spells : String → α → Prop
  complaint : String → String → String → SettingFault

def limitKind : SettingKind Int where
  option := "--budget"
  Spells text n := IntegerText text.toList n
  complaint := .noInteger

/-- The words for a truth value. -/
def truthWords : Bool → List String
  | true => ["true", "1", "yes", "on"]
  | false => ["false", "0", "no", "off"]

def flagKind : SettingKind Bool where
  option := "--option"
  Spells text b := ∃ word ∈ truthWords b, text.toList.map Char.toLower = word.toList
  complaint := .noTruthValue

namespace SettingKind

/-- The text writes a setting. -/
def Writes (kind : SettingKind α) (text : String) (setting : String × α) : Prop :=
  IsSettingName setting.1 ∧
    ∃ value, kind.Spells value setting.2 ∧ WritesPair setting.1 value text

/-- The text writes no setting, and this is told of it. -/
inductive Refuses (kind : SettingKind α) (text : String) : SettingFault → Prop
  | noSign (h : '=' ∉ text.toList) : Refuses kind text (.noPair kind.option text)
  | blankName {front rest : List Char} (h : text.toList = front ++ '=' :: rest)
      (hblank : ∀ c ∈ front, isBlank c = true) : Refuses kind text (.noPair kind.option text)
  | noValue {name value : String} (hname : IsSettingName name) (hvalue : trimText value = value)
      (h : WritesPair name value text) (hno : ∀ a, ¬ kind.Spells value a) :
      Refuses kind text (kind.complaint kind.option name value)

/-- A reader of texts finds the settings that they write, and tells of the first text that
    writes none. -/
structure Decodes (kind : SettingKind α)
    (read : List String → Except SettingFault (Option (Table String α))) : Prop where
  table {texts : List String} {settings : List (String × α)} (hne : settings ≠ [])
    (h : List.Forall₂ kind.Writes texts settings) :
    ∃ t, read texts = .ok (some t) ∧ t.keys = distinct (settings.map Prod.fst) ∧
      ∀ name, t.get? name = Table.lastValue? settings name
  fails_iff {texts : List String} :
    (∃ fault, read texts = .error fault) ↔ ∃ text ∈ texts, ∃ fault, kind.Refuses text fault
  first_iff {texts : List String} {fault : SettingFault} :
    read texts = .error fault ↔ ∃ before text after, texts = before ++ text :: after ∧
      (∀ t ∈ before, ∀ f, ¬ kind.Refuses t f) ∧ kind.Refuses text fault

end SettingKind

/-! ## The pair in a text -/

section

variable {name value text : String}

theorem trimText_eq_iff : trimText name = value ↔ trim name.toList = value.toList :=
  String.ofList_eq

theorem WritesPair.readPair?_eq (h : WritesPair name value text) (hname : IsSettingName name) :
    readPair? text = some (name, trimText value) := by
  obtain ⟨before, behind, ahead, after, hblank, htext⟩ := h
  simp only [List.forall_mem_append] at hblank
  obtain ⟨⟨⟨hbefore, hbehind⟩, hahead⟩, hafter⟩ := hblank
  have hfree : '=' ∉ before ++ name.toList ++ behind := by
    simp only [List.mem_append, not_or]
    exact ⟨⟨fun hc => absurd (hbefore _ hc) (by decide), hname.noSign⟩,
      fun hc => absurd (hbehind _ hc) (by decide)⟩
  have htrim : trim (before ++ name.toList ++ behind) = name.toList :=
    (trim_around hbefore hbehind _).trans (trimText_eq_iff.1 hname.trimmed)
  rw [readPair?, cutAt?_eq_some_iff.2 ⟨htext, hfree⟩, Option.bind_some]
  simp only [htrim, trim_around hahead hafter]
  rw [if_neg, String.ofList_toList]
  · rfl
  · simpa using hname.ne_empty

/-- The pair of a text is the one that it writes. -/
theorem readPair?_eq_some_iff : readPair? text = some (name, value) ↔
    IsSettingName name ∧ trimText value = value ∧ WritesPair name value text := by
  constructor
  · intro h
    obtain ⟨⟨front, rest⟩, hcut, hpair⟩ := Option.bind_eq_some_iff.1 h
    obtain ⟨htext, hfree⟩ := cutAt?_eq_some_iff.1 hcut
    dsimp only at hpair
    split at hpair
    · cases hpair
    · rename_i hne
      cases hpair
      obtain ⟨before, behind, hbefore, hbehind, hfront⟩ := exists_around_trim front
      obtain ⟨ahead, after, hahead, hafter, hrest⟩ := exists_around_trim rest
      refine ⟨⟨by simpa using hne, ?_, ?_⟩, ?_, before, behind, ahead, after, ?_, ?_⟩
      · rw [String.toList_ofList]
        exact fun hc => hfree (mem_of_mem_trim hc)
      · rw [trimText, String.toList_ofList, trim_trim]
      · rw [trimText, String.toList_ofList, trim_trim]
      · simp only [List.forall_mem_append]
        exact ⟨⟨⟨hbefore, hbehind⟩, hahead⟩, hafter⟩
      · rw [String.toList_ofList, String.toList_ofList, ← hfront, ← hrest]
        exact htext
  · rintro ⟨hname, hvalue, h⟩
    rw [h.readPair?_eq hname, hvalue]

/-- A text without a pair has no equals sign, or nothing but white space before it. -/
theorem readPair?_eq_none_iff : readPair? text = none ↔ '=' ∉ text.toList ∨
    ∃ front rest, text.toList = front ++ '=' :: rest ∧ ∀ c ∈ front, isBlank c = true := by
  rw [readPair?, Option.bind_eq_none_iff, ← cutAt?_eq_none_iff]
  cases hcut : cutAt? '=' text.toList with
  | none => simp
  | some cut =>
    obtain ⟨front, rest⟩ := cut
    obtain ⟨htext, -⟩ := cutAt?_eq_some_iff.1 hcut
    simp only [Option.some.injEq, forall_eq', reduceCtorEq, false_or, ite_eq_left_iff,
      List.isEmpty_iff, imp_false, not_not]
    rw [trim_eq_nil_iff]
    constructor
    · intro h
      exact ⟨front, rest, htext, h⟩
    · rintro ⟨front', rest', htext', h⟩
      have hcut' := cutAt?_eq_some_iff.2 ⟨htext', fun hc => absurd (h _ hc) (by decide)⟩
      cases hcut.symm.trans hcut'
      exact h

end

/-! ## The value in a text -/

theorem trimText_of_forall {value : String} (h : ∀ c ∈ value.toList, isBlank c = false) :
    trimText value = value :=
  trimText_eq_iff.2 (trim_of_forall h)

section

variable {value : String} {b : Bool}

theorem isBlank_toLower {c : Char} (h : isBlank c.toLower = false) : isBlank c = false := by
  by_cases hc : c.isUpper = true
  · cases hb : isBlank c with
    | false => rfl
    | true =>
      simp only [Char.isUpper, decide_eq_true_eq, ge_iff_le, UInt32.le_iff_toNat_le] at hc
      change 65 ≤ c.toNat ∧ c.toNat ≤ 90 at hc
      rcases isBlank_cases hb with hn | hn | hn
      · omega
      · omega
      · have := (notMem_of_mem_wideBlanks _ hn).1
        omega
  · rwa [Char.toLower_eq_of_not_isUpper hc] at h

theorem isBlank_of_mem_truthWords :
    ∀ b, ∀ word ∈ truthWords b, ∀ c ∈ word.toList, isBlank c = false := by
  simp [truthWords, isBlank]

theorem notMem_truthWords : ∀ word ∈ truthWords true, word ∉ truthWords false := by
  decide

theorem readTruthValue?_eq_some_iff :
    readTruthValue? value = some b ↔ flagKind.Spells value b := by
  have hspells : flagKind.Spells value b ↔
      String.ofList (value.toList.map Char.toLower) ∈ truthWords b := by
    constructor
    · rintro ⟨word, hw, h⟩
      rwa [h, String.ofList_toList]
    · intro h
      exact ⟨_, h, String.toList_ofList.symm⟩
  rw [hspells, readTruthValue?]
  generalize String.ofList (value.toList.map Char.toLower) = word
  change (if word ∈ truthWords true then some true
    else if word ∈ truthWords false then some false else none) = some b ↔ _
  by_cases ht : word ∈ truthWords true
  · cases b with
    | true => simp [ht]
    | false => simp [ht, notMem_truthWords word ht]
  · cases b with
    | true => simp [ht]
    | false => simp [ht]

end

/-- Values are read by their spellings, which have no white space around them. -/
structure SettingKind.ReadBy (kind : SettingKind α) (read? : String → Option α) : Prop where
  read_iff {value : String} {a : α} (h : trimText value = value) :
    read? value = some a ↔ kind.Spells value a
  trimmed {value : String} {a : α} (h : kind.Spells value a) : trimText value = value

theorem limitKind_readBy : limitKind.ReadBy fun value => readInteger? value.toList where
  read_iff h := by
    rw [readInteger?_eq_some_iff, trimText_eq_iff.1 h]
    rfl
  trimmed h := trimText_of_forall (IntegerText.isBlank_eq_false h)

theorem flagKind_readBy : flagKind.ReadBy readTruthValue? where
  read_iff _ := readTruthValue?_eq_some_iff
  trimmed h := by
    obtain ⟨word, hw, h⟩ := h
    refine trimText_of_forall fun c hc => isBlank_toLower ?_
    exact isBlank_of_mem_truthWords _ word hw _ (h ▸ List.mem_map_of_mem hc)

/-! ## One setting -/

/-- One text as a setting: its pair, and the value that is read. -/
def readSetting (kind : SettingKind α) (read? : String → Option α) (text : String) :
    Except SettingFault (String × α) :=
  match readPair? text with
  | none => .error (.noPair kind.option text)
  | some (name, value) =>
    match read? value with
    | some a => .ok (name, a)
    | none => .error (kind.complaint kind.option name value)

theorem readLimit_eq : readLimit = readSetting limitKind fun value => readInteger? value.toList := by
  funext text
  rw [readLimit, readSetting]
  cases readPair? text with
  | none => rfl
  | some pair =>
    dsimp only
    cases readInteger? pair.2.toList <;> rfl

theorem readFlag_eq : readFlag = readSetting flagKind readTruthValue? := by
  funext text
  rw [readFlag, readSetting]
  cases readPair? text with
  | none => rfl
  | some pair =>
    dsimp only
    cases readTruthValue? pair.2 <;> rfl

section

variable {kind : SettingKind α} {read? : String → Option α} {text : String}

/-- The settings that are read are those that texts write. -/
theorem readSetting_eq_ok_iff (hread : kind.ReadBy read?) {setting : String × α} :
    readSetting kind read? text = .ok setting ↔ kind.Writes text setting := by
  obtain ⟨name, a⟩ := setting
  constructor
  · intro h
    unfold readSetting at h
    split at h
    · cases h
    · rename_i name' value hpair
      obtain ⟨hname, hvalue, hwrites⟩ := readPair?_eq_some_iff.1 hpair
      split at h
      · rename_i a' ha
        cases h
        exact ⟨hname, value, (hread.read_iff hvalue).1 ha, hwrites⟩
      · cases h
  · rintro ⟨hname, value, hspells, hwrites⟩
    have hvalue := hread.trimmed hspells
    rw [readSetting, readPair?_eq_some_iff.2 ⟨hname, hvalue, hwrites⟩]
    simp only [(hread.read_iff hvalue).2 hspells]

/-- The texts that are not read are those that are refused, with the fault that is told. -/
theorem readSetting_eq_error_iff (hread : kind.ReadBy read?) {fault : SettingFault} :
    readSetting kind read? text = .error fault ↔ kind.Refuses text fault := by
  constructor
  · intro h
    unfold readSetting at h
    split at h
    · rename_i hpair
      cases h
      rcases readPair?_eq_none_iff.1 hpair with hsign | ⟨front, rest, htext, hblank⟩
      · exact .noSign hsign
      · exact .blankName htext hblank
    · rename_i name value hpair
      obtain ⟨hname, hvalue, hwrites⟩ := readPair?_eq_some_iff.1 hpair
      split at h
      · cases h
      · rename_i hnone
        cases h
        refine .noValue hname hvalue hwrites fun a ha => ?_
        rw [(hread.read_iff hvalue).2 ha] at hnone
        cases hnone
  · intro h
    cases h with
    | noSign h => rw [readSetting, readPair?_eq_none_iff.2 (.inl h)]
    | blankName h hblank => rw [readSetting, readPair?_eq_none_iff.2 (.inr ⟨_, _, h, hblank⟩)]
    | @noValue name value hname hvalue hwrites hno =>
      have hnone : read? value = none :=
        Option.eq_none_iff_forall_ne_some.2 fun a ha => hno a ((hread.read_iff hvalue).1 ha)
      rw [readSetting, readPair?_eq_some_iff.2 ⟨hname, hvalue, hwrites⟩]
      simp only [hnone]

end

/-! ## Lists of texts -/

section

variable {ε β γ : Type} {read : β → Except ε γ} {texts : List β}

/-- A list is read if each of its texts is. -/
theorem mapM_eq_ok_iff {settings : List γ} : texts.mapM read = .ok settings ↔
    List.Forall₂ (fun text setting => read text = .ok setting) texts settings := by
  induction texts generalizing settings with
  | nil => cases settings <;> simp [pure, Except.pure]
  | cons text texts ih =>
    rw [List.mapM_cons, List.forall₂_cons_left_iff]
    cases ht : read text with
    | error fault => simp [bind, Except.bind]
    | ok setting =>
      cases hts : texts.mapM read with
      | error fault => simp [bind, Except.bind, ← ih, hts]
      | ok rest => simp [bind, Except.bind, pure, Except.pure, ← ih, hts, eq_comm]

/-- The fault of a list is that of its first text that is not read. -/
theorem mapM_eq_error_iff {fault : ε} : texts.mapM read = .error fault ↔
    ∃ before text after, texts = before ++ text :: after ∧
      (∀ t ∈ before, ∃ setting, read t = .ok setting) ∧ read text = .error fault := by
  induction texts with
  | nil => simp [pure, Except.pure]
  | cons text texts ih =>
    rw [List.mapM_cons]
    simp only [List.cons_eq_append_iff]
    cases ht : read text with
    | error fault' =>
      constructor
      · rintro ⟨⟩
        exact ⟨[], text, texts, .inl ⟨rfl, rfl⟩, by simp, ht⟩
      · rintro ⟨before, text', after, ⟨rfl, h⟩ | ⟨rest, rfl, h⟩, hbefore, htext⟩
        · cases h
          rw [← ht, htext]; rfl
        · obtain ⟨setting, hs⟩ := hbefore text (List.mem_cons_self ..)
          cases ht.symm.trans hs
    | ok setting =>
      have hrest : (do let s ← Except.ok setting; let rest ← texts.mapM read; pure (s :: rest)) =
          (Except.error fault : Except ε (List γ)) ↔ texts.mapM read = .error fault := by
        cases texts.mapM read <;> simp [bind, Except.bind, pure, Except.pure]
      rw [hrest, ih]
      constructor
      · rintro ⟨before, text', after, rfl, hbefore, htext⟩
        exact ⟨text :: before, text', after, .inr ⟨before, rfl, rfl⟩,
          List.forall_mem_cons.2 ⟨⟨setting, ht⟩, hbefore⟩, htext⟩
      · rintro ⟨before, text', after, ⟨rfl, h⟩ | ⟨rest, rfl, h⟩, hbefore, htext⟩
        · cases h
          cases ht.symm.trans htext
        · exact ⟨rest, text', after, h, (List.forall_mem_cons.1 hbefore).2, htext⟩

end

theorem readSettings_eq_error_iff {read : String → Except SettingFault (String × α)}
    {texts : List String} {fault : SettingFault} :
    readSettings read texts = .error fault ↔ texts.mapM read = .error fault := by
  unfold readSettings
  cases texts with
  | nil => simp [pure, Except.pure]
  | cons text texts =>
    rw [if_neg (by simp)]
    cases List.mapM read (text :: texts) <;> simp

section

variable {kind : SettingKind α} {read? : String → Option α} {texts : List String}

theorem exists_readSetting_iff (hread : kind.ReadBy read?) {text : String} :
    (∃ setting, readSetting kind read? text = .ok setting) ↔ ∀ f, ¬ kind.Refuses text f := by
  simp only [← readSetting_eq_error_iff hread]
  cases readSetting kind read? text <;> simp

theorem readSettings_of_writes (hread : kind.ReadBy read?) {settings : List (String × α)}
    (hne : settings ≠ []) (h : List.Forall₂ kind.Writes texts settings) :
    readSettings (readSetting kind read?) texts = .ok (some (.ofList settings)) := by
  have hmap : texts.mapM (readSetting kind read?) = .ok settings :=
    mapM_eq_ok_iff.2 (h.imp fun _ _ hw => (readSetting_eq_ok_iff hread).2 hw)
  have htexts : texts.isEmpty = false := by
    cases h with
    | nil => exact absurd rfl hne
    | cons => rfl
  rw [readSettings, htexts, hmap]
  rfl

/-- The first text that writes no setting decides. -/
theorem readSettings_eq_error_iff_first (hread : kind.ReadBy read?) {fault : SettingFault} :
    readSettings (readSetting kind read?) texts = .error fault ↔
      ∃ before text after, texts = before ++ text :: after ∧
        (∀ t ∈ before, ∀ f, ¬ kind.Refuses t f) ∧ kind.Refuses text fault := by
  rw [readSettings_eq_error_iff, mapM_eq_error_iff]
  simp only [exists_readSetting_iff hread, readSetting_eq_error_iff hread]

theorem exists_readSettings_error_iff (hread : kind.ReadBy read?) :
    (∃ fault, readSettings (readSetting kind read?) texts = .error fault) ↔
      ∃ text ∈ texts, ∃ fault, kind.Refuses text fault := by
  constructor
  · rintro ⟨fault, h⟩
    obtain ⟨before, text, after, rfl, -, htext⟩ := (readSettings_eq_error_iff_first hread).1 h
    exact ⟨text, by simp, fault, htext⟩
  · rintro ⟨text, hm, fault, htext⟩
    cases hmap : texts.mapM (readSetting kind read?) with
    | error fault => exact ⟨fault, readSettings_eq_error_iff.2 hmap⟩
    | ok settings =>
      have hall := (List.forall₂_and_left _ _).1
        ((mapM_eq_ok_iff.1 hmap).imp fun _ setting hs => ⟨Exists.intro setting hs, hs⟩)
      exact absurd htext ((exists_readSetting_iff hread).1 (hall.1 text hm) fault)

end

/-- What is read of a list of texts, for any kind of settings. -/
theorem readSettings_decodes {kind : SettingKind α} {read? : String → Option α}
    (hread : kind.ReadBy read?) : kind.Decodes (readSettings (readSetting kind read?)) where
  table hne h :=
    ⟨_, readSettings_of_writes hread hne h, Table.keys_ofList _, Table.get?_ofList _⟩
  fails_iff := exists_readSettings_error_iff hread
  first_iff := readSettings_eq_error_iff_first hread

/-! ## Limits and flags -/

/-- **Settings say what they write.**  Texts that write settings, with white space around the
    names and the values, are read as the table of these: of settings with one name the first
    gives the place and the last the value.  Limits may be spelled in any way in which an integer
    is, the usual one included, and flags in each of eight words.  Reading fails exactly if some
    text has no equals sign, a blank name or a value that is not spelled so, and the fault is that
    of the first such text. -/
theorem settings_decode :
    limitKind.Decodes readLimits ∧ flagKind.Decodes readFlags ∧
      ∀ n : Int, (Nat.toDigits 10 n.natAbs).length ≤ maxIntegerDigits →
        limitKind.Spells (intText n) n := by
  refine ⟨?_, ?_, fun n h => integerText_intText h⟩
  · rw [readLimits, readLimit_eq]
    exact readSettings_decodes limitKind_readBy
  · rw [readFlags, readFlag_eq]
    exact readSettings_decodes flagKind_readBy

/-- Two limits for one name, one of them with a sign and an underscore in it; a flag that is
    given twice; and a flag that is no truth value before one without a name. -/
theorem settings_decode_repeated :
    (∃ t, readLimits ["main=3", " wide = +1_0", "main=-2 "] = .ok (some t) ∧
      t.keys = ["main", "wide"] ∧ t.get? "main" = some (-2) ∧ t.get? "wide" = some 10) ∧
    (∃ t, readFlags ["strict=off", " show-all = YES", "strict=1"] = .ok (some t) ∧
      t.keys = ["strict", "show-all"] ∧ t.get? "strict" = some true ∧
      t.get? "show-all" = some true) ∧
    readFlags ["show-all=2", "=on"] = .error (.noTruthValue "--option" "show-all" "2") := by
  have hmain : IsSettingName "main" := ⟨by decide, by simp, by decide⟩
  have hwide : IsSettingName "wide" := ⟨by decide, by simp, by decide⟩
  have hstrict : IsSettingName "strict" := ⟨by decide, by simp, by decide⟩
  have hshow : IsSettingName "show-all" := ⟨by decide, by simp, by decide⟩
  refine ⟨?_, ?_, ?_⟩
  · have hthree : IntegerText ['3'] 3 :=
      .bare (.last (show digitValue? '3' = some 3 by decide)) (by decide)
    have hten : IntegerText ['+', '1', '_', '0'] 10 :=
      .plus (.gap (show digitValue? '1' = some 1 by decide)
        (.last (show digitValue? '0' = some 0 by decide))) (by decide)
    have htwo : IntegerText ['-', '2'] (-2) :=
      .minus (.last (show digitValue? '2' = some 2 by decide)) (by decide)
    have hfirst : limitKind.Writes "main=3" ("main", 3) :=
      ⟨hmain, "3", hthree, [], [], [], [], by simp, by simp⟩
    have hsecond : limitKind.Writes " wide = +1_0" ("wide", 10) :=
      ⟨hwide, "+1_0", hten, [' '], [' '], [' '], [], by simp [isBlank], by simp⟩
    have hthird : limitKind.Writes "main=-2 " ("main", -2) :=
      ⟨hmain, "-2", htwo, [], [], [], [' '], by simp [isBlank], by simp⟩
    obtain ⟨t, ht, hkeys, hvalues⟩ := settings_decode.1.table (List.cons_ne_nil _ _)
      (.cons hfirst (.cons hsecond (.cons hthird .nil)))
    exact ⟨t, ht, hkeys, hvalues "main", hvalues "wide"⟩
  · have hfirst : flagKind.Writes "strict=off" ("strict", false) :=
      ⟨hstrict, "off", ⟨"off", by decide, by decide⟩, [], [], [], [], by simp, by simp⟩
    have hsecond : flagKind.Writes " show-all = YES" ("show-all", true) :=
      ⟨hshow, "YES", ⟨"yes", by decide, by decide⟩, [' '], [' '], [' '], [], by simp [isBlank],
        by simp⟩
    have hthird : flagKind.Writes "strict=1" ("strict", true) :=
      ⟨hstrict, "1", ⟨"1", by decide, by decide⟩, [], [], [], [], by simp, by simp⟩
    obtain ⟨t, ht, hkeys, hvalues⟩ := settings_decode.2.1.table (List.cons_ne_nil _ _)
      (.cons hfirst (.cons hsecond (.cons hthird .nil)))
    exact ⟨t, ht, hkeys, hvalues "strict", hvalues "show-all"⟩
  · refine settings_decode.2.1.first_iff.2 ⟨[], "show-all=2", ["=on"], rfl, List.forall_mem_nil _, ?_⟩
    have hno : ∀ b, ¬ flagKind.Spells "2" b := by
      rintro b ⟨word, hw, h⟩
      revert word
      cases b <;> decide
    exact .noValue hshow (by decide) ⟨[], [], [], [], by simp, by simp⟩ hno

end StyleBudget
