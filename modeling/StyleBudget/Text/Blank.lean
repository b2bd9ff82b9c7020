/-
  White space in running text, and what is done with it: trimming, cutting
  into words, and writing every run of it as one space.

  * `isBlank` is the set of white space characters;
  * `trimStart`, `trimEnd` and `trim` take white space off the ends;
  * `wordsOf` cuts a text into its words, and `squeeze` joins them again with
    single spaces;
  * `cutAt?` cuts a text in two at the first separator.
-/

namespace StyleBudget

/-! ## White space characters -/

/-- White space of every script, with the four ASCII separators. -/
def isBlank (c : Char) : Bool :=
  let n := c.toNat
  (9 ≤ n && n ≤ 13) || (28 ≤ n && n ≤ 32) || n == 0x85 || n == 0xa0 || n == 0x1680
    || (0x2000 ≤ n && n ≤ 0x200a) || n == 0x2028 || n == 0x2029 || n == 0x202f
    || n == 0x205f || n == 0x3000

/-! ## Trimming -/

def trimStart (cs : List Char) : List Char := cs.dropWhile isBlank

/-- The text without its trailing characters of a kind. -/
def dropEndWhile (p : Char → Bool) (cs : List Char) : List Char :=
  (cs.reverse.dropWhile p).reverse

def trimEnd (cs : List Char) : List Char := dropEndWhile isBlank cs

/-- The text without white space at its two ends. -/
def trim (cs : List Char) : List Char := trimEnd (trimStart cs)

def trimText (s : String) : String := String.ofList (trim s.toList)

theorem trim_of_blank {cs : List Char} (h : ∀ c ∈ cs, isBlank c) : trim cs = [] := by
  have hs : trimStart cs = [] := by
    rw [trimStart, ← List.append_nil cs, List.dropWhile_append_of_pos h, List.dropWhile_nil]
  rw [trim, hs]; rfl

/-! ## Words -/

/-- The words of a text: its longest pieces without white space. -/
def wordsOf (cs : List Char) : List (List Char) :=
  (cs.splitOnP isBlank).filter fun word => !word.isEmpty

/-- The words of a text with one space between each two. -/
def squeeze (cs : List Char) : List Char := [' '].intercalate (wordsOf cs)

/-- The pieces between separators hold everything that is no separator. -/
theorem exists_mem_splitOnP {p : Char → Bool} {c : Char} {cs : List Char} (hc : c ∈ cs)
    (hp : p c = false) : ∃ piece ∈ cs.splitOnP p, c ∈ piece := by
  induction cs with
  | nil => cases hc
  | cons d rest ih =>
    rw [List.splitOnP_cons_eq_if_modifyHead]
    obtain ⟨first, pieces, hs⟩ := List.exists_cons_of_ne_nil (List.splitOnP_ne_nil p rest)
    rw [hs] at ih ⊢
    rw [List.modifyHead_cons]
    rcases List.mem_cons.1 hc with rfl | hc
    · rw [if_neg (by simp [hp])]
      exact ⟨c :: first, List.mem_cons_self .., List.mem_cons_self ..⟩
    · obtain ⟨piece, hm, hpiece⟩ := ih hc
      split
      · exact ⟨piece, List.mem_cons_of_mem [] hm, hpiece⟩
      · rcases List.mem_cons.1 hm with rfl | hm
        · exact ⟨d :: piece, List.mem_cons_self .., List.mem_cons_of_mem d hpiece⟩
        · exact ⟨piece, List.mem_cons_of_mem _ hm, hpiece⟩

theorem mem_intercalate {c : Char} {sep word : List Char} {words : List (List Char)}
    (hw : word ∈ words) (hc : c ∈ word) : c ∈ sep.intercalate words := by
  induction words with
  | nil => cases hw
  | cons first rest ih =>
    cases rest with
    | nil =>
      rw [List.mem_singleton.1 hw] at hc
      rwa [List.intercalate_singleton]
    | cons second rest =>
      rw [List.intercalate_cons_cons]
      rcases List.mem_cons.1 hw with rfl | hw
      · simp [hc]
      · simp [ih hw]

/-- Squeezing keeps everything but white space. -/
theorem mem_squeeze {c : Char} {cs : List Char} (hc : c ∈ cs) (hb : isBlank c = false) :
    c ∈ squeeze cs := by
  obtain ⟨word, hw, hcw⟩ := exists_mem_splitOnP hc hb
  have hne : word ≠ [] := List.ne_nil_of_mem hcw
  exact mem_intercalate (List.mem_filter.2 ⟨hw, by simpa using hne⟩) hcw

/-! ## Pieces -/

/-- What stands before the first `sep`, and what stands after it; nothing if
    there is none. -/
def cutAt? (sep : Char) (cs : List Char) : Option (List Char × List Char) :=
  match cs.dropWhile (· != sep) with
  | [] => none
  | _ :: rest => some (cs.takeWhile (· != sep), rest)

end StyleBudget
