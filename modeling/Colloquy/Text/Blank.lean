import Colloquy.Text.Ranges

/-!
# Text/Blank — white space, trimming, and texts that count as absent

A script author may leave a field out or leave it blank, and the two mean the same. White space is
the Unicode property of that name (`spaceRanges`). `trim` strips it from both ends of a text,
`IsBlank` holds of a text made of nothing else, and `present` forgets a blank text.
`trim_eq_empty_iff` says that a text is blank exactly when trimming leaves nothing of it.
-/

namespace Colloquy.Text

/-- The characters with the Unicode property `White_Space`. -/
def spaceRanges : CodeRanges :=
  [(0x9, 0xd), (0x20, 0x20), (0x85, 0x85), (0xa0, 0xa0), (0x1680, 0x1680), (0x2000, 0x200a),
    (0x2028, 0x2029), (0x202f, 0x202f), (0x205f, 0x205f), (0x3000, 0x3000)]

/-- Whether a character is white space. -/
def isSpace (c : Char) : Bool := spaceRanges.covers c

/-- A run of characters without the white space at its two ends. -/
def trimChars (cs : List Char) : List Char :=
  ((cs.dropWhile isSpace).reverse.dropWhile isSpace).reverse

/-- A text without the white space at its two ends. -/
def trim (s : String) : String :=
  String.ofList (trimChars s.toList)

/-- The words of a run of characters, which white space separates. The first argument holds the word
being read, last character first. -/
def wordsFrom : List Char → List Char → List String
  | word, [] => if word = [] then [] else [String.ofList word.reverse]
  | word, c :: cs =>
    if isSpace c then
      (if word = [] then [] else [String.ofList word.reverse]) ++ wordsFrom [] cs
    else wordsFrom (c :: word) cs

/-- The words of a text. -/
def words (s : String) : List String := wordsFrom [] s.toList

/-- A text is blank when white space is all it holds. -/
def IsBlank (s : String) : Prop :=
  s.toList.all isSpace = true

instance (s : String) : Decidable (IsBlank s) :=
  inferInstanceAs (Decidable (_ = true))

/-- The text of an optional field, a blank text being no text. -/
def present (s? : Option String) : Option String :=
  s?.filter fun s => !decide (IsBlank s)

/-! ## Trimming -/

theorem dropWhile_eq_nil_iff {p : Char → Bool} :
    ∀ {cs : List Char}, cs.dropWhile p = [] ↔ ∀ c ∈ cs, p c = true
  | [] => by simp
  | c :: cs => by
      by_cases h : p c = true
      · simp [h, @dropWhile_eq_nil_iff p cs]
      · simp [h]

theorem trimChars_eq_nil_iff {cs : List Char} :
    trimChars cs = [] ↔ ∀ c ∈ cs, isSpace c = true := by
  rw [trimChars, List.reverse_eq_nil_iff, dropWhile_eq_nil_iff, ← @dropWhile_eq_nil_iff isSpace cs]
  constructor
  · intro h
    cases hd : cs.dropWhile isSpace with
    | nil => rfl
    | cons c rest =>
      have hc : isSpace c = true := h c (by simp [hd])
      have hn : isSpace c = false := by
        have := List.head_dropWhile_not isSpace (l := cs) (by simp [hd])
        simpa [hd] using this
      simp [hc] at hn
  · intro h
    simp [h]

/-- **Blank means that trimming leaves nothing.** -/
theorem trim_eq_empty_iff {s : String} : trim s = "" ↔ IsBlank s := by
  rw [trim, ← String.toList_inj, String.toList_ofList, IsBlank, List.all_eq_true,
    ← trimChars_eq_nil_iff]
  simp

theorem isBlank_empty : IsBlank "" := by simp [IsBlank]

/-- A text is present exactly when it was given and is not blank. -/
theorem present_eq_some_iff {s? : Option String} {s : String} :
    present s? = some s ↔ s? = some s ∧ ¬ IsBlank s := by
  cases s? <;> simp +contextual [present, Option.filter_eq_some_iff]

end Colloquy.Text
