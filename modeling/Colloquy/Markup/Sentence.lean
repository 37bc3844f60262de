import Colloquy.Markup.Keyword

/-!
# Markup/Sentence — sentences without their markup

A sentence that has been read is a run of beats: characters to reveal and commands to carry out
between them. Its text is the characters (`Sentence.text`), and each command stands at an index into
the text (`Sentence.tags`): it is due when so many characters have been revealed. An `Issue` is
malformed markup that was dropped.
-/

namespace Colloquy.Markup

/-- Malformed markup. -/
inductive Issue
  | missingValue (word : String)
  | badNumber (word value : String)
  | unclosed (word : String)
  | strayClose (word : String)
  | badLiteral (word value : String)
deriving DecidableEq, Repr

/-- The wording of an issue. -/
def Issue.message : Issue → String
  | missingValue word => "tag <" ++ word ++ "> needs a value after '='"
  | badNumber word value => "tag <" ++ word ++ "> expects a number, found '" ++ value ++ "'"
  | unclosed word => "tag <" ++ word ++ "> is never closed"
  | strayClose word => "closing tag </" ++ word ++ "> has no matching opening tag"
  | badLiteral word value => "tag <" ++ word ++ "> could not store '" ++ value ++ "'"

/-- One step of showing a sentence. -/
inductive Beat
  | character (c : Char)
  | tag (command : Command)
deriving DecidableEq

/-- The character that a beat reveals. -/
def Beat.character? : Beat → Option Char
  | character c => some c
  | tag _ => none

/-- The characters that beats reveal. -/
def characters (bs : List Beat) : List Char := bs.filterMap Beat.character?

/-- A sentence without its markup. -/
structure Sentence where
  beats : List Beat
  issues : List Issue
deriving DecidableEq

/-- A command at an index into the visible text. -/
structure Tag where
  index : Nat
  command : Command
deriving DecidableEq

/-- The commands among some beats, each with the count of characters before it. The first argument
is the count of characters before them all. -/
def tagsFrom : Nat → List Beat → List Tag
  | _, [] => []
  | n, .character _ :: bs => tagsFrom (n + 1) bs
  | n, .tag c :: bs => ⟨n, c⟩ :: tagsFrom n bs

namespace Sentence

/-- The visible characters. -/
def visible (s : Sentence) : List Char := characters s.beats

/-- The visible text. -/
def text (s : Sentence) : String := String.ofList s.visible

/-- How many characters are visible. -/
def size (s : Sentence) : Nat := s.visible.length

/-- The commands, in the order in which they are due. -/
def tags (s : Sentence) : List Tag := tagsFrom 0 s.beats

theorem length_text (s : Sentence) : s.text.length = s.size := String.length_ofList

end Sentence

/-! ## Characters and indices -/

@[simp] theorem characters_nil : characters [] = [] := rfl

@[simp] theorem characters_character (c : Char) (bs : List Beat) :
    characters (.character c :: bs) = c :: characters bs := rfl

@[simp] theorem characters_tag (c : Command) (bs : List Beat) :
    characters (.tag c :: bs) = characters bs := rfl

@[simp] theorem characters_append (as bs : List Beat) :
    characters (as ++ bs) = characters as ++ characters bs := List.filterMap_append

theorem characters_map_character (cs : List Char) : characters (cs.map .character) = cs := by
  induction cs with
  | nil => rfl
  | cons c cs ih => rw [List.map_cons, characters_character, ih]

@[simp] theorem tagsFrom_nil (n : Nat) : tagsFrom n [] = [] := rfl

@[simp] theorem tagsFrom_character (n : Nat) (c : Char) (bs : List Beat) :
    tagsFrom n (.character c :: bs) = tagsFrom (n + 1) bs := rfl

@[simp] theorem tagsFrom_tag (n : Nat) (c : Command) (bs : List Beat) :
    tagsFrom n (.tag c :: bs) = ⟨n, c⟩ :: tagsFrom n bs := rfl

theorem tagsFrom_map_character (cs : List Char) :
    ∀ n : Nat, tagsFrom n (cs.map .character) = [] := by
  induction cs with
  | nil => exact fun _ => rfl
  | cons c cs ih => exact fun n => ih (n + 1)

/-- Tags of a later part are shifted by the characters of the earlier one. -/
theorem tagsFrom_append (as bs : List Beat) :
    ∀ n : Nat, tagsFrom n (as ++ bs) =
      tagsFrom n as ++ tagsFrom (n + (characters as).length) bs := by
  induction as with
  | nil => simp
  | cons a as ih =>
    intro n
    cases a with
    | character c => simp [ih, Nat.add_comm 1, Nat.add_assoc]
    | tag c => simp [ih]

/-- No command is due after the end of the text. -/
theorem index_of_mem_tagsFrom {t : Tag} :
    ∀ {n : Nat} {bs : List Beat}, t ∈ tagsFrom n bs →
      n ≤ t.index ∧ t.index ≤ n + (characters bs).length
  | n, .character c :: bs, h => by
      have := index_of_mem_tagsFrom (t := t) (n := n + 1) h
      simp only [characters_character, List.length_cons]
      omega
  | n, .tag c :: bs, h => by
      rcases List.mem_cons.1 h with rfl | h
      · simp
      · simpa using index_of_mem_tagsFrom h

end Colloquy.Markup
