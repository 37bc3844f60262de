/-!
# Markup/Token — letters and bracket groups

A sentence is cut into tokens before anything is made of its markup. A bracket group is what stands
between a `<` and the next `>`, provided no other `<` comes between; every other character is a
letter, stray brackets included. `verbatim_tokens`: nothing of the sentence is lost.
-/

namespace Colloquy.Markup

/-- A piece of raw text: a letter, or what stands between two brackets. -/
inductive Token
  | letter (c : Char)
  | group (body : List Char)
deriving DecidableEq, Repr

/-- The raw text of a token. -/
def Token.verbatim : Token → List Char
  | letter c => [c]
  | group body => '<' :: body ++ ['>']

/-- The tokens of some text. The first argument holds what has been read since an opening bracket,
last character first. -/
def tokensFrom : Option (List Char) → List Char → List Token
  | none, [] => []
  | some read, [] => ('<' :: read.reverse).map .letter
  | none, c :: cs => if c = '<' then tokensFrom (some []) cs else .letter c :: tokensFrom none cs
  | some read, c :: cs =>
    if c = '<' then ('<' :: read.reverse).map .letter ++ tokensFrom (some []) cs
    else if c = '>' then .group read.reverse :: tokensFrom none cs
    else tokensFrom (some (c :: read)) cs

/-- The tokens of a text. -/
def tokens (cs : List Char) : List Token := tokensFrom none cs

/-- The raw text of several tokens. -/
def verbatim (ts : List Token) : List Char := ts.flatMap Token.verbatim

@[simp] theorem verbatim_nil : verbatim [] = [] := rfl

@[simp] theorem verbatim_cons (t : Token) (ts : List Token) :
    verbatim (t :: ts) = t.verbatim ++ verbatim ts := rfl

@[simp] theorem verbatim_append (ts us : List Token) :
    verbatim (ts ++ us) = verbatim ts ++ verbatim us := by simp [verbatim]

@[simp] theorem verbatim_letters (cs : List Char) : verbatim (cs.map .letter) = cs := by
  induction cs with
  | nil => rfl
  | cons c cs ih => simp [Token.verbatim, ih]

theorem verbatim_tokensFrom :
    ∀ (read? : Option (List Char)) (cs : List Char), verbatim (tokensFrom read? cs) =
      (match read? with | some read => '<' :: read.reverse | none => []) ++ cs
  | none, [] => rfl
  | some read, [] => by rw [tokensFrom, verbatim_letters, List.append_nil]
  | none, c :: cs => by
      rw [tokensFrom]
      split
      · rename_i h
        rw [verbatim_tokensFrom, h]
        rfl
      · rw [verbatim_cons, verbatim_tokensFrom]
        rfl
  | some read, c :: cs => by
      rw [tokensFrom]
      split
      · rename_i h
        rw [verbatim_append, verbatim_letters, verbatim_tokensFrom, h]
        rfl
      · split
        · rename_i h
          rw [verbatim_cons, verbatim_tokensFrom, h]
          simp [Token.verbatim]
        · rw [verbatim_tokensFrom]
          simp

/-- **Tokens written one after the other give the text back.** -/
theorem verbatim_tokens (cs : List Char) : verbatim (tokens cs) = cs :=
  verbatim_tokensFrom none cs

end Colloquy.Markup
