import Colloquy.Conversation

/-!
# Conversation/Trail — going on from dialogue to dialogue

Whoever enters a dialogue that has nothing to show goes on to the next one at once. `trail?` follows
such links from a dialogue and says which dialogues were passed and where the way ends: at a
dialogue to stay at, or at a link that leads nowhere. A way that comes back to where it was has no
trail.
-/

namespace Colloquy

/-- Where a trail ends. -/
inductive Landing
  | at (d : Dialogue)
  | missing (id : Int32)
deriving DecidableEq

/-- The dialogues passed through, in order, and where they lead. -/
structure Trail where
  passed : List Dialogue
  landing : Landing
deriving DecidableEq

/-- The trail through one more dialogue. -/
def Trail.cons (d : Dialogue) (t : Trail) : Trail := ⟨d :: t.passed, t.landing⟩

namespace Conversation

/-- The trail from a dialogue, if it ends within a number of links. The outlook on entering a
dialogue says whether it is passed. -/
def trailWithin? (c : Conversation) (outlook : Dialogue → Outlook) (links : Nat) (d : Dialogue) :
    Option Trail :=
  match outlook d with
  | .link id =>
    match c.dialogue? id with
    | none => some ⟨[d], .missing id⟩
    | some e =>
      match links with
      | 0 => none
      | links + 1 => (c.trailWithin? outlook links e).map (Trail.cons d)
  | _ => some ⟨[], .at d⟩

/-- The trail from a dialogue. A way without a circle has fewer links than there are dialogues. -/
def trail? (c : Conversation) (outlook : Dialogue → Outlook) (d : Dialogue) : Option Trail :=
  c.trailWithin? outlook c.dialogues.length d

end Conversation

end Colloquy
