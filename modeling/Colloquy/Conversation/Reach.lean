import Colloquy.Conversation

/-!
# Conversation/Reach — dialogues that can never be reached

A dialogue is reached if it is a starting point or if a dialogue that is reached links to it, by its
own link or by that of a choice. `Conversation.unreachable` lists the ids of the others, in
ascending order: it goes from dialogue to dialogue and crosses off the ids it comes to.
-/

namespace Colloquy

namespace Dialogue

/-- The dialogues that a dialogue links to. -/
def links (d : Dialogue) : List Int32 := d.next?.toList ++ d.choices.filterMap Choice.next?

end Dialogue

/-- Some ids without one of them. -/
def crossOff (id : Int32) (ids : List Int32) : List Int32 := ids.filter (· ≠ id)

theorem length_crossOff_lt {id : Int32} {ids : List Int32} (h : id ∈ ids) :
    (crossOff id ids).length < ids.length :=
  List.length_filter_lt_length_iff_exists.2 ⟨id, h, by simp⟩

/-- What is left of some ids when those are crossed off that can be reached from others. -/
def leftover (links : Int32 → List Int32) : List Int32 → List Int32 → List Int32
  | remaining, [] => remaining
  | remaining, id :: pending =>
    if id ∈ remaining then
      leftover links (crossOff id remaining) (links id ++ pending)
    else leftover links remaining pending
termination_by remaining pending => (remaining.length, pending.length)
decreasing_by
  · exact Prod.Lex.left _ _ (length_crossOff_lt ‹_›)
  · exact Prod.Lex.right _ (by simp)

namespace Conversation

/-- The dialogues that an id links to. -/
def linksOf (c : Conversation) (id : Int32) : List Int32 :=
  match c.dialogue? id with
  | some d => d.links
  | none => []

/-- The ids of the starting points. -/
def startingIds (c : Conversation) : List Int32 :=
  (c.dialogues.filter (·.startingPoint)).map (·.id)

/-- The ids of the dialogues that are never reached, in ascending order. -/
def unreachable (c : Conversation) : List Int32 :=
  (leftover c.linksOf (c.dialogues.map (·.id)) c.startingIds).mergeSort fun a b => decide (a ≤ b)

end Conversation

end Colloquy
