import Colloquy.Conversation.Check
import Colloquy.Conversation.Codec
import Colloquy.Files
import Colloquy.Registry

/-!
# Library — the conversations that can be played

A `Library` holds conversations by name. Only a conversation that passes `Conversation.audit` is
inserted, made ready to play, in the stead of one of its name; a text is read first
(`Library.load`). From a directory every script is loaded whose file name ends in `.json`, and a
script that is refused is left out (`Library.loadDirectory`).
-/

namespace Colloquy

/-- Why a conversation is not in the library. -/
inductive LoadError
  | unreadableFile
  | emptyName
  | malformed (name : String) (cause : Json.Error)
  | invalid (name : String) (cause : ConversationError)
deriving DecidableEq, Repr

/-- The wording of an error. -/
def LoadError.message : LoadError → String
  | unreadableFile => "IO error"
  | emptyName => "conversation needs a non-empty name"
  | malformed name cause => "JSON error in '" ++ name ++ "': " ++ cause.message
  | invalid name cause => "conversation '" ++ name ++ "' is invalid: " ++ cause.message

/-- Conversations by name. -/
structure Library where
  scripts : Registry Conversation
deriving Inhabited

namespace Library

/-- No conversations. -/
def empty : Library := ⟨.empty⟩

/-- The conversation of a name. -/
def get? (l : Library) (name : String) : Option Conversation := l.scripts.get? name

/-- The names, in order. -/
def names (l : Library) : List String := l.scripts.names

/-- The conversation of a name, with a note if there is none. -/
def retrieve (l : Library) (name : String) : Noted (Option Conversation) :=
  match l.get? name with
  | some c => ⟨some c, []⟩
  | none => ⟨none, [.failure "conversation is not registered"]⟩

/-- A check whose fault is noted as well. -/
def noted {α : Type} (x : Audit LoadError α) : Audit LoadError α :=
  match x.result with
  | .ok _ => x
  | .error e => ⟨.error e, x.notes ++ [.failure e.message]⟩

/-- A conversation needs a name. -/
def auditName (name lack : String) : Audit LoadError Unit :=
  if Text.IsBlank name then ⟨.error .emptyName, [.failure lack]⟩ else Audit.pass ()

/-- Puts a conversation that is known to be sound under a name. -/
def shelve (l : Library) (name : String) (c : Conversation) : Audit LoadError Library :=
  ⟨.ok ⟨l.scripts.insert name c.prepare.value⟩, c.prepare.notes ++
    if l.scripts.contains name then [.warning "conversation overwritten"] else []⟩

/-- Inserts a conversation. -/
def insert (l : Library) (name : String) (c : Conversation) : Audit LoadError Library := do
  auditName name "cannot register a conversation without a name"
  noted (c.audit.mapError (.invalid name))
  l.shelve name c

/-- Inserts the conversation that a text writes. -/
def load (l : Library) (name text : String) : Audit LoadError Library := do
  auditName name "cannot load a conversation without a name"
  let c ← noted (Audit.ofExcept ((Conversation.ofText text).mapError (.malformed name)))
  l.insert name c

/-- The text of a file. -/
def readFile (node? : Option Node) : Audit LoadError String :=
  match node?.bind Node.text? with
  | some text => Audit.pass text
  | none => Audit.fail .unreadableFile

/-- Loads a file under its stem, which is part of the result. -/
def loadFile (l : Library) (path : String) (node? : Option Node) :
    Audit LoadError (String × Library) := do
  let text ← readFile node?
  let l ← l.load (fileStem path) text
  return (fileStem path, l)

/-- What comes of loading many scripts: the library then, and the names loaded. -/
structure Loading where
  library : Library
  result : Except LoadError (List String)
  notes : List Note

/-- Loads files one after the other. What is no text stops it; a script that is refused does not. -/
def loadAll (l : Library) : List (String × Node) → Loading
  | [] => ⟨l, .ok [], []⟩
  | (file, node) :: rest =>
    let first := l.loadFile file (some node)
    match first.result with
    | .ok (name, l) =>
      let more := loadAll l rest
      ⟨more.library, more.result.map (name :: ·), first.notes ++ more.notes⟩
    | .error .unreadableFile => ⟨l, .error .unreadableFile, first.notes⟩
    | .error _ =>
      let more := loadAll l rest
      { more with
        notes := first.notes ++ .warning "skipping invalid conversation" :: more.notes }

/-- The scripts among the entries of a directory, in the order of their names. -/
def scriptsOf (entries : List (String × Node)) : List (String × Node) :=
  (Node.sortedEntries entries).filter fun e => hasExtension "json" e.1

/-- Loads the scripts of a directory. -/
def loadDirectory (l : Library) : Option Node → Loading
  | some (.directory entries) => l.loadAll (scriptsOf entries)
  | _ => ⟨l, .error .unreadableFile, []⟩

/-! ## What loading does to the view -/

@[simp] theorem get?_empty (name : String) : empty.get? name = none := rfl

@[simp] theorem result_noted {α : Type} (x : Audit LoadError α) : (noted x).result = x.result := by
  unfold noted
  split <;> simp_all

@[simp] theorem result_auditName {name lack : String} :
    (auditName name lack).result = .ok () ↔ ¬ Text.IsBlank name := by
  unfold auditName
  split <;> simp_all

theorem result_noted_eq_ok_iff {α : Type} {x : Audit LoadError α} {a : α} :
    (noted x).result = .ok a ↔ x.result = .ok a := by rw [result_noted]

/-- A conversation is inserted exactly if it has a name and passes the check, and nothing else in
the library changes. -/
theorem result_insert_eq_ok_iff {l m : Library} {name : String} {c : Conversation} :
    (l.insert name c).result = .ok m ↔
      ¬ Text.IsBlank name ∧ c.audit.result = .ok () ∧
        m = ⟨l.scripts.insert name c.prepare.value⟩ := by
  rw [insert, Audit.result_bind_eq_ok_iff]
  constructor
  · rintro ⟨⟨⟩, hn, h⟩
    obtain ⟨⟨⟩, ha, h⟩ := Audit.result_bind_eq_ok_iff.1 h
    rw [result_noted_eq_ok_iff, Audit.result_mapError_eq_ok_iff] at ha
    exact ⟨result_auditName.1 hn, ha, (Except.ok.inj h).symm⟩
  · rintro ⟨hn, ha, rfl⟩
    refine ⟨(), result_auditName.2 hn, Audit.result_bind_eq_ok_iff.2 ⟨(), ?_, rfl⟩⟩
    rwa [result_noted_eq_ok_iff, Audit.result_mapError_eq_ok_iff]

theorem result_reading_eq_ok_iff {name : String} {r : Except Json.Error Conversation}
    {c : Conversation} :
    (noted (Audit.ofExcept (r.mapError (LoadError.malformed name)))).result = .ok c ↔
      r = .ok c := by
  rw [result_noted_eq_ok_iff, Audit.result_ofExcept, Audit.mapError_eq_ok_iff]

/-- A text is loaded exactly if it writes a conversation that is inserted. -/
theorem result_load_eq_ok_iff {l m : Library} {name text : String} :
    (l.load name text).result = .ok m ↔
      ∃ c, Conversation.ofText text = .ok c ∧ (l.insert name c).result = .ok m := by
  rw [load, Audit.result_bind_eq_ok_iff]
  constructor
  · rintro ⟨⟨⟩, -, h⟩
    rw [Audit.result_bind_eq_ok_iff] at h
    obtain ⟨c, hc, h⟩ := h
    exact ⟨c, result_reading_eq_ok_iff.1 hc, h⟩
  · rintro ⟨c, hc, h⟩
    refine ⟨(), result_auditName.2 (result_insert_eq_ok_iff.1 h).1, ?_⟩
    rw [Audit.result_bind_eq_ok_iff]
    exact ⟨c, result_reading_eq_ok_iff.2 hc, h⟩

/-- Inserting changes the entry of one name only. -/
theorem get?_of_insert {l m : Library} {name : String} {c : Conversation}
    (h : (l.insert name c).result = .ok m) (other : String) :
    m.get? other = if name = other then some c.prepare.value else l.get? other := by
  obtain ⟨-, -, rfl⟩ := result_insert_eq_ok_iff.1 h
  exact Registry.get?_insert ..

end Library

end Colloquy
