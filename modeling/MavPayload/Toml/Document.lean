import MavPayload.Toml.Line

/-!
TOML files as what their paths stand for: values, tables and arrays of tables. A path is
given a value once. A table is begun once, by a header, by a dotted key, or by a header of
a table inside it, and only one begun in the last way may still get a header.
-/

namespace MavPayload.Toml

inductive Entry where
  | value (value : Value)
  /-- A table on the way to one with a header. -/
  | implied
  | headed
  /-- A table on the way to a value with a dotted key. -/
  | dotted
  /-- An array of tables, of which the last one is meant. -/
  | array
deriving DecidableEq, Repr

namespace Entry

def admitsHeader : Entry → Bool
  | value _ => false
  | implied | headed | dotted | array => true

def admitsKey : Entry → Bool
  | value _ | headed => false
  | implied | dotted | array => true

end Entry

structure Document where
  /-- What paths stand for, the last word on each first. -/
  entries : List (Path × Entry) := []
  /-- The table that assignments go to. -/
  current : Path := []
deriving DecidableEq, Repr

namespace Document

def get? (document : Document) (path : Path) : Option Entry :=
  document.entries.lookup path

def insert (document : Document) (path : Path) (entry : Entry) : Document :=
  { document with entries := (path,entry) :: document.entries }

/-- The names right below a path; one is repeated if there is more below it. -/
def namesBelow (document : Document) (path : Path) : List String :=
  document.entries.filterMap fun (held,_) =>
    if path.isPrefixOf held then held[path.length]? else none

def around (path : Path) : List Path :=
  (List.range path.length).tail.map path.take

/-- Goes to a table through those around it. One that does not exist yet becomes `new`. -/
def enter (document : Document) (admits : Entry → Bool) (new : Entry) (paths : List Path) :
    Option Document :=
  paths.foldlM (fun document path =>
    match document.get? path with
    | none => some (document.insert path new)
    | some entry => if admits entry then some document else none) document

def isDotted (document : Document) (path : Path) : Bool :=
  document.get? path == some .dotted

/-- The value of a key, which must be new, below the current table. -/
def assign (document : Document) (key : Path) (value : Value) : Option Document := do
  let below (path : Path) := document.current ++ path
  let entered ← document.enter Entry.admitsKey .dotted ((around key).map below)
  if key.length ≠ 1 ∧ !entered.isDotted (below key.dropLast) then none
  if (entered.get? (below key)).isSome then none
  return entered.insert (below key) (.value value)

def openTable (document : Document) (path : Path) : Option Document := do
  let entered ← document.enter Entry.admitsHeader .implied (around path)
  match entered.get? path with
  | none | some .implied => return { entered.insert path .headed with current := path }
  | _ => none

/-- The header of an array's next table. Nothing of the last one is kept. -/
def openArray (document : Document) (path : Path) : Option Document := do
  let entered ← document.enter Entry.admitsHeader .implied (around path)
  match entered.get? path with
  | none | some .array => return {
      entries := (path,.array) :: entered.entries.filter fun (held,_) => !path.isPrefixOf held
      current := path }
  | _ => none

def add (document : Document) : Line → Option Document
  | .blank => some document
  | .assign key value => document.assign key value
  | .table path => document.openTable path
  | .tableOfArray path => document.openArray path

/-- The lines of a text, which end in a line feed or in a carriage return and a line feed. -/
def splitLines : List Char → List (List Char)
  | [] => [[]]
  | '\r' :: '\n' :: rest => [] :: splitLines rest
  | '\n' :: rest => [] :: splitLines rest
  | char :: rest =>
    match splitLines rest with
    | [] => [[char]]
    | line :: lines => (char :: line) :: lines

def withoutMark : List Char → List Char
  | '\uFEFF' :: rest => rest
  | chars => chars

def ofText? (text : String) : Option Document :=
  (splitLines (withoutMark text.toList)).foldlM (fun document line => do
    document.add (← line? line)) {}

end Document

def quotedChar (char : Char) : List Char :=
  match char with
  | '"' => ['\\','"']
  | '\\' => ['\\','\\']
  | '\x08' => ['\\','b']
  | '\x0C' => ['\\','f']
  | '\t' => ['\\','t']
  | '\n' => ['\\','n']
  | '\r' => ['\\','r']
  | char =>
    if isControl char then
      ['\\','u','0','0',(Nat.digitChar (char.toNat / 16)).toUpper,
       (Nat.digitChar (char.toNat % 16)).toUpper]
    else [char]

def quoted (text : String) : String :=
  String.ofList ('"' :: text.toList.flatMap quotedChar ++ ['"'])

end MavPayload.Toml
