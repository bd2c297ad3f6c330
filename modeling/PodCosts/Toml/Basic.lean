/-!
# Tables of settings

A settings file is a table of named values in the TOML format. A name may be given only once, and a
table that has been written in one way may not be continued in another. How each table came about is
kept with it, because that decides what may still be added to it.
-/

namespace PodCosts.Toml

/-- How a table came about. -/
inductive Origin where
  /-- By a header of its own. -/
  | header
  /-- As a step on the way to another header. -/
  | passing
  /-- By a dotted key. -/
  | dotted
deriving DecidableEq

/-- A value of a table. -/
inductive Item where
  | string (value : String)
  | int (value : Int)
  | float (value : Float)
  | bool (value : Bool)
  /-- A date or a time; nothing is made of it. -/
  | moment
  | array (items : List Item)
  /-- A table between braces, which is closed for good. -/
  | inline (entries : List (String × Item))
  | table (origin : Origin) (entries : List (String × Item))
  /-- Tables with the same header in double brackets, the latest one last. -/
  | tables (items : List (List (String × Item)))

/-- The values of a table by name. -/
abbrev Entries := List (String × Item)

namespace Entries

/-- The value of a name. -/
def get? (name : String) (entries : Entries) : Option Item :=
  (entries.find? fun entry => entry.1 == name).map Prod.snd

/-- The values of all other names. -/
def without (name : String) (entries : Entries) : Entries :=
  entries.filter fun entry => entry.1 != name

/-- Sets a name to a value, in its place if it has one. -/
def set (name : String) (value : Item) : Entries → Entries
  | [] => [(name, value)]
  | entry :: rest =>
    if entry.1 == name then (name, value) :: rest else entry :: set name value rest

/-- Changes the table at the end of a path of headers. Tables on the way come about if they are
missing, and of tables in double brackets the latest one is meant. -/
def changeAt? {α : Type} (change : Entries → Option (Entries × α)) :
    List String → Entries → Option (Entries × α)
  | [], entries => change entries
  | name :: path, entries =>
    match get? name entries with
    | none => do
      let (inner, result) ← changeAt? change path []
      some (set name (.table .passing inner) entries, result)
    | some (.table origin held) => do
      let (inner, result) ← changeAt? change path held
      some (set name (.table origin inner) entries, result)
    | some (.tables items) => do
      let latest ← items.getLast?
      let (inner, result) ← changeAt? change path latest
      some (set name (.tables (items.dropLast ++ [inner])) entries, result)
    | some _ => none

/-- Adds a value under a new name. -/
def add? (name : String) (value : Item) (entries : Entries) : Option Entries :=
  if (get? name entries).isSome then none else some (entries ++ [(name, value)])

/-- Adds a value under a dotted key, given the names before the last one. The tables on the way must
not have a header of their own, and the last one must come from dotted keys too. `open?` tells
whether the table at hand may take the value itself. -/
def addDotted? (name : String) (value : Item) : Bool → List String → Entries → Option Entries
  | isOpen, [], entries => if isOpen then add? name value entries else none
  | _, step :: path, entries =>
    match get? step entries with
    | none => do
      let inner ← addDotted? name value true path []
      some (set step (.table .dotted inner) entries)
    | some (.table .header _) => none
    | some (.table origin held) => do
      let inner ← addDotted? name value (origin == .dotted) path held
      some (set step (.table origin inner) entries)
    | some (.tables items) => do
      let latest ← items.getLast?
      let inner ← addDotted? name value false path latest
      some (set step (.tables (items.dropLast ++ [inner])) entries)
    | some _ => none

/-- Adds a value under a key of one or more names. -/
def addKey? (key : List String) (value : Item) (entries : Entries) : Option Entries := do
  let name ← key.getLast?
  addDotted? name value true key.dropLast entries

end Entries

/-- A settings file that has been read up to some line: the tables that are complete, and the one
that lines are being added to. -/
structure Document where
  complete : Entries
  /-- The header of the table at hand; empty before the first header. -/
  path : List String
  /-- Whether the header stands in double brackets. -/
  repeated : Bool
  current : Entries

namespace Document

/-- Nothing has been read. -/
def start : Document := ⟨[], [], false, []⟩

/-- Puts the table at hand in its place. -/
def settle? (document : Document) : Option Entries :=
  match document.path.getLast? with
  | none => some document.current
  | some name =>
    let place (parent : Entries) : Option (Entries × Unit) :=
      if document.repeated then
        match Entries.get? name parent with
        | none => some (Entries.set name (.tables [document.current]) parent, ())
        | some (.tables items) =>
          some (Entries.set name (.tables (items ++ [document.current])) parent, ())
        | some _ => none
      else
        (Entries.add? name (.table .header document.current) parent).map fun added => (added, ())
    (Entries.changeAt? place document.path.dropLast document.complete).map Prod.fst

/-- A header in single brackets. A table that only lies on the way to other headers is taken up
again; any other one of that name is in the way. -/
def openTable? (document : Document) (key : List String) : Option Document := do
  let complete ← document.settle?
  let name ← key.getLast?
  let take (parent : Entries) : Option (Entries × Entries) :=
    match Entries.get? name parent with
    | none => some (parent, [])
    | some (.table .passing held) => some (Entries.without name parent, held)
    | some _ => none
  let (complete, current) ← Entries.changeAt? take key.dropLast complete
  some ⟨complete, key, false, current⟩

/-- A header in double brackets. -/
def openRepeated? (document : Document) (key : List String) : Option Document := do
  let complete ← document.settle?
  let name ← key.getLast?
  let check (parent : Entries) : Option (Entries × Unit) :=
    match Entries.get? name parent with
    | none => some (parent, ())
    | some (.tables _) => some (parent, ())
    | some _ => none
  let (complete, _) ← Entries.changeAt? check key.dropLast complete
  some ⟨complete, key, true, []⟩

/-- A line with a key and a value. -/
def add? (document : Document) (key : List String) (value : Item) : Option Document := do
  let current ← Entries.addKey? key value document.current
  some { document with current }

end Document

end PodCosts.Toml
