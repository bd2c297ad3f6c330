import PodCosts.Toml.Scalar

/-!
# Reading settings files

`read?` gives the table that a file is, or nothing if the file breaks a rule of the format. Values
are read by recursion on how deep they may still be nested, and rows of values, lines and names by
`fuel`, for which the length of the text is enough.
-/

namespace PodCosts.Toml

/-- A reader of values. -/
abbrev ValueReader := List Char → Option (Item × List Char)

/-- How deep arrays and tables between braces may be nested, and how many names a dotted key may
have. -/
def nestingLimit : Nat := 79

/-- The text behind blanks. -/
def skipSpaces (cs : List Char) : List Char :=
  cs.dropWhile isSpace

/-- The text behind blanks, comments and line breaks. `inComment` tells whether it begins inside a
comment. -/
def skipGap (inComment : Bool) : List Char → List Char
  | [] => []
  | '\n' :: cs => skipGap false cs
  | '\r' :: '\n' :: cs => skipGap false cs
  | c :: cs =>
    if inComment then if isPlain c then skipGap true cs else c :: cs
    else if isSpace c then skipGap false cs
    else if c = '#' then skipGap true cs
    else c :: cs

/-- The text behind a comment, if it begins with one. -/
def skipComment : List Char → List Char
  | '#' :: cs => cs.dropWhile isPlain
  | cs => cs

/-- The text behind the line, if nothing but blanks and a comment is left of it. -/
def lineEnd? (cs : List Char) : Option (List Char) :=
  match skipComment (skipSpaces cs) with
  | [] => some []
  | rest => newline? rest

/-! ## Keys -/

/-- Characters of a name without quotes. -/
def isBare (c : Char) : Bool :=
  c.isAlphanum || c == '_' || c == '-'

/-- One name of a key. -/
def name? : List Char → Option (String × List Char)
  | '"' :: cs => (basic? cs.length cs).map fun (text, rest) => (String.ofList text, rest)
  | '\'' :: cs => (literal? cs).map fun (text, rest) => (String.ofList text, rest)
  | cs =>
    let text := cs.takeWhile isBare
    if text.isEmpty then none else some (String.ofList text, cs.drop text.length)

/-- A key of at most so many names, with the blanks around it. -/
def key? : Nat → List Char → Option (List String × List Char)
  | 0, _ => none
  | count + 1, cs => do
    let (name, cs) ← name? (skipSpaces cs)
    match skipSpaces cs with
    | '.' :: cs => do
      let (names, cs) ← key? count cs
      some (name :: names, cs)
    | cs => some ([name], cs)

/-! ## Values -/

/-- A key and its value. -/
def assignment? (value? : ValueReader) (cs : List Char) :
    Option ((List String × Item) × List Char) := do
  let (key, cs) ← key? nestingLimit cs
  let cs ← Timestamp.skip? '=' cs
  let (item, cs) ← value? (skipSpaces cs)
  some ((key, item), cs)

/-- The rest of an array. A comma may stand behind the last item. -/
def items? (value? : ValueReader) : Nat → List Char → Option (List Item × List Char)
  | 0, _ => none
  | fuel + 1, cs =>
    match skipGap false cs with
    | ']' :: rest => some ([], rest)
    | cs => do
      let (item, cs) ← value? cs
      match skipGap false cs with
      | ',' :: rest => do
        let (items, rest) ← items? value? fuel rest
        some (item :: items, rest)
      | ']' :: rest => some ([item], rest)
      | _ => none

/-- The rest of a table between braces that is not empty. It stands on one line, and no comma stands
behind its last key. -/
def members? (value? : ValueReader) :
    Nat → List Char → Option (List (List String × Item) × List Char)
  | 0, _ => none
  | fuel + 1, cs => do
    let (member, cs) ← assignment? value? cs
    match skipSpaces cs with
    | ',' :: rest => do
      let (members, rest) ← members? value? fuel rest
      some (member :: members, rest)
    | '}' :: rest => some ([member], rest)
    | _ => none

/-- The rest of a table between braces. -/
def inline? (value? : ValueReader) (cs : List Char) : Option (Item × List Char) :=
  match skipSpaces cs with
  | '}' :: rest => some (.inline [], rest)
  | cs => do
    let (members, rest) ← members? value? cs.length cs
    let entries ← members.foldlM
      (fun entries member => Entries.addKey? member.1 member.2 entries) []
    some (.inline entries, rest)

/-- A value in which at most `depth` arrays and tables lie inside one another. -/
def value? : Nat → ValueReader
  | depth + 1, '[' :: cs => do
    let (items, rest) ← items? (value? depth) (cs.length + 1) cs
    some (.array items, rest)
  | depth + 1, '{' :: cs => inline? (value? depth) cs
  | _, cs => scalar? cs

/-! ## Lines -/

/-- A header, or a key with its value. -/
def statement? (document : Document) (cs : List Char) : Option (Document × List Char) :=
  match cs with
  | '[' :: '[' :: cs => do
    let (key, cs) ← key? nestingLimit cs
    match cs with
    | ']' :: ']' :: rest => (document.openRepeated? key).map fun document => (document, rest)
    | _ => none
  | '[' :: cs => do
    let (key, cs) ← key? nestingLimit cs
    match cs with
    | ']' :: rest => (document.openTable? key).map fun document => (document, rest)
    | _ => none
  | cs => do
    let ((key, item), rest) ← assignment? (value? nestingLimit) cs
    let document ← document.add? key item
    some (document, rest)

/-- Reads line after line into a document. -/
def lines? : Nat → Document → List Char → Option Document
  | _, document, [] => some document
  | 0, _, _ => none
  | fuel + 1, document, cs =>
    match lineEnd? cs with
    | some rest => lines? fuel document rest
    | none => do
      let (document, rest) ← statement? document (skipSpaces cs)
      let rest ← lineEnd? rest
      lines? fuel document rest

/-- The text behind a byte order mark, if it begins with one. -/
def skipMark : List Char → List Char
  | '\uFEFF' :: cs => cs
  | cs => cs

/-- The table that a file is. -/
def read? (text : String) : Option Entries := do
  let cs := skipMark text.toList
  let document ← lines? cs.length Document.start cs
  document.settle?

end PodCosts.Toml
