import ArrayInference.Toml.Scalar

/-!
# TOML documents

A document is a table of named values. Reading one also checks that nothing is defined twice: a
table has at most one header, a header does not reopen a table that dotted keys have made, and
dotted keys do not add to a table that has a header.
-/

namespace ArrayInference.Toml

/-- How a table has come about. -/
inductive Origin where
  /-- By a header of its own. -/
  | header
  /-- On the way to a table with a header. -/
  | implied
  /-- By a dotted key. -/
  | dotted
  /-- In braces, so that nothing can be added to it. -/
  | inline
deriving DecidableEq, Repr

/-- What a key of a document stands for. Of a list of tables only the last one can still be added
to, and only that one is kept. -/
inductive Item where
  | integer (value : Int)
  | boolean (value : Bool)
  /-- A string, a float, a date, or a list of values. -/
  | other
  | table (origin : Origin) (entries : List (String × Item))
  | tables (last : List (String × Item))

/-- The entries of a table. -/
abbrev Entries := List (String × Item)

/-- Adds an entry under a name that is not taken. -/
def addNew? (entries : Entries) (name : String) (item : Item) : Option Entries :=
  if (entries.lookup name).isSome then none else some (entries ++ [(name, item)])

/-- Puts an entry in place of the one of that name. -/
def replace (entries : Entries) (name : String) (item : Item) : Entries :=
  entries.map fun (n, old) => if n = name then (n, item) else (n, old)

/-- Changes the table behind a path of names, and makes the tables on the way that are missing. A
header passes through every table but those in braces; a dotted key does not pass through a table
with a header. -/
def atPath (dotted : Bool) (path : List String) (change : Origin → Entries → Option Entries)
    (origin : Origin) (entries : Entries) : Option Entries :=
  match path with
  | [] => change origin entries
  | name :: path =>
    let made := if dotted then Origin.dotted else Origin.implied
    match entries.lookup name with
    | none => do
        let inner ← atPath dotted path change made []
        addNew? entries name (.table made inner)
    | some (.table .inline _) => none
    | some (.table .header inner) =>
      if dotted then none
      else do
        let inner ← atPath dotted path change .header inner
        return replace entries name (.table .header inner)
    | some (.table origin inner) => do
        let inner ← atPath dotted path change origin inner
        return replace entries name (.table origin inner)
    | some (.tables last) => do
        let last ← atPath dotted path change .header last
        return replace entries name (.tables last)
    | some _ => none

/-- Opens the table of a header. -/
def openTable? (root : Entries) (path : List String) : Option Entries :=
  match path.getLast? with
  | none => none
  | some name =>
    atPath false path.dropLast
      (fun _ entries =>
        match entries.lookup name with
        | none => addNew? entries name (.table .header [])
        | some (.table .implied inner) => some (replace entries name (.table .header inner))
        | some _ => none)
      .header root

/-- Opens the next table of a list of tables. -/
def openNext? (root : Entries) (path : List String) : Option Entries :=
  match path.getLast? with
  | none => none
  | some name =>
    atPath false path.dropLast
      (fun _ entries =>
        match entries.lookup name with
        | none => addNew? entries name (.tables [])
        | some (.tables _) => some (replace entries name (.tables []))
        | some _ => none)
      .header root

/-- Defines a dotted key inside a table. The last table on the way must come from dotted keys. -/
def define? (entries : Entries) (path : List String) (item : Item) : Option Entries :=
  match path.getLast? with
  | none => none
  | some name =>
    if path.length = 1 then addNew? entries name item
    else
      atPath true path.dropLast
        (fun origin entries => if origin = .dotted then addNew? entries name item else none)
        .header entries

/-- Whether a character can belong to a number, a date or a word. -/
def isTokenChar (c : Char) : Bool :=
  c.isAlphanum || c = '_' || c = '-' || c = '+' || c = '.' || c = ':'

/-- A number, a date or a word. A date may go on with a time after one space. -/
def token (cs : Rest) : List Char × Rest :=
  let first := cs.takeWhile isTokenChar
  let rest := cs.drop first.length
  match rest with
  | ' ' :: after =>
    let second := after.takeWhile isTokenChar
    let both := first ++ ' ' :: second
    if isDateTime both then (both, after.drop second.length) else (first, rest)
  | _ => (first, rest)

/-- The largest whole number that a document may hold. -/
def maxInteger : Int := Int.ofNat (Decimal.twoTo 128) - 1

/-- The smallest whole number that a document may hold. -/
def minInteger : Int := -Int.ofNat (Decimal.twoTo 127)

/-- What a number, a date or a word stands for. -/
def tokenItem? (token : List Char) : Option Item :=
  if token = "true".toList then some (.boolean true)
  else if token = "false".toList then some (.boolean false)
  else
    match integer? token with
    | some n => if minInteger ≤ n ∧ n ≤ maxInteger then some (.integer n) else none
    | none => if isFloat token || isDateTime token then some .other else none

/-- How deep lists and tables in braces may be nested. -/
def maxDepth : Nat := 80

mutual

/-- A value. -/
def value? (fuel depth : Nat) (cs : Rest) : Option (Item × Rest) :=
  match fuel, depth with
  | 0, _ => none
  | fuel + 1, depth =>
    match cs with
    | '[' :: cs =>
      match depth with
      | 0 => none
      | depth + 1 => (items? fuel depth (skipLines fuel cs)).map fun cs => (.other, cs)
    | '\x7b' :: cs =>
      match depth with
      | 0 => none
      | depth + 1 => do
          let (entries, cs) ← pairs? fuel depth [] (skipLines fuel cs)
          return (.table .inline entries, cs)
    | '"' :: _ | '\'' :: _ => (string? cs).map fun (_, cs) => (.other, cs)
    | cs =>
      let (read, cs) := token cs
      (tokenItem? read).map fun item => (item, cs)

/-- The rest of a list, up to and with its closing bracket. A comma may stand after the last
value. -/
def items? (fuel depth : Nat) (cs : Rest) : Option Rest :=
  match fuel, cs with
  | 0, _ => none
  | _, ']' :: cs => some cs
  | fuel + 1, cs => do
      let (_, cs) ← value? fuel depth cs
      match skipLines fuel cs with
      | ',' :: cs => items? fuel depth (skipLines fuel cs)
      | ']' :: cs => some cs
      | _ => none

/-- The rest of a table in braces, up to and with its closing brace. A comma may stand after the last
pair, and lines may break around every equals sign, comma and brace. -/
def pairs? (fuel depth : Nat) (entries : Entries) (cs : Rest) : Option (Entries × Rest) :=
  match fuel, cs with
  | 0, _ => none
  | _, '\x7d' :: cs => some (entries, cs)
  | fuel + 1, cs => do
      let (path, cs) ← key? cs
      let '=' :: cs := skipLines fuel cs | none
      let (item, cs) ← value? fuel depth (skipLines fuel cs)
      let entries ← define? entries path item
      match skipLines fuel cs with
      | ',' :: cs => pairs? fuel depth entries (skipLines fuel cs)
      | '\x7d' :: cs => some (entries, cs)
      | _ => none

end

/-- What has been read of a document: its entries, and the header under which the next keys stand. -/
structure Draft where
  root : Entries
  here : List String

/-- A pair of a key and a value, or a header, at the start of a line. -/
def line? (fuel : Nat) (doc : Draft) (cs : Rest) : Option (Draft × Rest) :=
  match cs with
  | '[' :: '[' :: cs => do
      let (path, cs) ← key? cs
      let ']' :: ']' :: cs := cs | none
      let root ← openNext? doc.root path
      return ({ root, here := path }, cs)
  | '[' :: cs => do
      let (path, cs) ← key? cs
      let ']' :: cs := cs | none
      let root ← openTable? doc.root path
      return ({ root, here := path }, cs)
  | cs => do
      let (path, cs) ← key? cs
      let '=' :: cs := cs | none
      let (item, cs) ← value? fuel maxDepth (skipBlanks cs)
      let root ← atPath false doc.here (fun _ entries => define? entries path item) .header doc.root
      return ({ doc with root }, cs)

/-- The lines of a document. -/
def lines? (fuel : Nat) (doc : Draft) (cs : Rest) : Option Entries :=
  match fuel with
  | 0 => none
  | fuel + 1 =>
    match skipBlanks cs with
    | [] => some doc.root
    | cs =>
      match endOfLine? cs with
      | some cs => lines? fuel doc cs
      | none => do
          let (doc, cs) ← line? (fuel + 1) doc cs
          let cs ← endOfLine? cs
          lines? fuel doc cs

/-- A document without the mark that may stand at its start. -/
def dropMark : Rest → Rest
  | '\ufeff' :: cs => cs
  | cs => cs

/-- The entries of a document, if it is well formed. -/
def parse? (source : String) : Option Entries :=
  let cs := dropMark source.toList
  lines? (2 * cs.length + 2) { root := [], here := [] } cs

end ArrayInference.Toml
