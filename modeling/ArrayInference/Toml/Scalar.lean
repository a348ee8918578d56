import ArrayInference.Decimal.Range

/-!
# Characters and scalars of a TOML document

Reading the smallest parts of a document: blanks, comments, keys, strings, numbers and dates. Every
reader takes the characters that are left and returns what it has read with the rest, or nothing if
the part is not well formed.
-/

namespace ArrayInference.Toml

/-- The characters of a document that have not been read. -/
abbrev Rest := List Char

/-- A reader of some part of a document. -/
abbrev Reader (α : Type) := Rest → Option (α × Rest)

/-- Whether a character may stand in a comment or a string: no control but the tab. -/
def isPlain (c : Char) : Bool :=
  c = '\t' || (0x20 ≤ c.toNat && c.toNat ≠ 0x7f)

/-- Drops spaces and tabs. -/
def skipBlanks (cs : Rest) : Rest :=
  cs.dropWhile fun c => c = ' ' || c = '\t'

/-- Drops a comment up to the end of its line. -/
def skipComment : Rest → Rest
  | '#' :: cs => cs.dropWhile isPlain
  | cs => cs

/-- A line break. -/
def newline? : Rest → Option Rest
  | '\n' :: cs => some cs
  | '\r' :: '\n' :: cs => some cs
  | _ => none

/-- Drops blanks, comments and line breaks. -/
def skipLines (fuel : Nat) (cs : Rest) : Rest :=
  match fuel with
  | 0 => cs
  | fuel + 1 =>
    let cs := skipComment (skipBlanks cs)
    match newline? cs with
    | some cs => skipLines fuel cs
    | none => cs

/-- The end of a line: blanks, a comment, and a line break or the end of the document. -/
def endOfLine? (cs : Rest) : Option Rest :=
  let cs := skipComment (skipBlanks cs)
  match cs with
  | [] => some []
  | cs => newline? cs

/-- The value of a digit in some base. -/
def digit? (base : Nat) (c : Char) : Option Nat :=
  let value :=
    if c.isDigit then c.toNat - '0'.toNat
    else if 'a' ≤ c ∧ c ≤ 'f' then c.toNat - 'a'.toNat + 10
    else if 'A' ≤ c ∧ c ≤ 'F' then c.toNat - 'A'.toNat + 10
    else 16
  if value < base then some value else none

/-- The number that some digits write. -/
def number? (base : Nat) (digits : List Char) : Option Nat :=
  if digits.isEmpty then none
  else digits.foldlM (fun n c => (digit? base c).map fun d => n * base + d) 0

/-- The character with a code point that is written in this many hexadecimal digits. -/
def codePoint? (count : Nat) : Reader Char := fun cs =>
  let digits := cs.take count
  if digits.length < count then none
  else
    match number? 16 digits with
    | some n => if h : n.isValidChar then some (Char.ofNatAux n h, cs.drop count) else none
    | none => none

/-- The character that an escape stands for, after its backslash. -/
def escape? : Reader Char
  | 'b' :: cs => some ('\x08', cs)
  | 't' :: cs => some ('\t', cs)
  | 'n' :: cs => some ('\n', cs)
  | 'f' :: cs => some ('\x0c', cs)
  | 'r' :: cs => some ('\r', cs)
  | 'e' :: cs => some ('\x1b', cs)
  | '"' :: cs => some ('"', cs)
  | '\\' :: cs => some ('\\', cs)
  | 'x' :: cs => codePoint? 2 cs
  | 'u' :: cs => codePoint? 4 cs
  | 'U' :: cs => codePoint? 8 cs
  | _ => none

/-- The rest of a string on one line, after its opening quote. -/
def basicString? (fuel : Nat) (read : List Char) (cs : Rest) : Option (String × Rest) :=
  match fuel, cs with
  | 0, _ => none
  | _, '"' :: cs => some (String.ofList read.reverse, cs)
  | fuel + 1, '\\' :: cs => do
      let (c, cs) ← escape? cs
      basicString? fuel (c :: read) cs
  | fuel + 1, c :: cs => if isPlain c then basicString? fuel (c :: read) cs else none
  | _, [] => none

/-- The rest of a string without escapes on one line, after its opening quote. -/
def literalString? (cs : Rest) : Option (String × Rest) :=
  let text := cs.takeWhile fun c => c ≠ '\'' && isPlain c
  match cs.drop text.length with
  | '\'' :: cs => some (String.ofList text, cs)
  | _ => none

/-- Drops what may follow a backslash at the end of a line: blanks, and all blanks and line breaks
after the first line break. -/
def skipFolded? (cs : Rest) : Option Rest :=
  (newline? (skipBlanks cs)).map fun cs =>
    cs.dropWhile fun c => c = ' ' || c = '\t' || c = '\n' || c = '\r'

/-- How many quotes a text opens with, counting at most five. -/
def quoteRun (quote : Char) (cs : Rest) : Nat :=
  ((cs.take 5).takeWhile (· = quote)).length

/-- The rest of a string of several lines, after its opening quotes. Up to two quotes may stand
before the closing ones. -/
def longString? (quote : Char) (escapes : Bool) (fuel : Nat) (read : List Char) (cs : Rest) :
    Option (String × Rest) :=
  match fuel with
  | 0 => none
  | fuel + 1 =>
    let run := quoteRun quote cs
    if 3 ≤ run then
      some (String.ofList (read.reverse ++ List.replicate (run - 3) quote), cs.drop run)
    else
      match cs with
      | [] => none
      | '\\' :: rest =>
        if escapes then
          match skipFolded? rest with
          | some rest => longString? quote escapes fuel read rest
          | none => do
              let (c, rest) ← escape? rest
              longString? quote escapes fuel (c :: read) rest
        else longString? quote escapes fuel ('\\' :: read) rest
      | c :: rest =>
        match newline? cs with
        | some rest => longString? quote escapes fuel ('\n' :: read) rest
        | none => if isPlain c then longString? quote escapes fuel (c :: read) rest else none

/-- A text after the line break that may follow the opening quotes of a string of several lines. -/
def dropFirstBreak (cs : Rest) : Rest :=
  (newline? cs).getD cs

/-- A string on one line. -/
def shortString? : Reader String
  | '"' :: cs => basicString? (cs.length + 1) [] cs
  | '\'' :: cs => literalString? cs
  | _ => none

/-- A string in any of its four forms. -/
def string? : Reader String
  | '"' :: '"' :: '"' :: cs => longString? '"' true (cs.length + 1) [] (dropFirstBreak cs)
  | '\'' :: '\'' :: '\'' :: cs => longString? '\'' false (cs.length + 1) [] (dropFirstBreak cs)
  | cs => shortString? cs

/-- Whether a character may stand in a key without quotes. -/
def isBare (c : Char) : Bool :=
  c.isAlphanum || c = '_' || c = '-'

/-- One part of a key. -/
def keyPart? (cs : Rest) : Option (String × Rest) :=
  match shortString? cs with
  | some result => some result
  | none =>
    let name := cs.takeWhile isBare
    if name.isEmpty then none else some (String.ofList name, cs.drop name.length)

/-- One or more parts of a key with dots between them, but no more than allowed. -/
def keyParts? (allowed : Nat) (cs : Rest) : Option (List String × Rest) :=
  match allowed with
  | 0 => none
  | allowed + 1 => do
      let (part, cs) ← keyPart? (skipBlanks cs)
      match skipBlanks cs with
      | '.' :: cs => do
          let (parts, cs) ← keyParts? allowed cs
          return (part :: parts, cs)
      | cs => return ([part], cs)

/-- The largest number of parts of a key. -/
def maxParts : Nat := 80

/-- A key: one or more parts with dots between them. -/
def key? : Reader (List String) :=
  keyParts? maxParts

/-- Digits with single underscores between them, in some base. -/
def grouped? (base : Nat) (digits : List Char) : Option Nat :=
  let groups := (String.ofList digits).splitOn "_"
  if groups.any String.isEmpty then none else number? base (digits.filter (· ≠ '_'))

/-- A whole number in decimal, without a zero in front. -/
def decimal? (digits : List Char) : Option Nat :=
  match digits with
  | '0' :: _ :: _ => none
  | _ => grouped? 10 digits

/-- The sign in front of a number, and the number. -/
def splitSign : List Char → Int × List Char
  | '+' :: cs => (1, cs)
  | '-' :: cs => (-1, cs)
  | cs => (1, cs)

/-- An integer. -/
def integer? (token : List Char) : Option Int :=
  match token with
  | '0' :: 'x' :: digits => (grouped? 16 digits).map Int.ofNat
  | '0' :: 'o' :: digits => (grouped? 8 digits).map Int.ofNat
  | '0' :: 'b' :: digits => (grouped? 2 digits).map Int.ofNat
  | token =>
    let (sign, digits) := splitSign token
    (decimal? digits).map fun n => sign * n

/-- The text before the first character that passes a test, and the text after it if there is one. -/
def splitFirst (test : Char → Bool) (cs : List Char) : List Char × Option (List Char) :=
  match cs.dropWhile (fun c => !test c) with
  | [] => (cs, none)
  | _ :: rest => (cs.takeWhile fun c => !test c, some rest)

/-- The digits after a point as one number, with their count. There are none without a point. -/
def places? : Option (List Char) → Option (Nat × Nat)
  | none => some (0, 0)
  | some text => (grouped? 10 text).map fun n => (n, (text.filter (· ≠ '_')).length)

/-- The exponent of a float, which is zero if it is left out. -/
def exponent? : Option (List Char) → Option Int
  | none => some 0
  | some text =>
    let (sign, digits) := splitSign text
    (grouped? 10 digits).map fun n => sign * n

/-- A float in digits, as a whole number and the power of ten of its last digit. It has a point, an
exponent or both. -/
def scaled? (body : List Char) : Option (Nat × Int) :=
  let (mantissa, power) := splitFirst (fun c => c = 'e' || c = 'E') body
  let (whole, fraction) := splitFirst (· = '.') mantissa
  if power.isNone && fraction.isNone then none
  else do
    let whole ← decimal? whole
    let (part, count) ← places? fraction
    let exponent ← exponent? power
    return (whole * Decimal.tenTo count + part, exponent - count)

/-- Whether a text is a float. Infinity may be named, but a number in digits must not be so large
that it would round to it. -/
def isFloat (token : List Char) : Bool :=
  let body := (splitSign token).2
  body = "inf".toList || body = "nan".toList
    || (scaled? body).any fun (digits, exponent) => Decimal.isInRange digits exponent

/-- The number of days of a month. -/
def daysIn (year month : Nat) : Nat :=
  if month = 2 then
    if year % 4 = 0 ∧ (year % 100 ≠ 0 ∨ year % 400 = 0) then 29 else 28
  else if month = 4 ∨ month = 6 ∨ month = 9 ∨ month = 11 then 30
  else 31

/-- The number that a text of some length writes, with the text after it. -/
def fixed? (count : Nat) (cs : List Char) : Option (Nat × List Char) :=
  let digits := cs.take count
  if digits.length < count then none else (number? 10 digits).map fun n => (n, cs.drop count)

/-- The text after a date. -/
def dropDate? (cs : List Char) : Option (List Char) := do
  let (year, cs) ← fixed? 4 cs
  let '-' :: cs := cs | none
  let (month, cs) ← fixed? 2 cs
  let '-' :: cs := cs | none
  let (day, cs) ← fixed? 2 cs
  if 1 ≤ month ∧ month ≤ 12 ∧ 1 ≤ day ∧ day ≤ daysIn year month then some cs else none

/-- The text after the hours and minutes of a time. -/
def dropMinutes? (cs : List Char) : Option (List Char) := do
  let (hour, cs) ← fixed? 2 cs
  let ':' :: cs := cs | none
  let (minute, cs) ← fixed? 2 cs
  if hour ≤ 23 ∧ minute ≤ 59 then some cs else none

/-- The text after the seconds of a time, which may be left out. -/
def dropSeconds? (cs : List Char) : Option (List Char) :=
  match cs with
  | ':' :: cs => do
      let (second, cs) ← fixed? 2 cs
      if 60 < second then none
      else
        match cs with
        | '.' :: cs =>
          let fraction := cs.takeWhile Char.isDigit
          if fraction.isEmpty then none else some (cs.drop fraction.length)
        | cs => some cs
  | cs => some cs

/-- The text after a time. -/
def dropTime? (cs : List Char) : Option (List Char) := do
  dropSeconds? (← dropMinutes? cs)

/-- Whether a text is an offset from universal time, or nothing. -/
def isOffset (cs : List Char) : Bool :=
  match cs with
  | [] => true
  | ['Z'] | ['z'] => true
  | '+' :: cs | '-' :: cs => dropMinutes? cs = some []
  | _ => false

/-- Whether a text is a date, a time, or both. -/
def isDateTime (token : List Char) : Bool :=
  match dropDate? token with
  | some [] => true
  | some (c :: cs) =>
    if c = 'T' || c = 't' || c = ' ' then (dropTime? cs).any isOffset else false
  | none => dropTime? token = some []

end ArrayInference.Toml
