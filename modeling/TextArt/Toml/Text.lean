namespace TextArt.Toml

/-!
# TOML text — blanks, comments, strings and keys

A scanner takes characters off the front of a text and returns what it made of them
and the rest, or nothing if the text does not begin with what it looks for.

* `skipSpace`, `endOfLine?`, `skipFiller` — what stands between values;
* `basic?`, `literal?`, `longBasic?`, `longLiteral?` — the four kinds of strings;
* `key?` — a dotted key.
-/

/-- A function that takes something of type `α` off the front of a text. -/
abbrev Scanner (α : Type) := List Char → Option (α × List Char)

/-- Whether a character is a blank within a line, for `skipSpace`. -/
def isSpace (c : Char) : Bool := c = ' ' || c = '\t'

/-- Whether a character may stand in a comment, for `skipComment`: tabs, and all but control
    characters. -/
def isPrintable (c : Char) : Bool :=
  c = '\t' || (' ' ≤ c && c ≠ '\x7f')

/-- The text after its blanks, each of which `isSpace`. -/
def skipSpace (cs : List Char) : List Char := cs.dropWhile isSpace

/-- Take a line ending; a carriage return alone is `none`. -/
def newline? : List Char → Option (List Char)
  | '\n' :: rest => some rest
  | '\r' :: '\n' :: rest => some rest
  | _ => none

/-- The text after a comment, if it begins with one, of characters that are `isPrintable`. -/
def skipComment : List Char → List Char
  | '#' :: rest => rest.dropWhile isPrintable
  | cs => cs

/-- Take what may follow a value on its line, by `skipSpace` and `skipComment`, and the end of the
    line. -/
def endOfLine? (cs : List Char) : Option (List Char) :=
  match skipComment (skipSpace cs) with
  | [] => some []
  | rest => newline? rest

/-- The text after blanks, line endings and comments.  Fewer of them than `fuel` are
    taken. -/
def skipFiller : Nat → List Char → List Char
  | 0, cs => cs
  | fuel + 1, cs =>
    match skipComment (skipSpace cs) with
    | '\n' :: rest => skipFiller fuel rest
    | '\r' :: '\n' :: rest => skipFiller fuel rest
    | rest => rest

/-- The text after blanks and line endings, by `skipSpace` and `newline?`; `fuel` is at least the
    number of lines. -/
def skipSpaceLines : Nat → List Char → List Char
  | 0, cs => cs
  | fuel + 1, cs =>
    match skipSpace cs with
    | '\n' :: rest => skipSpaceLines fuel rest
    | '\r' :: '\n' :: rest => skipSpaceLines fuel rest
    | rest => rest

/-! ### Strings -/

/-- The value of a hexadecimal digit, for `escaped?`. -/
def hexDigit? (c : Char) : Option Nat :=
  if '0' ≤ c ∧ c ≤ '9' then some (c.toNat - '0'.toNat)
  else if 'a' ≤ c ∧ c ≤ 'f' then some (c.toNat - 'a'.toNat + 10)
  else if 'A' ≤ c ∧ c ≤ 'F' then some (c.toNat - 'A'.toNat + 10)
  else none

/-- Take the character whose number is given in `n` hexadecimal digits. -/
def codePoint? (n : Nat) : Scanner Char := fun cs => do
  let digits ← (cs.take n).mapM hexDigit?
  if digits.length < n then none
  let code := digits.foldl (fun value d => value * 16 + d) 0
  if h : code.isValidChar then some (Char.ofNatAux code h, cs.drop n) else none

/-- Take what stands after a backslash: one of seven letters, or a number in hexadecimal digits by
    `hexDigit?`. -/
def escaped? : Scanner Char
  | 'b' :: rest => some ('\x08', rest)
  | 't' :: rest => some ('\t', rest)
  | 'n' :: rest => some ('\n', rest)
  | 'f' :: rest => some ('\x0c', rest)
  | 'r' :: rest => some ('\r', rest)
  | '"' :: rest => some ('"', rest)
  | '\\' :: rest => some ('\\', rest)
  | 'u' :: rest => codePoint? 4 rest
  | 'U' :: rest => codePoint? 8 rest
  | _ => none

/-- Take the rest of a string in double quotes, after the opening quote; `out` is what has been
    read, the latest character first. -/
def basicRest? : Nat → List Char → Scanner String
  | 0, _, _ => none
  | fuel + 1, out, cs =>
    match cs with
    | '"' :: rest => some (String.ofList out.reverse, rest)
    | '\\' :: rest => do
      let (c, rest) ← escaped? rest
      basicRest? fuel (c :: out) rest
    | c :: rest => if isPrintable c then basicRest? fuel (c :: out) rest else none
    | [] => none

/-- Take a string in double quotes, with `basicRest?` after the first. -/
def basic? : Scanner String
  | '"' :: rest => basicRest? (rest.length + 1) [] rest
  | _ => none

/-- Take a string in single quotes, of characters that are `isPrintable`, in which nothing is
    escaped. -/
def literal? : Scanner String
  | '\'' :: rest =>
    let body := rest.takeWhile fun c => isPrintable c && c ≠ '\''
    match rest.drop body.length with
    | '\'' :: rest => some (String.ofList body, rest)
    | _ => none
  | _ => none

/-- The text after the `newline?` that a long string may begin with. -/
def skipNewline (cs : List Char) : List Char := (newline? cs).getD cs

/-- A backslash at the end of a line, which takes all following blanks and line endings away with
    it, by `skipSpaceLines`. -/
def continuation? (cs : List Char) : Option (List Char) :=
  (newline? (skipSpace cs)).map fun rest => skipSpaceLines (rest.length + 1) rest

/-- Take the rest of a long string in double quotes, to which a `continuation?` adds nothing.  Up to
    two quotes may stand directly before the three that end it. -/
def longBasicRest? : Nat → List Char → Scanner String
  | 0, _, _ => none
  | fuel + 1, out, cs =>
    match cs with
    -- of five quotes two belong to the text, and of four quotes one
    | '"' :: '"' :: '"' :: '"' :: '"' :: rest =>
      some (String.ofList ('"' :: '"' :: out).reverse, rest)
    | '"' :: '"' :: '"' :: '"' :: rest => some (String.ofList ('"' :: out).reverse, rest)
    | '"' :: '"' :: '"' :: rest => some (String.ofList out.reverse, rest)
    | '\\' :: rest =>
      match continuation? rest with
      | some rest => longBasicRest? fuel out rest
      | none => do
        let (c, rest) ← escaped? rest
        longBasicRest? fuel (c :: out) rest
    | '\n' :: rest => longBasicRest? fuel ('\n' :: out) rest
    | '\r' :: '\n' :: rest => longBasicRest? fuel ('\n' :: out) rest
    | c :: rest => if isPrintable c then longBasicRest? fuel (c :: out) rest else none
    | [] => none

/-- Take a string in three double quotes, with `longBasicRest?` after them. -/
def longBasic? : Scanner String
  | '"' :: '"' :: '"' :: rest => longBasicRest? (rest.length + 1) [] (skipNewline rest)
  | _ => none

/-- Take the rest of a long string in single quotes; `out` is what has been read, the latest
    character first. -/
def longLiteralRest? (out : List Char) : Scanner String
  | '\'' :: '\'' :: '\'' :: '\'' :: '\'' :: rest =>
    some (String.ofList ('\'' :: '\'' :: out).reverse, rest)
  | '\'' :: '\'' :: '\'' :: '\'' :: rest => some (String.ofList ('\'' :: out).reverse, rest)
  | '\'' :: '\'' :: '\'' :: rest => some (String.ofList out.reverse, rest)
  | '\n' :: rest => longLiteralRest? ('\n' :: out) rest
  | '\r' :: '\n' :: rest => longLiteralRest? ('\n' :: out) rest
  | c :: rest => if isPrintable c then longLiteralRest? (c :: out) rest else none
  | [] => none

/-- Take a string in three single quotes, with `longLiteralRest?` after them. -/
def longLiteral? : Scanner String
  | '\'' :: '\'' :: '\'' :: rest => longLiteralRest? [] (skipNewline rest)
  | _ => none

/-- Take a string of any kind: `longBasic?`, `basic?`, `longLiteral?` or `literal?`. -/
def string? (cs : List Char) : Option (String × List Char) :=
  match cs with
  | '"' :: '"' :: '"' :: _ => longBasic? cs
  | '"' :: _ => basic? cs
  | '\'' :: '\'' :: '\'' :: _ => longLiteral? cs
  | _ => literal? cs

/-! ### Keys -/

/-- Whether a character may stand in a key without quotes, for `simpleKey?`. -/
def isBare (c : Char) : Bool :=
  ('A' ≤ c && c ≤ 'Z') || ('a' ≤ c && c ≤ 'z') || ('0' ≤ c && c ≤ '9') || c = '-' || c = '_'

/-- Take one part of a key: a string, or characters that are `isBare`. -/
def simpleKey? (cs : List Char) : Option (String × List Char) :=
  match cs with
  | '"' :: _ => basic? cs
  | '\'' :: _ => literal? cs
  | _ =>
    let name := cs.takeWhile isBare
    if name.isEmpty then none else some (String.ofList name, cs.drop name.length)

/-- The number of parts from which on a key is refused, by `key?`. -/
def keyLimit : Nat := 80

/-- Take the parts of a key, with blanks around each; fewer than `fuel` parts. -/
def keyParts? : Nat → Scanner (List String)
  | 0, _ => none
  | fuel + 1, cs => do
    let (part, rest) ← simpleKey? (skipSpace cs)
    match skipSpace rest with
    | '.' :: rest => do
      let (parts, rest) ← keyParts? fuel rest
      some (part :: parts, rest)
    | rest => some ([part], rest)

/-- Take a key, with `keyParts?`: the tables it leads through, and its last part. -/
def key? (cs : List Char) : Option ((List String × String) × List Char) := do
  let (parts, rest) ← keyParts? keyLimit cs
  let last ← parts.getLast?
  if parts.length < keyLimit then some ((parts.dropLast, last), rest) else none

end TextArt.Toml
