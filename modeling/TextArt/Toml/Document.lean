import TextArt.Toml.Number

namespace TextArt.Toml

/-!
# TOML documents

* `value?` — one value; arrays and braces may be nested up to a limit;
* `line?` — one line of a document: a header or a key with its value;
* `ofString?` — the table of a whole document, if it is well-formed.
-/

/-- The depth from which on nested arrays and braces are refused, by `value?`. -/
def depthLimit : Nat := 80

/-- Take a `word`, which stands for `value`. -/
def word? (word : String) (value : Toml) : Scanner Toml := fun cs =>
  if word.toList.isPrefixOf cs then some (value, cs.drop word.length) else none

mutual

/-- Take a value that stands `depth` levels inside of others.  No value needs more fuel
    than two for each of its characters and one more, as every bracket opens a value and
    its elements, and every comma goes on to one more element. -/
def value? (fuel depth : Nat) (cs : List Char) : Option (Toml × List Char) :=
  match fuel with
  | 0 => none
  | fuel + 1 =>
    match cs with
    | '"' :: _ => (string? cs).map fun (text, rest) => (.string text, rest)
    | '\'' :: _ => (string? cs).map fun (text, rest) => (.string text, rest)
    | '[' :: rest =>
      if depth + 1 < depthLimit then elements? fuel (depth + 1) [] rest else none
    | '\x7b' :: rest =>
      if depth + 1 < depthLimit then
        match skipSpace rest with
        | '\x7d' :: rest => some (.inline [], rest)
        | rest => entries? fuel (depth + 1) [] rest
      else none
    | 't' :: _ => word? "true" (.boolean true) cs
    | 'f' :: _ => word? "false" (.boolean false) cs
    | 'i' :: _ => word? "inf" .float cs
    | 'n' :: _ => word? "nan" .float cs
    | _ => number? cs

/-- Take the elements of an array that follow those in `out`, and the bracket that
    ends it.  The last element may be followed by a comma. -/
def elements? (fuel depth : Nat) (out : List Toml) (cs : List Char) :
    Option (Toml × List Char) :=
  match fuel with
  | 0 => none
  | fuel + 1 =>
    match skipFiller fuel cs with
    | ']' :: rest => some (.array out.reverse, rest)
    | cs => do
      let (element, rest) ← value? fuel depth cs
      match skipFiller fuel rest with
      | ',' :: rest => elements? fuel depth (element :: out) rest
      | ']' :: rest => some (.array (element :: out).reverse, rest)
      | _ => none

/-- Take the entries of a table in braces that follow those in `out`, and the brace
    that ends it. -/
def entries? (fuel depth : Nat) (out : Entries) (cs : List Char) : Option (Toml × List Char) :=
  match fuel with
  | 0 => none
  | fuel + 1 => do
    let ((path, key), rest) ← key? cs
    let rest ← char? '=' rest
    let (value, rest) ← value? fuel depth (skipSpace rest)
    let out ← insertKey? out path key value
    match skipSpace rest with
    | ',' :: rest => entries? fuel depth out rest
    | '\x7d' :: rest => some (.inline out, rest)
    | _ => none

end

/-- A document read so far: its table of `entries`, and the `path` of the latest header. -/
structure Document where
  entries : Entries := []
  header : List String := []

/-- Take a header, after its first bracket, and open its table with `openTable?` or
    `openElement?`. -/
def header? (d : Document) (cs : List Char) : Option (Document × List Char) :=
  match cs with
  | '[' :: rest => do
    let ((path, key), rest) ← key? rest
    let rest ← (char? ']' rest).bind (char? ']')
    let entries ← within? d.entries path (openElement? key)
    return (⟨entries, path ++ [key]⟩, rest)
  | _ => do
    let ((path, key), rest) ← key? cs
    let rest ← char? ']' rest
    let entries ← within? d.entries path (openTable? key)
    return (⟨entries, path ++ [key]⟩, rest)

/-- Take a key and its value, with `insertKey?`, in the table of the latest header. -/
def keyValue? (d : Document) (cs : List Char) : Option (Document × List Char) := do
  let ((path, key), rest) ← key? cs
  let rest ← char? '=' rest
  let rest := skipSpace rest
  let (value, rest) ← value? (2 * rest.length + 2) 0 rest
  let entries ← within? d.entries d.header fun entries => insertKey? entries path key value
  return ({ d with entries }, rest)

/-- Take a line that is not empty, a `header?` or a `keyValue?`, up to its end. -/
def line? (d : Document) (cs : List Char) : Option (Document × List Char) := do
  let (d, rest) ← (match cs with
    | '[' :: rest => header? d rest
    | _ => keyValue? d cs)
  return (d, ← endOfLine? rest)

/-- Take the lines of a document; fewer than `fuel` lines. -/
def lines? : Nat → Document → List Char → Option Document
  | 0, _, _ => none
  | fuel + 1, d, cs =>
    match skipSpace cs with
    | [] => some d
    | '#' :: rest => do lines? fuel d (← endOfLine? ('#' :: rest))
    | '\n' :: rest => lines? fuel d rest
    | '\r' :: '\n' :: rest => lines? fuel d rest
    | rest => do
      let (d, rest) ← line? d rest
      lines? fuel d rest

/-- The text without the mark of its byte order, which `ofString?` passes over. -/
def skipByteOrderMark : List Char → List Char
  | '\uFEFF' :: rest => rest
  | cs => cs

/-- The table of a document, if all of its lines are well-formed; see `line?`. -/
def ofString? (text : String) : Option Entries :=
  let cs := skipByteOrderMark text.toList
  (lines? (cs.length + 1) {} cs).map (·.entries)

end TextArt.Toml
