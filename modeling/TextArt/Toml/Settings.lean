import TextArt.Settings
import TextArt.Toml.Document

namespace TextArt.Toml

/-!
# TOML settings — wishes in a document

* `options?` — the wishes of a value: of a table by name, of an array by order;
* `settings?` — the settings of a document, in which keys without a meaning are passed over.
-/

/-- The number that a value is, if it is an `integer`. -/
def number : Toml → Option Int
  | integer value => some value
  | _ => none

/-- The text that a value is, if it is a `string`. -/
def text : Toml → Option String
  | string value => some value
  | _ => none

/-- A value under a key, which may be missing but must not be of another kind than `read`
    understands. -/
def optional {α : Type} (read : Toml → Option α) : Option Toml → Option (Option α)
  | none => some none
  | some value => (read value).map some

/-! ### Wishes -/

/-- The wishes that a function from names finds, each a `number` or a `text`. -/
def optionsOf? (find : String → Option Toml) : Option Options := do
  return {
    icecolors := ← optional number (find "icecolors")
    bits := ← optional text (find "bits")
    columns := ← optional number (find "columns")
    font := ← optional text (find "font")
    thumbnail := ← optional number (find "thumbnail")
    double := ← optional number (find "2x")
    imagedata := ← optional number (find "imagedata")
    rows := ← optional number (find "rows")
    clearScreen := ← optional number (find "2J")
    filetype := ← optional text (find "filetype")
    mode := ← optional text (find "mode") }

/-- The names of the wishes, in the order in which `options?` reads an array. -/
def optionNames : List String :=
  ["icecolors", "bits", "columns", "font", "thumbnail", "2x", "imagedata", "rows", "2J",
    "filetype", "mode"]

/-- The wishes of a value: of a table by name, of an array in the order of `optionNames`.  A date
    holds nothing with a meaning here, and so no wishes. -/
def options? : Toml → Option Options
  | table _ entries => optionsOf? (find? entries)
  | inline entries => optionsOf? (find? entries)
  | array elements => optionsOf? (find? (optionNames.zip elements))
  | dateTime => some {}
  | _ => none

/-! ### Settings -/

/-- The largest rate that can be set, in 32 bits; see `baud?`. -/
def largestBaud : Nat := UInt32.size - 1

/-- The rate that a value is, which is at most `largestBaud`. -/
def baud? (value : Toml) : Option Nat := do
  let n ← value.number
  if 0 ≤ n ∧ n ≤ largestBaud then some n.toNat else none

/-- The settings of the table of a document: a `baud?` and the `options?` under the key `render`. -/
def settingsOf? (entries : Entries) : Option Settings := do
  let baud ← optional baud? (find? entries "baud")
  let options ← optional options? (find? entries "render")
  return { baud, options := options.getD {} }

/-- The settings of a document, which `ofString?` reads. -/
def settings? (document : String) : Option Settings :=
  (ofString? document).bind settingsOf?

/-- An empty table sets nothing, by `settingsOf?`. -/
theorem settingsOf?_nil : settingsOf? [] = some {} := rfl

end TextArt.Toml
