namespace TextArt

/-!
# TOML — values and the tables of a document

* `Toml` — a value, and how a table came to be, on which it depends whether the table
  may still grow;
* `Toml.insertKey?` — what a `key = value` line does to a table;
* `Toml.openTable?`, `Toml.openElement?` — what the two kinds of header do to a
  document;
* `Toml.within?` — a change made in the table that the last header opened.

A document that defines a thing twice is refused, which is why all of these may fail.
-/

/-- How a `table` came to be. -/
inductive Toml.Origin where
  /-- Only the headers of tables inside it name it, so that `openTable?` may still open it. -/
  | implied
  /-- Only dotted keys name it, by `insertDotted?`. -/
  | dotted
  /-- A header of its own names it, by `openTable?`, or it stands in braces. -/
  | defined
  deriving DecidableEq, Repr

/-- A value.  Of numbers with a fraction and of dates only the fact is kept, in `float` and
    `dateTime`. -/
inductive Toml where
  | string (text : String)
  | integer (value : Int)
  | float
  | boolean (value : Bool)
  | dateTime
  | array (elements : List Toml)
  /-- A table in braces, which no header opens; see `within?`. -/
  | inline (entries : List (String × Toml))
  /-- A table that lines of the document fill, and of which `origin` says how it came to be. -/
  | table (origin : Toml.Origin) (entries : List (String × Toml))
  /-- The tables that headers in double brackets have opened with `openElement?`, the latest
      first. -/
  | tables (elements : List (List (String × Toml)))

namespace Toml

/-- The entries of a table, each a key and its `Toml` value. -/
abbrev Entries := List (String × Toml)

/-- The value of a `key` in some entries. -/
def find? (entries : Entries) (key : String) : Option Toml :=
  (entries.find? (·.1 = key)).map (·.2)

/-- The entries with another `value` for a `key`, which is added if it is new. -/
def set (entries : Entries) (key : String) (value : Toml) : Entries :=
  match entries with
  | [] => [(key, value)]
  | (k, v) :: rest => if k = key then (k, value) :: rest else (k, v) :: set rest key value

/-- A key that was `set` is what `find?` finds. -/
@[simp] theorem find?_set_self (entries : Entries) (key : String) (value : Toml) :
    find? (set entries key value) key = some value := by
  induction entries with
  | nil => simp [set, find?]
  | cons e rest ih =>
    obtain ⟨k, v⟩ := e
    by_cases h : k = key
    · simp [set, find?, h]
    · simpa [set, find?, h] using ih

/-- With `set` the other keys are left alone. -/
theorem find?_set_of_ne {key other : String} (h : other ≠ key) (entries : Entries) (value : Toml) :
    find? (set entries key value) other = find? entries other := by
  induction entries with
  | nil => simp [set, find?, Ne.symm h]
  | cons e rest ih =>
    obtain ⟨k, v⟩ := e
    by_cases hk : k = key
    -- the key was there already, and its value is exchanged in its place
    · subst hk
      simp [set, find?, Ne.symm h]
    · by_cases ho : k = other
      · subst ho
        simp [set, find?, hk]
      · simpa [set, find?, hk, ho] using ih

/-! ### Lines -/

/-- Add a value under a dotted key, in a table that itself came to be by dotted keys
    or not (`dotted`).  All tables but the last of a dotted key must be ones that no
    header defines, and the last must be one of dotted keys. -/
def insertDotted? (dotted : Bool) (entries : Entries) (path : List String) (key : String)
    (value : Toml) : Option Entries :=
  match path with
  | [] => if dotted ∧ (find? entries key).isNone then some (set entries key value) else none
  | name :: rest =>
    match find? entries name with
    | none => do
      let inner ← insertDotted? true [] rest key value
      return set entries name (.table .dotted inner)
    | some (.table .defined _) => none
    | some (.table origin inner) => do
      let inner ← insertDotted? (origin = .dotted) inner rest key value
      return set entries name (.table origin inner)
    | some (.tables (latest :: earlier)) => do
      let latest ← insertDotted? false latest rest key value
      return set entries name (.tables (latest :: earlier))
    | some _ => none

/-- Add a value under a key, dotted if `path` is not empty. -/
def insertKey? (entries : Entries) (path : List String) (key : String) (value : Toml) :
    Option Entries :=
  match path with
  | [] => if (find? entries key).isNone then some (set entries key value) else none
  | _ => insertDotted? false entries path key value

/-! ### Headers -/

/-- Change the table that a header's `path` leads to; a table on the way that does not exist yet is
    `implied` by the header. -/
def within? (entries : Entries) (path : List String) (change : Entries → Option Entries) :
    Option Entries :=
  match path with
  | [] => change entries
  | name :: rest =>
    match find? entries name with
    | none => do
      let inner ← within? [] rest change
      return set entries name (.table .implied inner)
    | some (.table origin inner) => do
      let inner ← within? inner rest change
      return set entries name (.table origin inner)
    | some (.tables (latest :: earlier)) => do
      let latest ← within? latest rest change
      return set entries name (.tables (latest :: earlier))
    | some _ => none

/-- What a header in single brackets does to the table around the one it names: it defines a new
    table, or one that was only `implied`. -/
def openTable? (key : String) (entries : Entries) : Option Entries :=
  match find? entries key with
  | none => some (set entries key (.table .defined []))
  | some (.table .implied inner) => some (set entries key (.table .defined inner))
  | some _ => none

/-- What a header in double brackets does to the table around the one it names: it adds to the
    `tables` of the key, or begins them. -/
def openElement? (key : String) (entries : Entries) : Option Entries :=
  match find? entries key with
  | none => some (set entries key (.tables [[]]))
  | some (.tables elements) => some (set entries key (.tables ([] :: elements)))
  | some _ => none

end Toml

end TextArt
