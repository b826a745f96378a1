namespace TextArt

/-!
# Parameters — the numbers of an escape sequence

* `fields` — a run of bytes cut at its semicolons, never into nothing;
* `number` — the integer that a field begins with, one if it begins with none;
* `parameters` — the numbers of all fields.
-/

/-- A run of bytes, each of them a `UInt8`. -/
abbrev Bytes := List UInt8

/-- The character with the number of a byte, `Char.ofNat`, has that number. -/
theorem toNat_ofNat_toNat (b : UInt8) : (Char.ofNat b.toNat).toNat = b.toNat := by
  have hb : b.toNat.isValidChar := .inl (Nat.lt_trans b.toNat_lt (by decide))
  rw [Char.ofNat, dif_pos hb]
  rfl

namespace Parameters

/-- Cut at every semicolon, as `List.splitOn` does. -/
def fields (bytes : Bytes) : List Bytes :=
  bytes.foldr
    (fun b cut =>
      if b = 0x3B then [] :: cut
      else match cut with
        | [] => [[b]]
        | field :: rest => (b :: field) :: rest)
    [[]]

@[simp] theorem fields_nil : fields [] = [[]] := rfl

/-- There is always one of the `fields`. -/
theorem fields_ne_nil (bytes : Bytes) : fields bytes ≠ [] := by
  cases bytes with
  | nil => simp
  | cons b rest =>
    simp only [fields, List.foldr_cons]
    split
    · simp
    · split <;> simp

/-- Whether a byte is one of the five blanks that `number` passes over: space, tab, line feed, form
    feed and carriage return. -/
def isBlank (b : UInt8) : Bool :=
  b = 0x20 || b = 0x09 || b = 0x0A || b = 0x0C || b = 0x0D

/-- Whether a byte is a decimal digit, of which `magnitude` reads the value. -/
def isDigit (b : UInt8) : Bool :=
  0x30 ≤ b.toNat && b.toNat ≤ 0x39

/-- The largest `magnitude` of a parameter; larger numbers count as this one. -/
def largest : Nat := 0x7FFFFFFFFFFFFFFF

/-- The value of decimal digits, cut to the `largest` magnitude. -/
def magnitude (digits : Bytes) : Nat :=
  digits.foldl (fun n d => min (n * 10 + (d.toNat - 0x30)) largest) 0

/-- The sign at the beginning of a field, and what follows it, for `number`. -/
def sign : Bytes → Int × Bytes
  | 0x2D :: rest => (-1, rest)
  | 0x2B :: rest => (1, rest)
  | rest => (1, rest)

/-- The integer that a field begins with, after bytes that are `isBlank` and with one `sign`.  A
    field that does not begin with an integer counts as one, and what follows the digits is not
    looked at. -/
def number (field : Bytes) : Int :=
  let (s, rest) := sign (field.dropWhile isBlank)
  let digits := rest.takeWhile isDigit
  if digits.isEmpty then 1 else s * magnitude digits

/-- An empty field counts as one, by `number`. -/
@[simp] theorem number_nil : number [] = 1 := rfl

end Parameters

/-- The `number` of each of the `fields`. -/
def parameters (bytes : Bytes) : List Int :=
  (Parameters.fields bytes).map Parameters.number

/-- There is always one of the `parameters`. -/
theorem parameters_ne_nil (bytes : Bytes) : parameters bytes ≠ [] := by
  simp [parameters, Parameters.fields_ne_nil]

end TextArt
