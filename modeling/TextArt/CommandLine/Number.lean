namespace TextArt.CommandLine

/-!
# Numbers on the command line

Decimal digits and nothing else, after one optional sign, and no larger than a machine
word holds.

* `integer?` — a number of 64 bits with a sign;
* `rate?` — a number of 32 bits without one, which may still begin with a plus.
-/

/-- The value of a text of decimal digits, if `cs` are nothing else. -/
def digits? (cs : List Char) : Option Nat :=
  if cs.isEmpty || !cs.all Char.isDigit then none
  else some (cs.foldl (fun value c => value * 10 + (c.toNat - '0'.toNat)) 0)

/-- The integer that a text is, of `digits?` and maybe a sign, if 64 bits hold it. -/
def integer? (text : String) : Option Int := do
  let value : Int ← (match text.toList with
    | '-' :: rest => (digits? rest).map fun n => -(n : Int)
    | '+' :: rest => (digits? rest).map Int.ofNat
    | cs => (digits? cs).map Int.ofNat)
  if Int64.minValue.toInt ≤ value ∧ value ≤ Int64.maxValue.toInt then some value else none

/-- The natural number that a text is, of `digits?` and maybe a plus, if 32 bits hold it. -/
def rate? (text : String) : Option Nat := do
  let value ← (match text.toList with
    | '+' :: rest => digits? rest
    | cs => digits? cs)
  if value < UInt32.size then some value else none

end TextArt.CommandLine
