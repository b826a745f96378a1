import TextArt.Toml.Basic
import TextArt.Toml.Text

namespace TextArt.Toml

/-!
# TOML numbers and dates

* `integer?` — whole numbers in four bases, as far as 64 bits hold them;
* `float?` — numbers with a fraction or an exponent, and the three special ones;
* `dateTime?` — dates, times, and both together.
-/

/-- The digits of a number after its first one, each of which `isDigit`.  A single underscore may
    stand between two digits. -/
def moreDigits (isDigit : Char → Bool) : List Char → List Char × List Char
  | '_' :: d :: rest =>
    if isDigit d then
      let (digits, rest) := moreDigits isDigit rest
      (d :: digits, rest)
    else ([], '_' :: d :: rest)
  | d :: rest =>
    if isDigit d then
      let (digits, rest) := moreDigits isDigit rest
      (d :: digits, rest)
    else ([], d :: rest)
  | [] => ([], [])

/-- Take one digit or more, with `moreDigits` after the first. -/
def digits? (isDigit : Char → Bool) : Scanner (List Char)
  | d :: rest =>
    if isDigit d then
      let (digits, rest) := moreDigits isDigit rest
      some (d :: digits, rest)
    else none
  | [] => none

/-- Whether a character is a digit of a `base` up to sixteen. -/
def isDigitOf (base : Nat) (c : Char) : Bool :=
  match hexDigit? c with
  | some d => d < base
  | none => false

/-- Whether a character is a decimal digit, by `isDigitOf`. -/
def isDecimal (c : Char) : Bool := isDigitOf 10 c

/-- The value of digits of a `base`, the first of them counting most. -/
def valueOf (base : Nat) (digits : List Char) : Nat :=
  digits.foldl (fun value c => value * base + (hexDigit? c).getD 0) 0

/-- Take a sign; without one a number is positive.  The answer is `true` if it is negative. -/
def takeSign : List Char → Bool × List Char
  | '-' :: rest => (true, rest)
  | '+' :: rest => (false, rest)
  | cs => (false, cs)

/-- Take decimal digits, by `digits?`, of which the first is not zero, unless it is the only one. -/
def wholePart? : Scanner (List Char)
  -- digits after a zero are left, and there is nothing that may follow a number so
  | '0' :: rest => some (['0'], rest)
  | cs => digits? isDecimal cs

/-- A whole number, as an `integer` that 64 bits hold. -/
def checked (value : Int) : Option Toml :=
  if Int64.minValue.toInt ≤ value ∧ value ≤ Int64.maxValue.toInt then some (.integer value)
  else none

/-- Take a whole number, in decimal with a sign or in one of three other bases, which is
    `checked`. -/
def integer? (cs : List Char) : Option (Toml × List Char) :=
  let based (base : Nat) (rest : List Char) := do
    let (digits, rest) ← digits? (isDigitOf base) rest
    return (← checked (valueOf base digits), rest)
  match cs with
  | '0' :: 'x' :: rest => based 16 rest
  | '0' :: 'o' :: rest => based 8 rest
  | '0' :: 'b' :: rest => based 2 rest
  | _ => do
    let (negative, rest) := takeSign cs
    let (digits, rest) ← wholePart? rest
    let value : Int := valueOf 10 digits
    return (← checked (if negative then -value else value), rest)

/-! ### Fractions -/

/-- Take an exponent, with a sign by `takeSign` and decimal digits. -/
def exponent? : Scanner Int
  | e :: rest =>
    if e = 'e' ∨ e = 'E' then do
      let (negative, rest) := takeSign rest
      let (digits, rest) ← digits? isDecimal rest
      let value : Int := valueOf 10 digits
      some (if negative then -value else value, rest)
    else none
  | [] => none

/-- Whether `digits` times a power of ten is too large for 64 bits of floating point:
    it lies at least half a step above the largest number of that format. -/
def overflows (digits : List Char) (power : Int) : Bool :=
  let significant := digits.dropWhile (· = '0')
  let places : Int := significant.length + power
  -- far from the limit the number of places decides
  if significant.isEmpty || places < 300 then false
  else if 400 < places then true
  else
    let limit := Nat.pow 2 1024 - Nat.pow 2 970
    let value := valueOf 10 significant
    if 0 ≤ power then limit ≤ value * Nat.pow 10 power.toNat
    else limit * Nat.pow 10 (-power).toNat ≤ value

/-- Take a number with a fraction, an `exponent?` or both. -/
def fraction? (cs : List Char) : Option (Toml × List Char) := do
  let (negative, rest) := takeSign cs
  let (whole, rest) ← wholePart? rest
  let (digits, power, rest) ← (match rest with
    | '.' :: rest => do
      let (places, rest) ← digits? isDecimal rest
      let (power, rest) := (exponent? rest).getD (0, rest)
      some (whole ++ places, power - places.length, rest)
    | _ => do
      let (power, rest) ← exponent? rest
      some (whole, power, rest))
  if !negative && overflows digits power then none else some (.float, rest)

/-- Take infinity or the value that is not a number, with or without a sign by `takeSign`. -/
def special? (cs : List Char) : Option (Toml × List Char) :=
  match (takeSign cs).2 with
  | 'i' :: 'n' :: 'f' :: rest => some (.float, rest)
  | 'n' :: 'a' :: 'n' :: rest => some (.float, rest)
  | _ => none

/-- Take a number that is not a whole one: a `fraction?` or one of the `special?` values. -/
def float? (cs : List Char) : Option (Toml × List Char) :=
  (fraction? cs).orElse fun _ => special? cs

/-! ### Dates and times -/

/-- Take a number of exactly `n` decimal digits that lies in a range. -/
def field? (n low high : Nat) : Scanner Nat := fun cs =>
  let digits := cs.take n
  let value := valueOf 10 digits
  if digits.length = n ∧ digits.all isDecimal ∧ low ≤ value ∧ value ≤ high then
    some (value, cs.drop n)
  else none

/-- Take one particular character `c`. -/
def char? (c : Char) : List Char → Option (List Char)
  | d :: rest => if d = c then some rest else none
  | [] => none

/-- The days of a `month`, which depend on the `year` for February. -/
def daysOf (year month : Nat) : Nat :=
  if month = 2 then
    if year % 4 = 0 ∧ (year % 100 ≠ 0 ∨ year % 400 = 0) then 29 else 28
  else if month = 4 ∨ month = 6 ∨ month = 9 ∨ month = 11 then 30
  else 31

/-- Take a date, each of its fields with `field?`; the rest of the text is the answer. -/
def date? (cs : List Char) : Option (List Char) := do
  let (year, rest) ← field? 4 0 9999 cs
  let rest ← char? '-' rest
  let (month, rest) ← field? 2 1 12 rest
  let rest ← char? '-' rest
  let (_, rest) ← field? 2 1 (daysOf year month) rest
  return rest

/-- Take the fraction of a second, if there is one, with decimal `digits?`. -/
def skipSecondFraction (cs : List Char) : List Char :=
  match cs with
  | '.' :: d :: rest => if isDecimal d then rest.dropWhile isDecimal else cs
  | _ => cs

/-- Take a time of day, each of its fields with `field?` and the seconds with
    `skipSecondFraction`. -/
def time? (cs : List Char) : Option (List Char) := do
  let (_, rest) ← field? 2 0 23 cs
  let rest ← char? ':' rest
  let (_, rest) ← field? 2 0 59 rest
  let rest ← char? ':' rest
  let (_, rest) ← field? 2 0 60 rest
  return skipSecondFraction rest

/-- Take the distance from universal time: a letter, or a sign and two times `field?`. -/
def offset? : List Char → Option (List Char)
  | 'Z' :: rest => some rest
  | 'z' :: rest => some rest
  | c :: rest =>
    if c = '+' ∨ c = '-' then do
      let (_, rest) ← field? 2 0 23 rest
      let rest ← char? ':' rest
      let (_, rest) ← field? 2 0 59 rest
      return rest
    else none
  | [] => none

/-- Take what may follow a date: a `time?`, and an `offset?` from universal time. -/
def timeOfDate? : List Char → Option (List Char)
  | c :: rest =>
    if c = 'T' ∨ c = 't' ∨ c = ' ' then do
      let rest ← time? rest
      return (offset? rest).getD rest
    else none
  | [] => none

/-- Take a `date?`, a `time?`, or both. -/
def dateTime? (cs : List Char) : Option (Toml × List Char) :=
  match date? cs with
  | some rest => some (.dateTime, (timeOfDate? rest).getD rest)
  | none => (time? cs).map fun rest => (.dateTime, rest)

/-- Take a number or a date: what `dateTime?`, `float?` or `integer?` takes. -/
def number? (cs : List Char) : Option (Toml × List Char) :=
  ((dateTime? cs).orElse fun _ => float? cs).orElse fun _ => integer? cs

end TextArt.Toml
