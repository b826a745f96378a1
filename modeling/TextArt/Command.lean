import TextArt.Color
import TextArt.Command.Parameters

namespace TextArt

/-!
# Commands — what an escape sequence asks for

* `Command` — the eleven things that a sequence can ask for;
* `Command.ofLetter?` — the command of a final letter and its numbers;
* `Command.parse?` — the command of a whole sequence, from its bracket to its letter.
-/

/-- What an escape sequence asks for, as `Command.parse?` understands it. -/
inductive Command where
  | up (n : Int)
  | down (n : Int)
  | forward (n : Int)
  | backward (n : Int)
  /-- Go to a `row`, and to a `column` or else to the first one. -/
  | position (row : Int) (column : Option Int)
  | eraseDisplay (mode : Int)
  | eraseLine
  /-- Change the pen by `Pen.apply`, one of the `values` after the other. -/
  | rendition (values : List Int)
  | saveCursor
  | restoreCursor
  /-- Choose a colour from outside the `Palette`, for the `paper` or for the ink. -/
  | freeColor (paper : Bool) (color : Color)
  deriving DecidableEq, Repr

namespace Command

/-- A colour channel: a number counted modulo 256, as `UInt8` does. -/
def channel (value : Int) : UInt8 :=
  UInt8.ofNat (value % 256).toNat

/-- The command of a final `letter` and the `values` before it.  A `freeColor` needs exactly four
    values, of which the first says where it goes. -/
def ofLetter? (letter : Char) (values : List Int) : Option Command :=
  match letter, values with
  | 'A', n :: _ => some (up n)
  | 'B', n :: _ => some (down n)
  | 'C', n :: _ => some (forward n)
  | 'D', n :: _ => some (backward n)
  -- the column may be left out, the row may not
  | 'H', row :: rest => some (position row rest.head?)
  | 'J', mode :: _ => some (eraseDisplay mode)
  | 'K', _ => some eraseLine
  | 'm', values => some (rendition values)
  | 's', _ => some saveCursor
  | 'u', _ => some restoreCursor
  | 't', [target, r, g, b] =>
    -- whatever stands there, the wrong number of values or another target asks for nothing
    if target = 0 ∨ target = 1 then
      some (freeColor (target = 0) (.rgb (channel r) (channel g) (channel b)))
    else none
  | _, _ => none

/-- The command of a sequence that begins with a bracket and ends with a letter, by `ofLetter?` of
    that letter and of the `parameters` in between. -/
def parse? : Bytes → Option Command
  | 0x5B :: rest =>
    match rest.getLast? with
    | some letter => ofLetter? (Char.ofNat letter.toNat) (parameters rest.dropLast)
    | none => none
  | _ => none

end Command

end TextArt
