import TextArt.Command
import TextArt.Proofs.Machine.Buffers
import TextArt.Proofs.Machine.Numbers

namespace TextArt.Machine

/-!
# Escapes of a machine — numbers that are cut while they are read

A field of an escape sequence may have any number of digits.  A machine multiplies and adds digit
by digit and stays at its largest number once it is there; the sign comes last, and the largest
number has an opposite.  A sequence may be of any length, too, and what the library finds by the
form of a list is here looked up at places of it.

* `magnitude_eq` — to cut after each step is to cut to the largest number;
* `number_eq` — every field is read;
* `parse_eq` — every sequence is understood, or found to ask for nothing; no number that it needs
  is looked up in vain.
-/

open Parameters (fields isBlank isDigit largest sign)

/-! ### Numbers -/

/-- The value of decimal digits, cut at `largest` after each step. -/
def magnitude (digits : Bytes) : Option Int :=
  digits.foldlM
    (fun n d => do
      let digit ← minus d.toNat 0x30
      pure (saturated (saturated (n * 10) + digit)))
    0

/-- The integer that a field begins with, or one: `sign` and `magnitude` put together. -/
def number (field : Bytes) : Option Int := do
  let (s, rest) := sign (field.dropWhile isBlank)
  let count := (rest.takeWhile isDigit).length
  if count = 0 then pure 1
  else do
    let digits ← slice rest 0 count
    let n ← magnitude digits
    if s = -1 then long (-n) else pure n

theorem magnitude_eq {digits : Bytes} (h : ∀ d ∈ digits, isDigit d = true) :
    magnitude digits = some (Parameters.magnitude digits : Int) := by
  -- what has been read is never negative, so it is only ever cut from above
  have hcut : ∀ n ≤ largest, digits.foldlM
      (fun n d => (minus d.toNat 0x30).bind fun digit =>
        some (saturated (saturated (n * 10) + digit))) (n : Int)
      = some ((digits.foldl (fun n d => min (n * 10 + (d.toNat - 0x30)) largest) n : Nat)
          : Int) := by
    induction digits with
    | nil => exact fun n _ => rfl
    | cons d digits ih =>
      intro n hn
      obtain ⟨hd, hdigits⟩ := List.forall_mem_cons.mp h
      have hdigit : 0x30 ≤ d.toNat := by
        simp only [isDigit, Bool.and_eq_true, decide_eq_true_eq] at hd
        exact hd.1
      have hstep : saturated (saturated ((n : Int) * 10) + (d.toNat - 0x30 : Nat))
          = (min (n * 10 + (d.toNat - 0x30)) largest : Nat) := by
        unfold saturated largest
        unfold largest at hn
        omega
      rw [List.foldlM_cons, minus_eq hdigit, Option.bind_some, Option.bind_eq_bind,
        Option.bind_some, hstep, List.foldl_cons]
      exact ih hdigits _ (Nat.min_le_right _ _)
  exact hcut 0 (Nat.zero_le _)

/-- Digits never come to more than `largest`, which is why no step of `magnitude` overflows. -/
theorem magnitude_le (digits : Bytes) : Parameters.magnitude digits ≤ largest := by
  rcases List.eq_nil_or_concat digits with rfl | ⟨digits, d, rfl⟩
  · exact Nat.zero_le _
  · rw [Parameters.magnitude, List.concat_eq_append, List.foldl_append]
    exact Nat.min_le_right _ _

/-- The `sign` of a number is minus one or one. -/
theorem sign_cases (bytes : Bytes) : (sign bytes).1 = -1 ∨ (sign bytes).1 = 1 := by
  unfold sign
  split
  · exact .inl rfl
  · exact .inr rfl
  · exact .inr rfl

theorem number_eq (field : Bytes) : number field = some (Parameters.number field) := by
  have hs := sign_cases (field.dropWhile isBlank)
  unfold number Parameters.number
  -- from here on only the value of the sign matters, and what it has left
  generalize sign (field.dropWhile isBlank) = signed at *
  obtain ⟨s, rest⟩ := signed
  dsimp only at hs ⊢
  have htake : rest.take (rest.takeWhile isDigit).length = rest.takeWhile isDigit :=
    List.prefix_iff_eq_take.mp (List.takeWhile_prefix isDigit) |>.symm
  have hcount : (rest.takeWhile isDigit).length ≤ rest.length :=
    (List.takeWhile_prefix isDigit).length_le
  have hdigits : ∀ d ∈ rest.takeWhile isDigit, isDigit d = true :=
    List.all_eq_true.mp List.all_takeWhile
  -- nothing matters of them from here on but that they are digits, and how many
  generalize rest.takeWhile isDigit = digits at *
  cases digits with
  | nil => rfl
  | cons d digits =>
    have hle := magnitude_le (d :: digits)
    rw [if_neg (by simp), slice_eq (Nat.zero_le _) hcount, htake, List.drop_zero,
      Option.bind_eq_bind, Option.bind_some, magnitude_eq hdigits, Option.bind_eq_bind,
      Option.bind_some]
    rcases hs with rfl | rfl
    · rw [if_pos rfl, long_eq (by unfold largest at hle; omega)]
      simp
    · rw [if_neg (by decide)]
      simp

/-! ### Sequences -/

/-- A colour channel: the remainder of a number, as a byte. -/
def channel (value : Int) : Option UInt8 := do
  let n ← ofLong UInt8.size (value % 256)
  pure (UInt8.ofNat n)

/-- The `Command` of a final letter, the numbers before it, and the `first` of them. -/
def ofLetter (letter : Char) (values : List Int) (first : Int) : Option (Option Command) :=
  match letter with
  | 'A' => pure (some (.up first))
  | 'B' => pure (some (.down first))
  | 'C' => pure (some (.forward first))
  | 'D' => pure (some (.backward first))
  | 'H' => pure (some (.position first values[1]?))
  | 'J' => pure (some (.eraseDisplay first))
  | 'K' => pure (some .eraseLine)
  | 'm' => pure (some (.rendition values))
  | 's' => pure (some .saveCursor)
  | 'u' => pure (some .restoreCursor)
  | 't' =>
    if values.length = 4 ∧ (first = 0 ∨ first = 1) then do
      let r ← values[1]? >>= channel
      let g ← values[2]? >>= channel
      let b ← values[3]? >>= channel
      pure (some (.freeColor (first = 0) (.rgb r g b)))
    else pure none
  | _ => pure none

/-- The `Command` of a sequence that begins with a bracket and ends with a letter. -/
def parse (sequence : Bytes) : Option (Option Command) :=
  match sequence with
  | [] => pure none
  | opening :: rest =>
    match rest.getLast? with
    | none => pure none
    | some letter =>
      if opening = 0x5B then do
        let values ← (fields rest.dropLast).mapM number
        let first ← values[0]?
        ofLetter (Char.ofNat letter.toNat) values first
      else pure none

theorem channel_eq (value : Int) : channel value = some (Command.channel value) := by
  have hsize : UInt8.size = 256 := rfl
  rw [channel, ofLong_eq (by omega) (by omega)]
  rfl

/-- No number is missing for `ofLetter` where a `first` one is there. -/
theorem ofLetter_eq (letter : Char) (first : Int) (rest : List Int) :
    ofLetter letter (first :: rest) first
      = some (Command.ofLetter? letter (first :: rest)) := by
  unfold ofLetter
  split
  case h_5 => cases rest <;> rfl
  -- the letter of a colour is the only one that looks at more than the first number
  case h_11 =>
    match rest with
    | [r, g, b] =>
      have hchannels : ∀ v : Int, (some v >>= channel) = some (Command.channel v) := channel_eq
      have hlength : [first, r, g, b].length = 4 := rfl
      simp only [hlength, true_and, List.getElem?_cons_succ, List.getElem?_cons_zero, hchannels,
        Command.ofLetter?]
      split <;> rfl
    | [] | [_] | [_, _] | _ :: _ :: _ :: _ :: _ => rfl
  case h_12 =>
    unfold Command.ofLetter?
    split
    all_goals first | rfl | contradiction
  all_goals rfl

/-- What `Command.parse?` makes of a sequence depends on its first byte and its last one. -/
theorem parse?_cons (opening : UInt8) (rest : Bytes) :
    Command.parse? (opening :: rest)
      = if opening = 0x5B then rest.getLast?.bind fun letter =>
          Command.ofLetter? (Char.ofNat letter.toNat) (parameters rest.dropLast)
        else none := by
  unfold Command.parse?
  split
  · next h =>
    cases h
    rw [if_pos rfl]
    cases rest.getLast? <;> rfl
  · next h =>
    rw [if_neg]
    rintro rfl
    exact h rest rfl

theorem parse_eq (sequence : Bytes) : parse sequence = some (Command.parse? sequence) := by
  cases sequence with
  | nil => rfl
  | cons opening rest =>
    rw [parse?_cons, parse]
    cases rest.getLast? with
    | none => simp
    | some letter =>
      -- every field is a number, so the list of them does not fail
      have hvalues : (fields rest.dropLast).mapM number = some (parameters rest.dropLast) :=
        mapM_eq fun field _ => number_eq field
      obtain ⟨first, others, hfirst⟩ :=
        List.exists_cons_of_ne_nil (parameters_ne_nil rest.dropLast)
      dsimp only
      split
      · rw [hvalues, Option.bind_eq_bind, Option.bind_some, hfirst, List.getElem?_cons_zero,
          Option.bind_eq_bind, Option.bind_some, ofLetter_eq]
        rfl
      · rfl

end TextArt.Machine
