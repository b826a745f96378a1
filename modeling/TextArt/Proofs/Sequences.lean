import TextArt.Command
import TextArt.Proofs.Fields

namespace TextArt

/-!
# Sequences — how the commands are written

Many sequences ask for the same command, as a field says its number in many ways.  One of them is
its text: the numbers in decimal digits, as many as it needs, and its letter.

* `Command.letter`, `Command.numbers`, `Command.text` — the text of a command;
* `Command.Writable` — a command whose numbers a sequence can say;
* `Command.parse?_text` — a writable command is read as it is written;
* `Command.writable_of_parse?` — no sequence asks for another one;
* `Command.Asks`, `Command.isSome_parse?_iff` — the sequences that ask for a command at all;
* `Command.sequences_come_back` — numbers and commands come back from their texts;
* `Parameters.no_number_comes_back_as_one` — but for the text of no number.
-/

namespace Command

open Parameters (largest natAbs_number_le parameters_text)

/-! ### Texts -/

/-- The letter that the sequence of a `Command` ends with. -/
def letter : Command → UInt8
  | up _ => 0x41
  | down _ => 0x42
  | forward _ => 0x43
  | backward _ => 0x44
  | position _ _ => 0x48
  | eraseDisplay _ => 0x4A
  | eraseLine => 0x4B
  | rendition _ => 0x6D
  | saveCursor => 0x73
  | restoreCursor => 0x75
  | freeColor _ _ => 0x74

/-- The numbers of a sequence. -/
def numbers : Command → List Int
  | up n | down n | forward n | backward n | eraseDisplay n => [n]
  | position row none => [row]
  | position row (some column) => [row, column]
  | rendition values => values
  | freeColor paper color =>
    [if paper then 0 else 1, color.red.toNat, color.green.toNat, color.blue.toNat]
  | eraseLine | saveCursor | restoreCursor => []

/-- A bracket, the `numbers` with semicolons between them, and the `letter`. -/
def text (c : Command) : Bytes :=
  0x5B :: (Parameters.text c.numbers ++ [c.letter])

/-- A command whose `numbers` are not larger than `largest`; there is a number if they are changes
    of the pen, and a colour is solid. -/
def Writable (c : Command) : Prop :=
  (∀ n ∈ c.numbers, n.natAbs ≤ largest) ∧
    match c with
    | rendition values => values ≠ []
    | freeColor _ color => color.alpha = 255
    | _ => True

/-- What `parse?` makes of a sequence depends on its letter and the `fields` before it. -/
theorem parse?_concat (fields : Bytes) (last : UInt8) :
    parse? (0x5B :: (fields ++ [last]))
      = ofLetter? (Char.ofNat last.toNat) (parameters fields) := by
  simp [parse?]

/-- A `channel` is the remainder of itself. -/
theorem channel_toNat (b : UInt8) : channel b.toNat = b := by
  have hbyte := b.toNat_lt
  have hrest : ((b.toNat : Int) % 256).toNat = b.toNat := by omega
  rw [channel, hrest, UInt8.ofNat_toNat]

/-- A `Writable` command is what `parse?` reads in its `text`. -/
theorem parse?_text {c : Command} (h : c.Writable) : parse? c.text = some c := by
  obtain ⟨hsmall, hshape⟩ := h
  -- the numbers come back where there are any, and are not looked at where there are none
  have hread : c.numbers ≠ [] →
      parse? c.text = ofLetter? (Char.ofNat c.letter.toNat) c.numbers := fun hsome => by
    rw [text, parse?_concat, parameters_text hsome hsmall]
  cases c with
  | up n | down n | forward n | backward n | eraseDisplay n => exact hread (List.cons_ne_nil _ _)
  | position row column => cases column <;> exact hread (List.cons_ne_nil _ _)
  | rendition values => exact hread hshape
  | eraseLine | saveCursor | restoreCursor => rfl
  | freeColor paper color =>
    obtain ⟨red, green, blue, alpha⟩ := color
    obtain rfl : alpha = 255 := hshape
    have htarget : ∀ target : Int, target = 0 ∨ target = 1 →
        ofLetter? 't' [target, red.toNat, green.toNat, blue.toNat]
          = some (freeColor (target = 0) (.rgb red green blue)) := by
      intro target htarget
      show (if target = 0 ∨ target = 1 then some _ else none) = _
      rw [if_pos htarget, channel_toNat, channel_toNat, channel_toNat]
    rw [hread (List.cons_ne_nil _ _)]
    cases paper with
    | true => exact htarget 0 (.inl rfl)
    | false => exact htarget 1 (.inr rfl)

/-! ### Sequences -/

/-- The letters that make a sequence ask for a `Command`, whatever its numbers are. -/
def letters : List Char :=
  ['A', 'B', 'C', 'D', 'H', 'J', 'K', 'm', 's', 'u']

/-- A sequence asks for a command: it begins with a bracket and ends with one of the `letters`, or
    with the letter of a colour after four numbers, of which the first is zero or one. -/
def Asks (sequence : Bytes) : Prop :=
  ∃ fields last, sequence = 0x5B :: (fields ++ [last])
    ∧ (Char.ofNat last.toNat ∈ letters
      ∨ Char.ofNat last.toNat = 't' ∧ (parameters fields).length = 4
        ∧ ((parameters fields).head? = some 0 ∨ (parameters fields).head? = some 1))

/-- A letter and some numbers make a command by `ofLetter?`, and it is `Writable` if the numbers are
    not too large. -/
theorem writable_of_ofLetter? {last : Char} {values : List Int} {c : Command}
    (hsome : values ≠ []) (hvalues : ∀ v ∈ values, v.natAbs ≤ largest)
    (h : ofLetter? last values = some c) : c.Writable := by
  unfold ofLetter? at h
  split at h
  case h_11 =>
    -- what is left is the one letter that chooses a colour, or refuses to
    split at h
    · cases h
      refine ⟨fun n hn => ?_, Color.alpha_rgb ..⟩
      simp only [numbers, List.mem_cons, List.not_mem_nil, or_false] at hn
      have hbyte : ∀ b : UInt8, b.toNat ≤ largest := fun b =>
        Nat.le_trans (Nat.le_of_lt b.toNat_lt) (by decide)
      rcases hn with rfl | rfl | rfl | rfl
      · split <;> decide
      · exact hbyte _
      · exact hbyte _
      · exact hbyte _
    · cases h
  case h_5 row rest =>
    cases h
    refine ⟨fun n hn => ?_, trivial⟩
    cases rest with
    | nil =>
      obtain rfl : n = row := by simpa [numbers] using hn
      exact hvalues n List.mem_cons_self
    | cons column rest =>
      obtain rfl | rfl : n = row ∨ n = column := by simpa [numbers] using hn
      · exact hvalues n List.mem_cons_self
      · exact hvalues n (List.mem_cons_of_mem _ List.mem_cons_self)
  case h_8 =>
    cases h
    exact ⟨hvalues, hsome⟩
  case h_1 n rest | h_2 n rest | h_3 n rest | h_4 n rest | h_6 n rest =>
    cases h
    refine ⟨fun v hv => ?_, trivial⟩
    obtain rfl : v = n := by simpa [numbers] using hv
    exact hvalues v List.mem_cons_self
  case h_7 | h_9 | h_10 =>
    cases h
    exact ⟨fun n hn => absurd hn List.not_mem_nil, trivial⟩
  case h_12 => cases h

/-- Every command that `parse?` finds in a sequence is `Writable`. -/
theorem writable_of_parse? {sequence : Bytes} {c : Command} (h : parse? sequence = some c) :
    c.Writable := by
  unfold parse? at h
  split at h
  · split at h
    · refine writable_of_ofLetter? (parameters_ne_nil _) (fun v hv => ?_) h
      obtain ⟨field, -, rfl⟩ := List.mem_map.mp hv
      exact natAbs_number_le field
    · cases h
  · cases h

/-- The letters and numbers of which `ofLetter?` makes a command. -/
theorem isSome_ofLetter?_iff (last : Char) {values : List Int} (hsome : values ≠ []) :
    (ofLetter? last values).isSome ↔
      last ∈ letters ∨ last = 't' ∧ values.length = 4
        ∧ (values.head? = some 0 ∨ values.head? = some 1) := by
  unfold ofLetter?
  split
  case h_11 target r g b => simp [letters]
  case h_12 hK hm hs hu hA hB hC hD hH hJ ht =>
    obtain ⟨first, rest, rfl⟩ := List.exists_cons_of_ne_nil hsome
    refine ⟨fun h => absurd h Bool.false_ne_true, ?_⟩
    rintro (hlast | ⟨hlast, hfour, -⟩)
    · simp only [letters, List.mem_cons, List.not_mem_nil, or_false] at hlast
      rcases hlast with h | h | h | h | h | h | h | h | h | h
      exacts [(hA _ _ h rfl).elim, (hB _ _ h rfl).elim, (hC _ _ h rfl).elim, (hD _ _ h rfl).elim,
        (hH _ _ h rfl).elim, (hJ _ _ h rfl).elim, (hK h).elim, (hm h).elim, (hs h).elim,
        (hu h).elim]
    · have hthree : rest.length = 3 := by simpa using hfour
      obtain ⟨r, g, b, rfl⟩ := List.length_eq_three.mp hthree
      exact (ht first r g b hlast rfl).elim
  all_goals simp [letters]

/-- The sequences that `Asks` accepts are those that `parse?` understands. -/
theorem isSome_parse?_iff (sequence : Bytes) : (parse? sequence).isSome ↔ Asks sequence := by
  constructor
  · intro h
    unfold parse? at h
    split at h
    · next rest =>
      split at h
      · next last hlast =>
        have hrest : rest = rest.dropLast ++ [last] :=
          (List.dropLast_append_getLast? last hlast).symm
        exact ⟨rest.dropLast, last, congrArg (0x5B :: ·) hrest,
          (isSome_ofLetter?_iff _ (parameters_ne_nil _)).mp h⟩
      · exact absurd h Bool.false_ne_true
    · exact absurd h Bool.false_ne_true
  · rintro ⟨fields, last, rfl, h⟩
    rw [parse?_concat]
    exact (isSome_ofLetter?_iff _ (parameters_ne_nil _)).mpr h

/-- **Numbers and commands come back.** The `parameters` of a sequence are the numbers that its
    fields say, one for each of the fields between semicolons, and there is always a field. Some
    numbers that are not larger than `largest` are read as they are written, if there are any, and
    so is every `Writable` command; `parse?` finds a command in a sequence, which is a writable one,
    exactly if the sequence is one that `Asks`: its bracket, its letter and in one case its numbers
    are those of a command. -/
theorem sequences_come_back :
    (∀ bytes values, List.Forall₂ Parameters.Says (bytes.splitOn 0x3B) values
      ↔ values = parameters bytes)
    ∧ (∀ bytes, parameters bytes ≠ [])
    ∧ (∀ values, values ≠ [] → (∀ v ∈ values, v.natAbs ≤ largest) →
      parameters (Parameters.text values) = values)
    ∧ (∀ c : Command, c.Writable → parse? c.text = some c)
    ∧ (∀ sequence, (parse? sequence).isSome ↔ Asks sequence)
    ∧ ∀ sequence c, parse? sequence = some c → c.Writable :=
  ⟨Parameters.forall₂_says_iff, parameters_ne_nil, fun _ => parameters_text,
    fun _ => parse?_text, isSome_parse?_iff, fun _ _ => writable_of_parse?⟩

/-- A case of `parse?`: of a field with a plus, too many digits and a letter, the largest number is
    read; the one after it is empty. -/
example :
    parse? [0x5B, 0x20, 0x2B, 0x39, 0x39, 0x39, 0x39, 0x39, 0x39, 0x39, 0x39, 0x39, 0x39, 0x39,
      0x39, 0x39, 0x39, 0x39, 0x39, 0x39, 0x39, 0x39, 0x39, 0x78, 0x3B, 0x48]
      = some (position 9223372036854775807 (some 1)) := by
  decide

end Command

/-- The `text` of no number at all is a field without digits, which says one. -/
theorem Parameters.no_number_comes_back_as_one :
    (∀ v ∈ ([] : List Int), v.natAbs ≤ largest) ∧ parameters (text []) ≠ [] := by
  decide

end TextArt
