import TextArt.Command.Parameters
import Mathlib.Data.List.Forall2
import Mathlib.Data.List.Induction

namespace TextArt.Parameters

/-!
# Fields — the numbers that they say, and how a number is written

A field is blanks, a sign, digits and a rest that is not looked at, each of them as long as it can
be and all of them optional.  Its digits may be so many that their value is too large for a
parameter, which is then the largest one.

* `Parts` — the parts of a field; every field has them (`exists_parts`);
* `value`, `magnitude_eq` — the value of any number of digits, to which reading digit by digit
  comes unless it reaches the largest magnitude;
* `Says`, `says_iff` — the one number that a field says, by its parts, is the one that is read;
* `fields_eq_splitOn` — the fields are what lies between the semicolons;
* `decimal`, `text` — how numbers are written; `number_decimal` and `parameters_text` say that they
  are read again.
-/

/-! ### Digits -/

/-- The value of decimal digits, however many there are. -/
def value (digits : Bytes) : Nat :=
  Nat.ofDigitChars 10 (digits.map fun d => Char.ofNat d.toNat) 0

/-- A digit more makes ten times the `value` and its own. -/
theorem value_concat (digits : Bytes) (d : UInt8) :
    value (digits ++ [d]) = 10 * value digits + (d.toNat - 0x30) := by
  unfold value
  rw [List.map_append, Nat.ofDigitChars_append]
  show 10 * _ + ((Char.ofNat d.toNat).toNat - '0'.toNat) = _
  rw [toNat_ofNat_toNat]
  rfl

/-- To cut after every digit, as `magnitude` does, is to cut the `value` of all digits at
    `largest`. -/
theorem magnitude_eq (digits : Bytes) : magnitude digits = min (value digits) largest := by
  induction digits using List.reverseRecOn with
  | nil => rfl
  | append_singleton digits d ih =>
    have hstep : magnitude (digits ++ [d])
        = min (magnitude digits * 10 + (d.toNat - 0x30)) largest := by
      unfold magnitude
      rw [List.foldl_append]
      rfl
    rw [hstep, ih, value_concat]
    omega

/-! ### Parts of a field -/

/-- The parts of a field: blanks, a sign, digits, and the rest, none of which could be longer.
    Together they are the `field`. -/
structure Parts (field blanks signs digits rest : Bytes) : Prop where
  field_eq : field = blanks ++ (signs ++ (digits ++ rest))
  blank : ∀ b ∈ blanks, isBlank b = true
  not_blank : ∀ b ∈ (signs ++ (digits ++ rest)).head?, isBlank b = false
  sign : signs = [] ∨ signs = [0x2B] ∨ signs = [0x2D]
  not_sign : signs = [] → ∀ b ∈ (digits ++ rest).head?, b ≠ 0x2B ∧ b ≠ 0x2D
  digit : ∀ d ∈ digits, isDigit d = true
  not_digit : ∀ b ∈ rest.head?, isDigit b = false

/-- What a sign and digits mean: one if there are no digits, and otherwise the `value` of the digits
    with the sign, or the nearest number that a parameter can be. -/
def meaning (signs digits : Bytes) : Int :=
  if digits = [] then 1
  else (if signs = [0x2D] then -1 else 1) * ((min (value digits) largest : Nat) : Int)

/-- A field says the `meaning` of its sign and its digits, whatever else is in it. -/
def Says (field : Bytes) (n : Int) : Prop :=
  ∃ blanks signs digits rest, Parts field blanks signs digits rest ∧ n = meaning signs digits

variable {field blanks signs digits rest : Bytes}

/-- What follows a `run` of bytes of a kind is found by dropping bytes of the kind. -/
theorem dropWhile_append {p : UInt8 → Bool} {run rest : Bytes} (hrun : ∀ b ∈ run, p b = true)
    (hrest : ∀ b ∈ rest.head?, p b = false) : (run ++ rest).dropWhile p = rest := by
  rw [List.dropWhile_append_of_pos hrun]
  cases rest with
  | nil => rfl
  | cons b rest => exact List.dropWhile_cons_of_neg (by simp [hrest b rfl])

/-- A `run` of bytes of a kind is found by taking bytes of the kind. -/
theorem takeWhile_append {p : UInt8 → Bool} {run rest : Bytes} (hrun : ∀ b ∈ run, p b = true)
    (hrest : ∀ b ∈ rest.head?, p b = false) : (run ++ rest).takeWhile p = run := by
  rw [List.takeWhile_append_of_pos hrun]
  cases rest with
  | nil => rw [List.takeWhile_nil, List.append_nil]
  | cons b rest => rw [List.takeWhile_cons_of_neg (by simp [hrest b rfl]), List.append_nil]

namespace Parts

/-- What `Parameters.sign` takes off is the sign that a field begins with. -/
theorem sign_eq (h : Parts field blanks signs digits rest) :
    Parameters.sign (signs ++ (digits ++ rest))
      = (if signs = [0x2D] then -1 else 1, digits ++ rest) := by
  rcases h.sign with rfl | rfl | rfl
  · -- nothing is taken for a sign that is none
    have hnone := h.not_sign rfl
    generalize digits ++ rest = tail at hnone
    rw [List.nil_append, if_neg (by simp)]
    unfold Parameters.sign
    split
    · exact absurd rfl (hnone _ rfl).2
    · exact absurd rfl (hnone _ rfl).1
    · rfl
  · rfl
  · rfl

/-- The `number` that is read is the `meaning` of the parts. -/
theorem number_eq (h : Parts field blanks signs digits rest) :
    number field = meaning signs digits := by
  have hfield : field.dropWhile isBlank = signs ++ (digits ++ rest) := by
    rw [h.field_eq]
    exact dropWhile_append h.blank h.not_blank
  unfold number meaning
  rw [hfield, h.sign_eq]
  dsimp only
  rw [takeWhile_append h.digit h.not_digit, magnitude_eq]
  simp only [List.isEmpty_iff]

end Parts

/-- Every field has its `Parts`. -/
theorem exists_parts (field : Bytes) :
    ∃ blanks signs digits rest, Parts field blanks signs digits rest := by
  have hafter : ∀ (p : UInt8 → Bool) (bytes : Bytes),
      ∀ b ∈ (bytes.dropWhile p).head?, p b = false :=
    fun p bytes b hb => by
      have hnone := List.head?_dropWhile_not p bytes
      rw [Option.mem_def.mp hb] at hnone
      simpa using hnone
  let tail := field.dropWhile isBlank
  have hfield : field = field.takeWhile isBlank ++ tail := List.takeWhile_append_dropWhile.symm
  have hblank : ∀ b ∈ field.takeWhile isBlank, isBlank b = true :=
    List.all_eq_true.mp List.all_takeWhile
  have hdigit : ∀ bytes : Bytes, ∀ d ∈ bytes.takeWhile isDigit, isDigit d = true :=
    fun bytes => List.all_eq_true.mp List.all_takeWhile
  -- the sign is there or it is not, and the digits are those after it
  have hsigned : ∃ signs bytes, tail = signs ++ bytes
      ∧ (signs = [] ∨ signs = [0x2B] ∨ signs = [0x2D])
      ∧ (signs = [] → ∀ b ∈ bytes.head?, b ≠ 0x2B ∧ b ≠ 0x2D) := by
    rcases htail : tail with _ | ⟨b, bytes⟩
    · exact ⟨[], [], rfl, .inl rfl, fun _ b hb => absurd hb (Option.not_mem_none b)⟩
    · by_cases hplus : b = 0x2B
      · exact ⟨[0x2B], bytes, by rw [hplus]; rfl, .inr (.inl rfl), fun h => absurd h (by simp)⟩
      · by_cases hminus : b = 0x2D
        · exact ⟨[0x2D], bytes, by rw [hminus]; rfl, .inr (.inr rfl), fun h => absurd h (by simp)⟩
        · refine ⟨[], b :: bytes, rfl, .inl rfl, fun _ c hc => ?_⟩
          obtain rfl : b = c := by simpa using hc
          exact ⟨hplus, hminus⟩
  obtain ⟨signs, bytes, htail, hsign, hnone⟩ := hsigned
  have hbytes : bytes.takeWhile isDigit ++ bytes.dropWhile isDigit = bytes :=
    List.takeWhile_append_dropWhile
  refine ⟨field.takeWhile isBlank, signs, bytes.takeWhile isDigit, bytes.dropWhile isDigit, ?_⟩
  exact
    { field_eq := by rw [hbytes, ← htail]; exact hfield
      blank := hblank
      not_blank := by rw [hbytes, ← htail]; exact hafter isBlank field
      sign := hsign
      not_sign := by rw [hbytes]; exact hnone
      digit := hdigit bytes
      not_digit := hafter isDigit bytes }

/-- A field `Says` one number, and it is the `number` that is read. -/
theorem says_iff {n : Int} : Says field n ↔ number field = n := by
  constructor
  · rintro ⟨blanks, signs, digits, rest, hparts, rfl⟩
    exact hparts.number_eq
  · rintro rfl
    obtain ⟨blanks, signs, digits, rest, hparts⟩ := exists_parts field
    exact ⟨blanks, signs, digits, rest, hparts, hparts.number_eq⟩

/-- No `number` that is read is larger than `largest`, with either sign. -/
theorem natAbs_number_le (field : Bytes) : (number field).natAbs ≤ largest := by
  obtain ⟨blanks, signs, digits, rest, hparts⟩ := exists_parts field
  rw [hparts.number_eq, meaning]
  have hpositive : 1 ≤ largest := by decide
  split
  · exact hpositive
  · split <;> omega

/-! ### Fields of a sequence -/

/-- The `fields` are what lies between the semicolons. -/
theorem fields_eq_splitOn (bytes : Bytes) : fields bytes = bytes.splitOn 0x3B := by
  induction bytes with
  | nil => rfl
  | cons b bytes ih =>
    obtain ⟨field, others, hfields⟩ := List.exists_cons_of_ne_nil (fields_ne_nil bytes)
    have hcut : fields (b :: bytes)
        = if b = 0x3B then [] :: field :: others else (b :: field) :: others := by
      rw [fields] at hfields ⊢
      rw [List.foldr_cons, hfields]
    rw [hcut, List.splitOn_cons_eq_if_modifyHead, ← ih, hfields]
    simp only [beq_iff_eq]
    rfl

/-- The `parameters` are the numbers that the fields say, one after the other. -/
theorem forall₂_says_iff (bytes : Bytes) (values : List Int) :
    List.Forall₂ Says (bytes.splitOn 0x3B) values ↔ values = parameters bytes := by
  have hspoken : Says = fun field n => number field = n := by
    funext field n
    exact propext says_iff
  rw [hspoken, ← fields_eq_splitOn, parameters, ← List.forall₂_map_left_iff, List.forall₂_eq_eq_eq,
    eq_comm]

/-! ### Written numbers -/

/-- An integer in decimal digits, after a minus if it is negative. -/
def decimal (n : Int) : Bytes :=
  (toString n).toList.map fun c => UInt8.ofNat c.toNat

/-- Some numbers as `decimal` writes them, with semicolons between them. -/
def text (values : List Int) : Bytes :=
  [0x3B].intercalate (values.map decimal)

/-- The digits of a number, as `Nat.toDigits` has them. -/
def digitsOf (n : Nat) : Bytes :=
  (Nat.toDigits 10 n).map fun c => UInt8.ofNat c.toNat

/-- A digit is written in one byte. -/
theorem toNat_digit {c : Char} (h : c.isDigit = true) :
    (UInt8.ofNat c.toNat).toNat = c.toNat ∧ 0x30 ≤ c.toNat ∧ c.toNat ≤ 0x39 := by
  obtain ⟨hzero, hnine⟩ : 0x30 ≤ c.toNat ∧ c.toNat ≤ 0x39 := by
    simpa [Char.isDigit, UInt32.le_iff_toNat_le] using h
  refine ⟨?_, hzero, hnine⟩
  rw [UInt8.toNat_ofNat']
  omega

theorem decimal_eq (n : Int) :
    decimal n = (if n < 0 then [0x2D] else []) ++ digitsOf n.natAbs := by
  unfold decimal digitsOf
  rw [Int.toString_eq_repr, Int.repr_eq_if]
  by_cases hn : 0 ≤ n
  · have hnat : n.toNat = n.natAbs := by omega
    rw [if_pos hn, if_neg (by omega), Nat.repr_eq_ofList_toDigits, String.toList_ofList, hnat]
    rfl
  · have hnat : (-n).toNat = n.natAbs := by omega
    rw [if_neg hn, if_pos (by omega), Nat.repr_eq_ofList_toDigits, String.toList_append, hnat,
      List.map_append]
    simp only [String.toList_ofList]
    rfl

theorem isDigit_digitsOf (n : Nat) : ∀ d ∈ digitsOf n, isDigit d = true := by
  intro d hd
  obtain ⟨c, hc, rfl⟩ := List.mem_map.mp hd
  obtain ⟨hbyte, hzero, hnine⟩ :=
    toNat_digit (Nat.isDigit_of_mem_toDigits (by decide) (by decide) hc)
  simp [isDigit, hbyte, hzero, hnine]

/-- The digits of a number have its `value`. -/
theorem value_digitsOf (n : Nat) : value (digitsOf n) = n := by
  have hback : (digitsOf n).map (fun d => Char.ofNat d.toNat) = Nat.toDigits 10 n := by
    unfold digitsOf
    rw [List.map_map]
    refine (List.map_congr_left fun c hc => ?_).trans (List.map_id _)
    have hbyte := (toNat_digit (Nat.isDigit_of_mem_toDigits (by decide) (by decide) hc)).1
    show Char.ofNat (UInt8.ofNat c.toNat).toNat = c
    rw [hbyte]
    exact Char.ofNat_toNat c
  unfold value
  rw [hback]
  exact Nat.ofDigitChars_ten_toDigits

/-- A digit satisfies `isDigit`, and is neither a blank nor a sign nor a semicolon. -/
theorem ne_of_isDigit {b : UInt8} (h : isDigit b = true) :
    isBlank b = false ∧ b ≠ 0x2B ∧ b ≠ 0x2D ∧ b ≠ 0x3B := by
  have hdigit : 0x30 ≤ b.toNat ∧ b.toNat ≤ 0x39 := by simpa [isDigit] using h
  have hother : ∀ c : UInt8, c.toNat < 0x30 ∨ 0x39 < c.toNat → b ≠ c := by
    rintro c hc rfl
    omega
  have hblank : isBlank b = false := by
    simp only [isBlank, Bool.or_eq_false_iff, decide_eq_false_iff_not]
    exact ⟨⟨⟨⟨hother _ (by decide), hother _ (by decide)⟩, hother _ (by decide)⟩,
      hother _ (by decide)⟩, hother _ (by decide)⟩
  exact ⟨hblank, hother _ (by decide), hother _ (by decide), hother _ (by decide)⟩

/-- The `Parts` of a written number are a sign, if it has one, and its digits. -/
theorem parts_decimal (n : Int) :
    Parts (decimal n) [] (if n < 0 then [0x2D] else []) (digitsOf n.natAbs) [] := by
  -- what stands first in the text of the number, after a minus, is a digit
  have hhead : ∀ b ∈ (digitsOf n.natAbs ++ []).head?, isDigit b = true := by
    intro b hb
    rw [List.append_nil] at hb
    exact isDigit_digitsOf _ b (List.mem_of_mem_head? hb)
  exact
    { field_eq := by rw [decimal_eq, List.append_nil, List.nil_append]
      blank := fun b hb => absurd hb List.not_mem_nil
      not_blank := by
        split
        · intro b hb
          obtain rfl : 0x2D = b := by simpa using hb
          rfl
        · exact fun b hb => (ne_of_isDigit (hhead b hb)).1
      sign := by
        split
        · exact .inr (.inr rfl)
        · exact .inl rfl
      not_sign := fun _ b hb =>
        ⟨(ne_of_isDigit (hhead b hb)).2.1, (ne_of_isDigit (hhead b hb)).2.2.1⟩
      digit := isDigit_digitsOf _
      not_digit := fun b hb => absurd hb (Option.not_mem_none b) }

/-- A number is read as `decimal` writes it, unless it is larger than `largest`. -/
theorem number_decimal {n : Int} (h : n.natAbs ≤ largest) : number (decimal n) = n := by
  have hdigits : digitsOf n.natAbs ≠ [] := by
    unfold digitsOf
    rw [Ne, List.map_eq_nil_iff]
    exact Nat.toDigits_ne_nil
  rw [(parts_decimal n).number_eq, meaning, if_neg hdigits, value_digitsOf, Nat.min_eq_left h]
  by_cases hn : n < 0
  · rw [if_pos (by rw [if_pos hn])]
    omega
  · rw [if_neg (by rw [if_neg hn]; simp)]
    omega

/-- There is no semicolon in what `decimal` writes. -/
theorem semicolon_notMem_decimal (n : Int) : 0x3B ∉ decimal n := by
  rw [decimal_eq, List.mem_append, not_or]
  constructor
  · split <;> decide
  · exact fun hmem => (ne_of_isDigit (isDigit_digitsOf _ _ hmem)).2.2.2 rfl

/-- Numbers are read as `text` writes them, if there are any and none is larger than `largest`. -/
theorem parameters_text {values : List Int} (hsome : values ≠ [])
    (hvalues : ∀ v ∈ values, v.natAbs ≤ largest) : parameters (text values) = values := by
  have hfields : fields (text values) = values.map decimal := by
    rw [fields_eq_splitOn]
    refine List.splitOn_intercalate 0x3B ?_ (by rwa [Ne, List.map_eq_nil_iff])
    intro field hfield
    obtain ⟨v, -, rfl⟩ := List.mem_map.mp hfield
    exact semicolon_notMem_decimal v
  rw [parameters, hfields, List.map_map]
  exact (List.map_congr_left fun v hv => number_decimal (hvalues v hv)).trans (List.map_id _)

end TextArt.Parameters
