namespace TextArt.Format

/-!
# Checksums — numbers that guard the bytes of a file

* `littleEndian`, `bigEndian` — a number in some bytes, from its lowest or from its
  highest byte on;
* `crc` — the remainder of bytes under the common polynomial of degree 32, lowest bit
  first, taken a byte at a time from a table of 256 remainders;
* `twoSums` — the sum of bytes and the sum of its intermediate values, both modulo the
  largest prime below 65536.
-/

/-! ### Numbers in bytes -/

/-- The `n` lowest bytes of a number, the lowest one first. -/
def littleEndian : Nat → Nat → List UInt8
  | 0, _ => []
  | n + 1, value => UInt8.ofNat value :: littleEndian n (value / 256)

/-- The `n` lowest bytes of a number, the highest of them first. -/
def bigEndian (n value : Nat) : List UInt8 :=
  (littleEndian n value).reverse

@[simp] theorem length_littleEndian (n value : Nat) : (littleEndian n value).length = n := by
  induction n generalizing value with
  | zero => rfl
  | succ n ih => simp [littleEndian, ih]

@[simp] theorem length_bigEndian (n value : Nat) : (bigEndian n value).length = n := by
  simp [bigEndian]

/-! ### Remainders -/

/-- One step of a division: the remainder moves down a place, and the polynomial `0xEDB88320` is
    taken away if the bit that leaves is set. -/
def divideBit (remainder : UInt32) : UInt32 :=
  if remainder &&& 1 = 1 then (remainder >>> 1) ^^^ 0xEDB88320 else remainder >>> 1

/-- Some steps of a division, each of them by `divideBit`. -/
def divideBits : Nat → UInt32 → UInt32
  | 0, remainder => remainder
  | n + 1, remainder => divideBits n (divideBit remainder)

/-- The remainders of single bytes, by eight steps of `divideBits` each. -/
def byteRemainders : Array UInt32 :=
  Array.ofFn fun i : Fin 256 => divideBits 8 (UInt32.ofNat i)

/-- There is one of the `byteRemainders` for every byte. -/
theorem size_byteRemainders : byteRemainders.size = 256 := Array.size_ofFn

/-- The remainder after one more byte, looked up in `byteRemainders`. -/
def divideByte (remainder : UInt32) (b : UInt8) : UInt32 :=
  byteRemainders.getD ((remainder ^^^ b.toUInt32) &&& 0xFF).toNat 0 ^^^ (remainder >>> 8)

/-- The remainder of bytes, by `divideByte`, all bits inverted before and after. -/
def crc (bytes : ByteArray) : UInt32 :=
  bytes.foldl divideByte 0xFFFFFFFF ^^^ 0xFFFFFFFF

/-! ### Sums -/

/-- The largest prime below 65536, by which `addByte` reduces. -/
def sumModulus : Nat := 65521

/-- The two sums after one more byte, both of them below `sumModulus`. -/
def addByte (sums : Nat × Nat) (b : UInt8) : Nat × Nat :=
  let first := (sums.1 + b.toNat) % sumModulus
  (first, (sums.2 + first) % sumModulus)

/-- The sum of bytes by `addByte`, counted from one, in the lower half of a number, and the sum of
    all sums in its upper half. -/
def twoSums (bytes : ByteArray) : Nat :=
  let sums := bytes.foldl addByte (1, 0)
  sums.2 * UInt16.size + sums.1

end TextArt.Format
