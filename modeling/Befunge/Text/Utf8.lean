/-!
# UTF-8

Bytes read as characters. What counts as an encoding is decided by the encoder alone: a sequence of
bytes is the encoding of a character when encoding that character gives the sequence back. How far
a reader goes into a malformed sequence is decided by the shape it expects after a lead byte.
-/

namespace Befunge.Text.Utf8

def encode (text : List Char) : List UInt8 := text.flatMap String.utf8EncodeChar

/-- The payload bits of a lead byte and its continuation bytes put together. -/
def payload : List UInt8 → Nat
  | [a] => a.toNat
  | [a, b] => a.toNat % 32 * 64 + b.toNat % 64
  | [a, b, c] => a.toNat % 16 * 4096 + b.toNat % 64 * 64 + c.toNat % 64
  | [a, b, c, d] =>
    a.toNat % 8 * 262144 + b.toNat % 64 * 4096 + c.toNat % 64 * 64 + d.toNat % 64
  | _ => 0

/-- The character that exactly these bytes encode. -/
def char? (bytes : List UInt8) : Option Char :=
  let c := Char.ofNat (payload bytes)
  if String.utf8EncodeChar c = bytes then some c else none

theorem payload_utf8EncodeChar (c : Char) : payload (String.utf8EncodeChar c) = c.toNat := by
  have hc : c.val.toNat < 0x110000 := by
    have hv := c.valid
    simp only [UInt32.isValidChar, Nat.isValidChar] at hv
    omega
  unfold String.utf8EncodeChar
  simp only [Char.toNat]
  by_cases h1 : c.val.toNat ≤ 127
  · simp only [h1, if_true, payload, UInt8.toNat_ofNat']
    omega
  by_cases h2 : c.val.toNat ≤ 2047
  · simp only [h1, h2, if_true, if_false, payload, UInt8.toNat_ofNat']
    omega
  by_cases h3 : c.val.toNat ≤ 65535
  · simp only [h1, h2, h3, if_true, if_false, payload, UInt8.toNat_ofNat']
    omega
  · simp only [h1, h2, h3, if_false, payload, UInt8.toNat_ofNat']
    omega

theorem char?_eq_some_iff {bytes : List UInt8} {c : Char} :
    char? bytes = some c ↔ String.utf8EncodeChar c = bytes := by
  constructor
  · intro h
    simp only [char?] at h
    split at h
    · next he => rwa [← Option.some.inj h]
    · cases h
  · rintro rfl
    simp [char?, payload_utf8EncodeChar]

def isContinuation (b : UInt8) : Bool := 0x80 ≤ b && b ≤ 0xbf

/-- What may follow a lead byte: `count` continuation bytes, the first of them between `low` and
`high`. -/
structure Shape where
  count : Nat
  low : UInt8 := 0x80
  high : UInt8 := 0xbf

/-- Every byte that has the bits of a lead byte announces continuation bytes. -/
def lenient (lead : UInt8) : Option Shape :=
  if lead < 0x80 then some ⟨0, 0x80, 0xbf⟩
  else if lead < 0xc0 then none
  else if lead < 0xe0 then some ⟨1, 0x80, 0xbf⟩
  else if lead < 0xf0 then some ⟨2, 0x80, 0xbf⟩
  else if lead < 0xf8 then some ⟨3, 0x80, 0xbf⟩
  else none

/-- Only bytes that begin the encoding of some character announce continuation bytes, and only
those that go on with it. -/
def strict (lead : UInt8) : Option Shape :=
  if lead < 0x80 then some ⟨0, 0x80, 0xbf⟩
  else if lead < 0xc2 then none
  else if lead < 0xe0 then some ⟨1, 0x80, 0xbf⟩
  else if lead = 0xe0 then some ⟨2, 0xa0, 0xbf⟩
  else if lead = 0xed then some ⟨2, 0x80, 0x9f⟩
  else if lead < 0xf0 then some ⟨2, 0x80, 0xbf⟩
  else if lead = 0xf0 then some ⟨3, 0x90, 0xbf⟩
  else if lead < 0xf4 then some ⟨3, 0x80, 0xbf⟩
  else if lead = 0xf4 then some ⟨3, 0x80, 0x8f⟩
  else none

namespace Shape

/-- The leading bytes that fit the shape, at most as many as it announces. -/
def fitting (s : Shape) : List UInt8 → List UInt8
  | [] => []
  | b :: rest =>
    if 0 < s.count ∧ s.low ≤ b ∧ b ≤ s.high then
      b :: (rest.take (s.count - 1)).takeWhile isContinuation
    else []

end Shape

/-- Reads one character. A lead byte without its announced continuation bytes, or with bytes that
encode nothing, reads as the replacement character; the first byte that does not fit is left
unread. -/
def read (shape : UInt8 → Option Shape) : List UInt8 → Option (Char × List UInt8)
  | [] => none
  | lead :: rest =>
    match shape lead with
    | none => some ('\ufffd', rest)
    | some s =>
      let tail := s.fitting rest
      let c := if tail.length = s.count then char? (lead :: tail) else none
      some (c.getD '\ufffd', rest.drop tail.length)

theorem length_of_read {shape : UInt8 → Option Shape} {bytes rest : List UInt8} {c : Char}
    (h : read shape bytes = some (c, rest)) : rest.length < bytes.length := by
  cases bytes with
  | nil => simp [read] at h
  | cons lead tail =>
    simp only [read] at h
    split at h
    · simp only [Option.some.injEq, Prod.mk.injEq] at h
      simp [← h.2]
    · simp only [Option.some.injEq, Prod.mk.injEq] at h
      simp only [← h.2, List.length_drop, List.length_cons]
      omega

def readAll (shape : UInt8 → Option Shape) (bytes : List UInt8) : List Char :=
  match _h : read shape bytes with
  | none => []
  | some (c, rest) => c :: readAll shape rest
termination_by bytes.length
decreasing_by exact length_of_read _h

def readChar (bytes : List UInt8) : Option (Char × List UInt8) := read lenient bytes

/-- The characters of a file, with one replacement character for each longest sequence that begins
a character without ending it. -/
def decodeLossy (bytes : List UInt8) : List Char := readAll strict bytes

/-- The text whose encoding is exactly these bytes. -/
def decode? (bytes : List UInt8) : Option (List Char) :=
  let text := readAll lenient bytes
  if encode text = bytes then some text else none

/-- Splits off one line, through its newline or to the end. -/
def takeLine (bytes : List UInt8) : List UInt8 × List UInt8 :=
  match bytes.span (· ≠ 10) with
  | (line, newline :: rest) => (line ++ [newline], rest)
  | (line, []) => (line, [])

end Befunge.Text.Utf8
