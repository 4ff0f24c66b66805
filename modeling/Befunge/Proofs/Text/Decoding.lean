import Befunge.Text.Utf8

/-!
# Reading characters from bytes

The encoding of a character begins with a byte that no other character goes on with. So whatever
the reader makes of malformed bytes, it never reaches into a text that comes after them: such a text
is read as it was written. Of malformed bytes it takes the first one and those behind it that look
like the rest of an encoding, as many as the first one announces.
-/

namespace Befunge.Text.Utf8

section Shapes

variable {lead : UInt8} {s : Shape}

theorem range_of_lenient (h : lenient lead = some s) : s.low = 0x80 ∧ s.high = 0xbf := by
  grind [lenient]

theorem not_isContinuation_of_lenient (h : lenient lead = some s) :
    isContinuation lead = false := by
  grind [lenient, isContinuation]

theorem fitting_of_lenient (h : lenient lead = some s) (rest : List UInt8) :
    s.fitting rest = (rest.take s.count).takeWhile isContinuation := by
  obtain ⟨hlow, hhigh⟩ := range_of_lenient h
  cases rest with
  | nil => simp [Shape.fitting]
  | cons b rest =>
    cases hcount : s.count with
    | zero => simp [Shape.fitting, hcount]
    | succ n =>
      simp only [Shape.fitting, hlow, hhigh, hcount]
      by_cases hb : 0x80 ≤ b ∧ b ≤ 0xbf
      · simp [isContinuation, hb]
      · simp [isContinuation, hb]

theorem length_fitting_le (h : lenient lead = some s) (rest : List UInt8) :
    (s.fitting rest).length ≤ rest.length := by
  rw [fitting_of_lenient h]
  exact ((List.takeWhile_sublist _).trans (List.take_sublist _ _)).length_le

end Shapes

/-- The bytes are at their end or begin with a byte that goes on with no character. -/
def Fresh (bytes : List UInt8) : Prop := ∀ b ∈ bytes.head?, isContinuation b = false

section Fresh

variable {p t : List UInt8}

theorem Fresh.takeWhile_take (ht : Fresh t) (n : Nat) :
    (t.take n).takeWhile isContinuation = [] := by
  cases t with
  | nil => simp
  | cons b rest =>
    have hb : isContinuation b = false := ht b rfl
    cases n with
    | zero => rfl
    | succ n => simp [hb]

theorem Fresh.fitting_append {lead : UInt8} {s : Shape} (ht : Fresh t)
    (h : lenient lead = some s) (rest : List UInt8) :
    s.fitting (rest ++ t) = s.fitting rest := by
  rw [fitting_of_lenient h, fitting_of_lenient h, List.take_append, List.takeWhile_append,
    ht.takeWhile_take, List.append_nil]
  split
  · next hall => exact ((List.takeWhile_prefix _).eq_of_length hall).symm
  · rfl

theorem Fresh.read_append (ht : Fresh t) (hp : p ≠ []) :
    read lenient (p ++ t) = (read lenient p).map fun (c, rest) => (c, rest ++ t) := by
  obtain ⟨lead, rest, rfl⟩ := List.exists_cons_of_ne_nil hp
  simp only [List.cons_append, read]
  cases hs : lenient lead with
  | none => rfl
  | some s =>
    simp only [ht.fitting_append hs, Option.map_some,
      List.drop_append_of_le_length (length_fitting_le hs rest)]

theorem read_eq_none_iff {shape : UInt8 → Option Shape} {bytes : List UInt8} :
    read shape bytes = none ↔ bytes = [] := by
  cases bytes with
  | nil => simp [read]
  | cons lead rest =>
    simp only [read]
    cases shape lead <;> simp

theorem readAll_of_read {shape : UInt8 → Option Shape} {bytes rest : List UInt8} {c : Char}
    (h : read shape bytes = some (c, rest)) :
    readAll shape bytes = c :: readAll shape rest := by
  rw [readAll]
  split
  · next hnone => simp [h] at hnone
  · next hsome =>
    obtain ⟨rfl, rfl⟩ := Prod.mk.inj (Option.some.inj (h.symm.trans hsome))
    rfl

theorem Fresh.readAll_append (ht : Fresh t) (p : List UInt8) :
    readAll lenient (p ++ t) = readAll lenient p ++ readAll lenient t := by
  -- one call after the other, as the reader goes through `p`
  fun_induction readAll lenient p with
  | case1 p h =>
    rw [read_eq_none_iff.mp h, List.nil_append]
    rfl
  | case2 p c rest h ih =>
    have hp : p ≠ [] := by
      rintro rfl
      cases h
    have hread : read lenient (p ++ t) = some (c, rest ++ t) := by
      rw [ht.read_append hp, h]
      rfl
    rw [readAll_of_read hread, ih]
    rfl

end Fresh

section Encoding

/-- How many bytes are announced by the bits of a lead byte. -/
theorem lenient_ofNat (n count : Nat)
    (h : n < 0x80 ∧ count = 0 ∨ 0xc0 ≤ n ∧ n < 0xe0 ∧ count = 1 ∨
      0xe0 ≤ n ∧ n < 0xf0 ∧ count = 2 ∨ 0xf0 ≤ n ∧ n < 0xf8 ∧ count = 3) :
    lenient (UInt8.ofNat n) = some ⟨count, 0x80, 0xbf⟩ := by
  have hn : (UInt8.ofNat n).toNat = n := UInt8.toNat_ofNat_of_lt' (show n < 256 by omega)
  simp only [lenient, UInt8.lt_iff_toNat_lt, hn, UInt8.reduceToNat]
  grind

theorem isContinuation_ofNat (n : Nat) : isContinuation (UInt8.ofNat (n % 64 + 128)) = true := by
  have hn : (UInt8.ofNat (n % 64 + 128)).toNat = n % 64 + 128 :=
    UInt8.toNat_ofNat_of_lt' (show n % 64 + 128 < 256 by omega)
  simp only [isContinuation, UInt8.le_iff_toNat_le, hn, UInt8.reduceToNat, Bool.and_eq_true,
    decide_eq_true_eq]
  omega

/-- A character is encoded by a lead byte and as many continuation bytes as it announces. -/
theorem exists_lead (c : Char) :
    ∃ lead tail s, String.utf8EncodeChar c = lead :: tail ∧ lenient lead = some s ∧
      tail.length = s.count ∧ ∀ b ∈ tail, isContinuation b = true := by
  have htail : ∀ ns : List Nat, ∀ b ∈ ns.map fun n => UInt8.ofNat (n % 64 + 128),
      isContinuation b = true := by
    intro ns b hb
    obtain ⟨n, -, rfl⟩ := List.mem_map.mp hb
    exact isContinuation_ofNat n
  simp only [String.utf8EncodeChar]
  generalize c.val.toNat = n
  split
  · exact ⟨_, _, _, rfl, lenient_ofNat _ 0 (by omega), rfl, htail []⟩
  split
  · exact ⟨_, _, _, rfl, lenient_ofNat _ 1 (by omega), rfl, htail [n]⟩
  split
  · exact ⟨_, _, _, rfl, lenient_ofNat _ 2 (by omega), rfl, htail [n / 64, n]⟩
  · exact ⟨_, _, _, rfl, lenient_ofNat _ 3 (by omega), rfl, htail [n / 4096, n / 64, n]⟩

theorem read_utf8EncodeChar_append (c : Char) (rest : List UInt8) :
    read lenient (String.utf8EncodeChar c ++ rest) = some (c, rest) := by
  obtain ⟨lead, tail, s, hbytes, hs, hlength, htail⟩ := exists_lead c
  have hfitting : s.fitting (tail ++ rest) = tail := by
    have hall : (tail ++ []).takeWhile isContinuation = tail ++ [].takeWhile isContinuation :=
      List.takeWhile_append_of_pos htail
    rw [List.append_nil, List.takeWhile_nil, List.append_nil] at hall
    rw [fitting_of_lenient hs, ← hlength, List.take_left, hall]
  have hchar : char? (lead :: tail) = some c := char?_eq_some_iff.mpr hbytes
  rw [hbytes, List.cons_append, read]
  simp [hs, hfitting, hlength, hchar]

theorem encode_toList (text : String) : encode text.toList = text.toUTF8.data.toList := by
  have hbytes : text.toUTF8 = text.toList.utf8Encode := by
    rw [String.toUTF8_eq_toByteArray, ← String.toByteArray_ofList, String.ofList_toList]
  rw [hbytes, List.utf8Encode, List.data_toByteArray]
  rfl

theorem length_encode (text : String) : (encode text.toList).length = text.utf8ByteSize := by
  rw [encode_toList, Array.length_toList]
  rfl

theorem appendList_encode (front rest : String) :
    front.toUTF8.data.appendList (encode rest.toList) = (front ++ rest).toUTF8.data := by
  rw [encode_toList]
  apply Array.toList_inj.mp
  simp

theorem encode_cons (c : Char) (text : List Char) :
    encode (c :: text) = String.utf8EncodeChar c ++ encode text := rfl

theorem fresh_encode (text : List Char) : Fresh (encode text) := by
  cases text with
  | nil => nofun
  | cons c text =>
    obtain ⟨lead, tail, s, hbytes, hs, -⟩ := exists_lead c
    rw [encode_cons, hbytes]
    rintro b ⟨⟩
    exact not_isContinuation_of_lenient hs

theorem readAll_encode (text : List Char) : readAll lenient (encode text) = text := by
  induction text with
  | nil => rw [readAll]; rfl
  | cons c text ih =>
    rw [encode_cons, readAll_of_read (read_utf8EncodeChar_append c _), ih]

end Encoding

/-- `Drained bytes chars`: the reader, called until it finds no more bytes, answers with these
characters. -/
inductive Drained : List UInt8 → List Char → Prop
  | done {bytes : List UInt8} (h : readChar bytes = none) : Drained bytes []
  | more {bytes rest : List UInt8} {c : Char} {chars : List Char}
      (h : readChar bytes = some (c, rest)) (hrest : Drained rest chars) :
      Drained bytes (c :: chars)

theorem drained_readAll (bytes : List UInt8) : Drained bytes (readAll lenient bytes) := by
  fun_induction readAll lenient bytes with
  | case1 bytes h => exact .done h
  | case2 bytes c rest h ih => exact .more h ih

theorem drained_iff {bytes : List UInt8} {chars : List Char} :
    Drained bytes chars ↔ chars = readAll lenient bytes := by
  constructor
  · intro h
    induction h with
    | done h =>
      rw [read_eq_none_iff.mp h, readAll]
      rfl
    | more h _ ih => rw [readAll_of_read h, ih]
  · rintro rfl
    exact drained_readAll bytes

/-- Malformed input does no damage to what follows. Reading comes to an end on any bytes, and a text
that stands behind them is read unchanged, after just what is read from those bytes alone. -/
theorem text_read_after_any_bytes (p : List UInt8) (text : List Char) :
    (∀ bytes chars, Drained bytes chars ↔ chars = readAll lenient bytes) ∧
      readAll lenient (p ++ encode text) = readAll lenient p ++ text := by
  refine ⟨fun _ _ => drained_iff, ?_⟩
  rw [(fresh_encode text).readAll_append, readAll_encode]

section Exact

/-- How many continuation bytes the bits of a byte announce, none if it is no lead byte. -/
def announced (lead : UInt8) : Nat :=
  if 0xc0 ≤ lead ∧ lead ≤ 0xdf then 1
  else if 0xe0 ≤ lead ∧ lead ≤ 0xef then 2
  else if 0xf0 ≤ lead ∧ lead ≤ 0xf7 then 3
  else 0

/-- The longest run of continuation bytes right behind a byte, cut to as many as it announces. -/
def trail (lead : UInt8) (rest : List UInt8) : List UInt8 :=
  (rest.takeWhile isContinuation).take (announced lead)

variable {lead : UInt8} {rest : List UInt8}

theorem announced_of_lenient {s : Shape} (h : lenient lead = some s) :
    announced lead = s.count := by
  grind [announced, lenient]

theorem announced_of_lenient_eq_none (h : lenient lead = none) : announced lead = 0 := by
  grind [announced, lenient]

theorem announced_le (lead : UInt8) : announced lead ≤ 3 := by
  grind [announced]

theorem fitting_eq_trail {s : Shape} (h : lenient lead = some s) (rest : List UInt8) :
    s.fitting rest = trail lead rest := by
  rw [fitting_of_lenient h, trail, announced_of_lenient h, List.take_takeWhile]

/-- Only a lead byte with just the continuation bytes it announces encodes a character. -/
theorem char?_eq_none {tail : List UInt8}
    (h : ∀ s, lenient lead = some s → tail.length ≠ s.count) : char? (lead :: tail) = none := by
  apply Option.eq_none_iff_forall_not_mem.mpr
  intro c hc
  obtain ⟨lead', tail', s, hbytes, hs, hlength, -⟩ := exists_lead c
  obtain ⟨rfl, rfl⟩ := List.cons.inj (hbytes.symm.trans (char?_eq_some_iff.mp hc))
  exact h s hs hlength

theorem readChar_cons (lead : UInt8) (rest : List UInt8) :
    readChar (lead :: rest) = some
      ((char? (lead :: trail lead rest)).getD '\ufffd', rest.drop (trail lead rest).length) := by
  rw [readChar, read]
  cases hs : lenient lead with
  | none =>
    have htrail : trail lead rest = [] := by
      rw [trail, announced_of_lenient_eq_none hs, List.take_zero]
    have hchar : char? [lead] = none := char?_eq_none (by simp [hs])
    simp [htrail, hchar]
  | some s =>
    simp only [fitting_eq_trail hs]
    split
    · rfl
    · next hshort =>
      have hchar : char? (lead :: trail lead rest) = none := by
        apply char?_eq_none
        rw [hs]
        rintro _ ⟨⟩
        exact hshort
      rw [hchar]

/-- The reader decodes exactly. Bytes that begin with the encoding of a character give that
character and lose just its encoding; any others give the replacement character and lose the first
byte with its trail. In either case at most four bytes go, and none behind the first of them could
begin a character. -/
theorem readChar_exact (lead : UInt8) (rest : List UInt8) :
    (∀ c rest', lead :: rest = String.utf8EncodeChar c ++ rest' →
        readChar (lead :: rest) = some (c, rest')) ∧
      ((∀ c, ¬String.utf8EncodeChar c <+: lead :: rest) →
        readChar (lead :: rest) = some ('\ufffd', rest.drop (trail lead rest).length)) ∧
      ∃ c tail rest', rest = tail ++ rest' ∧ readChar (lead :: rest) = some (c, rest') ∧
        tail.length ≤ 3 ∧ ∀ b ∈ tail, 0x80 ≤ b ∧ b ≤ 0xbf := by
  have htrail : trail lead rest <+: rest :=
    (List.take_prefix _ _).trans (List.takeWhile_prefix _)
  refine ⟨?_, ?_, ?_⟩
  · intro c rest' hbytes
    rw [hbytes]
    exact read_utf8EncodeChar_append c rest'
  · intro hnone
    have hchar : char? (lead :: trail lead rest) = none := by
      apply Option.eq_none_iff_forall_not_mem.mpr
      intro c hc
      apply hnone c
      rw [char?_eq_some_iff.mp hc]
      exact List.cons_prefix_cons.mpr ⟨rfl, htrail⟩
    rw [readChar_cons, hchar, Option.getD_none]
  · refine ⟨_, trail lead rest, rest.drop (trail lead rest).length, ?_, readChar_cons lead rest,
      ?_, ?_⟩
    · exact (List.prefix_iff_eq_append.mp htrail).symm
    · exact Nat.le_trans (List.length_take_le _ _) (announced_le lead)
    · intro b hb
      have hcontinuation := List.all_eq_true.mp List.all_takeWhile b (List.mem_of_mem_take hb)
      simpa [isContinuation] using hcontinuation

/-- Three bytes with the bits of an encoding that is one byte too long. -/
theorem readChar_exact_overlong :
    (∀ c, ¬String.utf8EncodeChar c <+: [0xe0, 0x80, 0x80, 0x41]) ∧
      readChar [0xe0, 0x80, 0x80, 0x41] = some ('\ufffd', [0x41]) := by
  have hexact := readChar_exact 0xe0 [0x80, 0x80, 0x41]
  have hnone : ∀ c, ¬String.utf8EncodeChar c <+: [0xe0, 0x80, 0x80, 0x41] := by
    rintro c ⟨rest', hbytes⟩
    have hread : readChar [0xe0, 0x80, 0x80, 0x41] = some ('\ufffd', [0x41]) := by decide
    rw [hexact.1 c rest' hbytes.symm] at hread
    simp only [Option.some.injEq, Prod.mk.injEq] at hread
    obtain ⟨rfl, rfl⟩ := hread
    revert hbytes
    decide
  exact ⟨hnone, hexact.2.1 hnone⟩

end Exact

end Befunge.Text.Utf8
