import Befunge.Console.Buffered
import Befunge.Console.Stream
import Befunge.Proofs.Text.Decoding
import Mathlib.Data.List.TakeDrop

/-!
# Reading lines and characters

Lines and characters are read from the same bytes. A newline is a byte of its own in the encoding of
a text, so a line ends between two characters as a character does: what is left of an encoded text
is again an encoded text, whichever way it is read, and nothing of it is lost or read twice.
-/

namespace Befunge

open Text

namespace Text.Utf8

theorem encode_append (front rest : List Char) :
    encode (front ++ rest) = encode front ++ encode rest :=
  List.flatMap_append

theorem encode_ne_nil {text : List Char} (h : text ≠ []) : encode text ≠ [] := by
  obtain ⟨c, text, rfl⟩ := List.exists_cons_of_ne_nil h
  obtain ⟨lead, tail, s, hbytes, -⟩ := exists_lead c
  rw [encode_cons, hbytes]
  exact List.cons_ne_nil _ _

/-- The byte of a newline stands in no encoding but that of a newline. -/
theorem newline_not_mem_encode {text : List Char} (h : '\n' ∉ text) : 10 ∉ encode text := by
  intro hmem
  obtain ⟨c, hc, hbyte⟩ := List.mem_flatMap.mp hmem
  obtain ⟨lead, tail, s, hbytes, hs, hlength, htail⟩ := exists_lead c
  rw [hbytes] at hbyte
  rcases List.mem_cons.mp hbyte with rfl | hmem
  · -- the byte announces nothing, so it is the whole encoding
    obtain rfl : s = ⟨0, 0x80, 0xbf⟩ := (Option.some.inj hs).symm
    obtain rfl : tail = [] := List.length_eq_zero_iff.mp hlength
    obtain rfl : c = '\n' := Option.some.inj
      ((char?_eq_some_iff.mpr hbytes).symm.trans (char?_eq_some_iff.mpr rfl))
    exact h hc
  · cases htail 10 hmem

theorem span_encode {line : List Char} (h : '\n' ∉ line) {stop : List UInt8}
    (hstop : ∀ b ∈ stop.head?, b = 10) :
    (encode line ++ stop).span (· ≠ 10) = (encode line, stop) := by
  have hbytes : ∀ b ∈ encode line, decide (b ≠ 10) = true := by
    intro b hb
    exact decide_eq_true (ne_of_mem_of_not_mem hb (newline_not_mem_encode h))
  rw [List.span_eq_takeWhile_dropWhile, List.takeWhile_append_of_pos hbytes,
    List.dropWhile_append_of_pos hbytes]
  cases stop with
  | nil => simp
  | cons b stop => simp [hstop b rfl]

theorem takeLine_encode_newline {line : List Char} (h : '\n' ∉ line) (rest : List Char) :
    takeLine (encode (line ++ '\n' :: rest)) = (encode (line ++ ['\n']), encode rest) := by
  have hencode : encode (line ++ '\n' :: rest) = encode line ++ 10 :: encode rest :=
    encode_append line _
  rw [hencode, takeLine, span_encode h (by simp), encode_append]
  rfl

theorem takeLine_encode_last {line : List Char} (h : '\n' ∉ line) :
    takeLine (encode line) = (encode line, []) := by
  have hspan : (encode line ++ []).span (· ≠ 10) = (encode line, []) := span_encode h (by simp)
  rw [List.append_nil] at hspan
  rw [takeLine, hspan]

theorem decode?_encode (text : List Char) : decode? (encode text) = some text := by
  simp [decode?, readAll_encode]

theorem decode?_eq_some_iff {bytes : List UInt8} {text : List Char} :
    decode? bytes = some text ↔ encode text = bytes := by
  constructor
  · intro h
    simp only [decode?] at h
    split at h
    · next he => rwa [← Option.some.inj h]
    · cases h
  · rintro rfl
    exact decode?_encode text

theorem decode?_eq_none_iff {bytes : List UInt8} :
    decode? bytes = none ↔ ∀ text, encode text ≠ bytes := by
  simp only [Option.eq_none_iff_forall_ne_some, ne_eq, decode?_eq_some_iff]

theorem takeWhile_encode (text : List Char) :
    (encode text).takeWhile (· ≠ 10) = encode (text.takeWhile (· ≠ '\n')) := by
  have hline : '\n' ∉ text.takeWhile (· ≠ '\n') := by
    intro hmem
    simpa using List.all_eq_true.mp List.all_takeWhile _ hmem
  have hstop : ∀ b ∈ (encode (text.dropWhile (· ≠ '\n'))).head?, b = 10 := by
    have hhead := List.head?_dropWhile_not (· ≠ '\n') text
    cases hrest : text.dropWhile (· ≠ '\n') with
    | nil => simp [encode]
    | cons c rest =>
      rw [hrest] at hhead
      obtain rfl : c = '\n' := by simpa using hhead
      rintro b ⟨⟩
      rfl
  have hspan := span_encode hline hstop
  rw [← encode_append, List.takeWhile_append_dropWhile, List.span_eq_takeWhile_dropWhile] at hspan
  exact congrArg Prod.fst hspan

/-- A newline at its end does not decide whether a line is the encoding of a text. -/
theorem exists_encode_takeLine_iff {bytes : List UInt8} :
    (∃ text, encode text = (takeLine bytes).1) ↔
      ∃ text, encode text = bytes.takeWhile (· ≠ 10) := by
  have hhead := List.head?_dropWhile_not (· ≠ 10) bytes
  rw [takeLine, List.span_eq_takeWhile_dropWhile]
  cases hrest : bytes.dropWhile (· ≠ 10) with
  | nil => exact Iff.rfl
  | cons b rest =>
    rw [hrest] at hhead
    obtain rfl : b = 10 := by simpa using hhead
    constructor
    · rintro ⟨text, htext⟩
      have hline : ∀ b ∈ bytes.takeWhile (· ≠ 10), decide (b ≠ 10) = true :=
        List.all_eq_true.mp List.all_takeWhile
      refine ⟨text.takeWhile (· ≠ '\n'), ?_⟩
      rw [← takeWhile_encode, htext, List.takeWhile_append_of_pos hline]
      simp
    · rintro ⟨text, htext⟩
      refine ⟨text ++ ['\n'], ?_⟩
      rw [encode_append, htext]
      rfl

end Text.Utf8

namespace Input

open Utf8

theorem readLine_of_takeLine {text line rest : List Char} (hne : text ≠ [])
    (h : takeLine (encode text) = (encode line, encode rest)) :
    readLine (encode text) = (.ok (some line), encode rest) := by
  rw [readLine]
  · simp only [h, decode?_encode]
  · exact encode_ne_nil hne

theorem readLine_encode_newline {line : List Char} (h : '\n' ∉ line) (rest : List Char) :
    readLine (encode (line ++ '\n' :: rest)) = (.ok (some (line ++ ['\n'])), encode rest) :=
  readLine_of_takeLine (by simp) (takeLine_encode_newline h rest)

theorem readLine_encode_last {line : List Char} (h : '\n' ∉ line) (hne : line ≠ []) :
    readLine (encode line) = (.ok (some line), encode []) :=
  readLine_of_takeLine hne (takeLine_encode_last h)

theorem readLine_eq_error_iff {bytes : List UInt8} {e : ConsoleError} :
    (readLine bytes).1 = .error e ↔
      (∀ text, encode text ≠ bytes.takeWhile (· ≠ 10)) ∧ e = .invalidText := by
  have hline : decode? (takeLine bytes).1 = none ↔
      ∀ text, encode text ≠ bytes.takeWhile (· ≠ 10) := by
    rw [decode?_eq_none_iff, ← not_exists, ← not_exists, exists_encode_takeLine_iff]
  rw [← hline]
  cases bytes with
  | nil =>
    have hnil : decode? (takeLine []).1 = some [] := decode?_encode []
    simp [readLine, hnil]
  | cons b bytes =>
    simp only [readLine]
    cases decode? (takeLine (b :: bytes)).1 with
    | none => simp [eq_comm]
    | some text => simp

theorem readChar_encode (text : List Char) :
    readChar (encode text) = (text.head?, encode text.tail) := by
  cases text with
  | nil => rfl
  | cons c text =>
    have hread : Utf8.readChar (encode (c :: text)) = some (c, encode text) :=
      read_utf8EncodeChar_append c _
    rw [readChar, hread]
    rfl

end Input

namespace Console

variable {π : Type}

inductive Reading where
  | line
  | char
  deriving DecidableEq, Repr

/-- `Portion r text answer rest`: of a text a reading may bring this answer and leave that rest.
Only at the end of the text is nothing brought, and a line ends with its newline. -/
structure Portion (r : Reading) (text : List Char) (answer : Option (List Char))
    (rest : List Char) : Prop where
  text_eq : text = answer.getD [] ++ rest
  none_iff : answer = none ↔ text = []
  line : r = .line → ∀ line ∈ answer, line ≠ [] ∧ '\n' ∉ line.dropLast

/-- Readings of a text one after the other bring these answers: together they are the front of the
text, and nothing is brought exactly by those that find all of it read. -/
structure Portions (readings : List Reading) (text : List Char)
    (answers : List (Option (List Char))) : Prop where
  length : answers.length = readings.length
  front : answers.flatMap (·.getD []) <+: text
  none_iff : ∀ (i : Nat) answer, answers[i]? = some answer →
    (answer = none ↔ (answers.take i).flatMap (·.getD []) = text)
  line : ∀ (i : Nat) line, readings[i]? = some .line → answers[i]? = some (some line) →
    line ≠ [] ∧ '\n' ∉ line.dropLast

theorem portions_nil (text : List Char) : Portions [] text [] where
  length := rfl
  front := List.nil_prefix
  none_iff i answer h := by cases h
  line i line h := by cases h

theorem Portion.cons {r : Reading} {readings : List Reading} {text rest : List Char}
    {answer : Option (List Char)} {answers : List (Option (List Char))}
    (h : Portion r text answer rest) (hrest : Portions readings rest answers) :
    Portions (r :: readings) text (answer :: answers) where
  length := congrArg Nat.succ hrest.length
  front := by
    rw [h.text_eq, List.flatMap_cons]
    exact (List.prefix_append_right_inj _).mpr hrest.front
  none_iff i other hother := by
    cases i with
    | zero =>
      obtain rfl : answer = other := Option.some.inj hother
      rw [h.none_iff, List.take_zero, List.flatMap_nil]
      exact eq_comm
    | succ i =>
      rw [hrest.none_iff i other hother, h.text_eq, List.take_succ_cons, List.flatMap_cons,
        List.append_right_inj]
  line i line hline hanswer := by
    cases i with
    | zero => exact h.line (Option.some.inj hline) line (Option.some.inj hanswer)
    | succ i => exact hrest.line i line hline hanswer

theorem exists_portion_line (text : List Char) :
    ∃ answer rest, Portion .line text answer rest ∧
      Input.readLine (Utf8.encode text) = (.ok answer, Utf8.encode rest) := by
  by_cases hnewline : '\n' ∈ text
  · obtain ⟨line, rest, rfl, hline⟩ := List.eq_append_cons_of_mem hnewline
    refine ⟨some (line ++ ['\n']), rest, ⟨by simp, by simp, ?_⟩,
      Input.readLine_encode_newline hline rest⟩
    rintro - _ ⟨⟩
    simpa using hline
  · cases text with
    | nil => exact ⟨none, [], ⟨rfl, by simp, by simp⟩, rfl⟩
    | cons c text =>
      refine ⟨some (c :: text), [], ⟨by simp, by simp, ?_⟩,
        Input.readLine_encode_last hnewline (List.cons_ne_nil _ _)⟩
      rintro - _ ⟨⟩
      exact ⟨List.cons_ne_nil _ _, fun h => hnewline (List.dropLast_subset _ h)⟩

theorem portion_char (text : List Char) :
    Portion .char text (text.head?.map ([·])) text.tail := by
  cases text with
  | nil => exact ⟨rfl, by simp, nofun⟩
  | cons c text => exact ⟨rfl, by simp, nofun⟩

variable [Console π]

/-- What a reading brings, as text. -/
def read (console : π) : Reading → Attempt ConsoleError π (Option (List Char))
  | .line => readLine console
  | .char => ((readChar console).1.map (·.map ([·])), (readChar console).2)

/-- The answers to readings one after the other, whatever they are. -/
def readEach (console : π) : List Reading → List (Except ConsoleError (Option (List Char)))
  | [] => []
  | r :: readings => (read console r).1 :: readEach (read console r).2 readings

/-- A console with these bytes for its input reads from them and changes nothing else. -/
structure Draws (put : List UInt8 → π) : Prop where
  readLine : ∀ bytes, readLine (put bytes) = (Input.readLine bytes).within id put
  readChar : ∀ bytes, readChar (put bytes) =
    (.ok (Input.readChar bytes).1, put (Input.readChar bytes).2)

namespace Draws

variable {put : List UInt8 → π}

theorem exists_portion (h : Draws put) (r : Reading) (text : List Char) :
    ∃ answer rest, Portion r text answer rest ∧
      read (put (Utf8.encode text)) r = (.ok answer, put (Utf8.encode rest)) := by
  cases r with
  | line =>
    obtain ⟨answer, rest, hportion, hread⟩ := exists_portion_line text
    refine ⟨answer, rest, hportion, ?_⟩
    rw [read, h.readLine, hread, Attempt.within_ok]
  | char =>
    refine ⟨_, _, portion_char text, ?_⟩
    rw [read, h.readChar, Input.readChar_encode]
    rfl

theorem exists_portions (h : Draws put) (readings : List Reading) (text : List Char) :
    ∃ answers, readEach (put (Utf8.encode text)) readings = answers.map .ok ∧
      Portions readings text answers := by
  induction readings generalizing text with
  | nil => exact ⟨[], rfl, portions_nil text⟩
  | cons r readings ih =>
    obtain ⟨answer, rest, hportion, hread⟩ := h.exists_portion r text
    obtain ⟨answers, hanswers, hportions⟩ := ih rest
    refine ⟨answer :: answers, ?_, hportion.cons hportions⟩
    rw [readEach, hread, hanswers]
    rfl

end Draws

theorem draws_buffered (output diagnostics : String) :
    Draws fun input => (⟨input, output, diagnostics⟩ : Buffered) where
  readLine _ := rfl
  readChar _ := rfl

theorem draws_stream {output : Sink} (hflush : output.flush = .ok ()) (diagnostics : Sink) :
    Draws fun input => (⟨input, output, diagnostics⟩ : Stream) := by
  constructor
  · intro bytes
    simp only [readLine, Stream.readLine, hflush]
  · intro bytes
    simp only [readChar, Stream.readChar, hflush]

/-- Lines and characters may be read from a text in any order. No reading fails, in memory or from a
stream that can be flushed; all that was read is the front of the text, and a reading brings nothing
exactly when that is already the whole text. -/
theorem reading_loses_nothing (text : List Char) (readings : List Reading)
    (written complaints : String) {output : Sink} (hflush : output.flush = .ok ())
    (diagnostics : Sink) :
    (∃ answers, readEach (⟨Utf8.encode text, written, complaints⟩ : Buffered) readings =
        answers.map .ok ∧ Portions readings text answers) ∧
      ∃ answers, readEach (⟨Utf8.encode text, output, diagnostics⟩ : Stream) readings =
        answers.map .ok ∧ Portions readings text answers := by
  constructor
  · exact (draws_buffered written complaints).exists_portions readings text
  · exact (draws_stream hflush diagnostics).exists_portions readings text

/-- A line, the first of two characters, the line that the other one is, and nothing more. -/
theorem reading_loses_nothing_mixed :
    readEach (Buffered.ofInput (Utf8.encode "12\nxé".toList)) [.line, .char, .line, .char] =
        [.ok (some ['1', '2', '\n']), .ok (some ['x']), .ok (some ['é']), .ok none] ∧
      ∃ answers, readEach ({ input := Utf8.encode "12\nxé".toList } : Stream)
        [.line, .char, .line, .char] = answers.map .ok ∧
        Portions [.line, .char, .line, .char] "12\nxé".toList answers :=
  ⟨by decide +kernel, (reading_loses_nothing _ _ "" "" rfl {}).2⟩

end Console

end Befunge
