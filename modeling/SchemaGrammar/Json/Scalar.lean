import SchemaGrammar.Json.Value
import SchemaGrammar.Json.Failure
import SchemaGrammar.Double.Literal

/-!
# Words, numbers and strings of a JSON text

Each scalar is read in two ways. Reading (`readScalar`) gives its value; skipping (`skipScalar`)
only finds its end, and so asks less: it takes numbers of any size, and strings whose escaped
surrogates are not paired. Where both succeed they stop at the same place.

A number is taken apart into its digits, and its value is a significand of 64 bits scaled by a
power of ten. Digits that would push the significand past 64 bits are dropped. The scaling is done
in doubles, one multiplication or division by a power of ten at a time, so a number with many
digits may come out next to the nearest double.
-/

namespace SchemaGrammar.Json

/-- The blanks that may stand between tokens. -/
def isBlank (c : Char) : Bool := c == ' ' || c == '\n' || c == '\t' || c == '\r'

/-- What is left of a text after its leading blanks. -/
def skipBlanks (text : List Char) : List Char := text.dropWhile isBlank

/-- Fails on the next byte, or for a text that has ended. -/
def unexpected (atEnd otherwise : Cause) : List Char → Failure
  | [] => .behind atEnd []
  | rest => .facing otherwise rest

/-! ## Words -/

/-- Reads the rest of a word whose first letter has been seen. -/
def readWord (word text : List Char) : Except Failure (List Char) :=
  match word, text with
  | [], rest => .ok rest
  | _ :: _, [] => .error (.behind .endInValue [])
  | w :: more, c :: rest =>
    if w == c then readWord more rest else .error (.facing .badWord (c :: rest))

/-! ## Numbers -/

/-- Adds digits to a significand for as long as it stays below a limit, and gives the digits that
are left over. -/
def accumulate (limit significand : Nat) : List Char → Nat × List Char
  | [] => (significand, [])
  | c :: rest =>
    let next := significand * 10 + (c.toNat - '0'.toNat)
    if next < limit then accumulate limit next rest else (significand, c :: rest)

/-- A double scaled by a power of ten, in steps that are each rounded. Nothing if the number is too
large. -/
def scale (x : Double) (exponent : Int) : Option FiniteDouble :=
  if exponent.natAbs ≤ 308 then
    match if exponent < 0 then x.div (.powerOfTen exponent.natAbs)
      else x.mul (.powerOfTen exponent.natAbs) with
    | .finite y => some y
    | _ => none
  else if x.eq (.finite .zero) then some .zero
  else if 0 < exponent then none
  else scale (x.div (.powerOfTen 308)) (exponent + 308)
termination_by exponent.natAbs
decreasing_by omega

/-- The double for a significand and a power of ten. -/
def realOf (negative : Bool) (significand : Nat) (exponent : Int) (rest : List Char) :
    Except Failure (Number × List Char) :=
  match scale (.ofNat significand) exponent with
  | some x => .ok (.real (if negative then x.neg else x), rest)
  | none => .error (.behind .numberOutOfRange rest)

/-- Splits a text behind its leading digits. -/
def spanDigits (text : List Char) : List Char × List Char :=
  (text.takeWhile Char.isDigit, text.dropWhile Char.isDigit)

/-- What follows the sign that an exponent may have. -/
def skipSign : List Char → List Char
  | '+' :: rest => rest
  | '-' :: rest => rest
  | rest => rest

/-- Reads the exponent behind its letter and finishes the number. An exponent past 31 bits makes
the number a zero, or too large. -/
def readExponent (negative : Bool) (significand : Nat) (exponent : Int) (text : List Char) :
    Except Failure (Number × List Char) :=
  let down := text.head? == some '-'
  let (digits, rest) := spanDigits (skipSign text)
  if digits.isEmpty then .error (unexpected .endInValue .badNumber rest)
  else
    match accumulate (twoTo 31) 0 digits with
    | (written, []) =>
      realOf negative significand (if down then exponent - written else exponent + written) rest
    | (_, _ :: extra) =>
      if significand = 0 || down then .ok (.real (.zeroOf negative), rest)
      else .error (.behind .numberOutOfRange (extra ++ rest))

/-- Reads what follows the whole digits and the fraction of a number that has a point or an
exponent. -/
def finishReal (negative : Bool) (significand : Nat) (exponent : Int) (text : List Char) :
    Except Failure (Number × List Char) :=
  match text with
  | 'e' :: rest => readExponent negative significand exponent rest
  | 'E' :: rest => readExponent negative significand exponent rest
  | rest => realOf negative significand exponent rest

/-- Reads the fraction behind the point and finishes the number. -/
def readFraction (negative : Bool) (significand : Nat) (exponent : Int) (text : List Char) :
    Except Failure (Number × List Char) :=
  let (digits, rest) := spanDigits text
  if digits.isEmpty then .error (unexpected .endInValue .badNumber rest)
  else
    let (longer, extra) := accumulate (twoTo 64) significand digits
    finishReal negative longer (exponent - (digits.length - extra.length : Nat)) rest

/-- The number that whole digits write. Minus zero and what is out of range are doubles. -/
def wholeNumber (negative : Bool) (significand : Nat) (rest : List Char) :
    Except Failure (Number × List Char) :=
  let i : Int := if negative then -significand else significand
  match Number.ofInt? i with
  | some n => if negative && significand = 0 then realOf negative 0 0 rest else .ok (n, rest)
  | none => realOf negative significand 0 rest

/-- Reads an unsigned number. -/
def readMagnitude (negative : Bool) (text : List Char) : Except Failure (Number × List Char) :=
  match spanDigits text with
  | ([], rest) => .error (unexpected .endInValue .badNumber rest)
  | ('0' :: c :: more, rest) => .error (.facing .badNumber (c :: more ++ rest))
  | (digits, rest) =>
    match accumulate (twoTo 64) 0 digits, rest with
    | (significand, extra), '.' :: more => readFraction negative significand extra.length more
    | (significand, []), 'e' :: _ => finishReal negative significand 0 rest
    | (significand, []), 'E' :: _ => finishReal negative significand 0 rest
    | (significand, []), _ => wholeNumber negative significand rest
    | (significand, extra), _ => finishReal negative significand extra.length rest

/-- Reads a number. -/
def readNumber : List Char → Except Failure (Number × List Char)
  | '-' :: rest => readMagnitude true rest
  | text => readMagnitude false text

/-- Finds the end of an exponent behind its letter. -/
def skipExponent (text : List Char) : Except Failure (List Char) :=
  let (digits, rest) := spanDigits (skipSign text)
  if digits.isEmpty then .error (.facing .badNumber rest) else .ok rest

/-- Finds the end of a number whose whole digits and fraction have been skipped. -/
def skipTail : List Char → Except Failure (List Char)
  | 'e' :: rest => skipExponent rest
  | 'E' :: rest => skipExponent rest
  | rest => .ok rest

/-- Finds the end of an unsigned number. -/
def skipMagnitude (text : List Char) : Except Failure (List Char) :=
  match spanDigits text with
  | ([], rest) => .error (.facing .badNumber rest)
  | ('0' :: c :: more, rest) => .error (.facing .badNumber (c :: more ++ rest))
  | (_, '.' :: more) =>
    let (digits, rest) := spanDigits more
    if digits.isEmpty then .error (.facing .badNumber rest) else skipTail rest
  | (_, rest) => skipTail rest

/-- Finds the end of a number. -/
def skipNumber : List Char → Except Failure (List Char)
  | '-' :: rest => skipMagnitude rest
  | text => skipMagnitude text

/-! ## Strings -/

/-- The value of a hexadecimal digit. -/
def hexValue? (c : Char) : Option Nat :=
  if '0' ≤ c ∧ c ≤ '9' then some (c.toNat - '0'.toNat)
  else if 'a' ≤ c ∧ c ≤ 'f' then some (c.toNat - 'a'.toNat + 10)
  else if 'A' ≤ c ∧ c ≤ 'F' then some (c.toNat - 'A'.toNat + 10)
  else none

/-- The failure where four hexadecimal digits are due: four bytes are taken, if there are as many. -/
def hexFailure (text : List Char) : Failure :=
  if byteCount text < 4 then .behind .endInString [] else ⟨.badEscape, byteCount text - 4⟩

/-- Reads four hexadecimal digits. -/
def readHex (text : List Char) : Except Failure (Nat × List Char) :=
  match text with
  | a :: b :: c :: d :: rest =>
    match hexValue? a, hexValue? b, hexValue? c, hexValue? d with
    | some w, some x, some y, some z => .ok (((w * 16 + x) * 16 + y) * 16 + z, rest)
    | _, _, _, _ => .error (hexFailure text)
  | _ => .error (hexFailure text)

/-- Whether a code unit is the first of a surrogate pair. -/
def isLeading (unit : Nat) : Bool := 0xd800 ≤ unit && unit ≤ 0xdbff

/-- Whether a code unit is the second of a surrogate pair. -/
def isTrailing (unit : Nat) : Bool := 0xdc00 ≤ unit && unit ≤ 0xdfff

/-- Reads the second half of a surrogate pair. -/
def readTrailing (leading : Nat) (text : List Char) : Except Failure (Char × List Char) :=
  match text with
  | '\\' :: 'u' :: rest => do
    let (unit, rest) ← readHex rest
    if isTrailing unit then
      .ok (Char.ofNat (0x10000 + (leading - 0xd800) * 0x400 + (unit - 0xdc00)), rest)
    else .error (.behind .loneSurrogate rest)
  | '\\' :: rest => .error (unexpected .endInString .brokenPair rest)
  | rest => .error (unexpected .endInString .brokenPair rest)

/-- Reads an escape behind its backslash. -/
def readEscape : List Char → Except Failure (Char × List Char)
  | '"' :: rest => .ok ('"', rest)
  | '\\' :: rest => .ok ('\\', rest)
  | '/' :: rest => .ok ('/', rest)
  | 'b' :: rest => .ok ('\x08', rest)
  | 'f' :: rest => .ok ('\x0c', rest)
  | 'n' :: rest => .ok ('\n', rest)
  | 'r' :: rest => .ok ('\r', rest)
  | 't' :: rest => .ok ('\t', rest)
  | 'u' :: rest => do
    let (unit, rest) ← readHex rest
    if isTrailing unit then .error (.behind .loneSurrogate rest)
    else if isLeading unit then readTrailing unit rest
    else .ok (Char.ofNat unit, rest)
  | rest => .error (unexpected .endInString .badEscape rest)

/-- Finds the end of an escape behind its backslash. -/
def skipEscape : List Char → Except Failure (List Char)
  | 'u' :: rest => do
    let (_, rest) ← readHex rest
    .ok rest
  | c :: rest =>
    if c ∈ ['"', '\\', '/', 'b', 'f', 'n', 'r', 't'] then .ok rest
    else .error (.facing .badEscape (c :: rest))
  | [] => .error (.behind .endInString [])

theorem readHex_length {text rest : List Char} {n : Nat} (h : readHex text = .ok (n, rest)) :
    rest.length + 4 = text.length := by
  unfold readHex at h
  split at h
  · split at h <;> simp_all
  · simp at h

theorem readTrailing_length {leading : Nat} {text rest : List Char} {c : Char}
    (h : readTrailing leading text = .ok (c, rest)) : rest.length < text.length := by
  unfold readTrailing at h
  split at h
  · rename_i r
    cases hr : readHex r with
    | error e => simp [hr, bind, Except.bind] at h
    | ok p =>
      have : p.2.length + 4 = r.length := readHex_length hr
      simp only [hr, bind, Except.bind] at h
      split at h
      · simp at h
        obtain ⟨-, rfl⟩ := h
        simp
        omega
      · simp at h
  · simp at h
  · simp at h

theorem readEscape_length {text rest : List Char} {c : Char}
    (h : readEscape text = .ok (c, rest)) : rest.length < text.length := by
  unfold readEscape at h
  split at h
  case h_9 r =>
    cases hr : readHex r with
    | error e => simp [hr, bind, Except.bind] at h
    | ok p =>
      have : p.2.length + 4 = r.length := readHex_length hr
      simp only [hr, bind, Except.bind] at h
      split at h
      · simp at h
      · split at h
        · have := readTrailing_length h
          simp
          omega
        · simp at h
          obtain ⟨-, rfl⟩ := h
          simp
          omega
  all_goals simp_all

theorem skipEscape_length {text rest : List Char} (h : skipEscape text = .ok rest) :
    rest.length < text.length := by
  unfold skipEscape at h
  split at h
  · rename_i r
    cases hr : readHex r with
    | error e => simp [hr, bind, Except.bind] at h
    | ok p =>
      have : p.2.length + 4 = r.length := readHex_length hr
      simp only [hr, bind, Except.bind] at h
      simp at h
      subst h
      simp
      omega
  · split at h
    · simp at h
      simp [h]
    · simp at h
  · simp at h

/-- Reads a string behind its opening quote; `done` holds the characters read so far, the last one
first. -/
def readQuoted (done : List Char) (text : List Char) : Except Failure (List Char × List Char) :=
  match text with
  | [] => .error (.behind .endInString [])
  | '"' :: rest => .ok (done.reverse, rest)
  | '\\' :: rest =>
    match _h : readEscape rest with
    | .error e => .error e
    | .ok (c, rest) => readQuoted (c :: done) rest
  | c :: rest =>
    if c.toNat < 0x20 then .error (.facing .controlCharacter (c :: rest))
    else readQuoted (c :: done) rest
termination_by text.length
decreasing_by
  · have := readEscape_length _h
    simp
    omega
  · simp

/-- Finds the end of a string behind its opening quote. -/
def skipQuoted (text : List Char) : Except Failure (List Char) :=
  match text with
  | [] => .error (.behind .endInString [])
  | '"' :: rest => .ok rest
  | '\\' :: rest =>
    match _h : skipEscape rest with
    | .error e => .error e
    | .ok rest => skipQuoted rest
  | c :: rest =>
    if c.toNat < 0x20 then .error (.behind .controlCharacter (c :: rest)) else skipQuoted rest
termination_by text.length
decreasing_by
  · have := skipEscape_length _h
    simp
    omega
  · simp

/-- Reads a string behind its opening quote. -/
def readString (text : List Char) : Except Failure (String × List Char) :=
  (readQuoted [] text).map fun (cs, rest) => (String.ofList cs, rest)

/-! ## Scalars -/

/-- Reads the scalar at the start of a text. -/
def readScalar (text : List Char) : Except Failure (Value × List Char) :=
  match text with
  | [] => .error (.behind .endInValue [])
  | c :: rest =>
    if c == 'n' then (readWord "ull".toList rest).map fun rest => (.null, rest)
    else if c == 't' then (readWord "rue".toList rest).map fun rest => (.bool true, rest)
    else if c == 'f' then (readWord "alse".toList rest).map fun rest => (.bool false, rest)
    else if c == '"' then (readString rest).map fun (s, rest) => (.string s, rest)
    else if c == '-' || c.isDigit then
      (readNumber text).map fun (n, rest) => (.number n, rest)
    else .error (.facing .noValue text)

/-- Finds the end of the scalar at the start of a text. -/
def skipScalar (text : List Char) : Except Failure (List Char) :=
  match text with
  | [] => .error (.behind .endInValue [])
  | c :: rest =>
    if c == 'n' then readWord "ull".toList rest
    else if c == 't' then readWord "rue".toList rest
    else if c == 'f' then readWord "alse".toList rest
    else if c == '"' then skipQuoted rest
    else if c == '-' || c.isDigit then skipNumber text
    else .error (.facing .noValue text)

end SchemaGrammar.Json
