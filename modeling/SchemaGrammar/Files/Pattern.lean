import SchemaGrammar.Text.Split

/-!
# Path patterns

A pattern is a path whose names may hold wildcards. A question mark stands for any character, a star
for any characters, and a bracket for one character of a set, or of none of it if an exclamation
mark comes first. In a set, two characters with a dash between stand for a range, and a closing
bracket that comes first stands for itself. Two stars alone are a name that stands for any number of
directories. No wildcard stands for a slash.

The whole pattern is checked before it is taken apart at its slashes, and then each name by itself,
because a slash in a bracket is a slash all the same.
-/

namespace SchemaGrammar.Files

/-- One sign of a pattern. -/
inductive Sign
  | char (c : Char)
  | anyChar
  | oneOf (ranges : List (Char × Char))
  | noneOf (ranges : List (Char × Char))
  | anyText
  | anyDepth
  deriving DecidableEq, Repr

/-- What is wrong with a pattern. -/
inductive PatternCause
  | badSet
  | manyStars
  | starsInName
  deriving DecidableEq, Repr

/-- A fault of a pattern, and how many characters stand before it. -/
structure PatternError where
  position : Nat
  cause : PatternCause
  deriving DecidableEq, Repr

/-- The words for a fault. -/
def PatternError.message (e : PatternError) : String :=
  let words := match e.cause with
    | .badSet => "invalid range pattern"
    | .manyStars => "wildcards are either regular `*` or recursive `**`"
    | .starsInName => "recursive wildcards must form a single path component"
  s!"Pattern syntax error near position {e.position}: {words}"

/-! ## Reading -/

/-- The ranges of a set; a character alone is a range of one. -/
def ranges : List Char → List (Char × Char)
  | a :: '-' :: b :: rest => (a, b) :: ranges rest
  | a :: rest => (a, a) :: ranges rest
  | [] => []

/-- Reads a set up to its closing bracket, and gives what follows. -/
def readSet (text : List Char) : Option (Sign × List Char) :=
  let (sign, body) := match text with
    | '!' :: rest => (Sign.noneOf, rest)
    | _ => (Sign.oneOf, text)
  match body with
  | [] => none
  | first :: rest =>
    match rest.dropWhile (· != ']') with
    | [] => none
    | _ :: behind => some (sign (ranges (first :: rest.takeWhile (· != ']'))), behind)

theorem length_dropWhile_le (p : Char → Bool) (text : List Char) :
    (text.dropWhile p).length ≤ text.length :=
  (List.dropWhile_sublist p).length_le

/-- What follows a set is shorter than the text it was read from. -/
theorem readSet_shorter {text behind : List Char} {sign : Sign}
    (h : readSet text = some (sign, behind)) : behind.length < text.length := by
  have cut : ∀ (mark : List (Char × Char) → Sign) (body : List Char),
      (match body with
        | [] => none
        | first :: rest =>
          match rest.dropWhile (· != ']') with
          | [] => none
          | _ :: behind => some (mark (ranges (first :: rest.takeWhile (· != ']'))), behind)) =
        some (sign, behind) → behind.length < body.length := by
    intro mark body hb
    cases body with
    | nil => simp at hb
    | cons first rest =>
      have hle := length_dropWhile_le (· != ']') rest
      dsimp only at hb
      split at hb
      · simp at hb
      · rename_i hd
        simp only [Option.some.injEq, Prod.mk.injEq] at hb
        rw [hd] at hle
        simp only [List.length_cons] at hle ⊢
        rw [← hb.2]
        omega
  unfold readSet at h
  split at h
  rename_i mark body heq
  have hb := cut mark body h
  split at heq
  · simp only [Prod.mk.injEq] at heq
    simp only [List.length_cons, heq.2]
    omega
  · simp only [Prod.mk.injEq] at heq
    rw [heq.2]
    exact hb

/-- Reads the signs of a text that has `position` characters before it; `fresh` tells whether it
begins the pattern or follows a slash. -/
def readSigns (position : Nat) (fresh : Bool) (text : List Char) :
    Except PatternError (List Sign) :=
  match text with
  | [] => .ok []
  | '?' :: rest => (readSigns (position + 1) false rest).map (.anyChar :: ·)
  | '*' :: '*' :: '*' :: _ => .error ⟨position + 2, .manyStars⟩
  | '*' :: '*' :: rest =>
    if !fresh then .error ⟨position - 1, .starsInName⟩
    else
      match rest with
      | [] => .ok [.anyDepth]
      | '/' :: more => (readSigns (position + 3) true more).map (.anyDepth :: ·)
      | _ => .error ⟨position + 2, .starsInName⟩
  | '*' :: rest => (readSigns (position + 1) false rest).map (.anyText :: ·)
  | '[' :: rest =>
    match h : readSet rest with
    | none => .error ⟨position, .badSet⟩
    | some (sign, behind) =>
      have := readSet_shorter h
      (readSigns (position + 1 + (rest.length - behind.length)) false behind).map (sign :: ·)
  | c :: rest => (readSigns (position + 1) (c == '/') rest).map (.char c :: ·)
termination_by text.length

/-- A name of a pattern: one that is written out, one with wildcards, or any directories. -/
inductive Component
  | name (text : String)
  | shape (signs : List Sign)
  | anyDepth
  deriving DecidableEq, Repr

/-- The character that a sign writes out. -/
def Sign.literal? : Sign → Option Char
  | char c => some c
  | _ => none

/-- The name that signs stand for. -/
def Component.ofSigns (signs : List Sign) : Component :=
  if signs.contains .anyDepth then .anyDepth
  else
    match signs.mapM Sign.literal? with
    | some text => .name (String.ofList text)
    | none => .shape signs

/-- A pattern: whether it begins at the root, its names, and whether it ends in a slash, so that
only directories match. -/
structure Pattern where
  fromRoot : Bool
  components : List Component
  onlyDirectories : Bool
  deriving DecidableEq, Repr

namespace Pattern

/-- Takes several names in a row that stand for any directories as one. -/
def collapse : List Component → List Component
  | .anyDepth :: .anyDepth :: rest => collapse (.anyDepth :: rest)
  | c :: rest => c :: collapse rest
  | [] => []

/-- The pieces of a text between slashes; nothing follows a slash at the end. -/
def pieces (text : List Char) : List (List Char) :=
  let all := Text.split '/' text
  if all.getLast? == some [] then all.dropLast else all

/-- Reads a pattern. -/
def parse (text : String) : Except PatternError Pattern := do
  let chars := text.toList
  let _ ← readSigns 0 true chars
  let fromRoot := chars.head? == some '/'
  let names ← (pieces (if fromRoot then chars.tail else chars)).mapM (readSigns 0 true)
  return ⟨fromRoot, collapse (names.map .ofSigns), chars.getLast? == some '/'⟩

end Pattern

/-! ## Matching -/

/-- Whether a character lies in one of some ranges. -/
def inRanges (ranges : List (Char × Char)) (c : Char) : Bool :=
  ranges.any fun (low, high) => low ≤ c && c ≤ high

/-- Whether a sign that stands for one character stands for this one. -/
def Sign.accepts (c : Char) : Sign → Bool
  | char d => c == d
  | anyChar => true
  | oneOf ranges => inRanges ranges c
  | noneOf ranges => !inRanges ranges c
  | anyText | anyDepth => false

/-- Whether some end of a text has a property, the whole text and the empty one among them. -/
def anyEnd (p : List Char → Bool) : List Char → Bool
  | [] => p []
  | c :: rest => p (c :: rest) || anyEnd p rest

/-- Whether signs stand for a text. -/
def fits : List Sign → List Char → Bool
  | [], text => text.isEmpty
  | .anyText :: signs, text => anyEnd (fits signs) text
  | _ :: _, [] => false
  | sign :: signs, c :: text => sign.accepts c && fits signs text

/-- Whether a name of a pattern stands for the name of an entry. -/
def Component.fits (entry : String) : Component → Bool
  | name text => text == entry
  | shape signs => Files.fits signs entry.toList
  | anyDepth => true

end SchemaGrammar.Files
