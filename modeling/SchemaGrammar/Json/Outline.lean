import SchemaGrammar.Json.Scalar

/-!
# Outlines of a JSON text

An outline says what stands where in a text: which part of it is a scalar, where arrays and objects
begin, what their items and members are, and where one of them stops for want of a bracket, a
comma, a colon or a key. A position is what is left of the text there, so nothing is copied and no
position has to be counted.

`Outline.ofText` makes the outline of the value at the start of a text by skipping its scalars, and
it makes one of any text. What is wrong with the text is said only by those who read the outline:
building a value and decoding a message are two folds over the same outline, each of which fails
where it first meets something that it cannot take. A scalar that has no end ends the outline with
it (`Items.lost`, `Members.lost`); whoever reads the outline fails at that scalar and gets no
further.
-/

namespace SchemaGrammar.Json

mutual
/-- What stands where a value is due. -/
inductive Outline
  /-- A scalar, or whatever else stands at this place. -/
  | scalar (text : List Char)
  /-- An array whose opening bracket is here. -/
  | array (text : List Char) (items : Items)
  /-- An object whose opening bracket is here. -/
  | object (text : List Char) (members : Members)
/-- What stands behind the opening bracket of an array, or behind one of its items. -/
inductive Items
  /-- The closing bracket; the text is what follows it. -/
  | closed (rest : List Char)
  /-- An item, behind its comma if it is not the first one. -/
  | item (value : Outline) (next : Items)
  /-- A comma with no item behind it. -/
  | dangling (text : List Char)
  /-- Something other than a comma or the bracket, or the end of the text. -/
  | stopped (text : List Char)
  /-- Nothing is known behind an item that has no end. -/
  | lost
/-- What stands behind the opening bracket of an object, or behind one of its members. -/
inductive Members
  /-- The closing bracket; the text is what follows it. -/
  | closed (rest : List Char)
  /-- A key whose string opens before `key`, with what follows the key and its colon. -/
  | member (key : List Char) (afterKey : List Char) (value : Outline) (next : Members)
  /-- A key with no colon behind it. -/
  | noColon (key : List Char) (afterKey : List Char)
  /-- Something other than a key where one is due; `first` says that no comma is before it. -/
  | noKey (first : Bool) (text : List Char)
  /-- Something other than a comma or the bracket, or the end of the text. -/
  | stopped (text : List Char)
  /-- A key that has no end. -/
  | openKey (key : List Char)
  /-- Nothing is known behind a member that has no end. -/
  | lost
end

instance : Inhabited Outline := ⟨.scalar []⟩

/-- Where what is outlined begins. -/
def Outline.start : Outline → List Char
  | .scalar text => text
  | .array text _ => text
  | .object text _ => text

/-! ## Progress of the skipping functions -/

theorem skipBlanks_length (text : List Char) : (skipBlanks text).length ≤ text.length :=
  (List.dropWhile_sublist isBlank).length_le

theorem readWord_length {word text rest : List Char} (h : readWord word text = .ok rest) :
    rest.length ≤ text.length := by
  fun_induction readWord word text with
  | case1 => simp_all
  | case2 => simp at h
  | case3 w more c cs _ ih =>
    have := ih h
    simp
    omega
  | case4 => simp at h

theorem skipQuoted_length {text rest : List Char} (h : skipQuoted text = .ok rest) :
    rest.length < text.length := by
  fun_induction skipQuoted text with
  | case1 => simp at h
  | case2 => simp_all
  | case3 => simp at h
  | case4 r r' hr ih =>
    have := ih h
    have := skipEscape_length hr
    simp
    omega
  | case5 => simp at h
  | case6 c cs _ _ _ ih =>
    have := ih h
    simp
    omega

theorem spanDigits_length (text : List Char) :
    (spanDigits text).1.length + (spanDigits text).2.length = text.length := by
  simp [spanDigits, ← List.length_append, List.takeWhile_append_dropWhile]

theorem skipSign_length (text : List Char) : (skipSign text).length ≤ text.length := by
  unfold skipSign
  split <;> simp

theorem skipExponent_length {text rest : List Char} (h : skipExponent text = .ok rest) :
    rest.length ≤ text.length := by
  have := spanDigits_length (skipSign text)
  have := skipSign_length text
  simp only [skipExponent] at h
  split at h
  · simp at h
  · simp at h
    subst h
    omega

theorem skipTail_length {text rest : List Char} (h : skipTail text = .ok rest) :
    rest.length ≤ text.length := by
  unfold skipTail at h
  split at h
  · have := skipExponent_length h
    simp
    omega
  · have := skipExponent_length h
    simp
    omega
  · simp at h
    simp [h]

theorem skipMagnitude_length {text rest : List Char} (h : skipMagnitude text = .ok rest) :
    rest.length < text.length := by
  have hs := spanDigits_length text
  unfold skipMagnitude at h
  split at h
  · simp at h
  · simp at h
  · rename_i digits more hne _ heq
    have hd : 0 < digits.length := List.length_pos_iff.2 (fun e => hne (e ▸ rfl))
    have := spanDigits_length more
    simp only at h
    split at h
    · simp at h
    · have := skipTail_length h
      simp [heq] at hs
      omega
  · rename_i digits more hne _ _ heq
    have hd : 0 < digits.length := List.length_pos_iff.2 (fun e => hne (e ▸ rfl))
    have := skipTail_length h
    simp [heq] at hs
    omega

theorem skipNumber_length {text rest : List Char} (h : skipNumber text = .ok rest) :
    rest.length < text.length := by
  unfold skipNumber at h
  split at h
  · have := skipMagnitude_length h
    simp
    omega
  · exact skipMagnitude_length h

/-- A scalar that has an end is not empty. -/
theorem skipScalar_length {text rest : List Char} (h : skipScalar text = .ok rest) :
    rest.length < text.length := by
  unfold skipScalar at h
  split at h
  · simp at h
  · split at h
    · have := readWord_length h
      simp
      omega
    · split at h
      · have := readWord_length h
        simp
        omega
      · split at h
        · have := readWord_length h
          simp
          omega
        · split at h
          · have := skipQuoted_length h
            simp
            omega
          · split at h
            · exact skipNumber_length h
            · simp at h

/-! ## Outlining -/

/-- What is left of a text that has at most so many characters left, if its end is known. -/
abbrev Rest (bound : Nat) := Option { rest : List Char // rest.length ≤ bound }

/-- The same, seen from a longer text. -/
def Rest.widen {m n : Nat} (h : m ≤ n) : Rest m → Rest n
  | none => none
  | some ⟨rest, hr⟩ => some ⟨rest, by omega⟩

mutual
/-- Outlines the value that is due at the start of a text. -/
def outlineValue (text : List Char) : Outline × Rest (text.length - 1) :=
  match text with
  | '[' :: rest =>
    let (items, after) := outlineItems true rest
    (.array ('[' :: rest) items, after.widen (by simp))
  | '{' :: rest =>
    let (members, after) := outlineMembers true rest
    (.object ('{' :: rest) members, after.widen (by simp))
  | text =>
    match h : skipScalar text with
    | .ok rest => (.scalar text, some ⟨rest, by have := skipScalar_length h; omega⟩)
    | .error _ => (.scalar text, none)
termination_by (text.length, 0)
decreasing_by all_goals simp [Prod.lex_def]

/-- Outlines an array behind its opening bracket, or behind an item. -/
def outlineItems (first : Bool) (text : List Char) : Items × Rest text.length :=
  match h : skipBlanks text with
  | ']' :: rest =>
    (.closed rest, some ⟨rest, by have := skipBlanks_length text; simp [h] at this; omega⟩)
  | [] => (.stopped [], none)
  | c :: rest =>
    if first then outlineItem text (c :: rest) (by rw [← h]; exact skipBlanks_length text) (by simp)
    else if c == ',' then
      match h' : skipBlanks rest with
      | [] => (.dangling [], none)
      | ']' :: more => (.dangling (']' :: more), none)
      | d :: more =>
        outlineItem text (d :: more)
          (by
            have h₁ := skipBlanks_length text
            have h₂ := skipBlanks_length rest
            simp [h] at h₁
            simp [h'] at h₂
            simp
            omega)
          (by simp)
    else (.stopped (c :: rest), none)
termination_by (text.length, 2)
decreasing_by all_goals simp [Prod.lex_def]

/-- Outlines an item that begins with `start`, and what follows it. -/
def outlineItem (text start : List Char) (h : start.length ≤ text.length) (_hne : start ≠ []) :
    Items × Rest text.length :=
  match outlineValue start with
  | (value, none) => (.item value .lost, none)
  | (value, some ⟨rest, hr⟩) =>
    let (next, after) := outlineItems false rest
    (.item value next, after.widen (by omega))
termination_by (text.length, 1)
decreasing_by
  all_goals have := List.length_pos_iff.2 _hne
  all_goals simp [Prod.lex_def]
  all_goals omega

/-- Outlines an object behind its opening bracket, or behind a member. -/
def outlineMembers (first : Bool) (text : List Char) : Members × Rest text.length :=
  match h : skipBlanks text with
  | '}' :: rest =>
    (.closed rest, some ⟨rest, by have := skipBlanks_length text; simp [h] at this; omega⟩)
  | [] => (.stopped [], none)
  | c :: rest =>
    if first then
      if c == '"' then
        outlineMember text rest (by have := skipBlanks_length text; simp [h] at this; omega)
      else (.noKey true (c :: rest), none)
    else if c == ',' then
      match h' : skipBlanks rest with
      | '"' :: key =>
        outlineMember text key
          (by
            have h₁ := skipBlanks_length text
            have h₂ := skipBlanks_length rest
            simp [h] at h₁
            simp [h'] at h₂
            omega)
      | other => (.noKey false other, none)
    else (.stopped (c :: rest), none)
termination_by (text.length, 2)
decreasing_by all_goals simp [Prod.lex_def]

/-- Outlines a member whose key has been opened, and what follows it. -/
def outlineMember (text key : List Char) (h : key.length < text.length) :
    Members × Rest text.length :=
  match hk : skipQuoted key with
  | .error _ => (.openKey key, none)
  | .ok afterKey =>
    match hc : skipBlanks afterKey with
    | ':' :: behind =>
      match outlineValue (skipBlanks behind) with
      | (value, none) => (.member key afterKey value .lost, none)
      | (value, some ⟨rest, hr⟩) =>
        let (next, after) := outlineMembers false rest
        (.member key afterKey value next,
          after.widen (by
            have h₁ := skipQuoted_length hk
            have h₂ := skipBlanks_length afterKey
            have h₃ := skipBlanks_length behind
            simp [hc] at h₂
            omega))
    | _ => (.noColon key afterKey, none)
termination_by (text.length, 1)
decreasing_by
  all_goals have h₁ := skipQuoted_length hk
  all_goals have h₂ := skipBlanks_length afterKey
  all_goals have h₃ := skipBlanks_length behind
  all_goals simp [hc] at h₂
  all_goals simp [Prod.lex_def]
  all_goals omega
end

/-- The outline of the value that a text begins with. -/
def Outline.ofText (text : List Char) : Outline := (outlineValue (skipBlanks text)).1

/-- What follows that value, if it has an end. -/
def Outline.restOfText (text : List Char) : Option (List Char) :=
  ((outlineValue (skipBlanks text)).2).map Subtype.val

end SchemaGrammar.Json
