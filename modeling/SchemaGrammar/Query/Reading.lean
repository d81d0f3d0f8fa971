import SchemaGrammar.Query.Filter
import SchemaGrammar.Query.Token

/-!
# Reading a query

A query is a row of operands with operators between them. The operator that binds least is found
first, and what stands at its two sides is taken for its operands; of several that bind alike it is
the last one, or the first one for those that group to the right. Binding a variable counts as such
an operator, one that binds as little as the pipe.

An operand may have a path behind it: fields, keys and ranges. What makes such a part lenient is a
question mark behind it; a question mark behind an operand without a path handles its failures.

Almost every word can be called, if it stands where an operand is due. The functions that read tokens
have a bound on their depth, which the number of tokens gives.
-/

namespace SchemaGrammar.Query

/-- An operator between two operands. -/
inductive Infix
  | pipe
  | bind (name : String)
  | comma
  | assign
  | update
  | calculateInto (operator : Operator)
  | fallbackInto
  | fallback
  | either
  | both
  | compare (comparison : Comparison)
  | calculate (operator : Operator)

namespace Infix

/-- How tightly an operator binds. -/
def strength : Infix → Nat
  | pipe | bind _ => 0
  | comma => 1
  | assign | update | calculateInto _ | fallbackInto => 2
  | fallback => 3
  | either => 4
  | both => 5
  | compare .eq | compare .ne => 6
  | compare _ => 7
  | calculate .add | calculate .sub => 8
  | calculate .mul | calculate .div => 9
  | calculate .rem => 10

/-- Whether an operator groups to the right. -/
def groupsRight (op : Infix) : Bool := op.strength == 0 || op.strength == 2

/-- The filter that an operator makes of its operands. -/
def apply (op : Infix) (f g : Filter) : Filter :=
  match op with
  | pipe => .pipe f g
  | bind name => .bind f name g
  | comma => .comma f g
  | assign => .assign f g
  | update => .update f g
  | calculateInto operator => .calculateInto f operator g
  | fallbackInto => .fallbackInto f g
  | fallback => .fallback f g
  | either => .either f g
  | both => .both f g
  | compare comparison => .compare comparison f g
  | calculate operator => .calculate operator f g

/-- The operator that a symbol or a word is. -/
def ofText? (text : String) : Option Infix :=
  [("|", pipe), (",", comma), ("=", assign), ("|=", update), ("+=", calculateInto .add),
    ("-=", calculateInto .sub), ("*=", calculateInto .mul), ("/=", calculateInto .div),
    ("%=", calculateInto .rem), ("//=", fallbackInto), ("//", fallback), ("or", either),
    ("and", both), ("==", compare .eq), ("!=", compare .ne), ("<", compare .lt),
    ("<=", compare .le), (">", compare .gt), (">=", compare .ge), ("+", calculate .add),
    ("-", calculate .sub), ("*", calculate .mul), ("/", calculate .div),
    ("%", calculate .rem)].lookup text

end Infix

/-- The place of the operator that binds least. -/
def weakest (tail : List (Infix × Filter)) : Nat :=
  let least := tail.foldl (fun n p => min n p.1.strength) 10
  let isLeast (p : Infix × Filter) : Bool := p.1.strength == least
  if (tail.find? isLeast).any (·.1.groupsRight) then tail.findIdx isLeast
  else tail.length - 1 - tail.reverse.findIdx isLeast

/-- The filter that operands with operators between them make. -/
def group (head : Filter) (tail : List (Infix × Filter)) : Filter :=
  match h : tail[weakest tail]? with
  | none => head
  | some (op, operand) =>
    op.apply (group head (tail.take (weakest tail)))
      (group operand (tail.drop (weakest tail + 1)))
termination_by tail.length
decreasing_by
  all_goals have := (List.getElem?_eq_some_iff.1 h).1
  all_goals simp
  all_goals omega

/-- The object of some entries. -/
def objectOf : List Filter → Filter
  | [] => .literal (.object [])
  | f :: rest => rest.foldl (.calculate .add) f

/-- The words that cannot be called, since they begin an operand of another form. -/
def keywords : List String := ["def", "if", "try", "reduce", "foreach", "label", "break"]

/-- The characters of a string up to the next interpolation or its end. -/
def spanString : List Token → List Char × List Token
  | .stringChar c :: rest =>
    let (cs, more) := spanString rest
    (c :: cs, more)
  | rest => ([], rest)

/-- The operator at the start of some tokens. A comma is one only if `commas` says so. -/
def readInfix (commas : Bool) : List Token → Option (Infix × List Token)
  | .word "as" :: .dollar name :: .symbol "|" :: rest => some (.bind name, rest)
  | .word w :: rest => if w == "and" || w == "or" then (Infix.ofText? w).map (·, rest) else none
  | .symbol s :: rest => if s == "," && !commas then none else (Infix.ofText? s).map (·, rest)
  | _ => none

/-- Whether question marks come next, and what follows them. -/
def acceptQuestions (tokens : List Token) : Bool × List Token :=
  (tokens.head? == some (.symbol "?"), tokens.dropWhile (· == .symbol "?"))

/-- Handles the failures of a filter once for every question mark that comes next. -/
def handleQuestions (f : Filter) : List Token → Filter × List Token
  | .symbol "?" :: rest => handleQuestions (.handle f .nothing) rest
  | rest => (f, rest)

/-- The filter with a path behind it. -/
def followedBy (f : Filter) (parts : List (Part Filter)) : Filter :=
  if parts.isEmpty then f else .path f parts

/-- The filter that a string is: a plain text is a literal. -/
def templateOf (format : Option String) (head : String) (tail : List (Filter × String)) : Filter :=
  if format.isNone && tail.isEmpty then .literal (.string head) else .template format head tail

/-- The parameters of a definition behind its opening bracket. -/
def readParams : List Token → Option (List String × List Token)
  | .word p :: .closing ')' :: rest => some ([p], rest)
  | .dollar p :: .closing ')' :: rest => some ([p], rest)
  | .word p :: .symbol ";" :: rest => (readParams rest).map fun (ps, more) => (p :: ps, more)
  | .dollar p :: .symbol ";" :: rest => (readParams rest).map fun (ps, more) => (p :: ps, more)
  | _ => none

/-- Goes on if a certain token comes next. -/
def expect (token : Token) : List Token → Option (List Token)
  | t :: rest => if t == token then some rest else none
  | [] => none

/-- Whether a certain token comes next, and what follows it then. -/
def accept (token : Token) (tokens : List Token) : Bool × List Token :=
  match tokens with
  | t :: rest => if t == token then (true, rest) else (false, tokens)
  | [] => (false, [])

mutual
/-- Reads operands with operators between them. -/
def readTerm (depth : Nat) (commas : Bool) (tokens : List Token) : Option (Filter × List Token) :=
  match depth with
  | 0 => none
  | depth + 1 => do
    let (head, rest) ← readOperand depth tokens
    let (tail, rest) ← readTail depth commas rest
    some (group head tail, rest)
/-- Reads the operators that follow an operand, each with its second operand. -/
def readTail (depth : Nat) (commas : Bool) (tokens : List Token) :
    Option (List (Infix × Filter) × List Token) :=
  match depth with
  | 0 => none
  | depth + 1 =>
    match readInfix commas tokens with
    | none => some ([], tokens)
    | some (op, rest) => do
      let (operand, rest) ← readOperand depth rest
      let (tail, rest) ← readTail depth commas rest
      some ((op, operand) :: tail, rest)
/-- Reads an operand. -/
def readOperand (depth : Nat) (tokens : List Token) : Option (Filter × List Token) :=
  match depth with
  | 0 => none
  | depth + 1 =>
    match tokens with
    | .symbol "-" :: rest => do
      let (f, rest) ← readOperand depth rest
      some (.negate f, rest)
    | .word "def" :: .word name :: rest => do
      let (params, rest) ←
        match rest with
        | .opening '(' :: rest => readParams rest
        | rest => some ([], rest)
      let rest ← expect (.symbol ":") rest
      let (body, rest) ← readTerm depth true rest
      let rest ← expect (.symbol ";") rest
      let (next, rest) ← readTerm depth true rest
      some (.define name params body next, rest)
    | .word "try" :: rest => do
      let (f, rest) ← readOperand depth rest
      match accept (.word "catch") rest with
      | (true, rest) => do
        let (handler, rest) ← readOperand depth rest
        some (.handle f handler, rest)
      | (false, rest) => some (.handle f .nothing, rest)
    | tokens => do
      let (f, rest) ← readAtom depth tokens
      let (f, rest) := handleQuestions f rest
      let (parts, rest) ← readParts depth rest
      some (followedBy f parts, rest)
/-- Reads an operand without the path that may follow it. A path at the start of an operand follows
the input. -/
def readAtom (depth : Nat) (tokens : List Token) : Option (Filter × List Token) :=
  match depth with
  | 0 => none
  | depth + 1 =>
    match tokens with
    | .field _ :: _ => some (.identity, tokens)
    | .symbol "." :: .stringStart :: _ => some (.identity, tokens)
    | .symbol "." :: rest => some (.identity, rest)
    | .number text :: rest => some (.literal (Datum.ofLiteral text), rest)
    | .stringStart :: rest => readString depth none rest
    | .format name :: .stringStart :: rest => readString depth (some name) rest
    | .format name :: rest => some (.call name [], rest)
    | .dollar name :: rest => some (.var name, rest)
    | .opening '(' :: rest => do
      let (f, rest) ← readTerm depth true rest
      let rest ← expect (.closing ')') rest
      some (f, rest)
    | .opening '[' :: .closing ']' :: rest => some (.literal (.array []), rest)
    | .opening '[' :: rest => do
      let (f, rest) ← readTerm depth true rest
      let rest ← expect (.closing ']') rest
      some (.collect f, rest)
    | .opening '{' :: .closing '}' :: rest => some (objectOf [], rest)
    | .opening '{' :: rest => do
      let (entries, rest) ← readEntries depth rest
      some (objectOf entries, rest)
    | .word "if" :: rest => readBranch depth rest
    | .word "reduce" :: rest => do
      let (source, rest) ← readOperand depth rest
      match rest with
      | .word "as" :: .dollar name :: .opening '(' :: rest => do
        let (args, rest) ← readArgs depth rest
        some (.reduce source name args, rest)
      | .word "as" :: .dollar name :: rest => some (.reduce source name [], rest)
      | _ => none
    | .word name :: rest =>
      if keywords.contains name then none
      else
        match rest with
        | .opening '(' :: rest => do
          let (args, rest) ← readArgs depth rest
          some (.call name args, rest)
        | rest => some (.call name [], rest)
    | _ => none
/-- Reads the rest of a conditional behind its first word. -/
def readBranch (depth : Nat) (tokens : List Token) : Option (Filter × List Token) :=
  match depth with
  | 0 => none
  | depth + 1 => do
    let (condition, rest) ← readTerm depth true tokens
    let rest ← expect (.word "then") rest
    let (yes, rest) ← readTerm depth true rest
    match rest with
    | .word "end" :: rest => some (.branch condition yes .identity, rest)
    | .word "else" :: rest => do
      let (no, rest) ← readTerm depth true rest
      let rest ← expect (.word "end") rest
      some (.branch condition yes no, rest)
    | .word "elif" :: rest => do
      let (no, rest) ← readBranch depth rest
      some (.branch condition yes no, rest)
    | _ => none
/-- Reads the arguments of a call behind the opening bracket. -/
def readArgs (depth : Nat) (tokens : List Token) : Option (List Filter × List Token) :=
  match depth with
  | 0 => none
  | depth + 1 => do
    let (arg, rest) ← readTerm depth true tokens
    match rest with
    | .closing ')' :: rest => some ([arg], rest)
    | .symbol ";" :: rest => do
      let (args, rest) ← readArgs depth rest
      some (arg :: args, rest)
    | _ => none
/-- Reads the entries of an object behind the opening bracket or behind a comma. A comma may stand
behind the last one, too. -/
def readEntries (depth : Nat) (tokens : List Token) : Option (List Filter × List Token) :=
  match depth with
  | 0 => none
  | depth + 1 => do
    let (entry, rest) ← readEntry depth tokens
    match rest with
    | .closing '}' :: rest => some ([entry], rest)
    | .symbol "," :: .closing '}' :: rest => some ([entry], rest)
    | .symbol "," :: rest => do
      let (entries, rest) ← readEntries depth rest
      some (entry :: entries, rest)
    | _ => none
/-- Reads an entry of an object. A key without a value stands for what the input has under it, and
a variable for itself. -/
def readEntry (depth : Nat) (tokens : List Token) : Option (Filter × List Token) :=
  match depth with
  | 0 => none
  | depth + 1 =>
    match tokens with
    | .word name :: .symbol ":" :: rest => readValue depth (.literal (.string name)) rest
    | .word name :: rest => some (.ownEntry (.literal (.string name)), rest)
    | .dollar name :: .symbol ":" :: rest => readValue depth (.var name) rest
    | .dollar name :: rest =>
      some (.entry (.literal (.string (String.ofList (name.toList.drop 1)))) (.var name), rest)
    | .stringStart :: rest => do
      let (key, rest) ← readString depth none rest
      match rest with
      | .symbol ":" :: rest => readValue depth key rest
      | rest => some (.ownEntry key, rest)
    | .opening '(' :: rest => do
      let (key, rest) ← readTerm depth true rest
      let rest ← expect (.closing ')') rest
      let rest ← expect (.symbol ":") rest
      readValue depth key rest
    | _ => none
/-- Reads the value of an entry behind its colon. -/
def readValue (depth : Nat) (key : Filter) (tokens : List Token) : Option (Filter × List Token) :=
  match depth with
  | 0 => none
  | depth + 1 => do
    let (value, rest) ← readTerm depth false tokens
    some (.entry key value, rest)
/-- Reads a string behind its start, with the format of what is interpolated. -/
def readString (depth : Nat) (format : Option String) (tokens : List Token) :
    Option (Filter × List Token) :=
  match depth with
  | 0 => none
  | depth + 1 => do
    let (head, tail, rest) ← readPieces depth tokens
    some (templateOf format head tail, rest)
/-- Reads the pieces of a string up to its end, and what is interpolated between them. -/
def readPieces (depth : Nat) (tokens : List Token) :
    Option (String × List (Filter × String) × List Token) :=
  match depth with
  | 0 => none
  | depth + 1 =>
    let (cs, rest) := spanString tokens
    match rest with
    | .stringEnd :: rest => some (String.ofList cs, [], rest)
    | .interpolationStart :: rest => do
      let (f, rest) ← readTerm depth true rest
      let rest ← expect .interpolationEnd rest
      let (head, tail, rest) ← readPieces depth rest
      some (String.ofList cs, (f, head) :: tail, rest)
    | _ => none
/-- Reads the path that follows an operand, as far as it goes. -/
def readParts (depth : Nat) (tokens : List Token) : Option (List (Part Filter) × List Token) :=
  match depth with
  | 0 => none
  | depth + 1 =>
    match tokens with
    | .field name :: rest => readMoreParts depth (.index (.literal (.string name))) rest
    | .symbol "." :: .stringStart :: rest => do
      let (key, rest) ← readString depth none rest
      readMoreParts depth (.index key) rest
    | .opening '[' :: .closing ']' :: rest => readMoreParts depth .all rest
    | .opening '[' :: .symbol ":" :: rest => do
      let (stop, rest) ← readTerm depth true rest
      let rest ← expect (.closing ']') rest
      readMoreParts depth (.range none (some stop)) rest
    | .opening '[' :: rest => do
      let (key, rest) ← readTerm depth true rest
      match rest with
      | .closing ']' :: rest => readMoreParts depth (.index key) rest
      | .symbol ":" :: .closing ']' :: rest => readMoreParts depth (.range (some key) none) rest
      | .symbol ":" :: rest => do
        let (stop, rest) ← readTerm depth true rest
        let rest ← expect (.closing ']') rest
        readMoreParts depth (.range (some key) (some stop)) rest
      | _ => none
    | tokens => some ([], tokens)
/-- Reads the question marks behind a part of a path, and the rest of the path. -/
def readMoreParts (depth : Nat) (part : Bool → Part Filter) (tokens : List Token) :
    Option (List (Part Filter) × List Token) :=
  match depth with
  | 0 => none
  | depth + 1 => do
    let (lenient, rest) := acceptQuestions tokens
    let (parts, rest) ← readParts depth rest
    some (part lenient :: parts, rest)
end

/-- Whether a query begins by asking for other files, which there are none of. -/
def asksForFiles : List Token → Bool
  | .word w :: _ => w == "include" || w == "import"
  | _ => false

/-- The filter that a query is. -/
def Filter.ofText? (text : String) : Option Filter := do
  let tokens ← Token.ofText? text
  if asksForFiles tokens then none
  else
    match readTerm (6 * tokens.length + 6) true tokens with
    | some (f, []) => some f
    | _ => none

end SchemaGrammar.Query
