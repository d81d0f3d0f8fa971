import SchemaGrammar.Query.Datum
import SchemaGrammar.Json.Outline

/-!
# Data from JSON texts

A text that is data of a query becomes a datum (`Datum.ofText`). It is read off its outline. Arrays
and objects may be nested in each other as deep as they like, numbers stay literals, and of equal
keys the last one counts.

`TextFault` says what is missing where a text cannot be read on, and `Datum.ofText` fails with the
first fault.
-/

namespace SchemaGrammar.Query

/-- What is missing where a text cannot be read on. -/
inductive TextFault
  | value
  | valueOrEnd
  | commaOrEnd
  | key
  | colon
  | digit
  | textEnd
  /-- A string that holds a control character, a bad escape, or no end. -/
  | control
  | escape
  | stringEnd
  deriving DecidableEq, Repr

/-- The words for what is missing. -/
def TextFault.words : TextFault → String
  | value => "value expected"
  | valueOrEnd => "value or end of sequence expected"
  | commaOrEnd => "comma or end of sequence expected"
  | key => "string expected"
  | colon => "colon expected"
  | digit => "digit expected"
  | textEnd => "end of file expected"
  | control => "invalid control character"
  | escape => "invalid escape sequence"
  | stringEnd => "unterminated string"

namespace Datum

/-- The string that opens before a text. -/
def stringOf (text : List Char) : Except TextFault String :=
  match Json.readString text with
  | .ok (s, _) => .ok s
  | .error failure =>
    match failure.cause with
    | .endInString => .error .stringEnd
    | .controlCharacter => .error .control
    | _ => .error .escape

/-- The number at the start of a text; `next` is what has to come behind a number. -/
def numberOf (next : TextFault) (text : List Char) : Except TextFault Datum :=
  match Json.skipNumber text with
  | .ok rest => .ok (ofLiteral (String.ofList (text.take (text.length - rest.length))))
  | .error _ =>
    match text with
    | '0' :: c :: _ | '-' :: '0' :: c :: _ => .error (if c.isDigit then next else .digit)
    | _ => .error .digit

/-- The scalar at the start of a text; `next` is what has to come behind it. -/
def scalarOf (next : TextFault) (text : List Char) : Except TextFault Datum :=
  match text with
  | '"' :: rest => (stringOf rest).map string
  | c :: _ =>
    if c == '-' || c.isDigit then numberOf next text
    else
      match Json.readScalar text with
      | .ok (.bool b, _) => .ok (bool b)
      | .ok _ => .ok null
      | .error _ => .error .value
  | [] => .error .value

mutual
/-- The datum that is outlined; `next` is what has to come behind it. -/
def ofOutline (next : TextFault) : Json.Outline → Except TextFault Datum
  | .scalar text => scalarOf next text
  | .array _ items => (dataOf true items).map array
  | .object _ members => (entriesOf true members).map fun entries => object (Keyed.extend [] entries)
termination_by structural outline => outline
/-- The items that are outlined. -/
def dataOf (first : Bool) : Json.Items → Except TextFault (List Datum)
  | .closed _ => .ok []
  | .item outline next =>
    match ofOutline .commaOrEnd outline with
    | .error fault => .error fault
    | .ok d => (dataOf false next).map (d :: ·)
  | .dangling _ => .error .value
  | .stopped _ => .error (if first then .valueOrEnd else .commaOrEnd)
  | .lost => .error .commaOrEnd
termination_by structural items => items
/-- The members that are outlined. -/
def entriesOf (first : Bool) : Json.Members → Except TextFault (List (String × Datum))
  | .closed _ => .ok []
  | .member key _ outline next =>
    match stringOf key with
    | .error fault => .error fault
    | .ok s =>
      match ofOutline .commaOrEnd outline with
      | .error fault => .error fault
      | .ok d => (entriesOf false next).map ((s, d) :: ·)
  | .noColon key _ => .error (match stringOf key with | .error fault => fault | .ok _ => .colon)
  | .noKey first text => .error (if !first && text.isEmpty then .value else .key)
  | .stopped _ => .error (if first then .valueOrEnd else .commaOrEnd)
  | .openKey key => .error (match stringOf key with | .error fault => fault | .ok _ => .stringEnd)
  | .lost => .error .commaOrEnd
termination_by structural members => members
end

/-- The datum that a text is. -/
def ofText (text : String) : Except TextFault Datum :=
  match ofOutline .textEnd (Json.Outline.ofText text.toList) with
  | .error fault => .error fault
  | .ok d =>
    match Json.skipBlanks ((Json.Outline.restOfText text.toList).getD []) with
    | [] => .ok d
    | _ :: _ => .error .textEnd

end Datum

end SchemaGrammar.Query
