import Mathlib
import SchemaGrammar.Proofs.Flattening
import SchemaGrammar.Proofs.ReadBack
import SchemaGrammar.Proofs.TextDecoding

/-!
# Flattened messages are flattened to themselves

What flattening gives can be written as JSON, compactly or prettily, and flattened again, straight
from that text. Nothing changes (`normalizeText_written`). The way there goes through four steps: a
formatted message is encoded as a message with its role and its text is, so the encoding is decoded
to such messages; they are flattened to what they came from; the encoding is read back from either
text; and decoding a text agrees with decoding the value that is read from it.
-/

namespace SchemaGrammar.Chat

open Json

/-- The message that is flattened to a formatted message: one with a text. -/
def FormattedMessage.unflattened (formatted : FormattedMessage) : Message :=
  .ofText formatted.role formatted.content

/-- The encoding of a list of formatted messages. -/
def encodedFormatted (out : List FormattedMessage) : Value :=
  .array (out.map FormattedMessage.toValue)

theorem encodedFormatted_eq (out : List FormattedMessage) :
    encodedFormatted out = encoded (out.map FormattedMessage.unflattened) := by
  rw [encoded, List.map_map]
  rfl

theorem normalize_unflattened (out : List FormattedMessage) :
    normalize (out.map FormattedMessage.unflattened) = .ok out := by
  refine normalize_eq_iff.mpr (.all (List.forall₂_map_left_iff.mpr ?_))
  exact List.forall₂_same.mpr fun formatted _ => .text

theorem messagesOfValue_encodedFormatted (out : List FormattedMessage) :
    messagesOfValue (encodedFormatted out) = .ok (out.map FormattedMessage.unflattened) := by
  rw [encodedFormatted_eq]
  refine messagesOfValue_encoded fun m mem => ?_
  obtain ⟨formatted, -, rfl⟩ := List.mem_map.mp mem
  exact Message.isSettled_ofText _ _

/-- Only the list and its objects are nested, and both hold nothing but strings. -/
theorem nests_encodedFormatted (out : List FormattedMessage) :
    (encodedFormatted out).Nests nestingLimit := by
  refine .array fun v mem => ?_
  obtain ⟨formatted, -, rfl⟩ := List.mem_map.mp mem
  refine .object fun member mem => ?_
  simp only [List.mem_cons, List.not_mem_nil, or_false] at mem
  rcases mem with rfl | rfl
  · exact .string
  · exact .string

/-- A text is decoded to the messages that its value is decoded to. -/
theorem messagesOfText_eq_ok_of_read {text : String} {v : Value} {messages : List Message}
    (read : (Outline.ofText text.toList).read nestingLimit = .ok v)
    (decoded : messagesOfValue v = .ok messages) : messagesOfText text = .ok messages := by
  obtain ⟨found, fromText, fromValue⟩ | ⟨e, d, -, fromValue⟩ :=
    (messagesOfText_agrees read).ok_or_error
  · rw [fromText, ← fromValue, decoded]
  · cases decoded.symm.trans fromValue

/-- A text that begins with encoded formatted messages is flattened to these messages. -/
theorem normalizeText_of_begins {text : List Char} {out : List FormattedMessage}
    (begins : Begins nestingLimit text (encodedFormatted out) []) :
    normalizeText (String.ofList text) = .ok out := by
  have read : (Outline.ofText (String.ofList text).toList).read nestingLimit =
      .ok (encodedFormatted out) := by
    rw [String.toList_ofList, begins.read_ofText]
  rw [normalizeText, messagesOfText_eq_ok_of_read read (messagesOfValue_encodedFormatted out)]
  exact normalize_unflattened out

/-- A list of formatted messages, whatever their roles and contents are, is flattened to itself from
its compact text and from its pretty text. In particular this holds of what was flattened before, from
a value or from a text. -/
theorem normalizeText_written (out : List FormattedMessage) :
    normalizeText (encodedFormatted out).compact = .ok out ∧
      normalizeText (encodedFormatted out).pretty = .ok out := by
  constructor
  · have begins := Value.begins_write [] _ (nests_encodedFormatted out)
    rw [List.append_nil] at begins
    exact normalizeText_of_begins begins
  · have begins := Value.begins_writePretty 0 [] _ (nests_encodedFormatted out)
    rw [List.append_nil] at begins
    exact normalizeText_of_begins begins

end SchemaGrammar.Chat
