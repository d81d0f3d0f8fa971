import SchemaGrammar.Chat.Decoding
import SchemaGrammar.Chat.Message
import SchemaGrammar.Chat.Normalization
import SchemaGrammar.Command.Failure
import SchemaGrammar.Command.Material
import SchemaGrammar.Command.Option
import SchemaGrammar.Command.Report
import SchemaGrammar.Command.Request
import SchemaGrammar.Command.Run
import SchemaGrammar.Command.Usage
import SchemaGrammar.Compiler
import SchemaGrammar.Double.Basic
import SchemaGrammar.Double.Literal
import SchemaGrammar.Double.Rounding
import SchemaGrammar.Double.Shortest
import SchemaGrammar.Files.Inputs
import SchemaGrammar.Files.Path
import SchemaGrammar.Files.Pattern
import SchemaGrammar.Files.Reader
import SchemaGrammar.Files.Search
import SchemaGrammar.Files.Tree
import SchemaGrammar.Gbnf.Body
import SchemaGrammar.Gbnf.Grammar
import SchemaGrammar.Gbnf.Literal
import SchemaGrammar.Gbnf.Primitive
import SchemaGrammar.Gbnf.RuleTable
import SchemaGrammar.Json.Decoding
import SchemaGrammar.Json.Document
import SchemaGrammar.Json.Failure
import SchemaGrammar.Json.Outline
import SchemaGrammar.Json.Path
import SchemaGrammar.Json.Pointer
import SchemaGrammar.Json.Scalar
import SchemaGrammar.Json.Value
import SchemaGrammar.Json.Writer
import SchemaGrammar.Keyed
import SchemaGrammar.LazyList
import SchemaGrammar.Main
import SchemaGrammar.Proofs.AllowedTexts
import SchemaGrammar.Proofs.BodyAgreement
import SchemaGrammar.Proofs.BodyReader
import SchemaGrammar.Proofs.BodyReading
import SchemaGrammar.Proofs.BodyText
import SchemaGrammar.Proofs.ChatShape
import SchemaGrammar.Proofs.Cleaning
import SchemaGrammar.Proofs.ClosedOutlines
import SchemaGrammar.Proofs.ControlCharacters
import SchemaGrammar.Proofs.DerivedTexts
import SchemaGrammar.Proofs.DistinctKeys
import SchemaGrammar.Proofs.Emission
import SchemaGrammar.Proofs.EncodedMessages
import SchemaGrammar.Proofs.Expression
import SchemaGrammar.Proofs.Faithful
import SchemaGrammar.Proofs.FileTree
import SchemaGrammar.Proofs.FirstFailure
import SchemaGrammar.Proofs.FirstRejected
import SchemaGrammar.Proofs.FirstValue
import SchemaGrammar.Proofs.FlattenedAgain
import SchemaGrammar.Proofs.Flattening
import SchemaGrammar.Proofs.FollowingText
import SchemaGrammar.Proofs.FoundPaths
import SchemaGrammar.Proofs.GrammarBlocks
import SchemaGrammar.Proofs.GrammarText
import SchemaGrammar.Proofs.IdentityQuery
import SchemaGrammar.Proofs.JsonGrammar
import SchemaGrammar.Proofs.ListedProperties
import SchemaGrammar.Proofs.NamedPaths
import SchemaGrammar.Proofs.NearestPlace
import SchemaGrammar.Proofs.OwnPath
import SchemaGrammar.Proofs.PathNames
import SchemaGrammar.Proofs.Pieces
import SchemaGrammar.Proofs.PositionalOrder
import SchemaGrammar.Proofs.PropertyRank
import SchemaGrammar.Proofs.QuotedLiteral
import SchemaGrammar.Proofs.ReadBack
import SchemaGrammar.Proofs.ReadFile
import SchemaGrammar.Proofs.Registration
import SchemaGrammar.Proofs.RereadDouble
import SchemaGrammar.Proofs.RereadValue
import SchemaGrammar.Proofs.ReservedName
import SchemaGrammar.Proofs.Revisit
import SchemaGrammar.Proofs.Rewording
import SchemaGrammar.Proofs.RuleName
import SchemaGrammar.Proofs.RuleOrder
import SchemaGrammar.Proofs.SavedFile
import SchemaGrammar.Proofs.SharedPrimitives
import SchemaGrammar.Proofs.ShortestDecimal
import SchemaGrammar.Proofs.SkippedGrammar
import SchemaGrammar.Proofs.Stages
import SchemaGrammar.Proofs.Standing
import SchemaGrammar.Proofs.StartRule
import SchemaGrammar.Proofs.SuffixSearch
import SchemaGrammar.Proofs.TableHistory
import SchemaGrammar.Proofs.TableText
import SchemaGrammar.Proofs.TextDecoding
import SchemaGrammar.Proofs.WholeRun
import SchemaGrammar.Proofs.WrittenDecimal
import SchemaGrammar.Proofs.WrittenJson
import SchemaGrammar.Proofs.WrittenNumber
import SchemaGrammar.Proofs.WrittenOrder
import SchemaGrammar.Query.Access
import SchemaGrammar.Query.Arithmetic
import SchemaGrammar.Query.Datum
import SchemaGrammar.Query.Engine
import SchemaGrammar.Query.Error
import SchemaGrammar.Query.Evaluation
import SchemaGrammar.Query.Filter
import SchemaGrammar.Query.FromText
import SchemaGrammar.Query.Native
import SchemaGrammar.Query.Outputs
import SchemaGrammar.Query.Part
import SchemaGrammar.Query.Reading
import SchemaGrammar.Query.Scope
import SchemaGrammar.Query.Token
import SchemaGrammar.Schema.Node
import SchemaGrammar.Schema.OrderDecoding
import SchemaGrammar.Schema.PropertyOrder
import SchemaGrammar.Schema.Tree
import SchemaGrammar.Text.Blank
import SchemaGrammar.Text.Shown
import SchemaGrammar.Text.Split
import SchemaGrammar.Text.Unseen
