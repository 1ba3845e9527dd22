import JsxCalls.Text.Basic
import JsxCalls.Text.Space
import JsxCalls.Text.Word
import JsxCalls.Text.Digit
import JsxCalls.Text.Pattern
import JsxCalls.Text.Quoted
import JsxCalls.Text.Line
import JsxCalls.Expression
import JsxCalls.Mask
import JsxCalls.Attribute.Basic
import JsxCalls.Attribute.Parser
import JsxCalls.Element.Basic
import JsxCalls.Element.Call
import JsxCalls.Element.Converter
import JsxCalls.Return.Basic
import JsxCalls.Return.Segment
import JsxCalls.Lowering
import JsxCalls.Toml.Value
import JsxCalls.Toml.Number
import JsxCalls.Toml.Lexical
import JsxCalls.Toml.Document
import JsxCalls.Settings
import JsxCalls.Text.Utf8
import JsxCalls.Disk.Path
import JsxCalls.Disk.Basic
import JsxCalls.Disk.Access
import JsxCalls.Disk.Source
import JsxCalls.Event
import JsxCalls.Batch.Basic
import JsxCalls.Batch.Json
import JsxCalls.Command.Arguments
import JsxCalls.Command.Run
import JsxCalls.Main
import JsxCalls.Proofs.Quoting
import JsxCalls.Proofs.LiteralReading
import JsxCalls.Proofs.Occurrence
import JsxCalls.Proofs.Placeholder
import JsxCalls.Proofs.Restoration
import JsxCalls.Proofs.AttributeList
import JsxCalls.Proofs.PlaceholderNumber
import JsxCalls.Proofs.AttributeMasking
import JsxCalls.Proofs.AttributeRoundTrip
import JsxCalls.Proofs.Markup
import JsxCalls.Proofs.AttributeWords
import JsxCalls.Proofs.Pass
import JsxCalls.Proofs.Span
import JsxCalls.Proofs.InnermostPairs
import JsxCalls.Proofs.CallWords
import JsxCalls.Proofs.Program
import JsxCalls.Proofs.ProgramLowering
import JsxCalls.Proofs.Draft
import JsxCalls.Proofs.DraftPass
import JsxCalls.Proofs.Opacity
import JsxCalls.Proofs.Exposure
import JsxCalls.Proofs.Spelling
import JsxCalls.Proofs.StatementForm
import JsxCalls.Proofs.Carrying
import JsxCalls.Proofs.Conservation
import JsxCalls.Proofs.SelfClosingReturn
import JsxCalls.Proofs.Settling
import JsxCalls.Proofs.TwoPasses
import JsxCalls.Proofs.MaskedQuoting
import JsxCalls.Proofs.ChildrenLiteral
import JsxCalls.Proofs.MarkupOpening
import JsxCalls.Proofs.Untouched
import JsxCalls.Proofs.ReturnLines
import JsxCalls.Proofs.Recounting
import JsxCalls.Proofs.Restyling
import JsxCalls.Proofs.EncodedText
import JsxCalls.Proofs.Following
import JsxCalls.Proofs.BatchIndependence
import JsxCalls.Proofs.PathPlace
import JsxCalls.Proofs.PathOrder
import JsxCalls.Proofs.SourceCollection
import JsxCalls.Proofs.SourceDiscovery
import JsxCalls.Proofs.Interleaving
import JsxCalls.Proofs.CommandLine
import JsxCalls.Proofs.RunAgreement
import JsxCalls.Proofs.ElementGrammar
