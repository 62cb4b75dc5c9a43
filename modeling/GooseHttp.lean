import GooseHttp.Cache
import GooseHttp.CacheGrammar
import GooseHttp.Causality
import GooseHttp.Client
import GooseHttp.Common
import GooseHttp.Comparison
import GooseHttp.Conditional
import GooseHttp.Connection
import GooseHttp.Decimal
import GooseHttp.Dialogue
import GooseHttp.Dispatch
import GooseHttp.EmittedHead
import GooseHttp.Encode
import GooseHttp.EntityTag
import GooseHttp.Framing
import GooseHttp.Harness.Arguments
import GooseHttp.Harness.Download
import GooseHttp.Harness.InStep
import GooseHttp.Harness.Routes
import GooseHttp.HeadMirror
import GooseHttp.HeaderLaws
import GooseHttp.Headers
import GooseHttp.History
import GooseHttp.Http10
import GooseHttp.Isolation
import GooseHttp.Lib.Accumulate
import GooseHttp.Lib.Chunked
import GooseHttp.Lib.Duplex
import GooseHttp.Lib.Incremental
import GooseHttp.Lib.Lines
import GooseHttp.Lib.Multimap
import GooseHttp.Lib.Numeral
import GooseHttp.Lib.Pool
import GooseHttp.Lib.RankedLoop
import GooseHttp.Lib.Search
import GooseHttp.Lib.Sink
import GooseHttp.Lib.Utf8
import GooseHttp.Link
import GooseHttp.ListFields
import GooseHttp.Message
import GooseHttp.Parse.AcceptedHead
import GooseHttp.Parse.Body
import GooseHttp.Parse.ChunkLines
import GooseHttp.Parse.ChunkedReader
import GooseHttp.Parse.ChunkedRoundTrip
import GooseHttp.Parse.Codings
import GooseHttp.Parse.Decode
import GooseHttp.Parse.FieldLine
import GooseHttp.Parse.FixedReader
import GooseHttp.Parse.Growth
import GooseHttp.Parse.Head
import GooseHttp.Parse.HeadFraming
import GooseHttp.Parse.HeadRequest
import GooseHttp.Parse.HeadText
import GooseHttp.Parse.Input
import GooseHttp.Parse.NormalForm
import GooseHttp.Parse.Reading
import GooseHttp.Parse.StartLine
import GooseHttp.Parse.Strictness
import GooseHttp.Parse.TrailerFields
import GooseHttp.Parse.WireRequest
import GooseHttp.Persistence
import GooseHttp.Pipeline
import GooseHttp.Precondition
import GooseHttp.Range
import GooseHttp.RangeGrammar
import GooseHttp.Replacement
import GooseHttp.Replies
import GooseHttp.Revalidation
import GooseHttp.RoundTrip
import GooseHttp.Routing
import GooseHttp.Safety
import GooseHttp.SentHead
import GooseHttp.Server
import GooseHttp.Service
import GooseHttp.Session
import GooseHttp.StrippedBody
import GooseHttp.Synchrony
import GooseHttp.Text
import GooseHttp.TransferCoding
import GooseHttp.Transparency
import GooseHttp.Trim
import GooseHttp.Truncation
import GooseHttp.WireHead
import GooseHttp.WriteFaults
