import CekatEvents.Encoding.Utf
import CekatEvents.JsonText.Syntax
import CekatEvents.JsonText.Lexer
import CekatEvents.JsonText.Reader
import CekatEvents.JsonText.Dialects
import CekatEvents.JsonText.Value
import CekatEvents.Effects.Program
import CekatEvents.Retry.Course
import CekatEvents.Http.Status
import CekatEvents.Java.Jdk
import CekatEvents.Java.Json
import CekatEvents.Python.Protocol
import CekatEvents.Python.Retry
import CekatEvents.Dotnet.ResponseDecoder
import CekatEvents.Python.Client
import CekatEvents.Go.Response
import CekatEvents.Go.Retry
import CekatEvents.Go.Client
import CekatEvents.Dotnet.RetryPolicy
import CekatEvents.Dotnet.Client
import CekatEvents.Node.Body
import CekatEvents.Node.Delivery
import CekatEvents.Java.Client
import CekatEvents.Go.Scripted
import CekatEvents.Java.Scripted
import CekatEvents.Node.Scripted
import CekatEvents.Clients.PlainLoop
import CekatEvents.Clients.Lockstep
import CekatEvents.Clients.ReadFailures
import CekatEvents.Encoding.Replacement
import CekatEvents.JsonText.Unicode
import CekatEvents.Go.Acknowledgement
import CekatEvents.Graph.Walk
import CekatEvents.JsonText.Encode
import CekatEvents.Arithmetic.Binary64
import CekatEvents.JsonText.Escape
import CekatEvents.JsonText.Number
import CekatEvents.Payload.Timestamp
import CekatEvents.Ruby.PayloadBuilder
import CekatEvents.Effects.Outcome
import CekatEvents.Ruby.Outcomes
import CekatEvents.Payload.Body
import CekatEvents.Php.PayloadBuilder
import CekatEvents.Php.Outcomes
import CekatEvents.Dotnet.EventPayload
import CekatEvents.Dotnet.Outcomes
import CekatEvents.Arithmetic.Rounding
import CekatEvents.Go.Validation
import CekatEvents.Go.Outcomes
import CekatEvents.Payload.Schema
import CekatEvents.Python.Validation
import CekatEvents.Python.Outcomes
import CekatEvents.Effects.Threads
import CekatEvents.Mock.State
import CekatEvents.Mock.Server
import CekatEvents.Dotnet.AttemptCounter
import CekatEvents.Effects.Trace
import CekatEvents.Java.VisitorContext
import CekatEvents.Java.ServletFilter
import CekatEvents.Python.Context
import CekatEvents.Python.Flask
import CekatEvents.Browser.Allowlist
import CekatEvents.Browser.Propagation
import CekatEvents.Encoding.Split
import CekatEvents.Node.Redaction
import CekatEvents.Node.Realm
import CekatEvents.Node.Validation
import CekatEvents.Effects.Stateful
import CekatEvents.Node.Client
import CekatEvents.Graph.Unfold
import CekatEvents.Node.Heap
import CekatEvents.Node.Properties
import CekatEvents.Node.Mirror
import CekatEvents.Node.Event
import CekatEvents.Node.Outcomes
import CekatEvents.Node.Spread
import CekatEvents.Node.Reading
import CekatEvents.Node.Literals
import CekatEvents.Node.Orders
import CekatEvents.Clients.Cookies
import CekatEvents.Clients.DeltaSeconds
import CekatEvents.Browser.Installation
import CekatEvents.Browser.Injection
import CekatEvents.Browser.Canonical
import CekatEvents.Effects.Bounded
import CekatEvents.Java.JdkHttpTransport
import CekatEvents.Php.Transport
import CekatEvents.Clients.BoundedBodies
import CekatEvents.Clients.RequestVisitors
import CekatEvents.Browser.Transparency
import CekatEvents.Http.DateText
import CekatEvents.Java.HttpDates
import CekatEvents.Java.RetryDates
import CekatEvents.Clients.CenturyDates
import CekatEvents.Time.Instant
import CekatEvents.Payload.IsoText
import CekatEvents.Java.OccurredAt
import CekatEvents.Python.OccurredAt
import CekatEvents.Dotnet.VisitorContext
import CekatEvents.Clients.EventIds
import CekatEvents.Ordering.Lexicographic
import CekatEvents.Scripts.Conformance
import CekatEvents.Scripts.PackageManifest
import CekatEvents.Go.PackagePrep
import CekatEvents.Python.OrderArguments
import CekatEvents.Clients.Acknowledgements
import CekatEvents.JsonText.Reread
import CekatEvents.Java.BigDecimal
import CekatEvents.Java.PayloadEncoder
import CekatEvents.Java.Outcomes
import CekatEvents.Java.Reparse
import CekatEvents.Retry.Loop
import CekatEvents.Http.Octets
import CekatEvents.Ruby.Delivery
import CekatEvents.Php.Delivery
import CekatEvents.Dotnet.Scripted
import CekatEvents.Clients.Convoy
import CekatEvents.JsonText.Alike
import CekatEvents.Graph.Follow
import CekatEvents.Payload.Submission
import CekatEvents.Go.Submission
import CekatEvents.Python.Submission
import CekatEvents.JsonText.Copied
import CekatEvents.Java.Submission
import CekatEvents.Node.Submission
import CekatEvents.Ruby.Submission
import CekatEvents.Clients.Submissions
import CekatEvents.Http.RetryAfter
import CekatEvents.Retry.Policy
import CekatEvents.Http.Envelope
import CekatEvents.Clients.SingleReading
