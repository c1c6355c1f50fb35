import Quosh.Bytes.LittleEndian
import Quosh.Bytes.Utf8
import Quosh.Bytes.Reader
import Quosh.Proto.Message
import Quosh.Proto.Feed
import Quosh.Proto.ScreenCodec
import Quosh.Terminal.Snapshot
import Quosh.Server.Publish
import Quosh.Predict.EpochGate
import Quosh.Predict.Await
import Quosh.Client.Reconcile
import Quosh.Client.Evidence
import Quosh.Client.Delivery
import Quosh.Data.InOrder
import Quosh.Server.Transport
import Quosh.System.Earlier
import Quosh.System.Served
import Quosh.System.Input
import Quosh.System.Attaching
import Quosh.System.Overtaken
import Quosh.System.Resume
import Quosh.Bytes.Layout
import Quosh.Proto.AuthMessage
import Quosh.Proto.FeedHistory
import Quosh.Server.Echo
import Quosh.Server.Devices
import Quosh.Server.Tenancy
import Quosh.Control.Trace
import Quosh.System.Issuing
import Quosh.System.Provenance
import Quosh.System.Revocation
import Quosh.System.Resumption
import Quosh.System.Rotation
import Quosh.System.Expiry
import Quosh.Server.WriteFailure
import Quosh.Trust.Pins
import Quosh.Server.Attach
import Quosh.Server.Superseded
import Quosh.System.Refused
import Quosh.System.Resync
import Quosh.Web.Cells
import Quosh.Terminal.Painting
import Quosh.Server.Pending
import Quosh.Server.Draining
import Quosh.Server.TokenHistory
import Quosh.Server.Cbor
import Quosh.Client.Shown
import Quosh.Predict.Edit
import Quosh.Predict.Calls
import Quosh.Predict.Overflow
import Quosh.Server.RefusedHandshake
import Quosh.Control.Panics
import Quosh.Predict.Checked
import Quosh.Predict.NeverPanics
import Quosh.Data.Sweep
import Quosh.Predict.Line
import Quosh.Predict.LineEditor
import Quosh.Trust.ClockSkew
import Quosh.Cli.EscapeKey
import Quosh.Server.RequestLine
import Quosh.Data.Markers
import Quosh.Web.Paste
import Quosh.Server.Requests
import Quosh.Server.Revoking
import Quosh.Server.Listing
import Quosh.Server.CborDepth
import Quosh.Server.Limits
import Quosh.Control.Channel
import Quosh.Cli.TtyWriter
import Quosh.System.Delivers
import Quosh.Server.Answers
import Quosh.System.Downlink
import Quosh.System.LastScreen
import Quosh.System.Farewell
import Quosh.Cli.Painter
import Quosh.Cli.RunSession
import Quosh.Cli.SessionRuns
import Quosh.Cli.Watching
import Quosh.Cli.Verdicts
import Quosh.System.Attended
import Quosh.Bytes.Base64
import Quosh.Server.Webauthn
import Quosh.Server.Authenticator
import Quosh.System.Passkeys
import Quosh.System.Replay
import Quosh.System.Genuine
import Quosh.Web.SignIn
import Quosh.System.Identities
import Quosh.Server.Dialogue
import Quosh.System.Visit
import Quosh.System.SignIn
import Quosh.System.Returning
import Quosh.Data.Words
import Quosh.Proto.ConnectLine
import Quosh.System.Connecting
import Quosh.System.Dispatch
