import LiveTree.Association
import LiveTree.Console
import LiveTree.Decimal.Binary64
import LiveTree.Decimal.Layout
import LiveTree.Decimal.Numeral
import LiveTree.Decimal.Range
import LiveTree.Decimal.Shortest
import LiveTree.Display.Drawing
import LiveTree.Display.Node
import LiveTree.Display.Transform
import LiveTree.Event.Basic
import LiveTree.Event.Channel
import LiveTree.Event.Codec
import LiveTree.Event.Pool
import LiveTree.Event.Queue
import LiveTree.Fault
import LiveTree.File.Disk
import LiveTree.File.Fault
import LiveTree.File.Listing
import LiveTree.File.Path
import LiveTree.File.Tree
import LiveTree.Json.Basic
import LiveTree.Json.Inspect
import LiveTree.Json.Quoted
import LiveTree.Json.Reader
import LiveTree.Json.Writer
import LiveTree.Log
import LiveTree.Main
import LiveTree.Parser.Candidate
import LiveTree.Parser.Fault
import LiveTree.Parser.Line
import LiveTree.Parser.Request
import LiveTree.Parser.Run
import LiveTree.Proofs.Decimal.Double
import LiveTree.Proofs.Decimal.Rounding
import LiveTree.Proofs.Decimal.Shortest
import LiveTree.Proofs.Display.Node
import LiveTree.Proofs.Display.Shape
import LiveTree.Proofs.Event.Broadcast
import LiveTree.Proofs.Event.Delivery
import LiveTree.Proofs.Event.Framing
import LiveTree.Proofs.Event.Order
import LiveTree.Proofs.Event.RoundTrip
import LiveTree.Proofs.File.Listing
import LiveTree.Proofs.File.Path
import LiveTree.Proofs.File.Relative
import LiveTree.Proofs.File.Tree
import LiveTree.Proofs.Json.Double
import LiveTree.Proofs.Json.Number
import LiveTree.Proofs.Json.Quoted
import LiveTree.Proofs.Json.RoundTrip
import LiveTree.Proofs.Json.Texts
import LiveTree.Proofs.Json.Value
import LiveTree.Proofs.Parser.Exchange
import LiveTree.Proofs.Parser.Line
import LiveTree.Proofs.Parser.Run
import LiveTree.Proofs.Syntax.Canonical
import LiveTree.Proofs.Syntax.Codec
import LiveTree.Proofs.Syntax.Node
import LiveTree.Proofs.Syntax.RoundTrip
import LiveTree.Proofs.Text.Base64
import LiveTree.Proofs.Text.Blank
import LiveTree.Proofs.Text.Cut
import LiveTree.Proofs.Text.Digit
import LiveTree.Proofs.Text.LineFeed
import LiveTree.Proofs.Text.Order
import LiveTree.Proofs.Text.Utf8
import LiveTree.Proofs.Viewer.Following
import LiveTree.Proofs.Viewer.Hearing
import LiveTree.Proofs.Viewer.Latest
import LiveTree.Proofs.Watch.Naming
import LiveTree.Proofs.Web.Feed
import LiveTree.Proofs.Web.Resolve
import LiveTree.Proofs.Web.Source
import LiveTree.Run
import LiveTree.Settings.EnvFile
import LiveTree.Settings.Expansion
import LiveTree.Settings.Flag
import LiveTree.Settings.Options
import LiveTree.Settings.Parameters
import LiveTree.Settings.Statement
import LiveTree.Site
import LiveTree.Syntax.Node
import LiveTree.Text.Base64
import LiveTree.Text.Basic
import LiveTree.Text.Blank
import LiveTree.Text.Cut
import LiveTree.Text.Digit
import LiveTree.Text.Line
import LiveTree.Text.Markup
import LiveTree.Text.Percent
import LiveTree.Text.Printable
import LiveTree.Text.Utf8
import LiveTree.Viewer.Controller
import LiveTree.Viewer.Viewport
import LiveTree.Watch
import LiveTree.Web.Asset
import LiveTree.Web.ContentType
import LiveTree.Web.Feed
import LiveTree.Web.Page
import LiveTree.Web.Request
import LiveTree.Web.Server
import LiveTree.Proofs.Decimal.Comparison
import LiveTree.Proofs.Viewer.Bounds
import LiveTree.Proofs.Viewer.Content
import LiveTree.Proofs.Parser.Course
import LiveTree.Proofs.Parser.Passing
import LiveTree.Proofs.Parser.Ending
import LiveTree.Proofs.Event.Queue
import LiveTree.Proofs.Viewer.Settling
import LiveTree.Proofs.Viewer.Subscription
import LiveTree.Proofs.Watch.Announcing
import LiveTree.Proofs.Display.Drawing
import LiveTree.Proofs.Display.Payload
import LiveTree.Proofs.Display.Inscription
import LiveTree.Proofs.Display.Label
import LiveTree.Proofs.Display.Size
import LiveTree.Proofs.Display.Position
import LiveTree.Proofs.Viewer.Response
import LiveTree.Proofs.Viewer.Centre
import LiveTree.Proofs.Decimal.Numeral
import LiveTree.Proofs.Settings.Acceptance
import LiveTree.Proofs.Text.Markup
import LiveTree.Proofs.Text.Surrogate
import LiveTree.Proofs.Web.Page
import LiveTree.Proofs.Web.Serving
import LiveTree.Proofs.Settings.Parameters
import LiveTree.Proofs.Settings.EnvFile
import LiveTree.Proofs.Settings.Inheritance
import LiveTree.Proofs.Event.Encoding
import LiveTree.Proofs.Parser.Command
