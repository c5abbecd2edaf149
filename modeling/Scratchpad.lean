import Scratchpad.Engine.Step
import Scratchpad.Failure
import Scratchpad.Instrument.Pipeline
import Scratchpad.Main
import Scratchpad.Proofs.Engine.Account
import Scratchpad.Proofs.Engine.Budget
import Scratchpad.Proofs.Engine.Exit
import Scratchpad.Proofs.Engine.Hires
import Scratchpad.Proofs.Engine.Naming
import Scratchpad.Proofs.Engine.Shutdown
import Scratchpad.Proofs.Engine.Transparent
import Scratchpad.Proofs.Throttle.Place
import Scratchpad.Proofs.Throttle.Precedence
import Scratchpad.Proofs.Throttle.Wakeup
import Scratchpad.Rehearsal.Session
import Scratchpad.Rehearsal.Stage
import Scratchpad.Throttle.Trial
import Scratchpad.Wire.Request
import Scratchpad.Proofs.Text.Origin
import Scratchpad.Proofs.Token.Place
import Scratchpad.Proofs.Python.Heads
import Scratchpad.Proofs.Script.Heads
import Scratchpad.Proofs.Instrument.Lines
import Scratchpad.Proofs.Token.Bracket
import Scratchpad.Proofs.Token.Group
import Scratchpad.Proofs.Script.Phrase
import Scratchpad.Proofs.Script.Reading
import Scratchpad.Proofs.Typed.Calm
import Scratchpad.Proofs.Typed.Plain
import Scratchpad.Proofs.Typed.Untouched
import Scratchpad.Proofs.Token.Extent
import Scratchpad.Proofs.Token.Shard
import Scratchpad.Proofs.Token.Stand
import Scratchpad.Proofs.Token.Front
import Scratchpad.Proofs.Token.Exact
import Scratchpad.Proofs.Typed.Level
import Scratchpad.Proofs.Typed.Numbering
import Scratchpad.Proofs.Typed.Exported
import Scratchpad.Proofs.Python.Marker
import Scratchpad.Proofs.Python.Tokens
import Scratchpad.Proofs.Token.Matching
import Scratchpad.Proofs.Token.Termination
import Scratchpad.Proofs.Engine.Preview
import Scratchpad.Proofs.Wire.RoundTrip
import Scratchpad.Proofs.Instrument.Marked
import Scratchpad.Proofs.Token.Gap
import Scratchpad.Proofs.Token.Layer
import Scratchpad.Proofs.Script.Label
import Scratchpad.Proofs.Python.ModuleLevel
import Scratchpad.Proofs.Checked.Pipeline
import Scratchpad.Proofs.Cache.Accounting
import Scratchpad.Proofs.Memory.Cadence
import Scratchpad.Proofs.Engine.Exchange
import Scratchpad.Proofs.Engine.Sequence
import Scratchpad.Proofs.Instrument.Statements
import Scratchpad.Proofs.Text.Faithful
import Scratchpad.Proofs.Backoff
