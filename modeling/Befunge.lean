import Befunge.Journal
import Befunge.Main
import Befunge.Screen.Terminal
import Befunge.Proofs.Machine.Buffered
import Befunge.Proofs.Machine.Place
import Befunge.Proofs.History.Chronicle
import Befunge.Proofs.History.Account
import Befunge.Proofs.Session.Calls
import Befunge.Proofs.Session.Coherence
import Befunge.Proofs.Session.Transparency
import Befunge.Proofs.Session.Transcript
import Befunge.Proofs.Session.FreshRun
import Befunge.Proofs.History.Editions
import Befunge.Proofs.Session.Budget
import Befunge.Proofs.Session.Leftover
import Befunge.Proofs.History.Executions
import Befunge.Proofs.Session.Visits
import Befunge.Proofs.Session.Iteration
import Befunge.Proofs.Session.Termination
import Befunge.Proofs.Session.WayBack
import Befunge.Proofs.Machine.Access
import Befunge.Proofs.Session.Confinement
import Befunge.Proofs.History.FirstVisits
import Befunge.Proofs.Session.Tint
import Befunge.Proofs.Session.Debug
import Befunge.Proofs.Session.Underflow
import Befunge.Proofs.Text.Decoding
import Befunge.Proofs.Machine.Translation
import Befunge.Proofs.Session.Streaming
import Befunge.Proofs.Session.FullSink
import Befunge.Proofs.Viewer.Browsing
import Befunge.Proofs.Text.Number
import Befunge.Proofs.Console.Reading
import Befunge.Proofs.Session.Exchange
import Befunge.Proofs.Machine.Symbols
import Befunge.Proofs.Session.Faults
import Befunge.Proofs.Playfield.Loading
import Befunge.Proofs.Session.Memory
import Befunge.Proofs.Machine.Travel
import Befunge.Proofs.Session.Literals
import Befunge.Proofs.Machine.Arithmetic
import Befunge.Proofs.Playfield.Difference
import Befunge.Proofs.Screen.Paragraph
import Befunge.Proofs.Viewer.Viewport
import Befunge.Proofs.Viewer.Placement
import Befunge.Proofs.Viewer.Playback
import Befunge.Proofs.Viewer.Scrolling
