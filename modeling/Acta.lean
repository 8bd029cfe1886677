import Acta.Adoption
import Acta.Atomicity
import Acta.CrashSafety
import Acta.Damage
import Acta.Failures
import Acta.Format.StreamTable
import Acta.Integrity
import Acta.Isolation
import Acta.Read.Spending
import Acta.Read.Unbounded
import Acta.Reencoding
import Acta.Refresh
import Acta.Reopening
import Acta.Representation
import Acta.RoundTrip.Affordable
import Acta.RoundTrip.Assembled
import Acta.RoundTrip.Block
import Acta.RoundTrip.Booleans
import Acta.RoundTrip.DataFrame
import Acta.RoundTrip.Delivered
import Acta.RoundTrip.Dictionary
import Acta.RoundTrip.Envelope
import Acta.RoundTrip.Estimates
import Acta.RoundTrip.File
import Acta.RoundTrip.Opening
import Acta.RoundTrip.Placement
import Acta.RoundTrip.Statistics
import Acta.RoundTrip.Values
import Acta.Tiling
import Acta.Validate
import Acta.Write.Ledger
import Acta.Write.Selection
import Acta.Write.Sizing
import Acta.Write.Splitting
