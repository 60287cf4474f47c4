import QubicLedger.Lib.FixedBuf
import QubicLedger.Lib.Positional
import QubicLedger.Lib.Bytes
import QubicLedger.Lib.LongDivision
import QubicLedger.Lib.EventLog
import QubicLedger.Lib.Scratch
import QubicLedger.Types
import QubicLedger.Sdk
import QubicLedger.K12
import QubicLedger.Seed.Base26
import QubicLedger.Seed.KeyToSeed
import QubicLedger.Seed.Encoder
import QubicLedger.Display.Identity
import QubicLedger.Display.Printer
import QubicLedger.Parser
import QubicLedger.Keygen
import QubicLedger.Display.Review
import QubicLedger.Handlers
import QubicLedger.Session
import QubicLedger.Session.Path
import QubicLedger.Session.Steps
import QubicLedger.Session.Effect
import QubicLedger.Session.Approval
import QubicLedger.Session.Reassembly
import QubicLedger.Session.Split
import QubicLedger.Session.Sequence
import QubicLedger.Session.SizeLimit
import QubicLedger.Display.Shown
import QubicLedger.Session.PathUse
import QubicLedger.Session.Pending
import QubicLedger.Session.Leftover
import QubicLedger.Session.Outcome
import QubicLedger.Session.Prologue
import QubicLedger.Wiping
import QubicLedger.Client
import QubicLedger.FourQ.Digits
import QubicLedger.Lib.Edwards
import QubicLedger.FourQ.Curve
import QubicLedger.FourQ.Encode
import QubicLedger.FourQ.Validate
import QubicLedger.FourQ.Decode
import QubicLedger.FourQ.Refused
import QubicLedger.Lib.QuadraticRoot
import QubicLedger.FourQ.FixedBase
import QubicLedger.FourQ.SchnorrQ
import QubicLedger.Session.Signature
import QubicLedger.Session.Key
import QubicLedger.K12.Absorb
import QubicLedger.K12.Permutation
import QubicLedger.K12.Tree
import QubicLedger.Lib.Refinement
import QubicLedger.Menu
import QubicLedger.Session.Builds
import QubicLedger.Session.Secrecy
import QubicLedger.Session.Settings
