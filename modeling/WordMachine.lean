import WordMachine.Inspect
import WordMachine.Host
import WordMachine.Proofs.Address
import WordMachine.Proofs.Failure
import WordMachine.Proofs.Reachable
import WordMachine.Proofs.Footprint
import WordMachine.Proofs.Record
import WordMachine.Proofs.Run
import WordMachine.Proofs.Log
import WordMachine.Proofs.Reporting
import WordMachine.Proofs.Integers
import WordMachine.Proofs.Image
import WordMachine.Proofs.Program
import WordMachine.Proofs.Outcome
import WordMachine.Proofs.Conversion
import WordMachine.Proofs.Coercion
import WordMachine.Proofs.Stack
import WordMachine.Proofs.EmptyStack
import WordMachine.Proofs.Nesting
import WordMachine.Proofs.Bounds
import WordMachine.Proofs.ChangeLog
import WordMachine.Proofs.Mirror
import WordMachine.Proofs.Reset
import WordMachine.Proofs.Order
import WordMachine.Proofs.Jumps
import WordMachine.Proofs.Residue
import WordMachine.Proofs.Exact
import WordMachine.Proofs.Calculation
import WordMachine.Proofs.Nearest
import WordMachine.Proofs.Quotients
import WordMachine.Proofs.Bits
import WordMachine.Proofs.Ring
import WordMachine.Proofs.Slices
import WordMachine.Proofs.Representation
import WordMachine.Proofs.Truncation
import WordMachine.Proofs.RoundTrip
import WordMachine.Proofs.HexDump
import WordMachine.Proofs.WordArray
import WordMachine.Proofs.Loading
import WordMachine.Proofs.RegisterMap
import WordMachine.Proofs.Fetching
import WordMachine.Proofs.Moves
import WordMachine.Proofs.Floor
import WordMachine.Proofs.Construction
