import ScriptRealm.Main
import ScriptRealm.Realm.Moments
import ScriptRealm.Proofs.Calls
import ScriptRealm.Proofs.Runs
import ScriptRealm.Proofs.Carrier
import ScriptRealm.Proofs.Policy
import ScriptRealm.Proofs.Slots
import ScriptRealm.Proofs.World
import ScriptRealm.Proofs.Frames
import ScriptRealm.Proofs.Move
import ScriptRealm.Proofs.Safety
import ScriptRealm.Proofs.Operations
import ScriptRealm.Proofs.Library
import ScriptRealm.Proofs.Requests
import ScriptRealm.Proofs.Course
import ScriptRealm.Proofs.Genesis
import ScriptRealm.Proofs.Lineage
import ScriptRealm.Proofs.OwnProperties
import ScriptRealm.Proofs.Permanence
import ScriptRealm.Proofs.HandleSafety
import ScriptRealm.Proofs.NewTarget
import ScriptRealm.Proofs.Declarations
import ScriptRealm.Proofs.Enumeration
import ScriptRealm.Proofs.InternalSlots
import ScriptRealm.Proofs.StoredDescriptors
import ScriptRealm.Proofs.Walks
import ScriptRealm.Proofs.Ancestry
import ScriptRealm.Proofs.Relinking
import ScriptRealm.Proofs.Bookkeeping
import ScriptRealm.Proofs.Naming
import ScriptRealm.Proofs.Validation
import ScriptRealm.Proofs.Assignment
import ScriptRealm.Proofs.Blank
import ScriptRealm.Proofs.Number.Reading
import ScriptRealm.Proofs.Number.Printing
import ScriptRealm.Proofs.Number.RoundTrip
import ScriptRealm.Proofs.Number.Exact
import ScriptRealm.Proofs.Number.Fixed
import ScriptRealm.Proofs.Number.Significant
import ScriptRealm.Proofs.Number.Exponential
import ScriptRealm.Proofs.Number.Expansion
import ScriptRealm.Proofs.Number.Numeral
import ScriptRealm.Proofs.Number.Printer
import ScriptRealm.Proofs.Number.ShortestDigits
import ScriptRealm.Proofs.Number.DefaultText
import ScriptRealm.Proofs.Number.RadixText
import ScriptRealm.Proofs.Number.Precision
import ScriptRealm.Proofs.Number.Grammar
import ScriptRealm.Proofs.NumberMembers
import ScriptRealm.Proofs.Conversion
import ScriptRealm.Proofs.Dialogue
import ScriptRealm.Proofs.LooseEquality
import ScriptRealm.Proofs.Strictness
import ScriptRealm.Proofs.Boxing
import ScriptRealm.Proofs.StringConversion
import ScriptRealm.Proofs.PrimitiveAccess
import ScriptRealm.Proofs.Residue
import ScriptRealm.Proofs.Sameness
import ScriptRealm.Proofs.Slices
import ScriptRealm.Proofs.PropertyOrder
import ScriptRealm.Proofs.Formatting
import ScriptRealm.Proofs.Number.Truncation
import ScriptRealm.Proofs.Counts
import ScriptRealm.Proofs.Number.RadixLiteral
import ScriptRealm.Proofs.Number.BinaryRadix
import ScriptRealm.Proofs.Number.PrintedForm
import ScriptRealm.Proofs.Number.RadixLoops
