import VimL.Diagnostics
import VimL.Session
import VimL.Text.Utf8
import VimL.Proofs.Equality
import VimL.Proofs.Outcome
import VimL.Proofs.FinalBlock
import VimL.Proofs.Steps
import VimL.Proofs.Marks
import VimL.Proofs.Places
import VimL.Proofs.Parts
import VimL.Proofs.Room
import VimL.Proofs.Additions
import VimL.Proofs.Namings
import VimL.Proofs.Listings
import VimL.Proofs.Discipline
import VimL.Proofs.Keeps
import VimL.Proofs.Runs.Values
import VimL.Proofs.Runs.Names
import VimL.Proofs.Runs.Targets
import VimL.Proofs.Runs.Library
import VimL.Proofs.Runs.Callbacks
import VimL.Proofs.Runs.Calls
import VimL.Proofs.Runs.Interpreter
import VimL.Proofs.Watching
import VimL.Proofs.Runs.Steps
import VimL.Proofs.Runs.Sessions
import VimL.Proofs.Cancellation
import VimL.Proofs.Failures
import VimL.Proofs.Approximation
import VimL.Proofs.Invariants
import VimL.Proofs.Restoring
import VimL.Proofs.CallDepth
import VimL.Proofs.Placement
import VimL.Proofs.Locks
import VimL.Proofs.LockedEntries
import VimL.Proofs.Spots
import VimL.Proofs.Owners
import VimL.Proofs.VariableLocks
import VimL.Proofs.Reach
import VimL.Proofs.Sharing
import VimL.Proofs.Sizes
import VimL.Proofs.Termination
import VimL.Proofs.Contents
import VimL.Proofs.JsonText
import VimL.Proofs.Exchange
import VimL.Proofs.Constructs
import VimL.Proofs.Unwinding
import VimL.Proofs.Throwing
import VimL.Proofs.Declarations
import VimL.Proofs.Registry
import VimL.Proofs.Resolution
import VimL.Proofs.Sites
import VimL.Proofs.Scoping
import VimL.Proofs.Bindings
import VimL.Proofs.Invocations
import VimL.Proofs.Recording
import VimL.Proofs.ReadOnly
import VimL.Proofs.Pending
import VimL.Proofs.DeepCopies
import VimL.Proofs.LockDepths
import VimL.Proofs.SharedCopies
import VimL.Proofs.FailedAssignments
import VimL.Proofs.Options
import VimL.Proofs.Registers
import VimL.Proofs.Ranges
import VimL.Proofs.RangeAssignments
import VimL.Proofs.CompoundAssignments
import VimL.Proofs.Typing
import VimL.Proofs.StableSorts
import VimL.Proofs.Sorting
import VimL.Proofs.NativeCalls
import VimL.Proofs.Positions
import VimL.Proofs.Searches
import VimL.Proofs.FailedChanges
import VimL.Proofs.Receivers
import VimL.Proofs.Funcrefs
import VimL.Proofs.Methods
import VimL.Proofs.Encoding
import VimL.Proofs.HostCopies
import VimL.Proofs.Preserving
import VimL.Proofs.Loops
import VimL.Proofs.Arguments
import VimL.Proofs.Slices
import VimL.Proofs.Literals
import VimL.Proofs.Splitting
import VimL.Proofs.Interchange
import VimL.Proofs.EqualFuncrefs
import VimL.Proofs.Arithmetic
import VimL.Proofs.Numerals
