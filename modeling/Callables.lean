import Callables.Display
import Callables.Decimal.Read
import Callables.Operation
import Callables.Proofs.Hierarchy
import Callables.Proofs.Change
import Callables.Proofs.Sweep
import Callables.Proofs.Reach
import Callables.Proofs.Conduct
import Callables.Proofs.Attributes
import Callables.Proofs.Naturality
import Callables.Proofs.Execution
import Callables.Proofs.Creation
import Callables.Proofs.Programs
import Callables.Proofs.Sessions
import Callables.Proofs.Subtyping
import Callables.Proofs.Receivers
import Callables.Proofs.BoundCalls
import Callables.Proofs.Relocation
import Callables.Proofs.Insertion
import Callables.Proofs.MethodCalls
import Callables.Proofs.ArgumentBinding
import Callables.Proofs.Levels
import Callables.Proofs.Accounts
import Callables.Proofs.Events
import Callables.Proofs.Formation
import Callables.Proofs.Registration
import Callables.Proofs.Access
import Callables.Proofs.Elsewhere
import Callables.Proofs.Updates
import Callables.Proofs.Releases
import Callables.Proofs.Referring
import Callables.Proofs.Watchers
import Callables.Proofs.Placement
import Callables.Proofs.Markers
import Callables.Proofs.Closures
import Callables.Proofs.FlagChecks
import Callables.Proofs.StoreLaws
import Callables.Proofs.DictRuns
import Callables.Proofs.Exclusion
import Callables.Proofs.Identity
import Callables.Proofs.Linearizing
import Callables.Proofs.Alignment
import Callables.Proofs.Repeats
import Callables.Proofs.Forwarding
import Callables.Proofs.ParameterNames
import Callables.Proofs.Introspection
import Callables.Proofs.Loops
import Callables.Proofs.Conflicts
