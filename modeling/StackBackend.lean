import StackBackend.Cli.FileTree
import StackBackend.Document.Encode
import StackBackend.Main
import StackBackend.Proofs.StackProfile.Labels
import StackBackend.Tree.Build
import StackBackend.Proofs.StackProfile.Arrivals
import StackBackend.Proofs.Lowering.Actions
import StackBackend.Proofs.Lowering.Shape.Expression
import StackBackend.Proofs.Lowering.Shape.Statement
import StackBackend.Proofs.StackProfile.Flow
import StackBackend.Proofs.Lowering.Depths
import StackBackend.Proofs.Lowering.Shape.ClassUnit
import StackBackend.Proofs.Lowering.MethodDepths
import StackBackend.Proofs.Machine.Effect
import StackBackend.Proofs.Machine.Moves
import StackBackend.Proofs.Machine.AnalysisSound
import StackBackend.Proofs.Lowering.Slots
import StackBackend.Proofs.Machine.Site
import StackBackend.Proofs.Lowering.Sequences
import StackBackend.Proofs.Meaning.Direct
import StackBackend.Proofs.Typing.Rules
import StackBackend.Proofs.Typing.Acceptance
import StackBackend.Proofs.Meaning.Expression
import StackBackend.Proofs.Meaning.Statement
import StackBackend.Proofs.Meaning.Preservation
import StackBackend.Proofs.Machine.Safety
import StackBackend.Proofs.Typing.Memory
import StackBackend.Proofs.Typing.Frames
import StackBackend.Proofs.Typing.Expressions
import StackBackend.Proofs.Typing.Methods
import StackBackend.Proofs.Typing.Programs
import StackBackend.Proofs.Lowering.ClassLabels
import StackBackend.Proofs.Document.RoundTrip
import StackBackend.Proofs.Machine.Regions
import StackBackend.Proofs.Storage.Heaps
import StackBackend.Proofs.Storage.Instructions
import StackBackend.Proofs.Storage.Points
import StackBackend.Proofs.Storage.Arrays
import StackBackend.Proofs.Storage.Operators
import StackBackend.Proofs.Storage.Calls
import StackBackend.Proofs.Storage.Expressions
import StackBackend.Proofs.Storage.Statements
import StackBackend.Proofs.Storage.Methods
import StackBackend.Proofs.Storage.Sharing
import StackBackend.Proofs.Lowering.Occurrences
import StackBackend.Proofs.Storage.Faithful
import StackBackend.Proofs.Machine.StepLimit
import StackBackend.Proofs.Scope.Ancestors
import StackBackend.Proofs.Lowering.MethodNames
import StackBackend.Proofs.StackProfile.Renaming
import StackBackend.Proofs.Machine.Renaming
import StackBackend.Proofs.Lowering.Relocation
import StackBackend.Proofs.Lowering.EmissionOrder
import StackBackend.Proofs.Machine.Transitions
import StackBackend.Proofs.Machine.Grounded
import StackBackend.Proofs.Machine.Isolation
import StackBackend.Proofs.Machine.HeapTyping
import StackBackend.Proofs.Lowering.Pointers
import StackBackend.Proofs.Machine.Receiver
import StackBackend.Proofs.Meaning.Data
import StackBackend.Proofs.Meaning.Scalars
import StackBackend.Proofs.Meaning.Representation
import StackBackend.Proofs.Meaning.Operators
import StackBackend.Proofs.Meaning.ListLiterals
import StackBackend.Proofs.Meaning.Computation
import StackBackend.Proofs.Scope.Visibility
import StackBackend.Proofs.Lowering.Laws
import StackBackend.Proofs.StackProfile.Exactness
import StackBackend.Proofs.Scope.Drafts
import StackBackend.Proofs.Storage.Walks
import StackBackend.Proofs.Storage.Sights
import StackBackend.Proofs.Storage.Readings
import StackBackend.Proofs.Storage.Evaluations
import StackBackend.Proofs.Storage.Updates
import StackBackend.Proofs.Assembly.Descriptors
import StackBackend.Proofs.Assembly.Unquoting
import StackBackend.Proofs.Assembly.Reading
import StackBackend.Proofs.Lowering.Locality
import StackBackend.Proofs.Storage.Temporaries
import StackBackend.Proofs.Typing.Acceptance
import StackBackend.Proofs.Lowering.SlotLimit
