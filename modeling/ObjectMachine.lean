import ObjectMachine.Code.Compile
import ObjectMachine.Code.Instruction
import ObjectMachine.Code.Listing
import ObjectMachine.CommandLine
import ObjectMachine.CoreNames
import ObjectMachine.Json.Basic
import ObjectMachine.Json.Printer
import ObjectMachine.Json.Reader
import ObjectMachine.Library.Natives
import ObjectMachine.Library.Prelude
import ObjectMachine.Machine.Basic
import ObjectMachine.Machine.Fault
import ObjectMachine.Machine.Frame
import ObjectMachine.Machine.Heap
import ObjectMachine.Machine.Native
import ObjectMachine.Machine.Run
import ObjectMachine.Machine.Step
import ObjectMachine.Main
import ObjectMachine.Number.Canonical
import ObjectMachine.Number.Exact
import ObjectMachine.Number.Fixed
import ObjectMachine.Number.Reading
import ObjectMachine.Number.Scaled
import ObjectMachine.Number.Shortest
import ObjectMachine.Program.Basic
import ObjectMachine.Program.Hierarchy
import ObjectMachine.Program.Link
import ObjectMachine.Program.Names
import ObjectMachine.Program.Scope
import ObjectMachine.Proofs.Code.Compiled
import ObjectMachine.Proofs.Code.Depth
import ObjectMachine.Proofs.Code.Emitted
import ObjectMachine.Proofs.Code.Notes
import ObjectMachine.Proofs.Code.Operands
import ObjectMachine.Proofs.Heap.Chains
import ObjectMachine.Proofs.Heap.Edits
import ObjectMachine.Proofs.Heap.Growth
import ObjectMachine.Proofs.Heap.Sharing
import ObjectMachine.Proofs.Laws.Activations
import ObjectMachine.Proofs.Laws.AlwaysBlocks
import ObjectMachine.Proofs.Laws.Balance
import ObjectMachine.Proofs.Laws.Safety
import ObjectMachine.Proofs.Laws.Scopes
import ObjectMachine.Proofs.Laws.Sharing
import ObjectMachine.Proofs.Library.Natives
import ObjectMachine.Proofs.Machine.Actions
import ObjectMachine.Proofs.Machine.AlwaysRun
import ObjectMachine.Proofs.Machine.Answers
import ObjectMachine.Proofs.Machine.Calls
import ObjectMachine.Proofs.Machine.Effects
import ObjectMachine.Proofs.Machine.Execute
import ObjectMachine.Proofs.Machine.Regions
import ObjectMachine.Proofs.Machine.Roots
import ObjectMachine.Proofs.Machine.Trace
import ObjectMachine.Proofs.Session.Outcomes
import ObjectMachine.Proofs.Session.Reached
import ObjectMachine.Proofs.Session.Reserved
import ObjectMachine.Proofs.Tree.Nodes
import ObjectMachine.Session
import ObjectMachine.Span
import ObjectMachine.Text.CaseTable
import ObjectMachine.Text.EscapeTable
import ObjectMachine.Text.Quoted
import ObjectMachine.Text.Uppercase
import ObjectMachine.Tree.Basic
import ObjectMachine.Tree.Build
import ObjectMachine.Tree.Defaults
import ObjectMachine.Tree.Interchange
import ObjectMachine.Tree.Kind
import ObjectMachine.Proofs.Laws.Inheritance
import ObjectMachine.Proofs.Tree.Layers
import ObjectMachine.Proofs.Tree.Merging
import ObjectMachine.Proofs.Tree.Numbering
import ObjectMachine.Proofs.Laws.Linking
import ObjectMachine.Proofs.Laws.Layering
import ObjectMachine.Proofs.Laws.Packages
import ObjectMachine.Proofs.Program.Layering
import ObjectMachine.Proofs.Program.Naming
import ObjectMachine.Proofs.Tree.Growth
import ObjectMachine.Proofs.Program.Zones
import ObjectMachine.Proofs.Code.Layout
import ObjectMachine.Proofs.Machine.Changes
import ObjectMachine.Proofs.Machine.Conduct
import ObjectMachine.Proofs.Machine.Conducted
import ObjectMachine.Proofs.Library.Conduct
import ObjectMachine.Proofs.Session.Traced
import ObjectMachine.Proofs.Session.Uses
import ObjectMachine.Proofs.Session.Instances
import ObjectMachine.Proofs.Laws.Identities
import ObjectMachine.Proofs.Tree.Interchange
import ObjectMachine.Proofs.Laws.Interchange
import ObjectMachine.Proofs.Tree.Filling
import ObjectMachine.Proofs.Program.Library
import ObjectMachine.Proofs.Laws.Understanding
import ObjectMachine.Proofs.Machine.Turns
import ObjectMachine.Proofs.Laws.NestedRuns
import ObjectMachine.Proofs.Laws.Overflow
import ObjectMachine.Proofs.Laws.Catching
import ObjectMachine.Proofs.Machine.Additions
import ObjectMachine.Proofs.Laws.Initializers
import ObjectMachine.Proofs.Program.Sighting
import ObjectMachine.Proofs.Session.LaidFrames
import ObjectMachine.Proofs.Heap.Walks
import ObjectMachine.Proofs.Laws.Displays
import ObjectMachine.Proofs.Laws.Lookups
import ObjectMachine.Proofs.Laws.Reuse
import ObjectMachine.Proofs.Session.FieldsSet
import ObjectMachine.Proofs.Laws.FieldReferences
import ObjectMachine.Proofs.Code.Tracks
import ObjectMachine.Proofs.Laws.DefaultSuperclasses
import ObjectMachine.Proofs.Laws.TrackedFrames
import ObjectMachine.Proofs.Laws.NewObjects
import ObjectMachine.Proofs.Laws.Selves
import ObjectMachine.Proofs.Laws.SuperCalls
import ObjectMachine.Proofs.Laws.SuperChains
import ObjectMachine.Proofs.Laws.Defaults
import ObjectMachine.Proofs.Laws.QualifiedNames
import ObjectMachine.Proofs.Laws.Arguments
import ObjectMachine.Proofs.Laws.Iteration
import ObjectMachine.Proofs.Tree.Visits
import ObjectMachine.Proofs.Laws.Traversal
