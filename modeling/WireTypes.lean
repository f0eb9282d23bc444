import WireTypes.Main
import WireTypes.Proofs.CType.Nesting
import WireTypes.Proofs.CType.Object
import WireTypes.Proofs.CType.Initialiser
import WireTypes.Proofs.CType.Tags
import WireTypes.Proofs.CType.Failure
import WireTypes.Proofs.CType.Definition
import WireTypes.Proofs.CType.Indentation
import WireTypes.Proofs.CType.Unfinished
import WireTypes.Proofs.TypeTable.Extension
import WireTypes.Proofs.Lower.Acceptance
import WireTypes.Proofs.Lower.Context
import WireTypes.Proofs.Diagnostic.Funnel
import WireTypes.Proofs.Diagnostic.Cutoff
import WireTypes.Proofs.Diagnostic.Family
import WireTypes.Proofs.Diagnostic.Repeats
import WireTypes.Proofs.Diagnostic.Flush
import WireTypes.Proofs.Diagnostic.Report
import WireTypes.Proofs.Diagnostic.Colors
import WireTypes.Proofs.CUnit.Items
import WireTypes.Proofs.CUnit.Settings
import WireTypes.Proofs.CUnit.Composition
import WireTypes.Proofs.CUnit.Contributions
import WireTypes.Proofs.CUnit.Program
import WireTypes.Proofs.CUnit.Failures
import WireTypes.Proofs.Command.Results
import WireTypes.Proofs.Command.Verdict
import WireTypes.Proofs.Command.Agreement
import WireTypes.Proofs.Command.Delivery
import WireTypes.Proofs.Command.Layouts
import WireTypes.Proofs.TypeRef.Reading
import WireTypes.Proofs.TypeRef.Grammar
import WireTypes.Proofs.TypeRef.Canonical
import WireTypes.Proofs.TypeTable.Spelled
import WireTypes.Proofs.TypeTable.Reference
import WireTypes.Proofs.Description.Loading
import WireTypes.Proofs.Description.Faults
import WireTypes.Proofs.Description.References
import WireTypes.Proofs.Description.Order
import WireTypes.Proofs.Description.Contents
import WireTypes.Proofs.Text.Blanks
import WireTypes.Proofs.Text.Digits
import WireTypes.Proofs.Text.Shift
import WireTypes.Proofs.Text.Lines
import WireTypes.Proofs.Lower.Outcome
import WireTypes.Proofs.Lower.Measure
import WireTypes.Proofs.Lower.HeaderFields
import WireTypes.Proofs.Lower.Members
import WireTypes.Proofs.Lower.DeadEnd
import WireTypes.Proofs.Directory
import WireTypes.Proofs.Options.Output
import WireTypes.Proofs.Options.Settings
import WireTypes.Proofs.Options.Groups
import WireTypes.Proofs.Json.Text
import WireTypes.Proofs.IndexedInterner
import WireTypes.Proofs.Layout
