import DebugSymbols.Main
import DebugSymbols.Proofs.Build.Edits
import DebugSymbols.Proofs.Build.Indexed
import DebugSymbols.Proofs.Build.Runs
import DebugSymbols.Proofs.Build.Sizes
import DebugSymbols.Proofs.Build.Steps
import DebugSymbols.Proofs.Build.Walks
import DebugSymbols.Proofs.Model.Redirection
import DebugSymbols.Proofs.Model.Sifting
import DebugSymbols.Proofs.Model.Merging
import DebugSymbols.Proofs.Model.Renaming
import DebugSymbols.Proofs.Merge
import DebugSymbols.Proofs.Sizes
import DebugSymbols.Proofs.Stream.Encoding
import DebugSymbols.Proofs.Stream.Fields
import DebugSymbols.Proofs.Stream.RoundTrip
import DebugSymbols.Proofs.Build.Aliases
import DebugSymbols.Proofs.Build.Names
import DebugSymbols.Proofs.WellFormed
import DebugSymbols.Proofs.Containment
import DebugSymbols.Proofs.Print.Grammar
import DebugSymbols.Proofs.Print.Reading
import DebugSymbols.Proofs.Print.Blocks
import DebugSymbols.Proofs.Print.Items
import DebugSymbols.Proofs.Finished
import DebugSymbols.Proofs.Typedefs
import DebugSymbols.Proofs.Uses
import DebugSymbols.Proofs.Build.Functions
import DebugSymbols.Proofs.Build.Scopes
import DebugSymbols.Proofs.Build.Spans
import DebugSymbols.Proofs.Concatenation
import DebugSymbols.Proofs.Model.Tags
import DebugSymbols.Proofs.Model.FreshNames
import DebugSymbols.Proofs.Model.Collisions
import DebugSymbols.Proofs.Model.Naming
import DebugSymbols.Proofs.Model.Passes
import DebugSymbols.Proofs.Model.Uniqueness
import DebugSymbols.Proofs.Model.FunctionNames
import DebugSymbols.Proofs.UniqueNames
import DebugSymbols.Proofs.Idempotence
import DebugSymbols.Proofs.Print.Order
import DebugSymbols.Proofs.BodyOrder
import DebugSymbols.Proofs.Build.History
import DebugSymbols.Proofs.Build.Places
import DebugSymbols.Proofs.Build.Content
import DebugSymbols.Proofs.Build.Excerpts
import DebugSymbols.Proofs.Independence
import DebugSymbols.Proofs.Build.Lookups
import DebugSymbols.Proofs.Build.Extends
import DebugSymbols.Proofs.Build.Filling
import DebugSymbols.Proofs.WrittenOnce
import DebugSymbols.Proofs.ForwardReferences
import DebugSymbols.Proofs.RepeatedSpans
import DebugSymbols.Proofs.Blocks
import DebugSymbols.Proofs.Stream.Running
import DebugSymbols.Proofs.Build.Lines
import DebugSymbols.Proofs.LineTable
import DebugSymbols.Proofs.MergedAliases
import DebugSymbols.Proofs.Stream.Cuts
import DebugSymbols.Proofs.Build.Complaints
import DebugSymbols.Proofs.Faults
import DebugSymbols.Proofs.Print.Nesting
import DebugSymbols.Proofs.Printing
import DebugSymbols.Proofs.Build.Spines
import DebugSymbols.Proofs.ArraySizes
import DebugSymbols.Proofs.Build.Portions
import DebugSymbols.Proofs.Partition
import DebugSymbols.Proofs.Text.Words
import DebugSymbols.Proofs.Model.CleanNames
import DebugSymbols.Proofs.CleanNames
import DebugSymbols.Proofs.Text.Lines
import DebugSymbols.Proofs.Print.Depth
import DebugSymbols.Proofs.Indentation
import DebugSymbols.Proofs.Build.Findings
import DebugSymbols.Proofs.TagIdentity
