import ModuleLinker.Collections.ArrangedSet
import ModuleLinker.Directory
import ModuleLinker.Main
import ModuleLinker.Proofs.Collections.StableSort
import ModuleLinker.Proofs.Collections.Arrangement
import ModuleLinker.Proofs.Text.Identifier
import ModuleLinker.Proofs.Text.Literals
import ModuleLinker.Proofs.Text.Quoted
import ModuleLinker.Proofs.Text.Tokens
import ModuleLinker.Proofs.Text.Chains
import ModuleLinker.Proofs.Text.Lists
import ModuleLinker.Proofs.Text.Escapes
import ModuleLinker.Proofs.Scope
import ModuleLinker.Proofs.Scope.Requests
import ModuleLinker.Proofs.Text.Bindable
import ModuleLinker.Proofs.Naming.Ledger
import ModuleLinker.Proofs.Naming.Bindings
import ModuleLinker.Proofs.Naming.Namespaces
import ModuleLinker.Proofs.Naming.ExportMaps
import ModuleLinker.Proofs.Naming.Rounds
import ModuleLinker.Proofs.Naming.Accounts
import ModuleLinker.Proofs.Naming.Coverage
import ModuleLinker.Proofs.Naming.Renaming
import ModuleLinker.Proofs.Concatenation.Building
import ModuleLinker.Proofs.Concatenation.Denotation
import ModuleLinker.Proofs.Concatenation.Fingerprint
import ModuleLinker.Proofs.Concatenation.Ownership
import ModuleLinker.Proofs.Concatenation.Tapping
import ModuleLinker.Proofs.Concatenation.Offences
import ModuleLinker.Proofs.Concatenation.Extending
import ModuleLinker.Proofs.Concatenation.LinkableNames
import ModuleLinker.Proofs.Histories
import ModuleLinker.Proofs.Imports.Rebinding
import ModuleLinker.Proofs.Imports.Sources
import ModuleLinker.Proofs.Interface.Sources
import ModuleLinker.Proofs.Interface.Drafts
import ModuleLinker.Proofs.Interface.Standalone
import ModuleLinker.Proofs.Interface.Bindings
import ModuleLinker.Proofs.Interface.Taps
import ModuleLinker.Proofs.Interface.Contents
import ModuleLinker.Proofs.Interface.Presentation
import ModuleLinker.Proofs.Interface.Restricting
import ModuleLinker.Proofs.Linking.Publishing
import ModuleLinker.Proofs.Linking
import ModuleLinker.Proofs.Linking.Atomicity
import ModuleLinker.Proofs.Linking.Definitions
import ModuleLinker.Proofs.Linking.Rebuilding
import ModuleLinker.Proofs.Linking.Relinking
import ModuleLinker.Proofs.Linking.Wrapping
import ModuleLinker.Proofs.Linking.Transparency
import ModuleLinker.Proofs.Text.Order
import ModuleLinker.Proofs.Exports.Cycles
import ModuleLinker.Proofs.Exports.Registry
import ModuleLinker.Proofs.Exports.Runtimes
import ModuleLinker.Proofs.Exports.Walks
import ModuleLinker.Proofs.Exports.Histories
import ModuleLinker.Proofs.Exports.Insertions
import ModuleLinker.Proofs.Exports.Search
import ModuleLinker.Proofs.Exports.Reports
import ModuleLinker.Proofs.Exports.Circles
import ModuleLinker.Proofs.Naming.Agreement
import ModuleLinker.Proofs.Linking.Agreement
import ModuleLinker.Proofs.Linking.Runtimes
import ModuleLinker.Proofs.Manifest.Loading
import ModuleLinker.Proofs.Manifest.Rearranging
import ModuleLinker.Proofs.Collections.Replaying
import ModuleLinker.Proofs.Exports.Replaying
import ModuleLinker.Proofs.Manifest.Reloading
import ModuleLinker.Proofs.Linking.IdleTaps
import ModuleLinker.Proofs.Linking.Requests
