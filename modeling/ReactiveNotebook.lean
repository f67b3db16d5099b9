import ReactiveNotebook.Main
import ReactiveNotebook.Proofs.Scheduling.Bookkeeping
import ReactiveNotebook.Proofs.Scheduling.CycleMark
import ReactiveNotebook.Proofs.Scheduling.CyclePath
import ReactiveNotebook.Proofs.Scheduling.Debounce
import ReactiveNotebook.Proofs.Scheduling.Footprint
import ReactiveNotebook.Proofs.Scheduling.FromScratch
import ReactiveNotebook.Proofs.Scheduling.HeldNames
import ReactiveNotebook.Proofs.Scheduling.Inherited
import ReactiveNotebook.Proofs.Scheduling.LateExport
import ReactiveNotebook.Proofs.Scheduling.LostUpdate
import ReactiveNotebook.Proofs.Scheduling.Oscillation
import ReactiveNotebook.Proofs.Scheduling.Overflow
import ReactiveNotebook.Proofs.Scheduling.Parallel
import ReactiveNotebook.Proofs.Scheduling.PassPlan
import ReactiveNotebook.Proofs.Scheduling.Pruning
import ReactiveNotebook.Proofs.Scheduling.Reports
import ReactiveNotebook.Proofs.Scheduling.StaleResult
import ReactiveNotebook.Proofs.Scheduling.Termination
import ReactiveNotebook.Proofs.Scheduling.ValidNames
import ReactiveNotebook.Proofs.Scheduling.WaitsOnCycle
import ReactiveNotebook.Proofs.Store.Listing
import ReactiveNotebook.Proofs.Cell.Literal
import ReactiveNotebook.Proofs.Format.Money
import ReactiveNotebook.Proofs.Json.RoundTrip
import ReactiveNotebook.Proofs.Notebook.GeneratedId
import ReactiveNotebook.Proofs.Notebook.InPlace
import ReactiveNotebook.Proofs.Notebook.Override
import ReactiveNotebook.Proofs.Notebook.RoundTrip
import ReactiveNotebook.Proofs.Notebook.Unsaved
import ReactiveNotebook.Proofs.Notebook.ValueLine
import ReactiveNotebook.Proofs.Analysis.Dependency
import ReactiveNotebook.Proofs.Analysis.Sigil
import ReactiveNotebook.Proofs.Analysis.Cut
import ReactiveNotebook.Proofs.Analysis.Embedded
import ReactiveNotebook.Proofs.Analysis.FilterBar
import ReactiveNotebook.Proofs.Analysis.OpenLiteral
