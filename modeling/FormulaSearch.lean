import FormulaSearch.Main
import FormulaSearch.Proofs.Budget
import FormulaSearch.Proofs.Canonical
import FormulaSearch.Proofs.Expr.NormalForm
import FormulaSearch.Proofs.Expr.Reread
import FormulaSearch.Proofs.Expr.RoundTrip
import FormulaSearch.Proofs.Expr.Simplification
import FormulaSearch.Proofs.Expr.Spacing
import FormulaSearch.Proofs.Search.History
import FormulaSearch.Proofs.Search.Reports
import FormulaSearch.Proofs.Search.Outcome
import FormulaSearch.Proofs.Search.Stops
import FormulaSearch.Proofs.CommandLine.Cap
import FormulaSearch.Proofs.CommandLine.Loading
import FormulaSearch.Proofs.Descent
import FormulaSearch.Proofs.Downhill
import FormulaSearch.Proofs.Dataset
import FormulaSearch.Proofs.IterationCap
import FormulaSearch.Proofs.Search.Proposals
import FormulaSearch.Proofs.Expr.Pointwise
import FormulaSearch.Proofs.Params.Session
import FormulaSearch.Proofs.Search.LargeForm
import FormulaSearch.Proofs.FreshName
import FormulaSearch.Proofs.Settings
import FormulaSearch.Proofs.Starts
