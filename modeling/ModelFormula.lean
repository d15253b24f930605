import ModelFormula.CommandLine.Run
import ModelFormula.Main
import ModelFormula.Session.Command
import ModelFormula.Proofs.FormulaText
import ModelFormula.Proofs.Grammar.Completeness
import ModelFormula.Proofs.CapturedCalls
import ModelFormula.Proofs.Interpretable
import ModelFormula.Proofs.Coincidence
import ModelFormula.Proofs.EagerBinding
import ModelFormula.Proofs.Printing.Grouped
import ModelFormula.Proofs.Columns
import ModelFormula.Proofs.ReadBack
import ModelFormula.Proofs.BothSides
import ModelFormula.Proofs.Agreement
import ModelFormula.Proofs.Json.Trees
import ModelFormula.Proofs.CommandLine.Reports
import ModelFormula.Proofs.Definedness
import ModelFormula.Proofs.SignedZero
import ModelFormula.Proofs.EqualCalls
import ModelFormula.Proofs.Unbound
import ModelFormula.Proofs.Substitution
import ModelFormula.Proofs.Mentioned
import ModelFormula.Proofs.Grammar.Kept
import ModelFormula.Proofs.Grammar.Continuations
import ModelFormula.Proofs.Grammar.Enclosed
import ModelFormula.Proofs.Collapsing
import ModelFormula.Proofs.Grammar.Balance
import ModelFormula.Proofs.Grammar.Failures
import ModelFormula.Proofs.Grammar.Progress
import ModelFormula.Proofs.Capturing
