import Formula.Main
import Formula.Interpreter.Traversal
import Formula.Proofs.Grammar.Acceptance
import Formula.Proofs.Lexing.Coverage
import Formula.Proofs.Source.RoundTrip
import Formula.Proofs.Source.Text
import Formula.Proofs.Validation.Names
import Formula.Proofs.Validation.Soundness
import Formula.Proofs.Member.Choice
import Formula.Proofs.Member.History
import Formula.Proofs.Validation.Coverage
import Formula.Proofs.Scope.Mapped
import Formula.Proofs.Session.Step
import Formula.Proofs.Session.Isolation
import Formula.Proofs.Session.Turns
import Formula.Proofs.Evaluation.Parts
import Formula.Proofs.Evaluation.Innermost
import Formula.Proofs.Evaluation.Unset
import Formula.Proofs.Validation.Absent
import Formula.Proofs.Validation.Alarms
import Formula.Proofs.Validation.Outcome
import Formula.Proofs.Source.Display
import Formula.Proofs.Source.Weight
import Formula.Proofs.Session.Call
import Formula.Proofs.Session.Consistency
import Formula.Proofs.Session.Declared
import Formula.Proofs.Session.Dependence
import Formula.Proofs.Session.Hidden
import Formula.Proofs.Lexing.Matching
import Formula.Proofs.Grammar.Row
import Formula.Proofs.Source.Composition
import Formula.Proofs.Evaluation.ElseChain
import Formula.Proofs.Validation.Repeats
import Formula.Proofs.Source.WellFormed
import Formula.Proofs.Evaluation.Membership
import Formula.Proofs.Evaluation.KindFailure
import Formula.Proofs.Evaluation.Division
import Formula.Proofs.Member.Instantiation
import Formula.Proofs.Member.Nearest
import Formula.Proofs.Member.Binding
import Formula.Proofs.Member.Union
import Formula.Proofs.Scope.Shadowing
import Formula.Proofs.Lexing.Keyword
import Formula.Proofs.Lexing.Synonym
import Formula.Proofs.Grammar.Layout
import Formula.Proofs.Source.Chaining
import Formula.Proofs.Evaluation.Trace
import Formula.Proofs.Member.Reporting
import Formula.Proofs.Function.History
import Formula.Proofs.Function.Extremum
