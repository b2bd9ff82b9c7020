import StyleBudget.CommandLine.Run
import StyleBudget.Compile
import StyleBudget.Main
import StyleBudget.Syntax.Reading
import StyleBudget.Proofs.Expansion
import StyleBudget.Proofs.Placeholders
import StyleBudget.Proofs.Filling
import StyleBudget.Proofs.Recording
import StyleBudget.Proofs.History
import StyleBudget.Proofs.Reading
import StyleBudget.Proofs.Plain
import StyleBudget.Proofs.Phases
import StyleBudget.Proofs.Findings
import StyleBudget.Proofs.Strict
import StyleBudget.Proofs.Overruns
import StyleBudget.Proofs.Precedence
import StyleBudget.Proofs.Lexing
import StyleBudget.Proofs.Gaps
import StyleBudget.Proofs.Juxtaposition
import StyleBudget.Proofs.Spacing
import StyleBudget.Proofs.Source
import StyleBudget.Proofs.Writing
import StyleBudget.Proofs.Walks
import StyleBudget.Proofs.RoundTrip
import StyleBudget.Proofs.Responses
import StyleBudget.Proofs.NormalForm
import StyleBudget.Proofs.Fixpoint
import StyleBudget.Proofs.Consumers
import StyleBudget.Proofs.Warnings
import StyleBudget.Proofs.Nesting
import StyleBudget.Proofs.Overlay
import StyleBudget.Proofs.Omission
import StyleBudget.Proofs.Asides
import StyleBudget.Proofs.Tracking
import StyleBudget.Proofs.Bookkeeping
import StyleBudget.Proofs.Additions
import StyleBudget.Proofs.Extensions
import StyleBudget.Proofs.Growth
import StyleBudget.Proofs.Choices
import StyleBudget.Proofs.Failures
import StyleBudget.Proofs.Literals
import StyleBudget.Proofs.Requests
import StyleBudget.Proofs.Headlines
import StyleBudget.Proofs.Brackets
import StyleBudget.Proofs.Validation
import StyleBudget.Proofs.Numerals
import StyleBudget.Proofs.SettingTexts
import StyleBudget.Proofs.Undeclared
import StyleBudget.Proofs.Selectors
import StyleBudget.Proofs.Depth
import StyleBudget.Proofs.Preorder
import StyleBudget.Proofs.Patterns
import StyleBudget.Proofs.Replacement
import StyleBudget.Proofs.Listening
