import DialogRules.Text.Blank
import DialogRules.Text.Word
import DialogRules.Text.Balance
import DialogRules.Text.Pieces
import DialogRules.Line
import DialogRules.Vocabulary
import DialogRules.Elements
import DialogRules.Atom
import DialogRules.Token
import DialogRules.Lexeme
import DialogRules.Advisory
import DialogRules.Condition.Basic
import DialogRules.Condition.Render
import DialogRules.Condition.Reading
import DialogRules.Statement
import DialogRules.Refusal
import DialogRules.Screen
import DialogRules.Rule
import DialogRules.RuleSet.Basic
import DialogRules.Draft
import DialogRules.RuleSet.Document
import DialogRules.Layout.Basic
import DialogRules.Layout.Check
import DialogRules.Layout.Document
import DialogRules.Layout.Load
import DialogRules.Log
import DialogRules.Json
import DialogRules.Proofs.Occurrence
import DialogRules.Proofs.Elements
import DialogRules.Proofs.Elements.Registry
import DialogRules.Proofs.Token
import DialogRules.Proofs.Lexeme
import DialogRules.Proofs.Piece
import DialogRules.Proofs.Condition.Levels
import DialogRules.Proofs.Condition.Collected
import DialogRules.Proofs.Condition.Atoms
import DialogRules.Proofs.Condition.Leaves
import DialogRules.Proofs.Condition.Descent
import DialogRules.Proofs.Condition.Survey
import DialogRules.Proofs.Condition.Normal
import DialogRules.Proofs.Condition.Pieces
import DialogRules.Proofs.Condition.RoundTrip
import DialogRules.Proofs.Statement
import DialogRules.Proofs.Line
import DialogRules.Proofs.Text.Balance
import DialogRules.Proofs.Condition.Nesting
import DialogRules.Proofs.Condition.Enclosure
import DialogRules.Proofs.Layout.Agreement
import DialogRules.Proofs.Layout.Language
import DialogRules.Proofs.Draft
import DialogRules.Proofs.Rule
import DialogRules.Proofs.RuleSet.OfRules
import DialogRules.Proofs.RuleSet.RoundTrip
import DialogRules.Proofs.Layout.Load
import DialogRules.Proofs.Layout.RoundTrip
import DialogRules.Proofs.Layout.Kept
import DialogRules.Proofs.Layout.Log
import DialogRules.Proofs.Row
import DialogRules.Proofs.RuleSet.Lookup
import DialogRules.Proofs.RuleSet.Stated
import DialogRules.Proofs.RuleSet.Concatenation
import DialogRules.Proofs.Layout.FirstRefused
import DialogRules.Proofs.Layout.Wider
import DialogRules.Proofs.Layout.Rearranged
import DialogRules.Proofs.Segment
import DialogRules.Proofs.Spacing
import DialogRules.Proofs.Statement.Parts
import DialogRules.Proofs.Json.Text
import DialogRules.Proofs.Json.Bare
import DialogRules.Proofs.Layout.Integer
