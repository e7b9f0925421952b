import SchemaLang.Check
import SchemaLang.Command.Run
import SchemaLang.Diagnostic.Encoding
import SchemaLang.Expr.Equality
import SchemaLang.Main
import SchemaLang.Schema.Encoding
import SchemaLang.Proofs.ErrorPosition
import SchemaLang.Proofs.Lexical.Tiling
import SchemaLang.Proofs.RoundTrip
import SchemaLang.Proofs.Agreement.Basic
import SchemaLang.Proofs.Agreement.Expr
import SchemaLang.Proofs.Shape.Expr
import SchemaLang.Proofs.Shape.Input
import SchemaLang.Proofs.Agreement.Input
import SchemaLang.Proofs.Agreement.Schema
import SchemaLang.Proofs.Indifference
import SchemaLang.Proofs.Wording.Message
import SchemaLang.Proofs.Wording.Unspaced
import SchemaLang.Proofs.Views
import SchemaLang.Proofs.Lexical.Refusal
import SchemaLang.Proofs.RefusedPlace
import SchemaLang.Proofs.Shape.Depth
import SchemaLang.Proofs.Contexts
import SchemaLang.Proofs.Nesting.Plan
import SchemaLang.Proofs.Nesting.Run
import SchemaLang.Proofs.Nesting.Leaves
import SchemaLang.Proofs.Nesting.Expr
import SchemaLang.Proofs.Nesting.Limit
import SchemaLang.Proofs.Siblings
import SchemaLang.Proofs.Openings
import SchemaLang.Proofs.DeclarationOrder
import SchemaLang.Proofs.Encoding
import SchemaLang.Proofs.Floats
import SchemaLang.Proofs.Commands
import SchemaLang.Proofs.Grouping
import SchemaLang.Proofs.Lexical.LineBreak
import SchemaLang.Proofs.Lexical.Respelling
import SchemaLang.Proofs.Lexical.CarriageReturn
import SchemaLang.Proofs.InputOptions
import SchemaLang.Proofs.Wording.Tree
import SchemaLang.Proofs.Wording.Twice
import SchemaLang.Proofs.Numbers
import SchemaLang.Proofs.Records
import SchemaLang.Proofs.Cursor.Progress
