import SqlCompiler.Main
import SqlCompiler.Proofs.RowWindow.Wrapped
import SqlCompiler.Proofs.RowWindow.Pushed
import SqlCompiler.Proofs.RowWindow.Columns
import SqlCompiler.Proofs.RowWindow.Changes
import SqlCompiler.Proofs.Reading.Condition
import SqlCompiler.Proofs.Reading.Arithmetic
import SqlCompiler.Proofs.Reading.Membership
import SqlCompiler.Proofs.Agreement.Placeholders
import SqlCompiler.Proofs.Agreement.StringContents
import SqlCompiler.Proofs.Comments.Statement
import SqlCompiler.Proofs.Nodes.Expressible
import SqlCompiler.Proofs.Exchange.Statements
import SqlCompiler.Proofs.SetOperations.Reading
import SqlCompiler.Proofs.Ordering.Aliases
import SqlCompiler.Proofs.Ordering.DistinctTerms
import SqlCompiler.Proofs.Ordering.FixedPoint
import SqlCompiler.Proofs.Quoting
import SqlCompiler.Proofs.Brackets.Expression
import SqlCompiler.Proofs.Strength.Declared
