import Ecma.Number.Arithmetic
import Ecma.Number.Numeral
import Ecma.Number.Text
import Ecma.Number.Word
import Ecma.Text.Quoted
import Ecma.Text.Units
import Ecma.Token.Stream
import Ecma.Literal.NumericLiteral
import Ecma.Literal.StringLiteral
import Ecma.Ast.Scope
import Ecma.Grammar.Statement
import Ecma.Value.Conversion
import Ecma.Object.Heap
import Ecma.Scope.Environment
import Ecma.Eval.State
import Ecma.Eval.Operator
import Ecma.Eval.Reference
import Ecma.Eval.Function
import Ecma.Eval.Statement
import Ecma.Builtin.Run
import Ecma.Eval.Script
import Ecma.Realm
import Ecma.Ast.Outline
import Ecma.Session
import Ecma.Main
import Ecma.Proofs.Object.History
import Ecma.Proofs.Object.Acyclic
import Ecma.Proofs.Object.Definition
import Ecma.Proofs.Object.Assignment
import Ecma.Proofs.Run.Site
import Ecma.Proofs.Scope.Global
import Ecma.Proofs.Scope.Iteration
import Ecma.Proofs.Scope.Lifetime
import Ecma.Proofs.Syntax.Declared
import Ecma.Proofs.Syntax.Insensitive
import Ecma.Proofs.Syntax.LoopHead
import Ecma.Proofs.Syntax.RoundTrip
import Ecma.Proofs.Syntax.Omission
import Ecma.Proofs.Syntax.StrictStrings
import Ecma.Proofs.Token.LineBreak
import Ecma.Proofs.Literal.Octal
import Ecma.Proofs.Literal.Quotation
import Ecma.Proofs.Syntax.Insertion
import Ecma.Proofs.Syntax.Lockstep
import Ecma.Proofs.Expression.Access
import Ecma.Proofs.Expression.Shorthand
import Ecma.Proofs.Object.Description
import Ecma.Proofs.Syntax.Semicolon
import Ecma.Proofs.Value.Equality
import Ecma.Proofs.Number.Order
import Ecma.Proofs.Number.Accumulation
import Ecma.Proofs.Syntax.FunctionCopy
import Ecma.Proofs.Number.Reading
import Ecma.Proofs.Scope.Call
import Ecma.Proofs.Expression.Naming
import Ecma.Proofs.Run.Instance
import Ecma.Proofs.Token.Position
import Ecma.Proofs.Syntax.Ending
import Ecma.Proofs.Object.IndexKey
import Ecma.Proofs.Number.Radix
import Ecma.Proofs.Number.Word
import Ecma.Proofs.Parser.Context
