import MiniLisp.Number.Text
import MiniLisp.Token.Reader
import MiniLisp.Expr.Code
import MiniLisp.Error.Basic
import MiniLisp.Builtin.Basic
import MiniLisp.Program.Parse
import MiniLisp.Value.Inspect
import MiniLisp.Store.Show
import MiniLisp.Machine
import MiniLisp.Arguments.Mapper
import MiniLisp.Eval
import MiniLisp.Interpreter
import MiniLisp.Program.File
import MiniLisp.Settings
import MiniLisp.CommandLine.Run
import MiniLisp.Main
import MiniLisp.Proofs.Source.Place
import MiniLisp.Proofs.Token.Lexing
import MiniLisp.Proofs.Number.Nearest
import MiniLisp.Proofs.Program.Derive
import MiniLisp.Proofs.Number.ReadBack
import MiniLisp.Proofs.Expr.WellFormed
import MiniLisp.Proofs.Expr.Printing
import MiniLisp.Proofs.Eval.FrameLaw
import MiniLisp.Proofs.Interpreter.Reached
import MiniLisp.Proofs.Interpreter.Twice
import MiniLisp.Proofs.Program.Incomplete
import MiniLisp.Proofs.Interpreter.Pieces
import MiniLisp.Proofs.Eval.Activation
import MiniLisp.Proofs.Eval.Lockstep
import MiniLisp.Proofs.Store.Match
import MiniLisp.Proofs.Value.Functions
import MiniLisp.Proofs.Eval.Depth
import MiniLisp.Proofs.Eval.Correspondence
import MiniLisp.Proofs.Store.Rooted
import MiniLisp.Proofs.Eval.Sound
import MiniLisp.Proofs.Program.Lower
import MiniLisp.Proofs.Arguments.Steps
import MiniLisp.Proofs.Arguments.Leftmost
import MiniLisp.Proofs.Arguments.Lazy
import MiniLisp.Proofs.Expr.Inside
import MiniLisp.Proofs.Interpreter.Positions
import MiniLisp.Proofs.Text.Line
import MiniLisp.Proofs.Value.Strings
import MiniLisp.Proofs.Eval.Invariant
import MiniLisp.Proofs.Store.Bound
import MiniLisp.Proofs.Eval.Beside
import MiniLisp.Proofs.Expr.Strings
import MiniLisp.Proofs.Value.Line
import MiniLisp.Proofs.Eval.Calls
import MiniLisp.Proofs.Eval.OneLine
import MiniLisp.Proofs.Interpreter.Lines
import MiniLisp.Proofs.Number.Shown
import MiniLisp.Proofs.Value.Unambiguous
import MiniLisp.Proofs.Expr.Nesting
import MiniLisp.Proofs.Program.Levels
import MiniLisp.Proofs.Eval.Lexical
import MiniLisp.Proofs.Interpreter.Lexical
import MiniLisp.Proofs.Interpreter.Apart
import MiniLisp.Proofs.Expr.Names
import MiniLisp.Proofs.Store.Added
import MiniLisp.Proofs.Eval.Unmentioned
import MiniLisp.Proofs.Interpreter.Unmentioned
import MiniLisp.Proofs.Eval.Starts
import MiniLisp.Proofs.Eval.Stack
import MiniLisp.Proofs.Eval.Plain
import MiniLisp.Proofs.Interpreter.WithoutFn
import MiniLisp.Proofs.Program.Limit
import MiniLisp.Proofs.Arguments.Cut
import MiniLisp.Proofs.Interpreter.Limit
import MiniLisp.Proofs.CommandLine.Course
import MiniLisp.Proofs.Program.Forbidden
import MiniLisp.Proofs.Token.Cursor
import MiniLisp.Proofs.Token.Layout
import MiniLisp.Proofs.Program.Twin
import MiniLisp.Proofs.Program.Layout
import MiniLisp.Proofs.Program.Places
import MiniLisp.Proofs.Builtin.Pass
import MiniLisp.Proofs.Number.Whole
import MiniLisp.Proofs.Builtin.Maps
import MiniLisp.Proofs.Store.History
import MiniLisp.Proofs.Expr.Edited
import MiniLisp.Proofs.Eval.Unreached
import MiniLisp.Proofs.Interpreter.Unreached
import MiniLisp.Proofs.Number.Floating
import MiniLisp.Proofs.Program.Numeral
import MiniLisp.Proofs.Source.Advances
import MiniLisp.Proofs.Value.Proper
import MiniLisp.Proofs.Value.Same
import MiniLisp.Proofs.Builtin.Parts
import MiniLisp.Proofs.Eval.Identity
import MiniLisp.Proofs.Interpreter.Equality
