import ExprLang.CommandLine.Run
import ExprLang.Main
import ExprLang.Proofs.Completion
import ExprLang.Proofs.Frame
import ExprLang.Proofs.Placing
import ExprLang.Proofs.Reporting
import ExprLang.Proofs.RoundTrip
import ExprLang.Proofs.Tiling
import ExprLang.Proofs.Tower
import ExprLang.Proofs.Writing
import ExprLang.Token.Seeker
import ExprLang.Tree.Outline
import ExprLang.Proofs.Supply
import ExprLang.Proofs.Braces
import ExprLang.Proofs.Brackets
import ExprLang.Proofs.Caret
import ExprLang.Proofs.Lines
import ExprLang.Proofs.Results
import ExprLang.Proofs.Recovery
import ExprLang.Proofs.Unclosed
