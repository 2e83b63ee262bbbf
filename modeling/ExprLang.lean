import ExprLang.Main
import ExprLang.Proofs.Command
import ExprLang.Proofs.Program.Coherence
import ExprLang.Proofs.Program.Diagnosis
import ExprLang.Proofs.Program.Exhaustion
import ExprLang.Proofs.Program.FixedPoint
import ExprLang.Proofs.Program.Layout
import ExprLang.Proofs.Program.Nesting
import ExprLang.Proofs.Program.Register
import ExprLang.Proofs.Program.Separation
import ExprLang.Proofs.Program.Sharing
import ExprLang.Proofs.Program.Stratified
import ExprLang.Proofs.Program.Trace
import ExprLang.Proofs.Program.Visible
import ExprLang.Proofs.Shell.Color
import ExprLang.Proofs.Shell.Control
import ExprLang.Proofs.Shell.Listing
import ExprLang.Proofs.Shell.Respacing
import ExprLang.Proofs.Shell.Session
import ExprLang.Proofs.Shell.Truncation
import ExprLang.Proofs.Token.Cursor
