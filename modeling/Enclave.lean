import Enclave.Host
import Enclave.Main
import Enclave.Proofs.Eval.Declaring
import Enclave.Proofs.Eval.Editing
import Enclave.Proofs.Eval.Guarding
import Enclave.Proofs.Eval.Hoisting
import Enclave.Proofs.Eval.Keys
import Enclave.Proofs.Host.Isolation
import Enclave.Proofs.Session.Construction
import Enclave.Proofs.Session.Declarations
import Enclave.Proofs.Session.Forgery
import Enclave.Proofs.Session.Guarantees
import Enclave.Proofs.Session.Lookups
import Enclave.Proofs.Session.Noninterference
import Enclave.Proofs.Session.NumericKeys
import Enclave.Proofs.Session.Receivers
import Enclave.Proofs.Session.Reclamation
import Enclave.Proofs.Session.Termination
import Enclave.Proofs.Source.Lines
import Enclave.Proofs.Spelling
import Enclave.Proofs.Store.Generations
import Enclave.Proofs.Store.Nearest
import Enclave.Proofs.Store.Refill
import Enclave.Proofs.Syntax.Advancing
import Enclave.Proofs.Syntax.Alike
import Enclave.Proofs.Syntax.Bindings
import Enclave.Proofs.Syntax.Complaints
import Enclave.Proofs.Syntax.Diagnostics
import Enclave.Proofs.Syntax.Layout
import Enclave.Proofs.Syntax.Lexemes
import Enclave.Proofs.Syntax.Malformed
import Enclave.Proofs.Syntax.Marking
import Enclave.Proofs.Syntax.Placeless
import Enclave.Proofs.Syntax.Progress
import Enclave.Proofs.Syntax.Recovery
import Enclave.Proofs.Syntax.Scopes
import Enclave.Proofs.Syntax.Shape
import Enclave.Proofs.Syntax.SourceText
import Enclave.Proofs.Syntax.Spans
import Enclave.Proofs.Syntax.Tiling
import Enclave.Proofs.Syntax.Unplaced
import Enclave.Proofs.Text.Overlong
import Enclave.Proofs.Text.Texts
