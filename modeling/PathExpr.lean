import PathExpr.Main
import PathExpr.Session.Request
import PathExpr.Proofs.Transparency
import PathExpr.Proofs.ComputedName
import PathExpr.Proofs.Matches
import PathExpr.Proofs.Rendering
import PathExpr.Proofs.Grouping
import PathExpr.Proofs.Likeness
import PathExpr.Proofs.Composition
import PathExpr.Proofs.Acceptance
import PathExpr.Proofs.Return
import PathExpr.Proofs.PlainWrite
import PathExpr.Proofs.Positions
import PathExpr.Proofs.Broadcast
import PathExpr.Proofs.SingleTarget
import PathExpr.Proofs.Forcing
import PathExpr.Proofs.Targets
import PathExpr.Proofs.Persistence
import PathExpr.Proofs.Rereading
import PathExpr.Proofs.Elementwise
import PathExpr.Proofs.Patterns
import PathExpr.Proofs.Calls
import PathExpr.Proofs.Bracketing
import PathExpr.Proofs.Rebinding
import PathExpr.Proofs.Reordering
import PathExpr.Proofs.Recency
import PathExpr.Proofs.EnclosedNames
import PathExpr.Proofs.Closers
import PathExpr.Proofs.Faults
import PathExpr.Proofs.ElementNames
