import DeclRecovery.Aggregate.Elision
import DeclRecovery.Aggregate.Kind
import DeclRecovery.Delegation.Chain
import DeclRecovery.Delegation.Order
import DeclRecovery.Diagnostic
import DeclRecovery.Expr.Basic
import DeclRecovery.Expr.BottomUp
import DeclRecovery.Expr.Footprint
import DeclRecovery.Expr.Likeness
import DeclRecovery.Expr.Printer
import DeclRecovery.Expr.Shape
import DeclRecovery.Hoist.Candidate
import DeclRecovery.Hoist.Extraction
import DeclRecovery.Hoist.Plan
import DeclRecovery.Hoist.Settle
import DeclRecovery.Log
import DeclRecovery.Options.Basic
import DeclRecovery.Options.Reader
import DeclRecovery.Parameter
import DeclRecovery.Position.Basic
import DeclRecovery.Position.Map
import DeclRecovery.Position.Set
import DeclRecovery.Primary.Decision
import DeclRecovery.Proofs.Delegation
import DeclRecovery.Proofs.Delegation.Chains
import DeclRecovery.Proofs.Delegation.Exploration
import DeclRecovery.Proofs.Delegation.Loops
import DeclRecovery.Proofs.Delegation.Walks
import DeclRecovery.Proofs.Footprints
import DeclRecovery.Proofs.Hoist.Ambiguities
import DeclRecovery.Proofs.Hoist.Candidates
import DeclRecovery.Proofs.Hoist.Depth
import DeclRecovery.Proofs.Hoist.Greatest
import DeclRecovery.Proofs.Hoist.Hoisting
import DeclRecovery.Proofs.Hoist.Leftover
import DeclRecovery.Proofs.Hoist.Nested
import DeclRecovery.Proofs.Hoist.Order
import DeclRecovery.Proofs.Hoist.Overruns
import DeclRecovery.Proofs.Hoist.Permuted
import DeclRecovery.Proofs.Hoist.Plans
import DeclRecovery.Proofs.Hoist.Reorder
import DeclRecovery.Proofs.Hoist.Settled
import DeclRecovery.Proofs.Initializers
import DeclRecovery.Proofs.Likeness
import DeclRecovery.Proofs.Lowering
import DeclRecovery.Proofs.Mentions
import DeclRecovery.Proofs.NormalForm
import DeclRecovery.Proofs.Positions
import DeclRecovery.Proofs.Primary
import DeclRecovery.Proofs.Printing.Literals
import DeclRecovery.Proofs.Printing.Names
import DeclRecovery.Proofs.Printing.Reading
import DeclRecovery.Proofs.Printing.Spines
import DeclRecovery.Proofs.Printing.Unambiguous
import DeclRecovery.Proofs.Reconstruction.Addressed
import DeclRecovery.Proofs.Reconstruction.Again
import DeclRecovery.Proofs.Reconstruction.Bare
import DeclRecovery.Proofs.Reconstruction.Captured
import DeclRecovery.Proofs.Reconstruction.DefaultConstructor
import DeclRecovery.Proofs.Reconstruction.Elision
import DeclRecovery.Proofs.Reconstruction.Fallback
import DeclRecovery.Proofs.Reconstruction.Fixed
import DeclRecovery.Proofs.Reconstruction.Idempotence
import DeclRecovery.Proofs.Reconstruction.Recovery
import DeclRecovery.Proofs.Reconstruction.Result
import DeclRecovery.Proofs.Reconstruction.Scope
import DeclRecovery.Proofs.Reconstruction.Stores
import DeclRecovery.Proofs.Reconstruction.Structure
import DeclRecovery.Proofs.Reconstruction.Synthesis
import DeclRecovery.Proofs.Reconstruction.Total
import DeclRecovery.Proofs.Results
import DeclRecovery.Proofs.Rewriting
import DeclRecovery.Proofs.Roles
import DeclRecovery.Proofs.Semantics.Commuting
import DeclRecovery.Proofs.Semantics.Courses
import DeclRecovery.Proofs.Semantics.Effects
import DeclRecovery.Proofs.Semantics.Eval
import DeclRecovery.Proofs.Semantics.Exec
import DeclRecovery.Proofs.Semantics.HandOvers
import DeclRecovery.Proofs.Semantics.Hoisting
import DeclRecovery.Proofs.Semantics.Meaning
import DeclRecovery.Proofs.Semantics.Preservation
import DeclRecovery.Proofs.Semantics.Shapes
import DeclRecovery.Proofs.Semantics.Soundness
import DeclRecovery.Proofs.Shaped
import DeclRecovery.Proofs.Shapes
import DeclRecovery.Proofs.SideEffects
import DeclRecovery.Proofs.Subtrees
import DeclRecovery.Reconstruction.Draft
import DeclRecovery.Reconstruction.Run
import DeclRecovery.Reconstruction.Stage
import DeclRecovery.Stmt.Basic
import DeclRecovery.Stmt.Printer
import DeclRecovery.Stmt.Shape
import DeclRecovery.Text.GraphemeExtend
import DeclRecovery.Text.Quoted
import DeclRecovery.Text.Ranges
import DeclRecovery.Text.Unprintable
import DeclRecovery.Toml.Document
import DeclRecovery.Toml.Scalar
import DeclRecovery.Toml.Text
import DeclRecovery.Toml.Value
import DeclRecovery.TypeDecl.Basic
import DeclRecovery.TypeDecl.Forms
import DeclRecovery.TypeDecl.Printer
