import LinOpt.Engine.Native
import LinOpt.Engine.Reference
import LinOpt.Proofs.Bridge.Decoded
import LinOpt.Proofs.Bridge.Numeric
import LinOpt.Proofs.Bridge.Registry
import LinOpt.Proofs.Constraint.Cancelled
import LinOpt.Proofs.Engine.Flags
import LinOpt.Proofs.Engine.Unmentioned
import LinOpt.Proofs.LpText.Accepted
import LinOpt.Proofs.LpText.Denoted
import LinOpt.Proofs.LpText.NameLists
import LinOpt.Proofs.LpText.Reconstructed
import LinOpt.Proofs.LpText.Rewritten
import LinOpt.Proofs.LpText.WrittenNames
import LinOpt.Proofs.Model.Building
import LinOpt.Proofs.Model.Feasibility
import LinOpt.Proofs.Model.Independence
import LinOpt.Proofs.Model.Ownership
import LinOpt.Proofs.Model.Unmarked
import LinOpt.Proofs.Model.Validation
import LinOpt.Proofs.Program.Bounds
import LinOpt.Proofs.Program.GlpkRequest
import LinOpt.Proofs.Program.JslpRequest
import LinOpt.Proofs.Program.Marginals
import LinOpt.Proofs.Schema.Requests
import LinOpt.Proofs.Value.Plain
import LinOpt.Proofs.Variable.Index
import LinOpt.Proofs.Variable.Naming
