import LinOpt.Proofs.Program.Glpk
import LinOpt.Proofs.Program.Jslp

namespace LinOpt

namespace Glpk

open LinearProgram.Builder

end Glpk

namespace Jslp

open LinearProgram.Builder (byName_known)

namespace Draft

end Draft

end Jslp

namespace LinearProgram

namespace Builder

end Builder

open Builder

end LinearProgram

end LinOpt
