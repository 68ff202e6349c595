import Scriptc.Main
import Scriptc.Proofs.Code.Template
import Scriptc.Proofs.Compilation.Captures
import Scriptc.Proofs.Compilation.Names
import Scriptc.Proofs.Constant.Notation
import Scriptc.Proofs.Constant.Words
import Scriptc.Proofs.Diagnostic.Snippet
import Scriptc.Proofs.Emission.Comment
import Scriptc.Proofs.Emission.Flow
import Scriptc.Proofs.Emission.Literal
import Scriptc.Proofs.Lowering.Expressions
import Scriptc.Proofs.Lowering.Switch
import Scriptc.Proofs.Path.Normal
import Scriptc.Proofs.Semantics.Operators
import Scriptc.Proofs.Variation.Positions
import Scriptc.Proofs.Variation.Strictness
import Scriptc.Syntax.Construct
