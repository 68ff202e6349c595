import Scriptc.Code.Operand

/-!
# Lines of generated C

The body of a generated function, line by line. Lines that pass control on name the block they go
to.
-/

namespace Scriptc

inductive Line where
  | label (block : BlockId)
  | code (text : String)
  /-- Evaluates a condition for its effects only. -/
  | discard (condition : String)
  | ret (value : String)
  | throw (value : String)
  | goto (block : BlockId)
  /-- Goes to a block if a condition has the wanted truth value. -/
  | gotoIf (condition : String) (wanted : Bool) (block : BlockId)
  | choose (value : String)
  | choice (key : Int) (block : BlockId)
  | otherwise (block : BlockId)
  | endChoose
deriving DecidableEq, Repr

namespace Line

def blockName (block : BlockId) : String :=
  "B" ++ toString block

def text : Line → String
  | label block => blockName block ++ ":\n"
  | code text => "  " ++ text ++ "\n"
  | discard condition => "  (void)(" ++ condition ++ ");\n"
  | ret value => "  return js_leave_frame(&frame, " ++ value ++ ");\n"
  | throw value => "  js_throw(&frame, " ++ value ++ ");\n"
  | goto block => "  goto " ++ blockName block ++ ";\n"
  | gotoIf condition wanted block =>
    let test := if wanted then condition else "!(" ++ condition ++ ")"
    "  if (" ++ test ++ ") goto " ++ blockName block ++ ";\n"
  | choose value => "  switch (js_switch_key(&frame, " ++ value ++ ")) \x7b\n"
  | choice key block => "    case " ++ toString key ++ ": goto " ++ blockName block ++ ";\n"
  | otherwise block => "    default: goto " ++ blockName block ++ ";\n"
  | endChoose => "  \x7d\n"

end Line
end Scriptc
