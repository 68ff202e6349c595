import Scriptc.Emission.Routine
import Scriptc.Emission.StringTable

/-!
# C units

A unit as C text: headers, the string table, the declarations and definitions of all routines, and
an entry point.
-/

namespace Scriptc

/-- What the text of a unit depends on besides its routines. -/
structure UnitOptions where
  moduleName : String
  runtimeHeader : String
  /-- Whether the entry point is a main function rather than an initializer named after the
  module. -/
  emitMain : Bool

namespace CodeUnit

def headerLine (text : String) : String :=
  if text.toList.getLast? = some '\n' then text else text ++ "\n"

def definitions (u : CodeUnit) : List Routine → Except Fault String
  | [] => .ok ""
  | r :: rest => do
    let text ← r.emit u
    return "\n" ++ text ++ (← u.definitions rest)

def entryPoint (options : UnitOptions) (stringCount : Nat) (top : String) : String :=
  let start := "  js_init_strings(s_strbuf, s_strconst, " ++ toString stringCount ++ ");\n"
  if options.emitMain then
    "int main (int argc, char ** argv)\n\x7b\n" ++ start ++
      "  return js_main(argc, argv, " ++ top ++ ");\n\x7d\n"
  else
    "TaggedValue jsmod_" ++ Literal.identifierPart options.moduleName ++
      " (StackFrame * caller, Env * env)\n\x7b\n" ++ start ++
      "  TaggedValue thisArg = JS_UNDEFINED_VALUE;\n" ++
      "  return " ++ top ++ "(caller, env, 1, &thisArg);\n\x7d\n"

def emit (u : CodeUnit) (options : UnitOptions) : Except Fault String := do
  let table := StringTable.ofStrings u.strings.toList
  let routines := u.routines.toList
  let definitions ← u.definitions routines
  let top ← u.routine 0
  return "/* Generated from " ++ Literal.comment options.moduleName ++ ". */\n" ++
    "#include " ++ Literal.ofString options.runtimeHeader ++ "\n" ++
    String.join (u.headers.toList.map headerLine) ++ "\n" ++
    table.emit ++ "\n" ++
    String.join (routines.map Routine.prototype) ++
    definitions ++ "\n" ++
    entryPoint options table.entries.size top.functionName

end CodeUnit
end Scriptc
