import Scriptc.Emission.Literal

/-!
# String tables

The string constants of a unit packed into one buffer. Longer strings are placed first, and each
takes the first place in the buffer that already holds it.
-/

namespace Scriptc

structure StringTable where
  buffer : List UInt8
  entries : Array (Nat × Nat)

namespace StringTable

def placementOrder (strings : List (List UInt8)) : List (List UInt8 × Nat) :=
  strings.zipIdx.mergeSort fun a b => decide (b.1.length ≤ a.1.length)

variable (table : StringTable)

def place (bytes : List UInt8) (id : Nat) : StringTable :=
  match Text.find? bytes table.buffer with
  | some offset => { table with entries := table.entries.setIfInBounds id (offset, bytes.length) }
  | none =>
    { buffer := table.buffer ++ bytes,
      entries := table.entries.setIfInBounds id (table.buffer.length, bytes.length) }

def ofStrings (strings : List String) : StringTable :=
  let contents := strings.map Text.bytes
  (placementOrder contents).foldl (fun table (bytes, id) => table.place bytes id)
    { buffer := [], entries := Array.replicate contents.length (0, 0) }

def lineWidth : Nat := 64

def chunks : Nat → List UInt8 → List (List UInt8)
  | 0, _ => []
  | _, [] => []
  | count + 1, bytes => bytes.take lineWidth :: chunks count (bytes.drop lineWidth)

def bufferLines : List (List UInt8) :=
  if table.buffer.isEmpty then [[]] else chunks table.buffer.length table.buffer

def rows : List (Nat × Nat) :=
  if table.entries.isEmpty then [(0, 0)] else table.entries.toList

def emit : String :=
  "static const char s_strbuf[" ++ toString (table.buffer.length + 1) ++ "] =\n" ++
    String.intercalate "\n" (table.bufferLines.map fun line => "  " ++ Literal.ofBytes line) ++
    ";\n" ++
    "static const JSStrConst s_strconst[" ++ toString table.rows.length ++ "] = \x7b\n" ++
    String.join (table.rows.map fun (offset, length) =>
      "  \x7b" ++ toString offset ++ ", " ++ toString length ++ "\x7d,\n") ++
    "\x7d;\n"

end StringTable
end Scriptc
