import Scriptc.Code.Routine

/-!
# Order of blocks

The order in which the blocks of a finished routine are written: a depth-first walk from the entry
that follows the last successor of a block first, with the exit block at the end.
-/

namespace Scriptc
namespace Routine

def followed (r : Routine) (block : BlockId) : List Label :=
  match r.blocks[block]? with
  | some b => b.successors.reverse
  | none => []

/-- Follows pending labels, the first one first. `visited` holds the blocks met so far, the latest
one first. One step takes one label, and the successors of a block become pending only once, so as
many steps as there are successors of all blocks are enough. -/
def walk (r : Routine) (exit : BlockId) : Nat → List Label → List BlockId →
    Except Fault (List BlockId)
  | _, [], visited => .ok visited
  | 0, _ :: _, _ => .error .outOfRange
  | steps + 1, label :: pending, visited => do
    let block ← r.target label
    if block = exit ∨ visited.contains block then walk r exit steps pending visited
    else walk r exit steps (r.followed block ++ pending) (block :: visited)

def edgeCount (r : Routine) : Nat :=
  (r.blocks.toList.map (·.successors.length)).foldr (· + ·) 0

def blockOrder (r : Routine) : Except Fault (List BlockId) := do
  let exit ← r.exitBlock
  let visited ← r.walk exit r.edgeCount (r.followed entry) [entry]
  .ok (visited.reverse ++ [exit])

end Routine
end Scriptc
