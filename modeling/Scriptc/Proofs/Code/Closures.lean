import Mathlib.Data.List.Perm.Basic
import Scriptc.Proofs.Results
import Scriptc.Storage.Environment

/-!
# Closures of a unit

The routines that the code of a unit creates closures of. While a unit is built, some of its
routines have no closure yet, and no routine has two.
-/

namespace Scriptc

def Instruction.created? : Instruction → Option RoutineId
  | .closure _ routine => some routine
  | _ => none

def Block.created (b : Block) : List RoutineId := b.body.toList.filterMap Instruction.created?

/-- A list in which one element was replaced gives as much as before, and what the new element gives
besides. -/
lemma flatMap_modify {α β : Type} {g : α → List β} {f : α → α} {added : List β} {xs : List α}
    {i : Nat} {a : α} (found : xs[i]? = some a) (adds : (g (f a)).Perm (added ++ g a)) :
    ((xs.modify i f).flatMap g).Perm (added ++ xs.flatMap g) := by
  induction xs generalizing i with
  | nil => cases found
  | cons x rest ih =>
    cases i with
    | zero =>
      cases found
      simpa using adds.append_right (rest.flatMap g)
    | succ i =>
      have others := (ih found).append_left (g x)
      exact others.trans (List.perm_append_comm_assoc _ _ _)

namespace Routine

/-- The routines that the code of a routine creates closures of. -/
def created (r : Routine) : List RoutineId := r.blocks.toList.flatMap Block.created

variable (r : Routine) (k : BlockId)

lemma created_push {i : Instruction} (inside : k < r.blocks.size) :
    (created { r with blocks := r.blocks.modify k fun b => { b with body := b.body.push i } }).Perm
      (i.created?.toList ++ r.created) := by
  rw [created, Array.toList_modify]
  refine flatMap_modify (Array.getElem?_toList ▸ Array.getElem?_eq_getElem inside) ?_
  simp only [Block.created, Array.toList_push, List.filterMap_append, List.filterMap_cons,
    List.filterMap_nil]
  cases i.created? with
  | none => simp
  | some routine => exact List.perm_append_comm

lemma created_modify {change : Block → Block} (same : ∀ b, (change b).created = b.created) :
    created { r with blocks := r.blocks.modify k change } = r.created := by
  rw [created, Array.toList_modify, created]
  generalize r.blocks.toList = blocks
  induction blocks generalizing k with
  | nil => simp
  | cons b rest ih => cases k <;> simp [same, ih]

lemma created_openBlock :
    created { r with blocks := r.blocks.push Block.empty, current := r.blocks.size } =
      r.created := by
  simp [created, Block.created, Block.empty]

lemma created_layOut : r.layOut.created = r.created := by
  refine r.created_modify entry fun b => ?_
  have copies (index : Nat) (vars : List Variable) :
      (paramCopies r.id index vars).filterMap Instruction.created? = [] := by
    induction vars generalizing index with
    | nil => rfl
    | cons v rest ih =>
      simp only [paramCopies]
      split
      · split
        · exact (List.filterMap_cons_none rfl).trans (ih _)
        · exact ih _
      · exact ih _
  simp [Block.created, copies]

lemma created_mapCallees (change : Callee → Callee) :
    (r.mapCallees change).created = r.created := by
  have same (i : Instruction) : (i.mapCallee change).created? = i.created? := by cases i <;> rfl
  have block (b : Block) :
      Block.created { b with body := b.body.map (Instruction.mapCallee change) } = b.created := by
    simp [Block.created, List.filterMap_map, same]
  simp [created, mapCallees, List.flatMap_map, block]

end Routine

namespace CodeUnit

variable {outer : RoutineId}

/-- The routines that the code of a unit creates closures of. -/
def created (u : CodeUnit) : List RoutineId := u.routines.toList.flatMap Routine.created

/-- Whether every routine has exactly one closure, but for some that have none. -/
def Lacks (u : CodeUnit) (bare : List RoutineId) : Prop :=
  (bare ++ u.created).Perm (List.range u.routines.size)

variable {u : CodeUnit} {bare added : List RoutineId} {r r' : Routine}

lemma newRoutine_run (found : u.routines[outer]? = some r) (name : Option String) (strict : Bool) :
    newRoutine (some outer) name strict u = .ok u.routines.size { u with
      routines := (u.routines.setIfInBounds outer
        { r with closures := r.closures.push u.routines.size }).push
          (.new u.routines.size (some outer) (r.level + 1) name strict) } := by
  rw [newRoutine, Runs.get_bind]
  simp [bind, EStateM.bind, inRoutine, found, modify, Runs.modifyGet_run, EStateM.run, pure,
    EStateM.pure]

lemma Lacks.set {id : RoutineId} (lacks : u.Lacks (added ++ bare))
    (found : u.routines[id]? = some r) (adds : r'.created.Perm (added ++ r.created)) :
    Lacks { u with routines := u.routines.setIfInBounds id r' } bare := by
  have created : (CodeUnit.created { u with routines := u.routines.setIfInBounds id r' }).Perm
      (added ++ u.created) := by
    rw [CodeUnit.created, Array.toList_setIfInBounds, List.set_eq_modify]
    exact flatMap_modify (Array.getElem?_toList ▸ found) adds
  rw [Lacks, Array.size_setIfInBounds]
  refine ((created.append_left bare).trans ?_).trans lacks
  rw [List.append_assoc]
  exact List.perm_append_comm_assoc _ _ _

lemma Lacks.push (lacks : u.Lacks bare) (empty : r.created = []) :
    Lacks { u with routines := u.routines.push r } (u.routines.size :: bare) := by
  have created : CodeUnit.created { u with routines := u.routines.push r } = u.created := by
    simp [CodeUnit.created, empty]
  rw [Lacks, created, Array.size_push, List.range_succ]
  exact (lacks.cons _).trans (List.perm_append_singleton _ _).symm

lemma Lacks.nest {inner : Routine} (lacks : u.Lacks bare) (found : u.routines[outer]? = some r)
    (same : r'.created = r.created) (empty : inner.created = []) :
    Lacks { u with routines := (u.routines.setIfInBounds outer r').push inner }
      (u.routines.size :: bare) := by
  have around : Lacks { u with routines := u.routines.setIfInBounds outer r' } bare :=
    Lacks.set (show u.Lacks ([] ++ bare) from lacks) found (.of_eq same)
  have nested := around.push empty
  rwa [Array.size_setIfInBounds] at nested

end CodeUnit
end Scriptc
