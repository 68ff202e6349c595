import Mathlib.Tactic.Lemma

/-!
# Operands in either order

Sums, products and comparisons for equality of doubles are the same in either order.
-/

namespace Scriptc.Double

open Float.Model
open UnpackedFloat (Sign add mul)

protected lemma mul_comm (x y : Float) : x * y = y * x := by
  have signs (s t : Sign) : s * t = t * s := by cases s <;> cases t <;> rfl
  have products (a b : UnpackedFloat) : mul .binary64 a b = mul .binary64 b a := by
    cases a <;> cases b <;> dsimp only [UnpackedFloat.mul] <;>
      simp only [signs, Nat.mul_comm, Int.add_comm]
  exact congrArg (fun a => Float.ofModel (pack a)) (products x.toModel.unpack y.toModel.unpack)

protected lemma add_comm (x y : Float) : x + y = y + x := by
  have sums (a b : UnpackedFloat) : add .binary64 a b = add .binary64 b a := by
    cases a with
    | notANumber => cases b <;> rfl
    | infinity s | zero s => cases b <;> cases s <;> first | rfl | (rename_i t; cases t <;> rfl)
    | finite s m e pos =>
      cases b with
      | notANumber | infinity | zero => rfl
      | finite t n f positive' =>
        dsimp only [UnpackedFloat.add]
        rw [Int.min_comm e f, Int.add_comm]
  exact congrArg (fun a => Float.ofModel (pack a)) (sums x.toModel.unpack y.toModel.unpack)

protected lemma beq_comm (x y : Float) : (x == y) = (y == x) := by
  have swapped (s t : Sign) : compare s t = (compare t s).swap := by cases s <;> cases t <;> rfl
  have orders (a b : UnpackedFloat) : a.compare b = (b.compare a).map Ordering.swap := by
    cases a with
    | notANumber => cases b <;> rfl
    | infinity s =>
      cases b with
      | notANumber => cases s <;> rfl
      | infinity t => exact congrArg some (swapped s t)
      | zero t => cases s <;> rfl
      | finite t n f pos => cases s <;> cases t <;> rfl
    | zero s =>
      cases b with
      | notANumber => rfl
      | infinity t => cases t <;> rfl
      | zero t => rfl
      | finite t n f pos => cases t <;> rfl
    | finite s m e pos =>
      cases b with
      | notANumber => cases s <;> rfl
      | infinity t => cases s <;> cases t <;> rfl
      | zero t => cases s <;> rfl
      | finite t n f positive' =>
        have order : (compare e f).then (compare m n) =
            ((compare f e).then (compare n m)).swap := by
          rw [Ordering.swap_then, ← Std.OrientedCmp.eq_swap, ← Std.OrientedCmp.eq_swap]
        cases s <;> cases t <;> first | rfl | exact congrArg some (by rw [order])
  have equal (a b : UnpackedFloat) : a.beq b = b.beq a := by
    delta UnpackedFloat.beq
    rw [orders a b]
    cases b.compare a with
    | none => rfl
    | some order => cases order <;> rfl
  exact equal x.toModel.unpack y.toModel.unpack

end Scriptc.Double
