import Mathlib

/-!
# Remainders of polynomials by long division and by Horner's rule

A polynomial is the list of its coefficients, highest degree first. The divisor is monic of
degree `n`, `X ^ n + g₁ X ^ (n - 1) + ... + gₙ`, and is given by the list `g` of its lower
coefficients. `polyRem` is long division: while the degree is `n` or more, subtract the leading
coefficient times the divisor. The remainder is what is left, padded to `n` coefficients.

Horner's rule keeps only the `n` coefficients of the remainder of what it has read so far.
Multiplying by `X` moves the top coefficient to degree `n`, where the divisor takes it off again
(`hornerStep`). `polyRem_append` says the two agree: a remainder followed by more coefficients
divides as Horner's rule runs over them. Leading zero coefficients change nothing
(`polyRem_replicate_append`). So Horner's rule started from `0, ..., 0, a` computes the remainder
of `a` followed by its input (`polyRem_cons_eq_foldl`).

The coefficients need only a zero, a subtraction and a multiplication, with `0 * a = 0` and
`a - 0 = a`.
-/

namespace UnitedBitcoin.Library

universe u

variable {F : Type u} [Sub F] [Mul F]

/-- `rest` with `a` times the coefficients `g` subtracted from its first coefficients. -/
def subScaled (a : F) : List F → List F → List F
  | g :: gs, r :: rest => (r - a * g) :: subScaled a gs rest
  | _, rest => rest

@[simp]
theorem length_subScaled (a : F) : ∀ g rest : List F, (subScaled a g rest).length = rest.length
  | _ :: gs, _ :: rest => by simp only [subScaled, List.length_cons, length_subScaled a gs rest]
  | [], _ => rfl
  | _ :: _, [] => rfl

/-- Only the first `g.length` coefficients are touched. -/
theorem subScaled_append (a : F) :
    ∀ {g rest : List F}, g.length ≤ rest.length → ∀ more : List F,
      subScaled a g (rest ++ more) = subScaled a g rest ++ more
  | [], _, _, _ => rfl
  | _ :: gs, _ :: rest, h, more => by
    simp only [List.cons_append, subScaled]
    rw [subScaled_append a (Nat.le_of_succ_le_succ h) more]
  | _ :: _, [], h, _ => absurd h (by simp)

/-- One step of Horner's rule on a remainder `c` of `n` coefficients: shift in `v`, then
subtract the coefficient pushed to degree `n` times the divisor. -/
def hornerStep (g : List F) : List F → F → List F
  | [], _ => []
  | c₀ :: c, v => subScaled c₀ g (c ++ [v])

theorem length_hornerStep (g c : List F) (v : F) (hc : c.length = g.length) :
    (hornerStep g c v).length = g.length := by
  cases c with
  | nil => exact hc
  | cons c₀ c => simpa [hornerStep] using hc

variable [Zero F]

/-- The remainder of `v` by the monic divisor with lower coefficients `g`, by long division. -/
def polyRem (g : List F) (v : List F) : List F :=
  match v with
  | a :: rest =>
    if g.length ≤ rest.length then polyRem g (subScaled a g rest)
    else List.replicate (g.length - (rest.length + 1)) 0 ++ a :: rest
  | [] => List.replicate g.length 0
termination_by v.length
decreasing_by simp

theorem polyRem_of_length_le {g v : List F} (hv : v.length ≤ g.length) :
    polyRem g v = List.replicate (g.length - v.length) 0 ++ v := by
  cases v with
  | nil => simp [polyRem]
  | cons a rest =>
    rw [polyRem, if_neg (by simp only [List.length_cons] at hv; omega)]
    rfl

theorem polyRem_cons {g rest : List F} (a : F) (h : g.length ≤ rest.length) :
    polyRem g (a :: rest) = polyRem g (subScaled a g rest) := by
  rw [polyRem, if_pos h]

/-- Long division of a remainder followed by more coefficients is Horner's rule run over them
from that remainder. The induction is on the coefficients that follow; the first step of long
division is one step of Horner's rule, on the first `n + 1` coefficients. -/
theorem polyRem_append (g : List F) :
    ∀ (vs c : List F), c.length = g.length → polyRem g (c ++ vs) = vs.foldl (hornerStep g) c
  | [], c, hc => by
    rw [List.append_nil, List.foldl_nil, polyRem_of_length_le hc.le, hc, Nat.sub_self,
      List.replicate_zero, List.nil_append]
  | v :: vs, [], hc => by
    -- the divisor `1`: nothing is left of any coefficient
    rw [List.nil_append, polyRem_cons v (by simp [← hc]), List.foldl_cons]
    have hnil : g = [] := List.eq_nil_of_length_eq_zero hc.symm
    subst hnil
    exact polyRem_append [] vs [] rfl
  | v :: vs, c₀ :: c, hc => by
    have hlen : g.length ≤ (c ++ [v]).length := by simp only [List.length_cons] at hc; simp [← hc]
    rw [List.cons_append, polyRem_cons c₀ (le_trans hlen (by simp)),
      show c ++ v :: vs = (c ++ [v]) ++ vs by simp, subScaled_append c₀ hlen vs, List.foldl_cons]
    exact polyRem_append g vs (hornerStep g (c₀ :: c) v) (length_hornerStep g _ v hc)

section Zero

variable (hmul : ∀ a : F, (0 : F) * a = 0) (hsub : ∀ a : F, a - 0 = a)
include hmul hsub

theorem subScaled_zero : ∀ g rest : List F, subScaled 0 g rest = rest
  | _ :: gs, r :: rest => by simp only [subScaled, hmul, hsub, subScaled_zero gs rest]
  | [], _ => rfl
  | _ :: _, [] => rfl

/-- A leading zero coefficient changes no remainder. -/
theorem polyRem_zero_cons (g v : List F) : polyRem g (0 :: v) = polyRem g v := by
  by_cases h : g.length ≤ v.length
  · rw [polyRem_cons 0 h, subScaled_zero hmul hsub]
  · rw [polyRem_of_length_le (by simp only [List.length_cons]; omega), polyRem_of_length_le (by omega),
      List.length_cons, show g.length - v.length = g.length - (v.length + 1) + 1 by omega,
      List.replicate_succ', List.append_assoc]
    rfl

theorem polyRem_replicate_append (g : List F) (k : Nat) (v : List F) :
    polyRem g (List.replicate k 0 ++ v) = polyRem g v := by
  induction k with
  | zero => rfl
  | succ k ih => rw [List.replicate_succ, List.cons_append, polyRem_zero_cons hmul hsub, ih]

/-- Horner's rule from `0, ..., 0, a` computes the remainder of `a` followed by its input. -/
theorem polyRem_cons_eq_foldl {g : List F} (hg : 0 < g.length) (a : F) (vs : List F) :
    polyRem g (a :: vs) = vs.foldl (hornerStep g) (List.replicate (g.length - 1) 0 ++ [a]) := by
  rw [← polyRem_append g vs _ (by simp; omega), ← polyRem_replicate_append hmul hsub g (g.length - 1),
    List.append_assoc, List.singleton_append]

end Zero

end UnitedBitcoin.Library
