import Mathlib.Algebra.Group.Int.Defs
import Mathlib.Algebra.Order.Floor.Div
import Mathlib.Data.List.Induction
import Mathlib.Tactic.Common

/-!
# Signed arithmetic that may overflow

A signed operation has a value only where the exact result fits its width.
Expressions are chains of such operations, so an overflow anywhere is `none`.
-/

namespace RpiSmi
namespace CheckedInt

/-- The result of an operation on signed numbers of `bits` bits. -/
def signed (bits : ℕ) (x : ℤ) : Option ℤ :=
  if -2^(bits-1) ≤ x ∧ x < 2^(bits-1) then some x else none

/-- The usual rounded-up quotient `(a+b-1)/b`, operation by operation. -/
def divCeil (bits : ℕ) (a b : ℤ) : Option ℤ := do
  let s ← signed bits (a+b)
  let t ← signed bits (s-1)
  signed bits (t.tdiv b)

variable {bits : ℕ}

theorem signed_of_nonneg {x : ℤ} (h : 0 ≤ x) :
    signed bits x = if x < 2^(bits-1) then some x else none := by
  have hlow : -2^(bits-1) ≤ x := by
    have hpow : (0 : ℤ) ≤ 2^(bits-1) := Int.pow_nonneg (by decide)
    omega
  simp [signed,hlow]

theorem signed_of_lt {x : ℤ} (h : 0 ≤ x) (hx : x < 2^(bits-1)) : signed bits x = some x := by
  rw [signed_of_nonneg h,if_pos hx]

theorem eq_of_signed {x y : ℤ} (h : signed bits x = some y) : y = x := by
  unfold signed at h
  split at h <;> cases h
  rfl

theorem signed_of_ge {x : ℤ} (hx : 2^(bits-1) ≤ x) : signed bits x = none := by
  simp [signed,not_lt.mpr hx]

theorem divCeil_natCast (a : ℕ) {b : ℕ} (hb : 0 < b) : divCeil bits a b =
    if (a : ℤ)+b < 2^(bits-1) then some ((a ⌈/⌉ b : ℕ) : ℤ) else none := by
  split_ifs with h
  · have hquot : ((a : ℤ)+b-1).tdiv b = ((a ⌈/⌉ b : ℕ) : ℤ) := by
      rw [Int.tdiv_eq_ediv_of_nonneg (by omega),Nat.ceilDiv_eq_add_pred_div]
      push_cast [Nat.cast_sub (show 1 ≤ a+b by omega)]
      rfl
    have hle : ((a ⌈/⌉ b : ℕ) : ℤ) ≤ (a : ℤ)+b-1 := by
      rw [← hquot,Int.tdiv_eq_ediv_of_nonneg (by omega)]
      exact Int.ediv_le_self _ (by omega)
    have hs : signed bits ((a : ℤ)+b) = some ((a : ℤ)+b) := signed_of_lt (by omega) h
    have ht : signed bits ((a : ℤ)+b-1) = some ((a : ℤ)+b-1) := signed_of_lt (by omega) (by omega)
    rw [divCeil,hs,Option.bind_eq_bind,Option.bind_some,ht,Option.bind_some,hquot]
    exact signed_of_lt (by omega) (by omega)
  · rw [divCeil,signed_of_ge (not_lt.mp h)]
    rfl

variable {σ : Type*}

def tallied (bits : ℕ) (e : ℤ) (r : ℕ × σ) : Option (ℤ × σ) :=
  (signed bits (e+r.1)).map (·,r.2)

theorem tallied_zero {e : ℤ} (h : 0 ≤ e) (he : e < 2^(bits-1)) (s : σ) :
    tallied bits e (0,s) = some (e,s) := by
  rw [tallied,Nat.cast_zero,add_zero,signed_of_lt h he]
  rfl

/-- Parts that count on from where the counter is are one count, of the sum: it only grows, so it
overflows on the way exactly where the sum does. -/
theorem tallied_bind {e : ℤ} (h : 0 ≤ e) (r : ℕ × σ) (f : σ → ℕ × σ)
    {g : ℤ × σ → Option (ℤ × σ)} (hg : ∀ x : ℤ × σ, 0 ≤ x.1 → x.1 < 2^(bits-1) →
      g x = tallied bits x.1 (f x.2)) :
    (tallied bits e r).bind g = tallied bits e (r.1+(f r.2).1,(f r.2).2) := by
  have hsum : e+((r.1+(f r.2).1 : ℕ) : ℤ) = e+(r.1 : ℤ)+((f r.2).1 : ℤ) := by
    rw [Nat.cast_add,add_assoc]
  rw [tallied,tallied,hsum,signed_of_nonneg (by omega : 0 ≤ e+(r.1 : ℤ))]
  by_cases hr : e+(r.1 : ℤ) < 2^(bits-1)
  · rw [if_pos hr,Option.map_some,Option.bind_some]
    exact hg (e+(r.1 : ℤ),r.2) (by show 0 ≤ e+(r.1 : ℤ); omega) hr
  · rw [if_neg hr,signed_of_ge (by omega : 2^(bits-1) ≤ e+(r.1 : ℤ)+((f r.2).1 : ℤ))]
    rfl

/-- A loop every turn of which counts on is one count of what they all add. -/
theorem foldlM_tallied {ι : Type*} {f : ι → σ → ℕ × σ} {c : ℕ × σ → ι → ℕ × σ}
    {g : ℤ × σ → ι → Option (ℤ × σ)} (hc : ∀ x k, c x k = (x.1+(f k x.2).1,(f k x.2).2))
    (hg : ∀ (x : ℤ × σ) k, 0 ≤ x.1 → x.1 < 2^(bits-1) → g x k = tallied bits x.1 (f k x.2))
    {e : ℤ} (h : 0 ≤ e) (he : e < 2^(bits-1)) (l : List ι) (s : σ) :
    l.foldlM g (e,s) = tallied bits e (l.foldl c (0,s)) := by
  induction l using List.reverseRecOn with
  | nil => exact (tallied_zero h he s).symm
  | append_singleton l k ih =>
    rw [List.foldlM_append,ih,List.foldl_append,Option.bind_eq_bind,
      tallied_bind h (l.foldl c (0,s)) (f k) (fun x hx hlt => by
        rw [List.foldlM_cons,hg x k hx hlt]
        exact bind_pure _),
      List.foldl_cons,List.foldl_nil,hc]

theorem isLeast_ceilDiv (a : ℕ) {b : ℕ} (hb : 0 < b) : IsLeast {q : ℕ | a ≤ b*q} (a ⌈/⌉ b) := by
  constructor
  · exact (ceilDiv_le_iff_le_mul hb).mp (le_refl (a ⌈/⌉ b))
  · intro q hq
    exact (ceilDiv_le_iff_le_mul hb).mpr hq

end CheckedInt
end RpiSmi
