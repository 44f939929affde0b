import Mathlib.Tactic.Common

/-!
# A flag cleared by writing 1

The flag sits in a word beside other fields. Hardware raises it before any
access; updating another field reads the word and writes it back, and so clears
the flag where the read has found it set.
-/

namespace RpiSmi
namespace StickyFlag

/-- Whether the flag is set after `n` updates of other fields of its word, the first of which
begins with access `t`. `raises i` is a raise between access `i` and the one before it. -/
def kept (raises : ℕ → Bool) (t : ℕ) (b : Bool) : ℕ → Bool
  | 0 => b
  | n+1 => raises (t+2*n+1) && !(kept raises t b n || raises (t+2*n))

/-- Whether the read of update `n` finds the flag set. -/
def found (raises : ℕ → Bool) (t : ℕ) (b : Bool) (n : ℕ) : Bool :=
  kept raises t b n || raises (t+2*n)

variable {raises : ℕ → Bool} {t : ℕ} {b : Bool} {n : ℕ}

@[simp] theorem kept_zero : kept raises t b 0 = b := rfl

/-- Only a raise between the read and the write of the last update outlives it, and only where the
read has found nothing. -/
theorem kept_succ : kept raises t b (n+1) = (raises (t+2*n+1) && !found raises t b n) := rfl

theorem kept_succ_of_quiet (h : raises (t+2*n+1) = false) : kept raises t b (n+1) = false := by
  rw [kept_succ,h,Bool.false_and]

theorem kept_of_never (hb : b = false) (h : ∀ i, i < 2*n → raises (t+i) = false) :
    kept raises t b n = false := by
  cases n with
  | zero => exact hb
  | succ n => exact kept_succ_of_quiet (h (2*n+1) (by omega))

/-- A flag that is raised once, before the last read or earlier but not within an update, is gone
after the update. -/
theorem kept_of_once {m : ℕ} (hm : ∀ i, raises (t+i) = decide (i = m)) (hb : b = false) :
    kept raises t b (n+1) = decide (m = 2*n+1) := by
  have hlast : raises (t+2*n+1) = decide (2*n+1 = m) := hm (2*n+1)
  have hread : raises (t+2*n) = decide (2*n = m) := hm (2*n)
  by_cases hn : m = 2*n+1
  · have hquiet : kept raises t b n = false :=
      kept_of_never hb fun i hi => by rw [hm i,decide_eq_false (by omega)]
    rw [kept_succ,found,hquiet,hlast,hread,decide_eq_true hn.symm,decide_eq_true hn,
      decide_eq_false (by omega)]
    rfl
  · rw [kept_succ_of_quiet (by rw [hlast,decide_eq_false (by omega)]),decide_eq_false hn]

end StickyFlag
end RpiSmi
