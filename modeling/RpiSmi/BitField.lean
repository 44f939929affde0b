import Mathlib.Algebra.Group.Nat.Defs
import Mathlib.Tactic.Common

/-!
# Bit fields of a machine word

A field is a run of bits inside a word. Assigning it replaces those bits by the
low bits of the value and keeps the others, as a C bit-field assignment does.
-/

namespace RpiSmi
namespace BitField

structure Field (w : ℕ) where
  offset : ℕ
  width : ℕ
  fits : offset + width ≤ w := by decide

variable {w : ℕ}

def Field.get (f : Field w) (x : BitVec w) : ℕ := (x.extractLsb' f.offset f.width).toNat

def Field.mask (f : Field w) : BitVec w := (BitVec.allOnes f.width).setWidth w <<< f.offset

def Field.set (f : Field w) (v : ℕ) (x : BitVec w) : BitVec w :=
  x &&& ~~~f.mask ||| (BitVec.ofNat f.width v).setWidth w <<< f.offset

def Field.test (f : Field w) (x : BitVec w) : Bool := f.get x != 0

def Field.Disjoint (f g : Field w) : Prop :=
  f.offset + f.width ≤ g.offset ∨ g.offset + g.width ≤ f.offset

instance (f g : Field w) : Decidable (f.Disjoint g) := inferInstanceAs (Decidable (_ ∨ _))

instance : DecidableEq (Field w) := fun f g =>
  decidable_of_iff (f.offset = g.offset ∧ f.width = g.width) (by cases f; cases g; simp)

theorem Field.set_congr {f : Field w} {u v : ℕ} (h : u%2^f.width = v%2^f.width) (x : BitVec w) :
    f.set u x = f.set v x := by
  have hbits : BitVec.ofNat f.width u = BitVec.ofNat f.width v := BitVec.eq_of_toNat_eq h
  rw [Field.set,Field.set,hbits]

theorem Field.getLsbD_mask (f : Field w) (i : ℕ) :
    f.mask.getLsbD i = decide (f.offset ≤ i ∧ i < f.offset + f.width) := by
  have hf := f.fits
  simp only [Field.mask,BitVec.getLsbD_shiftLeft,BitVec.getLsbD_setWidth,BitVec.getLsbD_allOnes]
  rw [Bool.eq_iff_iff]
  simp
  omega

theorem Field.getLsbD_set (f : Field w) (v : ℕ) (x : BitVec w) {i : ℕ} (hi : i < w) :
    (f.set v x).getLsbD i =
      if f.offset ≤ i ∧ i < f.offset + f.width then v.testBit (i-f.offset) else x.getLsbD i := by
  simp only [Field.set,BitVec.getLsbD_or,BitVec.getLsbD_and,BitVec.getLsbD_not,f.getLsbD_mask,
    BitVec.getLsbD_shiftLeft,BitVec.getLsbD_setWidth,BitVec.getLsbD_ofNat]
  split_ifs with h
  · have h₁ : i-f.offset < f.width := by omega
    have h₂ : i-f.offset < w := by omega
    simp [h,hi,h₁,h₂,Nat.not_lt.mpr h.1]
  · by_cases hl : i < f.offset
    · simp [h,hi,hl]
    · have h₁ : ¬ i-f.offset < f.width := by omega
      simp [h,hi,h₁]

/-- Reading back an assigned field gives the value reduced to the field's width. -/
@[simp] theorem Field.get_set (f : Field w) (v : ℕ) (x : BitVec w) :
    f.get (f.set v x) = v % 2^f.width := by
  have hf := f.fits
  have h : (f.set v x).extractLsb' f.offset f.width = BitVec.ofNat f.width v := by
    apply BitVec.eq_of_getLsbD_eq
    intro i hi
    rw [BitVec.getLsbD_extractLsb',f.getLsbD_set v x (by omega),BitVec.getLsbD_ofNat]
    simp [hi]
  simp [Field.get,h]

theorem Field.get_set_of_disjoint {f g : Field w} (h : f.Disjoint g) (v : ℕ) (x : BitVec w) :
    g.get (f.set v x) = g.get x := by
  have hg := g.fits
  have h' : (f.set v x).extractLsb' g.offset g.width = x.extractLsb' g.offset g.width := by
    apply BitVec.eq_of_getLsbD_eq
    intro i hi
    unfold Field.Disjoint at h
    rw [BitVec.getLsbD_extractLsb',BitVec.getLsbD_extractLsb',f.getLsbD_set v x (by omega),
      if_neg (by omega)]
  simp [Field.get,h']

theorem Field.test_set (f : Field w) (v : ℕ) (x : BitVec w) :
    f.test (f.set v x) = (v % 2^f.width != 0) := by
  simp [Field.test]

@[simp] theorem Field.test_set_zero (f : Field w) (x : BitVec w) : f.test (f.set 0 x) = false := by
  simp [f.test_set]

theorem Field.test_set_one (f : Field w) (h : 0 < f.width) (x : BitVec w) :
    f.test (f.set 1 x) = true := by
  simp [f.test_set,Nat.ne_of_gt h]

theorem Field.test_set_of_disjoint {f g : Field w} (h : f.Disjoint g) (v : ℕ) (x : BitVec w) :
    g.test (f.set v x) = g.test x := by
  simp [Field.test,Field.get_set_of_disjoint h]

theorem Field.set_eq_self_iff (f : Field w) (v : ℕ) (x : BitVec w) :
    f.set v x = x ↔ f.get x = v%2^f.width := by
  constructor
  · intro h
    rw [← f.get_set v x,h]
  · intro h
    apply BitVec.eq_of_getLsbD_eq
    intro i hi
    rw [f.getLsbD_set v x hi]
    split_ifs with hr
    · have hbit := congrArg (Nat.testBit · (i-f.offset)) h
      have hlt : i-f.offset < f.width := by omega
      have hadd : f.offset+(i-f.offset) = i := by omega
      simp only [Field.get,BitVec.testBit_toNat,BitVec.getLsbD_extractLsb',hadd,
        Nat.testBit_mod_two_pow,hlt,decide_true,Bool.true_and] at hbit
      exact hbit.symm
    · rfl

theorem Field.set_set_eq_self_iff {f g : Field w} (h : g.Disjoint f) (m n : ℕ) (x : BitVec w) :
    g.set n (f.set m x) = x ↔ f.get x = m%2^f.width ∧ g.get x = n%2^g.width := by
  constructor
  · intro hx
    have hf : f.get x = m%2^f.width := by
      rw [← hx,Field.get_set_of_disjoint h,f.get_set]
    have hg : g.get x = n%2^g.width := by
      rw [← hx,g.get_set]
    exact ⟨hf,hg⟩
  · rintro ⟨hf,hg⟩
    rw [(f.set_eq_self_iff m x).mpr hf,(g.set_eq_self_iff n x).mpr hg]

theorem Field.test_eq_getLsbD {f : Field w} (h : f.width = 1) (x : BitVec w) :
    f.test x = x.getLsbD f.offset := by
  have hx : f.get x = (x.getLsbD f.offset).toNat := by
    rw [Field.get,BitVec.extractLsb'_toNat,h,BitVec.getLsbD,Nat.toNat_testBit,
      Nat.shiftRight_eq_div_pow]
  rcases hb : x.getLsbD f.offset <;> simp [Field.test,hx,hb]

theorem Field.get_and {f : Field w} {m : BitVec w} (h : f.mask &&& m = f.mask) (x : BitVec w) :
    f.get (x &&& m) = f.get x := by
  have hx : (x &&& m).extractLsb' f.offset f.width = x.extractLsb' f.offset f.width := by
    apply BitVec.eq_of_getLsbD_eq
    intro i hi
    have hm := congrArg (BitVec.getLsbD · (f.offset+i)) h
    simp only [BitVec.getLsbD_and,f.getLsbD_mask] at hm
    simp [hi] at hm ⊢
    simp [hm]
  simp [Field.get,hx]

theorem Field.set_and (f : Field w) (v : ℕ) (x m : BitVec w) :
    f.set v (x &&& m) &&& m = f.set v x &&& m := by
  apply BitVec.eq_of_getLsbD_eq
  intro i hi
  simp only [BitVec.getLsbD_and,f.getLsbD_set v _ hi]
  split_ifs <;> simp

theorem Field.set_and_outside {f : Field w} {m : BitVec w} (h : f.mask &&& m = 0) (v : ℕ)
    (x : BitVec w) : f.set v x &&& m = x &&& m := by
  apply BitVec.eq_of_getLsbD_eq
  intro i hi
  have hm := congrArg (BitVec.getLsbD · i) h
  simp only [BitVec.getLsbD_and,f.getLsbD_mask] at hm
  simp only [BitVec.getLsbD_and,f.getLsbD_set v _ hi]
  split_ifs with hr
  · simp [hr] at hm
    simp [hm]
  · rfl

end BitField
end RpiSmi
