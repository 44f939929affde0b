import Mathlib.Algebra.Group.Nat.Defs
import Mathlib.Data.List.Range
import Mathlib.Tactic.Common

/-!
# Typed element stores into bytes

A byte memory records what has been stored at each offset, `none` where nothing
has. Arrays of `size`-byte elements are stored little-endian. `fill` is a loop
that advances a destination pointer by what each round stores; `fill_eq` shows
that it lays its groups end to end.
-/

namespace RpiSmi
namespace Elements

abbrev Bytes := ℕ → Option (BitVec 8)

def empty : Bytes := fun _ => none

def byte (k : ℕ) (v : BitVec 32) : BitVec 8 := v.extractLsb' (8*k) 8

/-- `dst[i] = v` for an array of `size`-byte elements. -/
def put (size i : ℕ) (v : BitVec 32) (m : Bytes) : Bytes :=
  fun o => if o/size = i then some (byte (o%size) v) else m o

def putAll (size : ℕ) : List (BitVec 32) → ℕ → Bytes → Bytes
  | [], _, m => m
  | v::vs, d, m => putAll size vs (d+1) (put size d v m)

theorem putAll_append (size : ℕ) (as bs : List (BitVec 32)) (d : ℕ) (m : Bytes) :
    putAll size (as++bs) d m = putAll size bs (d+as.length) (putAll size as d m) := by
  induction as generalizing d m with
  | nil => rfl
  | cons a as ih =>
    simp only [List.cons_append,putAll,ih,List.length_cons]
    congr 1
    omega

theorem putAll_apply (size : ℕ) (vs : List (BitVec 32)) (d : ℕ) (m : Bytes) (o : ℕ) :
    putAll size vs d m o =
      if d ≤ o/size ∧ o/size < d+vs.length then (vs[o/size-d]?).map (byte (o%size)) else m o := by
  induction vs generalizing d m with
  | nil =>
    rw [if_neg (by simp only [List.length_nil]; omega)]
    rfl
  | cons v vs ih =>
    simp only [putAll,ih,List.length_cons]
    by_cases hd : o/size = d
    · rw [if_neg (by omega),if_pos (by omega)]
      simp [put,hd]
    · by_cases hl : d+1 ≤ o/size ∧ o/size < d+1+vs.length
      · rw [if_pos hl,if_pos (by omega),show o/size-d = o/size-(d+1)+1 by omega,
          List.getElem?_cons_succ]
      · rw [if_neg hl,if_neg (by omega)]
        simp [put,hd]

theorem putAll_empty (size : ℕ) (vs : List (BitVec 32)) (o : ℕ) :
    putAll size vs 0 empty o = (vs[o/size]?).map (byte (o%size)) := by
  rw [putAll_apply]
  split_ifs with h
  · rfl
  · have hl : vs.length ≤ o/size := by
      generalize o/size = q at h ⊢
      omega
    rw [List.getElem?_eq_none hl]
    rfl

/-- The element at index `i` has been stored with the value `v`. -/
def Holds (size i : ℕ) (v : BitVec 32) (m : Bytes) : Prop :=
  ∀ k < size, m (size*i+k) = some (byte k v)

instance (size i : ℕ) (v : BitVec 32) (m : Bytes) : Decidable (Holds size i v m) :=
  inferInstanceAs (Decidable (∀ k < size, _))

theorem putAll_holds {size : ℕ} {vs : List (BitVec 32)} {i : ℕ} {v : BitVec 32}
    (h : vs[i]? = some v) : Holds size i v (putAll size vs 0 empty) := by
  intro k hk
  rw [putAll_empty,Nat.mul_add_div (by omega),Nat.div_eq_of_lt hk,Nat.mul_add_mod,
    Nat.mod_eq_of_lt hk,Nat.add_zero,h]
  rfl

theorem eq_of_bytes {u v : BitVec 32} (h : ∀ k < 4, byte k u = byte k v) : u = v := by
  apply BitVec.eq_of_getLsbD_eq
  intro i hi
  have hb := congrArg (fun b => b.getLsbD (i%8)) (h (i/8) (by omega))
  have hm : i%8 < 8 := Nat.mod_lt _ (by decide)
  simpa [byte,hm,Nat.div_add_mod] using hb

theorem holds_word_iff {vs : List (BitVec 32)} {i : ℕ} {v : BitVec 32} :
    Holds 4 i v (putAll 4 vs 0 empty) ↔ vs[i]? = some v := by
  constructor
  · intro h
    have hb (k : ℕ) (hk : k < 4) : (vs[i]?).map (byte k) = some (byte k v) := by
      have h' := h k hk
      rwa [putAll_empty,Nat.mul_add_div (by omega),Nat.div_eq_of_lt hk,Nat.mul_add_mod,
        Nat.mod_eq_of_lt hk,Nat.add_zero] at h'
    obtain ⟨u,hu,-⟩ := Option.map_eq_some_iff.mp (hb 0 (by decide))
    rw [hu] at hb ⊢
    exact congrArg some (eq_of_bytes fun k hk => Option.some.inj (hb k hk))
  · exact putAll_holds

theorem putAll_none {size : ℕ} (hs : 0 < size) (vs : List (BitVec 32)) (o : ℕ) :
    putAll size vs 0 empty o = none ↔ size*vs.length ≤ o := by
  rw [putAll_empty,Option.map_eq_none_iff,List.getElem?_eq_none_iff,Nat.le_div_iff_mul_le hs,
    Nat.mul_comm]

/-- `n` rounds from counter `i`: round `j` stores the group `g j` at `dst` and moves `dst` past
it. -/
def fill (size : ℕ) (g : ℕ → List (BitVec 32)) : ℕ → ℕ → ℕ → Bytes → Bytes
  | 0, _, _, m => m
  | n+1, i, d, m => fill size g n (i+1) (d+(g i).length) (putAll size (g i) d m)

theorem fill_range' (size : ℕ) (g : ℕ → List (BitVec 32)) (n i d : ℕ) (m : Bytes) :
    fill size g n i d m = putAll size ((List.range' i n).flatMap g) d m := by
  induction n generalizing i d m with
  | zero => rfl
  | succ n ih => simp only [fill,ih,List.range'_succ,List.flatMap_cons,putAll_append]

/-- A fill from the base stores the groups in order, end to end. -/
theorem fill_eq (size : ℕ) (g : ℕ → List (BitVec 32)) (n : ℕ) (m : Bytes) :
    fill size g n 0 0 m = putAll size ((List.range n).flatMap g) 0 m := by
  rw [fill_range',List.range_eq_range']

/-- The `n` bytes from offset `o`, low byte first; a byte never stored reads as zero. -/
def loadFrom (m : Bytes) : ℕ → ℕ → BitVec 32
  | _, 0 => 0
  | o, n+1 => loadFrom m (o+1) n <<< 8 ||| ((m o).getD 0).setWidth 32

def load (size i : ℕ) (m : Bytes) : BitVec 32 := loadFrom m (size*i) size

def loads (size n : ℕ) (m : Bytes) : List (BitVec 32) := (List.range n).map (load size · m)

theorem getLsbD_loadFrom (m : Bytes) (o n j : ℕ) (hj : j < 32) :
    (loadFrom m o n).getLsbD j =
      if j < 8*n then ((m (o+j/8)).getD 0).getLsbD (j%8) else false := by
  induction n generalizing o j with
  | zero => simp [loadFrom]
  | succ n ih =>
    simp only [loadFrom,BitVec.getLsbD_or,BitVec.getLsbD_shiftLeft,BitVec.getLsbD_setWidth]
    by_cases hlow : j < 8
    · have hdiv : j/8 = 0 := by omega
      have hmod : j%8 = j := by omega
      simp [hlow,hj,hdiv,hmod,show j < 8*(n+1) by omega]
    · have hhigh : ((m o).getD 0).getLsbD j = false := BitVec.getLsbD_of_ge _ _ (by omega)
      rw [ih (o+1) (j-8) (by omega),hhigh,show o+1+(j-8)/8 = o+j/8 by omega,
        show (j-8)%8 = j%8 by omega]
      simp [hlow,hj,show j-8 < 8*n ↔ j < 8*(n+1) by omega]

def Fits (size : ℕ) (v : BitVec 32) : Prop := v.toNat < 256^size

theorem Fits.getLsbD {size : ℕ} {v : BitVec 32} (h : Fits size v) {j : ℕ} (hj : 8*size ≤ j) :
    v.getLsbD j = false := by
  have hv : v.toNat < 2^j := by
    calc v.toNat < 256^size := h
      _ = 2^(8*size) := by rw [Nat.pow_mul]
      _ ≤ 2^j := Nat.pow_le_pow_right (by decide) hj
  exact Nat.testBit_lt_two_pow hv

theorem fits_of_getLsbD {size : ℕ} {v : BitVec 32}
    (h : ∀ j, 8*size ≤ j → j < 32 → v.getLsbD j = false) : Fits size v := by
  rw [Fits,show 256 = 2^8 from rfl,← Nat.pow_mul]
  refine Nat.lt_pow_two_of_testBit _ fun j hj => ?_
  by_cases hw : j < 32
  · exact h j hj hw
  · exact BitVec.getLsbD_of_ge v j (by omega)

theorem fits_word (v : BitVec 32) : Fits 4 v := v.isLt

theorem load_of_holds {size i : ℕ} {v : BitVec 32} {m : Bytes} (hv : Fits size v)
    (h : Holds size i v m) : load size i m = v := by
  apply BitVec.eq_of_getLsbD_eq
  intro j hj
  rw [load,getLsbD_loadFrom m _ _ j hj]
  split_ifs with hs
  · rw [h (j/8) (by omega)]
    have hm : j%8 < 8 := Nat.mod_lt _ (by decide)
    simp [byte,hm,Nat.div_add_mod]
  · exact (hv.getLsbD (by omega)).symm

/-- What has been stored is read back, whatever was there before. -/
theorem loads_putAll {size : ℕ} {vs : List (BitVec 32)} (hv : ∀ v ∈ vs, Fits size v) (m : Bytes) :
    loads size vs.length (putAll size vs 0 m) = vs := by
  apply List.ext_getElem (by simp [loads])
  intro i _ hi
  simp only [loads,List.getElem_map,List.getElem_range]
  refine load_of_holds (hv _ (List.getElem_mem hi)) fun k hk => ?_
  rw [putAll_apply,Nat.mul_add_div (by omega),Nat.div_eq_of_lt hk,Nat.mul_add_mod,
    Nat.mod_eq_of_lt hk,if_pos (by omega)]
  simp [hi]

end Elements
end RpiSmi
