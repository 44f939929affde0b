import Mathlib.Data.List.Infix

/-!
# Stretches of a list

How many entries in a row have a property: a bound on every such stretch of a list
that grows at its end, by way of the stretch that the list ends with.
-/

namespace RpiSmi
namespace Stretch

variable {α : Type} (p : α → Bool)

def Within (n : ℕ) (l : List α) : Prop := ∀ s, s <:+: l → (∀ a ∈ s, p a) → s.length ≤ n

/-- Moreover the list ends with at most `t` such entries. -/
structure Steady (n t : ℕ) (l : List α) : Prop where
  within : Within p n l
  ending : ∀ s, s <:+ l → (∀ a ∈ s, p a) → s.length ≤ t

variable {p} {n t t' : ℕ} {l : List α}

theorem steady_nil : Steady p n 0 [] where
  within s hs _ := by simp [List.eq_nil_of_infix_nil hs]
  ending s hs _ := by simp [List.eq_nil_of_suffix_nil hs]

theorem Steady.mono (h : Steady p n t l) (ht : t ≤ t') : Steady p n t' l :=
  ⟨h.within,fun s hs hp => (h.ending s hs hp).trans ht⟩

theorem Steady.more (h : Steady p n t l) (ht : t+1 ≤ n) (a : α) :
    Steady p n (t+1) (l ++ [a]) := by
  have hending : ∀ s, s <:+ l ++ [a] → (∀ b ∈ s, p b) → s.length ≤ t+1 := by
    intro s hs hp
    rcases List.suffix_concat_iff.mp hs with rfl | ⟨u,rfl,hu⟩
    · exact Nat.zero_le _
    · rw [List.length_append,List.length_singleton]
      exact Nat.succ_le_succ (h.ending u hu fun b hb => hp b (List.mem_append_left _ hb))
  refine ⟨fun s hs hp => ?_,hending⟩
  rcases List.infix_concat_iff.mp hs with hs | hs
  · exact (hending s hs hp).trans ht
  · exact h.within s hs hp

theorem Steady.reset (h : Steady p n t l) {a : α} (ha : p a = false) :
    Steady p n 0 (l ++ [a]) := by
  have hending : ∀ s, s <:+ l ++ [a] → (∀ b ∈ s, p b) → s.length ≤ 0 := by
    intro s hs hp
    rcases List.suffix_concat_iff.mp hs with rfl | ⟨s,rfl,-⟩
    · exact le_rfl
    · rw [hp a (List.mem_append_right _ (List.mem_singleton_self a))] at ha
      cases ha
  refine ⟨fun s hs hp => ?_,hending⟩
  rcases List.infix_concat_iff.mp hs with hs | hs
  · exact (hending s hs hp).trans (Nat.zero_le n)
  · exact h.within s hs hp

theorem Steady.resets (h : Steady p n t l) {s : List α} (hs : ∀ a ∈ s, p a = false) :
    Steady p n (if s = [] then t else 0) (l ++ s) := by
  induction s generalizing l t with
  | nil => simpa using h
  | cons a s ih =>
    have hrest := ih (h.reset (hs a (List.mem_cons_self ..)))
      fun b hb => hs b (List.mem_cons_of_mem a hb)
    rw [List.append_assoc,List.singleton_append,ite_self] at hrest
    exact hrest

end Stretch
end RpiSmi
