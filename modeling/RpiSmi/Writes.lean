import Mathlib.Logic.Function.Basic
import Mathlib.Tactic.Common

/-!
# Runs of writes to a map

A store is written one cell at a time. What a cell holds afterwards depends only
on the writes to that cell, and among these only on the last.
-/

namespace RpiSmi
namespace Writes

variable {K V : Type*} [DecidableEq K]

def run (m : K → V) (l : List (K × V)) : K → V :=
  l.foldl (fun m w => Function.update m w.1 w.2) m

def last (l : List (K × V)) (k : K) : Option V :=
  (l.filter (·.1 = k)).getLast?.map Prod.snd

@[simp] theorem run_nil (m : K → V) : run m [] = m := rfl

@[simp] theorem run_cons (m : K → V) (w : K × V) (l : List (K × V)) :
    run m (w::l) = run (Function.update m w.1 w.2) l := rfl

theorem run_append (m : K → V) (l l' : List (K × V)) : run m (l ++ l') = run (run m l) l' :=
  List.foldl_append

theorem last_cons (w : K × V) (l : List (K × V)) (k : K) :
    last (w::l) k = (last l k).or (if w.1 = k then some w.2 else none) := by
  unfold last
  by_cases hk : w.1 = k
  · rw [List.filter_cons_of_pos (by simpa using hk),List.getLast?_cons,if_pos hk]
    cases (l.filter (·.1 = k)).getLast? <;> rfl
  · rw [List.filter_cons_of_neg (by simpa using hk),if_neg hk,Option.or_none]

theorem run_apply (m : K → V) (l : List (K × V)) (k : K) : run m l k = (last l k).getD (m k) := by
  induction l generalizing m with
  | nil => rfl
  | cons w l ih =>
    rw [run_cons,ih,last_cons]
    cases hl : last l k with
    | some v => rfl
    | none =>
      by_cases hk : w.1 = k
      · subst k
        simp
      · simp [hk,Function.update_of_ne (Ne.symm hk)]

theorem last_eq_none {l : List (K × V)} {k : K} (h : ∀ w ∈ l, w.1 ≠ k) : last l k = none := by
  have hnil : l.filter (·.1 = k) = [] :=
    List.filter_eq_nil_iff.mpr fun w hw => by simpa using h w hw
  simp [last,hnil]

theorem run_of_forall_ne {l : List (K × V)} {k : K} (h : ∀ w ∈ l, w.1 ≠ k) (m : K → V) :
    run m l k = m k := by
  rw [run_apply,last_eq_none h,Option.getD_none]

theorem run_of_mem {l : List (K × V)} {k : K} {v : V} (hmem : (k,v) ∈ l)
    (h : ∀ w ∈ l, w.1 = k → w.2 = v) (m : K → V) : run m l k = v := by
  have hin : (k,v) ∈ l.filter (·.1 = k) := List.mem_filter.mpr ⟨hmem,by simp⟩
  obtain ⟨w,hw⟩ : ∃ w, (l.filter (·.1 = k)).getLast? = some w := by
    cases hl : (l.filter (·.1 = k)).getLast? with
    | none => simp [List.getLast?_eq_none_iff.mp hl] at hin
    | some w => exact ⟨w,rfl⟩
  have hv : w.2 = v := by
    have hw' := List.mem_filter.mp (List.mem_of_getLast? hw)
    exact h w hw'.1 (by simpa using hw'.2)
  rw [run_apply,last,hw,Option.map_some,Option.getD_some,hv]

/-- Writes to different cells may change places. -/
theorem run_eq_of_filter_eq {l l' : List (K × V)}
    (h : ∀ k, l.filter (·.1 = k) = l'.filter (·.1 = k)) (m : K → V) : run m l = run m l' := by
  funext k
  rw [run_apply,run_apply,last,last,h k]

theorem last_eq_none_iff {l : List (K × V)} {k : K} : last l k = none ↔ ∀ w ∈ l, w.1 ≠ k := by
  simp [last]

theorem run_cons_eq_iff {l : List (K × V)} {k : K} {v v' : V} (m : K → V) :
    run m ((k,v)::l) = run m ((k,v')::l) ↔ (∃ w ∈ l, w.1 = k) ∨ v = v' := by
  rw [run_cons,run_cons]
  by_cases h : ∃ w ∈ l, w.1 = k
  · refine iff_of_true (funext fun j => ?_) (.inl h)
    rw [run_apply,run_apply]
    by_cases hj : j = k
    · obtain ⟨w,hw,hk⟩ := h
      have hne : last l j ≠ none := fun hn => last_eq_none_iff.mp hn w hw (hk.trans hj.symm)
      obtain ⟨u,hu⟩ := Option.ne_none_iff_exists'.mp hne
      rw [hu]
      rfl
    · rw [Function.update_of_ne hj,Function.update_of_ne hj]
  · have hne : ∀ w ∈ l, w.1 ≠ k := fun w hw hk => h ⟨w,hw,hk⟩
    refine ⟨fun hrun => .inr ?_,fun hv => by rw [hv.resolve_left h]⟩
    have hcell := congrFun hrun k
    rw [run_of_forall_ne hne,run_of_forall_ne hne] at hcell
    simpa using hcell

/-- A first write changes nothing exactly when its cell is written again or had the value. -/
theorem run_cons_eq_self_iff {l : List (K × V)} {k : K} {v : V} (m : K → V) :
    run m ((k,v)::l) = run m l ↔ (∃ w ∈ l, w.1 = k) ∨ v = m k := by
  have h : run m ((k,v)::l) = run m ((k,m k)::l) ↔ _ := run_cons_eq_iff m
  rwa [run_cons m (k,m k),Function.update_eq_self] at h

end Writes
end RpiSmi
