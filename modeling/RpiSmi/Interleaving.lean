import Mathlib.Tactic.Common

/-!
# Runs of a list of moves

The moves of several parties, in the order in which they happen. A guard is
exact for an invariant when the guarded moves keep it and every other move
leads to a state that shows the breach.
-/

namespace RpiSmi
namespace Interleaving

variable {σ μ : Type} (step : σ → μ → σ)

def visited : σ → List μ → List σ
  | s, [] => [s]
  | s, m::ms => s::visited (step s m) ms

def taken : σ → List μ → List (σ × μ)
  | _, [] => []
  | s, m::ms => (s,m)::taken (step s m) ms

variable {step} {s : σ}

theorem mem_visited_self (ms : List μ) : s ∈ visited step s ms := by
  cases ms <;> exact List.mem_cons_self ..

theorem foldl_mem_visited (ms : List μ) : ms.foldl step s ∈ visited step s ms := by
  induction ms generalizing s with
  | nil => exact List.mem_cons_self ..
  | cons m ms ih => exact List.mem_cons_of_mem _ ih

theorem mem_visited_of_taken {ms : List μ} {p : σ × μ} (h : p ∈ taken step s ms) :
    p.1 ∈ visited step s ms := by
  induction ms generalizing s with
  | nil => cases h
  | cons m ms ih =>
    rcases List.mem_cons.mp h with rfl | h
    · exact List.mem_cons_self ..
    · exact List.mem_cons_of_mem _ (ih h)

/-- What the guarded moves keep holds of every state of a run whose moves are all guarded. -/
theorem invariant_visited {I : σ → Prop} {G : σ → μ → Prop}
    (hkeeps : ∀ s m, I s → G s m → I (step s m)) {ms : List μ} (hs : I s)
    (hg : ∀ p ∈ taken step s ms, G p.1 p.2) : ∀ t ∈ visited step s ms, I t := by
  induction ms generalizing s with
  | nil =>
    intro t ht
    rw [List.mem_singleton.mp ht]
    exact hs
  | cons m ms ih =>
    intro t ht
    rcases List.mem_cons.mp ht with rfl | ht
    · exact hs
    · have hnext : I (step s m) := hkeeps s m hs (hg _ (List.mem_cons_self ..))
      exact ih hnext (fun p hp => hg p (List.mem_cons_of_mem _ hp)) t ht

/-- `G` is exact for the invariant `I`, of which `A` is what can be seen. -/
structure Exact (step : σ → μ → σ) (I A : σ → Prop) (G : σ → μ → Prop) : Prop where
  keeps : ∀ s m, I s → G s m → I (step s m)
  shows : ∀ s, I s → A s
  breaks : ∀ s m, I s → ¬ G s m → ¬ A (step s m)

/-- A run from the invariant shows no breach if and only if every move in it was guarded. -/
theorem Exact.visited_iff {I A : σ → Prop} {G : σ → μ → Prop} (h : Exact step I A G)
    (hs : I s) (ms : List μ) :
    (∀ t ∈ visited step s ms, A t) ↔ ∀ p ∈ taken step s ms, G p.1 p.2 := by
  constructor
  · intro ha
    induction ms generalizing s with
    | nil => intro p hp; cases hp
    | cons m ms ih =>
      have hg : G s m := by
        by_contra hn
        exact h.breaks s m hs hn (ha _ (List.mem_cons_of_mem _ (mem_visited_self ms)))
      intro p hp
      rcases List.mem_cons.mp hp with rfl | hp
      · exact hg
      · exact ih (h.keeps s m hs hg) (fun t ht => ha t (List.mem_cons_of_mem _ ht)) p hp
  · intro hg t ht
    exact h.shows t (invariant_visited h.keeps hs hg t ht)

end Interleaving
end RpiSmi
