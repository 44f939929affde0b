import RpiSmi.Exec

/-!
# Two programs with one run

Two programs that do the same from every state that satisfies an invariant, and
keep it, have the same runs from there; so two machines that differ only in states
which a program does not reach cannot be told apart by it. The last rule is for
loops that count.
-/

namespace RpiSmi
namespace Exec

variable {W α β S : Type}

/-- From every state in `I` both programs do the same, and what they reach is in `I`. -/
def SameRun (I : W → Prop) (x y : Prog W α) : Prop := ∀ w, I w → x w = y w ∧ I (x w).2

section SameRun

variable {I : W → Prop}

theorem sameRun_pure (a : α) : SameRun I (pure a : Prog W α) (pure a) := fun _ hw => ⟨rfl,hw⟩

theorem sameRun_ite {c : Prop} [Decidable c] {x y x' y' : Prog W α} (hx : SameRun I x x')
    (hy : SameRun I y y') : SameRun I (if c then x else y) (if c then x' else y') := by
  split
  · exact hx
  · exact hy

theorem sameRun_bind {x x' : Prog W α} {f f' : α → Prog W β} (hx : SameRun I x x')
    (hf : ∀ a, SameRun I (f a) (f' a)) : SameRun I (x >>= f) (x' >>= f') := by
  intro w hw
  obtain ⟨he,hi⟩ := hx w hw
  rcases hr : x w with ⟨_ | a,v⟩
  · rw [hr] at hi
    rw [bind_run_none hr,bind_run_none (he ▸ hr)]
    exact ⟨rfl,hi⟩
  · rw [hr] at hi
    rw [bind_run hr,bind_run (he ▸ hr)]
    exact hf a v hi

theorem sameRun_loop {body body' : S → Prog W (S ⊕ α)} (hb : ∀ s, SameRun I (body s) (body' s))
    (n : ℕ) (s : S) : SameRun I (loop body n s) (loop body' n s) := by
  induction n generalizing s with
  | zero => exact fun _ hw => ⟨rfl,hw⟩
  | succ n ih =>
    refine sameRun_bind (hb s) fun r => ?_
    rcases r with s' | a
    · exact ih s'
    · exact sameRun_pure a

end SameRun

theorem ends_unique {p : ℕ → Prog W α} {w v v' : W} {a a' : α} (h : Ends p w a v)
    (h' : Ends p w a' v') : a' = a ∧ v' = v := by
  obtain ⟨N,hN⟩ := h
  obtain ⟨M,hM⟩ := h'
  have hboth := (hN (max N M) (by omega)).symm.trans (hM (max N M) (by omega))
  cases hboth
  exact ⟨rfl,rfl⟩

/-- The counting rule: `I k` holds before round `k`, a round before the last goes on or leaves with
`Q`, and round `n` leaves with `Q`. -/
theorem loopEnds_count {body : ℕ → S → Prog W (S ⊕ α)} (I : ℕ → S → W → Prop)
    {Q : α → W → Prop} {n : ℕ}
    (hnext : ∀ k < n, ∀ s w, I k s w → ∃ x w', Ends (fun f => body f s) w x w' ∧
      Sum.elim (fun s' => I (k+1) s' w') (fun a => Q a w') x)
    (hlast : ∀ s w, I n s w → ∃ a w', Ends (fun f => body f s) w (.inr a) w' ∧ Q a w')
    {k : ℕ} (hk : k ≤ n) {s : S} {w : W} (h : I k s w) :
    ∃ a w', LoopEnds body s w a w' ∧ Q a w' := by
  induction hd : n-k generalizing k s w with
  | zero =>
    obtain rfl : k = n := by omega
    obtain ⟨a,w',he,hq⟩ := hlast s w h
    exact ⟨a,w',loopEnds_exit he,hq⟩
  | succ d ih =>
    obtain ⟨x,w',he,hx⟩ := hnext k (by omega) s w h
    rcases x with s' | a
    · obtain ⟨a,w'',hl,hq⟩ := ih (by omega) hx (by omega)
      exact ⟨a,w'',loopEnds_again he hl,hq⟩
    · exact ⟨a,w',loopEnds_exit he,hx⟩

end Exec
end RpiSmi
