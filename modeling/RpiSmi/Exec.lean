import Mathlib.Data.Nat.Notation
import Mathlib.Order.Defs.Unbundled
import Mathlib.Tactic.Common

/-!
# Fuelled programs over a state

A program is a state transformer that may run out of fuel. `loop` iterates a
body until it exits, spending one unit of fuel a round. `Post` is partial
correctness with a condition on every state in which fuel can end, and `Ends`
is total correctness: enough fuel gives the result.
-/

namespace RpiSmi
namespace Exec

variable {W α β S : Type}

/-- A run yields `none` when its fuel ended, and the state it had reached. -/
def Prog (W α : Type) := W → Option α × W

instance : Monad (Prog W) where
  pure a := fun w => (some a,w)
  bind x f := fun w => match x w with
    | (some a,w') => f a w'
    | (none,w') => (none,w')

@[simp] theorem pure_run (a : α) (w : W) : (pure a : Prog W α) w = (some a,w) := rfl

theorem bind_run {x : Prog W α} {w w' : W} {a : α} (h : x w = (some a,w')) (f : α → Prog W β) :
    (x >>= f) w = f a w' := by
  show (match x w with | (some a,w') => f a w' | (none,w') => (none,w')) = _
  rw [h]

theorem bind_run_none {x : Prog W α} {w w' : W} (h : x w = (none,w')) (f : α → Prog W β) :
    (x >>= f) w = (none,w') := by
  show (match x w with | (some a,w') => f a w' | (none,w') => (none,w')) = _
  rw [h]

theorem bind_apply (x : Prog W α) (f : α → Prog W β) (w : W) :
    (x >>= f) w = match x w with
      | (some a,w') => f a w'
      | (none,w') => (none,w') := rfl

theorem bind_congr {x : Prog W α} {f g : α → Prog W β} (h : ∀ a w, f a w = g a w) (w : W) :
    (x >>= f) w = (x >>= g) w := by
  rw [show f = g from funext fun a => funext (h a)]

theorem ite_run (c : Prop) [Decidable c] (x y : Prog W α) (w : W) :
    (if c then x else y) w = if c then x w else y w := by
  split <;> rfl

/-- One round of the body per unit of fuel; `.inl` goes round again, `.inr` leaves the loop. -/
def loop (body : S → Prog W (S ⊕ α)) : ℕ → S → Prog W α
  | 0, _ => fun w => (none,w)
  | n+1, s => body s >>= fun r => match r with
    | .inl s' => loop body n s'
    | .inr a => pure a

theorem loop_again {body : S → Prog W (S ⊕ α)} {s s' : S} {w w' : W}
    (h : body s w = (some (.inl s'),w')) (n : ℕ) : loop body (n+1) s w = loop body n s' w' :=
  bind_run h _

theorem loop_exit {body : S → Prog W (S ⊕ α)} {s : S} {a : α} {w w' : W}
    (h : body s w = (some (.inr a),w')) (n : ℕ) : loop body (n+1) s w = (some a,w') :=
  bind_run h _

theorem loop_stuck {body : S → Prog W (S ⊕ α)} {s : S} {w w' : W}
    (h : body s w = (none,w')) (n : ℕ) : loop body (n+1) s w = (none,w') :=
  bind_run_none h _

/-- `Q` holds of a returned value and its state, `E` of a state in which fuel ended. -/
def Post (x : Prog W α) (w : W) (Q : α → W → Prop) (E : W → Prop) : Prop :=
  match x w with
  | (some a,w') => Q a w'
  | (none,w') => E w'

section Post

variable {Q Q' : α → W → Prop} {E E' : W → Prop} {w : W}

theorem post_of_run {x : Prog W α} {a : α} {w' : W} (h : x w = (some a,w')) (hq : Q a w') :
    Post x w Q E := by
  simp only [Post,h]; exact hq

theorem Post.elim {x : Prog W α} (h : Post x w Q E) {o : Option α} {w' : W} (hx : x w = (o,w')) :
    (∀ a, o = some a → Q a w') ∧ (o = none → E w') := by
  simp only [Post,hx] at h
  cases o with
  | none => exact ⟨by simp,fun _ => h⟩
  | some a => exact ⟨by rintro _ ⟨⟩; exact h,by simp⟩

theorem post_iff_state {P : W → Prop} {x : Prog W α} : Post x w (fun _ => P) P ↔ P (x w).2 := by
  unfold Post
  rcases x w with ⟨_ | a,w'⟩ <;> rfl

theorem Post.mono {x : Prog W α} (h : Post x w Q E) (hq : ∀ a w', Q a w' → Q' a w')
    (he : ∀ w', E w' → E' w') : Post x w Q' E' := by
  unfold Post at *
  rcases hx : x w with ⟨_ | a,w'⟩ <;> rw [hx] at h
  · exact he w' h
  · exact hq a w' h

theorem Post.and {x : Prog W α} (h : Post x w Q E) (h' : Post x w Q' E') :
    Post x w (fun a w' => Q a w' ∧ Q' a w') (fun w' => E w' ∧ E' w') := by
  unfold Post at *
  rcases hx : x w with ⟨_ | a,w'⟩ <;> rw [hx] at h h'
  · exact ⟨h,h'⟩
  · exact ⟨h,h'⟩

theorem post_bind {R : β → W → Prop} {x : Prog W α} {f : α → Prog W β}
    (h : Post x w (fun a w' => Post (f a) w' R E) E) : Post (x >>= f) w R E := by
  unfold Post at h
  rcases hx : x w with ⟨_ | a,w'⟩ <;> rw [hx] at h
  · simp only [Post,bind_run_none hx]; exact h
  · simp only [Post,bind_run hx]; exact h

theorem post_step {R : β → W → Prop} {x : Prog W α} {f : α → Prog W β} {a : α} {w' : W}
    (h : x w = (some a,w')) (hf : Post (f a) w' R E) : Post (x >>= f) w R E :=
  post_bind (post_of_run h hf)

theorem post_ite {c : Prop} [Decidable c] {x y : Prog W α} (hx : c → Post x w Q E)
    (hy : ¬ c → Post y w Q E) : Post (if c then x else y) w Q E := by
  split
  · exact hx ‹_›
  · exact hy ‹_›

/-- The invariant rule: what each round of the body keeps, every run of the loop keeps. -/
theorem post_loop {body : S → Prog W (S ⊕ α)} (I : S → W → Prop) (hE : ∀ s w, I s w → E w)
    (hbody : ∀ s w, I s w →
      Post (body s) w (fun r w' => Sum.elim (fun s' => I s' w') (fun a => Q a w') r) E)
    (n : ℕ) (s : S) (w : W) (h : I s w) : Post (loop body n s) w Q E := by
  induction n generalizing s w with
  | zero => exact hE s w h
  | succ n ih =>
    apply post_bind
    refine (hbody s w h).mono ?_ fun _ he => he
    rintro (s' | a) w' hr
    · exact ih s' w' hr
    · exact hr

end Post

/-- Every state a program can reach stands in the relation `R` to the one it started in. -/
def Keeps (R : W → W → Prop) (x : Prog W α) : Prop := ∀ w, R w (x w).2

section Keeps

variable {R : W → W → Prop}

theorem Keeps.post {x : Prog W α} (h : Keeps R x) (w : W) : Post x w (fun _ => R w) (R w) :=
  post_iff_state.mpr (h w)

theorem keeps_ite {c : Prop} [Decidable c] {x y : Prog W α} (hx : Keeps R x) (hy : Keeps R y) :
    Keeps R (if c then x else y) := by
  split
  · exact hx
  · exact hy

variable [IsPreorder W R]

theorem keeps_pure (a : α) : Keeps R (pure a : Prog W α) := fun w => refl_of R w

theorem keeps_after {x : Prog W α} {f : α → Prog W β} (hf : ∀ a, Keeps R (f a)) (w : W) :
    R (x w).2 ((x >>= f) w).2 := by
  rcases hr : x w with ⟨_ | a,w'⟩
  · rw [bind_run_none hr]
    exact refl_of R w'
  · rw [bind_run hr]
    exact hf a w'

theorem keeps_bind {x : Prog W α} {f : α → Prog W β} (hx : Keeps R x) (hf : ∀ a, Keeps R (f a)) :
    Keeps R (x >>= f) :=
  fun w => trans_of R (hx w) (keeps_after hf w)

theorem keeps_then_pure {x : Prog W α} (hx : Keeps R x) (f : α → β) :
    Keeps R (x >>= fun a => pure (f a)) := keeps_bind hx fun a => keeps_pure (f a)

theorem keeps_loop {body : S → Prog W (S ⊕ α)} (hb : ∀ s, Keeps R (body s)) (n : ℕ) (s : S) :
    Keeps R (loop body n s) := by
  induction n generalizing s with
  | zero => exact fun w => refl_of R w
  | succ n ih =>
    apply keeps_bind (hb s)
    rintro (s' | a)
    · exact ih s'
    · exact keeps_pure a

theorem keeps_rounds {body : S → Prog W (S ⊕ α)} (hb : ∀ s, Keeps R (body s)) (n : ℕ) (s : S)
    (w : W) : R (body s w).2 (loop body (n+1) s w).2 := by
  refine keeps_after ?_ w
  rintro (s' | a)
  · exact keeps_loop hb n s'
  · exact keeps_pure a

end Keeps

/-- Every large enough amount of fuel gives the value `a` in the state `w'`. -/
def Ends (p : ℕ → Prog W α) (w : W) (a : α) (w' : W) : Prop :=
  ∃ N, ∀ n, N ≤ n → p n w = (some a,w')

section Ends

variable {w w' w'' : W} {a : α}

theorem ends_of_run {x : Prog W α} (h : x w = (some a,w')) : Ends (fun _ => x) w a w' :=
  ⟨0,fun _ _ => h⟩

theorem ends_bind {b : β} {p : ℕ → Prog W α} {f : ℕ → α → Prog W β} (hp : Ends p w a w')
    (hf : Ends (fun n => f n a) w' b w'') : Ends (fun n => p n >>= f n) w b w'' := by
  obtain ⟨N,hN⟩ := hp
  obtain ⟨M,hM⟩ := hf
  refine ⟨max N M,fun n hn => ?_⟩
  show (p n >>= f n) w = _
  rw [bind_run (hN n (by omega))]
  exact hM n (by omega)

/-- A result, once returned, is the result for every larger amount of fuel. -/
def Grows (p : ℕ → Prog W α) : Prop :=
  ∀ n m w a w', n ≤ m → p n w = (some a,w') → p m w = (some a,w')

theorem grows_const (x : Prog W α) : Grows (fun _ => x) := fun _ _ _ _ _ _ h => h

theorem grows_bind {p : ℕ → Prog W α} {f : ℕ → α → Prog W β} (hp : Grows p)
    (hf : ∀ a, Grows (fun n => f n a)) : Grows (fun n => p n >>= f n) := by
  intro n m w b w' hn h
  rcases hx : p n w with ⟨_ | a,v⟩
  · simp only [bind_run_none hx] at h
    cases h
  · simp only [bind_run hx] at h
    simp only [bind_run (hp n m w a v hn hx)]
    exact hf a n m v b w' hn h

theorem grows_loop {body : ℕ → S → Prog W (S ⊕ α)} (hb : ∀ s, Grows (fun n => body n s)) (s : S) :
    Grows (fun n => loop (body n) n s) := by
  have key : ∀ n m k l s w a w', n ≤ m → k ≤ l → loop (body n) k s w = (some a,w') →
      loop (body m) l s w = (some a,w') := by
    intro n m k l s w a w' hn hk h
    induction k generalizing l s w with
    | zero => cases h
    | succ k ih =>
      obtain ⟨l,rfl⟩ : ∃ j, l = j+1 := ⟨l-1,by omega⟩
      rcases hx : body n s w with ⟨_ | s' | b,v⟩
      · rw [loop_stuck hx] at h
        cases h
      · rw [loop_again hx] at h
        rw [loop_again (hb s n m w _ v hn hx)]
        exact ih l s' v (by omega) h
      · rw [loop_exit hx] at h
        rw [loop_exit (hb s n m w _ v hn hx)]
        exact h
  exact fun n m w a w' hn h => key n m n m s w a w' hn hn h

/-- Whatever any amount of fuel returns is the value that enough fuel gives. -/
theorem Ends.unique {p : ℕ → Prog W α} {b : α} {n : ℕ} (he : Ends p w a w') (hg : Grows p)
    (h : p n w = (some b,w'')) : b = a ∧ w'' = w' := by
  obtain ⟨N,hN⟩ := he
  have hb := hg n (max n N) w b w'' (by omega) h
  rw [hN (max n N) (by omega)] at hb
  cases hb
  exact ⟨rfl,rfl⟩

def LoopEnds (body : ℕ → S → Prog W (S ⊕ α)) (s : S) (w : W) (a : α) (w' : W) : Prop :=
  ∃ N, ∀ n m, N ≤ n → N ≤ m → loop (body n) m s w = (some a,w')

theorem LoopEnds.ends {body : ℕ → S → Prog W (S ⊕ α)} {s : S} (h : LoopEnds body s w a w') :
    Ends (fun n => loop (body n) n s) w a w' := by
  obtain ⟨N,hN⟩ := h
  exact ⟨N,fun n hn => hN n n hn hn⟩

theorem loopEnds_exit {body : ℕ → S → Prog W (S ⊕ α)} {s : S}
    (h : Ends (fun n => body n s) w (.inr a) w') : LoopEnds body s w a w' := by
  obtain ⟨N,hN⟩ := h
  refine ⟨N+1,fun n m hn hm => ?_⟩
  obtain ⟨m,rfl⟩ : ∃ k, m = k+1 := ⟨m-1,by omega⟩
  exact loop_exit (hN n (by omega)) m

theorem loopEnds_again {body : ℕ → S → Prog W (S ⊕ α)} {s s' : S}
    (h : Ends (fun n => body n s) w (.inl s') w') (ht : LoopEnds body s' w' a w'') :
    LoopEnds body s w a w'' := by
  obtain ⟨N,hN⟩ := h
  obtain ⟨M,hM⟩ := ht
  refine ⟨max N M+1,fun n m hn hm => ?_⟩
  obtain ⟨m,rfl⟩ : ∃ k, m = k+1 := ⟨m-1,by omega⟩
  rw [loop_again (hN n (by omega)) m]
  exact hM n m (by omega) (by omega)

/-- The variant rule: each round comes to an end, and either keeps the invariant and lowers a
well-founded measure or leaves the loop with `Q`. -/
theorem loopEnds_of_measure {M : Type} {r : M → M → Prop} (hr : WellFounded r) (μ : S → W → M)
    (I : S → W → Prop) (Q : α → W → Prop) {body : ℕ → S → Prog W (S ⊕ α)}
    (hbody : ∀ s w, I s w → ∃ x w', Ends (fun n => body n s) w x w' ∧
      Sum.elim (fun s' => I s' w' ∧ r (μ s' w') (μ s w)) (fun a => Q a w') x)
    (s : S) (w : W) (h : I s w) : ∃ a w', LoopEnds body s w a w' ∧ Q a w' := by
  generalize hm : μ s w = m
  induction m using hr.induction generalizing s w with
  | _ m ih =>
    obtain ⟨x,w',he,hx⟩ := hbody s w h
    cases x with
    | inl s' =>
      obtain ⟨hi,hlt⟩ := hx
      rw [hm] at hlt
      obtain ⟨a,w'',hl,hq⟩ := ih _ hlt s' w' hi rfl
      exact ⟨a,w'',loopEnds_again he hl,hq⟩
    | inr a => exact ⟨a,w',loopEnds_exit he,hx⟩

end Ends

end Exec
end RpiSmi
