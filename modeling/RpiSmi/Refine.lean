import Mathlib.Logic.Relation
import RpiSmi.Exec

/-!
# Loops that follow an abstract system

`next` says what a round may do, apart from the fuel and from what the program
keeps to itself. A loop follows `next` if each round of it is a step of `next`
or gives up, and if it makes every step that `next` makes. Two loops that follow
one system return together, unless one of them gives up.
-/

namespace RpiSmi
namespace Exec

variable {W S T α β : Type}

/-- A round of `next` leads on to `.inl`, or leaves with `.inr`. -/
inductive Leads (next : T → T ⊕ β → Prop) : T → β → Prop
  | exit {t : T} {b : β} (h : next t (.inr b)) : Leads next t b
  | again {t t' : T} {b : β} (h : next t (.inl t')) (ht : Leads next t' b) : Leads next t b

def Deterministic (next : T → T ⊕ β → Prop) : Prop :=
  ∀ t o o', next t o → next t o' → o = o'

theorem deterministic_fun (f : T → T ⊕ β) : Deterministic (fun t o => o = f t) :=
  fun _ _ _ h h' => h.trans h'.symm

theorem Leads.unique {next : T → T ⊕ β → Prop} (hdet : Deterministic next) {t : T} {b b' : β}
    (h : Leads next t b) (h' : Leads next t b') : b = b' := by
  induction h with
  | exit ho =>
    cases h' with
    | exit ho' => exact Sum.inr.inj (hdet _ _ _ ho ho')
    | again ho' _ => cases hdet _ _ _ ho ho'
  | again ho _ ih =>
    cases h' with
    | exit ho' => cases hdet _ _ _ ho ho'
    | again ho' ht' =>
      cases hdet _ _ _ ho ho'
      exact ih ht'

def Reaches (next : T → T ⊕ β → Prop) : T → T → Prop :=
  Relation.ReflTransGen fun t t' => next t (.inl t')

/-- What a round of `next` and a round of the program have to do with each other. -/
def Meets (At : T → S → W → Prop) (Out : β → α → W → Prop) : T ⊕ β → S ⊕ α → W → Prop
  | .inl t, .inl s, w => At t s w
  | .inr b, .inr a, w => Out b a w
  | _, _, _ => False

/-- `At` links a state of `next` with a state of the loop, `Out` their results; `Quits` is how a
round gives up. -/
structure Follows (next : T → T ⊕ β → Prop) (body : ℕ → S → Prog W (S ⊕ α))
    (At : T → S → W → Prop) (Out : β → α → W → Prop) (Quits : α → W → Prop) : Prop where
  sound {n : ℕ} {t : T} {s : S} {w w' : W} {r : S ⊕ α} : At t s w → body n s w = (some r,w') →
    (∃ a, r = .inr a ∧ Quits a w') ∨ ∃ o, next t o ∧ Meets At Out o r w'
  total {t : T} {s : S} {w : W} {o : T ⊕ β} : At t s w → next t o →
    ∃ r w', Ends (fun n => body n s) w r w'

section Follows

variable {next : T → T ⊕ β → Prop} {body : ℕ → S → Prog W (S ⊕ α)} {At : T → S → W → Prop}
  {Out : β → α → W → Prop} {Quits : α → W → Prop} (h : Follows next body At Out Quits)

include h

theorem Follows.returns {n m : ℕ} {t : T} {s : S} {w w' : W} {a : α} (ht : At t s w)
    (hr : loop (body n) m s w = (some a,w')) :
    Quits a w' ∨ ∃ b, Leads next t b ∧ Out b a w' := by
  induction m generalizing t s w with
  | zero => cases hr
  | succ m ih =>
    rcases hx : body n s w with ⟨_ | s' | a',v⟩
    · rw [loop_stuck hx] at hr
      cases hr
    · rw [loop_again hx] at hr
      rcases h.sound ht hx with ⟨_,⟨⟩,_⟩ | ⟨t' | b,ho,hm⟩
      · rcases ih hm hr with hq | ⟨b,hl,hb⟩
        · exact .inl hq
        · exact .inr ⟨b,.again ho hl,hb⟩
      · exact hm.elim
    · rw [loop_exit hx] at hr
      cases hr
      rcases h.sound ht hx with ⟨_,⟨⟩,hq⟩ | ⟨t' | b,ho,hm⟩
      · exact .inl hq
      · exact hm.elim
      · exact .inr ⟨b,.exit ho,hm⟩

theorem Follows.round (hdet : Deterministic next) {t : T} {s : S} {w : W} {o : T ⊕ β}
    (ht : At t s w) (ho : next t o) : ∃ r w', Ends (fun n => body n s) w r w' ∧
      ((∃ a, r = .inr a ∧ Quits a w') ∨ Meets At Out o r w') := by
  obtain ⟨r,w',N,hN⟩ := h.total ht ho
  refine ⟨r,w',⟨N,hN⟩,(h.sound ht (hN N (Nat.le_refl N))).imp_right ?_⟩
  rintro ⟨o',ho',hm⟩
  rwa [hdet t o o' ho ho']

theorem Follows.ends (hdet : Deterministic next) {t : T} {b : β} (hl : Leads next t b) {s : S}
    {w : W} (ht : At t s w) :
    ∃ a w', LoopEnds body s w a w' ∧ (Quits a w' ∨ Out b a w') := by
  induction hl generalizing s w with
  | exit ho =>
    obtain ⟨r,w',he,⟨a,rfl,hq⟩ | hm⟩ := h.round hdet ht ho
    · exact ⟨a,w',loopEnds_exit he,.inl hq⟩
    · rcases r with s' | a
      · exact hm.elim
      · exact ⟨a,w',loopEnds_exit he,.inr hm⟩
  | again ho _ ih =>
    obtain ⟨r,w',he,⟨a,rfl,hq⟩ | hm⟩ := h.round hdet ht ho
    · exact ⟨a,w',loopEnds_exit he,.inl hq⟩
    · rcases r with s' | a
      · obtain ⟨a,w'',hrest,ha⟩ := ih hm
        exact ⟨a,w'',loopEnds_again he hrest,ha⟩
      · exact hm.elim

/-- A loop that has run out of fuel stands at a state that the system reaches. -/
theorem Follows.cut {Cut : T → W → Prop} (hat : ∀ t s w, At t s w → Cut t w)
    (hstuck : ∀ n t s w w', At t s w → body n s w = (none,w') → Cut t w') {n m : ℕ} {t : T}
    {s : S} {w w' : W} (ht : At t s w) (hr : loop (body n) m s w = (none,w')) :
    ∃ t', Reaches next t t' ∧ Cut t' w' := by
  induction m generalizing t s w with
  | zero =>
    cases hr
    exact ⟨t,.refl,hat t s _ ht⟩
  | succ m ih =>
    rcases hx : body n s w with ⟨_ | s' | a',v⟩
    · rw [loop_stuck hx] at hr
      cases hr
      exact ⟨t,.refl,hstuck n t s w _ ht hx⟩
    · rw [loop_again hx] at hr
      rcases h.sound ht hx with ⟨_,⟨⟩,_⟩ | ⟨t' | b,ho,hm⟩
      · obtain ⟨t'',hreach,hcut⟩ := ih hm hr
        exact ⟨t'',.head ho hreach,hcut⟩
      · exact hm.elim
    · rw [loop_exit hx] at hr
      cases hr

theorem Follows.reaches (hdet : Deterministic next) {t t' : T} (hr : Reaches next t t') {s : S}
    {w : W} (ht : At t s w) : (∃ a w', LoopEnds body s w a w' ∧ Quits a w') ∨
      ∃ k N s' w', At t' s' w' ∧
        ∀ n m, N ≤ n → loop (body n) (m+k) s w = loop (body n) m s' w' := by
  induction hr using Relation.ReflTransGen.head_induction_on generalizing s w with
  | refl => exact .inr ⟨0,0,s,w,ht,fun _ _ _ => rfl⟩
  | head ho _ ih =>
    obtain ⟨r,w₁,he,⟨a,rfl,hq⟩ | hm⟩ := h.round hdet ht ho
    · exact .inl ⟨a,w₁,loopEnds_exit he,hq⟩
    · rcases r with s₁ | a
      · rcases ih hm with ⟨a,w',hrest,hq⟩ | ⟨k,N,s',w',hat,hrun⟩
        · exact .inl ⟨a,w',loopEnds_again he hrest,hq⟩
        · obtain ⟨M,hM⟩ := he
          refine .inr ⟨k+1,max N M,s',w',hat,fun n m hn => ?_⟩
          rw [← Nat.add_assoc,loop_again (hM n (by omega)) (m+k)]
          exact hrun n m (by omega)
      · exact hm.elim

end Follows

/-- A body without inner loops, against a system that is a function. -/
theorem follows_of_run {f : T → T ⊕ β} {body : S → Prog W (S ⊕ α)} {At : T → S → W → Prop}
    {Out : β → α → W → Prop} {Quits : α → W → Prop}
    (h : ∀ t s w, At t s w → ∃ r w', body s w = (some r,w') ∧
      ((∃ a, r = .inr a ∧ Quits a w') ∨ Meets At Out (f t) r w')) :
    Follows (fun t o => o = f t) (fun _ => body) At Out Quits where
  sound {_ t s w w' r} ht hr := by
    obtain ⟨r',v,hrun,hm⟩ := h t s w ht
    rw [hrun] at hr
    cases hr
    exact hm.imp_right fun hm => ⟨_,rfl,hm⟩
  total {t s w o} ht _ := by
    obtain ⟨r,w',hrun,-⟩ := h t s w ht
    exact ⟨r,w',ends_of_run hrun⟩

/-- Two loops that follow one system: what the first returns without giving up, the second returns
too unless it gives up. -/
theorem Follows.matched {S' α' : Type} {next : T → T ⊕ β → Prop} (hdet : Deterministic next)
    {body : ℕ → S → Prog W (S ⊕ α)} {At : T → S → W → Prop} {Out : β → α → W → Prop}
    {Quits : α → W → Prop} (h : Follows next body At Out Quits)
    {body' : ℕ → S' → Prog W (S' ⊕ α')} {At' : T → S' → W → Prop} {Out' : β → α' → W → Prop}
    {Quits' : α' → W → Prop} (h' : Follows next body' At' Out' Quits') {n m : ℕ} {t : T} {s : S}
    {s' : S'} {v w w' : W} {a : α} (ht : At t s w) (ht' : At' t s' v)
    (hr : loop (body n) m s w = (some a,w')) : Quits a w' ∨ ∃ b a' v', Out b a w' ∧
      LoopEnds body' s' v a' v' ∧ (Quits' a' v' ∨ Out' b a' v') := by
  rcases h.returns ht hr with hq | ⟨b,hl,hb⟩
  · exact .inl hq
  · obtain ⟨a',v',he,ha⟩ := h'.ends hdet hl ht'
    exact .inr ⟨b,a',v',hb,he,ha⟩

end Exec
end RpiSmi
