import Mathlib.Data.List.Induction
import Mathlib.Order.Defs.Unbundled
import Mathlib.Tactic.Common

/-!
# Histories

A monitor reads a history event by event. Each event moves its state, and some
leave a mark. `Passes` says of a system that keeps a log that the monitor,
reading what was logged on the way, went through the states of the system.
`Obeys` is a rule on each event, given the events before it.
-/

namespace RpiSmi
namespace History

variable {E E' S O W : Type}

structure Monitor (E S O : Type) where
  next : S → E → S
  mark : S → E → Option O

namespace Monitor

variable (m : Monitor E S O)

/-- The state in which a history leaves the monitor. -/
def last (s : S) (l : List E) : S := l.foldl m.next s

/-- The marks that a history leaves, in order. -/
def marks : S → List E → List O
  | _, [] => []
  | s, e::l => (m.mark s e).toList ++ marks (m.next s e) l

@[simp] theorem last_nil (s : S) : m.last s [] = s := rfl
@[simp] theorem last_cons (s : S) (e : E) (l : List E) :
    m.last s (e::l) = m.last (m.next s e) l := rfl
@[simp] theorem marks_nil (s : S) : m.marks s [] = [] := rfl
@[simp] theorem marks_cons (s : S) (e : E) (l : List E) :
    m.marks s (e::l) = (m.mark s e).toList ++ m.marks (m.next s e) l := rfl

theorem last_append (s : S) (l l' : List E) : m.last s (l ++ l') = m.last (m.last s l) l' :=
  List.foldl_append

theorem marks_append (s : S) (l l' : List E) :
    m.marks s (l ++ l') = m.marks s l ++ m.marks (m.last s l) l' := by
  induction l generalizing s with
  | nil => rfl
  | cons e l ih => simp [ih]

/-- A mark was left by one event, in the state that the events before it led to. -/
theorem mem_marks {s : S} {l : List E} {o : O} :
    o ∈ m.marks s l ↔ ∃ l₁ e l₂, l = l₁ ++ e::l₂ ∧ m.mark (m.last s l₁) e = some o := by
  constructor
  · intro h
    induction l generalizing s with
    | nil => cases h
    | cons e l ih =>
      rcases List.mem_append.mp h with h | h
      · exact ⟨[],e,l,rfl,Option.mem_toList.mp h⟩
      · obtain ⟨l₁,e',l₂,rfl,ho⟩ := ih h
        exact ⟨e::l₁,e',l₂,rfl,ho⟩
  · rintro ⟨l₁,e,l₂,rfl,ho⟩
    rw [marks_append,marks_cons,ho]
    simp

theorem last_invariant {I : S → Prop} {l : List E}
    (h : ∀ e ∈ l, ∀ s, I s → I (m.next s e)) {s : S} (hs : I s) : I (m.last s l) := by
  induction l generalizing s with
  | nil => exact hs
  | cons e l ih =>
    exact ih (fun e' he' => h e' (List.mem_cons_of_mem e he')) (h e (List.mem_cons_self ..) s hs)

section Passes

variable (log : W → List E) (state : W → S)

/-- What was logged from `w` to `w'` takes the monitor from the state of `w` to that of `w'`, and
leaves the marks `os`. -/
def Passes (os : List O) (w w' : W) : Prop :=
  ∃ l, log w' = log w ++ l ∧ m.last (state w) l = state w' ∧ m.marks (state w) l = os

/-- Nothing that the monitor marks, and the state is what it was. -/
def Quiet (w w' : W) : Prop := m.Passes log state [] w w' ∧ state w' = state w

variable {m log state} {os os' : List O} {w w' w'' : W}

theorem passes_refl (w : W) : m.Passes log state [] w w := ⟨[],by simp,rfl,rfl⟩

theorem passes_event {e : E} (hl : log w' = log w ++ [e]) (hs : m.next (state w) e = state w') :
    m.Passes log state (m.mark (state w) e).toList w w' :=
  ⟨[e],hl,hs,List.append_nil _⟩

theorem Passes.trans (h : m.Passes log state os w w') (h' : m.Passes log state os' w' w'') :
    m.Passes log state (os ++ os') w w'' := by
  obtain ⟨l,hl,hs,ho⟩ := h
  obtain ⟨l',hl',hs',ho'⟩ := h'
  refine ⟨l ++ l',by rw [hl',hl,List.append_assoc],?_,?_⟩
  · rw [last_append,hs,hs']
  · rw [marks_append,hs,ho,ho']

theorem Passes.marks_eq (h : m.Passes log state os w w') (hw : log w = []) :
    m.marks (state w) (log w') = os := by
  obtain ⟨l,hl,-,ho⟩ := h
  rwa [hl,hw,List.nil_append]

theorem quiet_event {e : E} (hl : log w' = log w ++ [e]) (hs : state w' = state w)
    (hn : m.next (state w) e = state w) (ho : m.mark (state w) e = none) :
    m.Quiet log state w w' := by
  have h := passes_event (m := m) hl (hn.trans hs.symm)
  rw [ho] at h
  exact ⟨h,hs⟩

theorem quiet_of_eq (hl : log w' = log w) (hs : state w' = state w) : m.Quiet log state w w' :=
  ⟨⟨[],by simp [hl],hs.symm,rfl⟩,hs⟩

instance : IsPreorder W (m.Quiet log state) where
  refl w := ⟨passes_refl w,rfl⟩
  trans _ _ _ h h' := ⟨h.1.trans h'.1,h'.2.trans h.2⟩

theorem Passes.quiet (h : m.Passes log state os w w') (h' : m.Quiet log state w' w'') :
    m.Passes log state os w w'' := by
  simpa using h.trans h'.1

theorem Quiet.passes (h : m.Quiet log state w w') (h' : m.Passes log state os w' w'') :
    m.Passes log state os w w'' := h.1.trans h'

theorem passes_foldl {m' : Monitor E' S O} {act : W → E' → W}
    (h : ∀ w e, m.Passes log state (m'.mark (state w) e).toList w (act w e) ∧
      state (act w e) = m'.next (state w) e) (l : List E') (w : W) :
    m.Passes log state (m'.marks (state w) l) w (l.foldl act w) ∧
      state (l.foldl act w) = m'.last (state w) l := by
  induction l generalizing w with
  | nil => exact ⟨passes_refl w,rfl⟩
  | cons e l ih =>
    obtain ⟨hp,hs⟩ := h w e
    obtain ⟨hp',hs'⟩ := ih (act w e)
    rw [hs] at hp' hs'
    exact ⟨hp.trans hp',hs'⟩

end Passes
end Monitor

section Obeys

def Obeys (rule : List E → E → Prop) (l : List E) : Prop :=
  ∀ l₁ e l₂, l = l₁ ++ e::l₂ → rule l₁ e

variable {rule : List E → E → Prop} {l l' : List E} {e : E}

theorem obeys_nil : Obeys rule [] := by
  intro l₁ e l₂ h
  simp at h

theorem Obeys.of_prefix (h : Obeys rule l) (hp : l' <+: l) : Obeys rule l' := by
  rintro l₁ e l₂ rfl
  obtain ⟨l₃,rfl⟩ := hp
  exact h l₁ e (l₂ ++ l₃) (by simp)

theorem obeys_concat : Obeys rule (l ++ [e]) ↔ Obeys rule l ∧ rule l e := by
  constructor
  · intro h
    exact ⟨h.of_prefix (List.prefix_append l [e]),h l e [] rfl⟩
  · rintro ⟨h,he⟩ l₁ e' l₂ heq
    rcases List.eq_nil_or_concat l₂ with rfl | ⟨l₃,a,rfl⟩
    · obtain ⟨rfl,heq'⟩ := List.append_inj' heq rfl
      cases heq'
      exact he
    · rw [List.concat_eq_append,← List.cons_append,← List.append_assoc] at heq
      exact h l₁ e' l₃ (List.append_inj_left' heq rfl)

/-- What an allowed event keeps holds at every moment of a history that obeys the rule. -/
theorem Obeys.invariant {I : List E → Prop} (h : Obeys rule l) (h0 : I [])
    (hs : ∀ l e, I l → rule l e → I (l ++ [e])) : I l := by
  induction l using List.reverseRecOn with
  | nil => exact h0
  | append_singleton l e ih =>
    obtain ⟨hl,he⟩ := obeys_concat.mp h
    exact hs l e (ih hl) he

end Obeys
end History
end RpiSmi
