import Mathlib.Logic.Function.Basic
import Mathlib.Tactic.Common

/-!
# A buffer with two views

A processor and a device see the same buffer, each through its own stores and
those of the other that a synchronisation has delivered. `weave` interleaves a
log of the one with steps of the other.
-/

namespace RpiSmi
namespace SharedBuffer

section Put

variable {ι : Type} [DecidableEq ι] {α : ι → Type}

abbrev Store (α : ι → Type) := (i : ι) × α i

def put (m : (i : ι) → α i) (s : Store α) : (i : ι) → α i := Function.update m s.1 s.2

theorem foldl_put_of_notMem {l : List (Store α)} {i : ι} (h : ∀ s ∈ l, s.1 ≠ i)
    (m : (i : ι) → α i) : l.foldl put m i = m i := by
  induction l generalizing m with
  | nil => rfl
  | cons s l ih =>
    rw [List.foldl_cons,ih fun s' hs => h s' (List.mem_cons_of_mem s hs)]
    exact Function.update_of_ne (h s (List.mem_cons_self ..)).symm _ _

theorem foldl_put_congr {l : List (Store α)} {i : ι} (h : ∃ s ∈ l, s.1 = i)
    (m m' : (i : ι) → α i) : l.foldl put m i = l.foldl put m' i := by
  induction l generalizing m m' with
  | nil => simp at h
  | cons s l ih =>
    by_cases hl : ∃ s ∈ l, s.1 = i
    · exact ih hl _ _
    · have hnone : ∀ s ∈ l, s.1 ≠ i := fun s' hs he => hl ⟨s',hs,he⟩
      have hs : s.1 = i := by
        obtain ⟨s',hs,he⟩ := h
        rcases List.mem_cons.mp hs with rfl | hs
        · exact he
        · exact absurd he (hnone s' hs)
      subst hs
      rw [List.foldl_cons,List.foldl_cons,foldl_put_of_notMem hnone,foldl_put_of_notMem hnone]
      simp [put]

end Put

/-- The two views, and the stores that have not reached the other one. -/
structure Shared {ι : Type} (α : ι → Type) where
  cpu : (i : ι) → α i
  dev : (i : ι) → α i
  toDev : List (Store α)
  toCpu : List (Store α)

inductive Act {ι : Type} (α : ι → Type)
  | cpuStore (s : Store α)
  | devStore (s : Store α)
  | syncForDevice
  | syncForCpu

namespace Shared

variable {ι : Type} [DecidableEq ι] {α : ι → Type}

def act (b : Shared α) : Act α → Shared α
  | .cpuStore s => { b with cpu := put b.cpu s, toDev := b.toDev ++ [s] }
  | .devStore s => { b with dev := put b.dev s, toCpu := b.toCpu ++ [s] }
  | .syncForDevice => { b with dev := b.toDev.foldl put b.dev, toDev := [] }
  | .syncForCpu => { b with cpu := b.toCpu.foldl put b.cpu, toCpu := [] }

def run (b : Shared α) (l : List (Act α)) : Shared α := l.foldl act b

@[simp] theorem run_nil (b : Shared α) : b.run [] = b := rfl
@[simp] theorem run_cons (b : Shared α) (a : Act α) (l : List (Act α)) :
    b.run (a::l) = (b.act a).run l := rfl
theorem run_append (b : Shared α) (l l' : List (Act α)) : b.run (l ++ l') = (b.run l).run l' :=
  List.foldl_append

end Shared

section Views

variable {ι : Type} [DecidableEq ι] {α : ι → Type} {l : List (Act α)}

/-- An act that can change the view of the device only by a store of the device. -/
def Act.KeepsDevice : Act α → Prop
  | .syncForDevice => False
  | _ => True

def Act.KeepsCpu : Act α → Prop
  | .devStore _ => True
  | _ => False

def Act.devStore? : Act α → Option (Store α)
  | .devStore s => some s
  | _ => none

/-- Until a synchronisation the device sees what it stored itself. -/
theorem Shared.dev_run (h : ∀ a ∈ l, a.KeepsDevice) (b : Shared α) :
    (b.run l).dev = (l.filterMap Act.devStore?).foldl put b.dev := by
  induction l generalizing b with
  | nil => rfl
  | cons a l ih =>
    have ha := h a (List.mem_cons_self ..)
    rw [Shared.run_cons,ih fun a' hm => h a' (List.mem_cons_of_mem a hm)]
    cases a with
    | syncForDevice => exact absurd ha id
    | devStore | cpuStore | syncForCpu => rfl

theorem Shared.cpu_run (h : ∀ a ∈ l, a.KeepsCpu) (b : Shared α) : (b.run l).cpu = b.cpu := by
  induction l generalizing b with
  | nil => rfl
  | cons a l ih =>
    have ha := h a (List.mem_cons_self ..)
    rw [Shared.run_cons,ih fun a' hm => h a' (List.mem_cons_of_mem a hm)]
    cases a with
    | devStore => rfl
    | syncForDevice | cpuStore | syncForCpu => exact absurd ha id

end Views

section Weave

variable {E S : Type}

def weave : List E → (ℕ → List S) → List (E ⊕ S)
  | [], f => (f 0).map .inr
  | e::l, f => (f 0).map .inr ++ .inl e::weave l fun n => f (n+1)

def events (l : List (E ⊕ S)) : List E := l.filterMap Sum.getLeft?

theorem mem_events {l : List (E ⊕ S)} {e : E} : e ∈ events l ↔ .inl e ∈ l := by
  simp [events]

@[simp] theorem events_append (l l' : List (E ⊕ S)) : events (l ++ l') = events l ++ events l' :=
  List.filterMap_append
@[simp] theorem events_inl (e : E) (l : List (E ⊕ S)) : events (.inl e::l) = e::events l := rfl
@[simp] theorem events_steps (l : List S) : events (l.map .inr : List (E ⊕ S)) = [] := by
  simp [events]

theorem events_weave (l : List E) (f : ℕ → List S) : events (weave l f) = l := by
  induction l generalizing f with
  | nil => simp [weave]
  | cons e l ih => simp [weave,ih]

theorem weave_split (l l' : List E) (e : E) (f : ℕ → List S) :
    ∃ m m', weave (l ++ e::l') f = m ++ .inl e::m' ∧ events m = l ∧ events m' = l' := by
  induction l generalizing f with
  | nil => exact ⟨(f 0).map .inr,weave l' fun n => f (n+1),rfl,events_steps _,events_weave _ _⟩
  | cons e' l ih =>
    obtain ⟨m,m',hm,hl,hl'⟩ := ih fun n => f (n+1)
    refine ⟨(f 0).map .inr ++ .inl e'::m,m',?_,?_,hl'⟩
    · rw [List.cons_append,weave,hm]
      simp
    · simp [hl]

end Weave

theorem first_unique {E : Type} {P : E → Prop} {a a' b b' : List E} {e e' : E}
    (h : a ++ e::b = a' ++ e'::b') (he : P e) (he' : P e') (ha : ∀ x ∈ a, ¬ P x)
    (ha' : ∀ x ∈ a', ¬ P x) : a = a' ∧ b = b' := by
  rcases List.append_eq_append_iff.mp h with ⟨m,rfl,hm⟩ | ⟨m,rfl,hm⟩
  · cases m with
    | nil =>
      injection hm with _ hb
      exact ⟨(List.append_nil a).symm,hb⟩
    | cons x m =>
      injection hm with hx _
      exact absurd (hx ▸ he) (ha' x (by simp))
  · cases m with
    | nil =>
      injection hm with _ hb
      exact ⟨List.append_nil a',hb.symm⟩
    | cons x m =>
      injection hm with hx _
      exact absurd (hx ▸ he') (ha x (by simp))

end SharedBuffer
end RpiSmi
