import Mathlib.Data.Int.Notation
import Mathlib.Data.Nat.Notation
import Mathlib.Logic.Function.Basic
import RpiSmi.Interleaving

/-!
# Loading and unloading the interrupt module

Six acquisitions and their unwinding. A load attempt is given by what the
kernel answers to each acquisition, so the runs range over every pattern of
failures. The kernel keeps the module exactly if its init function returns 0.
-/

namespace RpiSmi
namespace SmiIrq

open Interleaving

def enomem : ℤ := 12

inductive Resource
  | mapping | chrdevRegion | cdev | smiClass | device | irq
  deriving DecidableEq, Repr

/-- The answers to the acquisitions of a load attempt, each 0 or an error code. `ioremap` has no
code, and those of `class_create` and `device_create` come as pointers. -/
structure Attempt where
  ioremap : Bool
  allocChrdevRegion : ℤ
  cdevAdd : ℤ
  classCreate : ℤ
  deviceCreate : ℤ
  requestIrq : ℤ
  deriving DecidableEq, Repr

abbrev Held := Resource → ℕ

namespace Held

def none : Held := fun _ => 0
def all : Held := fun _ => 1

def acquire (r : Resource) (h : Held) : Held := Function.update h r (h r+1)

/-- A resource that is not held is left alone, with a warning at most. -/
def release (r : Resource) (h : Held) : Held := Function.update h r (h r-1)

@[simp] theorem release_acquire (r : Resource) (h : Held) : (h.acquire r).release r = h := by
  funext r'
  by_cases hr : r' = r
  · subst hr
    simp [acquire,release]
  · simp [acquire,release,Function.update_of_ne hr]

@[simp] theorem acquire_self (r : Resource) (h : Held) : h.acquire r r = h r+1 := by
  simp [acquire]

end Held

def delCdev (h : Held) : Held := h.release .cdev
def unregisterChrdevregion (h : Held) : Held := h.release .chrdevRegion
def classDestroy (h : Held) : Held := h.release .smiClass

def smiInterruptInit (a : Attempt) (h : Held) : ℤ × Held :=
  if a.ioremap = false then (-enomem,h)
  else
    let h := h.acquire .mapping
    if a.allocChrdevRegion ≠ 0 then (a.allocChrdevRegion,h)
    else
      let h := h.acquire .chrdevRegion
      if a.cdevAdd ≠ 0 then (a.cdevAdd,unregisterChrdevregion h)
      else
        let h := h.acquire .cdev
        if a.classCreate ≠ 0 then (a.classCreate,unregisterChrdevregion (delCdev h))
        else
          let h := h.acquire .smiClass
          if a.deviceCreate ≠ 0 then
            (a.deviceCreate,unregisterChrdevregion (delCdev (classDestroy h)))
          else
            let h := h.acquire .device
            -- the answer of `request_irq` is not looked at
            (0,if a.requestIrq = 0 then h.acquire .irq else h)

def smiInterruptExit (h : Held) : Held :=
  ((((h.release .irq).release .device).release .smiClass).release .cdev).release .chrdevRegion

/-- The module as the kernel sees it between calls. -/
structure ModuleState where
  held : Held
  loaded : Bool

inductive ModuleMove
  | load (a : Attempt)
  | unload
  deriving DecidableEq, Repr

namespace ModuleState

def initial : ModuleState := ⟨.none,false⟩

/-- A loaded module is not loaded again, and only a loaded one is unloaded. -/
def step (s : ModuleState) : ModuleMove → ModuleState
  | .load a => if s.loaded then s
    else ⟨(smiInterruptInit a s.held).2,(smiInterruptInit a s.held).1 = 0⟩
  | .unload => if s.loaded then ⟨smiInterruptExit s.held,false⟩ else s

/-- A loaded module holds each resource once, and one that is not loaded holds none. -/
def Balanced (s : ModuleState) : Prop := s.held = if s.loaded then .all else .none

end ModuleState

def Attempt.error (a : Attempt) : ℤ :=
  if a.allocChrdevRegion ≠ 0 then a.allocChrdevRegion
  else if a.cdevAdd ≠ 0 then a.cdevAdd
  else if a.classCreate ≠ 0 then a.classCreate
  else a.deviceCreate

theorem smiInterruptInit_error {a : Attempt} (hm : a.ioremap = true) (he : a.error ≠ 0)
    (h : Held) : smiInterruptInit a h = (a.error,h.acquire .mapping) := by
  unfold Attempt.error at *
  unfold smiInterruptInit
  rw [if_neg (by simp [hm])]
  split_ifs at * <;> simp_all [unregisterChrdevregion,delCdev,classDestroy]

def withoutIrq (h : Held) : Held :=
  ((((h.acquire .mapping).acquire .chrdevRegion).acquire .cdev).acquire .smiClass).acquire .device

theorem smiInterruptInit_ok {a : Attempt} (hm : a.ioremap = true) (he : a.error = 0) (h : Held) :
    smiInterruptInit a h =
      (0,if a.requestIrq = 0 then (withoutIrq h).acquire .irq else withoutIrq h) := by
  unfold Attempt.error at he
  unfold smiInterruptInit
  rw [if_neg (by simp [hm])]
  split_ifs at * <;> simp_all [withoutIrq]

theorem withoutIrq_acquire : (withoutIrq .none).acquire .irq = .all := by
  funext r
  cases r <;> rfl

theorem smiInterruptExit_all : smiInterruptExit .all = Held.none.acquire .mapping := by
  funext r
  cases r <;> rfl

namespace ModuleState

/-- No load gets past `ioremap` and then fails, and a loaded module is not unloaded. -/
def Guarded (s : ModuleState) : ModuleMove → Prop
  | .load a => s.loaded = false → a.ioremap = true → a.error = 0 ∧ a.requestIrq = 0
  | .unload => s.loaded = false

theorem balanced_initial : initial.Balanced := rfl

variable {s : ModuleState}

theorem Balanced.held_of_not_loaded (h : s.Balanced) (hl : s.loaded = false) : s.held = .none := by
  rw [h,hl]
  rfl

theorem Balanced.held_of_loaded (h : s.Balanced) (hl : s.loaded = true) : s.held = .all := by
  rw [h,hl]
  rfl

theorem Balanced.step (h : s.Balanced) {m : ModuleMove} (hg : s.Guarded m) :
    (s.step m).Balanced := by
  cases m with
  | load a =>
    rcases hl : s.loaded
    · have hheld := h.held_of_not_loaded hl
      rcases hm : a.ioremap
      · simpa [ModuleState.step,hl,smiInterruptInit,hm,Balanced,enomem] using hheld
      · obtain ⟨he,hirq⟩ := hg hl hm
        simp [ModuleState.step,hl,smiInterruptInit_ok hm he,hirq,Balanced,hheld,
          withoutIrq_acquire]
    · simpa [ModuleState.step,hl] using h
  | unload =>
    have hl : s.loaded = false := hg
    simpa [ModuleState.step,hl] using h

/-- Past the guard something is held without the module, or the module lacks its handler. -/
theorem Balanced.not_step (h : s.Balanced) {m : ModuleMove} (hg : ¬ s.Guarded m) :
    ¬ (s.step m).Balanced := by
  cases m with
  | load a =>
    simp only [Guarded,Classical.not_imp] at hg
    obtain ⟨hl,hm,hfail⟩ := hg
    have hheld := h.held_of_not_loaded hl
    by_cases he : a.error = 0
    · have hirq : a.requestIrq ≠ 0 := fun hr => hfail ⟨he,hr⟩
      intro hb
      have hnone := congrFun hb .irq
      simp [ModuleState.step,hl,smiInterruptInit_ok hm he,hirq,hheld] at hnone
      exact absurd hnone (by decide)
    · intro hb
      have hone := congrFun hb .mapping
      simp [ModuleState.step,hl,smiInterruptInit_error hm he,he,hheld] at hone
  | unload =>
    have hl : s.loaded = true := by simpa [Guarded] using hg
    have hheld := h.held_of_loaded hl
    intro hb
    have hone := congrFun hb .mapping
    simp [ModuleState.step,hl,hheld,smiInterruptExit_all] at hone

theorem exact_guarded : Exact step Balanced Balanced Guarded where
  keeps _ _ h hg := h.step hg
  shows _ h := h
  breaks _ _ h hg := h.not_step hg

def maps (s : ModuleState) : ModuleMove → Bool
  | .load a => !s.loaded && a.ioremap
  | .unload => false

theorem mapping_step (s : ModuleState) (m : ModuleMove) :
    (s.step m).held .mapping = s.held .mapping+if s.maps m then 1 else 0 := by
  cases m with
  | load a =>
    rcases hl : s.loaded
    · rcases hm : a.ioremap
      · simp [ModuleState.step,maps,hl,hm,smiInterruptInit]
      · by_cases he : a.error = 0
        · have hheld : (if a.requestIrq = 0 then (withoutIrq s.held).acquire .irq
              else withoutIrq s.held) .mapping = s.held .mapping+1 := by
            split <;> rfl
          simpa [ModuleState.step,maps,hl,hm,smiInterruptInit_ok hm he] using hheld
        · simp [ModuleState.step,maps,hl,hm,smiInterruptInit_error hm he]
    · simp [ModuleState.step,maps,hl]
  | unload =>
    rcases hl : s.loaded
    · simp [ModuleState.step,maps,hl]
    · have hheld : smiInterruptExit s.held .mapping = s.held .mapping := rfl
      simpa [ModuleState.step,maps,hl] using hheld

/-- Every mapping that a run makes is still there at its end. -/
theorem mapping_foldl (s : ModuleState) (ms : List ModuleMove) :
    (ms.foldl step s).held .mapping =
      s.held .mapping+(taken step s ms).countP fun p => p.1.maps p.2 := by
  induction ms generalizing s with
  | nil => rfl
  | cons m ms ih =>
    rw [List.foldl_cons,ih,mapping_step,taken,List.countP_cons,Nat.add_assoc]
    exact congrArg _ (Nat.add_comm _ _)

/-- Through any run of loads and unloads the six resources balance if and only if no load gets past
`ioremap` and then fails, and no loaded module is unloaded. -/
theorem module_balanced_iff (ms : List ModuleMove) :
    (∀ s ∈ visited step initial ms, s.Balanced) ↔
      ∀ p ∈ taken step initial ms, p.1.Guarded p.2 :=
  exact_guarded.visited_iff balanced_initial ms

/-- A load whose `request_irq` is refused returns 0 without the handler. -/
theorem module_balanced_not : ¬ ∀ ms : List ModuleMove,
    ∀ s ∈ visited step initial ms, s.Balanced := by
  intro h
  have hlast := h [.load ⟨true,0,0,0,0,-16⟩] _ (foldl_mem_visited _)
  exact absurd (congrFun hlast .irq) (by decide)

end ModuleState
end SmiIrq
end RpiSmi
