import Mathlib.Algebra.Group.Int.Defs
import Mathlib.Algebra.Group.Nat.Defs
import Mathlib.Data.Finset.Basic
import RpiSmi.Interleaving

/-!
# The interrupt counter of `/dev/smi_irq`

The module counts the DONE interrupts that it acknowledges and takes one off for
each read. A read tests the counter in one step and takes one off in another,
with steps of the handler and of other tasks between.
-/

namespace RpiSmi
namespace SmiIrq

open Interleaving

def smioCsDone : BitVec 32 := 0x1 <<< 1
def erestartsys : ℤ := 512
def pollIn : BitVec 32 := 0x0001
def pollRdNorm : BitVec 32 := 0x0040

/-- The operations on an `atomic_t`, which wraps. -/
def atomicInc (v : ℤ) : ℤ := (v+1).bmod (2^32)
def atomicDec (v : ℤ) : ℤ := (v-1).bmod (2^32)

theorem atomicInc_of_lt {v : ℤ} (h : 0 ≤ v) (h' : v < 2^31-1) : atomicInc v = v+1 :=
  Int.bmod_eq_of_le (by omega) (by omega)

theorem atomicDec_of_nonneg {v : ℤ} (h : 0 ≤ v) (h' : v < 2^31) : atomicDec v = v-1 :=
  Int.bmod_eq_of_le (by omega) (by omega)

/-- Tasks are named by `ι`. Besides the counter, the state has what `smi_handler` wrote to CS,
what each call of `smi_read` returned, and where the tasks are. -/
structure IrqState (ι : Type) where
  irqCount : ℤ
  acks : List (BitVec 32)
  returns : List (ι × ℤ)
  /-- The handler has counted an interrupt and not yet woken the queue. -/
  waking : Bool
  /-- In `smi_read`, about to test the counter. -/
  testing : Finset ι
  /-- In `smi_read`, waiting on the queue. -/
  asleep : Finset ι
  /-- In `smi_read`, past the test and about to decrement. -/
  passed : Finset ι
  /-- In a poll that had no event, waiting on the queue. -/
  polling : Finset ι

inductive Move (ι : Type)
  | interrupt (csReg : BitVec 32)
  | wake
  | read (r : ι)
  | test (r : ι)
  | signal (r : ι)
  | decrement (r : ι)
  | poll (p : ι)
  | endPoll (p : ι)

namespace IrqState

variable {ι : Type}

def initial : IrqState ι where
  irqCount := 0
  acks := []
  returns := []
  waking := false
  testing := ∅
  asleep := ∅
  passed := ∅
  polling := ∅

/-- How many reads completed. One that a signal broke off did not. -/
def completed (s : IrqState ι) : ℕ := s.returns.countP fun r => r.2 == 0

/-- `smi_handler` up to the increment. The wake-up is a step of its own. -/
def smiHandler (s : IrqState ι) (csReg : BitVec 32) : IrqState ι :=
  if csReg &&& smioCsDone ≠ 0 then
    { s with
      acks := (csReg &&& smioCsDone)::s.acks
      irqCount := atomicInc s.irqCount
      waking := true }
  else s

/-- The events that `smi_poll` reports. -/
def smiPoll (s : IrqState ι) : BitVec 32 := if 0 < s.irqCount then pollIn ||| pollRdNorm else 0

theorem smiPoll_ne_zero (s : IrqState ι) : s.smiPoll ≠ 0 ↔ 0 < s.irqCount := by
  unfold smiPoll
  split <;> simp_all [pollIn,pollRdNorm]

def Idle (s : IrqState ι) (r : ι) : Prop :=
  r ∉ s.testing ∧ r ∉ s.asleep ∧ r ∉ s.passed ∧ r ∉ s.polling

section Moves

variable [DecidableEq ι]

instance (s : IrqState ι) (r : ι) : Decidable (s.Idle r) :=
  inferInstanceAs (Decidable (_ ∧ _ ∧ _ ∧ _))

/-- `wake_up_interruptible`: the readers test again, and the pollers poll again when they run. -/
def wakeUp (s : IrqState ι) : IrqState ι :=
  { s with waking := false, testing := s.testing ∪ s.asleep, asleep := ∅, polling := ∅ }

def smiReadTest (s : IrqState ι) (r : ι) : IrqState ι :=
  if 0 < s.irqCount then
    { s with testing := s.testing.erase r, passed := insert r s.passed }
  else { s with testing := s.testing.erase r, asleep := insert r s.asleep }

/-- A signal wakes a reader. The condition comes before the signal. -/
def smiReadSignal (s : IrqState ι) (r : ι) : IrqState ι :=
  if 0 < s.irqCount then
    { s with asleep := s.asleep.erase r, passed := insert r s.passed }
  else { s with asleep := s.asleep.erase r, returns := (r,-erestartsys)::s.returns }

def smiReadDecrement (s : IrqState ι) (r : ι) : IrqState ι :=
  { s with
    irqCount := atomicDec s.irqCount
    passed := s.passed.erase r
    returns := (r,0)::s.returns }

/-- A move of a task that is elsewhere changes nothing, nor does an interrupt during another. -/
def step (s : IrqState ι) : Move ι → IrqState ι
  | .interrupt csReg => if s.waking then s else s.smiHandler csReg
  | .wake => if s.waking then s.wakeUp else s
  | .read r => if s.Idle r then { s with testing := insert r s.testing } else s
  | .test r => if r ∈ s.testing then s.smiReadTest r else s
  | .signal r => if r ∈ s.asleep then s.smiReadSignal r else s
  | .decrement r => if r ∈ s.passed then s.smiReadDecrement r else s
  | .poll p =>
    if s.Idle p ∧ s.smiPoll = 0 then { s with polling := insert p s.polling } else s
  | .endPoll p => { s with polling := s.polling.erase p }

def states (ms : List (Move ι)) : List (IrqState ι) := visited step initial ms
def moves (ms : List (Move ι)) : List (IrqState ι × Move ι) := taken step initial ms

end Moves

def Queued (s : IrqState ι) (r : ι) : Prop := r ∈ s.asleep ∨ r ∈ s.polling

/-- The counter is the balance of interrupts and reads. A poll has an event exactly while an
interrupt is left to read, and then no task stays on the queue. -/
structure Accounted (s : IrqState ι) : Prop where
  nonneg : 0 ≤ s.irqCount
  balance : s.irqCount = s.acks.length-s.completed
  distinct : s.completed ≤ s.acks.length
  reported : s.smiPoll ≠ 0 ↔ s.completed < s.acks.length
  awake : s.waking = false → ∀ r, s.Queued r → s.acks.length ≤ s.completed

/-- The reader takes an interrupt that is still there, and the counter has room for another. -/
def Guarded (s : IrqState ι) : Move ι → Prop
  | .interrupt csReg => s.waking = false → csReg &&& smioCsDone ≠ 0 → s.irqCount < 2^31-1
  | .decrement r => r ∈ s.passed → 0 < s.irqCount
  | _ => True

/-- The counter has not wrapped, and nobody waits for a positive one. -/
structure Balanced (s : IrqState ι) : Prop where
  nonneg : 0 ≤ s.irqCount
  room : s.irqCount < 2^31
  balance : s.irqCount = s.acks.length-s.completed
  queued : s.waking = false → ∀ r, s.Queued r → s.irqCount ≤ 0

theorem balanced_initial : (initial : IrqState ι).Balanced := by
  constructor <;> simp [initial,completed,Queued]

theorem Balanced.accounted {s : IrqState ι} (h : s.Balanced) : s.Accounted where
  nonneg := h.nonneg
  balance := h.balance
  distinct := by
    have := h.nonneg
    have := h.balance
    omega
  reported := by
    rw [smiPoll_ne_zero,h.balance]
    omega
  awake hw r hr := by
    have := h.queued hw r hr
    have := h.balance
    omega

/-- What a move does to the account: nothing, or it counts an interrupt, or it takes one off. A
task is put on the queue only when the counter is not positive. -/
inductive Effect (s s' : IrqState ι) : Move ι → Prop
  | quiet {m : Move ι} (count : s'.irqCount = s.irqCount) (acks : s'.acks = s.acks)
      (completed : s'.completed = s.completed)
      (queued : s'.waking = false → ∀ r, s'.Queued r →
        s.irqCount ≤ 0 ∨ s.waking = false ∧ s.Queued r) : Effect s s' m
  | interrupt {csReg : BitVec 32} (free : s.waking = false) (done : csReg &&& smioCsDone ≠ 0)
      (count : s'.irqCount = atomicInc s.irqCount) (acks : s'.acks = (csReg &&& smioCsDone)::s.acks)
      (completed : s'.completed = s.completed) (waking : s'.waking = true) :
      Effect s s' (.interrupt csReg)
  | decrement {r : ι} (passed : r ∈ s.passed) (count : s'.irqCount = atomicDec s.irqCount)
      (acks : s'.acks = s.acks) (completed : s'.completed = s.completed+1)
      (queued : s'.waking = s.waking ∧ ∀ r, s'.Queued r ↔ s.Queued r) :
      Effect s s' (.decrement r)

theorem Effect.refl (s : IrqState ι) (m : Move ι) : Effect s s m :=
  .quiet rfl rfl rfl fun hw _ hr => .inr ⟨hw,hr⟩

theorem Effect.ite {s t : IrqState ι} {m : Move ι} {c : Prop} [Decidable c]
    (h : c → Effect s t m) : Effect s (if c then t else s) m := by
  split
  · exact h ‹c›
  · exact .refl s m

theorem effect_smiHandler {s : IrqState ι} (hw : s.waking = false) (csReg : BitVec 32) :
    Effect s (s.smiHandler csReg) (.interrupt csReg) :=
  .ite fun hd => .interrupt hw hd rfl rfl rfl rfl

variable [DecidableEq ι]

/-- An interrupt that is acknowledged can be read after the move. -/
def Delivered (s : IrqState ι) (m : Move ι) : Prop :=
  (s.step m).acks.length ≠ s.acks.length → (s.step m).smiPoll ≠ 0

theorem effect_wakeUp (s : IrqState ι) : Effect s s.wakeUp .wake :=
  .quiet rfl rfl rfl fun _ r hr => by simp [Queued,wakeUp] at hr

theorem effect_smiReadTest (s : IrqState ι) (r : ι) : Effect s (s.smiReadTest r) (.test r) := by
  unfold smiReadTest
  split
  · exact .quiet rfl rfl rfl fun hw _ hr => .inr ⟨hw,hr⟩
  · exact .quiet rfl rfl rfl fun _ _ _ => .inl (by omega)

theorem effect_smiReadSignal (s : IrqState ι) (r : ι) :
    Effect s (s.smiReadSignal r) (.signal r) := by
  unfold smiReadSignal
  split
  · refine .quiet rfl rfl rfl fun hw r' hr' => .inr ⟨hw,?_⟩
    exact hr'.imp_left Finset.mem_of_mem_erase
  · refine .quiet rfl rfl ?_ fun hw r' hr' => .inr ⟨hw,?_⟩
    · simp [completed,erestartsys]
    · exact hr'.imp_left Finset.mem_of_mem_erase

theorem effect_smiReadDecrement {s : IrqState ι} {r : ι} (hr : r ∈ s.passed) :
    Effect s (s.smiReadDecrement r) (.decrement r) :=
  .decrement hr rfl rfl (by simp [completed,smiReadDecrement]) ⟨rfl,fun _ => Iff.rfl⟩

theorem step_effect (s : IrqState ι) (m : Move ι) : Effect s (s.step m) m := by
  cases m with
  | interrupt csReg =>
    cases hw : s.waking
    · simpa [step,hw] using effect_smiHandler hw csReg
    · simpa [step,hw] using Effect.refl s _
  | wake => exact .ite fun _ => effect_wakeUp s
  | read r => exact .ite fun _ => .quiet rfl rfl rfl fun hw _ hr => .inr ⟨hw,hr⟩
  | test r => exact .ite fun _ => effect_smiReadTest s r
  | signal r => exact .ite fun _ => effect_smiReadSignal s r
  | decrement r => exact .ite fun hr => effect_smiReadDecrement hr
  | poll p =>
    refine .ite fun hp => .quiet rfl rfl rfl fun _ _ _ => .inl ?_
    have hcount := mt (smiPoll_ne_zero s).mpr (not_not.mpr hp.2)
    omega
  | endPoll p =>
    refine .quiet rfl rfl rfl fun hw r hr => .inr ⟨hw,?_⟩
    exact hr.imp_right Finset.mem_of_mem_erase

theorem Balanced.step {s : IrqState ι} {m : Move ι} (h : s.Balanced) (hg : s.Guarded m) :
    (s.step m).Balanced := by
  obtain ⟨hnonneg,hroom,hbalance,hqueued⟩ := h
  cases step_effect s m with
  | quiet hc ha hd hq =>
    refine ⟨hc ▸ hnonneg,hc ▸ hroom,?_,?_⟩
    · rw [hc,ha,hd]
      exact hbalance
    · intro hw r hr
      rw [hc]
      rcases hq hw r hr with hle | ⟨hw,hr⟩
      · exact hle
      · exact hqueued hw r hr
  | interrupt hfree hdone hc ha hd hw =>
    have hlt := hg hfree hdone
    rw [atomicInc_of_lt hnonneg hlt] at hc
    refine ⟨by omega,by omega,?_,?_⟩
    · rw [hc,ha,hd,hbalance,List.length_cons]
      omega
    · intro hw'
      rw [hw] at hw'
      cases hw'
  | decrement hr hc ha hd hq =>
    have hpos := hg hr
    rw [atomicDec_of_nonneg hnonneg hroom] at hc
    refine ⟨by omega,by omega,?_,?_⟩
    · rw [hc,ha,hd,hbalance]
      omega
    · intro hw r hr
      have hle := hqueued (hq.1 ▸ hw) r ((hq.2 r).mp hr)
      omega

theorem atomicInc_max : atomicInc (2^31-1) = -2^31 := by decide

theorem Balanced.not_accounted {s : IrqState ι} {m : Move ι} (h : s.Balanced)
    (hg : ¬ s.Guarded m) : ¬ (s.step m).Accounted := by
  intro ha
  have hnonneg := h.nonneg
  have hroom := h.room
  have hpos := ha.nonneg
  cases m with
  | interrupt csReg =>
    simp only [Guarded,not_forall] at hg
    obtain ⟨hw,hd,hlt⟩ := hg
    have hmax : s.irqCount = 2^31-1 := by omega
    have hcount : 0 ≤ atomicInc s.irqCount := by
      rwa [IrqState.step,hw,if_neg (by simp),smiHandler,if_pos hd] at hpos
    rw [hmax,atomicInc_max] at hcount
    omega
  | decrement r =>
    simp only [Guarded,not_forall] at hg
    obtain ⟨hr,hlt⟩ := hg
    have hcount : 0 ≤ atomicDec s.irqCount := by
      rwa [IrqState.step,if_pos hr,smiReadDecrement] at hpos
    rw [atomicDec_of_nonneg hnonneg hroom] at hcount
    omega
  | _ => exact hg trivial

theorem exact_guarded :
    Exact (step : IrqState ι → Move ι → IrqState ι) Balanced Accounted Guarded where
  keeps _ _ h hg := h.step hg
  shows _ h := h.accounted
  breaks _ _ h hg := h.not_accounted hg

theorem Balanced.delivered {s : IrqState ι} {m : Move ι} (h : s.Balanced) (hg : s.Guarded m) :
    s.Delivered m := by
  intro hacks
  cases step_effect s m with
  | quiet _ ha => exact absurd (congrArg List.length ha) hacks
  | decrement _ _ ha => exact absurd (congrArg List.length ha) hacks
  | interrupt hfree hdone hc =>
    have hnonneg := h.nonneg
    rw [smiPoll_ne_zero,hc,atomicInc_of_lt hnonneg (hg hfree hdone)]
    omega

/-- An interrupt that finds the counter negative is lost: no poll reports it, and no reader wakes
to find it. -/
theorem not_delivered_of_neg {s : IrqState ι} {csReg : BitVec 32} (hneg : s.irqCount < 0)
    (hlow : -2^31 ≤ s.irqCount) (hw : s.waking = false) (hd : csReg &&& smioCsDone ≠ 0) :
    ¬ s.Delivered (.interrupt csReg) := by
  have hinc : atomicInc s.irqCount = s.irqCount+1 :=
    Int.bmod_eq_of_le (by omega) (by omega)
  have hstep : s.step (.interrupt csReg) = s.smiHandler csReg := by
    rw [IrqState.step,hw,if_neg (by simp)]
  intro h
  rw [Delivered,hstep,smiPoll_ne_zero,smiHandler,if_pos hd] at h
  have hpos : 0 < atomicInc s.irqCount := h (by simp)
  omega

/-- Whatever tasks there are and however their moves and the interrupts follow each other, the
account is right throughout a run exactly when no reader decrements a counter that others have
meanwhile taken to 0, and the counter has room for every interrupt. -/
theorem accounted_iff (ms : List (Move ι)) :
    ((∀ s ∈ states ms, s.Accounted) ∧ ∀ p ∈ moves ms, p.1.Delivered p.2) ↔
      ∀ p ∈ moves ms, p.1.Guarded p.2 := by
  constructor
  · intro h
    exact (exact_guarded.visited_iff balanced_initial ms).mp h.1
  · intro hg
    refine ⟨(exact_guarded.visited_iff balanced_initial ms).mpr hg,fun p hp => ?_⟩
    have hbalanced : p.1.Balanced :=
      invariant_visited exact_guarded.keeps balanced_initial hg _ (mem_visited_of_taken hp)
    exact hbalanced.delivered (hg p hp)

def bothWoken : List (Move (Fin 2)) :=
  [.read 0,.test 0,.read 1,.test 1,.interrupt smioCsDone,.wake,.test 0,.test 1,.decrement 0,
    .decrement 1]

theorem accounted_not : ¬ ∀ ms : List (Move (Fin 2)),
    (∀ s ∈ states ms, s.Accounted) ∧ ∀ p ∈ moves ms, p.1.Delivered p.2 := by
  intro h
  have hlast := ((h bothWoken).1 _ (foldl_mem_visited bothWoken)).nonneg
  exact absurd hlast (by decide)

end IrqState
end SmiIrq
end RpiSmi
