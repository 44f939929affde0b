import Mathlib.Data.List.Range
import RpiSmi.IrqEvents

/-!
# The client of `/dev/smi_irq`

`test_poll.c` polls the device, reads it when there is an event, ignores what the
read returned, and prints how often that has happened. Here it is the one task
that reads, between the moves of the handler, of tasks that only poll, and of
signals that it survives.
-/

namespace RpiSmi
namespace SmiIrq

open Interleaving

/-- Where the loop is: about to poll, in `poll`, about to read, in `read`, about to print. -/
inductive ClientPc
  | poll | waiting | ready | reading | fired
  deriving DecidableEq, Repr

/-- `count` is an `int` that is printed as `%u`: its 32 bits, which wrap. -/
structure ClientState (ι : Type) where
  irq : IrqState ι
  pc : ClientPc
  count : BitVec 32
  printed : List ℕ

inductive ClientMove (ι : Type)
  | interrupt (csReg : BitVec 32)
  | wake
  | poll (p : ι)
  | endPoll (p : ι)
  | run
  | signal

namespace ClientState

variable {ι : Type} (c : ι)

def initial : ClientState ι := ⟨.initial,.poll,0,[]⟩

section Moves

variable [DecidableEq ι]

/-- The next step of the loop. In `poll` and in `read` it may have to wait. -/
def run (s : ClientState ι) : ClientState ι :=
  match s.pc with
  | .poll =>
    if s.irq.smiPoll ≠ 0 then { s with pc := .ready }
    else { s with irq := s.irq.step (.poll c), pc := .waiting }
  | .waiting => if c ∈ s.irq.polling then s else { s with pc := .poll }
  | .ready => { s with irq := s.irq.step (.read c), pc := .reading }
  | .reading =>
    if c ∈ s.irq.testing then { s with irq := s.irq.step (.test c) }
    else if c ∈ s.irq.passed then { s with irq := s.irq.step (.decrement c), pc := .fired }
    else s
  | .fired => { s with pc := .poll, count := s.count+1, printed := s.printed ++ [s.count.toNat] }

/-- A signal ends a poll with an error, and a read that is asleep with one unless it finds an
interrupt. -/
def signal (s : ClientState ι) : ClientState ι :=
  match s.pc with
  | .waiting => { s with irq := s.irq.step (.endPoll c), pc := .poll }
  | .reading =>
    if c ∈ s.irq.asleep then
      { s with
        irq := s.irq.step (.signal c)
        pc := if c ∈ (s.irq.step (.signal c)).passed then .reading else .fired }
    else s
  | _ => s

def step (s : ClientState ι) : ClientMove ι → ClientState ι
  | .interrupt csReg => { s with irq := s.irq.step (.interrupt csReg) }
  | .wake => { s with irq := s.irq.step .wake }
  | .poll p => if p = c then s else { s with irq := s.irq.step (.poll p) }
  | .endPoll p => if p = c then s else { s with irq := s.irq.step (.endPoll p) }
  | .run => s.run c
  | .signal => s.signal c

def states (ms : List (ClientMove ι)) : List (ClientState ι) := visited (step c) initial ms
def moves (ms : List (ClientMove ι)) : List (ClientState ι × ClientMove ι) :=
  taken (step c) initial ms

end Moves

def unprinted (s : ClientState ι) : ℕ := if s.pc = .fired then 1 else 0

/-- Every interrupt is printed, about to be, or still on the counter. The numbers printed are
0, 1, 2 and so on, no read waits, and none fails. -/
structure Kept (s : ClientState ι) : Prop where
  nonneg : 0 ≤ s.irq.irqCount
  balance : s.irq.irqCount+s.printed.length+s.unprinted = s.irq.acks.length
  printed : s.printed = List.range s.printed.length
  awake : c ∉ s.irq.asleep
  success : ∀ r ∈ s.irq.returns, r.2 = 0

def Room (s : ClientState ι) : ClientMove ι → Prop
  | .interrupt csReg =>
    s.irq.waking = false → csReg &&& smioCsDone ≠ 0 → s.irq.irqCount < 2^31-1
  | _ => True

instance (s : ClientState ι) (m : ClientMove ι) : Decidable (s.Room m) :=
  match m with
  | .interrupt _ => inferInstanceAs (Decidable (_ → _ → _))
  | .wake | .poll _ | .endPoll _ | .run | .signal => .isTrue trivial

def Unused (s : ClientState ι) : ClientMove ι → Prop
  | .run => s.pc = .fired → s.printed.length < 2^32
  | _ => True

def Placed (s : ClientState ι) : Prop :=
  match s.pc with
  | .poll | .fired => c ∉ s.irq.testing ∧ c ∉ s.irq.passed ∧ c ∉ s.irq.polling
  | .waiting => c ∉ s.irq.testing ∧ c ∉ s.irq.passed
  | .ready => (c ∉ s.irq.testing ∧ c ∉ s.irq.passed ∧ c ∉ s.irq.polling) ∧ 0 < s.irq.irqCount
  | .reading => (c ∈ s.irq.testing ∧ c ∉ s.irq.passed ∨ c ∉ s.irq.testing ∧ c ∈ s.irq.passed) ∧
      c ∉ s.irq.polling ∧ 0 < s.irq.irqCount

structure Sound (s : ClientState ι) : Prop where
  balanced : s.irq.Balanced
  placed : s.Placed c
  completed : s.irq.completed = s.printed.length+s.unprinted
  count : s.count = BitVec.ofNat 32 s.printed.length
  printed : s.printed = (List.range s.printed.length).map (· % 2^32)
  awake : c ∉ s.irq.asleep
  success : ∀ r ∈ s.irq.returns, r.2 = 0

variable {c} {s : ClientState ι}

theorem Sound.balance (h : s.Sound c) :
    s.irq.irqCount+s.printed.length+s.unprinted = s.irq.acks.length := by
  rw [h.balanced.balance,h.completed]
  push_cast
  omega

theorem Sound.kept (h : s.Sound c) (hlen : s.printed.length ≤ 2^32) : s.Kept c where
  nonneg := h.balanced.nonneg
  balance := h.balance
  printed := by
    have hid : (List.range s.printed.length).map (· % 2^32) = List.range s.printed.length := by
      refine (List.map_congr_left fun n hn => ?_).trans (List.map_id _)
      exact Nat.mod_eq_of_lt (lt_of_lt_of_le (List.mem_range.mp hn) hlen)
    exact h.printed.trans hid
  awake := h.awake
  success := h.success

theorem sound_initial : (initial : ClientState ι).Sound c where
  balanced := IrqState.balanced_initial
  placed := by simp [Placed,initial,IrqState.initial]
  completed := rfl
  count := rfl
  printed := rfl
  awake := by simp [initial,IrqState.initial]
  success := by simp [initial,IrqState.initial]

/-- A move of the others leaves the client where it is, and takes nothing off the counter. -/
structure Outside (c : ι) (i i' : IrqState ι) : Prop where
  testing : c ∈ i'.testing ↔ c ∈ i.testing
  passed : c ∈ i'.passed ↔ c ∈ i.passed
  asleep : c ∉ i'.asleep
  polling : c ∈ i'.polling → c ∈ i.polling
  count : i.irqCount ≤ i'.irqCount
  returns : i'.returns = i.returns

theorem Sound.outside (h : s.Sound c) {i : IrqState ι} (hb : i.Balanced)
    (ho : Outside c s.irq i) : ({ s with irq := i } : ClientState ι).Sound c where
  balanced := hb
  placed := by
    have hp := h.placed
    have hpoll : c ∉ s.irq.polling → c ∉ i.polling := mt ho.polling
    have hcount : 0 < s.irq.irqCount → 0 < i.irqCount := fun hc => lt_of_lt_of_le hc ho.count
    unfold Placed at hp ⊢
    cases hpc : s.pc <;> simp only [hpc] at hp ⊢ <;> rw [ho.testing,ho.passed]
    case poll => exact ⟨hp.1,hp.2.1,hpoll hp.2.2⟩
    case fired => exact ⟨hp.1,hp.2.1,hpoll hp.2.2⟩
    case waiting => exact hp
    case ready => exact ⟨⟨hp.1.1,hp.1.2.1,hpoll hp.1.2.2⟩,hcount hp.2⟩
    case reading => exact ⟨hp.1,hpoll hp.2.1,hcount hp.2.2⟩
  completed := by
    have hc : i.completed = s.irq.completed := by simp only [IrqState.completed,ho.returns]
    exact hc.trans h.completed
  count := h.count
  printed := h.printed
  awake := ho.asleep
  success := by simpa only [ho.returns] using h.success

variable [DecidableEq ι]

theorem outside_interrupt (h : s.Sound c) {csReg : BitVec 32}
    (hroom : s.Room (.interrupt csReg)) : Outside c s.irq (s.irq.step (.interrupt csReg)) := by
  have hcount : s.irq.irqCount ≤ (s.irq.step (.interrupt csReg)).irqCount := by
    cases IrqState.step_effect s.irq (.interrupt csReg) with
    | quiet hc => exact hc.ge
    | interrupt hfree hdone hc =>
      rw [hc,atomicInc_of_lt h.balanced.nonneg (hroom hfree hdone)]
      omega
  simp only [IrqState.step,IrqState.smiHandler] at hcount ⊢
  split_ifs at hcount ⊢ <;> exact ⟨Iff.rfl,Iff.rfl,h.awake,id,hcount,rfl⟩

theorem outside_wake (h : s.Sound c) : Outside c s.irq (s.irq.step .wake) := by
  simp only [IrqState.step]
  split_ifs
  · refine ⟨?_,Iff.rfl,?_,?_,le_rfl,rfl⟩ <;> simp [IrqState.wakeUp,h.awake]
  · exact ⟨Iff.rfl,Iff.rfl,h.awake,id,le_rfl,rfl⟩

theorem outside_poll (h : s.Sound c) {p : ι} (hp : p ≠ c) :
    Outside c s.irq (s.irq.step (.poll p)) := by
  simp only [IrqState.step]
  split_ifs
  · exact ⟨Iff.rfl,Iff.rfl,h.awake,fun hc => (Finset.mem_insert.mp hc).resolve_left hp.symm,
      le_rfl,rfl⟩
  · exact ⟨Iff.rfl,Iff.rfl,h.awake,id,le_rfl,rfl⟩

theorem outside_endPoll (h : s.Sound c) (p : ι) : Outside c s.irq (s.irq.step (.endPoll p)) :=
  ⟨Iff.rfl,Iff.rfl,h.awake,Finset.mem_of_mem_erase,le_rfl,rfl⟩

inductive Ran (c : ι) (s : ClientState ι) : ClientState ι → Prop
  | event (pc : s.pc = .poll) (left : 0 < s.irq.irqCount) : Ran c s { s with pc := .ready }
  | queue (pc : s.pc = .poll) (none : s.irq.irqCount ≤ 0)
      (step : s.irq.step (.poll c) = { s.irq with polling := insert c s.irq.polling }) :
      Ran c s { s with
        irq := { s.irq with polling := insert c s.irq.polling }
        pc := .waiting }
  | blocked (pc : s.pc = .waiting) (queued : c ∈ s.irq.polling) : Ran c s s
  | woken (pc : s.pc = .waiting) (woken : c ∉ s.irq.polling) : Ran c s { s with pc := .poll }
  | enter (pc : s.pc = .ready)
      (step : s.irq.step (.read c) = { s.irq with testing := insert c s.irq.testing }) :
      Ran c s { s with
        irq := { s.irq with testing := insert c s.irq.testing }
        pc := .reading }
  | test (pc : s.pc = .reading) (testing : c ∈ s.irq.testing)
      (step : s.irq.step (.test c) =
        { s.irq with testing := s.irq.testing.erase c, passed := insert c s.irq.passed }) :
      Ran c s { s with irq :=
        { s.irq with testing := s.irq.testing.erase c, passed := insert c s.irq.passed } }
  | decrement (pc : s.pc = .reading) (testing : c ∉ s.irq.testing)
      (step : s.irq.step (.decrement c) = s.irq.smiReadDecrement c)
      (count : (s.irq.smiReadDecrement c).irqCount = s.irq.irqCount-1) :
      Ran c s { s with irq := s.irq.smiReadDecrement c, pc := .fired }
  | print (pc : s.pc = .fired) :
      Ran c s { s with
        pc := .poll
        count := s.count+1
        printed := s.printed ++ [s.count.toNat] }

theorem Sound.ran (h : s.Sound c) : Ran c s (s.run c) := by
  have hp := h.placed
  unfold Placed at hp
  cases hpc : s.pc <;> simp only [hpc] at hp <;> simp only [ClientState.run,hpc]
  case poll =>
    split
    · exact .event hpc ((IrqState.smiPoll_ne_zero s.irq).mp ‹_›)
    · rename_i hevent
      have hstep : s.irq.step (.poll c) = { s.irq with polling := insert c s.irq.polling } :=
        if_pos ⟨⟨hp.1,h.awake,hp.2⟩,not_not.mp hevent⟩
      rw [hstep]
      exact .queue hpc (not_lt.mp (mt (IrqState.smiPoll_ne_zero s.irq).mpr hevent)) hstep
  case waiting =>
    split
    · exact .blocked hpc ‹_›
    · exact .woken hpc ‹_›
  case ready =>
    have hstep : s.irq.step (.read c) = { s.irq with testing := insert c s.irq.testing } :=
      if_pos ⟨hp.1.1,h.awake,hp.1.2⟩
    rw [hstep]
    exact .enter hpc hstep
  case reading =>
    obtain ⟨⟨htest,-⟩ | ⟨htest,hpass⟩,-,hpos⟩ := hp
    · have hstep : s.irq.step (.test c) =
          { s.irq with testing := s.irq.testing.erase c, passed := insert c s.irq.passed } :=
        (if_pos htest).trans (if_pos hpos)
      rw [if_pos htest,hstep]
      have hran := Ran.test hpc htest hstep
      rwa [hpc] at hran
    · have hstep : s.irq.step (.decrement c) = s.irq.smiReadDecrement c := if_pos hpass
      rw [if_neg htest,if_pos hpass,hstep]
      exact .decrement hpc htest hstep (atomicDec_of_nonneg h.balanced.nonneg h.balanced.room)
  case fired => exact .print hpc

theorem sound_run (h : s.Sound c) : (s.run c).Sound c := by
  have hran := h.ran
  obtain ⟨hb,hp,hcomp,hcount,hprint,hawake,hsucc⟩ := h
  unfold Placed at hp
  generalize s.run c = s' at hran ⊢
  cases hran with
  | event hpc hpos =>
    simp only [hpc] at hp
    exact ⟨hb,⟨hp,hpos⟩,by simpa [unprinted,hpc] using hcomp,hcount,hprint,hawake,hsucc⟩
  | queue hpc hzero hstep =>
    simp only [hpc] at hp
    have hb' : (s.irq.step (.poll c)).Balanced := hb.step trivial
    rw [hstep] at hb'
    have hcomp' : s.irq.completed = s.printed.length := by simpa [unprinted,hpc] using hcomp
    exact ⟨hb',⟨hp.1,hp.2.1⟩,hcomp',hcount,hprint,hawake,hsucc⟩
  | blocked hpc hqueued => exact ⟨hb,hp,hcomp,hcount,hprint,hawake,hsucc⟩
  | woken hpc hwoken =>
    simp only [hpc] at hp
    exact ⟨hb,⟨hp.1,hp.2,hwoken⟩,by simpa [unprinted,hpc] using hcomp,hcount,hprint,hawake,hsucc⟩
  | enter hpc hstep =>
    simp only [hpc] at hp
    obtain ⟨⟨htest,hpass,hpoll⟩,hpos⟩ := hp
    have hb' : (s.irq.step (.read c)).Balanced := hb.step trivial
    rw [hstep] at hb'
    have hcomp' : s.irq.completed = s.printed.length := by simpa [unprinted,hpc] using hcomp
    exact ⟨hb',⟨.inl ⟨Finset.mem_insert_self _ _,hpass⟩,hpoll,hpos⟩,hcomp',hcount,hprint,hawake,
      hsucc⟩
  | test hpc htest hstep =>
    simp only [hpc] at hp
    have hb' : (s.irq.step (.test c)).Balanced := hb.step trivial
    rw [hstep] at hb'
    exact ⟨hb',by simpa [Placed,hpc] using hp.2,hcomp,hcount,hprint,hawake,hsucc⟩
  | decrement hpc htest hstep hless =>
    simp only [hpc] at hp
    have hb' : (s.irq.step (.decrement c)).Balanced := hb.step fun _ => hp.2.2
    rw [hstep] at hb'
    refine ⟨hb',⟨htest,Finset.notMem_erase _ _,hp.2.1⟩,?_,hcount,hprint,hawake,?_⟩
    · have hcomp' : s.irq.completed = s.printed.length := by simpa [unprinted,hpc] using hcomp
      show (s.irq.smiReadDecrement c).completed = s.printed.length+1
      rw [← hcomp']
      simp [IrqState.completed,IrqState.smiReadDecrement]
    · intro r hr
      rcases List.mem_cons.mp hr with rfl | hr
      · rfl
      · exact hsucc r hr
  | print hpc =>
    simp only [hpc] at hp
    refine ⟨hb,hp,by simpa [unprinted,hpc] using hcomp,?_,?_,hawake,hsucc⟩
    · show s.count+1 = BitVec.ofNat 32 (s.printed ++ [s.count.toNat]).length
      rw [List.length_append,List.length_singleton,hcount,BitVec.ofNat_add]
      rfl
    · show s.printed ++ [s.count.toNat] = _
      rw [List.length_append,List.length_singleton,List.range_succ,List.map_append,← hprint,hcount,
        BitVec.toNat_ofNat]
      rfl

theorem sound_signal (h : s.Sound c) : (s.signal c).Sound c := by
  cases hpc : s.pc
  case waiting =>
    obtain ⟨hb,hp,hcomp,hcount,hprint,hawake,hsucc⟩ := h
    simp only [Placed,hpc] at hp
    simp only [unprinted,hpc,reduceCtorEq,if_false] at hcomp
    simp only [ClientState.signal,hpc]
    have hb' : (s.irq.step (.endPoll c)).Balanced := hb.step trivial
    exact ⟨hb',⟨hp.1,hp.2,Finset.notMem_erase _ _⟩,hcomp,hcount,hprint,hawake,hsucc⟩
  case reading =>
    simp only [ClientState.signal,hpc,if_neg h.awake]
    exact h
  all_goals
    simp only [ClientState.signal,hpc]
    exact h

theorem sound_step (h : s.Sound c) {m : ClientMove ι} (hroom : s.Room m) :
    (s.step c m).Sound c := by
  cases m with
  | interrupt csReg => exact h.outside (h.balanced.step hroom) (outside_interrupt h hroom)
  | wake => exact h.outside (h.balanced.step trivial) (outside_wake h)
  | poll p =>
    simp only [ClientState.step]
    split
    · exact h
    · exact h.outside (h.balanced.step trivial) (outside_poll h ‹_›)
  | endPoll p =>
    simp only [ClientState.step]
    split
    · exact h
    · exact h.outside (h.balanced.step trivial) (outside_endPoll h p)
  | run => exact sound_run h
  | signal => exact sound_signal h

theorem room_of_kept (h : s.Sound c) {m : ClientMove ι} (hkept : (s.step c m).Kept c) :
    s.Room m := by
  by_contra hroom
  cases m with
  | interrupt csReg =>
    simp only [Room,not_forall] at hroom
    obtain ⟨hw,hd,hge⟩ := hroom
    have hlt := h.balanced.room
    have hmax : s.irq.irqCount = 2^31-1 := by omega
    have hcount : 0 ≤ atomicInc s.irq.irqCount := by
      have hpos := hkept.nonneg
      rwa [step,IrqState.step,hw,if_neg (by simp),IrqState.smiHandler,if_pos hd] at hpos
    rw [hmax,IrqState.atomicInc_max] at hcount
    omega
  | _ => exact hroom trivial

/-- After `2^32` lines the client prints 0 again. -/
theorem unused_of_kept {m : ClientMove ι} (hkept : (s.step c m).Kept c) : s.Unused m := by
  cases m with
  | run =>
    intro hpc
    have hprinted := hkept.printed
    simp only [step,run,hpc,List.length_append,List.length_singleton,List.range_succ] at hprinted
    have hlast : s.count.toNat = s.printed.length :=
      List.singleton_inj.mp (List.append_inj_right' hprinted rfl)
    exact hlast ▸ s.count.isLt
  | _ => trivial

theorem length_printed_step (s : ClientState ι) (m : ClientMove ι) :
    (s.step c m).printed.length = s.printed.length ∨
      m = .run ∧ s.pc = .fired ∧ (s.step c m).printed.length = s.printed.length+1 := by
  cases m with
  | run =>
    cases hpc : s.pc
    case fired => exact .inr ⟨rfl,rfl,by simp [step,run,hpc]⟩
    case ready => exact .inl (by simp only [step,run,hpc])
    all_goals
      refine .inl ?_
      simp only [step,run,hpc]
      split_ifs <;> rfl
  | signal =>
    simp only [step,signal]
    split
    · exact .inl rfl
    · split_ifs <;> exact .inl rfl
    · exact .inl rfl
  | interrupt csReg => exact .inl rfl
  | wake => exact .inl rfl
  | poll p =>
    simp only [step]
    split_ifs <;> exact .inl rfl
  | endPoll p =>
    simp only [step]
    split_ifs <;> exact .inl rfl

theorem exact_room : Exact (step c) (fun s => s.Sound c ∧ s.printed.length ≤ 2^32) (Kept c)
    (fun s m => s.Room m ∧ s.Unused m) where
  keeps s m h hg := by
    refine ⟨sound_step h.1 hg.1,?_⟩
    rcases length_printed_step (c := c) s m with hlen | ⟨rfl,hpc,hlen⟩ <;> rw [hlen]
    · exact h.2
    · exact hg.2 hpc
  shows _ h := h.1.kept h.2
  breaks s m h hg hkept := hg ⟨room_of_kept h.1 hkept,unused_of_kept hkept⟩

/-- One task that reads, among any that poll, in any order of moves: throughout the run every
interrupt is accounted for and the numbers printed are the next ones, no read waits or fails,
exactly when the counter of the driver has room for each interrupt, and that of the client a new
number for each line. -/
theorem client_kept_iff (ms : List (ClientMove ι)) :
    (∀ s ∈ states c ms, s.Kept c) ↔ ∀ p ∈ moves c ms, p.1.Room p.2 ∧ p.1.Unused p.2 :=
  exact_room.visited_iff ⟨sound_initial,Nat.zero_le _⟩ ms

def left (c : ι) (s : ClientState ι) : ℕ :=
  match s.pc with
  | .poll => 5*s.irq.irqCount.toNat+1
  | .waiting => if c ∈ s.irq.polling then 0 else 5*s.irq.irqCount.toNat+2
  | .ready => 5*s.irq.irqCount.toNat
  | .reading => if c ∈ s.irq.testing then 5*s.irq.irqCount.toNat-1 else 5*s.irq.irqCount.toNat-2
  | .fired => 5*s.irq.irqCount.toNat+2

theorem left_run (h : s.Sound c) : (s.run c).left c = s.left c-1 := by
  have hran := h.ran
  obtain ⟨hb,hp,-,-,-,-,-⟩ := h
  unfold Placed at hp
  generalize s.run c = s' at hran ⊢
  cases hran with
  | event hpc hpos => simp [left,hpc]
  | queue hpc hzero hstep =>
    have hcount : s.irq.irqCount.toNat = 0 := by omega
    simp [left,hpc,hcount]
  | blocked hpc hqueued => simp [left,hpc,hqueued]
  | woken hpc hwoken => simp [left,hpc,hwoken]
  | enter hpc hstep => simp [left,hpc]
  | test hpc htest hstep =>
    simp only [left,hpc,htest,Finset.notMem_erase,if_true,if_false]
    omega
  | decrement hpc htest hstep hcount =>
    simp only [left,hpc,htest,hcount,if_false]
    simp only [hpc] at hp
    omega
  | print hpc => simp [left,hpc]

theorem run_handler (h : s.Sound c) :
    (s.run c).irq.acks = s.irq.acks ∧ (s.run c).irq.waking = s.irq.waking := by
  have hran := h.ran
  generalize s.run c = s' at hran ⊢
  cases hran <;> exact ⟨rfl,rfl⟩

theorem sound_runs (h : s.Sound c) (n : ℕ) : ((run c)^[n] s).Sound c ∧
    ((run c)^[n] s).left c = s.left c-n ∧ ((run c)^[n] s).irq.acks = s.irq.acks ∧
      ((run c)^[n] s).irq.waking = s.irq.waking := by
  induction n with
  | zero => exact ⟨h,rfl,rfl,rfl⟩
  | succ n ih =>
    obtain ⟨hs,hleft,hacks,hwaking⟩ := ih
    have hhandler := run_handler hs
    rw [Function.iterate_succ_apply']
    exact ⟨sound_run hs,by rw [left_run hs,hleft,Nat.sub_sub],hhandler.1.trans hacks,
      hhandler.2.trans hwaking⟩

theorem left_le (h : s.Sound c) : s.left c ≤ 5*s.irq.acks.length+2 := by
  have hkept := h.balance
  have hnonneg := h.balanced.nonneg
  unfold left
  split <;> (try split) <;> omega

theorem left_eq_zero (h : s.Sound c) (hl : s.left c = 0) :
    s.pc = .waiting ∧ c ∈ s.irq.polling := by
  have hp := h.placed
  unfold Placed at hp
  cases hpc : s.pc <;> simp only [hpc] at hp <;> simp only [left,hpc] at hl
  case waiting =>
    split at hl
    · exact ⟨rfl,‹_›⟩
    · omega
  case reading =>
    split at hl <;> omega
  all_goals omega

/-- After any run in which the counter had room, and once the handler has woken the queue, the
client needs at most five steps for each interrupt to print every one, and waits in `poll`. -/
theorem client_prints_all {ms : List (ClientMove ι)} (hroom : ∀ p ∈ moves c ms, p.1.Room p.2)
    {n : ℕ} (hn : 5*(ms.foldl (step c) initial).irq.acks.length+2 ≤ n) :
    ((run c)^[n] ((ms.foldl (step c) initial).step c .wake)).printed =
        (List.range (ms.foldl (step c) initial).irq.acks.length).map (· % 2^32) ∧
      ((run c)^[n] ((ms.foldl (step c) initial).step c .wake)).pc = .waiting := by
  have hkeeps (s : ClientState ι) (m : ClientMove ι) (hs : s.Sound c) (hm : s.Room m) :
      (s.step c m).Sound c := sound_step hs hm
  have hend : (ms.foldl (step c) initial).Sound c :=
    invariant_visited hkeeps sound_initial hroom _ (foldl_mem_visited ms)
  generalize ms.foldl (step c) initial = s at hend hn ⊢
  have hwoken : (s.step c .wake).Sound c := sound_step hend trivial
  have hacks : (s.step c .wake).irq.acks = s.irq.acks := by
    simp only [step,IrqState.step]
    split <;> rfl
  have hwaking : (s.step c .wake).irq.waking = false := by
    simp only [step,IrqState.step]
    split
    · rfl
    · rename_i hw
      simpa using hw
  obtain ⟨hs,hleft,hacks',hwaking'⟩ := sound_runs hwoken n
  have hle := left_le hwoken
  rw [hacks] at hle
  obtain ⟨hpc,hqueued⟩ := left_eq_zero hs (hleft.trans (by omega))
  have hzero := hs.balanced.queued (hwaking'.trans hwaking) c (.inr hqueued)
  have hbalance := hs.balance
  have hnonneg := hs.balanced.nonneg
  have hcount : ((run c)^[n] (s.step c .wake)).printed.length = s.irq.acks.length := by
    rw [hacks',hacks] at hbalance
    simp only [unprinted,hpc,reduceCtorEq,if_false] at hbalance
    omega
  exact ⟨by rw [hs.printed,hcount],hpc⟩

/-- Two interrupts, of which one comes while the client waits and one while another task polls. -/
theorem client_prints_all_two : ((run (0 : Fin 2))^[12] (([.run,.interrupt smioCsDone,.wake,.run,
      .poll 1,.interrupt smioCsDone] : List (ClientMove (Fin 2))).foldl (step 0) initial
        |>.step 0 .wake)).printed = [0,1] ∧
    ((run (0 : Fin 2))^[12] (([.run,.interrupt smioCsDone,.wake,.run,.poll 1,
      .interrupt smioCsDone] : List (ClientMove (Fin 2))).foldl (step 0) initial
        |>.step 0 .wake)).pc = .waiting :=
  client_prints_all (c := (0 : Fin 2)) (by decide +kernel) (by decide +kernel)

end ClientState
end SmiIrq
end RpiSmi
