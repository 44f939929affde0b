import RpiSmi.Refine
import RpiSmi.WriteAwait
import RpiSmi.LiteAwait

/-!
# Waits on a trace of polls

The device is a trace: what each poll of `SMI_CS` finds, and the word that lies
in `SMI_D` after it. A reading of the clock depends on the polls before it and
on the readings before it, so one clock serves waits that ask it at different
times. Without the clock a wait is a system of its own, `readStep` for reads and
`txdStep` for TXD.
-/

namespace RpiSmi

open Exec BitField

/-- Polls of `SMI_CS` so far and clock readings so far. -/
structure PollState where
  polls : ℕ
  readings : ℕ
  deriving DecidableEq, Repr

/-- `cs p` is what poll `p` of `SMI_CS` finds, `words p` what a read of `SMI_D` then finds after
`p` polls, and `clock p i` what reading `i` of the clock finds after `p` polls. -/
structure PollTrace where
  cs : ℕ → Word
  words : ℕ → Word
  clock : ℕ → ℕ → ℤ
  limits : SpinLimits

def PollTrace.Monotone (T : PollTrace) : Prop :=
  ∀ p q i j, p ≤ q → i ≤ j → T.clock p i ≤ T.clock q j

def PollTrace.env (T : PollTrace) : Env PollState where
  readReg r s :=
    if r = smioCs then (T.cs s.polls,{ s with polls := s.polls+1 })
    else if r = smioD then (T.words s.polls,s)
    else (0,s)
  writeReg _ _ s := s
  clockGettime s := (T.clock s.polls s.readings,{ s with readings := s.readings+1 })
  realloc _ s := (none,s)
  writeSync _ s := s
  limits := T.limits
  arm64 := true

/-- A check that fires exactly when one of the readings that it takes has reached the deadline. -/
def Watches (deadline : ℤ) (x : Drv PollState Bool) : Prop :=
  ∀ w, ∃ b v, x w = (some b,v) ∧ v.dev.polls = w.dev.polls ∧ v.memory = w.memory ∧
    v.sent = w.sent ∧ (v.Expired deadline ↔ w.Expired deadline ∨ b = true)

section Checks

variable (T : PollTrace) {deadline : ℤ}

theorem watches_timeoutComplete :
    Watches deadline (timeoutComplete T.env deadline) :=
  fun w => ⟨_,_,rfl,rfl,by simp,by simp,by simp [expired_after,Env.timeoutComplete]⟩

theorem watches_quiet : Watches deadline (pure false) :=
  fun w => ⟨_,_,rfl,rfl,rfl,rfl,by simp⟩

theorem watches_spinExpired (spin : ℕ) :
    Watches deadline (spinExpired T.env deadline spin) := by
  intro w
  refine ⟨_,_,rfl,?_,by simp,by simp,?_⟩
  · simp only [Env.spinExpired,Env.timeoutApply,World.dev_after]
    split
    · rfl
    · split <;> rfl
    · rfl
  · rw [expired_after]
    refine or_congr Iff.rfl ?_
    simp only [Env.spinExpired,Env.timeoutApply]
    split
    · simp [Env.timeoutComplete]
    · by_cases hc : deadline ≤ (T.env.clockGettime w.dev).1 <;>
        simp [Env.timeoutComplete,hc]
    · simp

theorem watches_lite (spin : ℕ) :
    Watches deadline (Lite.expired T.env deadline spin) := by
  unfold Lite.expired
  split
  · exact watches_timeoutComplete T
  · exact watches_quiet

end Checks

def readStep (T : PollTrace) (len : ℤ) : List Word × ℕ → (List Word × ℕ) ⊕ List Word
  | (ws,p) =>
    if ¬ (ws.length : ℤ) < len then .inr ws
    else if SmiCs.rxd.test (T.cs p) then .inl (ws ++ [T.words (p+1)],p+1)
    else .inl (ws,p+1)

/-- A wait that began with the memory `m` has stored the words of `t`, in time. -/
structure ReadAt (deadline : ℤ) (ret : Ptr) (m : Memory) (t : List Word × ℕ) (s : Poll)
    (w : World PollState) : Prop where
  count : s.count = t.1.length
  polls : w.dev.polls = t.2
  memory : w.memory = Memory.storeAll ret 0 t.1 m
  inTime : ¬ w.Expired deadline

structure ReadOut (deadline : ℤ) (ret : Ptr) (m : Memory) (ws : List Word) (r : Except ℤ ℕ)
    (w : World PollState) : Prop where
  result : r = .ok ws.length
  memory : w.memory = Memory.storeAll ret 0 ws m
  inTime : ¬ w.Expired deadline

def GivesUp (deadline : ℤ) {α : Type} (code : α) (a : α) (w : World PollState) : Prop :=
  a = code ∧ w.Expired deadline

section Read

variable {T : PollTrace} {deadline len : ℤ} {ret : Ptr} {m : Memory}

theorem ReadAt.store {ws : List Word} {s : Poll} {w : World PollState}
    (h : ReadAt deadline ret m (ws,w.dev.polls) s w) (spin : ℕ) :
    ReadAt deadline ret m (ws ++ [T.words (w.dev.polls+1)],w.dev.polls+1) ⟨s.count+1,spin⟩
      (((w.read T.env smioCs).read T.env smioD).store ret s.count
        (T.words (w.dev.polls+1))) where
  count := by simp [h.count]
  polls := by simp [PollTrace.env,show smioD ≠ smioCs by decide]
  memory := by
    rw [memory_store,memory_read,memory_read,h.memory,Memory.storeAll_concat,Nat.zero_add,h.count]
  inTime := by simpa using h.inTime

theorem ReadAt.poll {ws : List Word} {s : Poll} {w : World PollState}
    (h : ReadAt deadline ret m (ws,w.dev.polls) s w) : ReadAt deadline ret m (ws,w.dev.polls+1) s
      (w.read T.env smioCs) where
  count := h.count
  polls := rfl
  memory := by rw [memory_read,h.memory]
  inTime := by simpa using h.inTime

theorem ReadAt.check {t : List Word × ℕ} {s : Poll} {w v : World PollState}
    (h : ReadAt deadline ret m t s w) (hv : v.dev.polls = w.dev.polls) (hm : v.memory = w.memory)
    (he : v.Expired deadline ↔ w.Expired deadline ∨ false = true) (spin : ℕ) :
    ReadAt deadline ret m t ⟨s.count,spin⟩ v where
  count := h.count
  polls := hv.trans h.polls
  memory := hm.trans h.memory
  inTime := by simpa [he] using h.inTime

theorem readAwaitRound_follows : Follows (fun t o => o = readStep T len t)
    (fun _ => readAwaitRound T.env ret len deadline)
    (ReadAt deadline ret m) (ReadOut deadline ret m)
    (GivesUp deadline (.error (-smiErrTimeout))) := by
  refine follows_of_run fun t s w ht => ?_
  obtain ⟨ws,p⟩ := t
  obtain rfl : w.dev.polls = p := ht.polls
  have hcount : s.count = ws.length := ht.count
  have hvalue : w.value T.env smioCs = T.cs w.dev.polls := rfl
  by_cases hc : (ws.length : ℤ) < len
  · rcases hp : SmiCs.rxd.test (T.cs w.dev.polls)
    · obtain ⟨b,v,hx,hv,hm,-,he⟩ := watches_spinExpired T s.spin (w.read T.env smioCs)
      have hround : readAwaitRound T.env ret len deadline s w =
          (spinExpired T.env deadline s.spin >>= fun b => if b then do
              error "Read await timeout reached"
              setField T.env smioCs SmiCs.clear 1
              return .inr (.error (-smiErrTimeout))
            else return .inl ⟨s.count,s.spin+1⟩) (w.read T.env smioCs) := by
        simp [-spinExpired_run,readAwaitRound,hcount,hc,bind_apply,hvalue,hp]
      rw [hround,bind_run hx]
      cases b with
      | true => exact ⟨_,_,rfl,.inl ⟨_,rfl,rfl,by simpa using he.mpr (.inr rfl)⟩⟩
      | false =>
        refine ⟨_,v,rfl,.inr ?_⟩
        simp only [readStep,hc,hp]
        exact ht.poll.check hv hm he _
    · refine ⟨.inl ⟨s.count+1,0⟩,_,by simp [readAwaitRound,hcount,hc,bind_apply,hvalue,hp]; rfl,
        .inr ?_⟩
      simp only [readStep,hc,hp]
      rw [← hcount]
      exact ht.store 0
  · refine ⟨.inr (.ok s.count),w,by simp [readAwaitRound,hcount,hc],.inr ?_⟩
    simp only [readStep,hc]
    exact ⟨by rw [hcount],ht.memory,ht.inTime⟩

/-- In `smilite.h` the check ends every round. -/
theorem lite_readCheck_meets {t : List Word × ℕ} {s : Poll} {w : World PollState}
    (ht : ReadAt deadline ret m t s w) : ∃ r v,
    Lite.readCheck T.env deadline s w = (some r,v) ∧
      ((∃ a, r = .inr a ∧ GivesUp deadline (.error (-eTimedOut)) a v) ∨
        Meets (ReadAt deadline ret m) (ReadOut deadline ret m) (.inl t) r v) := by
  obtain ⟨b,v,hx,hv,hm,-,he⟩ := watches_lite T s.spin w
  rw [Lite.readCheck,bind_run hx]
  cases b with
  | true => exact ⟨_,_,rfl,.inl ⟨_,rfl,rfl,by simpa using he.mpr (.inr rfl)⟩⟩
  | false => exact ⟨_,v,rfl,.inr (ht.check hv hm he _)⟩

theorem lite_readAwaitRound_follows : Follows (fun t o => o = readStep T len t)
    (fun _ => Lite.readAwaitRound T.env ret len deadline)
    (ReadAt deadline ret m) (ReadOut deadline ret m)
    (GivesUp deadline (.error (-eTimedOut))) := by
  refine follows_of_run fun t s w ht => ?_
  obtain ⟨ws,p⟩ := t
  obtain rfl : w.dev.polls = p := ht.polls
  have hcount : s.count = ws.length := ht.count
  have hvalue : w.value T.env smioCs = T.cs w.dev.polls := rfl
  by_cases hc : (ws.length : ℤ) < len
  · rcases hp : SmiCs.rxd.test (T.cs w.dev.polls)
    · have hround : Lite.readAwaitRound T.env ret len deadline s w =
          Lite.readCheck T.env deadline s (w.read T.env smioCs) := by
        simp [Lite.readAwaitRound,hcount,hc,bind_apply,hvalue,hp]
      rw [hround]
      simp only [readStep,hc,hp]
      exact lite_readCheck_meets ht.poll
    · have hround : Lite.readAwaitRound T.env ret len deadline s w =
          Lite.readCheck T.env deadline ⟨s.count+1,s.spin⟩
            (((w.read T.env smioCs).read T.env smioD).store ret s.count
              (T.words (w.dev.polls+1))) := by
        simp [Lite.readAwaitRound,hcount,hc,bind_apply,hvalue,hp]
        rfl
      rw [hround]
      simp only [readStep,hc,hp]
      exact lite_readCheck_meets (ht.store s.spin)
  · refine ⟨.inr (.ok s.count),w,by simp [Lite.readAwaitRound,hcount,hc],.inr ?_⟩
    simp only [readStep,hc]
    exact ⟨by rw [hcount],ht.memory,ht.inTime⟩

end Read

end RpiSmi
