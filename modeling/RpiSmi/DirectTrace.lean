import RpiSmi.DirectAwait

/-!
# Termination of the direct write wait

A trace gives, for every START and every poll after it, whether DONE is seen,
and every reading of the clock. The spin count stands still while a transfer is
waited for, so a wait entered below the limit never asks the clock.
-/

namespace RpiSmi

open Exec BitField

structure TraceState where
  starts : ℕ
  polls : ℕ
  readings : ℕ
  deriving DecidableEq, Repr

/-- `done k j` is what poll `j` of transfer `k` finds; transfers are counted from 1. -/
def traceEnv (done : ℕ → ℕ → Bool) (clock : ℕ → ℤ) (limits : SpinLimits) : Env TraceState where
  readReg r s :=
    if r = smioDcs then
      (SmiDcs.done.set (done s.starts s.polls).toNat 0,{ s with polls := s.polls+1 })
    else (0,s)
  writeReg r v s := if r = smioDcs ∧ SmiDcs.start.test v then ⟨s.starts+1,0,s.readings⟩ else s
  clockGettime s := (clock s.readings,{ s with readings := s.readings+1 })
  realloc _ s := (none,s)
  writeSync _ s := s
  limits := limits
  arm64 := true

section Access

variable {done : ℕ → ℕ → Bool} {clock : ℕ → ℤ} {limits : SpinLimits} {w : World TraceState}

theorem traceEnv_done :
    SmiDcs.done.test (w.value (traceEnv done clock limits) smioDcs) =
      done w.dev.starts w.dev.polls := by
  cases h : done w.dev.starts w.dev.polls
  · simp [World.value,traceEnv,h]
  · simp [World.value,traceEnv,h,Field.test_set_one _ (show 0 < SmiDcs.done.width by decide)]

@[simp] theorem traceEnv_read : (w.read (traceEnv done clock limits) smioDcs).dev =
    { w.dev with polls := w.dev.polls+1 } := rfl

theorem traceEnv_start : (w.assign (traceEnv done clock limits) smioDcs SmiDcs.start 1).dev =
    ⟨w.dev.starts+1,0,w.dev.readings⟩ := by
  simp [World.assign,World.write,traceEnv,
    Field.test_set_one _ (show 0 < SmiDcs.start.width by decide)]

theorem traceEnv_assign {f : Field 32} (hf : f.Disjoint SmiDcs.start) (v : ℕ) :
    (w.assign (traceEnv done clock limits) smioDcs f v).dev =
      { w.dev with polls := w.dev.polls+1 } := by
  have h : SmiDcs.start.test (w.value (traceEnv done clock limits) smioDcs) = false := by
    simp [World.value,traceEnv,Field.test_set_of_disjoint (show SmiDcs.done.Disjoint SmiDcs.start by
      decide)]
    rfl
  simp [World.assign,World.write,traceEnv,Field.test_set_of_disjoint hf]
  simpa [traceEnv] using h

theorem traceEnv_other {r : Reg} (hr : r ≠ smioDcs) (f : Field 32) (v : ℕ) :
    (w.assign (traceEnv done clock limits) r f v).dev = w.dev := by
  simp [World.assign,World.write,World.read,traceEnv,hr]

theorem traceEnv_stepped (increment : ℤ) (addr : BitVec 8) :
    (w.stepped (traceEnv done clock limits) increment addr).dev = w.dev := by
  unfold World.stepped
  split
  · rfl
  · exact traceEnv_other (by decide) _ _

theorem traceEnv_sendWord (data : ℕ → Word) (count : ℕ) :
    (w.sendWord (traceEnv done clock limits) data count).dev =
      ⟨w.dev.starts+1,0,w.dev.readings⟩ := by
  rw [World.sendWord,traceEnv_start]
  simp [traceEnv,show smioDd ≠ smioDcs by decide]

end Access
def Quiet (x : Drv TraceState Bool) : Prop := ∀ w, x w = (some false,w)

def Asks (clock : ℕ → ℤ) (deadline : ℤ) (x : Drv TraceState Bool) : Prop :=
  ∀ w, ∃ b v, x w = (some b,v) ∧ v.dev.starts = w.dev.starts ∧ v.dev.polls = w.dev.polls ∧
    w.dev.readings < v.dev.readings ∧
    (b = true → ∃ i < v.dev.readings, deadline ≤ clock i) ∧
    (b = false → ∀ i, w.dev.readings ≤ i → i < v.dev.readings → clock i < deadline)

section Wait

variable {done : ℕ → ℕ → Bool} {clock : ℕ → ℤ} {limits : SpinLimits} {deadline : ℤ}
  {expired : ℕ → Drv TraceState Bool} {msg : String} {code : ℤ} {spin : ℕ} {w : World TraceState}

/-- Without the clock a wait lasts until DONE is seen. -/
theorem doneLoop_quiet (hq : Quiet (expired spin)) (n : ℕ)
    (hn : done w.dev.starts (w.dev.polls+n) = true) :
    ∃ w', LoopEnds (fun _ => doneRound (traceEnv done clock limits) expired id msg code) spin w
        (.ok spin) w' ∧ w'.dev.starts = w.dev.starts ∧ w'.dev.readings = w.dev.readings := by
  induction n generalizing w with
  | zero =>
    exact ⟨_,loopEnds_exit (ends_of_run (doneRound_done (traceEnv_done.trans hn))),rfl,rfl⟩
  | succ n ih =>
    rcases hd : done w.dev.starts w.dev.polls
    · have hn' : done w.dev.starts (w.dev.polls+1+n) = true := by
        rw [← hn]
        congr 1
        omega
      obtain ⟨w',he,hs⟩ := ih (w := w.read (traceEnv done clock limits) smioDcs) hn'
      exact ⟨w',loopEnds_again (ends_of_run (doneRound_wait (traceEnv_done.trans hd) (hq _))) he,hs⟩
    · exact ⟨_,loopEnds_exit (ends_of_run (doneRound_done (traceEnv_done.trans hd))),rfl,rfl⟩

theorem doneLoop_seen (hq : Quiet (expired spin)) {n : ℕ} {r : Except ℤ ℕ} {w' : World TraceState}
    (h : loop (doneRound (traceEnv done clock limits) expired id msg code) n spin w = (some r,w')) :
    r = .ok spin ∧ w'.dev.starts = w.dev.starts ∧ ∃ j, done w.dev.starts j = true := by
  induction n generalizing w with
  | zero => cases h
  | succ n ih =>
    rcases hd : done w.dev.starts w.dev.polls
    · rw [loop_again (doneRound_wait (traceEnv_done.trans hd) (hq _)),id_eq] at h
      have hr := ih h
      exact hr
    · rw [loop_exit (doneRound_done (traceEnv_done.trans hd))] at h
      cases h
      exact ⟨rfl,rfl,_,hd⟩

theorem doneLoop_asks (ha : Asks clock deadline (expired spin)) {n : ℕ} (hn : deadline ≤ clock n)
    (m : ℕ) (hm : n = w.dev.readings+m)
    (hp : ∀ j < w.dev.polls, done w.dev.starts j = false) :
    ∃ r w', LoopEnds (fun _ => doneRound (traceEnv done clock limits) expired id msg code) spin w
        r w' ∧ w'.dev.starts = w.dev.starts ∧
      ((r = .ok spin ∧ w'.dev.readings ≤ n ∧ ∃ j, done w.dev.starts j = true) ∨
        (r = .error code ∧ (∃ i < w'.dev.readings, deadline ≤ clock i) ∧
          ∃ p, w'.dev.polls = p+1 ∧ 0 < p ∧ ∀ j < p, done w.dev.starts j = false)) := by
  induction m using Nat.strong_induction_on generalizing w with
  | _ m ih =>
    rcases hd : done w.dev.starts w.dev.polls
    · have hp' : ∀ j < w.dev.polls+1, done w.dev.starts j = false := by
        intro j hj
        rcases Nat.lt_succ_iff_lt_or_eq.mp hj with h | rfl
        · exact hp j h
        · exact hd
      obtain ⟨b,v,hx,hs,hv,hr,hb₁,hb₀⟩ := ha (w.read (traceEnv done clock limits) smioDcs)
      simp only [traceEnv_read] at hs hv hr hb₁ hb₀
      cases b with
      | true =>
        refine ⟨_,_,loopEnds_exit (ends_of_run (doneRound_late (traceEnv_done.trans hd) hx)),?_⟩
        simp only [traceEnv_assign (show SmiDcs.done.Disjoint SmiDcs.start by decide),
          traceEnv_other (show smioCs ≠ smioDcs by decide),dev_report,hs,hv]
        exact ⟨trivial,.inr ⟨trivial,hb₁ rfl,_,rfl,by omega,hp'⟩⟩
      | false =>
        -- the reading at `n` has not been taken: it would have fired
        have hlt : v.dev.readings ≤ n := by
          by_contra hge
          have := hb₀ rfl n (by omega) (by omega)
          omega
        obtain ⟨r,w',he,hs',ho⟩ := ih (n-v.dev.readings) (by omega) (w := v) (by omega)
          (by rw [hs,hv]; exact hp')
        rw [hs] at hs' ho
        exact ⟨r,w',loopEnds_again
          (ends_of_run (doneRound_wait (traceEnv_done.trans hd) hx)) he,hs',ho⟩
    · exact ⟨_,_,loopEnds_exit (ends_of_run (doneRound_done (traceEnv_done.trans hd))),rfl,
        .inl ⟨rfl,by rw [traceEnv_read]; simp only; omega,_,hd⟩⟩

end Wait

/-- All transfers seen done and `len` returned, or `code` with the last transfer polled in vain
until the clock had reached the deadline. -/
def Settled (done : ℕ → ℕ → Bool) (clock : ℕ → ℤ) (deadline code : ℤ) (len : ℕ) (r : ℤ)
    (w' : World TraceState) : Prop :=
  (r = len ∧ ∀ k, 1 ≤ k → k ≤ len → ∃ j, done k j = true) ∨
  (r = code ∧ w'.dev.starts ≤ len ∧ (∃ i < w'.dev.readings, deadline ≤ clock i) ∧
    ∃ p, w'.dev.polls = p+1 ∧ 0 < p ∧ ∀ j < p, done w'.dev.starts j = false)

section Loop

variable {done : ℕ → ℕ → Bool} {clock : ℕ → ℤ} {limits : SpinLimits} {deadline : ℤ}
  {wait : DirectWait TraceState} {data : ℕ → Word} {len limit : ℕ} {increment : ℤ}
  {w : World TraceState}

theorem writeDirectLoop_ends (hq : ∀ spin < limit, Quiet (wait.expired deadline spin))
    (ha : ∀ spin, limit ≤ spin → Asks clock deadline (wait.expired deadline spin))
    {n : ℕ} (hn : deadline ≤ clock n)
    (hd : ∀ k, 1 ≤ k → k ≤ len → k ≤ limit → ∃ j, done k j = true) (left : ℕ) {k : ℕ}
    (hk : k+left = len) (hpast : ∀ i, 1 ≤ i → i ≤ k → ∃ j, done i j = true) (addr : BitVec 8)
    (w : World TraceState) (hs : w.dev.starts = k) (hr : w.dev.readings ≤ n) :
    ∃ r w', LoopEnds (fun fuel => writeDirectRound (traceEnv done clock limits) fuel wait data len
        increment deadline) ⟨k,k,addr⟩ w r w' ∧
      Settled done clock deadline wait.timeoutCode len r w' := by
  induction left generalizing k addr w with
  | zero =>
    have hge : ¬ ((⟨k,k,addr⟩ : Direct).count : ℤ) < len := by simp only; omega
    refine ⟨_,_,loopEnds_exit ⟨0,fun _ _ => writeDirectRound_full hge⟩,.inl ⟨?_,?_⟩⟩
    · simp only
      omega
    · rwa [show len = k by omega]
  | succ left ih =>
    have hlt : ((⟨k,k,addr⟩ : Direct).count : ℤ) < len := by simp only; omega
    have hw : (w.sendWord (traceEnv done clock limits) data k).dev =
        ⟨k+1,0,w.dev.readings⟩ := by rw [traceEnv_sendWord,hs]
    have hround (fuel : ℕ) := writeDirectRound_run (traceEnv done clock limits) fuel wait data
      increment deadline w hlt
    generalize w.sendWord (traceEnv done clock limits) data k = v at hw hround
    -- a wait that has seen DONE leads to the next round
    have hnext {v' : World TraceState} (he : LoopEnds (fun _ => doneRound
          (traceEnv done clock limits) (wait.expired deadline) id wait.msg wait.timeoutCode) k v
          (.ok k) v') (hs' : v'.dev.starts = k+1) (hr' : v'.dev.readings ≤ n)
        (hd' : ∃ j, done (k+1) j = true) :
        ∃ r w', LoopEnds (fun fuel => writeDirectRound (traceEnv done clock limits) fuel wait data
          len increment deadline) ⟨k,k,addr⟩ w r w' ∧
          Settled done clock deadline wait.timeoutCode len r w' := by
      obtain ⟨r,w',hl,hset⟩ := ih (k := k+1) (by omega) (fun i hi hle => by
          rcases Nat.lt_succ_iff_lt_or_eq.mp (Nat.lt_succ_of_le hle) with h | rfl
          · exact hpast i hi (by omega)
          · exact hd') (nextAddr increment addr)
        (v'.stepped (traceEnv done clock limits) increment addr)
        (by rw [traceEnv_stepped,hs']) (by rw [traceEnv_stepped]; exact hr')
      refine ⟨r,w',loopEnds_again ?_ hl,hset⟩
      obtain ⟨N,hN⟩ := he
      refine ⟨N,fun f hf => ?_⟩
      exact (hround f).trans ((bind_run (hN f f hf hf) _).trans (bind_run (stepAddr_run _ _) _))
    by_cases hl : k < limit
    · obtain ⟨j,hj⟩ := hd (k+1) (by omega) (by omega) (by omega)
      obtain ⟨v',he,hs',hr'⟩ := doneLoop_quiet (w := v) (hq k hl) j
        (by rw [hw,Nat.zero_add]; exact hj)
      simp only [hw] at hs' hr'
      exact hnext he hs' (by rw [hr']; exact hr) ⟨j,hj⟩
    · obtain ⟨r,v',he,hs',⟨rfl,hr',hd'⟩ | ⟨rfl,hc,p,hp⟩⟩ := doneLoop_asks (w := v)
        (ha k (by omega)) hn (n-w.dev.readings) (by rw [hw]; simp only; omega) (by rw [hw]; simp)
      · simp only [hw] at hs' hd'
        exact hnext he hs' hr' hd'
      · simp only [hw] at hs' hp
        refine ⟨_,v',loopEnds_exit ?_,.inr ⟨rfl,by omega,hc,p,by rw [hs']; exact hp⟩⟩
        obtain ⟨N,hN⟩ := he
        refine ⟨N,fun f hf => ?_⟩
        exact (hround f).trans (bind_run (hN f f hf hf) _)

theorem writeDirectLoop_seen (hq : ∀ spin < limit, Quiet (wait.expired deadline spin))
    {fuel n k : ℕ} {addr : BitVec 8} {w w' : World TraceState} {r : ℤ} (hs : w.dev.starts = k)
    (h : loop (writeDirectRound (traceEnv done clock limits) fuel wait data len increment deadline)
      n ⟨k,k,addr⟩ w = (some r,w')) (i : ℕ) (hi : k < i) (hl : i ≤ len) (hm : i ≤ limit) :
    ∃ j, done i j = true := by
  induction n generalizing k addr w with
  | zero => cases h
  | succ n ih =>
    have hlt : ((⟨k,k,addr⟩ : Direct).count : ℤ) < len := by simp only; omega
    have hround := writeDirectRound_run (traceEnv done clock limits) fuel wait data increment
      deadline w hlt
    have hw : (w.sendWord (traceEnv done clock limits) data k).dev =
        ⟨k+1,0,w.dev.readings⟩ := by rw [traceEnv_sendWord,hs]
    generalize w.sendWord (traceEnv done clock limits) data k = v at hw hround
    rcases hx : loop (doneRound (traceEnv done clock limits) (wait.expired deadline) id wait.msg
        wait.timeoutCode) fuel k v with ⟨_ | o,v'⟩
    · rw [bind_run_none hx] at hround
      rw [loop_stuck hround] at h
      cases h
    · obtain ⟨rfl,hs',hd⟩ := doneLoop_seen (hq k (by omega)) hx
      rw [hw] at hs' hd
      rw [bind_run hx] at hround
      rcases Nat.lt_or_eq_of_le (Nat.succ_le_of_lt hi) with hi' | rfl
      · rw [loop_again (hround.trans (bind_run (stepAddr_run _ _) _))] at h
        exact ih (by rw [traceEnv_stepped,hs']) h hi'
      · exact hd

theorem traceEnv_entry (done : ℕ → ℕ → Bool) (clock : ℕ → ℤ) (limits : SpinLimits)
    {w : World TraceState} (hw : w.dev = ⟨0,0,0⟩) :
    ((w.clocked (traceEnv done clock limits)).assign (traceEnv done clock limits) smioDcs
      SmiDcs.write 1).dev = ⟨0,1,1⟩ := by
  rw [traceEnv_assign (by decide)]
  simp [World.clocked,traceEnv,hw]

theorem writeAwaitDirect_seen
    (hq : ∀ dl, ∀ spin < limit, Quiet (wait.expired dl spin)) (hw : w.dev = ⟨0,0,0⟩) {fuel : ℕ}
    {addr : BitVec 8} {r : ℤ} {w' : World TraceState}
    (h : writeAwaitDirect (traceEnv done clock limits) fuel wait (some data) addr len increment w =
      (some r,w')) (k : ℕ) (hk : 1 ≤ k) (hl : k ≤ len) (hm : k ≤ limit) : ∃ j, done k j = true :=
  writeDirectLoop_seen (hq _) (by rw [traceEnv_entry done clock limits hw]) h k hk hl hm

/-- The whole call: it ends if and only if no transfer awaited without the clock hangs. -/
theorem writeAwaitDirect_ends_iff (hq : ∀ dl, ∀ spin < limit, Quiet (wait.expired dl spin))
    (ha : ∀ dl spin, limit ≤ spin → Asks clock dl (wait.expired dl spin))
    (hc : ∃ n, clock 0+50000000000 ≤ clock n) (addr : BitVec 8) (hw : w.dev = ⟨0,0,0⟩) :
    (∃ r w', Ends (fun fuel => writeAwaitDirect (traceEnv done clock limits) fuel wait (some data)
        addr len increment) w r w' ∧
        Settled done clock (clock 0+50000000000) wait.timeoutCode len r w') ↔
      ∀ k, 1 ≤ k → k ≤ len → k ≤ limit → ∃ j, done k j = true := by
  have hdl : w.deadline (traceEnv done clock limits) progWriteTimeoutS = clock 0+50000000000 := by
    simp [World.deadline,traceEnv,hw,progWriteTimeoutS]
  constructor
  · rintro ⟨r,w',⟨N,hN⟩,-⟩ k
    exact writeAwaitDirect_seen hq hw (hN N le_rfl) k
  · intro hd
    obtain ⟨n,hn⟩ := hc
    have hn₁ : 1 ≤ n := by
      by_contra h
      obtain rfl : n = 0 := by omega
      omega
    have hv := traceEnv_entry done clock limits hw
    obtain ⟨r,w',hl,hset⟩ := writeDirectLoop_ends (hq _) (ha _) hn hd len (Nat.zero_add _)
      (by omega) addr _ (by rw [hv]) (by rw [hv]; exact hn₁)
    rw [← hdl] at hl
    exact ⟨r,w',hl.ends,hset⟩

end Loop

section Versions

variable {done : ℕ → ℕ → Bool} {clock : ℕ → ℤ} {limits : SpinLimits} {deadline : ℤ}

theorem asks_timeoutComplete (done : ℕ → ℕ → Bool) (limits : SpinLimits) :
    Asks clock deadline (timeoutComplete (traceEnv done clock limits) deadline) := by
  intro w
  refine ⟨_,_,rfl,rfl,rfl,Nat.lt_succ_self _,?_,?_⟩
  · intro h
    exact ⟨w.dev.readings,Nat.lt_succ_self _,of_decide_eq_true h⟩
  · intro h i hi hlt
    obtain rfl : i = w.dev.readings := Nat.le_antisymm (Nat.le_of_lt_succ hlt) hi
    exact Int.not_le.mp (of_decide_eq_false h)

theorem quiet_spinExpired {spin : ℕ} (h : spin < limits.yield.toNat) :
    Quiet (spinExpired (traceEnv done clock limits) deadline spin) := by
  intro w
  have hs : (spin : ℤ) < (traceEnv done clock limits).limits.yield := by
    simp only [traceEnv]
    omega
  have hx := Env.spinExpired_of_lt (traceEnv done clock limits) deadline hs w.dev
  simp [spinExpired_run,hx,World.after]

theorem asks_spinExpired {spin : ℕ} (h : limits.yield.toNat ≤ spin) :
    Asks clock deadline (spinExpired (traceEnv done clock limits) deadline spin) := by
  have hy : ¬ (spin : ℤ) < limits.yield := by omega
  have hh : ¬ (spin : ℤ) < limits.hard := by
    have := limits.hard_lt_yield
    omega
  intro w
  by_cases hs : (spin : ℤ) < limits.soft
  · convert asks_timeoutComplete done limits w using 6
    simp [spinExpired_run,timeoutComplete_run,Env.spinExpired,Env.timeoutSpinTier,
      Env.timeoutApply,traceEnv,hh,hy,hs]
  · by_cases hd : deadline ≤ clock w.dev.readings
    · convert asks_timeoutComplete done limits w using 6
      simp [spinExpired_run,timeoutComplete_run,Env.spinExpired,Env.timeoutSpinTier,
        Env.timeoutApply,Env.timeoutComplete,traceEnv,hh,hy,hs,hd]
    · -- both readings of the last tier are taken
      have hx : (traceEnv done clock limits).spinExpired deadline spin w.dev =
          ⟨deadline ≤ clock (w.dev.readings+1),[clock w.dev.readings,clock (w.dev.readings+1)],
            { w.dev with readings := w.dev.readings+2 }⟩ := by
        simp [Env.spinExpired,Env.timeoutSpinTier,Env.timeoutApply,Env.timeoutComplete,traceEnv,
          hh,hy,hs,hd]
      rw [spinExpired_run,hx]
      refine ⟨_,_,rfl,rfl,rfl,by simp,?_,?_⟩
      · intro h
        exact ⟨w.dev.readings+1,by simp,of_decide_eq_true h⟩
      · intro h i hi hlt
        have h₁ := Int.not_le.mp (of_decide_eq_false h)
        simp only [World.dev_after] at hlt
        rcases Nat.lt_or_eq_of_le hi with hi' | rfl
        · obtain rfl : i = w.dev.readings+1 := by omega
          exact h₁
        · exact Int.not_le.mp hd

theorem lite_quiet {spin : ℕ} (h : spin < 1025) :
    Quiet ((Lite.directWait (traceEnv done clock limits)).expired deadline spin) := by
  intro w
  simp [Lite.directWait,show ¬ 1024 < spin by omega]

theorem lite_asks {spin : ℕ} (h : 1025 ≤ spin) :
    Asks clock deadline ((Lite.directWait (traceEnv done clock limits)).expired deadline spin) := by
  have hs : 1024 < spin := by omega
  simp only [Lite.directWait,hs,if_true]
  exact asks_timeoutComplete done limits

/-- Both versions of `smi_write_await_direct`, on a clock that reaches the deadline: the call ends
as it should if and only if each of the transfers that are awaited without a look at the clock, the
first `SPIN_YIELD_LIMIT` of them in `smi.c` and 1025 in `smilite.h`, is seen done. -/
theorem smiWriteAwaitDirect_ends_iff (done : ℕ → ℕ → Bool) (clock : ℕ → ℤ) (limits : SpinLimits)
    (hc : ∃ n, clock 0+50000000000 ≤ clock n) (data : ℕ → Word) (addr : BitVec 8) (len : ℕ)
    (increment : ℤ) (w : World TraceState) :
    ((∃ r w', Ends (fun fuel => smiWriteAwaitDirect (traceEnv done clock limits) fuel (some data)
          addr len increment) { w with dev := ⟨0,0,0⟩ } r w' ∧
        Settled done clock (clock 0+50000000000) smiErrTimeout len r w') ↔
      ∀ k, 1 ≤ k → k ≤ len → k ≤ limits.yield.toNat → ∃ j, done k j = true) ∧
    ((∃ r w', Ends (fun fuel => Lite.smiWriteAwaitDirect (traceEnv done clock limits) fuel
          (some data) addr len increment) { w with dev := ⟨0,0,0⟩ } r w' ∧
        Settled done clock (clock 0+50000000000) (-eTimedOut) len r w') ↔
      ∀ k, 1 ≤ k → k ≤ len → k ≤ 1025 → ∃ j, done k j = true) :=
  ⟨writeAwaitDirect_ends_iff (fun _ _ h => quiet_spinExpired h)
      (fun _ _ h => asks_spinExpired h) hc addr rfl,
    writeAwaitDirect_ends_iff (fun _ _ h => lite_quiet h)
      (fun _ _ h => lite_asks h) hc addr rfl⟩

theorem smiWriteAwaitDirect_ends_iff_instant :
    (∃ n : ℕ, ((0 : ℕ)*60000000000 : ℤ)+50000000000 ≤ n*60000000000) ∧
    ((∃ r w', Ends (fun fuel => smiWriteAwaitDirect
          (traceEnv (fun _ _ => true) (fun n => n*60000000000) {}) fuel (some fun _ => 7) 0
          (1 : ℕ) 0) (World.init ⟨0,0,0⟩) r w' ∧
        Settled (fun _ _ => true) (fun n => n*60000000000) (((0 : ℕ)*60000000000 : ℤ)+50000000000)
          smiErrTimeout 1 r w') ↔
      ∀ k, 1 ≤ k → k ≤ 1 → k ≤ (192 : ℤ).toNat → ∃ _ : ℕ, true = true) :=
  ⟨⟨1,by decide⟩,(smiWriteAwaitDirect_ends_iff (fun _ _ => true) (fun n => n*60000000000) {}
    ⟨1,by decide⟩ (fun _ => 7) 0 1 0 (World.init ⟨0,0,0⟩)).1⟩

/-- One word to a device that never raises DONE: neither version ever returns. -/
theorem smiWriteAwaitDirect_hangs :
    (¬ ∃ r w', Ends (fun fuel => smiWriteAwaitDirect
      (traceEnv (fun _ _ => false) (fun n => n*60000000000) {}) fuel (some fun _ => 7) 0
      (1 : ℕ) 0) (World.init ⟨0,0,0⟩) r w') ∧
    ¬ ∃ r w', Ends (fun fuel => Lite.smiWriteAwaitDirect
      (traceEnv (fun _ _ => false) (fun n => n*60000000000) {}) fuel (some fun _ => 7) 0
      (1 : ℕ) 0) (World.init ⟨0,0,0⟩) r w' := by
  constructor
  · rintro ⟨r,w',N,hN⟩
    have h := writeAwaitDirect_seen (fun _ _ h => quiet_spinExpired h) rfl
      (hN N le_rfl) 1 le_rfl le_rfl (by decide)
    simp at h
  · rintro ⟨r,w',N,hN⟩
    have h := writeAwaitDirect_seen (fun _ _ h => lite_quiet h) rfl
      (hN N le_rfl) 1 le_rfl le_rfl (by decide)
    simp at h

end Versions
end RpiSmi
