import RpiSmi.LiteDirect
import RpiSmi.Stretches

/-!
# How long a wait polls without a look at the clock

A wait that finds nothing counts its polls, and from its limit on it looks at the clock
after every one; so the registers are read only so many times in a row before it has
looked at the clock, moved a word or written a register. The write waits of direct
mode do not count their polls and are not among these.
-/

namespace RpiSmi

open Exec BitField Stretch

variable {σ : Type}

def Event.isRead : Event → Bool
  | .read .. => true
  | _ => false

/-- At most `n` reads in a row so far, and at most `t` since anything else was done. -/
abbrev World.Steady (n t : ℕ) (w : World σ) : Prop :=
  Stretch.Steady Event.isRead n t w.log

/-- At most `n` reads in a row. -/
abbrev World.ReadsWithin (n : ℕ) (w : World σ) : Prop :=
  Stretch.Within Event.isRead n w.log

section Steps

variable (env : Env σ) {n t : ℕ} {w : World σ}

theorem steady_read (h : w.Steady n t) (ht : t+1 ≤ n) (r : Reg) :
    (w.read env r).Steady n (t+1) := h.more ht _

theorem steady_write (h : w.Steady n t) (r : Reg) (v : Word) : (w.write env r v).Steady n 0 :=
  h.reset rfl

theorem steady_assign (h : w.Steady n t) (ht : t+1 ≤ n) (r : Reg) (f : Field 32) (v : ℕ) :
    (w.assign env r f v).Steady n 0 := steady_write env (steady_read env h ht r) r _

theorem steady_report (h : w.Steady n t) (msg : String) : (w.report msg).Steady n 0 := h.reset rfl

theorem steady_fetch (h : w.Steady n t) (i : ℕ) : (w.fetch i).Steady n 0 := h.reset rfl

theorem steady_store (h : w.Steady n t) (p : Ptr) (i : ℕ) (v : Word) :
    (w.store p i v).Steady n 0 := by
  cases p <;> exact Stretch.Steady.reset h rfl

theorem steady_clocked (h : w.Steady n t) : (w.clocked env).Steady n 0 := h.reset rfl

theorem steady_giveUp (h : w.Steady n t) (hn : 0 < n) (msg : String) (ops : List RegOp) :
    ((w.report msg).apply env ops).Steady n 0 := by
  have hops {v : World σ} (hv : v.Steady n 0) : (v.apply env ops).Steady n 0 := by
    induction ops generalizing v with
    | nil => exact hv
    | cons op ops ih =>
      cases op with
      | field r f x => exact ih (steady_assign env hv hn r f x)
      | value r x => exact ih (steady_write env hv r x)
  exact hops (steady_report h msg)

theorem steady_after (h : w.Steady n t) (c : Check σ) :
    (w.after c).Steady n (if c.readings = [] then t else 0) := by
  have hclock := Stretch.Steady.resets h (s := c.readings.map .clock) (by simp [Event.isRead])
  simpa [World.after] using hclock

end Steps

/-- Below `limit` polls are counted; from `limit` on the clock is looked at. -/
structure Attentive (limit n : ℕ) (expired : ℕ → Drv σ Bool) (next : ℕ → ℕ) : Prop where
  counts (spin : ℕ) : spin < limit → next spin = spin+1
  looks (spin t : ℕ) (w : World σ) : w.Steady n t → Post (expired spin) w
    (fun _ v => v.Steady n (if spin < limit then t else 0)) (World.ReadsWithin n)

section Checks

variable (env : Env σ) (deadline : ℤ) {n : ℕ}

theorem attentive_spinExpired :
    Attentive env.limits.yield.toNat n (spinExpired env deadline) (· + 1) where
  counts _ _ := rfl
  looks spin t w h := by
    refine post_of_run (spinExpired_run ..) ?_
    have hafter := steady_after h (env.spinExpired deadline spin w.dev)
    split_ifs with hs
    · rw [Env.spinExpired_of_lt env deadline (by omega)] at hafter ⊢
      exact hafter
    · have hyield := env.limits.hard_lt_yield
      have hlooked : (env.spinExpired deadline spin w.dev).readings ≠ [] := by
        rw [Env.spinExpired,Env.timeoutSpinTier,if_neg (by omega),if_neg (by omega)]
        split_ifs
        · simp [Env.timeoutApply,Env.timeoutComplete]
        · simp only [Env.timeoutApply]
          split_ifs <;> simp [Env.timeoutComplete]
      rwa [if_neg hlooked] at hafter

/-- 1024 counted polls and the one that is about to be. -/
theorem attentive_lite (next : ℕ → ℕ) (hnext : ∀ spin < 1025, next spin = spin+1) :
    Attentive 1025 n (Lite.expired env deadline) next where
  counts := hnext
  looks spin t w h := by
    rw [Lite.expired]
    split_ifs with hs hlt
    · omega
    · refine post_of_run (timeoutComplete_run ..) ?_
      have hafter := steady_after h (env.timeoutComplete deadline w.dev)
      rwa [if_neg (by simp [Env.timeoutComplete])] at hafter
    · exact post_of_run rfl h
    · omega

/-- What a check does to a stretch that has grown by `k` reads for each poll counted. -/
theorem Attentive.spent {limit : ℕ} (k : ℕ) {expired : ℕ → Drv σ Bool} {next : ℕ → ℕ}
    (hx : Attentive limit n expired next) (spin : ℕ) {w : World σ}
    (h : w.Steady n (k*min spin limit+k)) : Post (expired spin) w
      (fun _ v => v.Steady n (k*min (next spin) limit)) (World.ReadsWithin n) := by
  refine (hx.looks spin _ w h).mono (fun _ v hv => ?_) fun _ hv => hv
  split_ifs at hv with hs
  · have hmin : min (next spin) limit = min spin limit+1 := by
      rw [hx.counts spin hs]
      omega
    rw [hmin,Nat.mul_add,Nat.mul_one]
    exact hv
  · exact hv.mono (Nat.zero_le _)

end Checks

section Read

variable {env : Env σ} {deadline len increment : ℤ} {ret : Ptr} {w : World σ} {limit n : ℕ}

def ReadRound (limit : ℕ) : Poll ⊕ Except ℤ ℕ → World σ → Prop
  | .inl s, w => w.Steady (limit+2) (min s.spin limit)
  | .inr _, w => w.Steady (limit+2) limit

theorem post_readLoop {body : Poll → Drv σ (Poll ⊕ Except ℤ ℕ)} {rest : Except ℤ ℕ → Drv σ ℤ}
    (hbody : ∀ s w, World.Steady (limit+2) (min s.spin limit) w →
      Post (body s) w (ReadRound limit) (World.ReadsWithin (limit+2)))
    (hrest : ∀ r w, World.Steady (limit+2) limit w → (rest r w).2.ReadsWithin (limit+2))
    (fuel : ℕ) (h : w.Steady (limit+2) 0) : Post (loop body fuel ⟨0,0⟩ >>= rest) w
      (fun _ => World.ReadsWithin (limit+2)) (World.ReadsWithin (limit+2)) := by
  have hstart : w.Steady (limit+2) (min (⟨0,0⟩ : Poll).spin limit) := h.mono (Nat.zero_le _)
  refine post_bind (post_loop (fun (s : Poll) v => v.Steady (limit+2) (min s.spin limit))
    (fun _ _ hv => hv.within) (fun s v hv => ?_) fuel _ w hstart)
  refine (hbody s v hv).mono (fun r u hu => ?_) fun _ hu => hu
  cases r with
  | inl s' => exact hu
  | inr r => exact post_iff_state.mpr (hrest r u hu)

theorem post_readAwaitRound (s : Poll)
    (h : w.Steady (env.limits.yield.toNat+2) (min s.spin env.limits.yield.toNat)) :
    Post (readAwaitRound env ret len deadline s) w (ReadRound env.limits.yield.toNat)
      (World.ReadsWithin (env.limits.yield.toNat+2)) := by
  refine post_ite (fun _ => post_of_run rfl (h.mono (Nat.min_le_right ..))) fun _ => ?_
  have hpoll := steady_read env h (by omega) smioCs
  refine post_step rfl ?_
  refine post_ite (fun _ => ?_) fun _ => ?_
  · have htaken := steady_read env hpoll (by omega) smioD
    have hword := steady_store htaken ret s.count ((w.read env smioCs).value env smioD)
    exact post_of_run rfl (hword.mono (Nat.zero_le _))
  · have hcheck := (attentive_spinExpired env deadline).spent 1 s.spin (hpoll.mono (by omega))
    refine post_bind (hcheck.mono (fun late v hv => ?_) fun _ hv => hv)
    rw [Nat.one_mul] at hv
    refine post_ite (fun _ => ?_) fun _ => post_of_run rfl hv
    have hgave := steady_giveUp env hv (by omega) "Read await timeout reached"
      [.field smioCs SmiCs.clear 1]
    exact post_of_run rfl (hgave.mono (Nat.zero_le _))

theorem post_readAwaitEnd (r : Except ℤ ℕ) (h : w.Steady (limit+2) limit) :
    (readAwaitEnd env len r w).2.ReadsWithin (limit+2) := by
  cases r with
  | error code => exact h.within
  | ok count =>
    have hrest {v : World σ} (hv : v.Steady (limit+2) limit) :
        Post (readField env smioCs SmiCs.rxd >>= fun b =>
          if b then error "Leftover data in the RX FIFO" >>= fun _ => pure (count : ℤ)
          else pure (count : ℤ)) v (fun _ => World.ReadsWithin (limit+2))
          (World.ReadsWithin (limit+2)) := by
      have hpoll := steady_read env hv (by omega) smioCs
      have hleft := (steady_report hpoll "Leftover data in the RX FIFO").within
      refine post_step rfl ?_
      exact post_ite (fun _ => post_of_run rfl hleft) fun _ => post_of_run rfl hpoll.within
    have hlost := steady_report h "Transfer complete but data lost. Slow the clock"
    apply post_iff_state.mp
    refine post_ite (fun _ => ?_) fun _ => hrest h
    refine post_step rfl ?_
    exact hrest (hlost.mono (Nat.zero_le _))

theorem post_lite_readAwaitEnd (r : Except ℤ ℕ) (h : w.Steady (limit+2) limit) :
    (Lite.readAwaitEnd env r w).2.ReadsWithin (limit+2) := by
  cases r with
  | error code => exact h.within
  | ok count =>
    have hpoll := steady_read env h (by omega) smioCs
    have hleft := (steady_report hpoll "Leftover data in the RX FIFO").within
    apply post_iff_state.mp
    refine post_step rfl ?_
    exact post_ite (fun _ => post_of_run rfl hleft) fun _ => post_of_run rfl hpoll.within

theorem post_lite_readCheck (s : Poll) (h : w.Steady 1027 (min s.spin 1025+1)) :
    Post (Lite.readCheck env deadline s) w (ReadRound 1025) (World.ReadsWithin 1027) := by
  have hcheck := (attentive_lite env deadline (· + 1) fun _ _ => rfl).spent 1 s.spin
    (by rwa [Nat.one_mul])
  refine post_bind (hcheck.mono (fun late v hv => ?_) fun _ hv => hv)
  rw [Nat.one_mul] at hv
  refine post_ite (fun _ => ?_) fun _ => post_of_run rfl hv
  have hgave := steady_giveUp env hv (by omega) "Programmed read data fetch timeout"
    [.field smioCs SmiCs.clear 1]
  exact post_of_run rfl (hgave.mono (Nat.zero_le _))

theorem post_lite_readAwaitRound (s : Poll) (h : w.Steady 1027 (min s.spin 1025)) :
    Post (Lite.readAwaitRound env ret len deadline s) w (ReadRound 1025)
      (World.ReadsWithin 1027) := by
  refine post_ite (fun _ => post_of_run rfl (h.mono (Nat.min_le_right ..))) fun _ => ?_
  have hpoll := steady_read env h (by omega) smioCs
  refine post_step rfl ?_
  refine post_ite (fun _ => ?_) fun _ => post_lite_readCheck s hpoll
  have htaken := steady_read env hpoll (by omega) smioD
  have hword := steady_store htaken ret s.count ((w.read env smioCs).value env smioD)
  refine post_step rfl ?_
  refine post_step rfl ?_
  exact post_lite_readCheck _ (hword.mono (Nat.zero_le _))

end Read

section Write

variable {env : Env σ} {deadline len : ℤ} {data : ℕ → Word} {w : World σ} {wait : WriteWait σ}
  {limit : ℕ}

/-- What a round of a FIFO write wait keeps: the poll of AFERR is the last of a round. -/
def WriteRound (limit : ℕ) : Poll ⊕ ℤ → World σ → Prop
  | .inl s, w => w.Steady (3*limit+3) (3*min s.spin limit+1)
  | .inr _, w => w.ReadsWithin (3*limit+3)

theorem post_writeLoop {body : Poll → Drv σ (Poll ⊕ ℤ)}
    (hbody : ∀ s w, World.Steady (3*limit+3) (3*min s.spin limit+1) w →
      Post (body s) w (WriteRound limit) (World.ReadsWithin (3*limit+3))) (fuel : ℕ)
    (h : w.Steady (3*limit+3) 0) : (loop body fuel ⟨0,0⟩ w).2.ReadsWithin (3*limit+3) := by
  have hstart : w.Steady (3*limit+3) (3*min (⟨0,0⟩ : Poll).spin limit+1) := h.mono (Nat.zero_le _)
  apply post_iff_state.mp
  refine post_loop (fun (s : Poll) v => v.Steady (3*limit+3) (3*min s.spin limit+1))
    (fun _ _ hv => hv.within) (fun s v hv => ?_) fuel _ w hstart
  refine (hbody s v hv).mono (fun r u hu => ?_) fun _ hu => hu
  cases r <;> exact hu

def TxdRound (limit : ℕ) : ℕ ⊕ Except ℤ ℕ → World σ → Prop
  | .inl spin, w => w.Steady (3*limit+3) (3*min spin limit+2)
  | .inr (.ok spin), w => w.Steady (3*limit+3) (3*min spin limit+3)
  | .inr (.error _), w => w.ReadsWithin (3*limit+3)

section

variable (hx : Attentive limit (3*limit+3) (wait.expired deadline) wait.next)

include hx

theorem post_txdRound (spin : ℕ) (h : w.Steady (3*limit+3) (3*min spin limit+2)) :
    Post (wait.txdRound env deadline spin) w (TxdRound limit)
      (World.ReadsWithin (3*limit+3)) := by
  have hpoll := steady_read env h (by omega) smioCs
  refine post_step rfl ?_
  refine post_ite (fun _ => post_of_run rfl hpoll) fun _ => ?_
  refine post_bind ((hx.spent 3 spin hpoll).mono (fun late v hv => ?_) fun _ hv => hv)
  have hgave := steady_giveUp env hv (by omega) wait.fullMsg
    [.field smioCs SmiCs.clear 1,.field smioCs SmiCs.done 1]
  exact post_ite (fun _ => post_of_run rfl hgave.within) fun _ =>
    post_of_run rfl (hv.mono (by omega))

theorem post_txdLoop (fuel spin : ℕ) (h : w.Steady (3*limit+3) (3*min spin limit+2)) :
    Post (loop (wait.txdRound env deadline) fuel spin) w
      (fun r v => TxdRound limit (.inr r) v) (World.ReadsWithin (3*limit+3)) := by
  refine post_loop (fun spin w => w.Steady (3*limit+3) (3*min spin limit+2))
    (fun _ _ hw => hw.within) (fun spin v hv => ?_) fuel spin w h
  refine (post_txdRound hx spin hv).mono (fun r u hu => ?_) fun _ hu => hu
  cases r <;> exact hu

theorem post_checks (s : Poll) (h : w.Steady (3*limit+3) (3*min s.spin limit+3)) :
    Post (wait.checks env deadline s) w (WriteRound limit) (World.ReadsWithin (3*limit+3)) := by
  refine post_bind ((hx.spent 3 s.spin h).mono (fun late v hv => ?_) fun _ hv => hv)
  refine post_ite (fun _ => ?_) fun _ => ?_
  · have hgave := steady_giveUp env hv (by omega) wait.lateMsg
      [.field smioCs SmiCs.clear 1,.field smioCs SmiCs.done 1]
    exact post_of_run rfl hgave.within
  · have hpoll := steady_read env hv (by omega) smioCs
    refine post_step rfl ?_
    have hprotected := steady_giveUp env hpoll (by omega)
      "Protected registers written to during write"
      [.field smioCs SmiCs.aferr 1,.field smioCs SmiCs.clear 1]
    exact post_ite (fun _ => post_of_run rfl hprotected.within) fun _ => post_of_run rfl hpoll

end

theorem post_writeAwaitRound (fuel : ℕ) (s : Poll) (h : w.Steady
      (3*env.limits.yield.toNat+3) (3*min s.spin env.limits.yield.toNat+1)) :
    Post (writeAwaitRound env fuel data len deadline s) w (WriteRound env.limits.yield.toNat)
      (World.ReadsWithin (3*env.limits.yield.toNat+3)) := by
  have hx : Attentive env.limits.yield.toNat (3*env.limits.yield.toNat+3)
      ((writeWait env).expired deadline) (writeWait env).next := attentive_spinExpired env deadline
  have hpoll := steady_read env h (by omega) smioCs
  refine post_step rfl ?_
  refine post_ite (fun _ => post_of_run rfl hpoll.within) fun _ => ?_
  refine post_bind ((post_txdLoop hx fuel s.spin hpoll).mono (fun r v hv => ?_) fun _ hv => hv)
  rcases r with code | spin
  · exact post_of_run rfl hv
  · have hpush := steady_write env (steady_fetch hv s.count) smioD (data s.count)
    refine post_ite (fun _ => ?_) fun _ => post_checks hx ⟨s.count,spin⟩ hv
    refine post_step rfl ?_
    refine post_step rfl ?_
    exact post_checks hx _ (hpush.mono (Nat.zero_le _))

theorem post_lite_writeRoom (fuel : ℕ) (s : Poll) (h : w.Steady 3078 (3*min s.spin 1025+2)) :
    Post (Lite.writeRoom env fuel deadline s) w (WriteRound 1025) (World.ReadsWithin 3078) := by
  have hx : Attentive 1025 (3*1025+3) ((Lite.writeWait env).expired deadline)
      (Lite.writeWait env).next :=
    attentive_lite env deadline _ fun spin hspin => by
      show (if 1024 < spin then 0 else spin)+1 = spin+1
      rw [if_neg (by omega)]
  refine post_bind ((post_txdLoop hx fuel s.spin h).mono (fun r v hv => ?_) fun _ hv => hv)
  rcases r with code | spin
  · exact post_of_run rfl hv
  · exact post_checks hx ⟨s.count,spin⟩ hv

theorem post_lite_writeAwaitRound (fuel : ℕ) (s : Poll)
    (h : w.Steady 3078 (3*min s.spin 1025+1)) :
    Post (Lite.writeAwaitRound env fuel data len deadline s) w (WriteRound 1025)
      (World.ReadsWithin 3078) := by
  have hpoll := steady_read env h (by omega) smioCs
  refine post_step rfl ?_
  refine post_ite (fun _ => post_of_run rfl hpoll.within) fun _ => ?_
  refine post_ite (fun _ => ?_) fun _ => post_lite_writeRoom fuel s hpoll
  have hpush := steady_write env (steady_fetch hpoll s.count) smioD (data s.count)
  refine post_step rfl ?_
  refine post_step rfl ?_
  exact post_lite_writeRoom fuel _ (hpush.mono (Nat.zero_le _))

end Write

section Direct

variable {env : Env σ} {deadline len increment : ℤ} {ret : Ptr} {w : World σ} {limit : ℕ}

def DoneRound (limit : ℕ) : ℕ ⊕ Except ℤ ℕ → World σ → Prop
  | .inl spin, w => w.Steady (limit+2) (min spin limit)
  | .inr (.ok _), w => w.Steady (limit+2) (limit+1)
  | .inr (.error _), w => w.ReadsWithin (limit+2)

theorem post_doneLoop (env : Env σ) {expired : ℕ → Drv σ Bool} {next : ℕ → ℕ}
    (hx : Attentive limit (limit+2) expired next) (msg : String) (code : ℤ) (fuel spin : ℕ)
    (h : w.Steady (limit+2) (min spin limit)) :
    Post (loop (doneRound env expired next msg code) fuel spin) w
      (fun r v => DoneRound limit (.inr r) v) (World.ReadsWithin (limit+2)) := by
  have hround (spin : ℕ) (w : World σ) (hw : w.Steady (limit+2) (min spin limit)) :
      Post (doneRound env expired next msg code spin) w (DoneRound limit)
        (World.ReadsWithin (limit+2)) := by
    have hpoll := steady_read env hw (by omega) smioDcs
    refine post_step rfl ?_
    refine post_ite (fun _ => post_of_run rfl (hpoll.mono (by omega))) fun _ => ?_
    have hcheck := hx.spent 1 spin (hpoll.mono (by omega))
    refine post_bind (hcheck.mono (fun late v hv => ?_) fun _ hv => hv)
    rw [Nat.one_mul] at hv
    have hgave := steady_giveUp env hv (by omega) msg
      [.field smioCs SmiCs.clear 1,.field smioDcs SmiDcs.done 1]
    exact post_ite (fun _ => post_of_run rfl hgave.within) fun _ => post_of_run rfl hv
  refine post_loop (fun spin w => w.Steady (limit+2) (min spin limit)) (fun _ _ hw => hw.within)
    (fun spin v hv => ?_) fuel spin w h
  refine (hround spin v hv).mono (fun r u hu => ?_) fun _ hu => hu
  cases r <;> exact hu

def DirectRound (n : ℕ) : Direct ⊕ ℤ → World σ → Prop
  | .inl _, w => w.Steady n 0
  | .inr _, w => w.ReadsWithin n

theorem post_stepAddr {n : ℕ} (hn : 0 < n) (count spin : ℕ) (addr : BitVec 8)
    (h : w.Steady n 0) : Post (stepAddr env increment addr >>= fun addr =>
        pure (.inl ⟨count,spin,addr⟩)) w (DirectRound (σ := σ) n) (World.ReadsWithin n) := by
  have hassign (a : BitVec 8) := steady_assign env h hn smioDa SmiDa.addr a.toNat
  have hnext {v : World σ} (hv : v.Steady n 0) (a : BitVec 8) : Post
      (pure (.inl ⟨count,spin,a⟩) : Drv σ (Direct ⊕ ℤ)) v (DirectRound n) (World.ReadsWithin n) :=
    post_of_run rfl hv
  apply post_bind
  refine post_ite (fun _ => ?_) fun _ => post_ite (fun _ => ?_) fun _ => ?_
  · exact post_of_run rfl (hnext (hassign _) _)
  · exact post_of_run rfl (hnext (hassign _) _)
  · exact post_of_run rfl (hnext h _)

theorem post_takeWord (s : Direct) (spin : ℕ) (h : w.Steady (limit+2) (limit+1)) :
    Post (readReg env smioDd >>= fun v => storeWord ret s.count (v &&& 0xFF) >>= fun _ =>
        setField env smioDcs SmiDcs.done 1 >>= fun _ => stepAddr env increment s.addr >>=
          fun addr => pure (.inl ⟨s.count+1,spin,addr⟩)) w (DirectRound (limit+2))
      (World.ReadsWithin (limit+2)) := by
  have htaken := steady_read env h (by omega) smioDd
  have hword := steady_store htaken ret s.count (w.value env smioDd &&& 0xFF)
  have hdone := steady_assign env hword (by omega) smioDcs SmiDcs.done 1
  refine post_step rfl ?_
  refine post_step rfl ?_
  refine post_step rfl ?_
  exact post_stepAddr (by omega) _ _ _ hdone

theorem post_readDirectRound (fuel : ℕ) (s : Direct)
    (h : w.Steady (env.limits.yield.toNat+2) 0) :
    Post (readDirectRound env fuel ret len increment deadline s) w
      (DirectRound (env.limits.yield.toNat+2))
      (World.ReadsWithin (env.limits.yield.toNat+2)) := by
  refine post_ite (fun _ => post_of_run rfl h.within) fun _ => post_step rfl ?_
  have hstart := steady_assign env h (by omega) smioDcs SmiDcs.start 1
  have hloop := post_doneLoop env (attentive_spinExpired env deadline)
    "Direct read await timeout reached" smiErrTimeout fuel s.spin (hstart.mono (Nat.zero_le _))
  refine post_bind (hloop.mono (fun r v hv => ?_) fun _ hv => hv)
  rcases r with code | spin
  · exact post_of_run rfl hv
  · exact post_takeWord s spin hv

theorem post_lite_readDirectRound (fuel : ℕ) (s : Direct) (h : w.Steady 1027 0) :
    Post (Lite.readDirectRound env fuel ret len increment deadline s) w (DirectRound 1027)
      (World.ReadsWithin 1027) := by
  refine post_ite (fun _ => post_of_run rfl h.within) fun _ => post_step rfl ?_
  have hstart := steady_assign env h (by omega) smioDcs SmiDcs.start 1
  have hx : Attentive 1025 (1025+2) (Lite.expired env deadline)
      (fun spin => (if 1024 < spin then 0 else spin)+1) :=
    attentive_lite env deadline _ fun spin hspin => by rw [if_neg (by omega)]
  have hloop := post_doneLoop env hx "Direct read timeout" (-eTimedOut) fuel s.spin
    (hstart.mono (Nat.zero_le _))
  refine post_bind (hloop.mono (fun r v hv => ?_) fun _ hv => hv)
  rcases r with code | spin
  · exact post_of_run rfl hv
  · exact post_takeWord s spin hv

theorem post_directLoop {n : ℕ} {body : Direct → Drv σ (Direct ⊕ ℤ)}
    (hbody : ∀ s w, World.Steady n 0 w → Post (body s) w (DirectRound n) (World.ReadsWithin n))
    (fuel : ℕ) (s : Direct) (h : w.Steady n 0) :
    Post (loop body fuel s) w (fun _ => World.ReadsWithin n) (World.ReadsWithin n) := by
  refine post_loop (fun _ w => w.Steady n 0) (fun _ _ hw => hw.within) (fun s v hv => ?_) fuel s w h
  refine (hbody s v hv).mono (fun r u hu => ?_) fun _ hu => hu
  cases r <;> exact hu

theorem post_dmaAwaitRound (delay : ℕ) (h : w.Steady 1 0) :
    Post (dmaAwaitRound env deadline delay) w
      (fun r v => Sum.elim (fun _ => v.Steady 1 0) (fun _ => v.ReadsWithin 1) r)
      (World.ReadsWithin 1) := by
  have hpoll := steady_read env h le_rfl dmaoCs
  refine post_step rfl ?_
  refine post_ite (fun _ => post_of_run rfl hpoll.within) fun _ => ?_
  have hlook := steady_after hpoll (env.timeoutComplete deadline (w.read env dmaoCs).dev)
  rw [if_neg (by simp [Env.timeoutComplete])] at hlook
  have hgave := steady_giveUp env hlook (by omega) "DMA transfer timeout"
    [.field dmaoCs DmaCs.abort 1]
  refine post_step (timeoutComplete_run ..) ?_
  exact post_ite (fun _ => post_of_run rfl hgave.within) fun _ => post_of_run rfl hlook

end Direct

theorem readsWithin_smiDmaAwait (env : Env σ) (fuel : ℕ) (w : World σ) :
    (smiDmaAwait env fuel w.fresh).2.ReadsWithin 1 := by
  have hstart : (w.fresh.clocked env).Steady 1 0 := steady_clocked env steady_nil
  apply post_iff_state.mp
  refine post_step (startTimeout_run ..) ?_
  refine post_loop (fun _ w => w.Steady 1 0) (fun _ _ hw => hw.within) (fun delay v hv => ?_) fuel
    1000 _ hstart
  refine (post_dmaAwaitRound delay hv).mono (fun r u hu => ?_) fun _ hu => hu
  cases r <;> exact hu

/-- The waits that count their polls, each with the most register reads it makes in a row. -/
structure WaitsLookOften (env : Env σ) (fuel : ℕ) (ret : Ptr) (data : Option (ℕ → Word))
    (addr : BitVec 8) (len increment : ℤ) (w : World σ) : Prop where
  readAwait : (smiReadAwait env fuel ret len w.fresh).2.ReadsWithin (env.limits.yield.toNat+2)
  writeAwait : (smiWriteAwait env fuel data len w.fresh).2.ReadsWithin
    (3*env.limits.yield.toNat+3)
  readDirect : (smiReadAwaitDirect env fuel ret addr len increment w.fresh).2.ReadsWithin
    (env.limits.yield.toNat+2)
  dmaAwait : (smiDmaAwait env fuel w.fresh).2.ReadsWithin 1
  liteReadAwait : (Lite.smiReadAwait env fuel ret len w.fresh).2.ReadsWithin 1027
  liteWriteAwait : (Lite.smiWriteAwait env fuel data len w.fresh).2.ReadsWithin 3078
  liteReadDirect : (Lite.smiReadAwaitDirect env fuel ret addr len increment
    w.fresh).2.ReadsWithin 1027
  liteDmaAwait : (Lite.smiDmaAwait env fuel w.fresh).2.ReadsWithin 1

theorem steady_readDirectStart (env : Env σ) (addr : BitVec 8) {w : World σ} {n : ℕ}
    (h : w.Steady n 0) (hn : 0 < n) :
    (((w.assign env smioDcs SmiDcs.write 0).assign env smioDa SmiDa.addr addr.toNat).clocked
      env).Steady n 0 := by
  have hdirection := steady_assign env h hn smioDcs SmiDcs.write 0
  have haddress := steady_assign env hdirection hn smioDa SmiDa.addr addr.toNat
  exact steady_clocked env haddress

/-- On every device and every clock, at any moment of a wait: once it has polled so often in a row
without moving a word, it has looked at the clock. -/
theorem waits_look_often (env : Env σ) (fuel : ℕ) (ret : Ptr) (data : Option (ℕ → Word))
    (addr : BitVec 8) (len increment : ℤ) (w : World σ) :
    WaitsLookOften env fuel ret data addr len increment w where
  readAwait := by
    have hstart : (w.fresh.clocked env).Steady (env.limits.yield.toNat+2) 0 :=
      steady_clocked env steady_nil
    apply post_iff_state.mp
    refine post_ite (fun _ => post_of_run rfl steady_nil.within) fun _ => ?_
    refine post_step (startTimeout_run ..) ?_
    exact post_readLoop (fun s v hv => post_readAwaitRound s hv)
      (fun r v hv => post_readAwaitEnd r hv) fuel hstart
  writeAwait := by
    have hstart : (w.fresh.clocked env).Steady (3*env.limits.yield.toNat+3) 0 :=
      steady_clocked env steady_nil
    cases data with
    | none => exact steady_nil.within
    | some data => exact post_writeLoop (fun s v hv => post_writeAwaitRound fuel s hv) fuel hstart
  readDirect := by
    have hnil : w.fresh.Steady (env.limits.yield.toNat+2) 0 := steady_nil
    have hstart := steady_readDirectStart env addr hnil (by omega)
    apply post_iff_state.mp
    refine post_ite (fun _ => post_of_run rfl hnil.within) fun _ => ?_
    refine post_step rfl ?_
    refine post_step rfl ?_
    refine post_step (startTimeout_run ..) ?_
    exact post_directLoop (fun s v hv => post_readDirectRound fuel s hv) fuel _ hstart
  dmaAwait := readsWithin_smiDmaAwait env fuel w
  liteReadAwait := by
    have hstart : (w.fresh.clocked env).Steady 1027 0 := steady_clocked env steady_nil
    apply post_iff_state.mp
    refine post_ite (fun _ => post_of_run rfl steady_nil.within) fun _ => ?_
    refine post_step (startTimeout_run ..) ?_
    exact post_readLoop (fun s v hv => post_lite_readAwaitRound s hv)
      (fun r v hv => post_lite_readAwaitEnd r hv) fuel hstart
  liteWriteAwait := by
    have hstart : (w.fresh.clocked env).Steady 3078 0 := steady_clocked env steady_nil
    cases data with
    | none => exact steady_nil.within
    | some data =>
      exact post_writeLoop (fun s v hv => post_lite_writeAwaitRound fuel s hv) fuel hstart
  liteReadDirect := by
    have hnil : w.fresh.Steady 1027 0 := steady_nil
    have hstart := steady_readDirectStart env addr hnil (by omega)
    apply post_iff_state.mp
    refine post_ite (fun _ => post_of_run rfl hnil.within) fun _ => ?_
    refine post_step rfl ?_
    refine post_step rfl ?_
    refine post_step (startTimeout_run ..) ?_
    exact post_directLoop (fun s v hv => post_lite_readDirectRound fuel s hv) fuel _ hstart
  liteDmaAwait := readsWithin_smiDmaAwait env fuel w

end RpiSmi
