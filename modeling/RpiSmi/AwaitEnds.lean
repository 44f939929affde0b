import RpiSmi.Device
import RpiSmi.DirectAwait
import RpiSmi.DmaWait
import RpiSmi.PollTrace

/-!
# The waits end

The clock is read in the upper spin tiers only, so a wait goes on until its spin
count has reached the yield limit and the clock the deadline. `budget` bounds the
fruitless polls until then; each loop has its own measure made of it.
-/

namespace RpiSmi

open Exec BitField

variable {σ : Type}

inductive Await
  | read (ret : Ptr) (len : ℤ)
  | readDirect (ret : Ptr) (addr : BitVec 8) (len increment : ℤ)
  | write (data : Option (ℕ → Word)) (len : ℤ)
  | dma

def timeoutMessages : List String := [
  "Read await timeout reached",
  "Direct read await timeout reached",
  "Write await timeout reached. Interface not receiving data",
  "Write await timeout reached. Data available but not readable",
  "DMA transfer timeout"]

namespace Await

def run (env : Env σ) (fuel : ℕ) : Await → Drv σ ℤ
  | read ret len => smiReadAwait env fuel ret len
  | readDirect ret addr len increment => smiReadAwaitDirect env fuel ret addr len increment
  | write data len => smiWriteAwait env fuel data len
  | dma => smiDmaAwait env fuel

def entered (env : Env σ) (w : World σ) : Await → World σ
  | readDirect _ addr _ _ =>
    (w.assign env smioDcs SmiDcs.write 0).assign env smioDa SmiDa.addr addr.toNat
  | _ => w

def seconds : Await → ℕ
  | readDirect .. => directReadTimeoutS
  | write .. => progWriteTimeoutS
  | _ => progReadTimeoutS

def deadline (env : Env σ) (w : World σ) (c : Await) : ℤ :=
  (c.entered env w).deadline env c.seconds

/-- The code that reports a timeout. The FIFO read negates it, so there it may also be a count. -/
def TimeoutCode (r : ℤ) : Await → Prop
  | read _ len => r = -smiErrTimeout ∧ r ≠ len
  | readDirect .. => r = smiErrTimeout
  | write .. => r = smiErrTimeout
  | dma => r = -eTimedOut

/-- A timeout is reported, by a message or by the code. -/
def TimedOut (r : ℤ) (w : World σ) (c : Await) : Prop :=
  (∃ msg ∈ w.messages, msg ∈ timeoutMessages) ∨ c.TimeoutCode r

end Await

theorem lt_wellFounded : WellFounded (fun a b : ℕ => a < b) := Nat.lt_wfRel.wf

section Budget

variable {S : Type} {d : Device S} {clock : ℕ → ℤ} {limits : SpinLimits} {deadline : ℤ} {N : ℕ}

/-- The fruitless polls still to come, given that the deadline is reached at time `N`. -/
def budget (limits : SpinLimits) (N spin time : ℕ) : ℕ := (limits.yield-spin).toNat+(N-time)

theorem budget_mono {spin spin' time time' : ℕ} (hs : spin ≤ spin') (ht : time ≤ time') :
    budget limits N spin' time' ≤ budget limits N spin time := by
  unfold budget
  omega

theorem spinExpired_of_ge {env : Env σ} {spin : ℕ} {s : σ} (hy : env.limits.yield ≤ spin)
    (hx : (env.spinExpired deadline spin s).expired = false) :
    (env.clockGettime s).1 < deadline ∧
      ((env.spinExpired deadline spin s).state = (env.clockGettime s).2 ∨
        (env.spinExpired deadline spin s).state =
          (env.clockGettime (env.clockGettime s).2).2) := by
  have hhard := env.limits.hard_lt_yield
  unfold Env.spinExpired Env.timeoutSpinTier at *
  rw [if_neg (by omega),if_neg (by omega)] at *
  split_ifs at hx ⊢
  · have hlt : (env.clockGettime s).1 < deadline := by
      simpa [Env.timeoutApply,Env.timeoutComplete] using hx
    exact ⟨hlt,.inl rfl⟩
  · by_cases hlt : (env.clockGettime s).1 < deadline
    · refine ⟨hlt,.inr ?_⟩
      simp [Env.timeoutApply,Env.timeoutComplete,not_le.mpr hlt]
    · simp [Env.timeoutApply,Env.timeoutComplete,not_lt.mp hlt] at hx

/-- A check that does not fire has used up some of the budget: below the yield limit a spin, from
there on a reading of a clock that has not reached the deadline. -/
theorem budget_check (hN : ∀ n, N ≤ n → deadline ≤ clock n) {spin : ℕ} {x : ℕ × S}
    (hx : ((d.env clock limits).spinExpired deadline spin x).expired = false) :
    budget limits N (spin+1) ((d.env clock limits).spinExpired deadline spin x).state.1 <
      budget limits N spin x.1 := by
  by_cases hy : (spin : ℤ) < limits.yield
  · rw [Env.spinExpired_of_lt _ _ hy]
    simp only [budget]
    omega
  · obtain ⟨hlt,hstate⟩ := spinExpired_of_ge (not_lt.mp hy) hx
    have htime : x.1 < N := by
      by_contra hle
      exact absurd (hN x.1 (not_lt.mp hle)) (not_le.mpr hlt)
    have hpassed : x.1 < ((d.env clock limits).spinExpired deadline spin x).state.1 := by
      rcases hstate with h | h <;> rw [h] <;> simp only [Device.env_clockGettime] <;> omega
    simp only [budget]
    omega

end Budget

theorem messages_takeWord (env : Env σ) (ret : Ptr) (count : ℕ) (increment : ℤ) (addr : BitVec 8)
    (w : World σ) : (w.takeWord env ret count increment addr).messages = w.messages := by
  unfold World.takeWord World.stepped
  split_ifs <;> simp

section Loops

variable {S : Type} {d : Device S} {clock : ℕ → ℤ} {limits : SpinLimits} {deadline : ℤ} {N : ℕ}
  (hN : ∀ n, N ≤ n → deadline ≤ clock n)

theorem expired_gaveUp {env : Env σ} {spin : ℕ} {w : World σ}
    (hx : (env.spinExpired deadline spin w.dev).expired = true) (msg : String) (r r' : Reg)
    (f g : Field 32) (a b : ℕ) :
    ((((w.after (env.spinExpired deadline spin w.dev)).report msg).assign env r f a).assign env
      r' g b).Expired deadline := by
  rw [expired_assign,expired_assign,expired_report]
  exact expired_of_check _ _ hx

include hN

variable (d) (limits)

/-- The measure of the FIFO read: the words missing, and the polls until it gives up on the next. -/
theorem readAwaitLoop_total (p : Ptr) (len : ℤ) {w : World (ℕ × S)} (hw : w.messages = []) :
    ∃ a w', LoopEnds (fun _ => readAwaitRound (d.env clock limits) p len deadline) ⟨0,0⟩ w a w' ∧
      match a with
      | .ok count => w'.messages = [] ∧ (count : ℤ) = max len 0
      | .error _ => w'.Expired deadline := by
  have hwf : WellFounded (Prod.Lex (· < ·) (· < ·) : ℕ × ℕ → ℕ × ℕ → Prop) :=
    WellFounded.prod_lex lt_wellFounded lt_wellFounded
  refine loopEnds_of_measure hwf
    (fun (s : Poll) w => ((len-s.count).toNat,budget limits N s.spin w.dev.1))
    (fun s w => w.messages = [] ∧ (s.count : ℤ) ≤ max len 0) _ ?_ ⟨0,0⟩ w
    ⟨hw,Int.le_max_right len 0⟩
  rintro s w ⟨hm,hc⟩
  by_cases hlen : (s.count : ℤ) < len
  · rcases hp : (d.env clock limits).flag SmiCs.rxd w.dev
    · rcases hx : ((d.env clock limits).spinExpired deadline s.spin
          ((d.env clock limits).polled w.dev)).expired
      · refine ⟨_,_,ends_of_run (readAwaitRound_idle hlen hp hx),⟨by simpa using hm,hc⟩,?_⟩
        refine Prod.Lex.right _ (Nat.lt_of_lt_of_le (budget_check hN hx) ?_)
        exact budget_mono (Nat.le_refl _) (by simp [Env.polled])
      · refine ⟨_,_,ends_of_run (readAwaitRound_late hlen hp hx),?_⟩
        rw [expired_assign,expired_report]
        exact expired_of_check _ _ hx
    · refine ⟨_,_,ends_of_run (readAwaitRound_word hlen hp),⟨?_,?_⟩,Prod.Lex.left _ _ ?_⟩
      · simpa using hm
      · push_cast
        omega
      · simp only
        push_cast
        omega
  · exact ⟨_,_,ends_of_run (readAwaitRound_full hlen),hm,by omega⟩

theorem doneLoop_total (msg : String) (code : ℤ) (spin : ℕ) {w : World (ℕ × S)}
    (hw : w.messages = []) :
    ∃ a w', LoopEnds (fun _ => doneRound (d.env clock limits)
        (spinExpired (d.env clock limits) deadline) (· + 1) msg code) spin w a w' ∧
      match a with
      | .ok _ => w'.messages = []
      | .error _ => w'.Expired deadline := by
  refine loopEnds_of_measure lt_wellFounded (fun spin w => budget limits N spin w.dev.1)
    (fun _ w => w.messages = []) _ ?_ spin w hw
  intro spin w hm
  let v := w.read (d.env clock limits) smioDcs
  rcases hd : SmiDcs.done.test (w.value (d.env clock limits) smioDcs)
  · rcases hx : ((d.env clock limits).spinExpired deadline spin v.dev).expired
    · have hrun : spinExpired (d.env clock limits) deadline spin v =
          (some false,v.after ((d.env clock limits).spinExpired deadline spin v.dev)) := by
        rw [spinExpired_run,hx]
      refine ⟨_,_,ends_of_run (doneRound_wait hd hrun),by simpa [v] using hm,?_⟩
      refine Nat.lt_of_lt_of_le (budget_check hN hx) (budget_mono (Nat.le_refl _) ?_)
      simp [v]
    · have hrun : spinExpired (d.env clock limits) deadline spin v =
          (some true,v.after ((d.env clock limits).spinExpired deadline spin v.dev)) := by
        rw [spinExpired_run,hx]
      exact ⟨_,_,ends_of_run (doneRound_late hd hrun),expired_gaveUp hx _ _ _ _ _ _ _⟩
  · exact ⟨_,_,ends_of_run (doneRound_done hd),by simpa using hm⟩

theorem readDirectLoop_total (ret : Ptr) (len increment : ℤ) (addr : BitVec 8) {w : World (ℕ × S)}
    (hw : w.messages = []) :
    ∃ r w', LoopEnds (fun n => readDirectRound (d.env clock limits) n ret len increment deadline)
        ⟨0,0,addr⟩ w r w' ∧ (w'.messages = [] ∧ 0 ≤ r ∨ w'.Expired deadline) := by
  refine loopEnds_of_measure lt_wellFounded (fun (s : Direct) _ => (len-s.count).toNat)
    (fun _ w => w.messages = []) (fun (r : ℤ) w => w.messages = [] ∧ 0 ≤ r ∨ w.Expired deadline)
    ?_ ⟨0,0,addr⟩ w hw
  intro s w hm
  by_cases hlen : (s.count : ℤ) < len
  · obtain ⟨a,v,hl,ha⟩ := doneLoop_total d limits hN
      "Direct read await timeout reached" smiErrTimeout s.spin
      (w := w.assign (d.env clock limits) smioDcs SmiDcs.start 1) (by simpa using hm)
    simp only [Ends,readDirectRound_run hlen]
    cases a with
    | error code => exact ⟨_,_,ends_bind hl.ends (ends_of_run rfl),.inr ha⟩
    | ok spin' =>
      refine ⟨_,_,ends_bind hl.ends (ends_of_run rfl),?_,?_⟩
      · rw [messages_takeWord]
        exact ha
      · simp only
        push_cast
        omega
  · refine ⟨_,_,⟨0,fun _ _ => readDirectRound_full hlen⟩,?_⟩
    exact Or.inl ⟨hm,Int.natCast_nonneg _⟩

theorem txdLoop_total (spin : ℕ) {w : World (ℕ × S)} (hw : w.messages = []) :
    ∃ a w', LoopEnds (fun _ => txdRound (d.env clock limits) deadline) spin w a w' ∧
      match a with
      | .ok spin' => w'.messages = [] ∧
          budget limits N spin' w'.dev.1 ≤ budget limits N spin w.dev.1
      | .error _ => w'.Expired deadline := by
  refine loopEnds_of_measure lt_wellFounded (fun spin w => budget limits N spin w.dev.1)
    (fun spin₁ w₁ => w₁.messages = [] ∧
      budget limits N spin₁ w₁.dev.1 ≤ budget limits N spin w.dev.1) _ ?_ spin w ⟨hw,Nat.le_refl _⟩
  rintro spin₁ w₁ ⟨hm,hb⟩
  rcases hp : (d.env clock limits).flag SmiCs.txd w₁.dev
  · rcases hx : ((d.env clock limits).spinExpired deadline spin₁
        ((d.env clock limits).polled w₁.dev)).expired
    · have hpolled : budget limits N spin₁ ((d.env clock limits).polled w₁.dev).1 ≤
          budget limits N spin₁ w₁.dev.1 := budget_mono (Nat.le_refl _) (by simp [Env.polled])
      have hlt := Nat.lt_of_lt_of_le (budget_check hN hx) hpolled
      exact ⟨_,_,ends_of_run (txdRound_wait hp hx),
        ⟨by simpa using hm,Nat.le_of_lt (Nat.lt_of_lt_of_le hlt hb)⟩,hlt⟩
    · exact ⟨_,_,ends_of_run (txdRound_gaveUp hp hx),
        expired_gaveUp (w := w₁.read (d.env clock limits) smioCs) hx _ _ _ _ _ _ _⟩
  · refine ⟨_,_,ends_of_run (txdRound_room hp),by simpa using hm,?_⟩
    exact Nat.le_trans (budget_mono (Nat.le_refl _) (by simp)) hb

theorem writeChecks_total (s : Poll) {w : World (ℕ × S)} (hw : w.messages = []) :
    ∃ x w', writeChecks (d.env clock limits) deadline s w = (some x,w') ∧
      Sum.elim (fun s' => w'.messages = [] ∧
          budget limits N s'.spin w'.dev.1 < budget limits N s.spin w.dev.1)
        (fun r => (∀ msg ∈ w'.messages, msg ∉ timeoutMessages) ∧ 0 ≤ r ∨ w'.Expired deadline)
        x := by
  rcases hx : ((d.env clock limits).spinExpired deadline s.spin w.dev).expired
  · rcases ha : (d.env clock limits).flag SmiCs.aferr
        ((d.env clock limits).spinExpired deadline s.spin w.dev).state
    · refine ⟨_,_,writeChecks_next hx ha,by simpa using hw,?_⟩
      exact Nat.lt_of_le_of_lt (budget_mono (Nat.le_refl _) (by simp)) (budget_check hN hx)
    · refine ⟨_,_,writeChecks_aferr hx ha,Or.inl ⟨?_,Int.natCast_nonneg _⟩⟩
      simp [hw,timeoutMessages]
  · exact ⟨_,_,writeChecks_gaveUp hx,Or.inr (expired_gaveUp hx _ _ _ _ _ _ _)⟩

theorem writePush_total (data : ℕ → Word) (len : ℤ) (s : Poll) {w : World (ℕ × S)}
    (hw : w.messages = []) :
    ∃ x w', writePush (d.env clock limits) data len deadline s w = (some x,w') ∧
      Sum.elim (fun s' => w'.messages = [] ∧
          budget limits N s'.spin w'.dev.1 < budget limits N s.spin w.dev.1)
        (fun r => (∀ msg ∈ w'.messages, msg ∉ timeoutMessages) ∧ 0 ≤ r ∨ w'.Expired deadline)
        x := by
  by_cases hlen : (s.count : ℤ) < len+1
  · let v := (w.fetch s.count).write (d.env clock limits) smioD (data s.count)
    obtain ⟨x,w',hrun,hx⟩ := writeChecks_total d limits hN
      ⟨s.count+1,s.spin⟩ (show v.messages = [] by simpa [v] using hw)
    refine ⟨x,w',(writePush_run hlen).trans hrun,?_⟩
    cases x with
    | inl s' => exact ⟨hx.1,Nat.lt_of_lt_of_le hx.2 (budget_mono (Nat.le_refl _) (by simp [v]))⟩
    | inr r => exact hx
  · simpa only [writePush,hlen,if_false] using writeChecks_total d limits hN s hw

/-- The measure of the write: the budget alone, which the nested loops share. -/
theorem writeAwaitLoop_total (data : ℕ → Word) (len : ℤ) {w : World (ℕ × S)}
    (hw : w.messages = []) :
    ∃ r w', LoopEnds (fun n => writeAwaitRound (d.env clock limits) n data len deadline) ⟨0,0⟩ w
        r w' ∧ ((∀ msg ∈ w'.messages, msg ∉ timeoutMessages) ∧ 0 ≤ r ∨ w'.Expired deadline) := by
  refine loopEnds_of_measure lt_wellFounded (fun (s : Poll) w => budget limits N s.spin w.dev.1)
    (fun _ w => w.messages = [])
    (fun (r : ℤ) w => (∀ msg ∈ w.messages, msg ∉ timeoutMessages) ∧ 0 ≤ r ∨ w.Expired deadline)
    ?_ ⟨0,0⟩ w hw
  intro s w hm
  rcases hd : (d.env clock limits).flag SmiCs.done w.dev
  · obtain ⟨a,v,hl,ha⟩ := txdLoop_total d limits hN s.spin
      (w := w.read (d.env clock limits) smioCs) (by simpa using hm)
    simp only [Ends,writeAwaitRound_wait hd]
    cases a with
    | error code => exact ⟨_,_,ends_bind hl.ends (ends_of_run rfl),.inr ha⟩
    | ok spin' =>
      obtain ⟨hmv,hb⟩ := ha
      obtain ⟨x,w',hrun,hx⟩ := writePush_total d limits hN data
        len ⟨s.count,spin'⟩ hmv
      refine ⟨x,w',ends_bind hl.ends (ends_of_run hrun),?_⟩
      cases x with
      | inl s' =>
        have hread : budget limits N s.spin (w.read (d.env clock limits) smioCs).dev.1 ≤
            budget limits N s.spin w.dev.1 := budget_mono (Nat.le_refl _) (by simp)
        exact ⟨hx.1,Nat.lt_of_lt_of_le hx.2 (hb.trans hread)⟩
      | inr r => exact hx
  · refine ⟨_,_,⟨0,fun _ _ => writeAwaitRound_done hd⟩,?_⟩
    exact Or.inl ⟨by simp [hm],Int.natCast_nonneg _⟩

theorem dmaAwaitLoop_total (delay : ℕ) {w : World (ℕ × S)} (hw : w.messages = []) :
    ∃ r w', LoopEnds (fun _ => dmaAwaitRound (d.env clock limits) deadline) delay w r w' ∧
      (w'.messages = [] ∧ 0 ≤ r ∨ w'.Expired deadline) := by
  refine loopEnds_of_measure lt_wellFounded (fun _ w => N-w.dev.1)
    (fun _ w => w.messages = []) (fun (r : ℤ) w => w.messages = [] ∧ 0 ≤ r ∨ w.Expired deadline)
    ?_ delay w hw
  intro delay w hm
  rcases he : DmaCs.finish.test ((d.env clock limits).readReg dmaoCs w.dev).1
  · rcases hx : ((d.env clock limits).timeoutComplete deadline
        ((d.env clock limits).readReg dmaoCs w.dev).2).expired
    · refine ⟨_,_,ends_of_run (dmaAwaitRound_again he hx),by simpa using hm,?_⟩
      have hlt : clock (w.dev.1+1) < deadline := by
        simpa [Env.timeoutComplete] using hx
      have hbefore : w.dev.1+1 < N := by
        by_contra hle
        exact absurd (hN _ (not_lt.mp hle)) (not_le.mpr hlt)
      simp [Env.timeoutComplete]
      omega
    · refine ⟨_,_,ends_of_run (dmaAwaitRound_late he hx),?_⟩
      refine Or.inr ((expired_assign _ _ _ _ _).mpr ((expired_report _ _).mpr ?_))
      exact (expired_after _ _).mpr (.inr (by simpa [Env.timeoutComplete] using hx))
  · refine ⟨_,_,ends_of_run (dmaAwaitRound_ended he),?_⟩
    exact Or.inl ⟨by simpa using hm,by decide⟩

end Loops

section Calls

variable {S : Type} {d : Device S} {clock : ℕ → ℤ} {limits : SpinLimits} {N : ℕ}
  {w : World (ℕ × S)}

theorem readAwaitEnd_full (env : Env σ) {len : ℤ} {count : ℕ} (h : ¬ (count : ℤ) < len)
    {w : World σ} (hw : w.messages = []) :
    ∃ w', readAwaitEnd env len (.ok count) w = (some (count : ℤ),w') ∧
      ∀ msg ∈ w'.messages, msg ∉ timeoutMessages := by
  rcases hp : SmiCs.rxd.test (w.value env smioCs)
  · exact ⟨w.read env smioCs,by simp [readAwaitEnd,bind_apply,h,hp],by simp [hw]⟩
  · refine ⟨(w.read env smioCs).report "Leftover data in the RX FIFO",
      by simp [readAwaitEnd,bind_apply,h,hp],?_⟩
    simp [hw,timeoutMessages]

/-- A call that returns, and whose report of a timeout is right. -/
def Await.Returns (env : Env σ) (w : World σ) (c : Await) : Prop :=
  ∃ r w', Ends (fun fuel => c.run env fuel) w r w' ∧
    (c.TimedOut r w' → w'.Expired (c.deadline env w))

theorem Await.returns_of_expired {env : Env σ} {w w' : World σ} {c : Await} {r : ℤ}
    (he : Ends (fun fuel => c.run env fuel) w r w') (hx : w'.Expired (c.deadline env w)) :
    c.Returns env w := ⟨r,w',he,fun _ => hx⟩

theorem Await.returns_of_silent {env : Env σ} {w w' : World σ} {c : Await} {r : ℤ}
    (he : Ends (fun fuel => c.run env fuel) w r w')
    (hm : ∀ msg ∈ w'.messages, msg ∉ timeoutMessages) (hr : ¬ c.TimeoutCode r) :
    c.Returns env w := by
  refine ⟨r,w',he,fun ht => ?_⟩
  rcases ht with ⟨msg,hmem,hmsg⟩ | hcode
  · exact absurd hmsg (hm msg hmem)
  · exact absurd hcode hr

theorem smiReadAwait_returns (ret : Ptr) (len : ℤ)
    (hN : ∀ n, N ≤ n → (Await.read ret len).deadline (d.env clock limits) w.fresh ≤ clock n) :
    (Await.read ret len).Returns (d.env clock limits) w.fresh := by
  by_cases hp : ret = .null
  · have hends : Ends (fun fuel => (Await.read ret len).run (d.env clock limits) fuel) w.fresh
        smiErrNullPtr w.fresh := ⟨0,fun _ _ => by simp [Await.run,smiReadAwait,hp]⟩
    refine Await.returns_of_silent hends (by simp) ?_
    simp [Await.TimeoutCode,smiErrNullPtr,smiErrTimeout]
  · obtain ⟨a,v,hl,ha⟩ := readAwaitLoop_total d limits hN ret len
      (w := w.fresh.clocked (d.env clock limits)) (by simp [World.clocked])
    have hends {r : ℤ} {w' : World (ℕ × S)} (hend : readAwaitEnd (d.env clock limits) len a v =
        (some r,w')) : Ends (fun fuel => (Await.read ret len).run (d.env clock limits) fuel)
          w.fresh r w' := by
      simp only [Await.run,Ends,smiReadAwait_run hp]
      exact ends_bind hl.ends (ends_of_run hend)
    cases a with
    | error code => exact Await.returns_of_expired (hends rfl) ha
    | ok count =>
      obtain ⟨hm,hcount⟩ := ha
      have hfull : ¬ (count : ℤ) < len := by omega
      obtain ⟨w',hend,hm'⟩ := readAwaitEnd_full (d.env clock limits) hfull hm
      refine Await.returns_of_silent (hends hend) hm' ?_
      simp [Await.TimeoutCode,smiErrTimeout]
      omega

theorem smiReadAwaitDirect_returns (ret : Ptr) (addr : BitVec 8) (len increment : ℤ)
    (hN : ∀ n, N ≤ n →
      (Await.readDirect ret addr len increment).deadline (d.env clock limits) w.fresh ≤ clock n) :
    (Await.readDirect ret addr len increment).Returns (d.env clock limits) w.fresh := by
  by_cases hp : ret = .null
  · have hends : Ends (fun fuel => (Await.readDirect ret addr len increment).run
        (d.env clock limits) fuel) w.fresh (-1) w.fresh :=
      ⟨0,fun _ _ => by simp [Await.run,smiReadAwaitDirect,hp]⟩
    refine Await.returns_of_silent hends (by simp) ?_
    simp [Await.TimeoutCode,smiErrTimeout]
  · obtain ⟨r,v,hl,hr⟩ := readDirectLoop_total d limits hN ret len increment addr
      (w := (Await.entered (d.env clock limits) w.fresh
        (.readDirect ret addr len increment)).clocked (d.env clock limits))
      (by simp [World.clocked,Await.entered])
    have hends : Ends (fun fuel => (Await.readDirect ret addr len increment).run
        (d.env clock limits) fuel) w.fresh r v := by
      simp only [Await.run,Ends,smiReadAwaitDirect_run hp]
      exact hl.ends
    rcases hr with ⟨hm,h0⟩ | hx
    · refine Await.returns_of_silent hends (by simp [hm]) ?_
      simp only [Await.TimeoutCode,smiErrTimeout]
      omega
    · exact Await.returns_of_expired hends hx

theorem smiWriteAwait_returns (data : Option (ℕ → Word)) (len : ℤ)
    (hN : ∀ n, N ≤ n → (Await.write data len).deadline (d.env clock limits) w.fresh ≤ clock n) :
    (Await.write data len).Returns (d.env clock limits) w.fresh := by
  cases data with
  | none =>
    have hends : Ends (fun fuel => (Await.write none len).run (d.env clock limits) fuel) w.fresh
        smiErrNullPtr w.fresh := ⟨0,fun _ _ => rfl⟩
    refine Await.returns_of_silent hends (by simp) ?_
    simp [Await.TimeoutCode,smiErrNullPtr,smiErrTimeout]
  | some data =>
    obtain ⟨r,v,hl,hr⟩ := writeAwaitLoop_total d limits hN data len
      (w := w.fresh.clocked (d.env clock limits)) (by simp [World.clocked])
    have hends : Ends (fun fuel => (Await.write (some data) len).run (d.env clock limits) fuel)
        w.fresh r v := hl.ends
    rcases hr with ⟨hm,h0⟩ | hx
    · refine Await.returns_of_silent hends hm ?_
      simp only [Await.TimeoutCode,smiErrTimeout]
      omega
    · exact Await.returns_of_expired hends hx

theorem smiDmaAwait_returns
    (hN : ∀ n, N ≤ n → Await.dma.deadline (d.env clock limits) w.fresh ≤ clock n) :
    Await.dma.Returns (d.env clock limits) w.fresh := by
  obtain ⟨r,v,hl,hr⟩ := dmaAwaitLoop_total d limits hN 1000
    (w := w.fresh.clocked (d.env clock limits)) (by simp [World.clocked])
  have hends : Ends (fun fuel => Await.dma.run (d.env clock limits) fuel) w.fresh r v := hl.ends
  rcases hr with ⟨hm,h0⟩ | hx
  · refine Await.returns_of_silent hends (by simp [hm]) ?_
    simp only [Await.TimeoutCode,eTimedOut]
    omega
  · exact Await.returns_of_expired hends hx

end Calls

/-- Every wait ends on every device, once a clock that does not run backwards comes to the deadline,
and reports a timeout only if it has found it there. -/
theorem awaits_return {S : Type} (d : Device S) (limits : SpinLimits) {clock : ℕ → ℤ}
    (hmono : ∀ m n, m ≤ n → clock m ≤ clock n) (c : Await) (w : World (ℕ × S))
    (hreach : ∃ n, c.deadline (d.env clock limits) w.fresh ≤ clock n) :
    c.Returns (d.env clock limits) w.fresh := by
  obtain ⟨N,hN⟩ := hreach
  have hlate : ∀ n, N ≤ n → c.deadline (d.env clock limits) w.fresh ≤ clock n :=
    fun n hn => hN.trans (hmono N n hn)
  cases c with
  | read ret len => exact smiReadAwait_returns ret len hlate
  | readDirect ret addr len increment =>
    exact smiReadAwaitDirect_returns ret addr len increment hlate
  | write data len => exact smiWriteAwait_returns data len hlate
  | dma => exact smiDmaAwait_returns hlate

def silentDevice : Device Unit := ⟨fun _ s => s,fun _ _ _ => 0,fun _ s => s,fun _ _ s => s⟩

theorem awaits_return_silent :
    (∀ m n : ℕ, m ≤ n → (m : ℤ)*1000000000 ≤ n*1000000000) ∧
    (Await.read .caller 1).Returns (silentDevice.env (fun n => n*1000000000) .default)
      (World.init (0,())).fresh := by
  have hmono : ∀ m n : ℕ, m ≤ n → (m : ℤ)*1000000000 ≤ n*1000000000 := fun m n h => by omega
  exact ⟨hmono,awaits_return silentDevice .default hmono (.read .caller 1) (World.init (0,()))
    ⟨50,by decide⟩⟩

end RpiSmi
