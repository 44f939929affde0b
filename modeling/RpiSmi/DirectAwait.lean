import RpiSmi.Await

/-! The rounds of the direct loops, case by case. -/

namespace RpiSmi

open Exec

variable {σ : Type} {env : Env σ} {w : World σ}

def nextAddr (increment : ℤ) (addr : BitVec 8) : BitVec 8 :=
  if 0 < increment then addr+1 else if increment < 0 then addr-1 else addr

def World.stepped (env : Env σ) (increment : ℤ) (addr : BitVec 8) (w : World σ) : World σ :=
  if increment = 0 then w else w.assign env smioDa SmiDa.addr (nextAddr increment addr).toNat

theorem stepAddr_run (increment : ℤ) (addr : BitVec 8) :
    stepAddr env increment addr w =
      (some (nextAddr increment addr),w.stepped env increment addr) := by
  rcases Int.lt_trichotomy increment 0 with h | h | h
  · have h₁ : ¬ 0 < increment := by omega
    have h₂ : increment ≠ 0 := by omega
    simp [stepAddr,bind_apply,nextAddr,World.stepped,h,h₁,h₂]
  · simp [stepAddr,nextAddr,World.stepped,h]
  · have h₁ : increment ≠ 0 := by omega
    simp [stepAddr,bind_apply,nextAddr,World.stepped,h,h₁]

section Done

variable {expired : ℕ → Drv σ Bool} {next : ℕ → ℕ} {msg : String} {code : ℤ} {spin : ℕ}

theorem doneRound_done (hd : SmiDcs.done.test (w.value env smioDcs) = true) :
    doneRound env expired next msg code spin w =
      (some (.inr (.ok spin)),w.read env smioDcs) := by
  simp [doneRound,bind_apply,hd]

theorem doneRound_wait {v : World σ} (hd : SmiDcs.done.test (w.value env smioDcs) = false)
    (hx : expired spin (w.read env smioDcs) = (some false,v)) :
    doneRound env expired next msg code spin w = (some (.inl (next spin)),v) := by
  simp [doneRound,bind_apply,hd,hx]

theorem doneRound_late {v : World σ} (hd : SmiDcs.done.test (w.value env smioDcs) = false)
    (hx : expired spin (w.read env smioDcs) = (some true,v)) :
    doneRound env expired next msg code spin w = (some (.inr (.error code)),
      ((v.report msg).assign env smioCs SmiCs.clear 1).assign env smioDcs SmiDcs.done 1) := by
  simp [doneRound,bind_apply,hd,hx]

end Done

section Write

variable {fuel : ℕ} {wait : DirectWait σ} {data : ℕ → Word} {len increment deadline : ℤ}
  {s : Direct}

def World.sendWord (env : Env σ) (data : ℕ → Word) (count : ℕ) (w : World σ) : World σ :=
  ((w.fetch count).write env smioDd (data count)).assign env smioDcs SmiDcs.start 1

theorem writeDirectRound_full (h : ¬ (s.count : ℤ) < len) :
    writeDirectRound env fuel wait data len increment deadline s w = (some (.inr s.count),w) := by
  simp [writeDirectRound,h]

theorem writeDirectRound_run (env : Env σ) (fuel : ℕ) (wait : DirectWait σ) (data : ℕ → Word)
    (increment deadline : ℤ) (w : World σ) (h : (s.count : ℤ) < len) :
    writeDirectRound env fuel wait data len increment deadline s w =
      (loop (doneRound env (wait.expired deadline) id wait.msg wait.timeoutCode) fuel s.spin >>=
        fun r => match r with
          | .error code => pure (.inr code)
          | .ok spin => stepAddr env increment s.addr >>= fun addr =>
              pure (.inl ⟨s.count+1,spin+1,addr⟩)) (w.sendWord env data s.count) := by
  simp only [writeDirectRound,h,not_true,if_false,bind_apply,loadWord_run,writeReg_run,
    setField_run]
  rfl

theorem writeAwaitDirect_run (addr : BitVec 8) :
    writeAwaitDirect env fuel wait (some data) addr len increment w =
      loop (writeDirectRound env fuel wait data len increment
        (w.deadline env progWriteTimeoutS)) fuel ⟨0,0,addr⟩
        ((w.clocked env).assign env smioDcs SmiDcs.write 1) := rfl

end Write

section Read

variable {fuel : ℕ} {ret : Ptr} {len increment deadline : ℤ} {s : Direct}

def World.takeWord (env : Env σ) (ret : Ptr) (count : ℕ) (increment : ℤ) (addr : BitVec 8)
    (w : World σ) : World σ :=
  (((w.read env smioDd).store ret count (w.value env smioDd &&& 0xFF)).assign env smioDcs
    SmiDcs.done 1).stepped env increment addr

theorem readDirectRound_full (h : ¬ (s.count : ℤ) < len) :
    readDirectRound env fuel ret len increment deadline s w = (some (.inr s.count),w) := by
  simp [readDirectRound,h]

theorem readDirectRound_run (h : (s.count : ℤ) < len) :
    readDirectRound env fuel ret len increment deadline s w =
      (loop (doneRound env (spinExpired env deadline) (· + 1)
          "Direct read await timeout reached" smiErrTimeout) fuel s.spin >>= fun r => match r with
        | .error code => pure (.inr code)
        | .ok spin => fun v => (some (.inl ⟨s.count+1,spin,nextAddr increment s.addr⟩),
            v.takeWord env ret s.count increment s.addr))
        (w.assign env smioDcs SmiDcs.start 1) := by
  simp only [readDirectRound,h,not_true,if_false,bind_run (setField_run env _ _ _ w)]
  refine bind_congr (fun r v => ?_) _
  cases r with
  | error code => rfl
  | ok spin => exact bind_run (stepAddr_run increment s.addr) _

theorem smiReadAwaitDirect_run (hret : ret ≠ .null) (addr : BitVec 8) :
    smiReadAwaitDirect env fuel ret addr len increment w =
      loop (readDirectRound env fuel ret len increment
        (((w.assign env smioDcs SmiDcs.write 0).assign env smioDa SmiDa.addr addr.toNat).deadline
          env directReadTimeoutS)) fuel ⟨0,0,addr⟩
        (((w.assign env smioDcs SmiDcs.write 0).assign env smioDa SmiDa.addr addr.toNat).clocked
          env) := by
  simp only [smiReadAwaitDirect,hret,if_false]
  rfl

end Read
end RpiSmi
