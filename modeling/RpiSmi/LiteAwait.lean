import RpiSmi.Await

/-!
# The FIFO waits of `smilite.h`

They have no spin tiers: the clock is asked once the spin count is above 1024.
The read wait makes that check in every round, also in one that has brought a
word; the write wait pushes first and waits for room afterwards.
-/

namespace RpiSmi

open Exec BitField

variable {σ : Type}

/-- What the waits for TXD and the checks at the end of a round do not share. -/
structure WriteWait (σ : Type) where
  expired : ℤ → ℕ → Drv σ Bool
  /-- The spin count after a check that has not fired. -/
  next : ℕ → ℕ
  fullMsg : String
  lateMsg : String
  timeoutCode : ℤ

namespace WriteWait

variable (env : Env σ) (wait : WriteWait σ)

def txdRound (deadline : ℤ) (spin : ℕ) : Drv σ (ℕ ⊕ Except ℤ ℕ) := do
  if ← readField env smioCs SmiCs.txd then return .inr (.ok spin)
  if ← wait.expired deadline spin then
    error wait.fullMsg
    setField env smioCs SmiCs.clear 1
    setField env smioCs SmiCs.done 1
    return .inr (.error wait.timeoutCode)
  return .inl (wait.next spin)

def checks (deadline : ℤ) (s : Poll) : Drv σ (Poll ⊕ ℤ) := do
  if ← wait.expired deadline s.spin then
    error wait.lateMsg
    setField env smioCs SmiCs.clear 1
    setField env smioCs SmiCs.done 1
    return .inr wait.timeoutCode
  if ← readField env smioCs SmiCs.aferr then
    error "Protected registers written to during write"
    setField env smioCs SmiCs.aferr 1
    setField env smioCs SmiCs.clear 1
    return .inr s.count
  return .inl ⟨s.count,wait.next s.spin⟩

end WriteWait

section Waits

variable (env : Env σ) (fuel : ℕ)

def writeWait : WriteWait σ where
  expired := spinExpired env
  next := (· + 1)
  fullMsg := "Write await timeout reached. Interface not receiving data"
  lateMsg := "Write await timeout reached. Data available but not readable"
  timeoutCode := smiErrTimeout

theorem writeChecks_eq (deadline : ℤ) :
    writeChecks env deadline = (writeWait env).checks env deadline := rfl

namespace Lite

/-- `EINVAL` of the C library. -/
def eInval : ℤ := 22

def expired (deadline : ℤ) (spin : ℕ) : Drv σ Bool :=
  if 1024 < spin then timeoutComplete env deadline else return false

/-- The end of a round of `smi_read_await`. -/
def readCheck (deadline : ℤ) (s : Poll) : Drv σ (Poll ⊕ Except ℤ ℕ) := do
  if ← expired env deadline s.spin then
    error "Programmed read data fetch timeout"
    setField env smioCs SmiCs.clear 1
    return .inr (.error (-eTimedOut))
  return .inl ⟨s.count,s.spin+1⟩

def readAwaitRound (ret : Ptr) (len deadline : ℤ) (s : Poll) : Drv σ (Poll ⊕ Except ℤ ℕ) := do
  if ¬ (s.count : ℤ) < len then return .inr (.ok s.count)
  if ← readField env smioCs SmiCs.rxd then
    let v ← readReg env smioD
    storeWord ret s.count v
    readCheck env deadline ⟨s.count+1,s.spin⟩
  else readCheck env deadline s

/-- What `smi_read_await` does after its loop. -/
def readAwaitEnd : Except ℤ ℕ → Drv σ ℤ
  | .error code => return code
  | .ok count => do
    if ← readField env smioCs SmiCs.rxd then
      error "Leftover data in the RX FIFO"
    return count

def smiReadAwait (ret : Ptr) (len : ℤ) : Drv σ ℤ := do
  if ret = .null then return -eInval
  let deadline ← startTimeout env progReadTimeoutS
  let r ← loop (readAwaitRound env ret len deadline) fuel ⟨0,0⟩
  readAwaitEnd env r

/-- A check that has looked at the clock sets `spin` back to 0 before it is counted up. -/
def writeWait : WriteWait σ where
  expired := expired env
  next := fun spin => (if 1024 < spin then 0 else spin)+1
  fullMsg := "Programmed write await timeout - TX is full"
  lateMsg := "Programmed write await timeout"
  timeoutCode := -eTimedOut

def writeRoom (deadline : ℤ) (s : Poll) : Drv σ (Poll ⊕ ℤ) := do
  match ← loop ((writeWait env).txdRound env deadline) fuel s.spin with
  | .error code => return .inr code
  | .ok spin => (writeWait env).checks env deadline ⟨s.count,spin⟩

def writeAwaitRound (data : ℕ → Word) (len deadline : ℤ) (s : Poll) : Drv σ (Poll ⊕ ℤ) := do
  if ← readField env smioCs SmiCs.done then return .inr s.count
  if (s.count : ℤ) < len+1 then
    let v ← loadWord data s.count
    writeReg env smioD v
    writeRoom env fuel deadline ⟨s.count+1,s.spin⟩
  else writeRoom env fuel deadline s

def smiWriteAwait (data : Option (ℕ → Word)) (len : ℤ) : Drv σ ℤ :=
  match data with
  | none => return -1
  | some data => do
    let deadline ← startTimeout env progWriteTimeoutS
    loop (writeAwaitRound env fuel data len deadline) fuel ⟨0,0⟩

/-- The text of `smi.c`, word for word. -/
def smiDmaAwait : Drv σ ℤ := RpiSmi.smiDmaAwait env fuel

end Lite

end Waits

section Keeps

variable {env : Env σ} {S : Reg → Prop} {A : Reg → Field 32 → Prop}
  {R : World σ → World σ → Prop} [IsPreorder (World σ) R] (h : StepsIn env S A R)
  (hcs : ∀ f ∈ waitFlags, A smioCs f)

include h hcs

theorem keeps_writeWait_txdRound {wait : WriteWait σ} {deadline : ℤ}
    (hw : ∀ spin, Keeps R (wait.expired deadline spin)) (spin : ℕ) :
    Keeps R (wait.txdRound env deadline spin) := by
  refine keeps_bind (h.read _) fun b => keeps_ite (keeps_pure _) ?_
  refine keeps_bind (hw _) fun b => keeps_ite ?_ (keeps_pure _)
  exact keeps_giveUp h hcs (by simp [waitFlags]) (by simp [waitFlags]) _ _

theorem keeps_writeWait_checks {wait : WriteWait σ} {deadline : ℤ}
    (hw : ∀ spin, Keeps R (wait.expired deadline spin)) (s : Poll) :
    Keeps R (wait.checks env deadline s) := by
  refine keeps_bind (hw _) fun b => keeps_ite ?_ ?_
  · exact keeps_giveUp h hcs (by simp [waitFlags]) (by simp [waitFlags]) _ _
  · refine keeps_bind (h.read _) fun b => keeps_ite ?_ (keeps_pure _)
    exact keeps_giveUp h hcs (by simp [waitFlags]) (by simp [waitFlags]) _ _

theorem keeps_lite_writeAwaitRound (hd : S smioD) (fuel : ℕ) (data : ℕ → Word) (len deadline : ℤ)
    (s : Poll) : Keeps R (Lite.writeAwaitRound env fuel data len deadline s) := by
  have hw : ∀ spin, Keeps R ((Lite.writeWait env).expired deadline spin) :=
    fun spin => keeps_ite (h.timeoutComplete _) (keeps_pure _)
  have hroom (s : Poll) : Keeps R (Lite.writeRoom env fuel deadline s) := by
    refine keeps_bind (keeps_loop (keeps_writeWait_txdRound h hcs hw) _ _) fun r => ?_
    rcases r with code | spin
    · exact keeps_pure _
    · exact keeps_writeWait_checks h hcs hw _
  refine keeps_bind (h.read _) fun b => keeps_ite (keeps_pure _) (keeps_ite ?_ (hroom s))
  refine keeps_bind (h.fetch _) fun v => ?_
  exact keeps_bind (fun w => h.write _ v w hd) fun _ => hroom _

end Keeps

end RpiSmi
