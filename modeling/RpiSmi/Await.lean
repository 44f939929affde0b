import RpiSmi.Machine

/-!
# Await loops

Each loop is a round given to `loop`; the state of a round is the loop's local
variables. A loop that returns from inside yields `.error` with the code, one
that ends with its condition yields `.ok`.
-/

namespace RpiSmi

open Exec BitField

variable {σ : Type}

structure Poll where
  count : ℕ
  spin : ℕ
  deriving DecidableEq, Repr

/-- The local variables of the direct loops; `addr` is a `uint8_t`. -/
structure Direct where
  count : ℕ
  spin : ℕ
  addr : BitVec 8
  deriving DecidableEq, Repr

section FIFO

variable (env : Env σ) (fuel : ℕ)

def readAwaitRound (ret : Ptr) (len deadline : ℤ) (s : Poll) : Drv σ (Poll ⊕ Except ℤ ℕ) := do
  if ¬ (s.count : ℤ) < len then return .inr (.ok s.count)
  if ← readField env smioCs SmiCs.rxd then
    let v ← readReg env smioD
    storeWord ret s.count v
    return .inl ⟨s.count+1,0⟩
  if ← spinExpired env deadline s.spin then
    error "Read await timeout reached"
    setField env smioCs SmiCs.clear 1
    return .inr (.error (-smiErrTimeout))
  return .inl ⟨s.count,s.spin+1⟩

/-- What `smi_read_await` does after its loop. -/
def readAwaitEnd (len : ℤ) : Except ℤ ℕ → Drv σ ℤ
  | .error code => return code
  | .ok count => do
    if (count : ℤ) < len then
      error "Transfer complete but data lost. Slow the clock"
    if ← readField env smioCs SmiCs.rxd then
      error "Leftover data in the RX FIFO"
    return count

def smiReadAwait (ret : Ptr) (len : ℤ) : Drv σ ℤ := do
  if ret = .null then return smiErrNullPtr
  let deadline ← startTimeout env progReadTimeoutS
  let r ← loop (readAwaitRound env ret len deadline) fuel ⟨0,0⟩
  readAwaitEnd env len r

/-- The inner loop of `smi_write_await`; it yields the spin count at which TXD was seen. -/
def txdRound (deadline : ℤ) (spin : ℕ) : Drv σ (ℕ ⊕ Except ℤ ℕ) := do
  if ← readField env smioCs SmiCs.txd then return .inr (.ok spin)
  if ← spinExpired env deadline spin then
    error "Write await timeout reached. Interface not receiving data"
    setField env smioCs SmiCs.clear 1
    setField env smioCs SmiCs.done 1
    return .inr (.error smiErrTimeout)
  return .inl (spin+1)

def writeChecks (deadline : ℤ) (s : Poll) : Drv σ (Poll ⊕ ℤ) := do
  if ← spinExpired env deadline s.spin then
    error "Write await timeout reached. Data available but not readable"
    setField env smioCs SmiCs.clear 1
    setField env smioCs SmiCs.done 1
    return .inr smiErrTimeout
  if ← readField env smioCs SmiCs.aferr then
    error "Protected registers written to during write"
    setField env smioCs SmiCs.aferr 1
    setField env smioCs SmiCs.clear 1
    return .inr s.count
  return .inl ⟨s.count,s.spin+1⟩

/-- A round after TXD was seen; the guard is `count < len + 1`. -/
def writePush (data : ℕ → Word) (len deadline : ℤ) (s : Poll) : Drv σ (Poll ⊕ ℤ) :=
  if (s.count : ℤ) < len+1 then do
    let v ← loadWord data s.count
    writeReg env smioD v
    writeChecks env deadline ⟨s.count+1,s.spin⟩
  else writeChecks env deadline s

def writeAwaitRound (data : ℕ → Word) (len deadline : ℤ) (s : Poll) : Drv σ (Poll ⊕ ℤ) := do
  if ← readField env smioCs SmiCs.done then return .inr s.count
  match ← loop (txdRound env deadline) fuel s.spin with
  | .error code => return .inr code
  | .ok spin => writePush env data len deadline ⟨s.count,spin⟩

/-- `data` is `none` for a null pointer, else memory from the caller's array on. -/
def smiWriteAwait (data : Option (ℕ → Word)) (len : ℤ) : Drv σ ℤ :=
  match data with
  | none => return smiErrNullPtr
  | some data => do
    let deadline ← startTimeout env progWriteTimeoutS
    loop (writeAwaitRound env fuel data len deadline) fuel ⟨0,0⟩

end FIFO

section Direct

variable (env : Env σ) (fuel : ℕ)

/-- A wait for `DCS.done`. `next` is what a fruitless poll does to the spin count. -/
def doneRound (expired : ℕ → Drv σ Bool) (next : ℕ → ℕ) (msg : String) (code : ℤ) (spin : ℕ) :
    Drv σ (ℕ ⊕ Except ℤ ℕ) := do
  if ← readField env smioDcs SmiDcs.done then return .inr (.ok spin)
  if ← expired spin then
    error msg
    setField env smioCs SmiCs.clear 1
    setField env smioDcs SmiDcs.done 1
    return .inr (.error code)
  return .inl (next spin)

/-- `addr++` or `addr--` by the sign of `increment`, then `SMI_DA` follows. -/
def stepAddr (increment : ℤ) (addr : BitVec 8) : Drv σ (BitVec 8) := do
  if 0 < increment then
    setField env smioDa SmiDa.addr (addr+1).toNat
    return addr+1
  if increment < 0 then
    setField env smioDa SmiDa.addr (addr-1).toNat
    return addr-1
  return addr

def readDirectRound (ret : Ptr) (len increment deadline : ℤ) (s : Direct) :
    Drv σ (Direct ⊕ ℤ) := do
  if ¬ (s.count : ℤ) < len then return .inr s.count
  setField env smioDcs SmiDcs.start 1
  match ← loop (doneRound env (spinExpired env deadline) (· + 1)
      "Direct read await timeout reached" smiErrTimeout) fuel s.spin with
  | .error code => return .inr code
  | .ok spin =>
    let v ← readReg env smioDd
    storeWord ret s.count (v &&& 0xFF)
    setField env smioDcs SmiDcs.done 1
    let addr ← stepAddr env increment s.addr
    return .inl ⟨s.count+1,spin,addr⟩

def smiReadAwaitDirect (ret : Ptr) (addr : BitVec 8) (len increment : ℤ) : Drv σ ℤ := do
  if ret = .null then return -1
  setField env smioDcs SmiDcs.write 0
  setField env smioDa SmiDa.addr addr.toNat
  let deadline ← startTimeout env directReadTimeoutS
  loop (readDirectRound env fuel ret len increment deadline) fuel ⟨0,0,addr⟩

/-- What the two versions of `smi_write_await_direct` do not share. -/
structure DirectWait (σ : Type) where
  expired : ℤ → ℕ → Drv σ Bool
  msg : String
  timeoutCode : ℤ
  nullCode : ℤ

/-- The inner loop polls with the spin count as it is; only the outer loop counts. -/
def writeDirectRound (wait : DirectWait σ) (data : ℕ → Word) (len increment deadline : ℤ)
    (s : Direct) : Drv σ (Direct ⊕ ℤ) := do
  if ¬ (s.count : ℤ) < len then return .inr s.count
  let v ← loadWord data s.count
  writeReg env smioDd v
  setField env smioDcs SmiDcs.start 1
  match ← loop (doneRound env (wait.expired deadline) id wait.msg wait.timeoutCode) fuel
      s.spin with
  | .error code => return .inr code
  | .ok spin =>
    let addr ← stepAddr env increment s.addr
    return .inl ⟨s.count+1,spin+1,addr⟩

def writeAwaitDirect (wait : DirectWait σ) (data : Option (ℕ → Word)) (addr : BitVec 8)
    (len increment : ℤ) : Drv σ ℤ :=
  match data with
  | none => return wait.nullCode
  | some data => do
    let deadline ← startTimeout env progWriteTimeoutS
    setField env smioDcs SmiDcs.write 1
    loop (writeDirectRound env fuel wait data len increment deadline) fuel ⟨0,0,addr⟩

def directWait : DirectWait σ where
  expired := spinExpired env
  msg := "Direct write await timeout reached"
  timeoutCode := smiErrTimeout
  nullCode := smiErrNullPtr

def smiWriteAwaitDirect : Option (ℕ → Word) → BitVec 8 → ℤ → ℤ → Drv σ ℤ :=
  writeAwaitDirect env fuel (directWait env)

namespace Lite

def directWait : DirectWait σ where
  expired := fun deadline spin => if 1024 < spin then timeoutComplete env deadline else return false
  msg := "Direct read array timeout"
  timeoutCode := -eTimedOut
  nullCode := -1

/-- The version of `smilite.h`. -/
def smiWriteAwaitDirect : Option (ℕ → Word) → BitVec 8 → ℤ → ℤ → Drv σ ℤ :=
  writeAwaitDirect env fuel (directWait env)

end Lite

end Direct

section DMA

variable (env : Env σ) (fuel : ℕ)

/-- A round with the nanoseconds slept after it. The status polled is that of channel 0. -/
def dmaAwaitRound (deadline : ℤ) (delay : ℕ) : Drv σ (ℕ ⊕ ℤ) := do
  if ← readField env dmaoCs DmaCs.finish then return .inr 1
  if ← timeoutComplete env deadline then
    error "DMA transfer timeout"
    setField env dmaoCs DmaCs.abort 1
    return .inr (-eTimedOut)
  return .inl (if delay < 100000 then delay*2 else delay)

def smiDmaAwait : Drv σ ℤ := do
  let deadline ← startTimeout env progReadTimeoutS
  loop (dmaAwaitRound env deadline) fuel 1000

end DMA

def waitFlags : List (Field 32) := [SmiCs.clear,SmiCs.done,SmiCs.aferr]

section Keeps

variable {env : Env σ} {S : Reg → Prop} {A : Reg → Field 32 → Prop}
  {R : World σ → World σ → Prop} [IsPreorder (World σ) R] (h : StepsIn env S A R)
  (fuel : ℕ) (len : ℤ) (hcs : ∀ f ∈ waitFlags, A smioCs f)

theorem keeps_readAwaitEnd_of (hread : Keeps R (readField env smioCs SmiCs.rxd))
    (hlost : Keeps R (error "Transfer complete but data lost. Slow the clock" : Drv σ Unit))
    (hleft : Keeps R (error "Leftover data in the RX FIFO" : Drv σ Unit)) (r : Except ℤ ℕ) :
    Keeps R (readAwaitEnd env len r) := by
  cases r with
  | error code => exact keeps_pure _
  | ok count =>
    have hrest : Keeps R (readField env smioCs SmiCs.rxd >>= fun b =>
        if b then error "Leftover data in the RX FIFO" >>= fun _ => pure (count : ℤ)
        else pure (count : ℤ)) := by
      refine keeps_bind hread fun b => keeps_ite ?_ (keeps_pure _)
      exact keeps_then_pure hleft _
    refine keeps_ite ?_ hrest
    exact keeps_bind hlost fun _ => hrest

include h

theorem keeps_readAwaitEnd (r : Except ℤ ℕ) : Keeps R (readAwaitEnd env len r) :=
  keeps_readAwaitEnd_of len (h.read _) (h.report _) (h.report _) r

theorem keeps_smiDmaAwait (hab : A dmaoCs DmaCs.abort) : Keeps R (smiDmaAwait env fuel) := by
  refine keeps_bind (h.startTimeout _) fun deadline => keeps_loop (fun delay => ?_) _ _
  refine keeps_bind (h.read _) fun b => keeps_ite (keeps_pure _) ?_
  refine keeps_bind (h.timeoutComplete _) fun b => keeps_ite ?_ (keeps_pure _)
  have habort : Keeps R (setField env dmaoCs DmaCs.abort 1) := fun w => h.assign _ _ _ w hab
  refine keeps_bind (h.report _) fun _ => ?_
  exact keeps_then_pure habort _

include hcs

theorem keeps_giveUp {f g : Field 32} (hf : f ∈ waitFlags) (hg : g ∈ waitFlags)
    {α : Type} (msg : String) (a : α) : Keeps R (error msg >>= fun _ =>
      setField env smioCs f 1 >>= fun _ => setField env smioCs g 1 >>= fun _ => pure a) := by
  have hassign (f : Field 32) (hf : f ∈ waitFlags) : Keeps R (setField env smioCs f 1) :=
    fun w => h.assign _ _ _ w (hcs f hf)
  refine keeps_bind (h.report _) fun _ => ?_
  refine keeps_bind (hassign f hf) fun _ => ?_
  exact keeps_then_pure (hassign g hg) _

theorem keeps_readAwaitRound (deadline : ℤ) (s : Poll) :
    Keeps R (readAwaitRound env .rawBuffer len deadline s) := by
  have hclear : Keeps R (setField env smioCs SmiCs.clear 1) :=
    fun w => h.assign _ _ _ w (hcs _ (by simp [waitFlags]))
  refine keeps_ite (keeps_pure _) (keeps_bind (h.read _) fun b => keeps_ite ?_ ?_)
  · refine keeps_bind (h.read _) fun v => ?_
    have hstore : Keeps R (storeWord .rawBuffer s.count v) := h.store _ _
    exact keeps_then_pure hstore _
  · refine keeps_bind (h.spinExpired _ _) fun b => keeps_ite ?_ (keeps_pure _)
    refine keeps_bind (h.report _) fun _ => ?_
    exact keeps_then_pure hclear _

theorem keeps_smiReadAwait : Keeps R (smiReadAwait env fuel .rawBuffer len) := by
  refine keeps_ite (keeps_pure _) (keeps_bind (h.startTimeout _) fun deadline => ?_)
  have hloop := keeps_loop (keeps_readAwaitRound h len hcs deadline) fuel ⟨0,0⟩
  exact keeps_bind hloop fun r => keeps_readAwaitEnd h len r

theorem keeps_txdRound (deadline : ℤ) (spin : ℕ) : Keeps R (txdRound env deadline spin) := by
  refine keeps_bind (h.read _) fun b => keeps_ite (keeps_pure _) ?_
  refine keeps_bind (h.spinExpired _ _) fun b => keeps_ite ?_ (keeps_pure _)
  exact keeps_giveUp h hcs (by simp [waitFlags]) (by simp [waitFlags]) _ _

theorem keeps_writeChecks (deadline : ℤ) (s : Poll) : Keeps R (writeChecks env deadline s) := by
  refine keeps_bind (h.spinExpired _ _) fun b => keeps_ite ?_ ?_
  · exact keeps_giveUp h hcs (by simp [waitFlags]) (by simp [waitFlags]) _ _
  · refine keeps_bind (h.read _) fun b => keeps_ite ?_ (keeps_pure _)
    exact keeps_giveUp h hcs (by simp [waitFlags]) (by simp [waitFlags]) _ _

theorem keeps_writeAwaitRound (hd : S smioD) (data : ℕ → Word) (deadline : ℤ) (s : Poll) :
    Keeps R (writeAwaitRound env fuel data len deadline s) := by
  refine keeps_bind (h.read _) fun b => keeps_ite (keeps_pure _) ?_
  refine keeps_bind (keeps_loop (keeps_txdRound h hcs deadline) _ _) fun r => ?_
  rcases r with code | spin
  · exact keeps_pure _
  · refine keeps_ite (keeps_bind (h.fetch _) fun v => ?_) (keeps_writeChecks h hcs _ _)
    have hpush : Keeps R (writeReg env smioD v) := fun w => h.write _ v w hd
    exact keeps_bind hpush fun _ => keeps_writeChecks h hcs _ _

theorem keeps_smiWriteAwait (hd : S smioD) (data : Option (ℕ → Word)) :
    Keeps R (smiWriteAwait env fuel data len) := by
  cases data with
  | none => exact keeps_pure _
  | some data =>
    exact keeps_bind (h.startTimeout _) fun deadline =>
      keeps_loop (keeps_writeAwaitRound h fuel len hcs hd data deadline) _ _

end Keeps

end RpiSmi
