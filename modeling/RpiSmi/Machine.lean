import RpiSmi.Context
import RpiSmi.Elements
import RpiSmi.Exec

/-!
# The machine under the driver

`Env` is everything outside the driver: registers, clock, heap and sync files,
each a function of one state `σ` that the environment chooses. Quantifying over
`Env σ` and its state quantifies over every device, clock and allocator.
Signed overflow is undefined in C, so poll counters are unbounded here.
-/

namespace RpiSmi

open Exec BitField Elements

abbrev Word := BitVec 32

/-- The spin limits, with what the two preprocessor checks enforce: the second
compares `SPIN_MALLEABLE_LIMIT`, which is defined nowhere and so reads as 0. -/
structure SpinLimits where
  hard : ℤ := 128
  yield : ℤ := 192
  soft : ℤ := 512
  hard_lt_yield : hard < yield := by decide
  soft_pos : 0 < soft := by decide

/-- The limits of a build that sets none of them. -/
@[simps] def SpinLimits.default : SpinLimits := {}

variable {σ : Type}

structure Env (σ : Type) where
  readReg : Reg → σ → BitVec 32 × σ
  writeReg : Reg → BitVec 32 → σ → σ
  /-- `CLOCK_MONOTONIC` in nanoseconds. -/
  clockGettime : σ → ℤ × σ
  /-- Bytes asked for; the contents of a new block past what it keeps, or `none` on failure. -/
  realloc : ℕ → σ → Option (ℕ → BitVec 32) × σ
  /-- `write_sync` on an open sync file. -/
  writeSync : ℤ → σ → σ
  limits : SpinLimits
  arm64 : Bool

/-- A flag of `SMI_CS` as a poll finds it. -/
def Env.flag (env : Env σ) (f : Field 32) (s : σ) : Bool := f.test (env.readReg smioCs s).1

def Env.polled (env : Env σ) (s : σ) : σ := (env.readReg smioCs s).2

inductive Ptr
  | null | rawBuffer | caller
  deriving DecidableEq, Repr

structure DmaCb where
  ti : BitVec 32
  srcAddr : BitVec 32
  destAddr : BitVec 32
  tfrLen : BitVec 32
  stride : BitVec 32
  nextCb : BitVec 32
  deriving DecidableEq, Repr

/-- What the driver did, in order: register and array accesses, clock readings, messages, sync
files written, and stores into a control block, with what it then held. -/
inductive Event
  | read (r : Reg) (v : BitVec 32)
  | write (r : Reg) (v : BitVec 32)
  | load (i : ℕ)
  | store (p : Ptr) (i : ℕ) (v : BitVec 32)
  | clock (t : ℤ)
  | error (msg : String)
  | sync (fd : ℤ)
  | control (c : DmaCb)
  deriving DecidableEq, Repr

structure RawBuf where
  buf : ℕ → BitVec 32
  size : ℕ

structure World (σ : Type) where
  dev : σ
  rawBuffer : RawBuf
  /-- The bytes stored into the caller's `ret_data`. -/
  retData : Bytes
  cb : DmaCb
  log : List Event

/-- A statement of a setup sequence: an assignment to a field or to a whole register. -/
inductive RegOp
  | field (r : Reg) (f : Field 32) (v : ℕ)
  | value (r : Reg) (v : Word)

def RegOp.reg : RegOp → Reg
  | .field r _ _ => r
  | .value r _ => r

abbrev Drv (σ α : Type) := Prog (World σ) α

namespace World

def fresh (w : World σ) : World σ := { w with retData := empty, log := [] }

/-- The world after `smi_init_cxt_map`, with the devices in state `s`. -/
def init (s : σ) : World σ := ⟨s,⟨fun _ => 0,1024⟩,empty,⟨0,0,0,0,0,0⟩,[]⟩

def value (env : Env σ) (r : Reg) (w : World σ) : BitVec 32 := (env.readReg r w.dev).1

def read (env : Env σ) (r : Reg) (w : World σ) : World σ :=
  { w with dev := (env.readReg r w.dev).2, log := w.log ++ [.read r (w.value env r)] }

def write (env : Env σ) (r : Reg) (v : BitVec 32) (w : World σ) : World σ :=
  { w with dev := env.writeReg r v w.dev, log := w.log ++ [.write r v] }

/-- A bit-field assignment: the word is read, the field replaced, and the word written. -/
def assign (env : Env σ) (r : Reg) (f : Field 32) (v : ℕ) (w : World σ) : World σ :=
  (w.read env r).write env r (f.set v (w.value env r))

def apply (env : Env σ) (ops : List RegOp) (w : World σ) : World σ :=
  ops.foldl (fun w op => match op with
    | .field r f v => w.assign env r f v
    | .value r v => w.write env r v) w

@[simp] theorem apply_nil (env : Env σ) (w : World σ) : w.apply env [] = w := rfl
@[simp] theorem apply_field (env : Env σ) (r : Reg) (f : Field 32) (v : ℕ) (ops : List RegOp)
    (w : World σ) : w.apply env (.field r f v::ops) = (w.assign env r f v).apply env ops := rfl
@[simp] theorem apply_value (env : Env σ) (r : Reg) (v : Word) (ops : List RegOp)
    (w : World σ) : w.apply env (.value r v::ops) = (w.write env r v).apply env ops := rfl

theorem apply_append (env : Env σ) (ops ops' : List RegOp) (w : World σ) :
    w.apply env (ops ++ ops') = (w.apply env ops).apply env ops' := List.foldl_append

def report (msg : String) (w : World σ) : World σ := { w with log := w.log ++ [.error msg] }

def fetch (i : ℕ) (w : World σ) : World σ := { w with log := w.log ++ [.load i] }

/-- `p[i] = v` for a `uint32_t*`; a null pointer is excluded by the callers' checks. -/
def store (p : Ptr) (i : ℕ) (v : BitVec 32) (w : World σ) : World σ :=
  let w' := { w with log := w.log ++ [.store p i v] }
  match p with
  | .null => w'
  | .rawBuffer => { w' with rawBuffer.buf := Function.update w.rawBuffer.buf i v }
  | .caller => { w' with retData := put 4 i v w.retData }

end World

section Primitives

variable (env : Env σ)

def readReg (r : Reg) : Drv σ (BitVec 32) := fun w => (some (w.value env r),w.read env r)
def writeReg (r : Reg) (v : BitVec 32) : Drv σ Unit := fun w => (some (),w.write env r v)
def readField (r : Reg) (f : Field 32) : Drv σ Bool :=
  fun w => (some (f.test (w.value env r)),w.read env r)
def setField (r : Reg) (f : Field 32) (v : ℕ) : Drv σ Unit :=
  fun w => (some (),w.assign env r f v)
def regOps (ops : List RegOp) : Drv σ Unit := fun w => (some (),w.apply env ops)
def error (msg : String) : Drv σ Unit := fun w => (some (),w.report msg)
def storeWord (p : Ptr) (i : ℕ) (v : BitVec 32) : Drv σ Unit := fun w => (some (),w.store p i v)

def loadWord (data : ℕ → BitVec 32) (i : ℕ) : Drv σ (BitVec 32) :=
  fun w => (some (data i),w.fetch i)

@[simp] theorem readReg_run (r : Reg) (w : World σ) :
    readReg env r w = (some (w.value env r),w.read env r) := rfl
@[simp] theorem writeReg_run (r : Reg) (v : BitVec 32) (w : World σ) :
    writeReg env r v w = (some (),w.write env r v) := rfl
@[simp] theorem readField_run (r : Reg) (f : Field 32) (w : World σ) :
    readField env r f w = (some (f.test (w.value env r)),w.read env r) := rfl
@[simp] theorem setField_run (r : Reg) (f : Field 32) (v : ℕ) (w : World σ) :
    setField env r f v w = (some (),w.assign env r f v) := rfl
@[simp] theorem regOps_run (ops : List RegOp) (w : World σ) :
    regOps env ops w = (some (),w.apply env ops) := rfl
@[simp] theorem error_run (msg : String) (w : World σ) :
    error msg w = (some (),w.report msg) := rfl
@[simp] theorem storeWord_run (p : Ptr) (i : ℕ) (v : BitVec 32) (w : World σ) :
    storeWord p i v w = (some (),w.store p i v) := rfl
@[simp] theorem loadWord_run (data : ℕ → BitVec 32) (i : ℕ) (w : World σ) :
    loadWord data i w = (some (data i),w.fetch i) := rfl

end Primitives

def LogGrows (w w' : World σ) : Prop := w.log <+: w'.log

instance : IsPreorder (World σ) LogGrows where
  refl _ := List.prefix_refl _
  trans _ _ _ h h' := h.trans h'

theorem LogGrows.mem {w w' : World σ} (h : LogGrows w w') {e : Event} (he : e ∈ w.log) :
    e ∈ w'.log := h.subset he

def SameRet (w w' : World σ) : Prop := w'.retData = w.retData

instance : IsPreorder (World σ) SameRet where
  refl _ := rfl
  trans _ _ _ h h' := Eq.trans h' h

def Event.store? : Event → Option (Ptr × ℕ × Word)
  | .store p i v => some (p,i,v)
  | _ => none

def Event.load? : Event → Option ℕ
  | .load i => some i
  | _ => none

def Event.writeTo? (r : Reg) : Event → Option Word
  | .write r' v => if r' = r then some v else none
  | _ => none

def World.view {β : Type} (f : Event → Option β) (w : World σ) : List β := w.log.filterMap f

section View

variable {β : Type} (f : Event → Option β) (env : Env σ) (w : World σ)

@[simp] theorem view_fresh : w.fresh.view f = [] := rfl
@[simp] theorem view_read (r : Reg) :
    (w.read env r).view f = w.view f ++ (f (.read r (w.value env r))).toList := by
  cases h : f (.read r (w.value env r)) <;> simp [World.view,World.read,h]
@[simp] theorem view_write (r : Reg) (v : Word) :
    (w.write env r v).view f = w.view f ++ (f (.write r v)).toList := by
  cases h : f (.write r v) <;> simp [World.view,World.write,h]
@[simp] theorem view_report (msg : String) :
    (w.report msg).view f = w.view f ++ (f (.error msg)).toList := by
  cases h : f (.error msg) <;> simp [World.view,World.report,h]
@[simp] theorem view_store (p : Ptr) (i : ℕ) (v : Word) :
    (w.store p i v).view f = w.view f ++ (f (.store p i v)).toList := by
  cases h : f (.store p i v) <;> cases p <;> simp [World.view,World.store,h]
@[simp] theorem view_fetch (i : ℕ) :
    (w.fetch i).view f = w.view f ++ (f (.load i)).toList := by
  cases h : f (.load i) <;> simp [World.view,World.fetch,h]

end View

def Event.message? : Event → Option String
  | .error msg => some msg
  | _ => none

def World.messages (w : World σ) : List String := w.view Event.message?

section Messages

variable (env : Env σ) (w : World σ)

@[simp] theorem messages_fresh : w.fresh.messages = [] := rfl
@[simp] theorem messages_read (r : Reg) : (w.read env r).messages = w.messages := by
  simp [World.messages,Event.message?]
@[simp] theorem messages_write (r : Reg) (v : Word) : (w.write env r v).messages = w.messages := by
  simp [World.messages,Event.message?]
@[simp] theorem messages_assign (r : Reg) (f : Field 32) (v : ℕ) :
    (w.assign env r f v).messages = w.messages := by
  simp [World.assign]
@[simp] theorem messages_fetch (i : ℕ) : (w.fetch i).messages = w.messages := by
  simp [World.messages,Event.message?]
@[simp] theorem messages_store (p : Ptr) (i : ℕ) (v : Word) :
    (w.store p i v).messages = w.messages := by
  simp [World.messages,Event.message?]
@[simp] theorem messages_report (msg : String) :
    (w.report msg).messages = w.messages ++ [msg] := by
  simp [World.messages,Event.message?]
@[simp] theorem messages_apply (ops : List RegOp) : (w.apply env ops).messages = w.messages := by
  induction ops generalizing w with
  | nil => rfl
  | cons op ops ih => cases op <;> simp [ih]

end Messages

structure Memory where
  rawBuffer : RawBuf
  retData : Bytes
  stores : List (Ptr × ℕ × Word)

def World.memory (w : World σ) : Memory := ⟨w.rawBuffer,w.retData,w.view Event.store?⟩

/-- Words over the front of a buffer. -/
def overlay (ws : List Word) (buf : ℕ → Word) (i : ℕ) : Word := ws[i]?.getD (buf i)

namespace Memory

def store (p : Ptr) (i : ℕ) (v : Word) (m : Memory) : Memory :=
  let m' := { m with stores := m.stores ++ [(p,i,v)] }
  match p with
  | .null => m'
  | .rawBuffer => { m' with rawBuffer.buf := Function.update m.rawBuffer.buf i v }
  | .caller => { m' with retData := put 4 i v m.retData }

def storeAll (p : Ptr) : ℕ → List Word → Memory → Memory
  | _, [], m => m
  | i, v::ws, m => storeAll p (i+1) ws (m.store p i v)

@[simp] theorem stores_store (p : Ptr) (i : ℕ) (v : Word) (m : Memory) :
    (m.store p i v).stores = m.stores ++ [(p,i,v)] := by
  cases p <;> rfl

@[simp] theorem retData_storeAll_rawBuffer (i : ℕ) (ws : List Word) (m : Memory) :
    (storeAll .rawBuffer i ws m).retData = m.retData := by
  induction ws generalizing i m with
  | nil => rfl
  | cons v ws ih => exact ih _ _

theorem retData_storeAll_caller (i : ℕ) (ws : List Word) (m : Memory) :
    (storeAll .caller i ws m).retData = putAll 4 ws i m.retData := by
  induction ws generalizing i m with
  | nil => rfl
  | cons v ws ih => exact ih _ _

theorem buf_storeAll (i : ℕ) (ws : List Word) (m : Memory) (j : ℕ) :
    (storeAll .rawBuffer i ws m).rawBuffer.buf j =
      if i ≤ j then overlay ws (fun k => m.rawBuffer.buf (k+i)) (j-i) else m.rawBuffer.buf j := by
  induction ws generalizing i m with
  | nil =>
    split_ifs with h
    · simp [storeAll,overlay,Nat.sub_add_cancel h]
    · rfl
  | cons v ws ih =>
    rw [storeAll,ih]
    rcases Nat.lt_trichotomy j i with h | rfl | h
    · rw [if_neg (by omega),if_neg (by omega)]
      simp [store,Function.update_of_ne (Nat.ne_of_lt h)]
    · rw [if_neg (by omega),if_pos le_rfl]
      simp [store,overlay]
    · rw [if_pos (by omega),if_pos (by omega),show j-i = j-(i+1)+1 by omega]
      simp [store,overlay,show j-(i+1)+(i+1) = j-(i+1)+1+i by omega]

theorem buf_storeAll_zero (ws : List Word) (m : Memory) :
    (storeAll .rawBuffer 0 ws m).rawBuffer.buf = overlay ws m.rawBuffer.buf := by
  funext j
  simp [buf_storeAll]

theorem length_stores_storeAll (p : Ptr) (i : ℕ) (ws : List Word) (m : Memory) :
    (storeAll p i ws m).stores.length = m.stores.length+ws.length := by
  induction ws generalizing i m with
  | nil => rfl
  | cons v ws ih =>
    simp only [storeAll,ih,stores_store,List.length_append,List.length_cons,List.length_nil]
    omega

theorem storeAll_concat (p : Ptr) (i : ℕ) (ws : List Word) (v : Word) (m : Memory) :
    storeAll p i (ws ++ [v]) m = (storeAll p i ws m).store p (i+ws.length) v := by
  induction ws generalizing i m with
  | nil => rfl
  | cons u ws ih =>
    simpa [storeAll,Nat.add_assoc,Nat.add_comm 1] using ih (i+1) (m.store p i u)

end Memory

section Simp

variable (env : Env σ) (w : World σ)

@[simp] theorem memory_read (r : Reg) : (w.read env r).memory = w.memory := by
  simp [World.memory,Event.store?]
  exact ⟨rfl,rfl⟩
@[simp] theorem memory_write (r : Reg) (v : Word) : (w.write env r v).memory = w.memory := by
  simp [World.memory,Event.store?]
  exact ⟨rfl,rfl⟩
@[simp] theorem memory_assign (r : Reg) (f : Field 32) (v : ℕ) :
    (w.assign env r f v).memory = w.memory := by
  simp [World.assign]
@[simp] theorem memory_apply (ops : List RegOp) : (w.apply env ops).memory = w.memory := by
  induction ops generalizing w with
  | nil => rfl
  | cons op ops ih => cases op <;> simp [ih]
@[simp] theorem memory_report (msg : String) : (w.report msg).memory = w.memory := by
  simp [World.memory,Event.store?]
  exact ⟨rfl,rfl⟩
@[simp] theorem memory_store (p : Ptr) (i : ℕ) (v : Word) :
    (w.store p i v).memory = w.memory.store p i v := by
  cases p <;> simp [World.memory,Memory.store,Event.store?] <;>
    exact ⟨rfl,rfl⟩

@[simp] theorem dev_read (r : Reg) : (w.read env r).dev = (env.readReg r w.dev).2 := rfl
@[simp] theorem dev_write (r : Reg) (v : Word) :
    (w.write env r v).dev = env.writeReg r v w.dev := rfl
@[simp] theorem dev_fetch (i : ℕ) : (w.fetch i).dev = w.dev := rfl
@[simp] theorem dev_report (msg : String) : (w.report msg).dev = w.dev := rfl
@[simp] theorem dev_store (p : Ptr) (i : ℕ) (v : Word) : (w.store p i v).dev = w.dev := by
  cases p <;> rfl

end Simp

structure Check (σ : Type) where
  expired : Bool
  readings : List ℤ
  state : σ

namespace Env

def timeoutComplete (env : Env σ) (deadline : ℤ) (s : σ) : Check σ where
  expired := deadline ≤ (env.clockGettime s).1
  readings := [(env.clockGettime s).1]
  state := (env.clockGettime s).2

def timeoutSpinTier (spin hard yield soft : ℤ) : ℕ :=
  if spin < hard then 0
  else if spin < yield then 1
  else if spin < soft then 2
  else 3

/-- Tier 3 asks the clock on both sides of its sleep. -/
def timeoutApply (env : Env σ) (deadline : ℤ) (tier : ℕ) (s : σ) : Check σ :=
  match tier with
  | 2 => env.timeoutComplete deadline s
  | 3 =>
    let c := env.timeoutComplete deadline s
    let c' := env.timeoutComplete deadline c.state
    if c.expired then c else { c' with readings := c.readings ++ c'.readings }
  | _ => ⟨false,[],s⟩

def spinExpired (env : Env σ) (deadline : ℤ) (spin : ℕ) (s : σ) : Check σ :=
  env.timeoutApply deadline
    (timeoutSpinTier spin env.limits.hard env.limits.yield env.limits.soft) s

theorem spinExpired_of_lt (env : Env σ) (deadline : ℤ) {spin : ℕ}
    (h : (spin : ℤ) < env.limits.yield) (s : σ) :
    env.spinExpired deadline spin s = ⟨false,[],s⟩ := by
  unfold spinExpired timeoutSpinTier
  split_ifs <;> rfl

theorem spinExpired_reading {env : Env σ} {deadline : ℤ} {spin : ℕ} {s : σ}
    (h : (env.spinExpired deadline spin s).expired = true) :
    ∃ t ∈ (env.spinExpired deadline spin s).readings, deadline ≤ t := by
  unfold spinExpired timeoutApply at *
  split at h
  · simpa [timeoutComplete] using h
  · by_cases hc : deadline ≤ (env.clockGettime s).1
    · simp [timeoutComplete,hc]
    · simp only [timeoutComplete,hc] at h ⊢
      exact ⟨_,List.mem_append_right _ (List.mem_singleton_self _),of_decide_eq_true h⟩
  · cases h

end Env

namespace World

def after (c : Check σ) (w : World σ) : World σ :=
  { w with dev := c.state, log := w.log ++ c.readings.map .clock }

def clocked (env : Env σ) (w : World σ) : World σ :=
  w.after ⟨false,[(env.clockGettime w.dev).1],(env.clockGettime w.dev).2⟩

/-- A deadline `seconds` after now; the call sites pass whole seconds. -/
def deadline (env : Env σ) (seconds : ℕ) (w : World σ) : ℤ :=
  (env.clockGettime w.dev).1+seconds*1000000000

@[simp] theorem view_after {β : Type} (f : Event → Option β) (c : Check σ) (w : World σ) :
    (w.after c).view f = w.view f ++ c.readings.filterMap (fun t => f (.clock t)) := by
  simp [view,after,List.filterMap_map]
@[simp] theorem memory_after (c : Check σ) (w : World σ) : (w.after c).memory = w.memory := by
  simp [memory,Event.store?]
  exact ⟨rfl,rfl⟩
@[simp] theorem messages_after (c : Check σ) (w : World σ) : (w.after c).messages = w.messages := by
  simp [messages,Event.message?]
@[simp] theorem dev_after (c : Check σ) (w : World σ) : (w.after c).dev = c.state := rfl

end World

def startTimeout (env : Env σ) (seconds : ℕ) : Drv σ ℤ :=
  fun w => (some (w.deadline env seconds),w.clocked env)

def timeoutComplete (env : Env σ) (deadline : ℤ) : Drv σ Bool := fun w =>
  (some (env.timeoutComplete deadline w.dev).expired,w.after (env.timeoutComplete deadline w.dev))

def spinExpired (env : Env σ) (deadline : ℤ) (spin : ℕ) : Drv σ Bool := fun w =>
  (some (env.spinExpired deadline spin w.dev).expired,w.after (env.spinExpired deadline spin w.dev))

@[simp] theorem startTimeout_run (env : Env σ) (seconds : ℕ) (w : World σ) :
    startTimeout env seconds w = (some (w.deadline env seconds),w.clocked env) := rfl
@[simp] theorem timeoutComplete_run (env : Env σ) (deadline : ℤ) (w : World σ) :
    timeoutComplete env deadline w = (some (env.timeoutComplete deadline w.dev).expired,
      w.after (env.timeoutComplete deadline w.dev)) := rfl
@[simp] theorem spinExpired_run (env : Env σ) (deadline : ℤ) (spin : ℕ) (w : World σ) :
    spinExpired env deadline spin w = (some (env.spinExpired deadline spin w.dev).expired,
      w.after (env.spinExpired deadline spin w.dev)) := rfl

/-- A check asks the clock not at all, once or twice. -/
theorem World.after_spinExpired {env : Env σ} {P : World σ → Prop}
    (hclock : ∀ w, P w → P (w.clocked env)) (deadline : ℤ) (spin : ℕ) {w : World σ} (hw : P w) :
    P (w.after (env.spinExpired deadline spin w.dev)) := by
  have hnone : w.after ⟨false,[],w.dev⟩ = w := by
    simp [World.after]
  simp only [Env.spinExpired,Env.timeoutApply]
  split
  · exact hclock w hw
  · split
    · exact hclock w hw
    · have hboth := hclock _ (hclock w hw)
      simpa [World.clocked,World.after,Env.timeoutComplete] using hboth
  · rwa [hnone]

def Event.clock? : Event → Option ℤ
  | .clock t => some t
  | _ => none

/-- The clock has been found at the deadline or past it. -/
def World.Expired (deadline : ℤ) (w : World σ) : Prop :=
  ∃ t ∈ w.view Event.clock?, deadline ≤ t

section Expired

variable (env : Env σ) {deadline : ℤ} (w : World σ)

@[simp] theorem expired_fresh : ¬ w.fresh.Expired deadline := by
  simp [World.Expired]
@[simp] theorem expired_read (r : Reg) : (w.read env r).Expired deadline ↔ w.Expired deadline := by
  simp [World.Expired,Event.clock?]
@[simp] theorem expired_write (r : Reg) (v : Word) :
    (w.write env r v).Expired deadline ↔ w.Expired deadline := by
  simp [World.Expired,Event.clock?]
@[simp] theorem expired_assign (r : Reg) (f : Field 32) (v : ℕ) :
    (w.assign env r f v).Expired deadline ↔ w.Expired deadline := by
  simp [World.assign]
@[simp] theorem expired_report (msg : String) :
    (w.report msg).Expired deadline ↔ w.Expired deadline := by
  simp [World.Expired,Event.clock?]
@[simp] theorem expired_store (p : Ptr) (i : ℕ) (v : Word) :
    (w.store p i v).Expired deadline ↔ w.Expired deadline := by
  simp [World.Expired,Event.clock?]
@[simp] theorem expired_fetch (i : ℕ) : (w.fetch i).Expired deadline ↔ w.Expired deadline := by
  simp [World.Expired,Event.clock?]
theorem expired_after (c : Check σ) : (w.after c).Expired deadline ↔
    w.Expired deadline ∨ ∃ t ∈ c.readings, deadline ≤ t := by
  simp [World.Expired,Event.clock?,or_and_right,exists_or]

theorem expired_of_check {spin : ℕ} (hx : (env.spinExpired deadline spin w.dev).expired = true) :
    (w.after (env.spinExpired deadline spin w.dev)).Expired deadline :=
  (expired_after w _).mpr (.inr (Env.spinExpired_reading hx))

end Expired

/-- `R` is kept by reads, clock readings, messages, stores into the raw buffer, by writes to the
registers in `S`, and by assignments to the fields in `A`. -/
structure StepsIn (env : Env σ) (S : Reg → Prop) (A : Reg → Field 32 → Prop)
    (R : World σ → World σ → Prop) : Prop where
  read (r : Reg) (w : World σ) : R w (w.read env r)
  write (r : Reg) (v : Word) (w : World σ) : S r → R w (w.write env r v)
  assign (r : Reg) (f : Field 32) (v : ℕ) (w : World σ) : A r f → R w (w.assign env r f v)
  store (i : ℕ) (v : Word) (w : World σ) : R w (w.store .rawBuffer i v)
  fetch (i : ℕ) (w : World σ) : R w (w.fetch i)
  report (msg : String) (w : World σ) : R w (w.report msg)
  clock (w : World σ) : R w (w.clocked env)

def RegOp.In (S : Reg → Prop) (A : Reg → Field 32 → Prop) : RegOp → Prop
  | .field r f _ => A r f
  | .value r _ => S r

section StepsIn

variable {env : Env σ} {S : Reg → Prop} {A : Reg → Field 32 → Prop}
  {R : World σ → World σ → Prop} (h : StepsIn env S A R)

include h

theorem StepsIn.startTimeout (seconds : ℕ) : Keeps R (startTimeout env seconds) := h.clock

theorem StepsIn.timeoutComplete (deadline : ℤ) : Keeps R (timeoutComplete env deadline) := h.clock

variable [IsPreorder (World σ) R]

theorem StepsIn.apply {ops : List RegOp} (ho : ∀ op ∈ ops, op.In S A) (w : World σ) :
    R w (w.apply env ops) := by
  induction ops generalizing w with
  | nil => exact refl_of R w
  | cons op ops ih =>
    have hop := ho op (List.mem_cons_self ..)
    have hops := ih fun op' h' => ho op' (List.mem_cons_of_mem op h')
    cases op with
    | field r f v => exact trans_of R (h.assign r f v w hop) (hops _)
    | value r v => exact trans_of R (h.write r v w hop) (hops _)

theorem StepsIn.spinExpired (deadline : ℤ) (spin : ℕ) :
    Keeps R (spinExpired env deadline spin) :=
  fun w => World.after_spinExpired (P := R w) (fun v hv => trans_of R hv (h.clock v)) deadline spin
    (refl_of R w)

end StepsIn

theorem logGrows_steps (env : Env σ) :
    StepsIn env (fun _ => True) (fun _ _ => True) LogGrows where
  read _ _ := List.prefix_append _ _
  write _ _ _ _ := List.prefix_append _ _
  assign _ _ _ _ _ := (List.prefix_append _ _).trans (List.prefix_append _ _)
  store _ _ _ := List.prefix_append _ _
  fetch _ _ := List.prefix_append _ _
  report _ _ := List.prefix_append _ _
  clock _ := List.prefix_append _ _

theorem sameRet_steps (env : Env σ) :
    StepsIn env (fun _ => True) (fun _ _ => True) SameRet where
  read _ _ := rfl
  write _ _ _ _ := rfl
  assign _ _ _ _ _ := rfl
  store _ _ _ := rfl
  fetch _ _ := rfl
  report _ _ := rfl
  clock _ := rfl

def SameWrites (r : Reg) (w w' : World σ) : Prop :=
  w'.view (Event.writeTo? r) = w.view (Event.writeTo? r)

instance (r : Reg) : IsPreorder (World σ) (SameWrites r) where
  refl _ := rfl
  trans _ _ _ h h' := Eq.trans h' h

theorem sameWrites_steps (env : Env σ) (r : Reg) :
    StepsIn env (· ≠ r) (fun r' _ => r' ≠ r) (SameWrites r) where
  read _ _ := by simp [SameWrites,Event.writeTo?]
  write _ _ _ h := by simp [SameWrites,Event.writeTo?,h]
  assign _ _ _ _ h := by simp [SameWrites,World.assign,Event.writeTo?,h]
  store _ _ _ := by simp [SameWrites,Event.writeTo?]
  fetch _ _ := by simp [SameWrites,Event.writeTo?]
  report _ _ := by simp [SameWrites,Event.writeTo?]
  clock _ := by simp [SameWrites,World.clocked,Event.writeTo?]

end RpiSmi
