import RpiSmi.RawBuffer

/-!
# The life of a context

What the driver asks of the system from `smi_init_cxt_map` to the teardown:
mappings, descriptors and the raw buffer. A `MEM_MAP` is known by its address.
Register accesses through a new mapping, and the contents of the structs, which
no teardown reads, are left out.
-/

namespace RpiSmi

open Exec

variable {σ : Type}

def pageSize : ℕ := 0x1000
def nadjChannels : ℕ := 14
def dmaBufferSize : ℕ := 1024
def smiErrFileIoFail : ℤ := -14

def pageRoundup (n : ℕ) : ℕ :=
  if n%pageSize = 0 then n else (n+pageSize)/pageSize*pageSize

inductive SysCall
  | opened (path : String) (fd : ℤ)
  | close (fd : ℤ)
  | mmap (base len : ℕ)
  | munmap (addr len : ℕ)
  deriving DecidableEq, Repr

def SysCall.munmap? : SysCall → Option (ℕ × ℕ)
  | munmap addr len => some (addr,len)
  | _ => none

structure Os (σ : Type) where
  openFile : String → σ → ℤ × σ
  close : ℤ → σ → σ
  /-- The base of a new mapping of so many bytes, or `none` on failure. -/
  mmap : ℕ → σ → Option ℕ × σ
  munmap : ℕ → ℕ → σ → σ

/-- What the context keeps of its resources beside the raw buffer; 0 is the null pointer. -/
structure Handles where
  smiRegs : ℕ
  clkRegs : ℕ
  gpioRegs : ℕ
  dmaRegs : ℕ
  dmaBuffer : ℕ
  fdSyncCpu : ℤ
  fdSyncDev : ℤ
  deriving DecidableEq, Repr

def Handles.addrs (c : Handles) : List ℕ :=
  [c.smiRegs,c.clkRegs,c.gpioRegs,c.dmaRegs,c.dmaBuffer]

structure Process (σ : Type) where
  world : World (σ × Heap)
  cxt : Handles
  calls : List SysCall
  /-- The block of each use of the raw buffer that came after the block was freed. -/
  stale : List ℕ

/-- A run without a result has called `exit`. -/
abbrev Proc (σ α : Type) := Prog (Process σ) α

namespace Process

/-- A context whose fields have not been set. -/
def start (s : σ) (cxt : Handles) : Process σ where
  world := ⟨(s,.none),⟨fun _ => 0,0⟩,Elements.empty,⟨0,0,0,0,0,0⟩,[]⟩
  cxt := cxt
  calls := []
  stale := []

def setDev (s : σ) (p : Process σ) : Process σ :=
  { p with world.dev := (s,p.world.heap) }

def called (c : SysCall) (p : Process σ) : Process σ := { p with calls := p.calls ++ [c] }

/-- The raw buffer is about to be used. -/
def touch (p : Process σ) : Process σ :=
  { p with stale := p.stale ++ p.world.heap.buf.toList.filter (· ∈ p.world.heap.freed) }

end Process

section Primitives

variable (os : Os σ)

def exit {α : Type} : Proc σ α := fun p => (none,p)

def errorMsg (msg : String) : Proc σ Unit := fun p =>
  (some (),{ p with world := p.world.report msg })

def openFile (path : String) : Proc σ ℤ := fun p =>
  let (fd,s) := os.openFile path p.world.dev.1
  (some fd,(p.setDev s).called (.opened path fd))

def closeFile (fd : ℤ) : Proc σ Unit := fun p =>
  (some (),(p.setDev (os.close fd p.world.dev.1)).called (.close fd))

def mmap (len : ℕ) : Proc σ (Option ℕ) := fun p =>
  match os.mmap len p.world.dev.1 with
  | (some base,s) => (some (some base),(p.setDev s).called (.mmap base len))
  | (none,s) => (some none,p.setDev s)

def munmap (addr len : ℕ) : Proc σ Unit := fun p =>
  (some (),(p.setDev (os.munmap addr len p.world.dev.1)).called (.munmap addr len))

def setCxt (f : Handles → Handles) : Proc σ Unit := fun p => (some (),{ p with cxt := f p.cxt })

end Primitives

section Functions

variable (env : Env σ) (os : Os σ)

def mapSegment (size : ℕ) : Proc σ ℕ := do
  let fd ← openFile os "/dev/mem"
  if fd < 0 then
    errorMsg "Could not open /dev/"
    exit
  let mem ← mmap os (pageRoundup size)
  closeFile os fd
  match mem with
  | some base => return base
  | none => do
    errorMsg "Could not map memory"
    exit

def unmapSegment (mem size : ℕ) : Proc σ Unit :=
  if mem ≠ 0 then munmap os mem (pageRoundup size) else pure ()

def initRawBuffer : Proc σ ℤ := fun p =>
  match smiInitRawBuffer env p.world with
  | (r,w) => (r,{ p with world := w })

def smiInitCxtMap (smiRegs clkRegs gpioRegs dmaRegs : ℕ) : Proc σ ℤ := do
  let _ ← mapSegment os pageSize
  let _ ← mapSegment os (nadjChannels*pageSize)
  let _ ← mapSegment os pageSize
  let _ ← mapSegment os pageSize
  let r ← initRawBuffer env
  if r = smiOk then
    setCxt fun c => { c with
      smiRegs := smiRegs, clkRegs := clkRegs, gpioRegs := gpioRegs, dmaRegs := dmaRegs }
  return r

/-- `free(cxt->raw_buffer.buf)`, which keeps the pointer, and a size of 0. -/
def freeRawBuffer : Proc σ Unit := fun p =>
  (some (),{ p.touch with
    world.dev := (p.world.dev.1,p.world.heap.free)
    world.rawBuffer.size := 0 })

/-- Each pointer passed is the address of a `MEM_MAP`. -/
def smiUnmapCxt : Proc σ Unit := fun p => (do
  unmapSegment os p.cxt.gpioRegs pageSize
  unmapSegment os p.cxt.dmaRegs (nadjChannels*pageSize)
  unmapSegment os p.cxt.smiRegs pageSize
  unmapSegment os p.cxt.clkRegs pageSize
  freeRawBuffer) p

def mapDmaBuffer (size : ℕ) : Proc σ (Option ℕ) := do
  let fd ← openFile os "/dev/udmabuf0"
  if fd < 0 then
    errorMsg "ERROR: failed opening /dev/udmabuf0\n"
    return none
  match ← mmap os size with
  | some buf => do
    closeFile os fd
    return some buf
  | none => do
    errorMsg "ERROR: buffer mapping failed\n"
    closeFile os fd
    return none

/-- `dma_buffer_init` up to the mapping; the caller drops what it returns. -/
def dmaBufferInit : Proc σ Unit := do
  if (← mapDmaBuffer os dmaBufferSize) = none then
    errorMsg "Error mapping segment\n"

def closeIfOpen (fd : ℤ) : Proc σ Unit := if 0 ≤ fd then closeFile os fd else pure ()

def smiInitUdmabuf (dmaBuffer : ℕ) : Proc σ ℤ := do
  let fdSyncCpu ← openFile os "/sys/class/u-dma-buf/udmabuf0/sync_for_cpu"
  let fdSyncDev ← openFile os "/sys/class/u-dma-buf/udmabuf0/sync_for_device"
  if fdSyncCpu < 0 ∨ fdSyncDev < 0 then
    closeIfOpen os fdSyncCpu
    closeIfOpen os fdSyncDev
    errorMsg "Could not open u-dma-buf sync"
    return smiErrFileIoFail
  dmaBufferInit os
  setCxt fun c => { c with
    fdSyncDev := fdSyncDev, fdSyncCpu := fdSyncCpu, dmaBuffer := dmaBuffer }
  return smiOk

def smiUnmapUdmabuf : Proc σ Unit := fun p => (do
  unmapSegment os p.cxt.dmaBuffer dmaBufferSize
  closeIfOpen os p.cxt.fdSyncCpu
  closeIfOpen os p.cxt.fdSyncDev) p

/-- A resize to 0 words returns before it looks at the buffer. -/
def RawCall.usesBlock : RawCall → Bool
  | resize len => len ≠ 0
  | read .. => true

def useRawBuffer (c : RawCall) : Proc σ Unit := fun p =>
  let p' := if c.usesBlock then p.touch else p
  (some (),{ p' with world := c.run env p.world })

inductive LifeCall
  | initUdmabuf (dmaBuffer : ℕ)
  | use (c : RawCall)
  | unmapUdmabuf
  | unmapCxt

def LifeCall.addrs : LifeCall → List ℕ
  | initUdmabuf dmaBuffer => [dmaBuffer]
  | _ => []

def LifeCall.run (p : Process σ) : LifeCall → Process σ
  | initUdmabuf dmaBuffer => (smiInitUdmabuf os dmaBuffer p).2
  | use c => (useRawBuffer env c p).2
  | unmapUdmabuf => (smiUnmapUdmabuf os p).2
  | unmapCxt => (smiUnmapCxt os p).2

def LifeCall.runAll (calls : List LifeCall) (p : Process σ) : Process σ :=
  calls.foldl (fun p c => c.run env os p) p

end Functions

/-- `R` is kept by what a function does, where addresses in `S` are unmapped and the context is
changed as `T` allows. -/
structure ProcSteps (os : Os σ) (S : ℕ → Prop) (T : (Handles → Handles) → Prop)
    (R : Process σ → Process σ → Prop) : Prop where
  setDev (s : σ) (p : Process σ) : R p (p.setDev s)
  report (msg : String) (p : Process σ) : R p { p with world := p.world.report msg }
  opened (path : String) (fd : ℤ) (p : Process σ) : R p (p.called (.opened path fd))
  close (fd : ℤ) (p : Process σ) : R p (p.called (.close fd))
  mmap {base len : ℕ} {s : σ} (p : Process σ) :
    (os.mmap len s).1 = some base → R p (p.called (.mmap base len))
  munmap (addr len : ℕ) (p : Process σ) : S addr → R p (p.called (.munmap addr len))
  setCxt (f : Handles → Handles) (p : Process σ) : T f → R p { p with cxt := f p.cxt }

/-- `R` is kept by what is done with the raw buffer as well. -/
structure LifeSteps (env : Env σ) (os : Os σ) (S : ℕ → Prop) (T : (Handles → Handles) → Prop)
    (R : Process σ → Process σ → Prop) : Prop extends ProcSteps os S T R where
  init : Keeps R (initRawBuffer env)
  use (c : RawCall) : Keeps R (useRawBuffer env c)
  free : Keeps R freeRawBuffer

section Keeps

variable {env : Env σ} {os : Os σ} {S : ℕ → Prop} {T : (Handles → Handles) → Prop}
  {R : Process σ → Process σ → Prop} [IsPreorder (Process σ) R] (h : ProcSteps os S T R)

include h

omit [IsPreorder (Process σ) R] in
theorem keeps_errorMsg (msg : String) : Keeps R (errorMsg msg : Proc σ Unit) :=
  h.report msg

theorem keeps_openFile (path : String) : Keeps R (openFile os path) :=
  fun p => trans_of R (h.setDev _ p) (h.opened path _ _)

theorem keeps_closeFile (fd : ℤ) : Keeps R (closeFile os fd) :=
  fun p => trans_of R (h.setDev _ p) (h.close fd _)

theorem keeps_mmap (len : ℕ) : Keeps R (mmap os len) := by
  intro p
  unfold mmap
  split
  case h_1 base s hm => exact trans_of R (h.setDev s p) (h.mmap _ (congrArg Prod.fst hm))
  case h_2 s hm => exact h.setDev s p

theorem keeps_unmapSegment {mem : ℕ} (hmem : S mem) (size : ℕ) :
    Keeps R (unmapSegment os mem size) :=
  keeps_ite (fun p => trans_of R (h.setDev _ p) (h.munmap mem _ _ hmem)) (keeps_pure _)

theorem keeps_mapSegment (size : ℕ) : Keeps R (mapSegment os size) := by
  have hexit {α : Type} : Keeps R (exit : Proc σ α) := fun p => refl_of R p
  have hfail {α : Type} (msg : String) : Keeps R (errorMsg msg >>= fun _ => exit : Proc σ α) :=
    keeps_bind (keeps_errorMsg h msg) fun _ => hexit
  have hrest (fd : ℤ) : Keeps R (mmap os (pageRoundup size) >>= fun mem =>
      closeFile os fd >>= fun _ => match mem with
        | some base => pure base
        | none => errorMsg "Could not map memory" >>= fun _ => exit) := by
    refine keeps_bind (keeps_mmap h _) fun mem => ?_
    refine keeps_bind (keeps_closeFile h fd) fun _ => ?_
    cases mem with
    | some base => exact keeps_pure base
    | none => exact hfail _
  refine keeps_bind (keeps_openFile h _) fun fd => keeps_ite ?_ (hrest fd)
  refine keeps_bind (keeps_errorMsg h _) fun _ => ?_
  exact keeps_bind hexit fun _ => hrest fd

theorem keeps_closeIfOpen (fd : ℤ) : Keeps R (closeIfOpen os fd) :=
  keeps_ite (keeps_closeFile h fd) (keeps_pure _)

theorem keeps_mapDmaBuffer (size : ℕ) : Keeps R (mapDmaBuffer os size) := by
  refine keeps_bind (keeps_openFile h _) fun fd => keeps_ite ?_ ?_
  · exact keeps_then_pure (keeps_errorMsg h _) _
  · refine keeps_bind (keeps_mmap h size) ?_
    rintro (_ | buf)
    · refine keeps_bind (keeps_errorMsg h _) fun _ => ?_
      exact keeps_then_pure (keeps_closeFile h fd) _
    · exact keeps_then_pure (keeps_closeFile h fd) _

theorem keeps_dmaBufferInit : Keeps R (dmaBufferInit os) :=
  keeps_bind (keeps_mapDmaBuffer h _) fun _ => keeps_ite (keeps_errorMsg h _) (keeps_pure _)

theorem keeps_smiInitUdmabuf (dmaBuffer : ℕ) (hset : ∀ fd fd', T fun c => { c with
      fdSyncDev := fd, fdSyncCpu := fd', dmaBuffer := dmaBuffer }) :
    Keeps R (smiInitUdmabuf os dmaBuffer) := by
  refine keeps_bind (keeps_openFile h _) fun fd => ?_
  refine keeps_bind (keeps_openFile h _) fun fd' => ?_
  refine keeps_ite ?_ ?_
  · refine keeps_bind (keeps_closeIfOpen h _) fun _ => ?_
    refine keeps_bind (keeps_closeIfOpen h _) fun _ => ?_
    exact keeps_then_pure (keeps_errorMsg h _) _
  · refine keeps_bind (keeps_dmaBufferInit h) fun _ => ?_
    exact keeps_then_pure (fun p => h.setCxt _ p (hset _ _)) _

theorem keeps_smiUnmapUdmabuf {p : Process σ} (hp : ∀ a ∈ p.cxt.addrs, S a) :
    R p (smiUnmapUdmabuf os p).2 := by
  have hunmap : Keeps R (unmapSegment os p.cxt.dmaBuffer dmaBufferSize >>= fun _ =>
      closeIfOpen os p.cxt.fdSyncCpu >>= fun _ => closeIfOpen os p.cxt.fdSyncDev) := by
    refine keeps_bind (keeps_unmapSegment h (hp _ (by simp [Handles.addrs])) _) fun _ => ?_
    exact keeps_bind (keeps_closeIfOpen h _) fun _ => keeps_closeIfOpen h _
  exact hunmap p

theorem keeps_smiInitCxtMap (smiRegs clkRegs gpioRegs dmaRegs : ℕ)
    (hinit : Keeps R (initRawBuffer env)) (hset : T fun c => { c with
      smiRegs := smiRegs, clkRegs := clkRegs, gpioRegs := gpioRegs, dmaRegs := dmaRegs }) :
    Keeps R (smiInitCxtMap env os smiRegs clkRegs gpioRegs dmaRegs) := by
  refine keeps_bind (keeps_mapSegment h _) fun _ => ?_
  refine keeps_bind (keeps_mapSegment h _) fun _ => ?_
  refine keeps_bind (keeps_mapSegment h _) fun _ => ?_
  refine keeps_bind (keeps_mapSegment h _) fun _ => ?_
  refine keeps_bind hinit fun r => keeps_ite ?_ (keeps_pure r)
  exact keeps_then_pure (fun p => h.setCxt _ p hset) _

theorem keeps_smiUnmapCxt (hfree : Keeps R freeRawBuffer) {p : Process σ}
    (hp : ∀ a ∈ p.cxt.addrs, S a) : R p (smiUnmapCxt os p).2 := by
  have hunmap : Keeps R (unmapSegment os p.cxt.gpioRegs pageSize >>= fun _ =>
      unmapSegment os p.cxt.dmaRegs (nadjChannels*pageSize) >>= fun _ =>
      unmapSegment os p.cxt.smiRegs pageSize >>= fun _ =>
      unmapSegment os p.cxt.clkRegs pageSize >>= fun _ => freeRawBuffer) := by
    refine keeps_bind (keeps_unmapSegment h (hp _ (by simp [Handles.addrs])) _) fun _ => ?_
    refine keeps_bind (keeps_unmapSegment h (hp _ (by simp [Handles.addrs])) _) fun _ => ?_
    refine keeps_bind (keeps_unmapSegment h (hp _ (by simp [Handles.addrs])) _) fun _ => ?_
    exact keeps_bind (keeps_unmapSegment h (hp _ (by simp [Handles.addrs])) _) fun _ => hfree
  exact hunmap p

omit h in
theorem keeps_lifeCall (h : LifeSteps env os S T R) {c : LifeCall}
    (hset : ∀ a ∈ c.addrs, ∀ fd fd',
      T fun x => { x with fdSyncDev := fd, fdSyncCpu := fd', dmaBuffer := a }) {p : Process σ}
    (hp : ∀ a ∈ p.cxt.addrs, S a) : R p (c.run env os p) := by
  cases c with
  | initUdmabuf dmaBuffer =>
    exact keeps_smiInitUdmabuf h.toProcSteps dmaBuffer (hset dmaBuffer (by simp [LifeCall.addrs])) p
  | use c => exact h.use c p
  | unmapUdmabuf => exact keeps_smiUnmapUdmabuf h.toProcSteps hp
  | unmapCxt => exact keeps_smiUnmapCxt h.toProcSteps h.free hp

end Keeps

/-- Mappings lie at none of the addresses `known`, and nothing but these is unmapped or kept. -/
structure Apart (known : List ℕ) (p : Process σ) : Prop where
  mapped : ∀ base len, .mmap base len ∈ p.calls → base ∉ known
  unmapped : ∀ addr len, .munmap addr len ∈ p.calls → addr ∈ known
  kept : ∀ a ∈ p.cxt.addrs, a ∈ known

def KeepsApart (known : List ℕ) (p p' : Process σ) : Prop := Apart known p → Apart known p'

instance (known : List ℕ) : IsPreorder (Process σ) (KeepsApart known) where
  refl _ h := h
  trans _ _ _ h h' hp := h' (h hp)

/-- `mmap` gives memory that the process does not have yet, so none at an address it knows. -/
def MapsApart (os : Os σ) (known : List ℕ) : Prop :=
  ∀ len s base, (os.mmap len s).1 = some base → base ∉ known

theorem Apart.called {known : List ℕ} {p : Process σ} (hp : Apart known p) {c : SysCall}
    (hmap : ∀ base len, c = .mmap base len → base ∉ known)
    (hunmap : ∀ addr len, c = .munmap addr len → addr ∈ known) : Apart known (p.called c) := by
  refine ⟨fun base len h => ?_,fun addr len h => ?_,hp.kept⟩
  · rcases List.mem_append.mp h with h | h
    · exact hp.mapped base len h
    · exact hmap base len (List.mem_singleton.mp h).symm
  · rcases List.mem_append.mp h with h | h
    · exact hp.unmapped addr len h
    · exact hunmap addr len (List.mem_singleton.mp h).symm

theorem Apart.of_eq {known : List ℕ} {p p' : Process σ} (hp : Apart known p)
    (hc : p'.calls = p.calls) (hx : p'.cxt = p.cxt) : Apart known p' :=
  ⟨hc ▸ hp.mapped,hc ▸ hp.unmapped,hx ▸ hp.kept⟩

theorem useRawBuffer_frame (env : Env σ) (c : RawCall) (p : Process σ) :
    (useRawBuffer env c p).2.calls = p.calls ∧ (useRawBuffer env c p).2.cxt = p.cxt := by
  unfold useRawBuffer
  split <;> exact ⟨rfl,rfl⟩

theorem keepsApart_steps (env : Env σ) {os : Os σ} {known : List ℕ}
    (hfresh : MapsApart os known) :
    LifeSteps env os (· ∈ known)
      (fun f => ∀ c : Handles, (∀ a ∈ c.addrs, a ∈ known) → ∀ a ∈ (f c).addrs, a ∈ known)
      (KeepsApart known) where
  setDev _ _ := fun hp => hp.of_eq rfl rfl
  report _ _ := fun hp => hp.of_eq rfl rfl
  init _ := fun hp => hp.of_eq rfl rfl
  use c p := fun hp => hp.of_eq (useRawBuffer_frame env c p).1 (useRawBuffer_frame env c p).2
  free _ := fun hp => hp.of_eq rfl rfl
  opened _ _ _ := fun hp => hp.called (by simp) (by simp)
  close _ _ := fun hp => hp.called (by simp) (by simp)
  mmap _ hm := fun hp => hp.called (by
    rintro _ _ ⟨⟩
    exact hfresh _ _ _ hm) (by simp)
  munmap _ _ _ ha := fun hp => hp.called (by simp) (by
    rintro _ _ ⟨⟩
    exact ha)
  setCxt _ _ hf := fun hp => ⟨hp.mapped,hp.unmapped,hf _ hp.kept⟩

def CallsGrow (p p' : Process σ) : Prop := p.calls <+: p'.calls

instance : IsPreorder (Process σ) CallsGrow where
  refl _ := List.prefix_refl _
  trans _ _ _ h h' := h.trans h'

theorem callsGrow_steps (env : Env σ) (os : Os σ) :
    LifeSteps env os (fun _ => True) (fun _ => True) CallsGrow where
  setDev _ _ := List.prefix_refl _
  report _ _ := List.prefix_refl _
  init _ := List.prefix_refl _
  use c p := ⟨[],(List.append_nil _).trans (useRawBuffer_frame env c p).1.symm⟩
  free _ := List.prefix_refl _
  opened _ _ _ := List.prefix_append _ _
  close _ _ := List.prefix_append _ _
  mmap _ _ := List.prefix_append _ _
  munmap _ _ _ _ := List.prefix_append _ _
  setCxt _ _ _ := List.prefix_refl _

/-- Every mapping is unmapped at its own base with a length covering its pages, nothing else is
unmapped, each block is freed once, and none is used after that. -/
structure Balanced (p : Process σ) : Prop where
  unmapped : ∀ base len, .mmap base len ∈ p.calls →
    ∃ n, .munmap base n ∈ p.calls ∧ pageRoundup len ≤ n
  nothingElse : ∀ addr n, .munmap addr n ∈ p.calls →
    ∃ len, .mmap addr len ∈ p.calls ∧ n ≤ pageRoundup len
  freedOnce : ∀ b < p.world.heap.blocks.length, p.world.heap.freed.count b = 1
  notStale : p.stale = []

theorem Apart.not_balanced {known : List ℕ} {p : Process σ} (hp : Apart known p) {base len : ℕ}
    (hm : .mmap base len ∈ p.calls) : ¬ Balanced p := by
  intro h
  obtain ⟨n,hn,-⟩ := h.unmapped base len hm
  exact hp.mapped base len hm (hp.unmapped base n hn)

section Runs

variable {env : Env σ} {os : Os σ}

theorem mmap_mapped (len : ℕ) (p : Process σ) :
    Post (mmap os len) p (fun mem p' => ∀ base, mem = some base → .mmap base len ∈ p'.calls)
      fun _ => True := by
  rcases hm : os.mmap len p.world.dev.1 with ⟨_ | base,s⟩
  · have hrun : mmap os len p = (some none,p.setDev s) := by simp only [mmap,hm]
    exact post_of_run hrun (by simp)
  · have hrun : mmap os len p = (some (some base),(p.setDev s).called (.mmap base len)) := by
      simp only [mmap,hm]
    refine post_of_run hrun ?_
    rintro _ ⟨⟩
    simp [Process.called]

theorem mapSegment_mapped (size : ℕ) (p : Process σ) :
    Post (mapSegment os size) p (fun base p' => .mmap base (pageRoundup size) ∈ p'.calls)
      fun _ => True := by
  refine post_step rfl ?_
  refine post_ite (fun _ => trivial) fun _ => post_bind ?_
  refine (mmap_mapped (pageRoundup size) _).mono (fun mem p' hm => ?_) fun _ _ => trivial
  refine post_step rfl ?_
  cases mem with
  | some base =>
    refine post_of_run rfl (List.mem_append_left _ ?_)
    exact hm base rfl
  | none => trivial

theorem smiInitCxtMap_mapped (smiRegs clkRegs gpioRegs dmaRegs : ℕ) (p : Process σ) :
    Post (smiInitCxtMap env os smiRegs clkRegs gpioRegs dmaRegs) p
      (fun _ p' => ∃ base, .mmap base (pageRoundup pageSize) ∈ p'.calls) fun _ => True := by
  have hskip (size : ℕ) {α : Type} (f : ℕ → Proc σ α) {Q : α → Process σ → Prop}
      (hf : ∀ base p, Post (f base) p Q fun _ => True) (p : Process σ) :
      Post (mapSegment os size >>= f) p Q fun _ => True :=
    post_bind ((mapSegment_mapped size p).mono (fun base p' _ => hf base p') fun _ h => h)
  refine hskip _ _ (fun _ p => ?_) p
  refine hskip _ _ (fun _ p => ?_) p
  refine hskip _ _ (fun _ p => ?_) p
  refine post_bind ((mapSegment_mapped pageSize p).mono (fun base p' hm => ?_) fun _ h => h)
  rcases hi : smiInitRawBuffer env p'.world with ⟨_ | r,w⟩
  · exact post_bind (by simp [Post,initRawBuffer,hi])
  · have hrun : initRawBuffer env p' = (some r,{ p' with world := w }) := by
      simp [initRawBuffer,hi]
    refine post_step hrun ?_
    exact post_ite (fun _ => ⟨base,hm⟩) fun _ => ⟨base,hm⟩

theorem apart_runAll {known : List ℕ} (hfresh : MapsApart os known) {calls : List LifeCall}
    (hknown : ∀ c ∈ calls, ∀ a ∈ c.addrs, a ∈ known) {p : Process σ} (hp : Apart known p) :
    Apart known (LifeCall.runAll env os calls p) := by
  induction calls generalizing p with
  | nil => exact hp
  | cons c calls ih =>
    have hc := hknown c (List.mem_cons_self ..)
    have hstep : KeepsApart known p (c.run env os p) :=
      keeps_lifeCall (keepsApart_steps env hfresh) (fun a ha fd fd' x hx b hb => by
        simp only [Handles.addrs,List.mem_cons,List.not_mem_nil,or_false] at hb
        rcases hb with hb | hb | hb | hb | rfl
        · exact hx b (by simp [Handles.addrs,hb])
        · exact hx b (by simp [Handles.addrs,hb])
        · exact hx b (by simp [Handles.addrs,hb])
        · exact hx b (by simp [Handles.addrs,hb])
        · exact hc b ha) hp.kept
    exact ih (fun c' hc' => hknown c' (List.mem_cons_of_mem c hc')) (hstep hp)

theorem callsGrow_runAll (calls : List LifeCall) (p : Process σ) :
    CallsGrow p (LifeCall.runAll env os calls p) := by
  induction calls generalizing p with
  | nil => exact List.prefix_refl _
  | cons c calls ih =>
    exact List.IsPrefix.trans (keeps_lifeCall (callsGrow_steps env os) (fun _ _ _ _ => trivial)
      fun _ _ => trivial) (ih _)

/-- The addresses that a run gives the driver. -/
def knownAddrs (cxt : Handles) (smiRegs clkRegs gpioRegs dmaRegs : ℕ) (calls : List LifeCall) :
    List ℕ :=
  cxt.addrs ++ [smiRegs,clkRegs,gpioRegs,dmaRegs] ++ calls.flatMap LifeCall.addrs

def ascendingOs : Os (List Word × ℕ) where
  openFile _ s := (3,s)
  close _ s := s
  mmap _ s := (some (0x76000000+s.2*0x100000),s.1,s.2+1)
  munmap _ _ s := s

/-- The teardown unmaps the structs and not what they describe: however a context is set up, used
and torn down, a mapping stays. -/
theorem lifecycle_never_balanced (env : Env σ) {os : Os σ} (s : σ) (cxt : Handles)
    {smiRegs clkRegs gpioRegs dmaRegs : ℕ} {calls : List LifeCall}
    (hfresh : MapsApart os (knownAddrs cxt smiRegs clkRegs gpioRegs dmaRegs calls))
    {r : ℤ} {p : Process σ}
    (hinit : smiInitCxtMap env os smiRegs clkRegs gpioRegs dmaRegs (Process.start s cxt) =
      (some r,p)) :
    ¬ Balanced (LifeCall.runAll env os calls p) := by
  have hstart : Apart (knownAddrs cxt smiRegs clkRegs gpioRegs dmaRegs calls)
      (Process.start s cxt) := by
    refine ⟨by simp [Process.start],by simp [Process.start],fun a ha => ?_⟩
    exact List.mem_append_left _ (List.mem_append_left _ ha)
  have hset (x : Handles) (hx : ∀ a ∈ x.addrs,
      a ∈ knownAddrs cxt smiRegs clkRegs gpioRegs dmaRegs calls) :
      ∀ a ∈ [smiRegs,clkRegs,gpioRegs,dmaRegs,x.dmaBuffer],
        a ∈ knownAddrs cxt smiRegs clkRegs gpioRegs dmaRegs calls := by
    have hbuffer := hx x.dmaBuffer (by simp [Handles.addrs])
    simp only [List.mem_cons,List.not_mem_nil,or_false]
    rintro a (rfl | rfl | rfl | rfl | rfl)
    all_goals first | exact hbuffer | simp [knownAddrs]
  have hp : Apart (knownAddrs cxt smiRegs clkRegs gpioRegs dmaRegs calls) p := by
    have hsteps := keepsApart_steps env hfresh
    have hk := keeps_smiInitCxtMap hsteps.toProcSteps smiRegs clkRegs gpioRegs dmaRegs hsteps.init
      hset (Process.start s cxt)
    rw [hinit] at hk
    exact hk hstart
  obtain ⟨base,hm⟩ := ((smiInitCxtMap_mapped smiRegs clkRegs gpioRegs dmaRegs _).elim hinit).1 r rfl
  have hall : Apart (knownAddrs cxt smiRegs clkRegs gpioRegs dmaRegs calls)
      (LifeCall.runAll env os calls p) :=
    apart_runAll hfresh (fun c hc a ha =>
      List.mem_append_right _ (List.mem_flatMap.mpr ⟨c,hc,ha⟩)) hp
  exact hall.not_balanced ((callsGrow_runAll calls p).subset hm)

theorem lifecycle_never_balanced_ascending : ∃ p,
    smiInitCxtMap fifoEnv ascendingOs 0x20000 0x20030 0x20060 0x20090
      (Process.start ([],0) ⟨0,0,0,0,0,0,0⟩) = (some smiOk,p) ∧
    ¬ Balanced (LifeCall.runAll fifoEnv ascendingOs
      [.initUdmabuf 0x200c0,.use (.resize 7),.unmapUdmabuf,.unmapCxt] p) := by
  refine ⟨_,rfl,lifecycle_never_balanced fifoEnv ([],0) ⟨0,0,0,0,0,0,0⟩
    (fun len s base hm => ?_) rfl⟩
  have hbase : base = 0x76000000+s.2*0x100000 := by simpa [ascendingOs] using hm.symm
  simp [knownAddrs,Handles.addrs,LifeCall.addrs]
  omega

/-- The first mapping lies at 0x76000000, and the four structs are unmapped. -/
theorem lifecycle_not_balanced : ¬ ∀ p,
    smiInitCxtMap fifoEnv ascendingOs 0x20000 0x20030 0x20060 0x20090
      (Process.start ([],0) ⟨0,0,0,0,0,0,0⟩) = (some smiOk,p) →
    Balanced (LifeCall.runAll fifoEnv ascendingOs [.unmapCxt] p) := by
  intro h
  have hbalanced := h (smiInitCxtMap fifoEnv ascendingOs 0x20000 0x20030 0x20060 0x20090
    (Process.start ([],0) ⟨0,0,0,0,0,0,0⟩)).2 rfl
  have hcalls : (LifeCall.runAll fifoEnv ascendingOs [.unmapCxt]
      (smiInitCxtMap fifoEnv ascendingOs 0x20000 0x20030 0x20060 0x20090
        (Process.start ([],0) ⟨0,0,0,0,0,0,0⟩)).2).calls.filterMap SysCall.munmap? =
      [(0x20060,4096),(0x20090,57344),(0x20000,4096),(0x20030,4096)] := by decide
  obtain ⟨n,hn,-⟩ := hbalanced.unmapped 0x76000000 4096 (by decide)
  have hmem := List.mem_filterMap.mpr ⟨_,hn,show SysCall.munmap? _ = some (0x76000000,n) from rfl⟩
  rw [hcalls] at hmem
  simp at hmem

end Runs

namespace Heap

structure Owned (h : Heap) (b k : ℕ) : Prop where
  buf : h.buf = some b
  count : ∀ c < h.blocks.length, h.freed.count c = if c = b then k else 1

variable {h : Heap} {b k : ℕ}

theorem malloc_owned (bytes : ℕ) : (Heap.none.malloc bytes).Owned 0 0 := by
  refine ⟨rfl,fun c hc => ?_⟩
  have hc0 : c = 0 := by simpa [malloc,realloc,Heap.none] using hc
  simp [malloc,realloc,Heap.none,hc0]

theorem Owned.realloc (ho : h.Owned b 0) (bytes : ℕ) :
    (h.realloc bytes).Owned h.blocks.length 0 := by
  refine ⟨rfl,fun c hc => ?_⟩
  have hb := h.buf_lt b ho.buf
  simp only [Heap.realloc,ho.buf,Option.toList_some,List.count_append,List.length_append,
    List.length_singleton] at hc ⊢
  by_cases hnew : c = h.blocks.length
  · have hnot : h.freed.count c = 0 := List.count_eq_zero.mpr fun hm => by
      have := h.freed_lt c hm
      omega
    rw [hnot,if_pos hnew,List.count_singleton]
    simp
    omega
  · rw [if_neg hnew,ho.count c (by omega),List.count_singleton]
    by_cases hc : c = b
    · simp [hc]
    · simp [hc,Ne.symm hc]

theorem Owned.free (ho : h.Owned b k) : h.free.Owned b (k+1) := by
  refine ⟨ho.buf,fun c hc => ?_⟩
  simp only [Heap.free,ho.buf,Option.toList_some,List.count_append,List.count_singleton]
  rw [ho.count c hc]
  by_cases hc : c = b
  · simp [hc]
  · simp [hc,Ne.symm hc]

end Heap

def SameHeap (p p' : Process σ) : Prop :=
  p'.world.heap = p.world.heap ∧ p'.world.rawBuffer.size = p.world.rawBuffer.size ∧
    p'.stale = p.stale

instance : IsPreorder (Process σ) SameHeap where
  refl _ := ⟨rfl,rfl,rfl⟩
  trans _ _ _ h h' := ⟨h'.1.trans h.1,h'.2.1.trans h.2.1,h'.2.2.trans h.2.2⟩

theorem sameHeap_steps (os : Os σ) :
    ProcSteps os (fun _ => True) (fun _ => True) SameHeap where
  setDev _ _ := ⟨rfl,rfl,rfl⟩
  report _ _ := ⟨rfl,rfl,rfl⟩
  opened _ _ _ := ⟨rfl,rfl,rfl⟩
  close _ _ := ⟨rfl,rfl,rfl⟩
  mmap _ _ := ⟨rfl,rfl,rfl⟩
  munmap _ _ _ _ := ⟨rfl,rfl,rfl⟩
  setCxt _ _ _ := ⟨rfl,rfl,rfl⟩

section Frees

variable {env : Env σ} {os : Os σ}

theorem unmapSegment_run (os : Os σ) (mem size : ℕ) (p : Process σ) :
    ∃ p', unmapSegment os mem size p = (some (),p') ∧ SameHeap p p' := by
  unfold unmapSegment
  split
  · exact ⟨_,rfl,rfl,rfl,rfl⟩
  · exact ⟨p,rfl,refl_of SameHeap p⟩

theorem smiUnmapCxt_heap (os : Os σ) (p : Process σ) :
    (smiUnmapCxt os p).2.world.heap = p.world.heap.free ∧
      (smiUnmapCxt os p).2.stale = p.stale ++
        p.world.heap.buf.toList.filter (· ∈ p.world.heap.freed) := by
  obtain ⟨p₁,h₁,hs₁⟩ := unmapSegment_run os p.cxt.gpioRegs pageSize p
  obtain ⟨p₂,h₂,hs₂⟩ := unmapSegment_run os p.cxt.dmaRegs (nadjChannels*pageSize) p₁
  obtain ⟨p₃,h₃,hs₃⟩ := unmapSegment_run os p.cxt.smiRegs pageSize p₂
  obtain ⟨p₄,h₄,hs₄⟩ := unmapSegment_run os p.cxt.clkRegs pageSize p₃
  have hsame : SameHeap p p₄ :=
    trans_of SameHeap hs₁ (trans_of SameHeap hs₂ (trans_of SameHeap hs₃ hs₄))
  have hrun : smiUnmapCxt os p = freeRawBuffer p₄ := by
    rw [smiUnmapCxt,bind_run h₁,bind_run h₂,bind_run h₃,bind_run h₄]
  rw [hrun]
  constructor
  · show p₄.world.heap.free = _
    rw [hsame.1]
  · show p₄.stale ++ p₄.world.heap.buf.toList.filter (· ∈ p₄.world.heap.freed) = _
    rw [hsame.1,hsame.2.2]

/-- Before the teardown: the block is live and its size known, and nothing stale was used. -/
structure InUse (p : Process σ) : Prop where
  owned : ∃ b, p.world.heap.Owned b 0
  sound : BufferSound p.world
  notStale : p.stale = []

theorem InUse.of_same {p p' : Process σ} (h : InUse p) (hs : SameHeap p p') : InUse p' := by
  refine ⟨hs.1 ▸ h.owned,?_,hs.2.2.trans h.notStale⟩
  unfold BufferSound
  rw [hs.1,hs.2.1]
  exact h.sound

/-- The calls between the initialisation and the teardown; those on the buffer fit. -/
def LifeCall.Working : LifeCall → Prop
  | initUdmabuf _ => True
  | use c => c.Fits
  | _ => False

theorem inUse_run {c : LifeCall} (hc : c.Working) {p : Process σ} (h : InUse p) :
    InUse (c.run env os p) := by
  cases c with
  | initUdmabuf dmaBuffer =>
    exact h.of_same (keeps_smiInitUdmabuf (sameHeap_steps os) dmaBuffer (fun _ _ => trivial) p)
  | use c =>
    obtain ⟨b,ho⟩ := h.owned
    have hlive : b ∉ p.world.heap.freed := by
      have hcount := ho.count b (p.world.heap.buf_lt b ho.buf)
      rw [if_pos rfl] at hcount
      exact List.count_eq_zero.mp hcount
    have hrun : (LifeCall.use c).run env os p = { p with world := c.run env p.world } := by
      simp [LifeCall.run,useRawBuffer,Process.touch,ho.buf,hlive]
    rw [hrun]
    refine ⟨?_,(RawCall.safe hc h.sound).sound,h.notStale⟩
    rcases RawCall.heapStep env hc h.sound with hs | ⟨n,hs⟩
    · exact ⟨b,hs ▸ ho⟩
    · exact ⟨_,hs ▸ ho.realloc n⟩
  | unmapUdmabuf => exact hc.elim
  | unmapCxt => exact hc.elim

theorem inUse_runAll {calls : List LifeCall} (hc : ∀ c ∈ calls, c.Working) {p : Process σ}
    (h : InUse p) : InUse (LifeCall.runAll env os calls p) := by
  induction calls generalizing p with
  | nil => exact h
  | cons c calls ih =>
    exact ih (fun c' hc' => hc c' (List.mem_cons_of_mem c hc'))
      (inUse_run (hc c (List.mem_cons_self ..)) h)

/-- After `k` teardowns the block was freed `k` times, all but the first of them stale. -/
def Freed (b k : ℕ) (p : Process σ) : Prop :=
  p.world.heap.Owned b k ∧ p.stale.length = k-1

def LifeCall.isUnmapCxt : LifeCall → Bool
  | unmapCxt => true
  | _ => false

def LifeCall.isTeardown : LifeCall → Bool
  | unmapCxt => true
  | unmapUdmabuf => true
  | _ => false

theorem freed_runAll {calls : List LifeCall} (hc : ∀ c ∈ calls, c.isTeardown = true) {b k : ℕ}
    {p : Process σ} (h : Freed b k p) :
    Freed b (k+calls.countP LifeCall.isUnmapCxt) (LifeCall.runAll env os calls p) := by
  induction calls generalizing p k with
  | nil => exact h
  | cons c calls ih =>
    have hrest {k' : ℕ} {p' : Process σ} (h' : Freed b k' p') :=
      ih (fun c' hc' => hc c' (List.mem_cons_of_mem c hc')) h'
    have hfirst := hc c (List.mem_cons_self ..)
    cases c with
    | initUdmabuf dmaBuffer => cases hfirst
    | use c => cases hfirst
    | unmapUdmabuf =>
      have hsame := keeps_smiUnmapUdmabuf (sameHeap_steps os) (p := p) fun _ _ => trivial
      refine hrest ⟨?_,?_⟩
      · exact hsame.1.symm ▸ h.1
      · exact (congrArg List.length hsame.2.2).trans h.2
    | unmapCxt =>
      obtain ⟨hheap,hstale⟩ := smiUnmapCxt_heap os p
      have hnext : Freed b (k+1) (smiUnmapCxt os p).2 := by
        refine ⟨hheap.symm ▸ h.1.free,?_⟩
        have hcount := h.1.count b (p.world.heap.buf_lt b h.1.buf)
        rw [if_pos rfl] at hcount
        rw [hstale,List.length_append,h.2,h.1.buf]
        by_cases hb : b ∈ p.world.heap.freed
        · have hpos := List.count_pos_iff.mpr hb
          simp [hb]
          omega
        · have hzero := List.count_eq_zero.mpr hb
          simp [hb]
          omega
      have hcalls : k+(LifeCall.unmapCxt::calls).countP LifeCall.isUnmapCxt =
          k+1+calls.countP LifeCall.isUnmapCxt := by
        rw [List.countP_cons_of_pos rfl]
        omega
      exact hcalls ▸ hrest hnext

theorem smiInitRawBuffer_heap {w₀ w : World (σ × Heap)}
    (h : smiInitRawBuffer env w₀ = (some smiOk,w)) : w.heap = w₀.heap.malloc (1024*4) := by
  unfold smiInitRawBuffer at h
  split at h
  · cases h
    rfl
  · simp [smiErrAllocFail,smiOk] at h

theorem smiInitCxtMap_inUse {s : σ} {cxt : Handles} {smiRegs clkRegs gpioRegs dmaRegs : ℕ}
    {p : Process σ} (h : smiInitCxtMap env os smiRegs clkRegs gpioRegs dmaRegs
      (Process.start s cxt) = (some smiOk,p)) : InUse p := by
  have hmap {q : Process σ} (hq : SameHeap (Process.start s cxt) q) (size : ℕ) {α : Type}
      {f : ℕ → Proc σ α} {Q : α → Process σ → Prop}
      (hf : ∀ base q', SameHeap (Process.start s cxt) q' → Post (f base) q' Q fun _ => True) :
      Post (mapSegment os size >>= f) q Q fun _ => True :=
    post_bind (((keeps_mapSegment (sameHeap_steps os) size).post q).mono
      (fun base q' h' => hf base q' (trans_of SameHeap hq h')) fun _ _ => trivial)
  have hpost : Post (smiInitCxtMap env os smiRegs clkRegs gpioRegs dmaRegs) (Process.start s cxt)
      (fun r p' => r = smiOk → InUse p') fun _ => True := by
    refine hmap (refl_of SameHeap _) _ fun _ q hq => hmap hq _ fun _ q hq => ?_
    refine hmap hq _ fun _ q hq => hmap hq _ fun _ q hq => ?_
    rcases hi : smiInitRawBuffer env q.world with ⟨_ | r,w⟩
    · exact post_bind (by simp [Post,initRawBuffer,hi])
    · have hrun : initRawBuffer env q = (some r,{ q with world := w }) := by
        simp [initRawBuffer,hi]
      have huse : r = smiOk → InUse { q with world := w } := by
        rintro rfl
        have hheap : w.heap = Heap.none.malloc (1024*4) := by
          rw [smiInitRawBuffer_heap hi,hq.1]
          rfl
        exact ⟨⟨0,hheap ▸ Heap.malloc_owned _⟩,smiInitRawBuffer_sound hi,hq.2.2⟩
      refine post_step hrun ?_
      refine post_ite (fun hr => ?_) fun hr h => (hr h).elim
      exact fun _ => ⟨(huse hr).owned,(huse hr).sound,(huse hr).notStale⟩
  exact (hpost.elim h).1 _ rfl rfl

/-- The block is freed exactly once, and not used after that, if and only if exactly one of the
teardown calls is `smi_unmap_cxt`. -/
theorem freed_once_iff {s : σ} {cxt : Handles} {smiRegs clkRegs gpioRegs dmaRegs : ℕ}
    {p : Process σ} (h : smiInitCxtMap env os smiRegs clkRegs gpioRegs dmaRegs
      (Process.start s cxt) = (some smiOk,p)) {working teardown : List LifeCall}
    (hw : ∀ c ∈ working, c.Working) (ht : ∀ c ∈ teardown, c.isTeardown = true) {q : Process σ}
    (hq : q = LifeCall.runAll env os (working ++ teardown) p) :
    ((∀ b < q.world.heap.blocks.length, q.world.heap.freed.count b = 1) ∧ q.stale = []) ↔
      teardown.countP LifeCall.isUnmapCxt = 1 := by
  have huse : InUse (LifeCall.runAll env os working p) := inUse_runAll hw (smiInitCxtMap_inUse h)
  obtain ⟨b,ho⟩ := huse.owned
  rw [LifeCall.runAll,List.foldl_append] at hq
  change q = LifeCall.runAll env os teardown (LifeCall.runAll env os working p) at hq
  have hfreed : Freed b (0+teardown.countP LifeCall.isUnmapCxt) q := by
    rw [hq]
    exact freed_runAll ht ⟨ho,by rw [huse.notStale]; rfl⟩
  rw [Nat.zero_add] at hfreed
  constructor
  · rintro ⟨hall,-⟩
    have hb := q.world.heap.buf_lt b hfreed.1.buf
    have hcount := hfreed.1.count b hb
    rw [if_pos rfl,hall b hb] at hcount
    exact hcount.symm
  · intro hk
    rw [hk] at hfreed
    refine ⟨fun c hc => ?_,List.length_eq_zero_iff.mp hfreed.2⟩
    rw [hfreed.1.count c hc]
    split <;> rfl

end Frees

end RpiSmi
