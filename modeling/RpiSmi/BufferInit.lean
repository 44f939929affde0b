import RpiSmi.Lifecycle

/-!
# The DMA buffer set up

`dma_buffer_init` in full: the mapping, the two sysfs files that tell its size
and address, and the check and clearing of its memory, which is free to answer as
it likes. `smi_init_udmabuf` drops what it returns.
-/

namespace RpiSmi
namespace Udmabuf

open Exec

variable {σ α : Type}

structure BufferMap where
  size : BitVec 64
  bus : BitVec 64
  virt : ℕ
  phys : BitVec 64

/-- What came of reading a sysfs file: it was not opened, no number was found, or the number. -/
inductive Scanned
  | unopened
  | blank
  | found (v : BitVec 64)
  deriving DecidableEq, Repr

/-- The system with its sysfs files and the memory of the buffer. -/
structure BufferOs (σ : Type) extends Os σ where
  /-- `fscanf` with `%zu` and with `%p`. -/
  scanSize : σ → Option (BitVec 64) × σ
  scanAddr : σ → Option (BitVec 64) × σ
  /-- What a local pointer holds that was never set. -/
  stray : σ → BitVec 64
  poke : ℕ → BitVec 8 → σ → σ
  peek : ℕ → σ → BitVec 8 × σ

/-- What the steps of `dma_buffer_init` came to. -/
inductive InitStep
  | mapped (mem : Option ℕ)
  | sized (size : Scanned)
  | located (phys : Scanned)
  | checked (errors : ℕ)
  deriving DecidableEq, Repr

/-- A process, the `MEM_MAP` that it passes, and the steps made so far. -/
structure Init (σ : Type) where
  process : Process σ
  buffer : BufferMap
  steps : List InitStep

abbrev InitProg (σ α : Type) := Prog (Init σ) α

def Init.fresh (u : Init σ) : Init σ := { u with process.calls := [], steps := [] }

def Init.sys (u : Init σ) : σ := u.process.world.dev.1

section Primitives

def proc (x : Proc σ α) : InitProg σ α := fun u =>
  ((x u.process).1,{ u with process := (x u.process).2 })

def onSys (f : σ → α × σ) : InitProg σ α :=
  proc fun p => (some (f p.world.dev.1).1,p.setDev (f p.world.dev.1).2)

def setBuffer (f : BufferMap → BufferMap) : InitProg σ Unit := fun u =>
  (some (),{ u with buffer := f u.buffer })

def record (e : InitStep) : InitProg σ Unit := fun u => (some (),{ u with steps := u.steps ++ [e] })

end Primitives

namespace BufferOs

variable (os : BufferOs σ)

def fill (buf m : ℕ) (s : σ) : σ :=
  (List.range m).foldl (fun s k => os.poke (buf+k) (BitVec.ofNat 8 k) s) s

/-- The bytes of a chunk that do not read back. -/
def mismatches (buf m : ℕ) (s : σ) : ℕ × σ :=
  (List.range m).foldl (fun (n,s) k =>
    let (v,s') := os.peek (buf+k) s
    (if v ≠ BitVec.ofNat 8 k then n+1 else n,s')) (0,s)

/-- A pass of `check_buf` from byte `i` on, in chunks of at most 256. -/
def checkFrom (buf size i : ℕ) (s : σ) : ℕ × σ :=
  if i < size then
    let m := if i+256 < size then 256 else size-i
    let (n,s') := os.mismatches (buf+i) m (os.fill (buf+i) m s)
    let (n',s'') := checkFrom buf size (i+m) s'
    (n+n',s'')
  else (0,s)
termination_by size-i
decreasing_by split <;> omega

def checkBuf (buf size : ℕ) (s : σ) : ℕ × σ :=
  (List.range 9).foldl (fun (n,s) _ =>
    let (n',s') := os.checkFrom buf size 0 s
    (n+n',s')) (0,s)

/-- The buffer is set to zero 99 times; nothing is read back, so no error is counted. -/
def clearBuf (buf size : ℕ) (s : σ) : ℕ × σ :=
  (0,(List.range 99).foldl (fun s _ =>
    (List.range size).foldl (fun s k => os.poke (buf+k) 0 s) s) s)

end BufferOs

section Functions

variable (os : BufferOs σ)

def readSysfile (file : String) (scan : σ → Option (BitVec 64) × σ) : InitProg σ Scanned := do
  let fd ← proc (openFile os.toOs file)
  if fd < 0 then
    proc (errorMsg "File size couldn't be read")
    return .unopened
  let v ← onSys scan
  proc (closeFile os.toOs fd)
  return match v with
    | none => .blank
    | some v => .found v

def readSysfileSize (file : String) : InitProg σ (BitVec 64) := do
  let x ← readSysfile os file os.scanSize
  record (.sized x)
  return match x with
    | .unopened => -1
    | .blank => 0
    | .found v => v

def readSysfilePhysAddr (file : String) : InitProg σ (BitVec 64) := fun u => (do
  let x ← readSysfile os file os.scanAddr
  record (.located x)
  return match x with
    | .unopened => 0
    | .blank => os.stray u.sys
    | .found v => v) u

def checkBuf (buf size : ℕ) : InitProg σ ℕ := do
  let errors ← onSys (os.checkBuf buf size)
  record (.checked errors)
  return errors

def dmaBufferInit (check clear : Bool) : InitProg σ (BitVec 64) := do
  let mem ← proc (mapDmaBuffer os.toOs dmaBufferSize)
  record (.mapped mem)
  setBuffer fun b => { b with virt := mem.getD 0 }
  -- `buff->virt == NULL`: a mapping without a wanted address is never at 0
  match mem with
  | none => do
    proc (errorMsg "Error mapping segment\n")
    return -1
  | some virt => do
    let size ← readSysfileSize os "/sys/class/u-dma-buf/udmabuf0/size"
    setBuffer fun b => { b with size := size }
    let phys ← readSysfilePhysAddr os "/sys/class/u-dma-buf/udmabuf0/phys_addr"
    setBuffer fun b => { b with phys := phys, bus := phys+0xC0000000 }
    let errors ← if check then checkBuf os virt dmaBufferSize else pure 0
    if 0 < errors then
      proc (errorMsg ("ERROR: Buffer initialisation check failed; Count = " ++
        toString errors ++ "\n"))
      return -1
    let errors ← if clear then onSys (os.clearBuf virt dmaBufferSize) else pure 0
    if 0 < errors then
      proc (errorMsg ("ERROR: Buffer initialisation clear failed; Count = " ++
        toString errors ++ "\n"))
      return -1
    return size

def smiInitUdmabuf (dmaBuffer : ℕ) : InitProg σ ℤ := do
  let fdSyncCpu ← proc (openFile os.toOs "/sys/class/u-dma-buf/udmabuf0/sync_for_cpu")
  let fdSyncDev ← proc (openFile os.toOs "/sys/class/u-dma-buf/udmabuf0/sync_for_device")
  if fdSyncCpu < 0 ∨ fdSyncDev < 0 then
    proc (closeIfOpen os.toOs fdSyncCpu)
    proc (closeIfOpen os.toOs fdSyncDev)
    proc (errorMsg "Could not open u-dma-buf sync")
    return smiErrFileIoFail
  let _ ← dmaBufferInit os true true
  proc (setCxt fun c => { c with
    fdSyncDev := fdSyncDev, fdSyncCpu := fdSyncCpu, dmaBuffer := dmaBuffer })
  return smiOk

end Functions

namespace BufferOs

variable (os : BufferOs σ)

def mapBuffer (s : σ) : Option ℕ × σ :=
  let (fd,s) := os.openFile "/dev/udmabuf0" s
  if fd < 0 then (none,s)
  else
    let (mem,s) := os.mmap dmaBufferSize s
    (mem,os.close fd s)

def scanFile (file : String) (scan : σ → Option (BitVec 64) × σ) (s : σ) : Scanned × σ :=
  let (fd,s) := os.openFile file s
  if fd < 0 then (.unopened,s)
  else
    let (v,s) := scan s
    (match v with
      | none => .blank
      | some v => .found v,os.close fd s)

def steps (s : σ) : List InitStep :=
  match os.mapBuffer s with
  | (none,_) => [.mapped none]
  | (some base,s) =>
    let (size,s) := os.scanFile "/sys/class/u-dma-buf/udmabuf0/size" os.scanSize s
    let (phys,s) := os.scanFile "/sys/class/u-dma-buf/udmabuf0/phys_addr" os.scanAddr s
    [.mapped (some base),.sized size,.located phys,.checked (os.checkBuf base dmaBufferSize s).1]

end BufferOs

def opened? : SysCall → Option ℤ
  | .opened _ fd => if 0 ≤ fd then some fd else none
  | _ => none

def closed? : SysCall → Option ℤ
  | .close fd => some fd
  | _ => none

def mapped? : SysCall → Option (ℕ × ℕ)
  | .mmap base len => some (base,len)
  | _ => none

/-- Every descriptor opened was closed. -/
def Closed (l : List SysCall) : Prop := (l.filterMap opened?).Perm (l.filterMap closed?)

/-- The calls that were added: descriptors are closed again, and nothing is unmapped. -/
structure Added (l : List SysCall) (p p' : Process σ) : Prop where
  calls : p'.calls = p.calls ++ l
  closed : Closed l
  kept : l.filterMap SysCall.munmap? = []

section Runs

variable {os : BufferOs σ}

theorem added_refl (p : Process σ) : Added [] p p := ⟨by simp,List.Perm.refl _,rfl⟩

theorem Added.trans {p p' p'' : Process σ} {l l' : List SysCall} (h : Added l p p')
    (h' : Added l' p' p'') : Added (l ++ l') p p'' where
  calls := by rw [h'.calls,h.calls,List.append_assoc]
  closed := by
    unfold Closed
    rw [List.filterMap_append,List.filterMap_append]
    exact h.closed.append h'.closed
  kept := by rw [List.filterMap_append,h.kept,h'.kept,List.append_nil]

/-- The calls of a function that opens a file, does `mid` with it, and closes it again. -/
theorem closed_file (file : String) {fd : ℤ} (h : 0 ≤ fd) (mid : List SysCall)
    (ho : mid.filterMap opened? = []) (hc : mid.filterMap closed? = []) :
    Closed (SysCall.opened file fd::mid ++ [SysCall.close fd]) := by
  have hopened : opened? (.opened file fd) = some fd := if_pos h
  have hopens : (SysCall.opened file fd::mid ++ [SysCall.close fd]).filterMap opened? = [fd] := by
    rw [List.filterMap_append,List.filterMap_cons_some hopened,ho]
    rfl
  have hcloses : (SysCall.opened file fd::mid ++ [SysCall.close fd]).filterMap closed? = [fd] := by
    rw [List.filterMap_append,List.filterMap_cons_none rfl,hc]
    rfl
  rw [Closed,hopens,hcloses]

theorem closed_unopened (file : String) {fd : ℤ} (h : fd < 0) : Closed [.opened file fd] := by
  have hopened : opened? (.opened file fd) = none := if_neg (not_le.mpr h)
  rw [Closed,List.filterMap_cons_none hopened]
  rfl

theorem mapDmaBuffer_run (os : BufferOs σ) (p : Process σ) :
    ∃ l p', mapDmaBuffer os.toOs dmaBufferSize p = (some (os.mapBuffer p.world.dev.1).1,p') ∧
      p'.world.dev.1 = (os.mapBuffer p.world.dev.1).2 ∧ p'.cxt = p.cxt ∧ Added l p p' ∧
      l.filterMap mapped? = (os.mapBuffer p.world.dev.1).1.toList.map (·,dmaBufferSize) := by
  rcases ho : os.openFile "/dev/udmabuf0" p.world.dev.1 with ⟨fd,s⟩
  let q := (p.setDev s).called (.opened "/dev/udmabuf0" fd)
  have hopen : openFile os.toOs "/dev/udmabuf0" p = (some fd,q) := by simp only [openFile,ho]; rfl
  by_cases hfd : fd < 0
  · have hmap : os.mapBuffer p.world.dev.1 = (none,s) := by
      simp only [BufferOs.mapBuffer,ho,hfd,if_true]
    have hrun : mapDmaBuffer os.toOs dmaBufferSize p = (some none,
        { q with world := q.world.report "ERROR: failed opening /dev/udmabuf0\n" }) := by
      rw [mapDmaBuffer,bind_run hopen,ite_run,if_pos hfd]
      rfl
    rw [hmap]
    exact ⟨[.opened "/dev/udmabuf0" fd],_,hrun,rfl,rfl,⟨rfl,closed_unopened _ hfd,rfl⟩,rfl⟩
  · rcases hm : os.mmap dmaBufferSize s with ⟨_ | base,s'⟩
    · have hmap : os.mapBuffer p.world.dev.1 = (none,os.close fd s') := by
        simp only [BufferOs.mapBuffer,ho,hfd,if_false,hm]
      let v := q.setDev s'
      have hmm : mmap os.toOs dmaBufferSize q = (some none,v) := by
        simp only [mmap,show q.world.dev.1 = s from rfl,hm]
        rfl
      have hrun : mapDmaBuffer os.toOs dmaBufferSize p = (some none,
          (({ v with world := v.world.report "ERROR: buffer mapping failed\n" } :
            Process σ).setDev (os.close fd s')).called (.close fd)) := by
        rw [mapDmaBuffer,bind_run hopen,ite_run,if_neg hfd,bind_run hmm]
        rfl
      rw [hmap]
      exact ⟨_,_,hrun,rfl,rfl,⟨List.append_assoc p.calls [.opened "/dev/udmabuf0" fd] [.close fd],
        closed_file _ (not_lt.mp hfd) [] rfl rfl,rfl⟩,rfl⟩
    · have hmap : os.mapBuffer p.world.dev.1 = (some base,os.close fd s') := by
        simp only [BufferOs.mapBuffer,ho,hfd,if_false,hm]
      let v := (q.setDev s').called (.mmap base dmaBufferSize)
      have hmm : mmap os.toOs dmaBufferSize q = (some (some base),v) := by
        simp only [mmap,show q.world.dev.1 = s from rfl,hm]
        rfl
      have hrun : mapDmaBuffer os.toOs dmaBufferSize p = (some (some base),
          (v.setDev (os.close fd s')).called (.close fd)) := by
        rw [mapDmaBuffer,bind_run hopen,ite_run,if_neg hfd,bind_run hmm]
        rfl
      have hcalls : ((v.setDev (os.close fd s')).called (.close fd)).calls = p.calls ++
          ([.opened "/dev/udmabuf0" fd,.mmap base dmaBufferSize] ++ [.close fd]) := by
        simp [v,q,Process.called,Process.setDev]
      rw [hmap]
      exact ⟨_,_,hrun,rfl,rfl,⟨hcalls,closed_file _ (not_lt.mp hfd) [.mmap base dmaBufferSize]
        rfl rfl,rfl⟩,rfl⟩

theorem proc_run {x : Proc σ α} {u : Init σ} {a : α} {p : Process σ}
    (h : x u.process = (some a,p)) : proc x u = (some a,{ u with process := p }) := by
  simp only [proc,h]

theorem readSysfile_run (os : BufferOs σ) (file : String) (scan : σ → Option (BitVec 64) × σ)
    (u : Init σ) : ∃ l p', readSysfile os file scan u =
        (some (os.scanFile file scan u.sys).1,{ u with process := p' }) ∧
      p'.world.dev.1 = (os.scanFile file scan u.sys).2 ∧ p'.cxt = u.process.cxt ∧
      Added l u.process p' ∧ l.filterMap mapped? = [] := by
  rcases ho : os.openFile file u.sys with ⟨fd,s⟩
  let q := (u.process.setDev s).called (.opened file fd)
  have hopen : openFile os.toOs file u.process = (some fd,q) := by
    simp only [openFile,show os.openFile file u.process.world.dev.1 = (fd,s) from ho]
    rfl
  by_cases hfd : fd < 0
  · have hscan : os.scanFile file scan u.sys = (.unopened,s) := by
      simp only [BufferOs.scanFile,ho,hfd,if_true]
    have hrun : readSysfile os file scan u = (some .unopened,{ u with
        process := { q with world := q.world.report "File size couldn't be read" } }) := by
      rw [readSysfile,bind_run (proc_run hopen),ite_run,if_pos hfd]
      rfl
    rw [hscan]
    exact ⟨[.opened file fd],_,hrun,rfl,rfl,⟨rfl,closed_unopened _ hfd,rfl⟩,rfl⟩
  · let x : Scanned := match (scan s).1 with
      | none => .blank
      | some v => .found v
    have hscan : os.scanFile file scan u.sys = (x,os.close fd (scan s).2) := by
      simp only [BufferOs.scanFile,ho,hfd,if_false]
      rfl
    let r := (q.setDev (scan s).2).setDev (os.close fd (scan s).2)
    have hrun : readSysfile os file scan u =
        (some x,{ u with process := r.called (.close fd) }) := by
      rw [readSysfile,bind_run (proc_run hopen),ite_run,if_neg hfd]
      rfl
    rw [hscan]
    exact ⟨_,_,hrun,rfl,rfl,⟨List.append_assoc u.process.calls [.opened file fd] [.close fd],
      closed_file _ (not_lt.mp hfd) [] rfl rfl,rfl⟩,rfl⟩

theorem readSysfileSize_run (os : BufferOs σ) (file : String) (u : Init σ) :
    ∃ l p' v, readSysfileSize os file u = (some v,{ u with
        process := p', steps := u.steps ++ [.sized (os.scanFile file os.scanSize u.sys).1] }) ∧
      p'.world.dev.1 = (os.scanFile file os.scanSize u.sys).2 ∧ p'.cxt = u.process.cxt ∧
      Added l u.process p' ∧ l.filterMap mapped? = [] ∧
      ∀ n, (os.scanFile file os.scanSize u.sys).1 = .found n → v = n := by
  obtain ⟨l,p',hrun,hsys,hcxt,hadd,hmap⟩ := readSysfile_run os file os.scanSize u
  refine ⟨l,p',_,bind_run hrun _,hsys,hcxt,hadd,hmap,fun n hn => ?_⟩
  rw [hn]

theorem readSysfilePhysAddr_run (os : BufferOs σ) (file : String) (u : Init σ) :
    ∃ l p' v, readSysfilePhysAddr os file u = (some v,{ u with
        process := p', steps := u.steps ++ [.located (os.scanFile file os.scanAddr u.sys).1] }) ∧
      p'.world.dev.1 = (os.scanFile file os.scanAddr u.sys).2 ∧ p'.cxt = u.process.cxt ∧
      Added l u.process p' ∧ l.filterMap mapped? = [] ∧
      ∀ n, (os.scanFile file os.scanAddr u.sys).1 = .found n → v = n := by
  obtain ⟨l,p',hrun,hsys,hcxt,hadd,hmap⟩ := readSysfile_run os file os.scanAddr u
  refine ⟨l,p',_,bind_run hrun _,hsys,hcxt,hadd,hmap,fun n hn => ?_⟩
  rw [hn]

theorem checkBuf_run (os : BufferOs σ) (buf size : ℕ) (u : Init σ) :
    checkBuf os buf size u = (some (os.checkBuf buf size u.sys).1,{ u with
      process := u.process.setDev (os.checkBuf buf size u.sys).2
      steps := u.steps ++ [.checked (os.checkBuf buf size u.sys).1] }) := rfl

theorem clearBuf_run (os : BufferOs σ) (buf size : ℕ) (u : Init σ) :
    ∃ s, onSys (os.clearBuf buf size) u = (some 0,{ u with process := u.process.setDev s }) :=
  ⟨_,rfl⟩

/-- The check and the clearing ask the system for nothing, and a failed check undoes nothing. -/
theorem checkAndClear_run (os : BufferOs σ) (virt : ℕ) (size : BitVec 64) (u : Init σ) :
    Post (do
      let errors ← checkBuf os virt dmaBufferSize
      if 0 < errors then
        proc (errorMsg ("ERROR: Buffer initialisation check failed; Count = " ++
          toString errors ++ "\n"))
        return -1
      let errors ← onSys (os.clearBuf virt dmaBufferSize)
      if 0 < errors then
        proc (errorMsg ("ERROR: Buffer initialisation clear failed; Count = " ++
          toString errors ++ "\n"))
        return -1
      return size : InitProg σ (BitVec 64)) u
      (fun _ v => ∃ p', v = { u with
          process := p', steps := u.steps ++ [.checked (os.checkBuf virt dmaBufferSize u.sys).1] } ∧
        p'.cxt = u.process.cxt ∧ p'.calls = u.process.calls) fun _ => False := by
  refine post_step (checkBuf_run os virt dmaBufferSize u) ?_
  refine post_ite (fun _ => ?_) fun _ => ?_
  · refine post_step (proc_run rfl) ?_
    exact post_of_run rfl ⟨_,rfl,rfl,rfl⟩
  · obtain ⟨s,hclear⟩ := clearBuf_run os virt dmaBufferSize { u with
      process := u.process.setDev (os.checkBuf virt dmaBufferSize u.sys).2
      steps := u.steps ++ [.checked (os.checkBuf virt dmaBufferSize u.sys).1] }
    refine post_step hclear ?_
    exact post_ite (fun h => absurd h (Nat.lt_irrefl 0))
      fun _ => post_of_run rfl ⟨_,rfl,rfl,rfl⟩

/-- What a run of `dma_buffer_init` from `u` leaves: its steps recorded, and the `MEM_MAP` filled in
where they succeeded. -/
structure Initialised (os : BufferOs σ) (u u' : Init σ) : Prop where
  cxt : u'.process.cxt = u.process.cxt
  steps : u'.steps = u.steps ++ os.steps u.sys
  added : ∃ l, Added l u.process u'.process ∧ ∀ base size phys errors,
    os.steps u.sys = [.mapped (some base),.sized (.found size),.located (.found phys),
      .checked errors] →
    u'.buffer = ⟨size,phys+0xC0000000,base,phys⟩ ∧ l.filterMap mapped? = [(base,dmaBufferSize)]
  mapped : ∃ l, Added l (mapDmaBuffer os.toOs dmaBufferSize u.process).2 u'.process ∧
    l.filterMap mapped? = []

/-- What reading the two sysfs files leaves: their results recorded, and the fields set. -/
structure FilesRead (os : BufferOs σ) (x y : Scanned) (s : σ) (u u' : Init σ) : Prop where
  sys : u'.sys = s
  cxt : u'.process.cxt = u.process.cxt
  steps : u'.steps = u.steps ++ [.sized x,.located y]
  added : ∃ l, Added l u.process u'.process ∧ l.filterMap mapped? = []
  buffer : ∀ size phys, x = .found size → y = .found phys →
    u'.buffer = ⟨size,phys+0xC0000000,u.buffer.virt,phys⟩

theorem post_files {u : Init σ} {x y : Scanned} {s s' : σ} {k : BitVec 64 → InitProg σ α}
    {Q : α → Init σ → Prop} {E : Init σ → Prop}
    (hx : os.scanFile "/sys/class/u-dma-buf/udmabuf0/size" os.scanSize u.sys = (x,s))
    (hy : os.scanFile "/sys/class/u-dma-buf/udmabuf0/phys_addr" os.scanAddr s = (y,s'))
    (hk : ∀ size u', FilesRead os x y s' u u' → Post (k size) u' Q E) :
    Post (do
      let size ← readSysfileSize os "/sys/class/u-dma-buf/udmabuf0/size"
      setBuffer fun b => { b with size := size }
      let phys ← readSysfilePhysAddr os "/sys/class/u-dma-buf/udmabuf0/phys_addr"
      setBuffer fun b => { b with phys := phys, bus := phys+0xC0000000 }
      k size : InitProg σ α) u Q E := by
  obtain ⟨l,p,size,hrun,hsys,hcxt,hadd,hmap,hsize⟩ :=
    readSysfileSize_run os "/sys/class/u-dma-buf/udmabuf0/size" u
  rw [hx] at *
  refine post_step hrun ?_
  refine post_step rfl ?_
  let u₁ : Init σ := { u with
    process := p
    buffer := { u.buffer with size := size }
    steps := u.steps ++ [.sized x] }
  obtain ⟨l',p',phys,hrun',hsys',hcxt',hadd',hmap',hphys⟩ :=
    readSysfilePhysAddr_run os "/sys/class/u-dma-buf/udmabuf0/phys_addr" u₁
  rw [show u₁.sys = s from hsys,hy] at *
  refine post_step hrun' ?_
  refine post_step rfl ?_
  refine hk size _ ?_
  refine ⟨hsys',hcxt'.trans hcxt,?_,⟨l ++ l',hadd.trans hadd',?_⟩,?_⟩
  · exact List.append_assoc u.steps [.sized x] [.located y]
  · rw [List.filterMap_append,hmap,hmap']
    rfl
  · rintro n a rfl rfl
    show BufferMap.mk size (phys+0xC0000000) u.buffer.virt phys = _
    rw [hsize n rfl,hphys a rfl]

theorem dmaBufferInit_unmapped {u : Init σ} {s : σ} (hm : os.mapBuffer u.sys = (none,s)) :
    Post (dmaBufferInit os true true) u (fun _ => Initialised os u) fun _ => False := by
  obtain ⟨l,p,hrun,-,hcxt,hadd,-⟩ := mapDmaBuffer_run os u.process
  have hsteps : os.steps u.sys = [.mapped none] := by simp only [BufferOs.steps,hm]
  rw [show os.mapBuffer u.process.world.dev.1 = (none,s) from hm] at hrun
  refine post_step (proc_run hrun) ?_
  refine post_step rfl ?_
  refine post_bind
    (post_of_run rfl (post_step (proc_run rfl) (post_of_run rfl ?_)))
  refine ⟨hcxt,?_,⟨l,⟨hadd.calls,hadd.closed,hadd.kept⟩,?_⟩,[],?_,rfl⟩
  · rw [hsteps]
  · rw [hsteps]
    intro base size phys errors h
    cases h
  · rw [hrun]
    exact ⟨(List.append_nil p.calls).symm,List.Perm.refl _,rfl⟩

theorem dmaBufferInit_run (os : BufferOs σ) (u : Init σ) :
    Post (dmaBufferInit os true true) u (fun _ => Initialised os u) fun _ => False := by
  rcases hm : os.mapBuffer u.sys with ⟨_ | base,s₁⟩
  · exact dmaBufferInit_unmapped hm
  · obtain ⟨l,p,hrun,hsys,hcxt,hadd,hmap⟩ := mapDmaBuffer_run os u.process
    rw [show os.mapBuffer u.process.world.dev.1 = (some base,s₁) from hm] at *
    rcases hx : os.scanFile "/sys/class/u-dma-buf/udmabuf0/size" os.scanSize s₁ with ⟨x,s₂⟩
    rcases hy : os.scanFile "/sys/class/u-dma-buf/udmabuf0/phys_addr" os.scanAddr s₂ with ⟨y,s₃⟩
    have hsteps : os.steps u.sys = [.mapped (some base),.sized x,.located y,
        .checked (os.checkBuf base dmaBufferSize s₃).1] := by
      simp only [BufferOs.steps,hm,hx,hy]
    let u₁ : Init σ := { u with
      process := p
      buffer := { u.buffer with virt := base }
      steps := u.steps ++ [.mapped (some base)] }
    have hsys₁ : u₁.sys = s₁ := hsys
    refine post_step (proc_run hrun) ?_
    refine post_step rfl ?_
    refine post_bind
      (post_of_run rfl (post_files (u := u₁) (hsys₁ ▸ hx) hy fun size v hv => ?_))
    refine (checkAndClear_run os base size v).mono ?_ fun _ h => h
    rintro _ _ ⟨p',rfl,hc,hl⟩
    obtain ⟨l',hadd',hmap'⟩ := hv.added
    have hall := hadd.trans hadd'
    rw [hv.sys,hv.steps]
    refine ⟨hc.trans (hv.cxt.trans hcxt),?_,⟨l ++ l',⟨hl.trans hall.calls,hall.closed,hall.kept⟩,
      ?_⟩,l',?_,hmap'⟩
    · simp only [hsteps,u₁,List.append_assoc]
      rfl
    · rw [hsteps]
      intro base' n a e h
      cases h
      rw [List.filterMap_append,hmap,hmap']
      exact ⟨hv.buffer n a rfl rfl,rfl⟩
    · rw [hrun]
      exact ⟨hl.trans hadd'.calls,hadd'.closed,hadd'.kept⟩

end Runs

/-- The buffer is mapped and stays so, it has passed its check, and the `MEM_MAP` holds its size and
addresses. -/
def Ready (u : Init σ) : Prop := ∃ base size phys,
  u.steps = [.mapped (some base),.sized (.found size),.located (.found phys),.checked 0] ∧
  u.buffer = ⟨size,phys+0xC0000000,base,phys⟩ ∧
  u.process.calls.filterMap mapped? = [(base,dmaBufferSize)] ∧
  u.process.calls.filterMap SysCall.munmap? = []

/-- What was acquired has been given back. -/
structure Released (l : List SysCall) : Prop where
  closed : Closed l
  unmapped : (l.filterMap mapped?).Perm (l.filterMap SysCall.munmap?)

def SameFields (c c' : Handles) : Prop :=
  c'.fdSyncCpu = c.fdSyncCpu ∧ c'.fdSyncDev = c.fdSyncDev ∧ c'.dmaBuffer = c.dmaBuffer

structure AllOrNothing (os : BufferOs σ) (dmaBuffer : ℕ) (u : Init σ) : Prop where
  ready : ∀ u', smiInitUdmabuf os dmaBuffer u.fresh = (some smiOk,u') → Ready u'
  undone : ∀ code u', smiInitUdmabuf os dmaBuffer u.fresh = (some code,u') → code ≠ smiOk →
    code < 0 ∧ Released u'.process.calls ∧ SameFields u.process.cxt u'.process.cxt

namespace BufferOs

variable (os : BufferOs σ)

def cpuSync (s : σ) : ℤ × σ := os.openFile "/sys/class/u-dma-buf/udmabuf0/sync_for_cpu" s
def devSync (s : σ) : ℤ × σ :=
  os.openFile "/sys/class/u-dma-buf/udmabuf0/sync_for_device" (os.cpuSync s).2

/-- Both sync files can be opened. -/
def SyncsOpen (s : σ) : Prop := 0 ≤ (os.cpuSync s).1 ∧ 0 ≤ (os.devSync s).1

/-- Every step of `dma_buffer_init` from the state `s` on succeeds, and no byte fails the check. -/
def Prepares (s : σ) : Prop := ∃ base size phys, os.steps s =
  [.mapped (some base),.sized (.found size),.located (.found phys),.checked 0]

end BufferOs

section Call

variable (os : BufferOs σ) (dmaBuffer : ℕ) (u : Init σ)

def asked : Process σ :=
  (((u.process.setDev (os.cpuSync u.sys).2).called (.opened
    "/sys/class/u-dma-buf/udmabuf0/sync_for_cpu" (os.cpuSync u.sys).1)).setDev
      (os.devSync u.sys).2).called (.opened
        "/sys/class/u-dma-buf/udmabuf0/sync_for_device" (os.devSync u.sys).1)

theorem smiInitUdmabuf_asked : smiInitUdmabuf os dmaBuffer u =
    (if (os.cpuSync u.sys).1 < 0 ∨ (os.devSync u.sys).1 < 0 then do
      proc (closeIfOpen os.toOs (os.cpuSync u.sys).1)
      proc (closeIfOpen os.toOs (os.devSync u.sys).1)
      proc (errorMsg "Could not open u-dma-buf sync")
      return smiErrFileIoFail
    else do
      let _ ← dmaBufferInit os true true
      proc (setCxt fun c => { c with
        fdSyncDev := (os.devSync u.sys).1, fdSyncCpu := (os.cpuSync u.sys).1
        dmaBuffer := dmaBuffer })
      return smiOk : InitProg σ ℤ) { u with process := asked os u } := by
  have hcpu : openFile os.toOs "/sys/class/u-dma-buf/udmabuf0/sync_for_cpu" u.process =
      (some (os.cpuSync u.sys).1,(u.process.setDev (os.cpuSync u.sys).2).called (.opened
        "/sys/class/u-dma-buf/udmabuf0/sync_for_cpu" (os.cpuSync u.sys).1)) := rfl
  have hdev : openFile os.toOs "/sys/class/u-dma-buf/udmabuf0/sync_for_device"
      ((u.process.setDev (os.cpuSync u.sys).2).called (.opened
        "/sys/class/u-dma-buf/udmabuf0/sync_for_cpu" (os.cpuSync u.sys).1)) =
      (some (os.devSync u.sys).1,asked os u) := rfl
  rw [smiInitUdmabuf,bind_run (proc_run hcpu),bind_run (proc_run hdev)]

variable {os u}

theorem closeIfOpen_run (os : BufferOs σ) (fd : ℤ) (p : Process σ) :
    ∃ p', closeIfOpen os.toOs fd p = (some (),p') ∧ p'.cxt = p.cxt ∧
      p'.calls = p.calls ++ if 0 ≤ fd then [.close fd] else [] := by
  by_cases h : 0 ≤ fd
  · refine ⟨_,(ite_run _ _ _ p).trans (if_pos h),rfl,?_⟩
    rw [if_pos h]
    rfl
  · refine ⟨p,(ite_run _ _ _ p).trans (if_neg h),rfl,?_⟩
    rw [if_neg h,List.append_nil]

theorem smiInitUdmabuf_unsynced (os : BufferOs σ) (dmaBuffer : ℕ) (u : Init σ)
    (h : ¬ os.SyncsOpen u.sys) :
    ∃ u', smiInitUdmabuf os dmaBuffer u = (some smiErrFileIoFail,u') ∧
      u'.process.cxt = u.process.cxt ∧
      u'.process.calls = (asked os u).calls ++
        ((if 0 ≤ (os.cpuSync u.sys).1 then [.close (os.cpuSync u.sys).1] else []) ++
          if 0 ≤ (os.devSync u.sys).1 then [.close (os.devSync u.sys).1] else []) := by
  have hfail : (os.cpuSync u.sys).1 < 0 ∨ (os.devSync u.sys).1 < 0 := by
    unfold BufferOs.SyncsOpen at h
    omega
  obtain ⟨p₁,hrun₁,hcxt₁,hcalls₁⟩ := closeIfOpen_run os (os.cpuSync u.sys).1 (asked os u)
  obtain ⟨p₂,hrun₂,hcxt₂,hcalls₂⟩ := closeIfOpen_run os (os.devSync u.sys).1 p₁
  refine ⟨{ u with process := { p₂ with
    world := p₂.world.report "Could not open u-dma-buf sync" } },?_,hcxt₂.trans hcxt₁,?_⟩
  · rw [smiInitUdmabuf_asked,if_pos hfail,
      bind_run (proc_run (u := { u with process := asked os u }) hrun₁),
      bind_run (proc_run (u := { u with process := p₁ }) hrun₂)]
    rfl
  · show p₂.calls = _
    rw [hcalls₂,hcalls₁,List.append_assoc]

theorem smiInitUdmabuf_synced (os : BufferOs σ) (dmaBuffer : ℕ) (u : Init σ)
    (h : os.SyncsOpen u.sys) :
    ∃ u' v, smiInitUdmabuf os dmaBuffer u = (some smiOk,u') ∧
      Initialised os { u with process := asked os u } v ∧ u'.steps = v.steps ∧
      u'.buffer = v.buffer ∧ u'.process.calls = v.process.calls := by
  have hopen : ¬ ((os.cpuSync u.sys).1 < 0 ∨ (os.devSync u.sys).1 < 0) := by
    unfold BufferOs.SyncsOpen at h
    omega
  have hpost := dmaBufferInit_run os { u with process := asked os u }
  rcases hrun : dmaBufferInit os true true { u with process := asked os u } with ⟨_ | code,v⟩
  · exact ((hpost.elim hrun).2 rfl).elim
  · let keep : Handles → Handles := fun c => { c with
      fdSyncDev := (os.devSync u.sys).1, fdSyncCpu := (os.cpuSync u.sys).1
      dmaBuffer := dmaBuffer }
    refine ⟨{ v with process := (setCxt keep v.process).2 },v,?_,(hpost.elim hrun).1 code rfl,
      rfl,rfl,rfl⟩
    rw [smiInitUdmabuf_asked,if_neg hopen,bind_run hrun]
    rfl

theorem maps_run (os : BufferOs σ) (p : Process σ) :
    ∃ p', RpiSmi.dmaBufferInit os.toOs p = (some (),p') ∧ p'.cxt = p.cxt ∧
      p'.calls = (mapDmaBuffer os.toOs dmaBufferSize p).2.calls := by
  obtain ⟨l,q,hrun,-,hcxt,-⟩ := mapDmaBuffer_run os p
  rw [RpiSmi.dmaBufferInit,bind_run hrun,ite_run,hrun]
  split
  · exact ⟨_,rfl,hcxt,rfl⟩
  · exact ⟨q,rfl,hcxt,rfl⟩

/-- `Lifecycle` stops at the mapping: the code and the context are the same, and what it leaves out
is that the two sysfs files are opened and closed. -/
theorem smiInitUdmabuf_lifecycle (os : BufferOs σ) (dmaBuffer : ℕ) (u : Init σ) :
    (smiInitUdmabuf os dmaBuffer u).1 = (RpiSmi.smiInitUdmabuf os.toOs dmaBuffer u.process).1 ∧
      (smiInitUdmabuf os dmaBuffer u).2.process.cxt =
        (RpiSmi.smiInitUdmabuf os.toOs dmaBuffer u.process).2.cxt ∧
      ∃ l, Added l (RpiSmi.smiInitUdmabuf os.toOs dmaBuffer u.process).2
        (smiInitUdmabuf os dmaBuffer u).2.process ∧ l.filterMap mapped? = [] := by
  have hmaps : RpiSmi.smiInitUdmabuf os.toOs dmaBuffer u.process =
      (if (os.cpuSync u.sys).1 < 0 ∨ (os.devSync u.sys).1 < 0 then do
        closeIfOpen os.toOs (os.cpuSync u.sys).1
        closeIfOpen os.toOs (os.devSync u.sys).1
        errorMsg "Could not open u-dma-buf sync"
        return smiErrFileIoFail
      else do
        RpiSmi.dmaBufferInit os.toOs
        setCxt fun c => { c with
          fdSyncDev := (os.devSync u.sys).1, fdSyncCpu := (os.cpuSync u.sys).1
          dmaBuffer := dmaBuffer }
        return smiOk : Proc σ ℤ) (asked os u) := rfl
  rw [smiInitUdmabuf_asked,hmaps]
  split
  case isTrue =>
    obtain ⟨p₁,hrun₁,-,-⟩ := closeIfOpen_run os (os.cpuSync u.sys).1 (asked os u)
    obtain ⟨p₂,hrun₂,-,-⟩ := closeIfOpen_run os (os.devSync u.sys).1 p₁
    rw [bind_run (proc_run (u := { u with process := asked os u }) hrun₁),
      bind_run (proc_run (u := { u with process := p₁ }) hrun₂),bind_run hrun₁,bind_run hrun₂]
    exact ⟨rfl,rfl,[],added_refl _,rfl⟩
  case isFalse =>
    have hpost := dmaBufferInit_run os { u with process := asked os u }
    rcases hrun : dmaBufferInit os true true { u with process := asked os u } with ⟨_ | code,v⟩
    · exact ((hpost.elim hrun).2 rfl).elim
    · obtain ⟨l,hadd,hmap⟩ := ((hpost.elim hrun).1 code rfl).mapped
      obtain ⟨p',hrun',hcxt,hcalls⟩ := maps_run os (asked os u)
      let keep : Handles → Handles := fun c => { c with
        fdSyncDev := (os.devSync u.sys).1, fdSyncCpu := (os.cpuSync u.sys).1
        dmaBuffer := dmaBuffer }
      have hkeep : v.process.cxt = p'.cxt := ((hpost.elim hrun).1 code rfl).cxt.trans hcxt.symm
      rw [bind_run hrun,bind_run hrun']
      exact ⟨rfl,congrArg keep hkeep,l,
        ⟨hadd.calls.trans (congrArg (· ++ l) hcalls.symm),hadd.closed,hadd.kept⟩,hmap⟩

theorem asked_calls (os : BufferOs σ) (u : Init σ) : (asked os u.fresh).calls =
    [.opened "/sys/class/u-dma-buf/udmabuf0/sync_for_cpu" (os.cpuSync u.sys).1,
      .opened "/sys/class/u-dma-buf/udmabuf0/sync_for_device" (os.devSync u.sys).1] := rfl

theorem opened_closeIfOpen (path : String) (fd : ℤ) :
    [SysCall.opened path fd].filterMap opened? =
      (if 0 ≤ fd then [SysCall.close fd] else []).filterMap closed? := by
  by_cases h : 0 ≤ fd
  · rw [if_pos h,List.filterMap_cons_some (show opened? (.opened path fd) = some fd from if_pos h)]
    rfl
  · rw [if_neg h,List.filterMap_cons_none (show opened? (.opened path fd) = none from if_neg h)]
    rfl

theorem filterMap_closes {β : Type} (f : SysCall → Option β) (hf : ∀ fd, f (.close fd) = none)
    (fd : ℤ) : (if 0 ≤ fd then [SysCall.close fd] else []).filterMap f = [] := by
  split
  · exact List.filterMap_cons_none (hf fd)
  · rfl

theorem released_unsynced (os : BufferOs σ) (u : Init σ) :
    Released ((asked os u.fresh).calls ++
      ((if 0 ≤ (os.cpuSync u.sys).1 then [SysCall.close (os.cpuSync u.sys).1] else []) ++
        if 0 ≤ (os.devSync u.sys).1 then [SysCall.close (os.devSync u.sys).1] else [])) := by
  rw [asked_calls]
  constructor
  · have hcpu := opened_closeIfOpen "/sys/class/u-dma-buf/udmabuf0/sync_for_cpu"
      (os.cpuSync u.sys).1
    have hdev := opened_closeIfOpen "/sys/class/u-dma-buf/udmabuf0/sync_for_device"
      (os.devSync u.sys).1
    rw [← List.singleton_append,Closed,List.filterMap_append,List.filterMap_append,
      List.filterMap_append,List.filterMap_append,List.filterMap_append,List.filterMap_append,
      filterMap_closes opened? fun _ => rfl,filterMap_closes opened? fun _ => rfl,hcpu,hdev]
    simp only [List.append_nil]
    rfl
  · rw [List.filterMap_append,List.filterMap_append,List.filterMap_append,List.filterMap_append,
      filterMap_closes mapped? fun _ => rfl,filterMap_closes mapped? fun _ => rfl,
      filterMap_closes SysCall.munmap? fun _ => rfl,filterMap_closes SysCall.munmap? fun _ => rfl]
    rfl

theorem ready_iff (hs : os.SyncsOpen u.sys) {u' : Init σ}
    (h : smiInitUdmabuf os dmaBuffer u.fresh = (some smiOk,u')) :
    Ready u' ↔ os.Prepares (os.devSync u.sys).2 := by
  obtain ⟨w,v,hrun,hinit,hsteps,hbuffer,hcalls⟩ :=
    smiInitUdmabuf_synced os dmaBuffer u.fresh hs
  rw [h] at hrun
  cases hrun
  have hv : v.steps = os.steps (os.devSync u.sys).2 := hinit.steps
  constructor
  · rintro ⟨base,size,phys,hready,-⟩
    exact ⟨base,size,phys,hv.symm.trans (hsteps.symm.trans hready)⟩
  · rintro ⟨base,size,phys,hprep⟩
    obtain ⟨l,hadd,hgood⟩ := hinit.added
    obtain ⟨hb,hm⟩ := hgood base size phys 0 hprep
    refine ⟨base,size,phys,hsteps.trans (hv.trans hprep),hbuffer.trans hb,?_,?_⟩
    · rw [hcalls,hadd.calls,List.filterMap_append,hm]
      rfl
    · rw [hcalls,hadd.calls,List.filterMap_append,hadd.kept]
      rfl

end Call

/-- Both sync files are open and `dma_buffer_init` cannot have the buffer. -/
def noBufferOs : BufferOs ℕ where
  openFile _ n := (if n < 2 then n+3 else -1,n+1)
  close _ n := n
  mmap _ n := (none,n)
  munmap _ _ n := n
  scanSize n := (none,n)
  scanAddr n := (none,n)
  stray _ := 0
  poke _ _ n := n
  peek _ n := (0,n)

/-- The call drops what `dma_buffer_init` returns: it is all or nothing exactly where a sync file is
missing or nothing else fails. -/
theorem allOrNothing_iff (os : BufferOs σ) (dmaBuffer : ℕ) (u : Init σ) :
    AllOrNothing os dmaBuffer u ↔
      ¬ os.SyncsOpen u.sys ∨ os.Prepares (os.devSync u.sys).2 := by
  by_cases hs : os.SyncsOpen u.sys
  · rw [or_iff_right (not_not.mpr hs)]
    obtain ⟨u',v,hrun,-⟩ := smiInitUdmabuf_synced os dmaBuffer u.fresh hs
    constructor
    · intro h
      exact (ready_iff dmaBuffer hs hrun).mp (h.ready u' hrun)
    · intro h
      refine ⟨fun w hw => (ready_iff dmaBuffer hs hw).mpr h,fun code w hw hne => ?_⟩
      rw [hrun] at hw
      cases hw
      exact absurd rfl hne
  · obtain ⟨u',hrun,hcxt,hcalls⟩ := smiInitUdmabuf_unsynced os dmaBuffer u.fresh hs
    refine iff_of_true ⟨fun w hw => ?_,fun code w hw _ => ?_⟩ (.inl hs) <;> rw [hrun] at hw
    · cases hw
    · cases hw
      refine ⟨by decide,?_,by rw [hcxt]; exact ⟨rfl,rfl,rfl⟩⟩
      rw [hcalls]
      exact released_unsynced os u

/-- The buffer cannot be opened and the call reports success. -/
theorem allOrNothing_not : ¬ ∀ (os : BufferOs ℕ) (dmaBuffer : ℕ) (u : Init ℕ),
    AllOrNothing os dmaBuffer u := by
  intro h
  let u : Init ℕ := ⟨Process.start 0 ⟨0,0,0,0,0,-1,-1⟩,⟨0,0,0,0⟩,[]⟩
  obtain ⟨base,size,phys,hsteps,-⟩ := (h noBufferOs 0x200c0 u).ready _ rfl
  cases hsteps

end Udmabuf
end RpiSmi
