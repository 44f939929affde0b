import RpiSmi.Await
import RpiSmi.Unpack

/-!
# Transfers

The entry points of `smi.c`: a setup sequence, a START and an await loop. A
setup sequence is the list of its register statements, line by line.
-/

namespace RpiSmi

open Exec Elements

variable {σ : Type}

def uint32 (i : ℤ) : ℕ := (i%2^32).toNat

def smiStart : List RegOp := [.field smioCs SmiCs.start 1]

/-- `smi_direct_read` and `smi_direct_write_arr` up to the await, which differ in `write`. -/
def directSetup (write : ℕ) (addr : BitVec 8) : List RegOp := [
  .value smioCs 0,
  .field smioCs SmiCs.clear 1,
  .field smioCs SmiCs.aferr 1,
  .field smioCs SmiCs.enable 1,
  .field smioCs SmiCs.pxldat 0,
  .field smioCs SmiCs.pad 0,
  .field (smioDsr 0) SmiDsr.rwidth 0,
  .field smioDcs SmiDcs.done 1,
  .field smioDcs SmiDcs.write write,
  .field smioDa SmiDa.addr addr.toNat,
  .value smioDd 0,
  .field smioDcs SmiDcs.start 1]

def directReadArrSetup (cxt : SmiCxt) (addr : BitVec 8) : List RegOp := [
  .field (smioDsr 0) SmiDsr.rwidth cxt.rwidth.toNat,
  .value smioDcs 0,
  .field smioDcs SmiDcs.done 1,
  .field smioDcs SmiDcs.write 0,
  .field smioDa SmiDa.addr addr.toNat,
  .value smioDd 0,
  .field smioDcs SmiDcs.start 1]

section Direct

variable (env : Env σ) (fuel : ℕ)

def smiDirectRead (ret : Ptr) (addr : BitVec 8) : Drv σ ℤ := do
  regOps env (directSetup 0 addr)
  smiReadAwaitDirect env fuel ret addr 1 0

def smiDirectReadArr (cxt : SmiCxt) (ret : Ptr) (addr : BitVec 8) (len increment : ℤ) :
    Drv σ ℤ := do
  regOps env (directReadArrSetup cxt addr)
  smiReadAwaitDirect env fuel ret addr len increment

/-- `len` is a `uint8_t`; what the await returns is dropped. -/
def smiDirectWriteArr (data : Option (ℕ → Word)) (addr len : BitVec 8) (increment : ℤ) :
    Drv σ ℤ := do
  regOps env (directSetup 1 addr)
  let _ ← smiWriteAwaitDirect env fuel data addr len.toNat increment
  return 1

/-- `&data` points at one word, and at whatever lies behind it. -/
def smiDirectWrite (data : ℕ → Word) (addr : BitVec 8) : Drv σ ℤ :=
  smiDirectWriteArr env fuel (some data) addr 1 0

end Direct

def smiPackedRatio (cxt : SmiCxt) : Drv σ PackRatio :=
  match packedRatio? cxt with
  | some ratio => return ratio
  | none => do
    error "Unknown interface configuration - using 1:1 ratio"
    return ⟨1,1⟩

/-- The block `realloc` returns, of `bytes` bytes, keeps the words that fit and then holds
`junk`. -/
def RawBuf.resize (b : RawBuf) (words bytes : ℕ) (junk : ℕ → Word) : RawBuf where
  buf := fun i => if i < min b.size (bytes/4) then b.buf i else junk i
  size := words

/-- Yields whether the raw buffer has room for the words of the transfer. -/
def growRawBuffer (env : Env σ) (words : ℤ) : Drv σ Bool := fun w =>
  if w.rawBuffer.size < sizeT words then
    match env.realloc (sizeT words*4%2^64) w.dev with
    | (some junk,s) =>
      (some true,{ w with
        dev := s, rawBuffer := w.rawBuffer.resize (sizeT words) (sizeT words*4%2^64) junk })
    | (none,s) =>
      (some false,({ w with dev := s } : World σ).report "Reallocation of raw buffer failed")
  else (some true,w)

def programmedReadSetup (cxt : SmiCxt) (addr : BitVec 8) (len : ℤ) : List RegOp := [
  .field smioA SmiA.device cxt.rwConfig.readDeviceNum.toNat,
  .field (smioDsr cxt.rwConfig.readDeviceNum.toNat) SmiDsr.rwidth cxt.rwidth.toNat,
  .field (smioDsw cxt.rwConfig.writeDeviceNum.toNat) SmiDsw.wformat cxt.wformat.toNat,
  .field (smioDsw cxt.rwConfig.writeDeviceNum.toNat) SmiDsw.wswap cxt.wswap.toNat,
  .field smioCs SmiCs.aferr 0,
  .field smioCs SmiCs.seterr 1,
  .field smioCs SmiCs.pxldat cxt.pxldata.toNat,
  .field smioCs SmiCs.enable 1,
  .field smioCs SmiCs.write 0,
  .field smioCs SmiCs.clear 1,
  .field smioCs SmiCs.pad cxt.pad.toNat,
  .field smioCs SmiCs.prdy cxt.prdy.toNat,
  .field smioCs SmiCs.intr cxt.intr.toNat,
  .field smioCs SmiCs.intd cxt.intd.toNat,
  .field smioCs SmiCs.pvmode cxt.pixelValueMode.toNat,
  .field smioL SmiL.length (uint32 len),
  .field smioA SmiA.addr addr.toNat] ++ smiStart

def programmedWriteSetup (cxt : SmiCxt) (addr : BitVec 8) (len : ℤ) : List RegOp := [
  .field smioCs SmiCs.aferr 0,
  .field smioCs SmiCs.seterr 1,
  .field smioCs SmiCs.done 1,
  .field smioCs SmiCs.enable 1,
  .field smioCs SmiCs.write 1,
  .field smioCs SmiCs.clear 1,
  .field smioCs SmiCs.pxldat 0,
  .field smioCs SmiCs.pad cxt.pad.toNat,
  .field smioCs SmiCs.prdy cxt.prdy.toNat,
  .field smioCs SmiCs.intr cxt.intr.toNat,
  .field smioCs SmiCs.intd cxt.intd.toNat,
  .field smioCs SmiCs.intt cxt.intt.toNat,
  .field smioL SmiL.length (uint32 len),
  .field smioA SmiA.addr addr.toNat] ++ smiStart

section Programmed

variable (env : Env σ) (fuel : ℕ)

/-- The last step of a programmed read; the packed branch unpacks every word whatever arrived. -/
def decodeRaw (cxt : SmiCxt) (words count : ℤ) : Drv σ Unit := fun w =>
  if cxt.pxldata then (do
    let _ ← smiUnpack cxt w.rawBuffer.buf (sizeT words)
    return ()) w
  else smiTruncate cxt w.rawBuffer.buf (sizeT count) w

def smiProgrammedReadArr (cxt : SmiCxt) (addr : BitVec 8) (len : ℤ) : Drv σ ℤ := do
  let ratio ← smiPackedRatio cxt
  let words := smiDivCeil (len*ratio.read) ratio.outPixels
  if ← growRawBuffer env words then
    regOps env (programmedReadSetup cxt addr len)
    let count ← smiReadAwait env fuel .rawBuffer words
    decodeRaw cxt words count
    return count
  return -1

def smiProgrammedRead (cxt : SmiCxt) (addr : BitVec 8) : Drv σ ℤ :=
  smiProgrammedReadArr env fuel cxt addr 1

def smiProgrammedWriteArr (cxt : SmiCxt) (data : Option (ℕ → Word)) (addr : BitVec 8)
    (len : ℤ) : Drv σ ℤ := do
  regOps env (programmedWriteSetup cxt addr len)
  smiWriteAwait env fuel data len

def smiProgrammedWrite (cxt : SmiCxt) (data : ℕ → Word) (addr : BitVec 8) : Drv σ ℤ :=
  smiProgrammedWriteArr env fuel cxt (some data) addr 1

end Programmed

def dmaWaitRsp : Word := 1 <<< 3
def dmaCbDestInc : Word := 1 <<< 4
def dmaDestDreq : Word := 1 <<< 6
def dmaCbSrceInc : Word := 1 <<< 8
def dmaSrceDreq : Word := 1 <<< 10
def dmaSmiDreq : Word := 4

def regBusAddrD (smiRegs : MemMap) : Word := smiRegs.bus.setWidth 32+0x0c

def memBusAddr (mp : MemMap) (a : BitVec 64) : Word :=
  a.setWidth 32-mp.virt.setWidth 32+mp.bus.setWidth 32

def programmedWriteDmaSetup (cxt : SmiCxt) (addr : BitVec 8) (len : ℤ) : List RegOp := [
  .field smioCs SmiCs.clear 1,
  .field smioCs SmiCs.enable 1,
  .field smioCs SmiCs.pxldat cxt.pxldata.toNat,
  .field smioCs SmiCs.write 1,
  .field smioA SmiA.addr addr.toNat,
  .field smioL SmiL.length (uint32 len),
  .field smioDc SmiDc.dmaen 1,
  .field smioDc SmiDc.panicw cxt.dmaConfig.panicw.toNat,
  .field smioDc SmiDc.reqw cxt.dmaConfig.reqw.toNat]

def programmedReadDmaSetup (cxt : SmiCxt) (addr : BitVec 8) (len : ℤ) : List RegOp := [
  .field smioCs SmiCs.clear 1,
  .field smioCs SmiCs.enable 1,
  .field smioCs SmiCs.pxldat cxt.pxldata.toNat,
  .field smioCs SmiCs.pvmode 0,
  .field smioCs SmiCs.pad 0,
  .field smioCs SmiCs.write 0,
  .field smioA SmiA.addr addr.toNat,
  .field smioL SmiL.length (uint32 len),
  .field smioDc SmiDc.dmaen 1,
  .field smioDc SmiDc.panicr cxt.dmaConfig.panicr.toNat,
  .field smioDc SmiDc.reqr cxt.dmaConfig.reqr.toNat]

section DMA

variable (env : Env σ) (fuel : ℕ)

def World.synced (env : Env σ) (fd : ℤ) (w : World σ) : World σ :=
  { w with dev := env.writeSync fd w.dev, log := w.log ++ [.sync fd] }

/-- `sync_for_cpu`, which only the 64-bit build calls. -/
def syncForCpu (fd : ℤ) : Drv σ Unit := fun w =>
  (some (),if env.arm64 then w.synced env fd else w)

def World.withCb (c : DmaCb) (w : World σ) : World σ :=
  { w with cb := c, log := w.log ++ [.control c] }

def modifyCb (f : DmaCb → DmaCb) : Drv σ Unit := fun w => (some (),w.withCb (f w.cb))

theorem modifyCb_run (f : DmaCb → DmaCb) (w : World σ) :
    modifyCb f w = (some (),w.withCb (f w.cb)) := rfl

/-- `channel` is a `uint8_t` here and an `int` at the callers. -/
def startDma (cb : BitVec 64) (channel : BitVec 8) (fdSyncCpu : ℤ) : Drv σ ℤ := do
  if cb = 0 then
    error "CB Null Pointer"
    return -1
  if 14 < channel.toNat then
    error "Channel out of range"
    return -1
  syncForCpu env fdSyncCpu
  if ← readField env (dmaCsOffset channel.toNat) DmaCs.active then
    error "DMA already active"
    return -1
  writeReg env (dmaCtrlBlk channel.toNat) (cb.setWidth 32)
  setField env (dmaCsOffset channel.toNat) DmaCs.active 1
  return 0

/-- `none` and a zero address are the null pointers that the first check catches. -/
def smiProgrammedWriteDma (cxt? : Option SmiCxt) (cb : BitVec 64) (addr : BitVec 8)
    (len channel : ℤ) : Drv σ ℤ :=
  match cxt? with
  | none => return -1
  | some cxt => do
    if cb = 0 then return -1
    match cxt.smiRegs with
    | none => return -1
    | some smiRegs =>
      modifyCb fun c => { c with
        ti := dmaDestDreq ||| dmaSmiDreq <<< 16 ||| dmaCbSrceInc
        destAddr := regBusAddrD smiRegs
        tfrLen := BitVec.ofInt 32 (len*4)
        nextCb := 0
        stride := 0 }
      regOps env (programmedWriteDmaSetup cxt addr len)
      regOps env smiStart
      let _ ← startDma env ((memBusAddr cxt.dmaBuffer cb).setWidth 64) (BitVec.ofInt 8 channel)
        cxt.fdSyncCpu
      smiDmaAwait env fuel

def smiProgrammedReadDma (cxt? : Option SmiCxt) (cb : BitVec 64) (addr : BitVec 8)
    (len channel : ℤ) : Drv σ ℤ :=
  match cxt? with
  | none => return -1
  | some cxt => do
    if cb = 0 then return -1
    match cxt.smiRegs with
    | none => return -1
    | some smiRegs =>
      let ratio ← smiPackedRatio cxt
      let words := smiDivCeil (len*ratio.read) ratio.outPixels
      modifyCb fun c => { c with
        ti := dmaSrceDreq ||| dmaSmiDreq <<< 16 ||| dmaCbDestInc ||| dmaWaitRsp
        srcAddr := regBusAddrD smiRegs
        tfrLen := BitVec.ofInt 32 (words*4)
        nextCb := 0
        stride := 0 }
      regOps env (programmedReadDmaSetup cxt addr len)
      let _ ← startDma env ((memBusAddr cxt.dmaBuffer cb).setWidth 64) (BitVec.ofInt 8 channel)
        cxt.fdSyncCpu
      regOps env smiStart
      smiDmaAwait env fuel

end DMA

end RpiSmi
