import RpiSmi.Registers

/-! Error codes, the transfer configuration, and the packing ratio it selects. -/

namespace RpiSmi

def smiOk : ℤ := 0
def smiErrNullPtr : ℤ := -2
def smiErrAllocFail : ℤ := -11
def smiErrBufToSmall : ℤ := -12
def smiErrTimeout : ℤ := -21
def smiErrInvalidWidth : ℤ := -31
def smiErrInvalidDevice : ℤ := -32
def eTimedOut : ℤ := 110

def progReadTimeoutS : ℕ := 50
def directReadTimeoutS : ℕ := 2
def progWriteTimeoutS : ℕ := 50

inductive Width
  | w8 | w16 | w18 | w9
  deriving DecidableEq, Repr

/-- The `case` labels of every switch on a width; other bytes reach the default. -/
def Width.ofCode (rwidth : BitVec 8) : Option Width :=
  if rwidth = 0 then some .w8
  else if rwidth = 1 then some .w16
  else if rwidth = 2 then some .w18
  else if rwidth = 3 then some .w9
  else none

/-- `wformat` is a `bool`, so a format is always one of the two. -/
inductive Format
  | rgb565 | xrgb
  deriving DecidableEq, Repr

def Format.ofFlag (wformat : Bool) : Format := if wformat then .xrgb else .rgb565

structure SmiRead where
  rwidth : BitVec 8
  rhold : BitVec 8
  rpace : BitVec 8
  rstrobe : BitVec 8
  rsetup : BitVec 8
  mode68 : Bool
  fsetup : Bool
  rpaceall : Bool
  rdreq : Bool
  deriving DecidableEq, Repr

structure SmiWrite where
  wwidth : BitVec 8
  wsetup : BitVec 8
  whold : BitVec 8
  wpace : BitVec 8
  wstrobe : BitVec 8
  wformat : Bool
  wswap : Bool
  wpaceall : Bool
  wdreq : Bool
  deriving DecidableEq, Repr

/-- Four configuration slots for each direction and the numbers of the devices in use. -/
structure SmiRw where
  writeDeviceNum : BitVec 8
  readDeviceNum : BitVec 8
  rconfig : Fin 4 → SmiRead
  wconfig : Fin 4 → SmiWrite

structure SmiDma where
  panicr : Bool
  panicw : Bool
  reqr : Bool
  reqw : Bool
  deriving DecidableEq, Repr

structure MemMap where
  bus : BitVec 64
  virt : BitVec 64
  deriving DecidableEq, Repr

/-- The context without its raw buffer, which calls change and `World` therefore holds. -/
structure SmiCxt where
  pixelValueMode : BitVec 8
  pad : Bool
  prdy : Bool
  pxldata : Bool
  intr : Bool
  intt : Bool
  intd : Bool
  fdSyncDev : ℤ
  fdSyncCpu : ℤ
  dmaConfig : SmiDma
  smiRegs : Option MemMap
  dmaBuffer : MemMap
  rwConfig : SmiRw

/-- `rconfig->rwidth`: the array decays to a pointer to its slot 0. -/
def SmiCxt.rwidth (cxt : SmiCxt) : BitVec 8 := (cxt.rwConfig.rconfig 0).rwidth
def SmiCxt.wformat (cxt : SmiCxt) : Bool := (cxt.rwConfig.wconfig 0).wformat
def SmiCxt.wswap (cxt : SmiCxt) : Bool := (cxt.rwConfig.wconfig 0).wswap

/-- FIFO words read for every `outPixels` samples. -/
structure PackRatio where
  read : ℕ
  outPixels : ℕ
  deriving DecidableEq, Repr

/-- The switch of `smi_packed_ratio`. -/
def PackRatio.table : Width → Format → PackRatio
  | .w8, .rgb565 => ⟨1,4⟩
  | .w8, .xrgb => ⟨1,3⟩
  | .w9, .rgb565 => ⟨1,4⟩
  | .w9, .xrgb => ⟨1,2⟩
  | .w16, .rgb565 => ⟨1,2⟩
  | .w16, .xrgb => ⟨2,3⟩
  | .w18, .rgb565 => ⟨1,2⟩
  | .w18, .xrgb => ⟨1,1⟩

/-- The value `smi_packed_ratio` returns; `none` where it reports an unknown configuration. -/
def packedRatio? (cxt : SmiCxt) : Option PackRatio :=
  if cxt.pxldata then (Width.ofCode cxt.rwidth).map (PackRatio.table · (.ofFlag cxt.wformat))
  else some ⟨1,1⟩

def packedRatio (cxt : SmiCxt) : PackRatio := (packedRatio? cxt).getD ⟨1,1⟩

/-- `SMI_DIV_CEIL`, with C's division on `int`. -/
def smiDivCeil (a b : ℤ) : ℤ := (a+b-1).tdiv b

/-- The FIFO words that a transfer of `len` samples is sized for. -/
def wordReads (cxt : SmiCxt) (len : ℤ) : ℤ :=
  smiDivCeil (len*(packedRatio cxt).read) (packedRatio cxt).outPixels

/-- An `int` converted to `size_t` on the 64-bit build. -/
def sizeT (i : ℤ) : ℕ := (i%2^64).toNat

def deviceCxt (rwidth : BitVec 8) (wformat wswap pxldata : Bool) : SmiCxt where
  pixelValueMode := 0
  pad := false
  prdy := false
  pxldata := pxldata
  intr := false
  intt := false
  intd := false
  fdSyncDev := 4
  fdSyncCpu := 3
  dmaConfig := ⟨false,false,false,false⟩
  smiRegs := some ⟨0x7e600000,0⟩
  dmaBuffer := ⟨0xc0000000,0⟩
  rwConfig := {
    writeDeviceNum := 0
    readDeviceNum := 0
    rconfig := fun _ => ⟨rwidth,0,0,0,0,false,false,false,false⟩
    wconfig := fun _ => ⟨0,0,0,0,0,wformat,wswap,false,false⟩ }

def secondDeviceCxt (rwidth : BitVec 8) : SmiCxt :=
  let cxt := deviceCxt 0 false false false
  { cxt with rwConfig := { cxt.rwConfig with
      readDeviceNum := 1
      writeDeviceNum := 1
      rconfig := Function.update cxt.rwConfig.rconfig 0 ⟨rwidth,0,0,0,0,false,false,false,false⟩ } }

end RpiSmi
