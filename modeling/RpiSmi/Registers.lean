import Mathlib.Algebra.Group.Int.Defs
import RpiSmi.BitField

/-!
# Register map

Registers are named by their byte offset from the SMI or the DMA block, so that
an out-of-range device number reaches whichever register lies there. Fields
follow the bit-field declarations of the header, least significant bit first.
-/

namespace RpiSmi

open BitField

inductive Reg
  | smi (off : ℕ)
  | dma (off : ℕ)
  deriving DecidableEq, Repr

def smioCs : Reg := .smi 0x00
def smioL : Reg := .smi 0x04
def smioA : Reg := .smi 0x08
def smioD : Reg := .smi 0x0c
def smioDsr (dev : ℕ) : Reg := .smi (0x10+dev*0x08)
def smioDsw (dev : ℕ) : Reg := .smi (0x10+dev*0x08+4)
def smioDc : Reg := .smi 0x30
def smioDcs : Reg := .smi 0x34
def smioDa : Reg := .smi 0x38
def smioDd : Reg := .smi 0x3c

@[simp] theorem smioDsr_inj {n m : ℕ} : smioDsr n = smioDsr m ↔ n = m := by
  rw [smioDsr,smioDsr,Reg.smi.injEq]
  omega
@[simp] theorem smioDsw_inj {n m : ℕ} : smioDsw n = smioDsw m ↔ n = m := by
  rw [smioDsw,smioDsw,Reg.smi.injEq]
  omega
@[simp] theorem smioDsw_ne_dsr (n m : ℕ) : smioDsw n ≠ smioDsr m := by
  simp [smioDsw,smioDsr]
  omega
@[simp] theorem smioDsr_ne_dsw (n m : ℕ) : smioDsr n ≠ smioDsw m := (smioDsw_ne_dsr m n).symm

@[simp] theorem smioDsr_ne_low {n off : ℕ} (h : off < 0x10) : smioDsr n ≠ .smi off := by
  simp [smioDsr]
  omega
@[simp] theorem smioDsw_ne_low {n off : ℕ} (h : off < 0x10) : smioDsw n ≠ .smi off := by
  simp [smioDsw]
  omega

@[simp] theorem low_ne_smioDsr {n off : ℕ} (h : off < 0x10) : .smi off ≠ smioDsr n :=
  (smioDsr_ne_low h).symm
@[simp] theorem low_ne_smioDsw {n off : ℕ} (h : off < 0x10) : .smi off ≠ smioDsw n :=
  (smioDsw_ne_low h).symm

@[simp] theorem high_ne_smioDsr {n off : ℕ} (hn : n < 4) (h : 0x30 ≤ off) :
    .smi off ≠ smioDsr n := by
  simp [smioDsr]
  omega
@[simp] theorem high_ne_smioDsw {n off : ℕ} (hn : n < 4) (h : 0x30 ≤ off) :
    .smi off ≠ smioDsw n := by
  simp [smioDsw]
  omega

def dmaCsOffset (c : ℕ) : Reg := .dma (c*0x100)
def dmaCtrlBlk (c : ℕ) : Reg := .dma (c*0x100+0x04)
def dmaoCs : Reg := .dma 0x0

namespace SmiCs
def enable : Field 32 := ⟨0,1,by decide⟩
def done : Field 32 := ⟨1,1,by decide⟩
def start : Field 32 := ⟨3,1,by decide⟩
def clear : Field 32 := ⟨4,1,by decide⟩
def write : Field 32 := ⟨5,1,by decide⟩
def pad : Field 32 := ⟨6,2,by decide⟩
def teen : Field 32 := ⟨8,1,by decide⟩
def intd : Field 32 := ⟨9,1,by decide⟩
def intt : Field 32 := ⟨10,1,by decide⟩
def intr : Field 32 := ⟨11,1,by decide⟩
def pvmode : Field 32 := ⟨12,1,by decide⟩
def seterr : Field 32 := ⟨13,1,by decide⟩
def pxldat : Field 32 := ⟨14,1,by decide⟩
def prdy : Field 32 := ⟨23,1,by decide⟩
def aferr : Field 32 := ⟨24,1,by decide⟩
def rxd : Field 32 := ⟨27,1,by decide⟩
def txd : Field 32 := ⟨28,1,by decide⟩
end SmiCs

namespace SmiL
def length : Field 32 := ⟨0,32,by decide⟩
end SmiL

namespace SmiA
def addr : Field 32 := ⟨0,6,by decide⟩
def device : Field 32 := ⟨8,2,by decide⟩
end SmiA

namespace SmiDc
def reqw : Field 32 := ⟨0,6,by decide⟩
def reqr : Field 32 := ⟨6,6,by decide⟩
def panicw : Field 32 := ⟨12,6,by decide⟩
def panicr : Field 32 := ⟨18,6,by decide⟩
def dmaen : Field 32 := ⟨28,1,by decide⟩
end SmiDc

namespace SmiDsr
def rstrobe : Field 32 := ⟨0,7,by decide⟩
def rdreq : Field 32 := ⟨7,1,by decide⟩
def rpace : Field 32 := ⟨8,7,by decide⟩
def rpaceall : Field 32 := ⟨15,1,by decide⟩
def rhold : Field 32 := ⟨16,6,by decide⟩
def fsetup : Field 32 := ⟨22,1,by decide⟩
def mode68 : Field 32 := ⟨23,1,by decide⟩
def rsetup : Field 32 := ⟨24,6,by decide⟩
def rwidth : Field 32 := ⟨30,2,by decide⟩
end SmiDsr

namespace SmiDsw
def wstrobe : Field 32 := ⟨0,7,by decide⟩
def wdreq : Field 32 := ⟨7,1,by decide⟩
def wpace : Field 32 := ⟨8,7,by decide⟩
def wpaceall : Field 32 := ⟨15,1,by decide⟩
def whold : Field 32 := ⟨16,6,by decide⟩
def wswap : Field 32 := ⟨22,1,by decide⟩
def wformat : Field 32 := ⟨23,1,by decide⟩
def wsetup : Field 32 := ⟨24,6,by decide⟩
def wwidth : Field 32 := ⟨30,2,by decide⟩
end SmiDsw

namespace SmiDcs
def enable : Field 32 := ⟨0,1,by decide⟩
def start : Field 32 := ⟨1,1,by decide⟩
def done : Field 32 := ⟨2,1,by decide⟩
def write : Field 32 := ⟨3,1,by decide⟩
end SmiDcs

namespace SmiDa
def addr : Field 32 := ⟨0,6,by decide⟩
end SmiDa

namespace SmiDd
def data : Field 32 := ⟨0,18,by decide⟩
end SmiDd

namespace DmaCs
def active : Field 32 := ⟨0,1,by decide⟩
def finish : Field 32 := ⟨1,1,by decide⟩
def abort : Field 32 := ⟨30,1,by decide⟩
end DmaCs

end RpiSmi
