import RpiSmi.Machine

/-!
# Unpackers and truncators

Each unpacker is a counted loop whose round turns FIFO words into a group of
samples and stores them at `dst`. `samples` is what the loops store, as a list.
-/

namespace RpiSmi

open Exec Elements

def groupRgb565W8 (word : Word) : List Word :=
  let b1 := (word >>> 0) &&& 0xFF
  let b0 := (word >>> 8) &&& 0xFF
  let b3 := (word >>> 16) &&& 0xFF
  let b2 := (word >>> 24) &&& 0xFF
  [b0,b1,b2,b3]

def groupXrgbW8 (word : Word) : List Word :=
  let b2 := (word >>> 0) &&& 0xFF
  let b1 := (word >>> 8) &&& 0xFF
  let b0 := (word >>> 16) &&& 0xFF
  [b0,b1,b2]

def groupXrgbW9 (word : Word) : List Word :=
  let d0 := ((word >>> 13) &&& 0x7) ||| ((word >>> 15) &&& 0x1F8)
  let d1 := ((word >>> 2) &&& 0x3F) ||| ((word >>> 4) &&& 0x1C0)
  [d0,d1]

def groupXrgbW9Swap (word : Word) : List Word :=
  let d0 := ((word >>> 2) &&& 0x3F) ||| ((word >>> 4) &&& 0x1C0)
  let d1 := ((word >>> 13) &&& 0x7) ||| ((word >>> 15) &&& 0x1F8)
  [d0,d1]

def groupRgb565W9 (word : Word) : List Word :=
  let b0 := (word >>> 0) &&& 0xFF
  let b1 := (word >>> 8) &&& 0xFF
  let b2 := (word >>> 16) &&& 0xFF
  let b3 := (word >>> 24) &&& 0xFF
  let d1 := (b0 <<< 1) ||| ((b0 >>> 7) &&& 0x1)
  let d3 := (b2 <<< 1) ||| ((b2 >>> 7) &&& 0x1)
  let d0 := ((b1 <<< 1) &&& 0x1F0) ||| ((b1 >>> 2) &&& 0x8) ||| (b1 &&& 0x7)
  let d2 := ((b3 <<< 1) &&& 0x1F0) ||| ((b3 >>> 2) &&& 0x8) ||| (b3 &&& 0x7)
  [d0,d1,d2,d3]

def groupRgb565W9Swap (word : Word) : List Word :=
  match groupRgb565W9 word with
  | [d0,d1,d2,d3] => [d1,d0,d3,d2]
  | ds => ds

def groupXrgbW16 (word word2 : Word) : List Word :=
  let d0 := (word >>> 8) &&& 0xFFFF
  let d1 := ((word <<< 8) &&& 0xFF00) ||| ((word2 >>> 16) &&& 0x00FF)
  let d2 := word2 &&& 0xFFFF
  [d0,d1,d2]

def groupRgb565W16 (word : Word) : List Word :=
  let d0 := (word >>> 0) &&& 0xFFFF
  let d1 := (word >>> 16) &&& 0xFFFF
  [d0,d1]

def groupXrgbW18 (word : Word) : List Word :=
  [((word >>> 2) &&& 0x3F) ||| ((word >>> 4) &&& 0xFC0) ||| ((word >>> 6) &&& 0x3F000)]

def expand18 (w : Word) : Word :=
  ((w <<< 2) &&& 0x3E000) ||| ((w >>> 3) &&& 0x1000) ||| ((w <<< 1) &&& 0xFFE)

def groupRgb565W18 (word : Word) : List Word :=
  let w0 := (word >>> 0) &&& 0xFFFF
  let w1 := (word >>> 16) &&& 0xFFFF
  [expand18 w0,expand18 w1]

def reverse18 (v : Word) : Word :=
  let v := ((v &&& 0x15555) <<< 1) ||| ((v &&& 0x2AAAA) >>> 1)
  let v := ((v &&& 0x03333) <<< 2) ||| ((v &&& 0x0CCCC) >>> 2)
  let v := ((v &&& 0x00F0F) <<< 4) ||| ((v &&& 0x0F0F0) >>> 4)
  ((v &&& 0x000FF) <<< 8) ||| ((v &&& 0x3FC00) >>> 8)

def groupRgb565W18Swap (word : Word) : List Word :=
  let w0 := reverse18 ((word >>> 0) &&& 0xFFFF)
  let w1 := reverse18 ((word >>> 16) &&& 0xFFFF)
  [expand18 w0,expand18 w1]

section Loops

variable (raw : ℕ → Word) (count : ℕ)

def smiUnpackRgb565W8 : Bytes → Bytes := fill 1 (fun i => groupRgb565W8 (raw i)) count 0 0
def smiUnpackXrgbW8 : Bytes → Bytes := fill 1 (fun i => groupXrgbW8 (raw i)) count 0 0
def smiUnpackXrgbW9 : Bytes → Bytes := fill 2 (fun i => groupXrgbW9 (raw i)) count 0 0
def smiUnpackXrgbW9Swap : Bytes → Bytes := fill 2 (fun i => groupXrgbW9Swap (raw i)) count 0 0
def smiUnpackRgb565W9 : Bytes → Bytes := fill 2 (fun i => groupRgb565W9 (raw i)) count 0 0
def smiUnpackRgb565W9Swap : Bytes → Bytes := fill 2 (fun i => groupRgb565W9Swap (raw i)) count 0 0
/-- Words are taken in pairs; a last odd word is left. -/
def smiUnpackXrgbW16 : Bytes → Bytes :=
  fill 2 (fun i => groupXrgbW16 (raw (2*i)) (raw (2*i+1))) (count/2) 0 0
def smiUnpackRgb565W16 : Bytes → Bytes := fill 2 (fun i => groupRgb565W16 (raw i)) count 0 0
def smiUnpackXrgbW18 : Bytes → Bytes := fill 4 (fun i => groupXrgbW18 (raw i)) count 0 0
def smiUnpackRgb565W18 : Bytes → Bytes := fill 4 (fun i => groupRgb565W18 (raw i)) count 0 0
def smiUnpackRgb565W18Swap : Bytes → Bytes := fill 4 (fun i => groupRgb565W18Swap (raw i)) count 0 0

def smiTruncateW8 : Bytes → Bytes := fill 1 (fun i => [raw i &&& 0xFF]) count 0 0
def smiTruncateW9 : Bytes → Bytes := fill 2 (fun i => [raw i &&& 0x1FF]) count 0 0
def smiTruncateW16 : Bytes → Bytes := fill 2 (fun i => [raw i &&& 0xFFFF]) count 0 0
def smiTruncateW18 : Bytes → Bytes := fill 4 (fun i => [raw i &&& 0x3FFFF]) count 0 0

/-- The nested dispatch of `smi_unpack`. -/
def unpacker : Width → Format → Bool → Bytes → Bytes
  | .w8, .rgb565, _ => smiUnpackRgb565W8 raw count
  | .w8, .xrgb, _ => smiUnpackXrgbW8 raw count
  | .w9, .rgb565, false => smiUnpackRgb565W9 raw count
  | .w9, .rgb565, true => smiUnpackRgb565W9Swap raw count
  | .w9, .xrgb, false => smiUnpackXrgbW9 raw count
  | .w9, .xrgb, true => smiUnpackXrgbW9Swap raw count
  | .w16, .rgb565, _ => smiUnpackRgb565W16 raw count
  | .w16, .xrgb, _ => smiUnpackXrgbW16 raw count
  | .w18, .rgb565, false => smiUnpackRgb565W18 raw count
  | .w18, .rgb565, true => smiUnpackRgb565W18Swap raw count
  | .w18, .xrgb, _ => smiUnpackXrgbW18 raw count

def truncator : Width → Bytes → Bytes
  | .w8 => smiTruncateW8 raw count
  | .w9 => smiTruncateW9 raw count
  | .w16 => smiTruncateW16 raw count
  | .w18 => smiTruncateW18 raw count

end Loops

variable {σ : Type}

def modifyRet (f : Bytes → Bytes) : Drv σ Unit :=
  fun w => (some (),{ w with retData := f w.retData })

@[simp] theorem modifyRet_run (f : Bytes → Bytes) (w : World σ) :
    modifyRet f w = (some (),{ w with retData := f w.retData }) := rfl

def smiUnpack (cxt : SmiCxt) (raw : ℕ → Word) (count : ℕ) : Drv σ ℤ :=
  match Width.ofCode cxt.rwidth with
  | some width => do
    modifyRet (unpacker raw count width (.ofFlag cxt.wformat) cxt.wswap)
    pure smiOk
  | none => do
    error "Unknown interface configuration - could not unpack data"
    pure smiErrInvalidWidth

def smiTruncate (cxt : SmiCxt) (raw : ℕ → Word) (count : ℕ) : Drv σ Unit :=
  match Width.ofCode cxt.rwidth with
  | some width => modifyRet (truncator raw count width)
  | none => error "Unknown interface configuration - returning untruncated data"

end RpiSmi
