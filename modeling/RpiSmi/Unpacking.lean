import RpiSmi.ShiftNet
import RpiSmi.PixelExpansion
import RpiSmi.ReadBuffer

/-!
# The unpackers as shift-and-mask networks

Every unpacker is one loop over groups of words, and what a group gives is a
family of networks over its words. What holds of the eleven unpackers is then a
finite fact about their networks and the laws of such loops.
-/

namespace RpiSmi

open Exec Elements ShiftNet

def part (k n : ℕ) (m : Word) : Net 32 := .mask (.shr (.input k) n) m

def netsRgb565W8 : List (Net 32) := [part 0 8 0xFF,part 0 0 0xFF,part 0 24 0xFF,part 0 16 0xFF]

def netsXrgbW8 : List (Net 32) := [part 0 16 0xFF,part 0 8 0xFF,part 0 0 0xFF]

def netsXrgbW9 : List (Net 32) :=
  [.or (part 0 13 0x7) (part 0 15 0x1F8),.or (part 0 2 0x3F) (part 0 4 0x1C0)]

def highW9 (b : Net 32) : Net 32 :=
  .or (.or (.mask (.shl b 1) 0x1F0) (.mask (.shr b 2) 0x8)) (.mask b 0x7)

def lowW9 (b : Net 32) : Net 32 := .or (.shl b 1) (.mask (.shr b 7) 0x1)

def netsRgb565W9 : List (Net 32) := [highW9 (part 0 8 0xFF),lowW9 (part 0 0 0xFF),
  highW9 (part 0 24 0xFF),lowW9 (part 0 16 0xFF)]

def netsRgb565W9Swap : List (Net 32) := [lowW9 (part 0 0 0xFF),highW9 (part 0 8 0xFF),
  lowW9 (part 0 16 0xFF),highW9 (part 0 24 0xFF)]

def netsXrgbW16 : List (Net 32) := [part 0 8 0xFFFF,
  .or (.mask (.shl (.input 0) 8) 0xFF00) (part 1 16 0x00FF),.mask (.input 1) 0xFFFF]

def netsRgb565W16 : List (Net 32) := [part 0 0 0xFFFF,part 0 16 0xFFFF]

def netsXrgbW18 : List (Net 32) :=
  [.or (.or (part 0 2 0x3F) (part 0 4 0xFC0)) (part 0 6 0x3F000)]

def expandNet (e : Net 32) : Net 32 :=
  .or (.or (.mask (.shl e 2) 0x3E000) (.mask (.shr e 3) 0x1000)) (.mask (.shl e 1) 0xFFE)

def netsRgb565W18 : List (Net 32) := [expandNet (part 0 0 0xFFFF),expandNet (part 0 16 0xFFFF)]

def swapNet (n : ℕ) (m m' : Word) (e : Net 32) : Net 32 :=
  .or (.shl (.mask e m) n) (.shr (.mask e m') n)

def reverseNet (e : Net 32) : Net 32 :=
  swapNet 8 0x000FF 0x3FC00 (swapNet 4 0x00F0F 0x0F0F0
    (swapNet 2 0x03333 0x0CCCC (swapNet 1 0x15555 0x2AAAA e)))

def netsRgb565W18Swap : List (Net 32) :=
  [expandNet (reverseNet (part 0 0 0xFFFF)),expandNet (reverseNet (part 0 16 0xFFFF))]

def unpackNets : Width → Format → Bool → List (Net 32)
  | .w8, .rgb565, _ => netsRgb565W8
  | .w8, .xrgb, _ => netsXrgbW8
  | .w9, .rgb565, false => netsRgb565W9
  | .w9, .rgb565, true => netsRgb565W9Swap
  | .w9, .xrgb, false => netsXrgbW9
  | .w9, .xrgb, true => netsXrgbW9.reverse
  | .w16, .rgb565, _ => netsRgb565W16
  | .w16, .xrgb, _ => netsXrgbW16
  | .w18, .rgb565, false => netsRgb565W18
  | .w18, .rgb565, true => netsRgb565W18Swap
  | .w18, .xrgb, _ => netsXrgbW18

theorem length_unpackNets (width : Width) (format : Format) (swap : Bool) :
    (unpackNets width format swap).length = (PackRatio.table width format).outPixels := by
  cases width <;> cases format <;> cases swap <;> rfl

theorem table_read_pos (width : Width) (format : Format) :
    0 < (PackRatio.table width format).read := by
  cases width <;> cases format <;> decide

theorem unpacker_groups (raw : ℕ → Word) (count : ℕ) (width : Width) (format : Format)
    (swap : Bool) (m : Bytes) :
    unpacker raw count width format swap m =
      putAll (elemSize width) (groups (unpackNets width format swap)
          (PackRatio.table width format).read raw (count/(PackRatio.table width format).read))
        0 m := by
  rw [groups,← fill_eq]
  cases width <;> cases format <;> cases swap
  case w16.xrgb.false | w16.xrgb.true => rfl
  all_goals
    simp only [PackRatio.table,Nat.div_one,group_one]
    rfl

def widthBits : Width → ℕ
  | .w8 => 8
  | .w9 => 9
  | .w16 => 16
  | .w18 => 18

theorem unpackNets_below (width : Width) (format : Format) (swap : Bool) :
    ∀ e ∈ unpackNets width format swap, e.Below (widthBits width) := by
  cases width <;> cases format <;> cases swap <;> decide

theorem unpackNets_within (width : Width) (format : Format) (swap : Bool) :
    ∀ e ∈ unpackNets width format swap, e.Within (PackRatio.table width format).read := by
  cases width <;> cases format <;> cases swap <;> decide

theorem widthBits_le (width : Width) : widthBits width ≤ 8*elemSize width := by
  cases width <;> decide

theorem fits_of_lt {width : Width} {v : Word} (h : v.toNat < 2^widthBits width) :
    Fits (elemSize width) v := by
  calc v.toNat < 2^widthBits width := h
    _ ≤ 2^(8*elemSize width) := Nat.pow_le_pow_right (by decide) (widthBits_le width)
    _ = 256^elemSize width := by rw [Nat.pow_mul]

def payloadMask : Width → Format → Word
  | _, .rgb565 => 0xFFFFFFFF
  | .w8, .xrgb => 0x00FFFFFF
  | .w16, .xrgb => 0x00FFFFFF
  | .w9, .xrgb => 0x00FCFCFC
  | .w18, .xrgb => 0x00FCFCFC

theorem unpackNets_lossless (width : Width) (format : Format) :
    Lossless (PackRatio.table width format).read (payloadMask width format)
      (unpackNets width format false) := by
  cases width <;> cases format <;> decide +kernel

/-- What an unpacker leaves in its output, whatever was there before. -/
theorem loads_unpacker (raw : ℕ → Word) (count : ℕ) (width : Width) (format : Format)
    (swap : Bool) (m : Bytes) {n : ℕ} (hn : n = count/(PackRatio.table width format).read*
      (PackRatio.table width format).outPixels) :
    loads (elemSize width) n (unpacker raw count width format swap m) =
      groups (unpackNets width format swap) (PackRatio.table width format).read raw
        (count/(PackRatio.table width format).read) := by
  have hlen : (groups (unpackNets width format swap) (PackRatio.table width format).read raw
      (count/(PackRatio.table width format).read)).length = n := by
    rw [length_groups,length_unpackNets,hn]
  rw [unpacker_groups,← hlen]
  exact loads_putAll (fun v hv => fits_of_lt (groups_lt (unpackNets_below _ _ _) v hv)) m

theorem cut16_eq_pairUp : (bs : List Word) → cut16 bs = pairUp 8 bs
  | [] => rfl
  | [_] => rfl
  | a::b::bs => by rw [cut16,pairUp,cut16_eq_pairUp bs]

theorem rgb565_widths_alike : AlikeAll (pairNets 8 netsRgb565W8) netsRgb565W16 := by decide

/-- The middle sample of two words is made of the last byte of the first and of the first byte of
the second. -/
theorem xrgb_bytes_alike :
    AlikeAll (pairNets 8 (netsXrgbW8 ++ netsXrgbW8.map (Net.later 1))) netsXrgbW16 := by decide

theorem xrgb_widths_alike : AlikeAll (pairNets 9 netsXrgbW9) netsXrgbW18 := by decide

/-- Bytes in twos are the 16-bit samples, and 9-bit samples in twos the 18-bit samples. -/
theorem unpackers_agree (raw : ℕ → Word) (count n : ℕ) (m m' : Bytes) :
    cut16 (loads 1 (4*count) (smiUnpackRgb565W8 raw count m)) =
      loads 2 (2*count) (smiUnpackRgb565W16 raw count m') ∧
    cut16 (loads 1 (3*(2*n)) (smiUnpackXrgbW8 raw (2*n) m)) =
      loads 2 (3*n) (smiUnpackXrgbW16 raw (2*n) m') ∧
    joinPairs (loads 2 (2*count) (smiUnpackXrgbW9 raw count m)) =
      loads 4 count (smiUnpackXrgbW18 raw count m') := by
  refine ⟨?_,?_,?_⟩
  · have hbytes := loads_unpacker raw count .w8 .rgb565 false m (n := 4*count)
      (by simp [PackRatio.table,Nat.mul_comm])
    have hwords := loads_unpacker raw count .w16 .rgb565 false m' (n := 2*count)
      (by simp [PackRatio.table,Nat.mul_comm])
    simp only [elemSize,unpacker,PackRatio.table,Nat.div_one,unpackNets] at hbytes hwords
    rw [hbytes,hwords,cut16_eq_pairUp,pairUp_groups _ _ _ _ _ rfl]
    exact rgb565_widths_alike.groups_eq
  · have hbytes := loads_unpacker raw (2*n) .w8 .xrgb false m (n := 3*(2*n))
      (by simp [PackRatio.table,Nat.mul_comm])
    have hwords := loads_unpacker raw (2*n) .w16 .xrgb false m' (n := 3*n)
      (by simp [PackRatio.table,Nat.mul_comm])
    simp only [elemSize,unpacker,PackRatio.table,Nat.div_one,unpackNets,
      Nat.mul_div_cancel_left n Nat.two_pos] at hbytes hwords
    rw [hbytes,hwords,cut16_eq_pairUp,groups_twice,pairUp_groups _ _ _ _ _ rfl]
    exact xrgb_bytes_alike.groups_eq
  · have hhalves := loads_unpacker raw count .w9 .xrgb false m (n := 2*count)
      (by simp [PackRatio.table,Nat.mul_comm])
    have hwords := loads_unpacker raw count .w18 .xrgb false m' (n := count)
      (by simp [PackRatio.table])
    simp only [elemSize,unpacker,PackRatio.table,Nat.div_one,unpackNets] at hhalves hwords
    rw [hhalves,hwords,joinPairs_eq_pairUp,pairUp_groups _ _ _ _ _ rfl]
    exact xrgb_widths_alike.groups_eq

theorem group_index_lt {r n i k : ℕ} (hi : i < n) (hk : k < r) : r*i+k < r*n := by
  calc r*i+k < r*i+r := by omega
    _ = r*(i+1) := by rw [Nat.mul_succ]
    _ ≤ r*n := Nat.mul_le_mul_left r hi

theorem map_mask_eq_iff {ws ws' : List Word} {r n : ℕ} (hws : ws.length = r*n)
    (hws' : ws'.length = r*n) (m : Word) :
    ws.map (· &&& m) = ws'.map (· &&& m) ↔
      ∀ i < n, ∀ k < r, ws.getD (r*i+k) 0 &&& m = ws'.getD (r*i+k) 0 &&& m := by
  constructor
  · intro h i hi k hk
    have hlt := group_index_lt hi hk
    have hget := congrArg (fun l : List Word => l.getD (r*i+k) 0) h
    simpa [List.getD,hws,hws',hlt] using hget
  · intro h
    apply List.ext_getElem (by simp [hws,hws'])
    intro j hj hj'
    simp only [List.length_map] at hj hj'
    have hr : 0 < r := Nat.pos_of_ne_zero fun h₀ => by simp [h₀] at hws; simp [hws] at hj
    have hget := h (j/r) (Nat.div_lt_of_lt_mul (hws ▸ hj)) (j%r) (Nat.mod_lt j hr)
    rw [Nat.div_add_mod] at hget
    simpa [List.getD,hj,hj'] using hget

section Unpacked

variable {σ : Type}

/-- The samples that unpacking a buffer leaves at the base of `ret_data`. -/
def unpacked (cxt : SmiCxt) (width : Width) (ws : List Word) (w : World σ) : List Word :=
  loads (elemSize width) (ws.length/(PackRatio.table width (.ofFlag cxt.wformat)).read*
      (PackRatio.table width (.ofFlag cxt.wformat)).outPixels)
    (smiUnpack cxt (fun i => ws.getD i 0) ws.length w).2.retData

variable {cxt : SmiCxt} {width : Width}

theorem smiUnpack_run (hw : Width.ofCode cxt.rwidth = some width) (raw : ℕ → Word) (count : ℕ)
    (w : World σ) :
    smiUnpack cxt raw count w = (some smiOk,{ w with
      retData := unpacker raw count width (.ofFlag cxt.wformat) cxt.wswap w.retData }) := by
  simp only [smiUnpack,hw]
  exact bind_run (modifyRet_run _ w) _

theorem unpacked_eq (hw : Width.ofCode cxt.rwidth = some width) (ws : List Word) (w : World σ) :
    unpacked cxt width ws w = groups (unpackNets width (.ofFlag cxt.wformat) cxt.wswap)
      (PackRatio.table width (.ofFlag cxt.wformat)).read (fun i => ws.getD i 0)
      (ws.length/(PackRatio.table width (.ofFlag cxt.wformat)).read) := by
  rw [unpacked,smiUnpack_run hw]
  exact loads_unpacker _ _ _ _ _ _ rfl

/-- Samples without the swap tell apart exactly the buffers that differ on the payload. -/
theorem smiUnpack_lossless (hw : Width.ofCode cxt.rwidth = some width) (hs : cxt.wswap = false)
    {ws ws' : List Word} (hlen : ws.length = ws'.length)
    (hd : (PackRatio.table width (.ofFlag cxt.wformat)).read ∣ ws.length) (w w' : World σ) :
    (unpacked cxt width ws w = unpacked cxt width ws' w' ↔
      ws.map (· &&& payloadMask width (.ofFlag cxt.wformat)) =
        ws'.map (· &&& payloadMask width (.ofFlag cxt.wformat))) ∧
    ∀ v ∈ unpacked cxt width ws w, v.toNat < 2^widthBits width := by
  obtain ⟨n,hn⟩ := hd
  have hcount : (PackRatio.table width (.ofFlag cxt.wformat)).read*n/
      (PackRatio.table width (.ofFlag cxt.wformat)).read = n :=
    Nat.mul_div_cancel_left n (table_read_pos width _)
  rw [unpacked_eq hw,unpacked_eq hw,hs,← hlen,hn,hcount]
  refine ⟨?_,groups_lt (unpackNets_below width _ _)⟩
  rw [(unpackNets_lossless width _).groups_eq_iff,map_mask_eq_iff hn (hlen ▸ hn)]

theorem smiUnpack_lossless_xrgb :
    (unpacked (deviceCxt 1 true false true) .w16 [0x1A2B3C,0xFF4D5E6F] (World.init ()) =
        unpacked (deviceCxt 1 true false true) .w16 [0xEE1A2B3C,0x4D5E6F] (World.init ()) ↔
      ([0x1A2B3C,0xFF4D5E6F] : List Word).map (· &&& payloadMask .w16 .xrgb) =
        [0xEE1A2B3C,0x4D5E6F].map (· &&& payloadMask .w16 .xrgb)) ∧
    ∀ v ∈ unpacked (deviceCxt 1 true false true) .w16 [0x1A2B3C,0xFF4D5E6F] (World.init ()),
      v.toNat < 2^widthBits .w16 :=
  smiUnpack_lossless (by decide) rfl rfl ⟨1,rfl⟩ (World.init ()) (World.init ())

/-- Whole groups of words give as many samples as the ratio table says, from the base of the
output, and a buffer can be unpacked in chunks of whole groups. -/
theorem smiUnpack_chunks (hw : Width.ofCode cxt.rwidth = some width) (hp : cxt.pxldata = true) :
    (∀ (raw : ℕ → Word) (n : ℕ) (w : World σ), (packedRatio cxt).read ∣ n → ∃ vs : List Word,
      vs.length = n*(packedRatio cxt).outPixels/(packedRatio cxt).read ∧
      (∀ v ∈ vs, Fits (elemSize width) v) ∧
      smiUnpack cxt raw n w =
        (some smiOk,{ w with retData := putAll (elemSize width) vs 0 w.retData })) ∧
    ∀ (a b : List Word) (w : World σ), (packedRatio cxt).read ∣ a.length →
      unpacked cxt width (a ++ b) w = unpacked cxt width a w ++ unpacked cxt width b w := by
  rw [packedRatio_eq hw,if_pos hp]
  have hread := table_read_pos width (.ofFlag cxt.wformat)
  constructor
  · rintro raw _ w ⟨n,rfl⟩
    refine ⟨_,?_,fun v hv => fits_of_lt (groups_lt (unpackNets_below width _ _) v hv),by
      rw [smiUnpack_run hw,unpacker_groups]⟩
    rw [length_groups,length_unpackNets,Nat.mul_div_cancel_left n hread,Nat.mul_assoc,
      Nat.mul_div_cancel_left _ hread]
  · rintro a b w ⟨m,hm⟩
    have hwithin := unpackNets_within width (.ofFlag cxt.wformat) cxt.wswap
    have hcount : (a ++ b).length/(PackRatio.table width (.ofFlag cxt.wformat)).read =
        m+b.length/(PackRatio.table width (.ofFlag cxt.wformat)).read := by
      rw [List.length_append,hm,Nat.mul_add_div hread]
    rw [unpacked_eq hw,unpacked_eq hw,unpacked_eq hw,hcount,groups_add,hm,
      Nat.mul_div_cancel_left m hread]
    congr 1
    · refine groups_congr hwithin fun i hi k hk => ?_
      have hlt : (PackRatio.table width (.ofFlag cxt.wformat)).read*i+k < a.length := by
        rw [hm]
        exact group_index_lt hi hk
      simp only [List.getD,List.getElem?_append_left hlt]
    · refine groups_congr hwithin fun i _ k _ => ?_
      simp only [List.getD,← hm,List.getElem?_append_right (Nat.le_add_right _ _),
        Nat.add_sub_cancel_left]

/-- An odd number of words at 16 bits after a pair. -/
theorem smiUnpack_chunks_xrgb :
    unpacked (deviceCxt 1 true false true) .w16 ([0x1A2B3C,0x4D5E6F] ++ [1,2,3]) (World.init ()) =
      unpacked (deviceCxt 1 true false true) .w16 [0x1A2B3C,0x4D5E6F] (World.init ()) ++
        unpacked (deviceCxt 1 true false true) .w16 [1,2,3] (World.init ()) :=
  (smiUnpack_chunks (by decide) rfl).2 _ _ (World.init ()) ⟨1,rfl⟩

end Unpacked

end RpiSmi
