import RpiSmi.NetInverse
import RpiSmi.Unpacking

/-!
# Packing

The FIFO words that carry a list of bus samples, for each width and format, are
what the unpackers undo: `pack` puts the samples into words and leaves the bits
that no sample carries clear. Samples survive when they are of the form that the
unpackers give, and then a programmed read hands them to the caller as they were.
-/

namespace RpiSmi

open Exec Elements ShiftNet

/-- All but the unpacker that the source marks as unimplemented. -/
def Reversible : Width → Format → Bool → Prop
  | .w18, .rgb565, swap => swap = false
  | _, _, _ => True

/-- The form of sample `p` of a group. Below the bus width, RGB565 repeats a bit of each sample at 9
bits; at 18 bits it repeats one and leaves one clear. -/
def sampleForm (width : Width) (format : Format) (swap : Bool) (p : ℕ) : Form where
  same := match width, format with
    | .w9, .rgb565 => if (p%2 == 0) != swap then [(6,3)] else [(8,0)]
    | .w18, .rgb565 => [(17,12)]
    | _, _ => []
  clear := (List.range' (widthBits width) (32-widthBits width)) ++ match width, format with
    | .w18, .rgb565 => [0]
    | _, _ => []

theorem unpackNets_reversible {width : Width} {format : Format} {swap : Bool}
    (h : Reversible width format swap) : Lossless (PackRatio.table width format).read
      (payloadMask width format) (unpackNets width format swap) ∧
    Formed (unpackNets width format swap) (sampleForm width format swap) := by
  cases width <;> cases format <;> cases swap
  case w18.rgb565.true => cases h
  all_goals decide +kernel

/-- The FIFO words of a list of samples. -/
def pack (width : Width) (format : Format) (swap : Bool) (vs : List Word) : List Word :=
  restoreAll (unpackNets width format swap) (PackRatio.table width format).read vs
    (vs.length/(PackRatio.table width format).outPixels)

theorem outPixels_table_pos (width : Width) (format : Format) :
    0 < (PackRatio.table width format).outPixels := by
  cases width <;> cases format <;> decide

theorem length_pack (width : Width) (format : Format) (swap : Bool) (vs : List Word) :
    (pack width format swap vs).length = (PackRatio.table width format).read*
      (vs.length/(PackRatio.table width format).outPixels) := by
  simp [pack,restoreAll]

section Unpacked

variable {σ : Type} {cxt : SmiCxt} {width : Width}

/-- Unpacking is a bijection: from the words of each length that are clear outside the payload onto
the sample lists of the right form, with packing as its inverse. -/
theorem smiUnpack_pack (hw : Width.ofCode cxt.rwidth = some width)
    (hr : Reversible width (.ofFlag cxt.wformat) cxt.wswap) :
    (∀ (ws : List Word) (w : World σ),
      (PackRatio.table width (.ofFlag cxt.wformat)).read ∣ ws.length →
        pack width (.ofFlag cxt.wformat) cxt.wswap (unpacked cxt width ws w) =
          ws.map (· &&& payloadMask width (.ofFlag cxt.wformat))) ∧
    ∀ (vs : List Word) (w : World σ),
      (PackRatio.table width (.ofFlag cxt.wformat)).outPixels ∣ vs.length →
        (unpacked cxt width (pack width (.ofFlag cxt.wformat) cxt.wswap vs) w = vs ↔
          ∀ q v, vs[q]? = some v → (sampleForm width (.ofFlag cxt.wformat) cxt.wswap
            (q%(PackRatio.table width (.ofFlag cxt.wformat)).outPixels)).Fits v) := by
  obtain ⟨hloss,hform⟩ := unpackNets_reversible hr
  have hread := table_read_pos width (.ofFlag cxt.wformat)
  have hout := outPixels_table_pos width (.ofFlag cxt.wformat)
  have hlen := length_unpackNets width (.ofFlag cxt.wformat) cxt.wswap
  constructor
  · rintro ws w ⟨n,hn⟩
    rw [unpacked_eq hw,hn,Nat.mul_div_cancel_left n hread,pack,length_groups,hlen,
      Nat.mul_div_cancel n hout,hloss.restoreAll_groups,← hn]
    apply List.ext_getElem (by simp)
    intro i hi hi'
    simp only [List.length_map] at hi'
    simp [List.getD,hi']
  · rintro vs w ⟨n,hn⟩
    have hcount : vs.length/(PackRatio.table width (.ofFlag cxt.wformat)).outPixels = n := by
      rw [hn,Nat.mul_div_cancel_left n hout]
    rw [unpacked_eq hw,length_pack,hcount,Nat.mul_div_cancel_left n hread,pack,hcount,← hlen]
    constructor
    · intro h q v hq
      rw [← h] at hq
      exact hform.groups_fits _ q hq
    · intro h
      exact hform.groups_restoreAll (unpackNets_within width _ _)
        (by rw [hlen,hn,Nat.mul_comm]) h

/-- A pair of XRGB words at 16 bits. -/
theorem smiUnpack_pack_xrgb :
    (∀ (ws : List Word) (w : World Unit), (PackRatio.table .w16 .xrgb).read ∣ ws.length →
        pack .w16 .xrgb false (unpacked (deviceCxt 1 true false true) .w16 ws w) =
          ws.map (· &&& payloadMask .w16 .xrgb)) ∧
    ∀ (vs : List Word) (w : World Unit), (PackRatio.table .w16 .xrgb).outPixels ∣ vs.length →
        (unpacked (deviceCxt 1 true false true) .w16 (pack .w16 .xrgb false vs) w = vs ↔
          ∀ q v, vs[q]? = some v →
            (sampleForm .w16 .xrgb false (q%(PackRatio.table .w16 .xrgb).outPixels)).Fits v) :=
  have hw : Width.ofCode (deviceCxt 1 true false true).rwidth = some .w16 := by decide
  smiUnpack_pack hw trivial

theorem unpacker_pack {format : Format} {swap : Bool} (hr : Reversible width format swap)
    {vs : List Word} (hd : (PackRatio.table width format).outPixels ∣ vs.length)
    (hv : ∀ q v, vs[q]? = some v →
      (sampleForm width format swap (q%(PackRatio.table width format).outPixels)).Fits v)
    (buf : ℕ → Word) (m : Bytes) :
    unpacker (overlay (pack width format swap vs) buf) (pack width format swap vs).length width
      format swap m = putAll (elemSize width) vs 0 m := by
  obtain ⟨n,hn⟩ := hd
  have hread := table_read_pos width format
  have hcount : vs.length/(PackRatio.table width format).outPixels = n := by
    rw [hn,Nat.mul_div_cancel_left n (outPixels_table_pos width format)]
  rw [unpacker_groups,length_pack,hcount,Nat.mul_div_cancel_left n hread]
  congr 1
  have hfront : groups (unpackNets width format swap) (PackRatio.table width format).read
      (overlay (pack width format swap vs) buf) n =
      groups (unpackNets width format swap) (PackRatio.table width format).read
        (fun i => (pack width format swap vs).getD i 0) n := by
    refine groups_congr (unpackNets_within width format swap) fun i hi k hk => ?_
    have hlt : (PackRatio.table width format).read*i+k < (pack width format swap vs).length := by
      rw [length_pack,hcount]
      exact group_index_lt hi hk
    simp only [overlay,List.getD,List.getElem?_eq_getElem hlt,Option.getD_some]
  rw [hfront,pack,hcount]
  refine (unpackNets_reversible hr).2.groups_restoreAll (unpackNets_within width _ _) ?_ ?_
  · rw [length_unpackNets,hn,Nat.mul_comm]
  · rw [length_unpackNets]
    exact hv

/-- A programmed read of words into which the samples on the bus were packed: the caller gets these
samples and no others, `len` of them at least. -/
theorem smiProgrammedReadArr_packed (env : Env σ) (hw : Width.ofCode cxt.rwidth = some width)
    (hp : cxt.pxldata = true) (hr : Reversible width (.ofFlag cxt.wformat) cxt.wswap)
    (addr : BitVec 8) {len : ℕ} (hfit : SizeFits cxt len) (w : World σ) {w₁ : World σ}
    (he : readEntry env cxt addr len w.fresh = some w₁) {vs : List Word}
    (hd : (PackRatio.table width (.ofFlag cxt.wformat)).outPixels ∣ vs.length)
    (hv : ∀ q v, vs[q]? = some v → (sampleForm width (.ofFlag cxt.wformat) cxt.wswap
      (q%(PackRatio.table width (.ofFlag cxt.wformat)).outPixels)).Fits v) {t : σ}
    (ha : Arrivals env (w₁.deadline env progReadTimeoutS) (wordCount cxt len) 0
      (w₁.clocked env).dev (pack width (.ofFlag cxt.wformat) cxt.wswap vs) false t) :
    ∃ w', Ends (fun fuel => smiProgrammedReadArr env fuel cxt addr len) w.fresh
        (wordReads cxt len) w' ∧
      w'.retData = putAll (elemSize width) vs 0 empty ∧ len ≤ vs.length := by
  obtain ⟨w',hend,hret⟩ := smiProgrammedReadArr_ends he ha
  have hl := ha.length_eq
  have hcount : ((wordReads cxt len).toNat : ℤ) = wordReads cxt len := (wordReads_eq cxt len).symm
  simp only [Bool.false_eq_true,if_false,hcount] at hend hret
  refine ⟨w',hend,?_,?_⟩
  · have hsize : sizeT (wordReads cxt len) =
        (pack width (.ofFlag cxt.wformat) cxt.wswap vs).length := by
      have := hfit.wordCount_lt
      rw [hl,wordReads_eq,sizeT_natCast (by omega)]
    simp only [decodeBytes,hw,hp,if_true,hsize] at hret
    rw [hret,unpacker_pack hr hd hv]
    rfl
  · obtain ⟨n,hn⟩ := hd
    have hread := table_read_pos width (.ofFlag cxt.wformat)
    have hout := outPixels_table_pos width (.ofFlag cxt.wformat)
    rw [length_pack,hn,Nat.mul_div_cancel_left n hout,wordCount_eq,packedRatio_eq hw,
      if_pos hp] at hl
    rw [hn]
    generalize (PackRatio.table width (.ofFlag cxt.wformat)).read = a at hl hread
    generalize (PackRatio.table width (.ofFlag cxt.wformat)).outPixels = b at hl hout ⊢
    have hle : len*a ≤ b*(a*n) := by
      have hdiv := Nat.div_add_mod (len*a+b-1) b
      have hmod := Nat.mod_lt (len*a+b-1) hout
      rw [← hl] at hdiv
      omega
    exact Nat.le_of_mul_le_mul_right (by rw [Nat.mul_assoc,Nat.mul_comm n]; exact hle) hread

/-- Three 16-bit samples over two XRGB words. -/
theorem smiProgrammedReadArr_packed_xrgb : ∃ w', Ends (fun fuel =>
      smiProgrammedReadArr fifoEnv fuel (deviceCxt 1 true false true) 0 (3 : ℕ))
      (World.init (pack .w16 .xrgb false [0x1A2B,0x3C4D,0x5E6F],0)).fresh
      (wordReads (deviceCxt 1 true false true) (3 : ℕ)) w' ∧
    w'.retData = putAll 2 [0x1A2B,0x3C4D,0x5E6F] 0 empty ∧ 3 ≤ 3 :=
  have hw : Width.ofCode (deviceCxt 1 true false true).rwidth = some .w16 := by decide
  have hfit : SizeFits (deviceCxt 1 true false true) 3 := by unfold SizeFits; decide
  have hv : ∀ q v, ([0x1A2B,0x3C4D,0x5E6F] : List Word)[q]? = some v →
      (sampleForm .w16 .xrgb false (q%(PackRatio.table .w16 .xrgb).outPixels)).Fits v := by
    intro q v hq
    match q with
    | 0 | 1 | 2 => cases hq; decide +kernel
    | q+3 => cases hq
  smiProgrammedReadArr_packed fifoEnv hw rfl trivial 0 hfit
    (World.init (pack .w16 .xrgb false [0x1A2B,0x3C4D,0x5E6F],0)) rfl (by decide) hv
    (fifoEnv_full _ (pack .w16 .xrgb false [0x1A2B,0x3C4D,0x5E6F]) 1 0)

end Unpacked
end RpiSmi
