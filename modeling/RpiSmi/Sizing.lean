import RpiSmi.CheckedInt
import RpiSmi.DmaLength
import RpiSmi.RawBuffer

/-!
# How transfers are sized

Elsewhere an `int` is taken to be unbounded. Here the lengths are computed with
the overflow of every operation: of the reads in `int`, of the raw buffer in
`size_t`. No call looks at a length before it computes with it.
-/

namespace RpiSmi

open Exec CheckedInt BitField

variable {σ : Type}

/-- `SMI_DIV_CEIL((len * ratio.read), ratio.out_pixels)`, as both reads compute it. -/
def wordReads? (r : PackRatio) (len : ℤ) : Option ℤ := do
  let a ← signed 32 (len*r.read)
  divCeil 32 a r.outPixels

def smiDmaL? (l : ℤ) : Option ℤ := signed 32 (l*4)

/-- `word_reads` and `tfr_len` of a read by DMA. -/
def dmaLength? (r : PackRatio) (len : ℤ) : Option (ℤ × ℤ) := do
  let words ← wordReads? r len
  let bytes ← smiDmaL? words
  return (words,bytes)

section Lengths

variable {r : PackRatio} (hr : 0 < r.outPixels) (len : ℕ)

include hr

theorem wordReads?_eq : wordReads? r len =
    if (len : ℤ)*r.read+r.outPixels < 2^31 then some (r.words len : ℤ) else none := by
  by_cases ha : ((len*r.read : ℕ) : ℤ) < 2^31
  · have hs : signed 32 ((len*r.read : ℕ) : ℤ) = some ((len*r.read : ℕ) : ℤ) :=
      signed_of_lt (by omega) ha
    rw [wordReads?,← Int.natCast_mul,hs,Option.bind_eq_bind,Option.bind_some]
    exact divCeil_natCast (len*r.read) hr
  · have hs : signed 32 ((len*r.read : ℕ) : ℤ) = none := signed_of_ge (not_lt.mp ha)
    rw [wordReads?,← Int.natCast_mul,hs,if_neg (by omega)]
    rfl

theorem words_lt_iff (n : ℕ) : r.words len < n+1 ↔ len*r.read ≤ r.outPixels*n := by
  rw [Nat.lt_succ_iff]
  exact ceilDiv_le_iff_le_mul hr

theorem dmaLength?_eq : dmaLength? r len =
    if (len : ℤ)*r.read+r.outPixels < 2^31 ∧ len*r.read ≤ r.outPixels*(2^29-1) then
      some ((r.words len : ℤ),(r.words len : ℤ)*4) else none := by
  have hlt := words_lt_iff hr len (2^29-1)
  rw [dmaLength?,wordReads?_eq hr]
  by_cases ha : (len : ℤ)*r.read+r.outPixels < 2^31
  · rw [if_pos ha,Option.bind_eq_bind,Option.bind_some,smiDmaL?]
    by_cases hw : r.words len < 2^29
    · have hs : signed 32 ((r.words len : ℤ)*4) = some ((r.words len : ℤ)*4) :=
        signed_of_lt (by omega) (by omega)
      rw [hs,if_pos ⟨ha,hlt.mp hw⟩]
      rfl
    · have hs : signed 32 ((r.words len : ℤ)*4) = none := signed_of_ge (by omega)
      rw [hs,if_neg fun h => hw (hlt.mpr h.2)]
      rfl
  · rw [if_neg ha,if_neg fun h => ha h.1]
    rfl

end Lengths

/-- What the code computes without overflow is what the transfers use. -/
theorem wordReads?_wordReads {cxt : SmiCxt} {len : ℕ} {words : ℤ}
    (h : wordReads? (packedRatio cxt) len = some words) : words = wordReads cxt len := by
  rw [wordReads?_eq (outPixels_pos cxt)] at h
  split_ifs at h
  cases h
  rw [wordReads_words (Int.natCast_nonneg len),Int.toNat_natCast]

def Event.Changes : Event → Prop
  | .write _ _ => True
  | .control _ => True
  | _ => False

/-- A call from an empty log has returned an error and changed nothing. -/
structure TurnedDown (x : Option ℤ × World σ) : Prop where
  code : ∃ r < 0, x.1 = some r
  unchanged : ∀ e ∈ x.2.log, ¬ e.Changes

section Calls

variable (cxt : SmiCxt) (len : ℕ)

/-- The fewest words that hold the pixels, without overflow. -/
def SizedRead : Prop := ∃ n : ℕ, wordReads? (packedRatio cxt) len = some (n : ℤ) ∧
  IsLeast {n | len*(packedRatio cxt).read ≤ (packedRatio cxt).outPixels*n} n

/-- The same, and their bytes without overflow. -/
def SizedDma : Prop := ∃ n : ℕ, dmaLength? (packedRatio cxt) len = some ((n : ℤ),(n : ℤ)*4) ∧
  IsLeast {n | len*(packedRatio cxt).read ≤ (packedRatio cxt).outPixels*n} n

def ReadTurnsDown : Prop := ∀ (σ : Type) (env : Env σ) (fuel : ℕ) (addr : BitVec 8) (w : World σ),
  TurnedDown (smiProgrammedReadArr env fuel cxt addr len w.fresh)

def DmaTurnsDown : Prop := ∀ (σ : Type) (env : Env σ) (fuel : ℕ) (cb : BitVec 64)
  (addr : BitVec 8) (channel : ℤ) (w : World σ), cb ≠ 0 →
    TurnedDown (smiProgrammedReadDma env fuel (some cxt) cb addr len channel w.fresh)

/-- A resize that is accepted has asked for four bytes a word, and one that is not has changed
nothing. -/
def SizedResize : Prop := ∀ (σ : Type) (env : Env σ) (w : World (σ × Heap)) (code : ℤ)
  (w' : World (σ × Heap)), smiResizeRawBuffer env.withHeap len w = (some code,w') →
    (code = smiOk → w'.heap.Live (len*4)) ∧ (code ≠ smiOk → code < 0 ∧ Untouched w w')

end Calls

section Conditions

variable (cxt : SmiCxt) (len : ℕ)

theorem isLeast_words : IsLeast {n | len*(packedRatio cxt).read ≤ (packedRatio cxt).outPixels*n}
    ((packedRatio cxt).words len) :=
  isLeast_ceilDiv _ (outPixels_pos cxt)

theorem sizedRead_iff : SizedRead cxt len ↔
    (len : ℤ)*(packedRatio cxt).read+(packedRatio cxt).outPixels < 2^31 := by
  have heq := wordReads?_eq (outPixels_pos cxt) len
  constructor
  · rintro ⟨n,hn,-⟩
    by_contra hlt
    rw [heq,if_neg hlt] at hn
    cases hn
  · intro hlt
    exact ⟨_,heq.trans (if_pos hlt),isLeast_words cxt len⟩

theorem sizedDma_iff : SizedDma cxt len ↔
    (len : ℤ)*(packedRatio cxt).read+(packedRatio cxt).outPixels < 2^31 ∧
      len*(packedRatio cxt).read ≤ (packedRatio cxt).outPixels*(2^29-1) := by
  have heq := dmaLength?_eq (outPixels_pos cxt) len
  constructor
  · rintro ⟨n,hn,-⟩
    by_contra hlt
    rw [heq,if_neg hlt] at hn
    cases hn
  · intro hlt
    exact ⟨_,heq.trans (if_pos hlt),isLeast_words cxt len⟩

theorem readEntry_writes {env : Env σ} {addr : BitVec 8} {w w₁ : World σ}
    (he : readEntry env cxt addr len w = some w₁) : ∃ r v, .write r v ∈ w₁.log := by
  unfold readEntry at he
  split at he
  case h_1 v hg =>
    cases he
    have hops : ∀ op ∈ programmedReadSetup cxt addr len,
        op.In (fun _ => True) (fun _ _ => True) := by
      rintro (_ | _) _ <;> trivial
    refine ⟨smioA,SmiA.device.set cxt.rwConfig.readDeviceNum.toNat (v.value env smioA),?_⟩
    refine ((logGrows_steps env).apply (fun op hop => hops op (List.mem_cons_of_mem _ hop)) _).mem
      (w := v.assign env smioA SmiA.device cxt.rwConfig.readDeviceNum.toNat) ?_
    simp [World.assign,World.write,World.read,World.value]
  case h_2 => cases he

theorem logGrows_callSteps (env : Env σ) :
    CallSteps env (fun _ => True) (fun _ _ => True) LogGrows where
  toStepsIn := logGrows_steps env
  storeTo p _ _ _ := by cases p <;> exact List.prefix_append _ _
  output _ _ := List.prefix_rfl
  realloc _ _ _ := List.prefix_rfl
  sync _ _ := List.prefix_append _ _
  control _ _ := List.prefix_append _ _

/-- No length is turned down: a raw buffer that can grow lets the call reach its registers. -/
theorem readTurnsDown_never : ¬ ReadTurnsDown cxt len := by
  intro h
  let w := (World.init (([] : List Word),0)).fresh
  obtain ⟨w₁,he,-⟩ := fifoEnv_readEntry cxt 0 len (show w.dev = ([],0) from rfl)
  obtain ⟨r,v,hmem⟩ := readEntry_writes cxt len he
  have hsteps := logGrows_callSteps fifoEnv
  have hawait := keeps_smiReadAwait hsteps.toStepsIn 0 (wordReads cxt len) fun _ _ => trivial
  have hdecode (count : ℤ) : Keeps LogGrows (decodeRaw cxt (wordReads cxt len) count >>= fun _ =>
      pure count : Drv (List Word × ℕ) ℤ) := keeps_then_pure (keeps_decodeRaw hsteps cxt _ _) _
  have hgrows := keeps_bind hawait hdecode w₁
  have hunchanged := (h _ fifoEnv 0 0 (World.init ([],0))).unchanged (.write r v)
  rw [smiProgrammedReadArr_run he 0] at hunchanged
  exact hunchanged (LogGrows.mem hgrows hmem) trivial

theorem dmaTurnsDown_iff : DmaTurnsDown cxt len ↔ cxt.smiRegs = none := by
  constructor
  · intro h
    by_contra hregs
    have hn : ¬ DmaCall.HasNull ⟨.read,cxt,1,0,len,0⟩ := by
      rintro (hcb | hnone)
      · exact absurd hcb (show (1 : BitVec 64) ≠ 0 by decide)
      · exact hregs hnone
    exact (h _ fifoEnv 0 1 0 0 (World.init ([],0)) (by decide)).unchanged _
      (DmaCall.control_mem hn 0) trivial
  · intro hregs σ env fuel cb addr channel w _
    rw [smiProgrammedReadDma_null (.inr hregs)]
    exact ⟨⟨-1,by decide,rfl⟩,by simp [World.fresh]⟩

theorem sizedResize_iff : SizedResize len ↔ len < 2^62 := by
  constructor
  · intro h
    by_contra hlt
    have hpos : len ≠ 0 := by omega
    obtain ⟨b,hb,hbytes,-⟩ := (h _ fifoEnv (World.init (([],0),.none)) smiOk _
      (by simp only [smiResizeRawBuffer,hpos,if_false]; rfl)).1 rfl
    cases hb
    have heq : len*4%2^64 = len*4 := by simpa [Heap.realloc,Heap.none] using hbytes
    have hmod := Nat.mod_lt (len*4) (show 0 < 2^64 by decide)
    omega
  · intro hlt σ env w code w' h
    have hbytes : len*4 < 2^64 := by omega
    unfold smiResizeRawBuffer at h
    by_cases hzero : len = 0
    · rw [if_pos hzero] at h
      cases h
      exact ⟨fun hok => absurd hok (by decide),fun _ => ⟨by decide,rfl,rfl⟩⟩
    · rw [if_neg hzero] at h
      rcases hr : env.withHeap.realloc (len*4%2^64) w.dev with ⟨_ | junk,s⟩ <;> rw [hr] at h <;>
        cases h
      · exact ⟨fun hok => absurd hok (by decide),fun _ => ⟨by decide,rfl,
          heap_of_refused (Nat.pos_of_ne_zero hzero) hbytes hr⟩⟩
      · rw [Nat.mod_eq_of_lt hbytes] at hr
        refine ⟨fun _ => ?_,fun hne => absurd rfl hne⟩
        show s.2.Live (len*4)
        rw [heap_of_granted hr]
        exact Heap.realloc_live _ _

end Conditions

/-- The lengths that every call sizes without a wrap. None is turned down for its size. -/
theorem sizing_iff (cxt : SmiCxt) (len size : ℕ) :
    (SizedRead cxt len ∨ ReadTurnsDown cxt len ↔
      (len : ℤ)*(packedRatio cxt).read+(packedRatio cxt).outPixels < 2^31) ∧
    (SizedDma cxt len ∨ DmaTurnsDown cxt len ↔
      (len : ℤ)*(packedRatio cxt).read+(packedRatio cxt).outPixels < 2^31 ∧
        len*(packedRatio cxt).read ≤ (packedRatio cxt).outPixels*(2^29-1) ∨
      cxt.smiRegs = none) ∧
    (SizedResize size ↔ size < 2^62) := by
  refine ⟨?_,?_,sizedResize_iff size⟩
  · rw [or_iff_left (readTurnsDown_never cxt len),sizedRead_iff]
  · rw [sizedDma_iff,dmaTurnsDown_iff]

/-- One pixel a word: adding the divisor to the largest length overflows. -/
theorem sizing_wraps : ¬ ∀ (cxt : SmiCxt) (len : ℕ), len < 2^31 →
    SizedRead cxt len ∨ ReadTurnsDown cxt len := by
  intro h
  rcases h (deviceCxt 0 false false false) (2^31-1) (by decide) with hsized | hturned
  · exact absurd ((sizedRead_iff _ _).mp hsized) (by decide)
  · exact readTurnsDown_never _ _ hturned

end RpiSmi
