import Mathlib.Tactic.Push
import RpiSmi.ProgrammedRead

/-!
# The caller's buffer after a programmed read

What `ret_data` holds is the sample list of the raw buffer, so that what becomes
of its tail and of its end is a comparison of that list's length with `len`.
-/

namespace RpiSmi

open Exec Elements

variable {σ : Type} {cxt : SmiCxt} {width : Width}

theorem packedRatio_eq (hw : Width.ofCode cxt.rwidth = some width) :
    packedRatio cxt =
      if cxt.pxldata then PackRatio.table width (.ofFlag cxt.wformat) else ⟨1,1⟩ := by
  rcases hp : cxt.pxldata <;> simp [packedRatio,packedRatio?,hp,hw]

theorem outPixels_pos (cxt : SmiCxt) : 0 < (packedRatio cxt).outPixels := by
  rcases hw : Width.ofCode cxt.rwidth with _ | width
  · rcases hp : cxt.pxldata <;> simp [packedRatio,packedRatio?,hp,hw]
  · rw [packedRatio_eq hw]
    split
    · cases width <;> cases Format.ofFlag cxt.wformat <;> decide
    · decide

theorem wordReads_natCast (cxt : SmiCxt) (len : ℕ) :
    wordReads cxt len = ((len*(packedRatio cxt).read+(packedRatio cxt).outPixels-1)/
      (packedRatio cxt).outPixels : ℕ) := by
  have h := outPixels_pos cxt
  rw [wordReads,smiDivCeil,Int.natCast_ediv,Int.tdiv_eq_ediv_of_nonneg (by
    have : (0 : ℤ) ≤ len*(packedRatio cxt).read := by positivity
    omega)]
  congr 1
  have hone : 1 ≤ len*(packedRatio cxt).read+(packedRatio cxt).outPixels := by omega
  push_cast [Nat.cast_sub hone]
  omega

/-- The sizing arithmetic of a read of `len` samples stays within `int`. -/
def SizeFits (cxt : SmiCxt) (len : ℕ) : Prop :=
  (len : ℤ)*(packedRatio cxt).read+(packedRatio cxt).outPixels < 2^31

theorem sizeT_natCast {n : ℕ} (h : n < 2^64) : sizeT n = n := by
  unfold sizeT
  omega

/-- The FIFO words of a read of `len` samples. -/
def wordCount (cxt : SmiCxt) (len : ℕ) : ℕ := (wordReads cxt len).toNat

theorem wordCount_eq (cxt : SmiCxt) (len : ℕ) :
    wordCount cxt len = (len*(packedRatio cxt).read+(packedRatio cxt).outPixels-1)/
      (packedRatio cxt).outPixels := by
  rw [wordCount,wordReads_natCast,Int.toNat_natCast]

theorem wordReads_eq (cxt : SmiCxt) (len : ℕ) : wordReads cxt len = wordCount cxt len := by
  rw [wordCount_eq,wordReads_natCast]

theorem SizeFits.wordCount_lt {len : ℕ} (h : SizeFits cxt len) : wordCount cxt len < 2^31 := by
  rw [wordCount_eq]
  refine lt_of_le_of_lt (Nat.div_le_self _ _) ?_
  have := outPixels_pos cxt
  unfold SizeFits at h
  omega

theorem length_storedSamples (cxt : SmiCxt) (width : Width) (ws : List Word) :
    (storedSamples cxt width ws).length = if cxt.pxldata then
      ws.length/(PackRatio.table width (.ofFlag cxt.wformat)).read*
        (PackRatio.table width (.ofFlag cxt.wformat)).outPixels
    else ws.length := by
  unfold storedSamples
  split
  · exact length_decoded _ _ _ _
  · exact List.length_map _

theorem decodeBytes_eq (hw : Width.ofCode cxt.rwidth = some width) (raw : ℕ → Word)
    (words count : ℤ) (m : Bytes) :
    decodeBytes cxt raw words count m = putAll (elemSize width) (storedSamples cxt width
      (firstWords raw (sizeT (if cxt.pxldata then words else count)))) 0 m := by
  rcases hp : cxt.pxldata <;> simp [decodeBytes,storedSamples,hw,hp,unpacker_eq,truncator_eq]

theorem length_firstWords (raw : ℕ → Word) (n : ℕ) : (firstWords raw n).length = n := by
  simp [firstWords]

theorem firstWords_overlay (ws : List Word) (buf : ℕ → Word) {n : ℕ} (h : ws.length ≤ n) :
    firstWords (overlay ws buf) n =
      ws ++ (List.range' ws.length (n-ws.length)).map buf := by
  apply List.ext_getElem?
  intro i
  by_cases hn : i < n
  · by_cases hi : i < ws.length
    · rw [List.getElem?_append_left hi]
      simp [firstWords,overlay,hn,hi]
    · rw [List.getElem?_append_right (by omega)]
      simp [firstWords,overlay,hn,Nat.not_lt.mp hi,show i-ws.length < n-ws.length by omega,
        show ws.length+(i-ws.length) = i by omega]
  · rw [List.getElem?_eq_none (by rw [length_firstWords]; omega),
      List.getElem?_eq_none (by simp; omega)]

theorem holds_iff {size : ℕ} (hs : 0 < size) {vs stream : List Word} (h : vs <+: stream) (i : ℕ) :
    (∃ v, stream[i]? = some v ∧ Holds size i v (putAll size vs 0 empty)) ↔ i < vs.length := by
  constructor
  · rintro ⟨v,-,hv⟩
    by_contra hi
    have hn := (putAll_none hs vs (size*i)).mpr (Nat.mul_le_mul_left _ (by omega))
    have h₀ := hv 0 hs
    rw [Nat.add_zero,hn] at h₀
    cases h₀
  · intro hi
    obtain ⟨rest,rfl⟩ := h
    have hv := List.getElem?_eq_getElem hi
    exact ⟨vs[i],by rw [List.getElem?_append_left hi,hv],putAll_holds hv⟩

/-- XRGB at 16 bits with one sample over whole groups of three: the unpacker takes words in pairs
and leaves the odd one. -/
def DropsTail (cxt : SmiCxt) (width : Width) (len : ℕ) : Prop :=
  cxt.pxldata = true ∧ width = .w16 ∧ Format.ofFlag cxt.wformat = .xrgb ∧ len%3 = 1

theorem le_stored_iff (hw : Width.ofCode cxt.rwidth = some width) (len : ℕ) {ws : List Word}
    (hl : ws.length = wordCount cxt len) :
    len ≤ (storedSamples cxt width ws).length ↔ ¬ DropsTail cxt width len := by
  rw [length_storedSamples,hl,wordCount_eq,packedRatio_eq hw]
  unfold DropsTail
  rcases hp : cxt.pxldata
  · simp
  · cases width <;> rcases hf : Format.ofFlag cxt.wformat <;> simp [PackRatio.table] <;> omega

/-- All words arrive: the call returns, and each requested sample is the one the words carry,
except where the unpacker drops the tail. -/
theorem smiProgrammedReadArr_samples_iff (env : Env σ) (hw : Width.ofCode cxt.rwidth = some width)
    (addr : BitVec 8) {len : ℕ} (hfit : SizeFits cxt len) (w : World σ)
    {w₁ : World σ} (he : readEntry env cxt addr len w.fresh = some w₁) {ws : List Word} {t : σ}
    (ha : Arrivals env (w₁.deadline env progReadTimeoutS) (wordCount cxt len) 0
      (w₁.clocked env).dev ws false t) :
    ∃ w', Ends (fun fuel => smiProgrammedReadArr env fuel cxt addr len) w.fresh
        (wordReads cxt len) w' ∧
      ((∀ i < len, ∃ v, (sampleStream cxt width ws)[i]? = some v ∧
        Holds (elemSize width) i v w'.retData) ↔ ¬ DropsTail cxt width len) := by
  obtain ⟨w',hend,hr⟩ := smiProgrammedReadArr_ends he ha
  have hcount : (wordReads cxt len).toNat = wordCount cxt len := rfl
  have hl := ha.length_eq
  simp only [Bool.false_eq_true,if_false,hcount,← wordReads_eq] at hend hr
  refine ⟨w',hend,?_⟩
  have hret : w'.retData = putAll (elemSize width) (storedSamples cxt width ws) 0 empty := by
    rw [hr,decodeBytes_eq hw,ite_self,wordReads_eq,sizeT_natCast (by
      have := hfit.wordCount_lt
      omega),firstWords_overlay _ _ hl.le,hl]
    simp
    rfl
  simp only [hret,holds_iff (elemSize_pos width) (storedSamples_begins cxt width ws)]
  rw [← le_stored_iff hw len hl]
  constructor
  · intro h
    by_contra hlt
    have := h (storedSamples cxt width ws).length (by omega)
    omega
  · intro h i hi
    omega

theorem smiProgrammedReadArr_samples_iff_pair :
    ∃ w', Ends (fun fuel =>
          smiProgrammedReadArr fifoEnv fuel (deviceCxt 1 false false true) 0 (2 : ℕ))
        (World.init ([0x12345678],0)).fresh (wordReads (deviceCxt 1 false false true) (2 : ℕ)) w' ∧
      ((∀ i < 2, ∃ v, (sampleStream (deviceCxt 1 false false true) .w16 [0x12345678])[i]? = some v ∧
        Holds 2 i v w'.retData) ↔ ¬ DropsTail (deviceCxt 1 false false true) .w16 2) :=
  smiProgrammedReadArr_samples_iff fifoEnv
    (by decide) 0 (by unfold SizeFits; decide) (World.init ([0x12345678],0)) rfl
    (fifoEnv_full _ [0x12345678] 1 0)

/-- One XRGB sample at 16 bits: a word is read, and nothing is stored. -/
theorem smiProgrammedReadArr_drops_tail : ¬ ∀ (w : World (List Word × ℕ)) (fuel : ℕ) r w',
    smiProgrammedReadArr fifoEnv fuel (deviceCxt 1 true false true) 0 (1 : ℕ) w.fresh =
      (some r,w') → ∀ i < 1, ∃ v, Holds 2 i v w'.retData := by
  intro h
  obtain ⟨v,hv⟩ := h (World.init ([0x123456],0)) 3 _ _ rfl 0 (by decide)
  have h₀ : (smiProgrammedReadArr fifoEnv 3 (deviceCxt 1 true false true) 0 (1 : ℕ)
      (World.init ([0x123456],0)).fresh).2.retData 0 = none := by decide
  have h₁ := h₀.symm.trans (hv 0 (by decide))
  cases h₁

/-- No byte at or past offset `4 * len` has been stored. -/
def NoOverrun (len : ℕ) (x : Option ℤ × World σ) : Prop := ∀ o, 4*len ≤ o → x.2.retData o = none

/-- What keeps the stores inside `len` 32-bit elements on every trace. Unpacked, a timed-out wait
returns 21, and that many elements are stored. -/
def RoomFor (cxt : SmiCxt) (width : Width) (len : ℕ) : Prop :=
  if cxt.pxldata then
    Format.ofFlag cxt.wformat = .rgb565 →
      (width = .w18 → len%2 = 0) ∧ (width = .w9 → len ≠ 1)
  else 21*elemSize width ≤ 4*len

theorem stored_le_iff (hw : Width.ofCode cxt.rwidth = some width) (hp : cxt.pxldata = true)
    {len : ℕ} (hlen : 1 ≤ len) {ws : List Word} (hl : ws.length = wordCount cxt len) :
    elemSize width*(storedSamples cxt width ws).length ≤ 4*len ↔ RoomFor cxt width len := by
  rw [length_storedSamples,hl,wordCount_eq,packedRatio_eq hw]
  unfold RoomFor
  cases width <;> rcases hf : Format.ofFlag cxt.wformat <;>
    simp [PackRatio.table,elemSize,hp] <;> omega

theorem noOverrun_iff (hw : Width.ofCode cxt.rwidth = some width) {len : ℕ} {raw : ℕ → Word}
    {words count : ℤ} {x : Option ℤ × World σ}
    (hx : x.2.retData = decodeBytes cxt raw words count empty) :
    NoOverrun len x ↔ elemSize width*(storedSamples cxt width
      (firstWords raw (sizeT (if cxt.pxldata then words else count)))).length ≤ 4*len := by
  unfold NoOverrun
  simp only [hx,decodeBytes_eq hw,putAll_none (elemSize_pos width)]
  constructor
  · intro h
    exact h _ le_rfl
  · intro h o ho
    omega

section Overrun

variable {addr : BitVec 8} {len : ℕ}

/-- On a trace, the last store lies within the caller's buffer or past it by arithmetic alone. -/
theorem noOverrun_trace (hw : Width.ofCode cxt.rwidth = some width) (hlen : 1 ≤ len)
    (hfit : SizeFits cxt len) {raw : ℕ → Word} {late : Bool} {x : Option ℤ × World σ}
    (hx : x.2.retData = decodeBytes cxt raw (wordReads cxt len)
      (if late then -smiErrTimeout else (wordReads cxt len).toNat) empty) :
    NoOverrun len x ↔ RoomFor cxt width len ∨ (cxt.pxldata = false ∧ late = false) := by
  have hlt := hfit.wordCount_lt
  rw [noOverrun_iff hw hx]
  rcases hp : cxt.pxldata
  · cases late with
    | true =>
      rw [length_storedSamples,hp]
      simp [length_firstWords,RoomFor,hp,smiErrTimeout,sizeT,Nat.mul_comm]
    | false =>
      have hn : wordCount cxt len = len := by
        rw [wordCount_eq,packedRatio_eq hw,hp]
        simp
      rw [length_storedSamples,hp]
      have he : elemSize width ≤ 4 := by cases width <;> decide
      have hm := Nat.mul_le_mul_right len he
      simp only [Bool.false_eq_true,if_false,length_firstWords,wordReads_eq,Int.toNat_natCast,hn,
        sizeT_natCast (show len < 2^64 by omega),and_self,or_true,iff_true]
      exact hm
  · rw [if_pos rfl,wordReads_eq,sizeT_natCast (by omega),
      stored_le_iff hw hp hlen (length_firstWords raw _)]
    simp

theorem programmedReadSetup_reg (cxt : SmiCxt) (addr : BitVec 8) (len : ℤ) :
    ∀ op ∈ programmedReadSetup cxt addr len, op.reg ≠ smioD := by
  simp [programmedReadSetup,smiStart,RegOp.reg,smioA,smioDsr,smioDsw,smioCs,smioL,smioD]
  omega

theorem fifoEnv_readEntry (cxt : SmiCxt) (addr : BitVec 8) (len : ℤ) {w : World (List Word × ℕ)}
    {words : List Word} (hd : w.dev = (words,0)) :
    ∃ w₁, readEntry fifoEnv cxt addr len w = some w₁ ∧
      w₁.deadline fifoEnv progReadTimeoutS = 50000000000 ∧
      (w₁.clocked fifoEnv).dev = (words,1) := by
  have hr : (ratioWorld cxt w).dev = (words,0) := (dev_ratioWorld cxt w).trans hd
  rcases hg : growRawBuffer fifoEnv (wordReads cxt len) (ratioWorld cxt w) with ⟨o,v⟩
  have ho : o = some true ∧ v.dev = (words,0) := by
    unfold growRawBuffer at hg
    split at hg <;> cases hg
    · exact ⟨rfl,hr⟩
    · exact ⟨rfl,hr⟩
  obtain ⟨rfl,hv⟩ := ho
  have hv₁ := (fifoEnv_apply _ (programmedReadSetup_reg cxt addr len) v).trans hv
  refine ⟨v.apply fifoEnv (programmedReadSetup cxt addr len),by simp [readEntry,hg],?_⟩
  generalize v.apply fifoEnv (programmedReadSetup cxt addr len) = u at hv₁
  simp [World.deadline,World.clocked,hv₁,fifoEnv,progReadTimeoutS]

/-- The tables leave room; or else the call stores nothing, or it is unpacked and its wait is not
cut short by the deadline. -/
def EndsInside (env : Env σ) (cxt : SmiCxt) (width : Width) (addr : BitVec 8) (len : ℕ)
    (w : World σ) : Prop :=
  RoomFor cxt width len ∨ ∀ w₁ ws late t, readEntry env cxt addr len w = some w₁ →
    Arrivals env (w₁.deadline env progReadTimeoutS) (wordCount cxt len) 0 (w₁.clocked env).dev
      ws late t → cxt.pxldata = false ∧ late = false

theorem noOverrun_run_iff (hw : Width.ofCode cxt.rwidth = some width) (hlen : 1 ≤ len)
    (hfit : SizeFits cxt len) (env : Env σ) (addr : BitVec 8) (w : World σ) :
    (∀ fuel, NoOverrun len (smiProgrammedReadArr env fuel cxt addr len w.fresh)) ↔
      EndsInside env cxt width addr len w.fresh := by
  constructor
  · intro h
    refine or_iff_not_imp_left.mpr fun hroom w₁ ws late t he ha => ?_
    obtain ⟨w',⟨N,hN⟩,hr⟩ := smiProgrammedReadArr_ends he ha
    have hx := h N
    rw [show smiProgrammedReadArr env N cxt addr len w.fresh = _ from hN N le_rfl] at hx
    exact ((noOverrun_trace hw hlen hfit hr).mp hx).resolve_left hroom
  · intro h fuel
    rcases smiProgrammedReadArr_retData (w := w.fresh) fuel with hr | ⟨w₁,ws,late,t,he,ha,hr⟩
    · intro o _
      rw [hr]
      rfl
    · exact (noOverrun_trace hw hlen hfit hr).mpr (h.imp_right fun h => h w₁ ws late t he ha)

theorem fifoEnv_endsInside (words : List Word) {ws : List Word} {late : Bool} {t : List Word × ℕ}
    (ha : Arrivals fifoEnv 50000000000 (wordCount cxt len) 0 (words,1) ws late t)
    (h : EndsInside fifoEnv cxt width addr len (World.init (words,0)).fresh) :
    RoomFor cxt width len ∨ (cxt.pxldata = false ∧ late = false) := by
  obtain ⟨w₁,he,hdl,hc⟩ := fifoEnv_readEntry cxt addr len (w := (World.init (words,0)).fresh) rfl
  exact h.imp_right fun h => h w₁ ws late t he (by rw [hdl,hc]; exact ha)

/-- All runs end inside exactly if the tables leave room. -/
theorem endsInside_always_iff (hw : Width.ofCode cxt.rwidth = some width) (addr : BitVec 8)
    (hlen : 1 ≤ len) :
    (∀ (σ : Type) (env : Env σ) (w : World σ), EndsInside env cxt width addr len w.fresh) ↔
    RoomFor cxt width len := by
  constructor
  · intro h
    rcases hp : cxt.pxldata
    · -- unpacked: a silent device
      have hn : wordCount cxt len = len := by
        rw [wordCount_eq,packedRatio_eq hw,hp]
        simp
      obtain ⟨t,ht⟩ := fifoEnv_short (show (50000000000 : ℤ) ≤ (1 : ℕ)*60000000000 by decide)
        (len-1) [] 0 fun _ => rfl
      have hl : ([] : List Word).length+(len-1)+1 = wordCount cxt len := by
        rw [hn,List.length_nil]
        omega
      rw [hl] at ht
      have hx := fifoEnv_endsInside [] ht (h _ fifoEnv (World.init ([],0)))
      simpa using hx
    · -- packed: all words are queued
      have ht := fifoEnv_full 50000000000 (List.replicate (wordCount cxt len) 0) 1 0
      rw [List.length_replicate] at ht
      have hx := fifoEnv_endsInside _ ht (h _ fifoEnv (World.init (_,0)))
      simpa [hp] using hx
  · exact fun h _ _ _ => .inl h

/-- A run of either entry point stays in the caller's buffer exactly when it ends inside, and all
runs do so exactly where the tables leave room. -/
theorem smiProgrammedReadArr_noOverrun_iff (hw : Width.ofCode cxt.rwidth = some width)
    (addr : BitVec 8) (hlen : 1 ≤ len) (hfit : SizeFits cxt len) :
    (∀ (σ : Type) (env : Env σ) (w : World σ),
      (∀ fuel, NoOverrun len (smiProgrammedReadArr env fuel cxt addr len w.fresh)) ↔
        EndsInside env cxt width addr len w.fresh) ∧
    (∀ (σ : Type) (env : Env σ) (w : World σ),
      (∀ fuel, NoOverrun 1 (smiProgrammedRead env fuel cxt addr w.fresh)) ↔
        EndsInside env cxt width addr 1 w.fresh) ∧
    ((∀ (σ : Type) (env : Env σ) (w : World σ) (fuel : ℕ),
        NoOverrun len (smiProgrammedReadArr env fuel cxt addr len w.fresh)) ↔
      RoomFor cxt width len) := by
  have hfit₁ : SizeFits cxt 1 := by
    unfold SizeFits
    rw [packedRatio_eq hw]
    cases width <;> cases Format.ofFlag cxt.wformat <;> cases cxt.pxldata <;> decide
  refine ⟨fun σ env w => noOverrun_run_iff hw hlen hfit env addr w,
    fun σ env w => noOverrun_run_iff hw le_rfl hfit₁ env addr w,?_⟩
  rw [← endsInside_always_iff hw addr hlen]
  exact forall₃_congr fun σ env w => noOverrun_run_iff hw hlen hfit env addr w

theorem smiProgrammedReadArr_noOverrun_iff_pair :
    (∀ (σ : Type) (env : Env σ) (w : World σ) (fuel : ℕ), NoOverrun 2
      (smiProgrammedReadArr env fuel (deviceCxt 2 false false true) 0 (2 : ℕ) w.fresh)) ↔
    RoomFor (deviceCxt 2 false false true) .w18 2 :=
  (smiProgrammedReadArr_noOverrun_iff (by decide) 0
    (by decide) (by unfold SizeFits; decide)).2.2

/-- One RGB565 sample at 18 bits: the word makes two, and the second lies past the buffer. -/
theorem smiProgrammedReadArr_overruns : ¬ ∀ (w : World (List Word × ℕ)) (fuel : ℕ), NoOverrun 1
    (smiProgrammedReadArr fifoEnv fuel (deviceCxt 2 false false true) 0 (1 : ℕ) w.fresh) := by
  intro h
  have h₀ := h (World.init ([0x12345678],0)) 3 4 (by decide)
  revert h₀
  decide

end Overrun

end RpiSmi
