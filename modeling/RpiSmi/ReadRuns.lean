import RpiSmi.InvalidWidth

/-!
# Two runs of a programmed read

First two runs from raw buffers with different contents, then two runs with
contexts that differ in the slots of devices the read does not concern.
-/

namespace RpiSmi

open Exec Elements BitField

variable {σ : Type} {env : Env σ} {cxt : SmiCxt} {addr : BitVec 8} {len : ℤ}

def World.refill (b : ℕ → Word) (w : World σ) : World σ := { w with rawBuffer.buf := b }

theorem refill_apply (env : Env σ) (ops : List RegOp) (b : ℕ → Word) (w : World σ) :
    (w.refill b).apply env ops = (w.apply env ops).refill b := by
  induction ops generalizing w with
  | nil => rfl
  | cons op ops ih =>
    cases op with
    | field r f v => exact ih (w.assign env r f v)
    | value r v => exact ih (w.write env r v)

theorem refill_ratioWorld (b : ℕ → Word) (w : World σ) :
    ratioWorld cxt (w.refill b) = (ratioWorld cxt w).refill b := by
  unfold ratioWorld
  split <;> rfl

/-- A grown buffer keeps agreement, since what it adds does not depend on what it held. -/
theorem growRawBuffer_refill {words : ℤ} {w v : World σ} {b₁ : ℕ → Word} (b₂ : ℕ → Word)
    (h : growRawBuffer env words (w.refill b₁) = (some true,v)) :
    ∃ b, growRawBuffer env words (w.refill b₂) = (some true,v.refill b) ∧
      ∀ i, b₁ i = b₂ i → v.rawBuffer.buf i = b i := by
  unfold growRawBuffer at *
  by_cases hs : w.rawBuffer.size < sizeT words
  · have hs' (b : ℕ → Word) : (w.refill b).rawBuffer.size < sizeT words := hs
    rw [if_pos (hs' _)] at h
    rw [if_pos (hs' _)]
    rcases hm : env.realloc (sizeT words*4%2^64) w.dev with ⟨_ | junk,s⟩
    · simp only [World.refill,hm] at h
      cases h
    · simp only [World.refill,hm] at h ⊢
      cases h
      refine ⟨_,rfl,fun i hi => ?_⟩
      simp only [RawBuf.resize,hi]
  · have hs' (b : ℕ → Word) : ¬ (w.refill b).rawBuffer.size < sizeT words := hs
    rw [if_neg (hs' _)] at h
    rw [if_neg (hs' _)]
    cases h
    exact ⟨b₂,rfl,fun i hi => hi⟩

theorem readEntry_refill {w v : World σ} {b₁ : ℕ → Word} (b₂ : ℕ → Word)
    (he : readEntry env cxt addr len (w.refill b₁) = some v) :
    ∃ b, readEntry env cxt addr len (w.refill b₂) = some (v.refill b) ∧
      ∀ i, b₁ i = b₂ i → v.rawBuffer.buf i = b i := by
  unfold readEntry at *
  rw [refill_ratioWorld] at *
  split at he
  case h_1 u hg =>
    cases he
    obtain ⟨b,hb,hi⟩ := growRawBuffer_refill b₂ hg
    refine ⟨b,by rw [hb]; exact congrArg some (refill_apply env _ _ _),?_⟩
    have hbuf := congrArg (fun m => m.rawBuffer.buf)
      (memory_apply env u (programmedReadSetup cxt addr len))
    exact fun i h => (congrFun hbuf i).trans (hi i h)
  case h_2 => cases he

theorem firstWords_congr {a b : ℕ → Word} {n : ℕ} (h : ∀ i < n, a i = b i) :
    firstWords a n = firstWords b n := by
  unfold firstWords
  exact List.map_congr_left fun i hi => h i (List.mem_range.mp hi)

theorem decodeBytes_congr {a b : ℕ → Word} {words count : ℤ} {m : Bytes}
    (h : ∀ i < sizeT (if cxt.pxldata then words else count), a i = b i) :
    decodeBytes cxt a words count m = decodeBytes cxt b words count m := by
  rcases hw : Width.ofCode cxt.rwidth with _ | width
  · simp [decodeBytes,hw]
  · rw [decodeBytes_eq hw,decodeBytes_eq hw,firstWords_congr h]

/-- Two runs on one trace. When all words arrive the caller's bytes do not depend on what the raw
buffer held. When they do not, a packed read decodes the words received over the old contents, so
the runs agree if the contents do from the last word received on. -/
theorem smiProgrammedReadArr_two_runs (w : World σ) (b₁ b₂ : ℕ → Word) {v : World σ}
    (he : readEntry env cxt addr len (w.fresh.refill b₁) = some v) {ws : List Word} {late : Bool}
    {t : σ} (ha : Arrivals env (v.deadline env progReadTimeoutS) (wordReads cxt len).toNat 0
      (v.clocked env).dev ws late t) :
    ∃ r w₁ w₂,
      Ends (fun fuel => smiProgrammedReadArr env fuel cxt addr len) (w.fresh.refill b₁) r w₁ ∧
      Ends (fun fuel => smiProgrammedReadArr env fuel cxt addr len) (w.fresh.refill b₂) r w₂ ∧
      (late = false → 0 ≤ wordReads cxt len → wordReads cxt len < 2^64 →
        w₁.retData = w₂.retData) ∧
      (cxt.pxldata = true → w₁.retData = decodeBytes cxt (overlay ws v.rawBuffer.buf)
          (wordReads cxt len) r empty ∧
        ((∀ i, ws.length ≤ i → i < sizeT (wordReads cxt len) → b₁ i = b₂ i) →
          w₁.retData = w₂.retData)) := by
  obtain ⟨b,he₂,hb⟩ := readEntry_refill b₂ he
  obtain ⟨w₁,h₁,hr₁⟩ := smiProgrammedReadArr_ends he ha
  obtain ⟨w₂,h₂,hr₂⟩ := smiProgrammedReadArr_ends he₂ (t := t) ha
  refine ⟨_,w₁,w₂,h₁,h₂,fun hl h₀ h₆₄ => ?_,fun hp => ⟨hr₁,fun hagree => ?_⟩⟩
  · subst hl
    have hn : sizeT (wordReads cxt len) = ws.length := by
      rw [ha.length_eq,sizeT]
      omega
    have hn' : sizeT (wordReads cxt len).toNat = ws.length := by
      rw [Int.toNat_of_nonneg h₀,hn]
    rw [hr₁,hr₂]
    refine decodeBytes_congr fun i hi => ?_
    have hlt : i < ws.length := by
      simp only [Bool.false_eq_true,if_false] at hi
      split at hi
      · rwa [hn] at hi
      · rwa [hn'] at hi
    simp [overlay,hlt]
  · rw [hr₁,hr₂]
    refine decodeBytes_congr fun i hi => ?_
    rw [if_pos hp] at hi
    by_cases hlt : i < ws.length
    · simp [overlay,hlt]
    · simp only [overlay,List.getElem?_eq_none (Nat.not_lt.mp hlt)]
      exact hb i (hagree i (Nat.not_lt.mp hlt) hi)

theorem smiProgrammedReadArr_two_runs_queued :
    ∃ r w₁ w₂,
      Ends (fun fuel => smiProgrammedReadArr fifoEnv fuel (deviceCxt 0 false false true) 0 1)
        ((World.init ([7],0)).fresh.refill fun _ => 0) r w₁ ∧
      Ends (fun fuel => smiProgrammedReadArr fifoEnv fuel (deviceCxt 0 false false true) 0 1)
        ((World.init ([7],0)).fresh.refill fun _ => 1) r w₂ ∧ w₁.retData = w₂.retData := by
  obtain ⟨r,w₁,w₂,h₁,h₂,h,-⟩ := smiProgrammedReadArr_two_runs (World.init ([7],0)) (fun _ => 0)
    (fun _ => 1) (show readEntry fifoEnv (deviceCxt 0 false false true) 0 1
      ((World.init ([7],0)).fresh.refill fun _ => 0) = some _ from rfl) (fifoEnv_full _ [7] 1 0)
  exact ⟨r,w₁,w₂,h₁,h₂,h rfl (by decide) (by decide)⟩

/-- A silent device and an 8-bit packed read of one sample: the caller gets the old raw buffer. -/
theorem smiProgrammedReadArr_leaks : ¬ ∀ (b₁ b₂ : ℕ → Word) (fuel : ℕ) r₁ r₂ w₁ w₂,
    smiProgrammedReadArr fifoEnv fuel (deviceCxt 0 false false true) 0 1
      ((World.init ([],0)).fresh.refill b₁) = (some r₁,w₁) →
    smiProgrammedReadArr fifoEnv fuel (deviceCxt 0 false false true) 0 1
      ((World.init ([],0)).fresh.refill b₂) = (some r₂,w₂) → w₁.retData = w₂.retData := by
  intro h
  obtain ⟨t,ht⟩ := fifoEnv_short (show (50000000000 : ℤ) ≤ (1 : ℕ)*60000000000 by decide) 0 [] 0
    fun _ => rfl
  have hrun (b : ℕ → Word) : ∃ r w',
      Ends (fun fuel => smiProgrammedReadArr fifoEnv fuel (deviceCxt 0 false false true) 0 1)
        ((World.init ([],0)).fresh.refill b) r w' ∧
      w'.retData 1 = decodeBytes (deviceCxt 0 false false true) b 1 0 empty 1 := by
    obtain ⟨v,he,hdl,hc⟩ := fifoEnv_readEntry (deviceCxt 0 false false true) 0 1
      (w := (World.init ([],0)).fresh.refill b) rfl
    obtain ⟨w',hw,hr⟩ := smiProgrammedReadArr_ends he (by rw [hdl,hc]; exact ht)
    refine ⟨_,w',hw,?_⟩
    rw [hr]
    cases he
    rfl
  obtain ⟨r₁,w₁,⟨N₁,h₁⟩,hr₁⟩ := hrun fun _ => 0
  obtain ⟨r₂,w₂,⟨N₂,h₂⟩,hr₂⟩ := hrun fun _ => 1
  have hs := h _ _ (max N₁ N₂) _ _ w₁ w₂ (h₁ _ (le_max_left _ _)) (h₂ _ (le_max_right _ _))
  have h₀ := hr₁.symm.trans ((congrFun hs 1).trans hr₂)
  revert h₀
  decide

def SmiCxt.withSlots (cxt : SmiCxt) (r : Fin 4 → SmiRead) (wc : Fin 4 → SmiWrite) : SmiCxt :=
  { cxt with rwConfig := { cxt.rwConfig with rconfig := r, wconfig := wc } }

def SmiCxt.withWidth (cxt : SmiCxt) (width : BitVec 8) : SmiCxt :=
  cxt.withSlots (fun d => if d.val = 0 then { cxt.rwConfig.rconfig d with rwidth := width }
    else cxt.rwConfig.rconfig d) cxt.rwConfig.wconfig

/-- Width codes that no place of a read tells apart: one code, or two that the switches do not know,
with the same bits for the register. -/
def SameWidth (a b : BitVec 8) : Prop :=
  a = b ∨ (4 ≤ a.toNat ∧ 4 ≤ b.toNat ∧ a.toNat%4 = b.toNat%4)

theorem ofCode_eq_none_iff (a : BitVec 8) : Width.ofCode a = none ↔ 4 ≤ a.toNat := by
  revert a
  decide

theorem SameWidth.ofCode {a b : BitVec 8} (h : SameWidth a b) :
    Width.ofCode a = Width.ofCode b := by
  rcases h with rfl | ⟨ha,hb,-⟩
  · rfl
  · rw [(ofCode_eq_none_iff a).mpr ha,(ofCode_eq_none_iff b).mpr hb]

theorem SameWidth.bits {a b : BitVec 8} (h : SameWidth a b) : a.toNat%4 = b.toNat%4 := by
  rcases h with rfl | ⟨-,-,hbits⟩
  · rfl
  · exact hbits

theorem SameWidth.set_rwidth {a b : BitVec 8} (h : SameWidth a b) (x : Word) :
    SmiDsr.rwidth.set a.toNat x = SmiDsr.rwidth.set b.toNat x := Field.set_congr h.bits x

section Slots

variable {r : Fin 4 → SmiRead} {wc : Fin 4 → SmiWrite}

theorem apply_setup_withSlots (hr : SameWidth (r 0).rwidth cxt.rwidth)
    (hw : wc 0 = cxt.rwConfig.wconfig 0) (w : World σ) :
    w.apply env (programmedReadSetup (cxt.withSlots r wc) addr len) =
      w.apply env (programmedReadSetup cxt addr len) := by
  have hwidth : SameWidth (cxt.withSlots r wc).rwidth cxt.rwidth := hr
  have hformat : (cxt.withSlots r wc).wformat = cxt.wformat := congrArg SmiWrite.wformat hw
  have hswap : (cxt.withSlots r wc).wswap = cxt.wswap := congrArg SmiWrite.wswap hw
  have hcons (c : SmiCxt) : programmedReadSetup c addr len =
      .field smioA SmiA.device c.rwConfig.readDeviceNum.toNat ::
        .field (smioDsr c.rwConfig.readDeviceNum.toNat) SmiDsr.rwidth c.rwidth.toNat ::
          (programmedReadSetup c addr len).drop 2 := rfl
  have htail : (programmedReadSetup (cxt.withSlots r wc) addr len).drop 2 =
      (programmedReadSetup cxt addr len).drop 2 := by
    simp only [programmedReadSetup,hformat,hswap]
    rfl
  have hdsr (v : World σ) (r' : Reg) : v.assign env r' SmiDsr.rwidth
      (cxt.withSlots r wc).rwidth.toNat = v.assign env r' SmiDsr.rwidth cxt.rwidth.toNat := by
    rw [World.assign,World.assign,hwidth.set_rwidth]
  rw [hcons (cxt.withSlots r wc),hcons cxt,htail]
  simp only [World.apply_field]
  rw [hdsr]
  rfl

/-- Of all slots the code looks at slot 0 only, and of its read settings at the width. -/
theorem smiProgrammedReadArr_withSlots (hr : SameWidth (r 0).rwidth cxt.rwidth)
    (hw : wc 0 = cxt.rwConfig.wconfig 0) (fuel : ℕ) :
    smiProgrammedReadArr env fuel (cxt.withSlots r wc) addr len =
      smiProgrammedReadArr env fuel cxt addr len := by
  have hwidth : SameWidth (cxt.withSlots r wc).rwidth cxt.rwidth := hr
  have hcode : Width.ofCode (cxt.withSlots r wc).rwidth = Width.ofCode cxt.rwidth := hwidth.ofCode
  have hformat : (cxt.withSlots r wc).wformat = cxt.wformat := congrArg SmiWrite.wformat hw
  have hswap : (cxt.withSlots r wc).wswap = cxt.wswap := congrArg SmiWrite.wswap hw
  have hratio : packedRatio? (cxt.withSlots r wc) = packedRatio? cxt := by
    unfold packedRatio?
    rw [hcode,hformat]
    rfl
  have hsetup : regOps env (programmedReadSetup (cxt.withSlots r wc) addr len) =
      regOps env (programmedReadSetup cxt addr len) :=
    funext fun w => congrArg (Prod.mk (some ())) (apply_setup_withSlots hr hw w)
  have hdecode (words count : ℤ) : (decodeRaw (cxt.withSlots r wc) words count : Drv σ Unit) =
      decodeRaw cxt words count := by
    unfold decodeRaw smiUnpack smiTruncate
    rw [hcode,hformat,hswap]
    rfl
  simp only [smiProgrammedReadArr,smiPackedRatio,hratio,hsetup,hdecode]

end Slots

section Dsr

variable {w w₁ : World σ}

theorem sameWrites_callSteps (env : Env σ) (r : Reg) :
    CallSteps env (· ≠ r) (fun r' _ => r' ≠ r) (SameWrites r) where
  toStepsIn := sameWrites_steps env r
  storeTo _ _ _ _ := by simp [SameWrites,Event.writeTo?]
  output _ _ := rfl
  realloc _ _ _ := rfl
  sync _ _ := by simp [SameWrites,World.view,World.synced,Event.writeTo?]
  control _ _ := by simp [SameWrites,World.view,World.withCb,Event.writeTo?]

theorem programmedReadSetup_tail (cxt : SmiCxt) (addr : BitVec 8) (len : ℤ) {op : RegOp}
    (ho : op ∈ (programmedReadSetup cxt addr len).drop 2) (d : ℕ) :
    op.In (· ≠ smioDsr d) (fun r _ => r ≠ smioDsr d) := by
  revert ho op
  simp [programmedReadSetup,smiStart,RegOp.In,smioA,smioDsr,smioDsw,smioCs,smioL]
  omega

theorem dsr_writes (he : readEntry env cxt addr len w = some w₁) (fuel : ℕ) :
    ∃ x, (smiProgrammedReadArr env fuel cxt addr len w).2.view
        (Event.writeTo? (smioDsr cxt.rwConfig.readDeviceNum.toNat)) =
      w.view (Event.writeTo? (smioDsr cxt.rwConfig.readDeviceNum.toNat)) ++
        [SmiDsr.rwidth.set cxt.rwidth.toNat x] := by
  rw [smiProgrammedReadArr_run he]
  generalize hd : cxt.rwConfig.readDeviceNum.toNat = d
  have hsteps := sameWrites_callSteps env (smioDsr d)
  have hcs : smioCs ≠ smioDsr d := by
    simp [smioCs,smioDsr]
    omega
  have hafter : SameWrites (smioDsr d) w₁ ((smiReadAwait env fuel .rawBuffer (wordReads cxt len) >>=
      fun count => decodeRaw cxt (wordReads cxt len) count >>= fun _ => pure count) w₁).2 := by
    have hawait := keeps_smiReadAwait hsteps.toStepsIn fuel (wordReads cxt len) fun _ _ => hcs
    exact keeps_bind hawait (fun _ => keeps_then_pure (keeps_decodeRaw hsteps cxt _ _) _) w₁
  unfold readEntry at he
  split at he
  case h_1 u hg =>
    cases he
    have hu : SameWrites (smioDsr d) w u := by
      have hgrow := keeps_growRawBuffer hsteps (wordReads cxt len) (ratioWorld cxt w)
      rw [hg] at hgrow
      exact Eq.trans hgrow (keeps_ratioWorld hsteps cxt w)
    have hA : smioA ≠ smioDsr d := by
      simp [smioA,smioDsr]
      omega
    -- the second statement of the setup is the write; the others are elsewhere
    have htail := hsteps.toStepsIn.apply
      (fun op ho => programmedReadSetup_tail cxt addr len ho d)
      ((u.assign env smioA SmiA.device d).assign env (smioDsr d) SmiDsr.rwidth cxt.rwidth.toNat)
    refine ⟨(u.assign env smioA SmiA.device d).value env (smioDsr d),?_⟩
    subst hd
    refine Eq.trans hafter (Eq.trans htail ?_)
    have hd := hsteps.assign smioA SmiA.device cxt.rwConfig.readDeviceNum.toNat u hA
    unfold SameWrites at hd hu
    rw [World.assign,view_write,view_read,hd,hu]
    simp [Event.writeTo?]
  case h_2 => cases he

/-- Every place of a read on device `d` finds the width of `d`, its settings register holds that
width, and the settings stored for devices that are neither `d` nor the write device change
nothing. -/
structure ReadsOwnDevice (cxt : SmiCxt) (d : Fin 4) : Prop where
  isolated : ∀ r wc, (∀ j : Fin 4, j = d ∨ (j : ℕ) = cxt.rwConfig.writeDeviceNum.toNat →
      r j = cxt.rwConfig.rconfig j ∧ wc j = cxt.rwConfig.wconfig j) →
    ∀ (σ : Type) (env : Env σ) (w : World σ) (addr : BitVec 8) (len : ℤ) (fuel : ℕ),
      smiProgrammedReadArr env fuel (cxt.withSlots r wc) addr len w =
        smiProgrammedReadArr env fuel cxt addr len w
  /-- Sizing, programming and decoding. -/
  ownRun : ∀ (σ : Type) (env : Env σ) (w : World σ) (addr : BitVec 8) (len : ℤ) (fuel : ℕ),
    smiProgrammedReadArr env fuel (cxt.withWidth (cxt.rwConfig.rconfig d).rwidth) addr len w =
      smiProgrammedReadArr env fuel cxt addr len w
  ownWidth : ∀ (σ : Type) (env : Env σ) (w : World σ) (addr : BitVec 8) (len : ℤ) (fuel : ℕ),
    ∀ v ∈ (smiProgrammedReadArr env fuel cxt addr len w.fresh).2.view
        (Event.writeTo? (smioDsr d)),
      SmiDsr.rwidth.get v = (cxt.rwConfig.rconfig d).rwidth.toNat%4

/-- What any run programs into the read device's settings register. -/
theorem dsr_width (cxt : SmiCxt) (fuel : ℕ) {v : Word}
    (hv : v ∈ (smiProgrammedReadArr env fuel cxt addr len w.fresh).2.view
      (Event.writeTo? (smioDsr cxt.rwConfig.readDeviceNum.toNat))) :
    SmiDsr.rwidth.get v = cxt.rwidth.toNat%4 := by
  rcases he : readEntry env cxt addr len w.fresh with _ | w₁
  · have hsteps := sameWrites_callSteps env (smioDsr cxt.rwConfig.readDeviceNum.toNat)
    have hg := keeps_growRawBuffer hsteps (wordReads cxt len) (ratioWorld cxt w.fresh)
    have hs := Eq.trans hg (keeps_ratioWorld hsteps cxt w.fresh)
    rw [smiProgrammedReadArr_refused he,hs] at hv
    cases hv
  · obtain ⟨x,hx⟩ := dsr_writes he fuel
    rw [hx,view_fresh,List.nil_append,List.mem_singleton] at hv
    rw [hv,BitField.Field.get_set]
    rfl

@[simp] theorem rwidth_withWidth (cxt : SmiCxt) (width : BitVec 8) :
    (cxt.withWidth width).rwidth = width := by
  simp [SmiCxt.withWidth,SmiCxt.withSlots,SmiCxt.rwidth]

theorem smiProgrammedReadArr_withWidth {width : BitVec 8} (h : SameWidth width cxt.rwidth)
    (fuel : ℕ) : smiProgrammedReadArr env fuel (cxt.withWidth width) addr len =
      smiProgrammedReadArr env fuel cxt addr len :=
  smiProgrammedReadArr_withSlots h rfl fuel

theorem dsr_written (cxt : SmiCxt) : ∃ v, v ∈ (smiProgrammedReadArr fifoEnv 0 cxt 0 1
    (World.init (([] : List Word),0)).fresh).2.view
      (Event.writeTo? (smioDsr cxt.rwConfig.readDeviceNum.toNat)) := by
  obtain ⟨w₁,he,-⟩ := fifoEnv_readEntry cxt 0 1 (w := (World.init (([] : List Word),0)).fresh) rfl
  obtain ⟨x,hx⟩ := dsr_writes he 0
  exact ⟨_,by rw [hx]; exact List.mem_append_right _ (List.mem_singleton_self _)⟩

theorem bits_of_sameRun {width : BitVec 8}
    (h : ∀ w : World (List Word × ℕ), smiProgrammedReadArr fifoEnv 0 (cxt.withWidth width) 0 1 w =
      smiProgrammedReadArr fifoEnv 0 cxt 0 1 w) : width.toNat%4 = cxt.rwidth.toNat%4 := by
  obtain ⟨v,hv⟩ := dsr_written cxt
  have hother := dsr_width (cxt.withWidth width) 0 (h _ ▸ hv)
  rw [rwidth_withWidth] at hother
  exact hother.symm.trans (dsr_width cxt 0 hv)

/-- The bytes for its caller tell a code that the switches know from one that they do not. -/
theorem known_of_sameRun {width : BitVec 8}
    (h : ∀ (w : World (List Word × ℕ)) fuel,
      smiProgrammedReadArr fifoEnv fuel (cxt.withWidth width) 0 (2 : ℕ) w =
        smiProgrammedReadArr fifoEnv fuel cxt 0 (2 : ℕ) w) :
    Width.ofCode width = none ↔ Width.ofCode cxt.rwidth = none := by
  let words := List.replicate (wordReads cxt (2 : ℕ)).toNat (0 : Word)
  obtain ⟨w₁,he,hdl,hc⟩ := fifoEnv_readEntry cxt 0 (2 : ℕ) (w := (World.init (words,0)).fresh) rfl
  have harr := fifoEnv_full 50000000000 words 1 0
  rw [List.length_replicate,← hdl,← hc] at harr
  obtain ⟨u,⟨N,hN⟩,-⟩ := smiProgrammedReadArr_ends he harr
  have hrun := hN N le_rfl
  have hown := fifoEnv_two_stored hrun
  have hother := fifoEnv_two_stored ((h _ _).trans hrun)
  rw [rwidth_withWidth] at hother
  exact not_iff_not.mp (hother.symm.trans hown)

/-- The property holds exactly when slot 0, the one that the code reads, is the read device's own
slot, or the write device's slot with the same width in it. -/
theorem readsOwnDevice_iff (cxt : SmiCxt) (d : Fin 4)
    (hd : cxt.rwConfig.readDeviceNum.toNat = d) :
    ReadsOwnDevice cxt d ↔ d = 0 ∨ (cxt.rwConfig.writeDeviceNum.toNat = 0 ∧
      SameWidth (cxt.rwConfig.rconfig d).rwidth (cxt.rwConfig.rconfig 0).rwidth) := by
  constructor
  · intro h
    by_cases h₀ : d = 0
    · exact .inl h₀
    · refine .inr ⟨?_,?_⟩
      · by_contra hw
        -- another width in slot 0, which belongs to neither device, shows in the register
        have hslots (j : Fin 4) (hj : j = d ∨ (j : ℕ) = cxt.rwConfig.writeDeviceNum.toNat) :
            Function.update cxt.rwConfig.rconfig 0
              { cxt.rwConfig.rconfig 0 with rwidth := ~~~cxt.rwidth } j =
                cxt.rwConfig.rconfig j ∧ cxt.rwConfig.wconfig j = cxt.rwConfig.wconfig j := by
          refine ⟨Function.update_of_ne ?_ _ _,rfl⟩
          rintro rfl
          rcases hj with h | h
          · exact h₀ h.symm
          · exact hw h.symm
        have hrun (w : World (List Word × ℕ)) :
            smiProgrammedReadArr fifoEnv 0 (cxt.withWidth (~~~cxt.rwidth)) 0 1 w =
              smiProgrammedReadArr fifoEnv 0 cxt 0 1 w := h.isolated _ _ hslots _ fifoEnv w 0 1 0
        have hbits := bits_of_sameRun hrun
        rw [BitVec.toNat_not] at hbits
        omega
      · have hbits := bits_of_sameRun fun w => h.ownRun _ fifoEnv w 0 1 0
        have hknown := known_of_sameRun fun w fuel => h.ownRun _ fifoEnv w 0 (2 : ℕ) fuel
        rw [ofCode_eq_none_iff,ofCode_eq_none_iff] at hknown
        have hsame : SameWidth (cxt.rwConfig.rconfig d).rwidth cxt.rwidth := by
          by_cases hbig : 4 ≤ cxt.rwidth.toNat
          · exact .inr ⟨hknown.mpr hbig,hbig,hbits⟩
          · have hsmall := mt hknown.mp hbig
            exact .inl (BitVec.eq_of_toNat_eq (by omega))
        exact hsame
  · intro h
    have hsame : SameWidth (cxt.rwConfig.rconfig d).rwidth cxt.rwidth := by
      rcases h with rfl | h
      · exact .inl rfl
      · exact h.2
    refine ⟨fun r wc hslots σ env w addr len fuel => ?_,fun σ env w addr len fuel => ?_,
      fun σ env w addr len fuel v hv => ?_⟩
    · have h₀ : (0 : Fin 4) = d ∨ ((0 : Fin 4) : ℕ) = cxt.rwConfig.writeDeviceNum.toNat := by
        rcases h with rfl | h
        · exact .inl rfl
        · exact .inr h.1.symm
      have hwidth : (r 0).rwidth = cxt.rwidth := congrArg SmiRead.rwidth (hslots 0 h₀).1
      rw [smiProgrammedReadArr_withSlots (.inl hwidth) (hslots 0 h₀).2]
    · rw [smiProgrammedReadArr_withWidth hsame]
    · rw [← hd] at hv
      rw [dsr_width cxt fuel hv]
      exact hsame.bits.symm

theorem readsOwnDevice_iff_first :
    (deviceCxt 0 false false true).rwConfig.readDeviceNum.toNat = ((0 : Fin 4) : ℕ) ∧
    (ReadsOwnDevice (deviceCxt 0 false false true) 0 ↔ (0 : Fin 4) = 0 ∨
      ((deviceCxt 0 false false true).rwConfig.writeDeviceNum.toNat = 0 ∧
        SameWidth (0 : BitVec 8) (0 : BitVec 8))) :=
  ⟨rfl,readsOwnDevice_iff (deviceCxt 0 false false true) 0 rfl⟩

/-- A read on device 1 with slot 0 at 8 bits, then at 16: for the same word one byte is stored,
then two. -/
theorem smiProgrammedReadArr_not_isolated : ¬ ReadsOwnDevice (secondDeviceCxt 0) 1 := by
  intro h
  have hiso := h.isolated (secondDeviceCxt 1).rwConfig.rconfig (secondDeviceCxt 1).rwConfig.wconfig
    (by decide) _ fifoEnv (World.init ([0x1234],0)).fresh 0 1 3
  have hbyte := congrArg (fun x => x.2.retData 1) hiso
  revert hbyte
  decide

end Dsr
end RpiSmi
