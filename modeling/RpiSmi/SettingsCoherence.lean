import RpiSmi.SetupOrder

/-!
# Settings after a synchronisation

The transfers rewrite single fields of the settings registers. `LeavesSettings` says for
each call on device `d` when it leaves the registers of `d` as they were.
-/

namespace RpiSmi

open Exec BitField History

variable {σ : Type}

def Coherent (F₀ : RegFile) (d : ℕ) (F : RegFile) : Prop :=
  F (smioDsr d) = F₀ (smioDsr d) ∧ F (smioDsw d) = F₀ (smioDsw d)

def Entry.IsTransfer : Entry → Prop
  | .sync .. | .dmaSetup => False
  | _ => True

def Entry.IsReadDma : Entry → Prop
  | .programmed (.readDma ..) => True
  | _ => False

/-- The registers of `d` are kept, and a DMA read starts at the width its length is computed for. -/
structure Invocation.Sound (env : Env σ) (regs : σ → RegFile) (F₀ : RegFile) (d : ℕ)
    (c : Invocation) (w : World σ) : Prop where
  coherent : Coherent F₀ d (regs (c.run env w.fresh).2.dev)
  width : c.entry.IsReadDma → ∀ F, .start F ∈ (c.run env w.fresh).2.keys regs w.dev →
    SmiDsr.rwidth.get (F (smioDsr d)) = c.cxt.rwidth.toNat%4

/-- What a call needs of the registers that the synchronisation left. The direct transfers use
device 0 and set its width; the array reads set the device's fields from slot 0. -/
def Invocation.LeavesSettings (env : Env σ) (F₀ : RegFile) (d : ℕ) (c : Invocation)
    (w : World σ) : Prop :=
  match c.entry with
  | .directRead .. | .directWrite .. | .directWriteArr .. =>
    d = 0 → SmiDsr.rwidth.get (F₀ (smioDsr d)) = 0
  | .directReadArr .. => d = 0 → SmiDsr.rwidth.get (F₀ (smioDsr d)) = c.cxt.rwidth.toNat%4
  | .programmed (.readArr _ len) => NoBuffer env c.cxt len w ∨
      (SmiDsr.rwidth.get (F₀ (smioDsr d)) = c.cxt.rwidth.toNat%4 ∧
        SmiDsw.wformat.test (F₀ (smioDsw d)) = c.cxt.wformat ∧
        SmiDsw.wswap.test (F₀ (smioDsw d)) = c.cxt.wswap)
  | .programmed (.readDma cb ..) => c.cxt.HasNull cb ∨
      SmiDsr.rwidth.get (F₀ (smioDsr d)) = c.cxt.rwidth.toNat%4
  | _ => True

section Setups

variable {F₀ F : RegFile} {d : ℕ} (hd : d < 4)

theorem test_eq_iff {f : Field 32} (h : f.width = 1) (x : Word) (b : Bool) :
    f.get x = b.toNat%2^f.width ↔ f.test x = b := by
  have hlt : f.get x < 2^f.width := BitVec.isLt _
  rw [h] at hlt ⊢
  cases b
  · simp [Field.test]
  · simp [Field.test]
    omega

include hd

theorem coherent_last_iff (ops : List RegOp) (hF : Coherent F₀ d F) :
    Coherent F₀ d (opMonitor.last F ops) ↔
      ops.foldl (RegOp.onSettings (smioDsr d)) (F₀ (smioDsr d)) = F₀ (smioDsr d) ∧
      ops.foldl (RegOp.onSettings (smioDsw d)) (F₀ (smioDsw d)) = F₀ (smioDsw d) := by
  rw [Coherent,last_settings ((isSettings_dsr_iff d).mpr hd),
    last_settings ((isSettings_dsw_iff d).mpr hd),hF.1,hF.2]

theorem directSetup_coherent (write : ℕ) (addr : BitVec 8) (hF : Coherent F₀ d F) :
    Coherent F₀ d (opMonitor.last F (directSetup write addr)) ↔
      (d = 0 → SmiDsr.rwidth.get (F₀ (smioDsr d)) = 0) := by
  rw [coherent_last_iff hd _ hF]
  by_cases h : d = 0
  · subst h
    simp +decide [directSetup,RegOp.onSettings,Field.set_eq_self_iff]
  · have h₀ : 0 ≠ d := Ne.symm h
    simp [directSetup,RegOp.onSettings,smioCs,smioDcs,smioDa,smioDd,hd,h,h₀]

theorem directReadArrSetup_coherent (cxt : SmiCxt) (addr : BitVec 8) (hF : Coherent F₀ d F) :
    Coherent F₀ d (opMonitor.last F (directReadArrSetup cxt addr)) ↔
      (d = 0 → SmiDsr.rwidth.get (F₀ (smioDsr d)) = cxt.rwidth.toNat%4) := by
  rw [coherent_last_iff hd _ hF]
  by_cases h : d = 0
  · subst h
    simp +decide [directReadArrSetup,RegOp.onSettings,Field.set_eq_self_iff]
    rfl
  · have h₀ : 0 ≠ d := Ne.symm h
    simp [directReadArrSetup,RegOp.onSettings,smioDcs,smioDa,smioDd,hd,h,h₀]

theorem programmedReadSetup_coherent {cxt : SmiCxt} (hr : cxt.rwConfig.readDeviceNum.toNat = d)
    (hw : cxt.rwConfig.writeDeviceNum.toNat = d) (addr : BitVec 8) (len : ℤ)
    (hF : Coherent F₀ d F) :
    Coherent F₀ d (opMonitor.last F (programmedReadSetup cxt addr len)) ↔
      SmiDsr.rwidth.get (F₀ (smioDsr d)) = cxt.rwidth.toNat%4 ∧
        SmiDsw.wformat.test (F₀ (smioDsw d)) = cxt.wformat ∧
        SmiDsw.wswap.test (F₀ (smioDsw d)) = cxt.wswap := by
  rw [coherent_last_iff hd _ hF]
  have hdsr : (programmedReadSetup cxt addr len).foldl (RegOp.onSettings (smioDsr d))
      (F₀ (smioDsr d)) = SmiDsr.rwidth.set cxt.rwidth.toNat (F₀ (smioDsr d)) := by
    simp [programmedReadSetup,smiStart,RegOp.onSettings,smioCs,smioA,smioL,hr,hw]
  have hdsw : (programmedReadSetup cxt addr len).foldl (RegOp.onSettings (smioDsw d))
      (F₀ (smioDsw d)) = SmiDsw.wswap.set cxt.wswap.toNat
        (SmiDsw.wformat.set cxt.wformat.toNat (F₀ (smioDsw d))) := by
    simp [programmedReadSetup,smiStart,RegOp.onSettings,smioCs,smioA,smioL,hr,hw]
  rw [hdsr,hdsw,Field.set_eq_self_iff,Field.set_set_eq_self_iff (by decide),
    test_eq_iff rfl,test_eq_iff rfl]
  rfl

theorem coherent_of_none {ops : List RegOp} (h : ∀ op ∈ ops, ¬ op.reg.IsSettings)
    (hF : Coherent F₀ d F) : Coherent F₀ d (opMonitor.last F ops) := by
  have hne {r : Reg} (hr : r.IsSettings) : opMonitor.last F ops r = F r :=
    last_of_ne (fun op ho he => h op ho (he ▸ hr)) F
  exact ⟨(hne ((isSettings_dsr_iff d).mpr hd)).trans hF.1,
    (hne ((isSettings_dsw_iff d).mpr hd)).trans hF.2⟩

end Setups

section Run

variable {env : Env σ} {regs : σ → RegFile} (hf : RegisterFile env regs) {cxt : SmiCxt} {d : ℕ}
  (hd : d < 4) (hr : cxt.rwConfig.readDeviceNum.toNat = d)
  (hw : cxt.rwConfig.writeDeviceNum.toNat = d) {F₀ : RegFile}

include hf hd hr hw

theorem Invocation.sound_iff {c : Invocation} (ht : c.entry.IsTransfer)
    (hc : c.cxt.rwConfig = cxt.rwConfig) {w : World σ} (hF : Coherent F₀ d (regs w.dev)) :
    c.Sound env regs F₀ d w ↔ c.LeavesSettings env F₀ d w := by
  have hops : regs (c.run env w.fresh).2.dev =
      opMonitor.last (regs w.dev) (c.ops env w.fresh) := (Invocation.run_did hf c w.fresh).2
  have hkeys := Invocation.keys_eq hf c w
  have hsound : c.Sound env regs F₀ d w ↔
      Coherent F₀ d (opMonitor.last (regs w.dev) (c.ops env w.fresh)) ∧
      (c.entry.IsReadDma → ∀ F, .start F ∈ opMonitor.marks (regs w.dev) (c.ops env w.fresh) →
        SmiDsr.rwidth.get (F (smioDsr d)) = c.cxt.rwidth.toNat%4) := by
    rw [← hops,← hkeys]
    exact ⟨fun h => ⟨h.coherent,h.width⟩,fun h => ⟨h.1,h.2⟩⟩
  rw [hsound]
  clear hops hkeys hsound
  obtain ⟨cxt',entry,fuel⟩ := c
  have hrw : cxt'.rwConfig = cxt.rwConfig := hc
  cases entry with
  | directRead | directWrite | directWriteArr =>
    simp only [Invocation.ops,Invocation.LeavesSettings,Entry.IsReadDma,false_imp_iff,and_true]
    exact directSetup_coherent hd _ _ hF
  | directReadArr =>
    simp only [Invocation.ops,Invocation.LeavesSettings,Entry.IsReadDma,false_imp_iff,and_true]
    exact directReadArrSetup_coherent hd _ _ hF
  | programmed t =>
    simp only [Invocation.ops,Invocation.LeavesSettings]
    cases t with
    | readArr addr len =>
      simp only [Transfer.ops,Entry.IsReadDma,false_imp_iff,and_true]
      have hb : NoBuffer env cxt' len w.fresh ↔ NoBuffer env cxt' len w := Iff.rfl
      by_cases hn : NoBuffer env cxt' len w
      · simp [hb,hn,hF]
      · rw [if_neg (hb.not.mpr hn)]
        simp only [hn,false_or]
        exact programmedReadSetup_coherent hd (hrw ▸ hr) (hrw ▸ hw) addr len hF
    | writeArr data addr len =>
      simp only [Transfer.ops,Entry.IsReadDma,false_imp_iff,and_true,iff_true]
      exact coherent_of_none hd (by simp +decide [programmedWriteSetup,smiStart,RegOp.reg]) hF
    | readDma cb addr len channel =>
      simp only [Transfer.ops,Entry.IsReadDma,true_imp_iff]
      by_cases hn : cxt'.HasNull cb
      · simp [hn,hF]
      · have hcoh : Coherent F₀ d (opMonitor.last (regs w.dev)
            (programmedReadDmaSetup cxt' addr len ++ smiStart)) :=
          coherent_of_none hd (by simp +decide [programmedReadDmaSetup,smiStart,RegOp.reg]) hF
        have hidle : ∀ op ∈ programmedReadDmaSetup cxt' addr len, op.Idle :=
          fun op ho => (programmedReadDmaSetup_harmless cxt' addr len op ho).idle
        simp only [hn,if_false,start_mem_marks (hf.start_off w.dev) hidle,forall_eq,hcoh,
          hcoh.1,true_and,false_or]
    | writeDma cb addr len channel =>
      simp only [Transfer.ops,Entry.IsReadDma,false_imp_iff,and_true,iff_true]
      split_ifs
      · exact hF
      · exact coherent_of_none hd
          (by simp +decide [programmedWriteDmaSetup,smiStart,RegOp.reg]) hF
  | sync | dmaSetup => exact ht.elim

/-- Over a run of transfers on device `d`, from a coherent state: every call is sound exactly when
every call leaves the settings. -/
theorem sound_run {cs : List Invocation}
    (hcs : ∀ c ∈ cs, c.entry.IsTransfer ∧ c.cxt.rwConfig = cxt.rwConfig) (w : World σ)
    (hF : Coherent F₀ d (regs w.dev)) :
    (∀ p ∈ invoked env cs w, p.1.Sound env regs F₀ d p.2) ↔
      ∀ p ∈ invoked env cs w, p.1.LeavesSettings env F₀ d p.2 := by
  induction cs generalizing w with
  | nil => simp [invoked]
  | cons c cs ih =>
    have hc := hcs c (List.mem_cons_self ..)
    have hrest := fun c' h => hcs c' (List.mem_cons_of_mem c h)
    have hhead : c.Sound env regs F₀ d w.fresh ↔ c.LeavesSettings env F₀ d w.fresh :=
      Invocation.sound_iff hf hd hr hw hc.1 hc.2 hF
    rcases hx : c.run env w.fresh with ⟨_ | a,w'⟩
    · simp only [invoked,hx,List.mem_singleton,forall_eq,hhead]
    · simp only [invoked,hx,List.forall_mem_cons,hhead]
      refine and_congr_right fun hl => ih hrest w' ?_
      have hafter := (hhead.mpr hl).coherent
      have hfresh : w.fresh.fresh = w.fresh := rfl
      rwa [hfresh,hx] at hafter

end Run

section Sync

variable {cxt : SmiCxt} {d : Fin 4} (hr : cxt.rwConfig.readDeviceNum.toNat = d)
  (hw : cxt.rwConfig.writeDeviceNum.toNat = d)

include hr hw

theorem syncOps_same (strayW : ℤ) : syncOps strayW cxt =
    configureWriteOps d (cxt.rwConfig.wconfig d) ++
      if strayW < 0 then [] else configureReadOps d (cxt.rwConfig.rconfig d) := by
  have hd : ¬ 3 < d.val := by omega
  have hread := readSlot_eq cxt.rwConfig hr
  have hwrite := writeSlot_eq cxt.rwConfig hw
  simp only [syncOps,hread,hwrite,hr,hw,hd,if_false,or_false]

theorem sync_dsr {strayW : ℤ} (h : ¬ strayW < 0) (F : RegFile) :
    SmiRead.ofDsr (opMonitor.last F (syncOps strayW cxt) (smioDsr d)) =
      (cxt.rwConfig.rconfig d).reduce := by
  rw [syncOps_same hr hw,if_neg h,Monitor.last_append]
  exact ofDsr_configure _ d _

theorem sync_dsw (strayW : ℤ) (F : RegFile) {f : Field 32} {b : Bool} (hf : f.width = 1)
    (hwhole : ∀ op ∈ configureWriteOps d (cxt.rwConfig.wconfig d), op.Whole (smioDsw d) f)
    (hb : ∀ x, (configureWriteOps d (cxt.rwConfig.wconfig d)).foldl
      (RegOp.onField (smioDsw d) f) x = b.toNat%2^f.width) :
    f.test (opMonitor.last F (syncOps strayW cxt) (smioDsw d)) = b := by
  have hs := stored_settings (isSettings_dsw d) f
  have hread : ∀ op ∈ (if strayW < 0 then []
      else configureReadOps d (cxt.rwConfig.rconfig d)), op.reg ≠ smioDsw d := by
    split_ifs
    · simp
    · exact configureOps_reg.1 _ (smioDsr_ne_dsw _ _)
  rw [syncOps_same hr hw,Monitor.last_append,last_of_ne hread,← test_eq_iff hf,
    get_last hs hwhole,hb]

end Sync

def directThenDma : List Invocation :=
  [⟨deviceCxt 1 false false false,.directRead .caller 0,4⟩,
    ⟨deviceCxt 1 false false false,.programmed (.readDma 8 0 4 0),4⟩]

theorem directThenDma_transfers : ∀ c ∈ directThenDma, c.entry.IsTransfer ∧
    c.cxt.rwConfig = (deviceCxt 1 false false false).rwConfig := by
  simp [directThenDma,Entry.IsTransfer]

end RpiSmi
