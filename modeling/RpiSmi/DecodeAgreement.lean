import RpiSmi.Invocations

/-!
# What a read is decoded with

The code sizes and decodes a read by the settings in its context. The SMI packs
by the registers of the device that `SMI_A` selects.
-/

namespace RpiSmi

open Exec BitField History Elements

variable {σ : Type}

/-- What decides how many words a read takes and how they are decoded. -/
structure Decoding where
  width : ℕ
  format : Format
  swap : Bool
  packed : Bool
  deriving DecidableEq, Repr

def SmiCxt.decoding (cxt : SmiCxt) : Decoding :=
  ⟨cxt.rwidth.toNat,.ofFlag cxt.wformat,cxt.wswap,cxt.pxldata⟩

/-- The settings that the SMI applies to a transfer. -/
def RegFile.decoding (F : RegFile) : Decoding :=
  let d := SmiA.device.get (F smioA)
  ⟨SmiDsr.rwidth.get (F (smioDsr d)),.ofFlag (SmiDsw.wformat.test (F (smioDsw d))),
    SmiDsw.wswap.test (F (smioDsw d)),SmiCs.pxldat.test (F smioCs)⟩

def World.keys (regs : σ → RegFile) (s : σ) (w : World σ) : List Key :=
  fileMonitor.marks (regs s) w.log

theorem World.Did.keys_eq {regs : σ → RegFile} {ops : List RegOp} {w w' : World σ}
    (h : w.fresh.Did regs ops w') : w'.keys regs w.dev = opMonitor.marks (regs w.dev) ops :=
  h.1.marks_eq rfl

/-- At every START of a read the SMI applies the settings that the code decodes with. -/
def AgreesAtStart (env : Env σ) (regs : σ → RegFile) (cxt : SmiCxt) (addr : BitVec 8) (len : ℤ)
    (fuel : ℕ) (w : World σ) : Prop :=
  ∀ F, .start F ∈ (smiProgrammedReadArr env fuel cxt addr len w.fresh).2.keys regs w.dev →
    F.decoding = cxt.decoding

section Setup

variable (cxt : SmiCxt) (addr : BitVec 8) (len : ℤ)

theorem Harmless.idle {op : RegOp} (h : Harmless op) : op.Idle := by
  cases op with
  | field r f v => exact h.2
  | value r v => exact fun hr => absurd hr h.2

theorem programmedReadSetup_start : ∃ mid, (∀ op ∈ mid, op.Idle) ∧
    programmedReadSetup cxt addr len = mid ++ smiStart := by
  obtain ⟨mid,hmid,hsetup⟩ := programmedReadSetup_eq cxt addr len
  refine ⟨_::mid,fun op ho => ?_,hsetup⟩
  rcases List.mem_cons.mp ho with rfl | ho
  · exact fun h => absurd h (by decide)
  · exact (hmid op ho).idle

variable {cxt addr len}

/-- The setup selects the read device and programs its width, but the format and the byte order
go to the write device. -/
theorem programmedReadSetup_decoding (hr : cxt.rwConfig.readDeviceNum.toNat < 4) (F : RegFile) :
    let rd := cxt.rwConfig.readDeviceNum.toNat
    let wd := cxt.rwConfig.writeDeviceNum.toNat
    (opMonitor.last F (programmedReadSetup cxt addr len)).decoding =
      ⟨cxt.rwidth.toNat%4,
        .ofFlag (if wd = rd then cxt.wformat else SmiDsw.wformat.test (F (smioDsw rd))),
        if wd = rd then cxt.wswap else SmiDsw.wswap.test (F (smioDsw rd)),cxt.pxldata⟩ := by
  intro rd wd
  have hset := isSettings_dsr ⟨rd,hr⟩
  have hset' := isSettings_dsw ⟨rd,hr⟩
  have hdev : SmiA.device.get (opMonitor.last F (programmedReadSetup cxt addr len) smioA) = rd := by
    rw [get_last (by decide) (by simp +decide [programmedReadSetup,smiStart,RegOp.Whole,smioA])]
    simp +decide [programmedReadSetup,smiStart,RegOp.onField,smioA]
    exact Nat.mod_eq_of_lt hr
  have hwidth : SmiDsr.rwidth.get (opMonitor.last F (programmedReadSetup cxt addr len)
      (smioDsr rd)) = cxt.rwidth.toNat%4 := by
    rw [get_last (stored_settings hset _)
      (by simp +decide [programmedReadSetup,smiStart,RegOp.Whole,smioL])]
    simp +decide [programmedReadSetup,smiStart,RegOp.onField,smioCs,smioL,smioA,rd]
    rfl
  have hformat : SmiDsw.wformat.test (opMonitor.last F (programmedReadSetup cxt addr len)
      (smioDsw rd)) = if wd = rd then cxt.wformat else SmiDsw.wformat.test (F (smioDsw rd)) := by
    rw [test_last (stored_settings hset' _)
      (by simp +decide [programmedReadSetup,smiStart,RegOp.Whole,smioL])]
    simp +decide [programmedReadSetup,smiStart,RegOp.onField,smioCs,smioL,smioA]
    split_ifs
    · exact bit_of_field _
    · rfl
  have hswap : SmiDsw.wswap.test (opMonitor.last F (programmedReadSetup cxt addr len)
      (smioDsw rd)) = if wd = rd then cxt.wswap else SmiDsw.wswap.test (F (smioDsw rd)) := by
    rw [test_last (stored_settings hset' _)
      (by simp +decide [programmedReadSetup,smiStart,RegOp.Whole,smioL])]
    simp +decide [programmedReadSetup,smiStart,RegOp.onField,smioCs,smioL,smioA]
    split_ifs
    · exact bit_of_field _
    · rfl
  have hpacked : SmiCs.pxldat.test (opMonitor.last F (programmedReadSetup cxt addr len) smioCs) =
      cxt.pxldata := by
    rw [test_last (by decide)
      (by simp +decide [programmedReadSetup,smiStart,RegOp.Whole,smioCs])]
    simp +decide [programmedReadSetup,smiStart,RegOp.onField,smioCs]
    exact bit_of_field _
  simp only [RegFile.decoding,hdev,hwidth,hformat,hswap,hpacked]

end Setup

section Read

variable {env : Env σ} {regs : σ → RegFile} (hf : RegisterFile env regs) {cxt : SmiCxt}

include hf

theorem smiProgrammedReadArr_starts (fuel : ℕ) (addr : BitVec 8) (len : ℤ) (w : World σ)
    (F : RegFile) :
    .start F ∈ (smiProgrammedReadArr env fuel cxt addr len w.fresh).2.keys regs w.dev ↔
      ¬ NoBuffer env cxt len w ∧
        F = opMonitor.last (regs w.dev) (programmedReadSetup cxt addr len) := by
  have hb : NoBuffer env cxt len w.fresh ↔ NoBuffer env cxt len w := Iff.rfl
  rw [(did_smiProgrammedReadArr hf fuel).keys_eq]
  by_cases hn : NoBuffer env cxt len w
  · simp [hb,hn]
  · obtain ⟨mid,hmid,hsetup⟩ := programmedReadSetup_start cxt addr len
    rw [if_neg (hb.not.mpr hn),hsetup,start_mem_marks (hf.start_off w.dev) hmid]
    simp [hn]

/-- The width and the packing always agree. The format and the byte order are those of the device
that is read when it is the write device too, or when its register held them before. -/
theorem agreesAtStart_iff (hw : cxt.rwidth.toNat < 4)
    (hr : cxt.rwConfig.readDeviceNum.toNat < 4) (addr : BitVec 8) (len : ℤ) (fuel : ℕ)
    (w : World σ) :
    let rd := cxt.rwConfig.readDeviceNum.toNat
    AgreesAtStart env regs cxt addr len fuel w ↔
      NoBuffer env cxt len w ∨ rd = cxt.rwConfig.writeDeviceNum.toNat ∨
        (SmiDsw.wformat.test (regs w.dev (smioDsw rd)) = cxt.wformat ∧
          SmiDsw.wswap.test (regs w.dev (smioDsw rd)) = cxt.wswap) := by
  intro rd
  have hformat (a b : Bool) : Format.ofFlag a = Format.ofFlag b ↔ a = b := by
    cases a <;> cases b <;> decide
  simp only [AgreesAtStart,smiProgrammedReadArr_starts hf,and_imp,forall_eq_apply_imp_iff,
    programmedReadSetup_decoding hr,SmiCxt.decoding,Nat.mod_eq_of_lt hw]
  by_cases hn : NoBuffer env cxt len w
  · simp [hn]
  · by_cases hd : cxt.rwConfig.writeDeviceNum.toNat = rd
    · simp [hn,hd,rd]
    · simp [hn,hd,hformat,rd,Ne.symm hd]

end Read

theorem agreesAtStart_iff_first : RegisterFile storageEnv storedFile ∧
    (AgreesAtStart storageEnv storedFile (deviceCxt 1 true false true) 0 4 2
        (World.init fun _ => 0) ↔
      NoBuffer storageEnv (deviceCxt 1 true false true) 4 (World.init fun _ => 0) ∨
        (0 : BitVec 8).toNat = (0 : BitVec 8).toNat ∨
        (SmiDsw.wformat.test (storedFile (fun _ => 0) (smioDsw 0)) = true ∧
          SmiDsw.wswap.test (storedFile (fun _ => 0) (smioDsw 0)) = false)) :=
  ⟨storageEnv_registerFile,agreesAtStart_iff storageEnv_registerFile (by decide) (by decide)
    0 4 2 (World.init fun _ => 0)⟩

/-- Reading from device 1 beside the write device 0, in XRGB: the SMI packs as RGB565. -/
theorem agreesAtStart_not : ¬ ∀ (cxt : SmiCxt) (addr : BitVec 8) (len : ℤ) (fuel : ℕ)
    (w : World RegFile), cxt.rwidth.toNat < 4 → cxt.rwConfig.readDeviceNum.toNat < 4 →
      cxt.rwConfig.writeDeviceNum.toNat < 4 →
      AgreesAtStart storageEnv storedFile cxt addr len fuel w := by
  intro h
  let cxt : SmiCxt := { deviceCxt 1 true false true with rwConfig :=
    { (deviceCxt 1 true false true).rwConfig with readDeviceNum := 1 } }
  have hs := h cxt 0 4 2 (World.init fun _ => 0) (by decide) (by decide) (by decide) _
    ((smiProgrammedReadArr_starts storageEnv_registerFile 2 0 4 _ _).mpr ⟨by decide,rfl⟩)
  rw [programmedReadSetup_decoding (by decide)] at hs
  revert hs
  decide

end RpiSmi
