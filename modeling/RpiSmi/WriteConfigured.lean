import RpiSmi.Configure

/-!
# A write device configured

`smi_configure_write_device` assigns the nine fields of a DSW. The setup time
gets the value of `wformat`, so the word decodes to the configuration when its
setup time is that bit.
-/

namespace RpiSmi

open Exec BitField History

variable {σ : Type}

def SmiWrite.ofDsw (v : Word) : SmiWrite where
  wwidth := BitVec.ofNat 8 (SmiDsw.wwidth.get v)
  wsetup := BitVec.ofNat 8 (SmiDsw.wsetup.get v)
  whold := BitVec.ofNat 8 (SmiDsw.whold.get v)
  wpace := BitVec.ofNat 8 (SmiDsw.wpace.get v)
  wstrobe := BitVec.ofNat 8 (SmiDsw.wstrobe.get v)
  wformat := SmiDsw.wformat.test v
  wswap := SmiDsw.wswap.test v
  wpaceall := SmiDsw.wpaceall.test v
  wdreq := SmiDsw.wdreq.test v

structure SmiWrite.InRange (c : SmiWrite) : Prop where
  wwidth : c.wwidth.toNat < 4
  wsetup : c.wsetup.toNat < 64
  whold : c.whold.toNat < 64
  wpace : c.wpace.toNat < 128
  wstrobe : c.wstrobe.toNat < 128

/-- What the code programs for a configuration. -/
def SmiWrite.programmed (c : SmiWrite) : SmiWrite :=
  { c with wsetup := BitVec.ofNat 8 c.wformat.toNat }

theorem SmiWrite.programmed_eq_self_iff (c : SmiWrite) :
    c.programmed = c ↔ c.wsetup.toNat = c.wformat.toNat := by
  obtain ⟨wwidth,wsetup,whold,wpace,wstrobe,wformat,wswap,wpaceall,wdreq⟩ := c
  have hbit : (BitVec.ofNat 8 wformat.toNat).toNat = wformat.toNat := by cases wformat <;> rfl
  simp only [programmed,SmiWrite.mk.injEq,true_and,and_true]
  rw [← BitVec.toNat_inj,hbit,eq_comm]

def dswFields (c : SmiWrite) : List (Field 32 × ℕ) := [
  (SmiDsw.wsetup,c.wformat.toNat),(SmiDsw.wwidth,c.wwidth.toNat),(SmiDsw.whold,c.whold.toNat),
  (SmiDsw.wpace,c.wpace.toNat),(SmiDsw.wpaceall,c.wpaceall.toNat),
  (SmiDsw.wstrobe,c.wstrobe.toNat),(SmiDsw.wdreq,c.wdreq.toNat),(SmiDsw.wswap,c.wswap.toNat),
  (SmiDsw.wformat,c.wformat.toNat)]

theorem dsw_disjoint (c : SmiWrite) : ((dswFields c).map Prod.fst).Pairwise Field.Disjoint := by
  show [SmiDsw.wsetup,SmiDsw.wwidth,SmiDsw.whold,SmiDsw.wpace,SmiDsw.wpaceall,SmiDsw.wstrobe,
    SmiDsw.wdreq,SmiDsw.wswap,SmiDsw.wformat].Pairwise Field.Disjoint
  decide

theorem byte_of_field {x : BitVec 8} {n : ℕ} (h : x.toNat < 2^n) :
    BitVec.ofNat 8 (x.toNat%2^n) = x := by
  rw [Nat.mod_eq_of_lt h,BitVec.ofNat_toNat,BitVec.setWidth_eq]

/-- A write device programmed by the code decodes to the configuration with the setup time
replaced. -/
theorem ofDsw_configure (F : RegFile) (d : Fin 4) {c : SmiWrite} (h : c.InRange) :
    SmiWrite.ofDsw (opMonitor.last F (configureWriteOps d c) (smioDsw d)) = c.programmed := by
  have hget {p : Field 32 × ℕ} (hp : p ∈ dswFields c) :
      p.1.get (opMonitor.last F (configureWriteOps d c) (smioDsw d)) = p.2%2^p.1.width :=
    get_last_fields (fun _ _ => stored_settings (isSettings_dsw d) _) (dsw_disjoint c) F hp
  have hsetup : c.wformat.toNat%2^6 = c.wformat.toNat := by cases c.wformat <;> rfl
  have h₁ := hget (p := (SmiDsw.wwidth,c.wwidth.toNat)) (by simp [dswFields])
  have h₂ := hget (p := (SmiDsw.wsetup,c.wformat.toNat)) (by simp [dswFields])
  have h₃ := hget (p := (SmiDsw.whold,c.whold.toNat)) (by simp [dswFields])
  have h₄ := hget (p := (SmiDsw.wpace,c.wpace.toNat)) (by simp [dswFields])
  have h₅ := hget (p := (SmiDsw.wstrobe,c.wstrobe.toNat)) (by simp [dswFields])
  have h₆ := hget (p := (SmiDsw.wformat,c.wformat.toNat)) (by simp [dswFields])
  have h₇ := hget (p := (SmiDsw.wswap,c.wswap.toNat)) (by simp [dswFields])
  have h₈ := hget (p := (SmiDsw.wpaceall,c.wpaceall.toNat)) (by simp [dswFields])
  have h₉ := hget (p := (SmiDsw.wdreq,c.wdreq.toNat)) (by simp [dswFields])
  simp only at h₁ h₂ h₃ h₄ h₅ h₆ h₇ h₈ h₉
  simp only [SmiWrite.ofDsw,SmiWrite.programmed,Field.test,h₁,h₂,h₃,h₄,h₅,h₆,h₇,h₈,h₉]
  simp only [SmiDsw.wwidth,SmiDsw.wsetup,SmiDsw.whold,SmiDsw.wpace,SmiDsw.wstrobe,SmiDsw.wformat,
    SmiDsw.wswap,SmiDsw.wpaceall,SmiDsw.wdreq,bit_of_field,hsetup,
    byte_of_field (n := 2) h.wwidth,byte_of_field (n := 6) h.whold,byte_of_field (n := 7) h.wpace,
    byte_of_field (n := 7) h.wstrobe]

/-- The register of the device decodes to the configuration, and the other settings registers are
what they were. -/
structure WriteConfigured (F F' : RegFile) (d : Fin 4) (wconfig : SmiWrite) : Prop where
  own : SmiWrite.ofDsw (F' (smioDsw d)) = wconfig
  others : ∀ r : Reg, r.IsSettings → r ≠ smioDsw d → F' r = F r

theorem smiConfigureWriteDevice_regs {env : Env σ} {regs : σ → RegFile} (hf : RegisterFile env regs)
    (strayW : ℤ) (cxt : SmiCxt) {n : BitVec 8} {d : Fin 4} (hn : n.toNat = d) (w : World σ) :
    regs (smiConfigureWriteDevice env strayW cxt n w).2.dev =
      opMonitor.last (regs w.dev) (configureWriteOps d (cxt.rwConfig.wconfig d)) := by
  have hd := d.isLt
  rw [smiConfigureWriteDevice_run env strayW cxt (by omega) w,(passes_apply hf w _).2,hn,
    writeSlot_eq _ hn]

/-- Configurations that the code cannot tell apart program the same statements. -/
theorem configureWriteOps_programmed (n : ℕ) (c : SmiWrite) :
    configureWriteOps n c.programmed = configureWriteOps n c := rfl

section Device

variable {env : Env σ} {regs : σ → RegFile} (hf : RegisterFile env regs) (strayW : ℤ)
  {n : BitVec 8} {d : Fin 4} (hn : n.toNat = d)

include hf hn

/-- The law for one configuration holds when its setup time is its format bit, and two
configurations program one word when they differ in nothing but the setup time. -/
theorem writeConfigured_iff {cxt cxt' : SmiCxt} (h : (cxt.rwConfig.wconfig d).InRange)
    (h' : (cxt'.rwConfig.wconfig d).InRange) (w : World σ) :
    (WriteConfigured (regs w.dev) (regs (smiConfigureWriteDevice env strayW cxt n w).2.dev) d
        (cxt.rwConfig.wconfig d) ↔
      (cxt.rwConfig.wconfig d).wsetup.toNat = (cxt.rwConfig.wconfig d).wformat.toNat) ∧
    (regs (smiConfigureWriteDevice env strayW cxt n w).2.dev (smioDsw d) =
        regs (smiConfigureWriteDevice env strayW cxt' n w).2.dev (smioDsw d) ↔
      (cxt.rwConfig.wconfig d).programmed = (cxt'.rwConfig.wconfig d).programmed) := by
  rw [smiConfigureWriteDevice_regs hf strayW cxt hn w,
    smiConfigureWriteDevice_regs hf strayW cxt' hn w]
  have hown := ofDsw_configure (regs w.dev) d h
  have hown' := ofDsw_configure (regs w.dev) d h'
  constructor
  · rw [← SmiWrite.programmed_eq_self_iff,← hown]
    refine ⟨fun hc => hc.own,fun hc => ⟨hc,fun r _ hr => ?_⟩⟩
    exact last_of_ne (configureOps_reg.2 _ hr.symm) _
  · constructor
    · intro heq
      rw [← hown,← hown',heq]
    · intro heq
      rw [← configureWriteOps_programmed,heq,configureWriteOps_programmed]

end Device

def writeCxt (c : SmiWrite) : SmiCxt :=
  let cxt := deviceCxt 0 false false false
  { cxt with rwConfig := { cxt.rwConfig with wconfig := fun _ => c } }

def setupTime (n : BitVec 8) : SmiWrite := ⟨0,n,0,0,0,false,false,false,false⟩

theorem writeConfigured_iff_storage :
    (WriteConfigured (storedFile fun _ => 0) (storedFile (smiConfigureWriteDevice storageEnv 0
        (writeCxt (setupTime 0)) 2 (World.init fun _ => 0)).2.dev) 2 (setupTime 0) ↔ 0 = 0) ∧
    (storedFile (smiConfigureWriteDevice storageEnv 0 (writeCxt (setupTime 0)) 2
          (World.init fun _ => 0)).2.dev (smioDsw 2) =
        storedFile (smiConfigureWriteDevice storageEnv 0 (writeCxt (setupTime 5)) 2
          (World.init fun _ => 0)).2.dev (smioDsw 2) ↔
      (setupTime 0).programmed = (setupTime 5).programmed) :=
  writeConfigured_iff storageEnv_registerFile 0 rfl
    ⟨by decide,by decide,by decide,by decide,by decide⟩
    ⟨by decide,by decide,by decide,by decide,by decide⟩ (World.init fun _ => 0)

/-- A setup time of 5 is lost. -/
theorem writeConfigured_not : ¬ ∀ (c : SmiWrite) (n : BitVec 8) (d : Fin 4) (w : World RegFile),
    c.InRange → n.toNat = d → WriteConfigured (storedFile w.dev)
      (storedFile (smiConfigureWriteDevice storageEnv 0 (writeCxt c) n w).2.dev) d c := by
  intro h
  have hrange : (setupTime 5).InRange :=
    ⟨by decide,by decide,by decide,by decide,by decide⟩
  have hown := (h (setupTime 5) 2 2 (World.init fun _ => 0) hrange rfl).own
  have hregs := smiConfigureWriteDevice_regs storageEnv_registerFile 0 (writeCxt (setupTime 5))
    (show (2 : BitVec 8).toNat = (2 : Fin 4) from rfl) (World.init fun _ => 0)
  rw [hregs] at hown
  exact absurd (hown.symm.trans (ofDsw_configure _ 2 hrange)) (by decide)

end RpiSmi
