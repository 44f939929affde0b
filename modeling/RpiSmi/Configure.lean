import RpiSmi.RegisterFile

/-!
# Configuring devices

`smi_init_rw_config` stores settings in the context, and the `smi_configure`
functions program a device's registers from them. Both of these end without a
`return`, so what their caller gets is a parameter: `strayW` and `strayR`.
-/

namespace RpiSmi

open Exec BitField History

variable {σ : Type}

/-- A configuration for both directions is stored in the slot of the write device, which C indexes
an array of four with; the other number is converted to `uint8_t`. -/
def smiInitRwConfig (cxt : SmiCxt) (rw : SmiRw) (rconfig : SmiRead) (wconfig : SmiWrite)
    (readDevice : ℤ) (writeDevice : Fin 4) : SmiCxt :=
  { cxt with rwConfig := {
      readDeviceNum := BitVec.ofInt 8 readDevice
      writeDeviceNum := BitVec.ofNat 8 writeDevice
      rconfig := Function.update rw.rconfig writeDevice rconfig
      wconfig := Function.update rw.wconfig writeDevice wconfig } }

def configureReadOps (n : ℕ) (c : SmiRead) : List RegOp := [
  .field (smioDsr n) SmiDsr.rstrobe c.rstrobe.toNat,
  .field (smioDsr n) SmiDsr.rdreq c.rdreq.toNat,
  .field (smioDsr n) SmiDsr.rpace c.rpace.toNat,
  .field (smioDsr n) SmiDsr.rpaceall c.rpaceall.toNat,
  .field (smioDsr n) SmiDsr.rhold c.rhold.toNat,
  .field (smioDsr n) SmiDsr.fsetup c.fsetup.toNat,
  .field (smioDsr n) SmiDsr.mode68 c.mode68.toNat,
  .field (smioDsr n) SmiDsr.rsetup c.rsetup.toNat,
  .field (smioDsr n) SmiDsr.rwidth c.rwidth.toNat]

/-- The setup time is programmed from `wformat`. -/
def configureWriteOps (n : ℕ) (c : SmiWrite) : List RegOp := [
  .field (smioDsw n) SmiDsw.wsetup c.wformat.toNat,
  .field (smioDsw n) SmiDsw.wwidth c.wwidth.toNat,
  .field (smioDsw n) SmiDsw.whold c.whold.toNat,
  .field (smioDsw n) SmiDsw.wpace c.wpace.toNat,
  .field (smioDsw n) SmiDsw.wpaceall c.wpaceall.toNat,
  .field (smioDsw n) SmiDsw.wstrobe c.wstrobe.toNat,
  .field (smioDsw n) SmiDsw.wdreq c.wdreq.toNat,
  .field (smioDsw n) SmiDsw.wswap c.wswap.toNat,
  .field (smioDsw n) SmiDsw.wformat c.wformat.toNat]

/-- `dmaen` is a field of `SMI_DC`, but the register written is `SMI_DCS`. -/
def dmaSetupOps : List RegOp := [
  .field smioCs SmiCs.clear 1,
  .field smioCs SmiCs.pxldat 1,
  .field smioCs SmiCs.enable 1,
  .field smioDcs SmiDc.dmaen 1]

def SmiRw.readSlot (rw : SmiRw) (n : BitVec 8) : SmiRead :=
  rw.rconfig ⟨n.toNat%4,Nat.mod_lt _ (by decide)⟩
def SmiRw.writeSlot (rw : SmiRw) (n : BitVec 8) : SmiWrite :=
  rw.wconfig ⟨n.toNat%4,Nat.mod_lt _ (by decide)⟩

theorem readSlot_eq (rw : SmiRw) {n : BitVec 8} {d : Fin 4} (h : n.toNat = d) :
    rw.readSlot n = rw.rconfig d := by
  have hmod : n.toNat%4 = d := by omega
  exact congrArg rw.rconfig (Fin.ext hmod)

theorem writeSlot_eq (rw : SmiRw) {n : BitVec 8} {d : Fin 4} (h : n.toNat = d) :
    rw.writeSlot n = rw.wconfig d := by
  have hmod : n.toNat%4 = d := by omega
  exact congrArg rw.wconfig (Fin.ext hmod)

section Code

variable (env : Env σ) (strayW strayR : ℤ) (cxt : SmiCxt)

def smiConfigureReadDevice (n : BitVec 8) : Drv σ ℤ := do
  if 3 < n.toNat then
    error "Device number out of range"
    return smiErrInvalidDevice
  regOps env (configureReadOps n.toNat (cxt.rwConfig.readSlot n))
  return strayR

def smiConfigureWriteDevice (n : BitVec 8) : Drv σ ℤ := do
  if 3 < n.toNat then
    error "Device number out of range"
    return smiErrInvalidDevice
  regOps env (configureWriteOps n.toNat (cxt.rwConfig.writeSlot n))
  return strayW

def smiSyncContextDevice : Drv σ ℤ := do
  let err ← smiConfigureWriteDevice env strayW cxt cxt.rwConfig.writeDeviceNum
  if err < smiOk then return err
  let err ← smiConfigureReadDevice env strayR cxt cxt.rwConfig.readDeviceNum
  if err < smiOk then return err
  return err

def smiDmaSetup : Drv σ Unit := do
  regOps env dmaSetupOps
  if ← readField env smioCs SmiCs.seterr then
    error "SMI SETERR true\n"
    setField env smioCs SmiCs.seterr 1

end Code

/-- The statements that the synchronisation comes to. -/
def syncOps (strayW : ℤ) (cxt : SmiCxt) : List RegOp :=
  let rw := cxt.rwConfig
  if 3 < rw.writeDeviceNum.toNat then []
  else configureWriteOps rw.writeDeviceNum.toNat (rw.writeSlot rw.writeDeviceNum) ++
    if strayW < 0 ∨ 3 < rw.readDeviceNum.toNat then []
    else configureReadOps rw.readDeviceNum.toNat (rw.readSlot rw.readDeviceNum)

/-- What the synchronisation returns. -/
def syncCode (strayW strayR : ℤ) (cxt : SmiCxt) : ℤ :=
  if 3 < cxt.rwConfig.writeDeviceNum.toNat then smiErrInvalidDevice
  else if strayW < 0 then strayW
  else if 3 < cxt.rwConfig.readDeviceNum.toNat then smiErrInvalidDevice
  else strayR

section Sync

variable (env : Env σ) (strayW strayR : ℤ) (cxt : SmiCxt)

theorem smiConfigureReadDevice_run {n : BitVec 8} (h : ¬ 3 < n.toNat) (w : World σ) :
    smiConfigureReadDevice env strayR cxt n w =
      (some strayR,w.apply env (configureReadOps n.toNat (cxt.rwConfig.readSlot n))) := by
  simp [smiConfigureReadDevice,h,bind_apply]

theorem smiConfigureWriteDevice_run {n : BitVec 8} (h : ¬ 3 < n.toNat) (w : World σ) :
    smiConfigureWriteDevice env strayW cxt n w =
      (some strayW,w.apply env (configureWriteOps n.toNat (cxt.rwConfig.writeSlot n))) := by
  simp [smiConfigureWriteDevice,h,bind_apply]

theorem smiConfigureReadDevice_refused {n : BitVec 8} (h : 3 < n.toNat) (w : World σ) :
    smiConfigureReadDevice env strayR cxt n w =
      (some smiErrInvalidDevice,w.report "Device number out of range") := by
  simp [smiConfigureReadDevice,h,bind_apply]

theorem smiConfigureWriteDevice_refused {n : BitVec 8} (h : 3 < n.toNat) (w : World σ) :
    smiConfigureWriteDevice env strayW cxt n w =
      (some smiErrInvalidDevice,w.report "Device number out of range") := by
  simp [smiConfigureWriteDevice,h,bind_apply]

theorem smiSyncContextDevice_run (w : World σ) : ∃ v,
    smiSyncContextDevice env strayW strayR cxt w = (some (syncCode strayW strayR cxt),v) ∧
      (v = w.apply env (syncOps strayW cxt) ∨
        v = (w.apply env (syncOps strayW cxt)).report "Device number out of range") := by
  by_cases hw : 3 < cxt.rwConfig.writeDeviceNum.toNat
  · refine ⟨_,?_,.inr rfl⟩
    simp only [smiSyncContextDevice,syncOps,syncCode,hw,
      bind_run (smiConfigureWriteDevice_refused env strayW cxt hw w)]
    rfl
  · simp only [smiSyncContextDevice,syncOps,syncCode,hw,if_false,
      bind_run (smiConfigureWriteDevice_run env strayW cxt hw w)]
    by_cases hs : strayW < 0
    · simp [smiOk,hs]
    · by_cases hr : 3 < cxt.rwConfig.readDeviceNum.toNat
      · simp [smiOk,hs,hr,bind_run (smiConfigureReadDevice_refused env strayR cxt hr _),
          smiErrInvalidDevice]
      · rw [if_neg (show ¬ strayW < smiOk from hs),
          bind_run (smiConfigureReadDevice_run env strayR cxt hr _)]
        simp only [hs,hr,if_false,World.apply_append,or_self]
        split_ifs <;> exact ⟨_,rfl,.inl rfl⟩

theorem passes_sync {env : Env σ} {regs : σ → RegFile} (hf : RegisterFile env regs)
    (w : World σ) : w.Passes regs (opMonitor.marks (regs w.dev) (syncOps strayW cxt))
        (smiSyncContextDevice env strayW strayR cxt w).2 ∧
      regs (smiSyncContextDevice env strayW strayR cxt w).2.dev =
        opMonitor.last (regs w.dev) (syncOps strayW cxt) := by
  obtain ⟨hp,hs⟩ := passes_apply hf w (syncOps strayW cxt)
  obtain ⟨v,hrun,rfl | rfl⟩ := smiSyncContextDevice_run env strayW strayR cxt w
  · rw [hrun]
    exact ⟨hp,hs⟩
  · rw [hrun]
    exact ⟨hp.quiet ((quiet_steps hf).report _ _),hs⟩

end Sync

def SmiRead.ofDsr (v : Word) : SmiRead where
  rwidth := BitVec.ofNat 8 (SmiDsr.rwidth.get v)
  rhold := BitVec.ofNat 8 (SmiDsr.rhold.get v)
  rpace := BitVec.ofNat 8 (SmiDsr.rpace.get v)
  rstrobe := BitVec.ofNat 8 (SmiDsr.rstrobe.get v)
  rsetup := BitVec.ofNat 8 (SmiDsr.rsetup.get v)
  mode68 := SmiDsr.mode68.test v
  fsetup := SmiDsr.fsetup.test v
  rpaceall := SmiDsr.rpaceall.test v
  rdreq := SmiDsr.rdreq.test v

def SmiRead.reduce (c : SmiRead) : SmiRead := { c with
  rwidth := c.rwidth%4
  rhold := c.rhold%64
  rpace := c.rpace%128
  rstrobe := c.rstrobe%128
  rsetup := c.rsetup%64 }

structure SmiRead.InRange (c : SmiRead) : Prop where
  rwidth : c.rwidth.toNat < 4
  rhold : c.rhold.toNat < 64
  rpace : c.rpace.toNat < 128
  rstrobe : c.rstrobe.toNat < 128
  rsetup : c.rsetup.toNat < 64

theorem SmiRead.InRange.reduce_eq {c : SmiRead} (h : c.InRange) : c.reduce = c := by
  have hmod (x y : BitVec 8) (hx : x.toNat < y.toNat) : x%y = x := BitVec.umod_eq_of_lt hx
  rw [SmiRead.reduce,hmod _ 4 h.rwidth,hmod _ 64 h.rhold,hmod _ 128 h.rpace,
    hmod _ 128 h.rstrobe,hmod _ 64 h.rsetup]

theorem isSettings_dsr (d : Fin 4) : (smioDsr d).IsSettings := by
  have hd := d.isLt
  show 0x10 ≤ _ ∧ _ < 0x30
  omega

theorem isSettings_dsw (d : Fin 4) : (smioDsw d).IsSettings := by
  have hd := d.isLt
  show 0x10 ≤ _ ∧ _ < 0x30
  omega

def dsrFields (c : SmiRead) : List (Field 32 × ℕ) := [
  (SmiDsr.rstrobe,c.rstrobe.toNat),(SmiDsr.rdreq,c.rdreq.toNat),(SmiDsr.rpace,c.rpace.toNat),
  (SmiDsr.rpaceall,c.rpaceall.toNat),(SmiDsr.rhold,c.rhold.toNat),
  (SmiDsr.fsetup,c.fsetup.toNat),(SmiDsr.mode68,c.mode68.toNat),
  (SmiDsr.rsetup,c.rsetup.toNat),(SmiDsr.rwidth,c.rwidth.toNat)]

theorem dsr_disjoint (c : SmiRead) : ((dsrFields c).map Prod.fst).Pairwise Field.Disjoint := by
  show [SmiDsr.rstrobe,SmiDsr.rdreq,SmiDsr.rpace,SmiDsr.rpaceall,SmiDsr.rhold,SmiDsr.fsetup,
    SmiDsr.mode68,SmiDsr.rsetup,SmiDsr.rwidth].Pairwise Field.Disjoint
  decide

theorem byte_umod (x : BitVec 8) {y : BitVec 8} {n : ℕ} (hy : y.toNat = n) :
    BitVec.ofNat 8 (x.toNat%n) = x%y := by
  subst hy
  apply BitVec.eq_of_toNat_eq
  rw [BitVec.toNat_ofNat,BitVec.toNat_umod]
  exact Nat.mod_eq_of_lt (lt_of_le_of_lt (Nat.mod_le _ _) x.isLt)

theorem bit_of_field (b : Bool) : (b.toNat%2^1 != 0) = b := by cases b <;> rfl

theorem ofDsr_configure (F : RegFile) (d : Fin 4) (c : SmiRead) :
    SmiRead.ofDsr (opMonitor.last F (configureReadOps d c) (smioDsr d)) = c.reduce := by
  have hget {p : Field 32 × ℕ} (hp : p ∈ dsrFields c) :
      p.1.get (opMonitor.last F (configureReadOps d c) (smioDsr d)) = p.2%2^p.1.width :=
    get_last_fields (fun _ _ => stored_settings (isSettings_dsr d) _) (dsr_disjoint c) F hp
  have h₁ := hget (p := (SmiDsr.rwidth,c.rwidth.toNat)) (by simp [dsrFields])
  have h₂ := hget (p := (SmiDsr.rhold,c.rhold.toNat)) (by simp [dsrFields])
  have h₃ := hget (p := (SmiDsr.rpace,c.rpace.toNat)) (by simp [dsrFields])
  have h₄ := hget (p := (SmiDsr.rstrobe,c.rstrobe.toNat)) (by simp [dsrFields])
  have h₅ := hget (p := (SmiDsr.rsetup,c.rsetup.toNat)) (by simp [dsrFields])
  have h₆ := hget (p := (SmiDsr.mode68,c.mode68.toNat)) (by simp [dsrFields])
  have h₇ := hget (p := (SmiDsr.fsetup,c.fsetup.toNat)) (by simp [dsrFields])
  have h₈ := hget (p := (SmiDsr.rpaceall,c.rpaceall.toNat)) (by simp [dsrFields])
  have h₉ := hget (p := (SmiDsr.rdreq,c.rdreq.toNat)) (by simp [dsrFields])
  simp only at h₁ h₂ h₃ h₄ h₅ h₆ h₇ h₈ h₉
  simp only [SmiRead.ofDsr,SmiRead.reduce,Field.test,h₁,h₂,h₃,h₄,h₅,h₆,h₇,h₈,h₉]
  rw [byte_umod c.rwidth (y := 4) (n := 2^SmiDsr.rwidth.width) rfl,
    byte_umod c.rhold (y := 64) (n := 2^SmiDsr.rhold.width) rfl,
    byte_umod c.rpace (y := 128) (n := 2^SmiDsr.rpace.width) rfl,
    byte_umod c.rstrobe (y := 128) (n := 2^SmiDsr.rstrobe.width) rfl,
    byte_umod c.rsetup (y := 64) (n := 2^SmiDsr.rsetup.width) rfl]
  simp only [SmiDsr.mode68,SmiDsr.fsetup,SmiDsr.rpaceall,SmiDsr.rdreq,bit_of_field]

/-- The register of the read device decodes to the configuration, and those of the other devices
are what they were. -/
structure ReadConfigured (F F' : RegFile) (rd : Fin 4) (rconfig : SmiRead) : Prop where
  own : SmiRead.ofDsr (F' (smioDsr rd)) = rconfig
  others : ∀ d : Fin 4, d ≠ rd → F' (smioDsr d) = F (smioDsr d)

theorem configureOps_reg {r : Reg} {n : ℕ} :
    (∀ c, (smioDsr n ≠ r → ∀ op ∈ configureReadOps n c, op.reg ≠ r)) ∧
    (∀ c, (smioDsw n ≠ r → ∀ op ∈ configureWriteOps n c, op.reg ≠ r)) := by
  constructor <;> intro c h <;> simp [configureReadOps,configureWriteOps,RegOp.reg,h]

section Init

variable (strayW strayR : ℤ) (cxt : SmiCxt) (rw : SmiRw) (rconfig : SmiRead) (wconfig : SmiWrite)
  (rd wd : Fin 4)

theorem readDeviceNum_init : (smiInitRwConfig cxt rw rconfig wconfig (rd : ℕ)
    wd).rwConfig.readDeviceNum.toNat = rd := by
  have hd := rd.isLt
  simp [smiInitRwConfig]
  omega

theorem writeDeviceNum_init : (smiInitRwConfig cxt rw rconfig wconfig (rd : ℕ)
    wd).rwConfig.writeDeviceNum.toNat = wd := by
  have hd := wd.isLt
  simp [smiInitRwConfig]
  omega

theorem syncOps_init : ∃ c, syncOps strayW (smiInitRwConfig cxt rw rconfig wconfig (rd : ℕ) wd) =
    configureWriteOps wd c ++ if strayW < 0 then []
      else configureReadOps rd (Function.update rw.rconfig wd rconfig rd) := by
  have hr := readDeviceNum_init cxt rw rconfig wconfig rd wd
  have hw := writeDeviceNum_init cxt rw rconfig wconfig rd wd
  have hrd : ¬ 3 < rd.val := by omega
  have hwd : ¬ 3 < wd.val := by omega
  have hslot : (smiInitRwConfig cxt rw rconfig wconfig (rd : ℕ) wd).rwConfig.readSlot
      (smiInitRwConfig cxt rw rconfig wconfig (rd : ℕ) wd).rwConfig.readDeviceNum =
      Function.update rw.rconfig wd rconfig rd := by
    rw [readSlot_eq _ hr]
    rfl
  refine ⟨(smiInitRwConfig cxt rw rconfig wconfig (rd : ℕ) wd).rwConfig.writeSlot
    (smiInitRwConfig cxt rw rconfig wconfig (rd : ℕ) wd).rwConfig.writeDeviceNum,?_⟩
  simp only [syncOps,hr,hw,hrd,hwd,hslot,if_false,or_false]

theorem initSync_others (F : RegFile) {d : Fin 4} (hd : d ≠ rd) :
    opMonitor.last F (syncOps strayW (smiInitRwConfig cxt rw rconfig wconfig (rd : ℕ) wd))
      (smioDsr d) = F (smioDsr d) := by
  obtain ⟨c,hops⟩ := syncOps_init strayW cxt rw rconfig wconfig rd wd
  have hne : smioDsr rd ≠ smioDsr d := mt smioDsr_inj.mp fun h => hd (Fin.ext h.symm)
  rw [hops]
  refine last_of_ne (fun op ho => ?_) F
  rcases List.mem_append.mp ho with ho | ho
  · exact configureOps_reg.2 c (smioDsw_ne_dsr _ _) op ho
  · split_ifs at ho
    · cases ho
    · exact configureOps_reg.1 _ hne op ho

theorem initSync_own (F : RegFile) : SmiRead.ofDsr
    (opMonitor.last F (syncOps strayW (smiInitRwConfig cxt rw rconfig wconfig (rd : ℕ) wd))
      (smioDsr rd)) = if strayW < 0 then SmiRead.ofDsr (F (smioDsr rd))
      else (Function.update rw.rconfig wd rconfig rd).reduce := by
  obtain ⟨c,hops⟩ := syncOps_init strayW cxt rw rconfig wconfig rd wd
  have hwrite : opMonitor.last F (configureWriteOps wd c) (smioDsr rd) = F (smioDsr rd) :=
    last_of_ne (configureOps_reg.2 c (smioDsw_ne_dsr _ _)) F
  rw [hops,Monitor.last_append]
  split_ifs
  · rw [Monitor.last_nil,hwrite]
  · exact ofDsr_configure _ rd _

/-- The configuration is stored in the slot of the write device and programmed from the slot of
the read device. It reaches its register when the two agree, or when that slot or, where the code
gives up on a value nobody returned, the register held it before. -/
theorem readConfigured_iff {env : Env σ} {regs : σ → RegFile} (hf : RegisterFile env regs)
    (hr : rconfig.InRange) (w : World σ) :
    ReadConfigured (regs w.dev) (regs (smiSyncContextDevice env strayW strayR
        (smiInitRwConfig cxt rw rconfig wconfig (rd : ℕ) wd) w).2.dev) rd rconfig ↔
      if strayW < 0 then SmiRead.ofDsr (regs w.dev (smioDsr rd)) = rconfig
      else rd = wd ∨ (rw.rconfig rd).reduce = rconfig := by
  rw [(passes_sync _ _ _ hf w).2]
  have hown := initSync_own strayW cxt rw rconfig wconfig rd wd (regs w.dev)
  have hiff : ReadConfigured (regs w.dev) (opMonitor.last (regs w.dev)
      (syncOps strayW (smiInitRwConfig cxt rw rconfig wconfig (rd : ℕ) wd))) rd rconfig ↔
      SmiRead.ofDsr (opMonitor.last (regs w.dev)
        (syncOps strayW (smiInitRwConfig cxt rw rconfig wconfig (rd : ℕ) wd)) (smioDsr rd)) =
        rconfig :=
    ⟨fun h => h.own,fun h => ⟨h,fun d hd => initSync_others strayW cxt rw rconfig wconfig rd wd
      (regs w.dev) hd⟩⟩
  rw [hiff,hown]
  split_ifs
  · rfl
  · by_cases hd : rd = wd
    · subst hd
      simp [hr.reduce_eq]
    · simp [hd]

end Init

def threeCycles : SmiRead := ⟨0,0,0,3,0,false,false,false,false⟩

theorem readConfigured_iff_storage : RegisterFile storageEnv storedFile ∧ threeCycles.InRange ∧
    (ReadConfigured (storedFile fun _ => 0) (storedFile (smiSyncContextDevice storageEnv 0 0
        (smiInitRwConfig (deviceCxt 0 false false false) (secondDeviceCxt 0).rwConfig threeCycles
          ⟨0,0,0,0,0,false,false,false,false⟩ (1 : Fin 4).val 1) (World.init fun _ => 0)).2.dev)
        1 threeCycles ↔
      if (0 : ℤ) < 0 then SmiRead.ofDsr (storedFile (fun _ => 0) (smioDsr 1)) = threeCycles
      else (1 : Fin 4) = 1 ∨ ((secondDeviceCxt 0).rwConfig.rconfig 1).reduce = threeCycles) :=
  ⟨storageEnv_registerFile,⟨by decide,by decide,by decide,by decide,by decide⟩,
    readConfigured_iff 0 0 _ _ threeCycles _ 1 1 storageEnv_registerFile
      ⟨by decide,by decide,by decide,by decide,by decide⟩ (World.init fun _ => 0)⟩

/-- Reading from device 1 and writing to device 0: device 1 gets what its slot held before. -/
theorem readConfigured_not : ¬ ∀ (cxt : SmiCxt) (rw : SmiRw) (wconfig : SmiWrite) (rd wd : Fin 4)
    (w : World RegFile), ReadConfigured (storedFile w.dev)
      (storedFile (smiSyncContextDevice storageEnv 0 0
        (smiInitRwConfig cxt rw threeCycles wconfig (rd : ℕ) wd) w).2.dev) rd threeCycles := by
  intro h
  have hown := (h (deviceCxt 0 false false false) (secondDeviceCxt 0).rwConfig
    ⟨0,0,0,0,0,false,false,false,false⟩ 1 0 (World.init fun _ => 0)).own
  rw [(passes_sync _ _ _ storageEnv_registerFile _).2,initSync_own] at hown
  revert hown
  decide

end RpiSmi
