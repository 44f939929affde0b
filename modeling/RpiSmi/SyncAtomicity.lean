import RpiSmi.WriteConfigured

/-!
# Synchronisation as one step

`smi_sync_context_device` programs the write device before it looks at the
number of the read device, and what it returns on success is left to chance.
-/

namespace RpiSmi

open Exec BitField History

variable {σ : Type}

def SmiRw.InRange (rw : SmiRw) : Prop :=
  rw.writeDeviceNum.toNat ≤ 3 ∧ rw.readDeviceNum.toNat ≤ 3

instance (rw : SmiRw) : Decidable rw.InRange := inferInstanceAs (Decidable (_ ∧ _))

/-- All or nothing: in range `SMI_OK`, and no register but the two of the devices in use changes;
out of range a negative code, and no settings register changes. -/
structure SyncAtomic (rw : SmiRw) (F F' : RegFile) (code : ℤ) : Prop where
  ok_iff : code = smiOk ↔ rw.InRange
  others : rw.InRange → ∀ r : Reg, r ≠ smioDsr rw.readDeviceNum.toNat →
    r ≠ smioDsw rw.writeDeviceNum.toNat → F' r = F r
  negative : ¬ rw.InRange → code < 0
  kept : ¬ rw.InRange → ∀ r : Reg, r.IsSettings → F' r = F r

/-- The register of a write device holds, field by field, what the code would program. -/
def AlreadyWritten (F : RegFile) (n : ℕ) (c : SmiWrite) : Prop :=
  ∀ p ∈ dswFields c, p.1.get (F (smioDsw n)) = p.2%2^p.1.width

instance (F : RegFile) (n : ℕ) (c : SmiWrite) : Decidable (AlreadyWritten F n c) :=
  inferInstanceAs (Decidable (∀ p ∈ dswFields c, _))

theorem foldl_set_eq_self {r : Reg} {l : List (Field 32 × ℕ)} {x : Word}
    (h : ∀ p ∈ l, p.1.get x = p.2%2^p.1.width) :
    (l.map fun p => RegOp.field r p.1 p.2).foldl (RegOp.onSettings r) x = x := by
  induction l with
  | nil => rfl
  | cons p l ih =>
    have hp := (p.1.set_eq_self_iff p.2 x).mpr (h p (List.mem_cons_self ..))
    rw [List.map_cons,List.foldl_cons,RegOp.onSettings,if_pos rfl,hp]
    exact ih fun q hq => h q (List.mem_cons_of_mem p hq)

theorem configureWrite_eq_self_iff (F : RegFile) (d : Fin 4) (c : SmiWrite) :
    opMonitor.last F (configureWriteOps d c) (smioDsw d) = F (smioDsw d) ↔
      AlreadyWritten F d c := by
  have hset := isSettings_dsw d
  constructor
  · intro h p hp
    rw [← h]
    exact get_last_fields (fun _ _ => stored_settings hset _) (dsw_disjoint c) F hp
  · intro h
    rw [last_settings hset]
    exact foldl_set_eq_self h

/-- The write device programmed and the read device refused: nothing has changed if the register
held it all. -/
theorem configureWrite_kept_iff (F : RegFile) (d : Fin 4) (c : SmiWrite) :
    (∀ r : Reg, r.IsSettings → opMonitor.last F (configureWriteOps d c) r = F r) ↔
      AlreadyWritten F d c := by
  rw [← configureWrite_eq_self_iff]
  refine ⟨fun h => h _ (isSettings_dsw d),fun h r _ => ?_⟩
  by_cases hr : smioDsw d = r
  · exact hr ▸ h
  · exact last_of_ne (configureOps_reg.2 c hr) F

/-- When the synchronisation is one step: the write device is refused, or both are accepted and
what nobody returned happens to be right, or there was nothing to program. -/
def SyncsAsOne (F : RegFile) (strayW strayR : ℤ) (rw : SmiRw) : Prop :=
  3 < rw.writeDeviceNum.toNat ∨
  (rw.InRange ∧ 0 ≤ strayW ∧ strayR = smiOk) ∨
  (rw.writeDeviceNum.toNat ≤ 3 ∧ 3 < rw.readDeviceNum.toNat ∧
    AlreadyWritten F rw.writeDeviceNum.toNat (rw.writeSlot rw.writeDeviceNum))

theorem syncOps_reg {strayW : ℤ} {cxt : SmiCxt} {r : Reg}
    (hr : r ≠ smioDsr cxt.rwConfig.readDeviceNum.toNat)
    (hw : r ≠ smioDsw cxt.rwConfig.writeDeviceNum.toNat) :
    ∀ op ∈ syncOps strayW cxt, op.reg ≠ r := by
  intro op hop
  simp only [syncOps] at hop
  split_ifs at hop
  · cases hop
  · rcases List.mem_append.mp hop with hop | hop
    · exact configureOps_reg.2 _ hw.symm op hop
    · cases hop
  · rcases List.mem_append.mp hop with hop | hop
    · exact configureOps_reg.2 _ hw.symm op hop
    · exact configureOps_reg.1 _ hr.symm op hop

section Cases

variable {strayW strayR : ℤ} {cxt : SmiCxt} {F : RegFile}

theorem syncAtomic_refused (hw : 3 < cxt.rwConfig.writeDeviceNum.toNat) :
    SyncAtomic cxt.rwConfig F (opMonitor.last F (syncOps strayW cxt))
      (syncCode strayW strayR cxt) := by
  have hrange : ¬ cxt.rwConfig.InRange := fun h => absurd h.1 (by omega)
  have hops : syncOps strayW cxt = [] := by simp [syncOps,hw]
  have hcode : syncCode strayW strayR cxt = smiErrInvalidDevice := by simp [syncCode,hw]
  rw [hops,hcode]
  exact ⟨by simp [hrange,smiErrInvalidDevice,smiOk],fun h => absurd h hrange,fun _ => by decide,
    fun _ _ _ => rfl⟩

theorem syncAtomic_accepted_iff (hrange : cxt.rwConfig.InRange) :
    SyncAtomic cxt.rwConfig F (opMonitor.last F (syncOps strayW cxt))
      (syncCode strayW strayR cxt) ↔ 0 ≤ strayW ∧ strayR = smiOk := by
  have hw : ¬ 3 < cxt.rwConfig.writeDeviceNum.toNat := not_lt.mpr hrange.1
  have hr : ¬ 3 < cxt.rwConfig.readDeviceNum.toNat := not_lt.mpr hrange.2
  have hcode : syncCode strayW strayR cxt = smiOk ↔ 0 ≤ strayW ∧ strayR = smiOk := by
    by_cases hs : strayW < 0
    · simp [syncCode,hw,hs,smiOk]
      omega
    · simp [syncCode,hw,hr,hs,not_lt.mp hs]
  rw [← hcode]
  constructor
  · intro h
    exact h.ok_iff.mpr hrange
  · intro h
    refine ⟨iff_of_true h hrange,fun _ r hr hw => ?_,fun hn => absurd hrange hn,
      fun hn => absurd hrange hn⟩
    exact last_of_ne (syncOps_reg hr hw) F

theorem syncAtomic_half_iff (hw : cxt.rwConfig.writeDeviceNum.toNat ≤ 3)
    (hr : 3 < cxt.rwConfig.readDeviceNum.toNat) :
    SyncAtomic cxt.rwConfig F (opMonitor.last F (syncOps strayW cxt))
      (syncCode strayW strayR cxt) ↔
    AlreadyWritten F cxt.rwConfig.writeDeviceNum.toNat
      (cxt.rwConfig.writeSlot cxt.rwConfig.writeDeviceNum) := by
  have hrange : ¬ cxt.rwConfig.InRange := fun h => absurd h.2 (by omega)
  have hlow : ¬ 3 < cxt.rwConfig.writeDeviceNum.toNat := by omega
  have hops : syncOps strayW cxt = configureWriteOps cxt.rwConfig.writeDeviceNum.toNat
      (cxt.rwConfig.writeSlot cxt.rwConfig.writeDeviceNum) := by
    simp [syncOps,hlow,hr]
  have hcode : syncCode strayW strayR cxt < 0 := by
    by_cases hs : strayW < 0 <;> simp [syncCode,hlow,hr,hs,smiErrInvalidDevice]
  have hkept := configureWrite_kept_iff F ⟨cxt.rwConfig.writeDeviceNum.toNat,by omega⟩
    (cxt.rwConfig.writeSlot cxt.rwConfig.writeDeviceNum)
  rw [← hkept,hops]
  constructor
  · intro h
    exact h.kept hrange
  · intro h
    refine ⟨iff_of_false ?_ hrange,fun h => absurd h hrange,fun _ => hcode,fun _ => h⟩
    simp only [smiOk]
    omega

end Cases

/-- The synchronisation is all or nothing in these cases only. -/
theorem syncAtomic_iff {env : Env σ} {regs : σ → RegFile} (hf : RegisterFile env regs)
    (strayW strayR : ℤ) (cxt : SmiCxt) (w : World σ) : ∃ code w',
    smiSyncContextDevice env strayW strayR cxt w = (some code,w') ∧
      (SyncAtomic cxt.rwConfig (regs w.dev) (regs w'.dev) code ↔
        SyncsAsOne (regs w.dev) strayW strayR cxt.rwConfig) := by
  obtain ⟨v,hrun,-⟩ := smiSyncContextDevice_run env strayW strayR cxt w
  have hregs := (passes_sync strayW strayR cxt hf w).2
  rw [hrun] at hregs
  refine ⟨_,v,hrun,?_⟩
  rw [hregs]
  unfold SyncsAsOne
  by_cases hw : 3 < cxt.rwConfig.writeDeviceNum.toNat
  · exact iff_of_true (syncAtomic_refused hw) (.inl hw)
  · by_cases hr : 3 < cxt.rwConfig.readDeviceNum.toNat
    · have hrange : ¬ cxt.rwConfig.InRange := fun h => absurd h.2 (by omega)
      rw [syncAtomic_half_iff (not_lt.mp hw) hr]
      simp [hw,hr,hrange,not_lt.mp hw]
    · have hrange : cxt.rwConfig.InRange := ⟨not_lt.mp hw,not_lt.mp hr⟩
      rw [syncAtomic_accepted_iff hrange]
      simp [hw,hr,hrange]

theorem syncAtomic_iff_storage : RegisterFile storageEnv storedFile ∧ ∃ code w',
    smiSyncContextDevice storageEnv 0 0 (deviceCxt 0 false false false) (World.init fun _ => 0) =
      (some code,w') ∧
      (SyncAtomic (deviceCxt 0 false false false).rwConfig (storedFile fun _ => 0)
          (storedFile w'.dev) code ↔
        SyncsAsOne (storedFile fun _ => 0) 0 0 (deviceCxt 0 false false false).rwConfig) :=
  ⟨storageEnv_registerFile,syncAtomic_iff storageEnv_registerFile 0 0
    (deviceCxt 0 false false false) (World.init fun _ => 0)⟩

def strayReadCxt : SmiCxt :=
  let cxt := deviceCxt 0 false false false
  { cxt with rwConfig := { cxt.rwConfig with readDeviceNum := 4 } }

/-- The read device is refused after the settings of the write device are gone. -/
theorem syncAtomic_not : ¬ ∀ (cxt : SmiCxt) (w : World RegFile) (code : ℤ) (w' : World RegFile),
    smiSyncContextDevice storageEnv 0 0 cxt w = (some code,w') →
      SyncAtomic cxt.rwConfig (storedFile w.dev) (storedFile w'.dev) code := by
  intro h
  have hkept := (h strayReadCxt (World.init fun _ => 1) _ _ rfl).kept (by decide) (smioDsw 0)
    (by decide)
  revert hkept
  decide

end RpiSmi
