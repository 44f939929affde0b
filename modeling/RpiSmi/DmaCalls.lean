import RpiSmi.Frames

/-!
# The two DMA calls

Both fill the control block, set up the SMI, call `start_dma` and wait. The
write starts the SMI before the engine, the read after it.
-/

namespace RpiSmi

open Exec

variable {σ : Type}

def writeCb (smiRegs : MemMap) (len : ℤ) (c : DmaCb) : DmaCb := { c with
  ti := dmaDestDreq ||| dmaSmiDreq <<< 16 ||| dmaCbSrceInc
  destAddr := regBusAddrD smiRegs
  tfrLen := BitVec.ofInt 32 (len*4)
  nextCb := 0
  stride := 0 }

def readCb (smiRegs : MemMap) (words : ℤ) (c : DmaCb) : DmaCb := { c with
  ti := dmaSrceDreq ||| dmaSmiDreq <<< 16 ||| dmaCbDestInc ||| dmaWaitRsp
  srcAddr := regBusAddrD smiRegs
  tfrLen := BitVec.ofInt 32 (words*4)
  nextCb := 0
  stride := 0 }

namespace World

variable (env : Env σ) (cxt : SmiCxt) (smiRegs : MemMap) (addr : BitVec 8) (len : ℤ)

def beginWriteDma (w : World σ) : World σ :=
  ((w.withCb (writeCb smiRegs len w.cb)).apply env
    (programmedWriteDmaSetup cxt addr len)).apply env smiStart

def beginReadDma (w : World σ) : World σ :=
  ((ratioWorld cxt w).withCb (readCb smiRegs (wordReads cxt len) (ratioWorld cxt w).cb)).apply env
    (programmedReadDmaSetup cxt addr len)

end World

/-- A DMA call with a null pointer returns before it touches a register. -/
def SmiCxt.HasNull (cxt : SmiCxt) (cb : BitVec 64) : Prop := cb = 0 ∨ cxt.smiRegs = none

instance (cxt : SmiCxt) (cb : BitVec 64) : Decidable (cxt.HasNull cb) :=
  inferInstanceAs (Decidable (_ ∨ _))

def cbAddress (cxt : SmiCxt) (cb : BitVec 64) : BitVec 64 :=
  (memBusAddr cxt.dmaBuffer cb).setWidth 64

def World.cpuSynced (env : Env σ) (fd : ℤ) (w : World σ) : World σ :=
  if env.arm64 then w.synced env fd else w

section Start

variable {env : Env σ} {cb : BitVec 64} {channel : BitVec 8} {fd : ℤ} {w : World σ}

theorem syncForCpu_run (env : Env σ) (fd : ℤ) (w : World σ) :
    syncForCpu env fd w = (some (),w.cpuSynced env fd) := rfl

theorem startDma_null (hcb : cb = 0) :
    startDma env cb channel fd w = (some (-1),w.report "CB Null Pointer") := by
  rw [startDma,ite_run,if_pos hcb]
  rfl

theorem startDma_range (hcb : cb ≠ 0) (hch : 14 < channel.toNat) :
    startDma env cb channel fd w = (some (-1),w.report "Channel out of range") := by
  rw [startDma,ite_run,if_neg hcb,ite_run,if_pos hch]
  rfl

theorem startDma_active (hcb : cb ≠ 0) (hch : ¬ 14 < channel.toNat)
    (ha : DmaCs.active.test ((w.cpuSynced env fd).value env (dmaCsOffset channel.toNat)) = true) :
    startDma env cb channel fd w = (some (-1),((w.cpuSynced env fd).read env
      (dmaCsOffset channel.toNat)).report "DMA already active") := by
  rw [startDma,ite_run,if_neg hcb,ite_run,if_neg hch,bind_run (syncForCpu_run env fd w)]
  simp [bind_apply,ha]

theorem startDma_started (hcb : cb ≠ 0) (hch : ¬ 14 < channel.toNat)
    (ha : DmaCs.active.test ((w.cpuSynced env fd).value env (dmaCsOffset channel.toNat)) = false) :
    startDma env cb channel fd w = (some 0,(((w.cpuSynced env fd).read env
      (dmaCsOffset channel.toNat)).write env (dmaCtrlBlk channel.toNat) (cb.setWidth 32)).assign
        env (dmaCsOffset channel.toNat) DmaCs.active 1) := by
  rw [startDma,ite_run,if_neg hcb,ite_run,if_neg hch,bind_run (syncForCpu_run env fd w)]
  simp [bind_apply,ha]

theorem startDma_returns (env : Env σ) (cb : BitVec 64) (channel : BitVec 8) (fd : ℤ)
    (w : World σ) : ∃ code v, startDma env cb channel fd w = (some code,v) := by
  by_cases hcb : cb = 0
  · exact ⟨_,_,startDma_null hcb⟩
  by_cases hch : 14 < channel.toNat
  · exact ⟨_,_,startDma_range hcb hch⟩
  rcases ha : DmaCs.active.test ((w.cpuSynced env fd).value env (dmaCsOffset channel.toNat))
  · exact ⟨_,_,startDma_started hcb hch ha⟩
  · exact ⟨_,_,startDma_active hcb hch ha⟩

end Start

section Run

variable {env : Env σ} {cxt : SmiCxt} {smiRegs : MemMap} {cb : BitVec 64}

theorem smiProgrammedWriteDma_run (hcb : cb ≠ 0) (hr : cxt.smiRegs = some smiRegs) (fuel : ℕ)
    (addr : BitVec 8) (len channel : ℤ) (w : World σ) :
    smiProgrammedWriteDma env fuel (some cxt) cb addr len channel w =
      (startDma env (cbAddress cxt cb) (BitVec.ofInt 8 channel) cxt.fdSyncCpu >>= fun _ =>
        smiDmaAwait env fuel) (w.beginWriteDma env cxt smiRegs addr len) := by
  simp only [smiProgrammedWriteDma,hcb,hr,if_false]
  exact (bind_run (modifyCb_run _ w) _).trans
    ((bind_run (regOps_run env _ _) _).trans (bind_run (regOps_run env _ _) _))

theorem smiProgrammedReadDma_run (hcb : cb ≠ 0) (hr : cxt.smiRegs = some smiRegs) (fuel : ℕ)
    (addr : BitVec 8) (len channel : ℤ) (w : World σ) :
    smiProgrammedReadDma env fuel (some cxt) cb addr len channel w =
      (startDma env (cbAddress cxt cb) (BitVec.ofInt 8 channel) cxt.fdSyncCpu >>= fun _ =>
        regOps env smiStart >>= fun _ => smiDmaAwait env fuel)
        (w.beginReadDma env cxt smiRegs addr len) := by
  simp only [smiProgrammedReadDma,hcb,hr,if_false,bind_run (smiPackedRatio_run cxt w)]
  exact (bind_run (modifyCb_run _ _) _).trans (bind_run (regOps_run env _ _) _)

theorem smiProgrammedWriteDma_null (h : cxt.HasNull cb) (fuel : ℕ)
    (addr : BitVec 8) (len channel : ℤ) (w : World σ) :
    smiProgrammedWriteDma env fuel (some cxt) cb addr len channel w = (some (-1),w) := by
  rcases h with h | h <;> simp [smiProgrammedWriteDma,h]

theorem smiProgrammedReadDma_null (h : cxt.HasNull cb) (fuel : ℕ)
    (addr : BitVec 8) (len channel : ℤ) (w : World σ) :
    smiProgrammedReadDma env fuel (some cxt) cb addr len channel w = (some (-1),w) := by
  rcases h with h | h <;> simp [smiProgrammedReadDma,h]

end Run
end RpiSmi
