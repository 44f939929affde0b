import RpiSmi.SettingsCoherence

/-!
# What transfers leave of the devices' settings

The settings of a device are mostly timing: setup, hold, pace and strobe counts. A
transfer may change the width a device reads with, and the format and swap flags
it writes with, and nothing else.
-/

namespace RpiSmi

open Exec BitField History

variable {σ : Type}

/-- The fields of a settings register that transfers assign: of a DSR the width, of a DSW the
format and the swap flag. -/
def decodeMask : Reg → Word
  | .smi off =>
    if off%8 = 0 then SmiDsr.rwidth.mask else SmiDsw.wformat.mask ||| SmiDsw.wswap.mask
  | .dma _ => 0

theorem decodeMask_dsr (n : ℕ) : decodeMask (smioDsr n) = SmiDsr.rwidth.mask := by
  rw [smioDsr,decodeMask,if_pos (by omega)]

theorem decodeMask_dsw (n : ℕ) :
    decodeMask (smioDsw n) = SmiDsw.wformat.mask ||| SmiDsw.wswap.mask := by
  rw [smioDsw,decodeMask,if_neg (by omega)]

theorem set_outside {f : Field 32} {m : Word} (h : f.mask &&& m = f.mask) (v : ℕ) (x : Word) :
    f.set v x &&& ~~~m = x &&& ~~~m := by
  apply BitVec.eq_of_getLsbD_eq
  intro i hi
  have hbit := congrArg (·.getLsbD i) h
  simp only [BitVec.getLsbD_and,f.getLsbD_mask] at hbit
  rw [BitVec.getLsbD_and,BitVec.getLsbD_and,BitVec.getLsbD_not,f.getLsbD_set v x hi]
  split_ifs with hr
  · simp only [hr,and_self,decide_true,Bool.true_and] at hbit
    simp [hbit]
  · rfl

def RegOp.Gentle : RegOp → Prop
  | .field r f _ => r.IsSettings → f.mask &&& decodeMask r = f.mask
  | .value r _ => ¬ r.IsSettings

theorem gentle_dsr (n v : ℕ) : (RegOp.field (smioDsr n) SmiDsr.rwidth v).Gentle := by
  intro _
  rw [decodeMask_dsr]
  decide

theorem gentle_wformat (n v : ℕ) : (RegOp.field (smioDsw n) SmiDsw.wformat v).Gentle := by
  intro _
  rw [decodeMask_dsw]
  decide

theorem gentle_wswap (n v : ℕ) : (RegOp.field (smioDsw n) SmiDsw.wswap v).Gentle := by
  intro _
  rw [decodeMask_dsw]
  decide

theorem gentle_of_not {op : RegOp} (h : ¬ op.reg.IsSettings) : op.Gentle := by
  cases op with
  | field r f v => exact fun hr => absurd hr h
  | value r v => exact h

theorem gentle_last {r : Reg} (hr : r.IsSettings) {ops : List RegOp} (h : ∀ op ∈ ops, op.Gentle)
    (F : RegFile) :
    opMonitor.last F ops r &&& ~~~decodeMask r = F r &&& ~~~decodeMask r := by
  rw [last_settings hr]
  generalize F r = x
  induction ops generalizing x with
  | nil => rfl
  | cons op ops ih =>
    rw [List.foldl_cons,ih fun op' h' => h op' (List.mem_cons_of_mem op h')]
    have hop := h op (List.mem_cons_self ..)
    cases op with
    | field r' f v =>
      simp only [RegOp.onSettings]
      split_ifs with he
      · subst he
        exact set_outside (hop hr) v x
      · rfl
    | value r' v =>
      have hne : r' ≠ r := by
        rintro rfl
        exact hop hr
      simp only [RegOp.onSettings,hne,if_false]

/-- The settings registers that a call may assign to. -/
def Invocation.Retunes (c : Invocation) (r : Reg) : Prop :=
  match c.entry with
  | .directRead .. | .directReadArr .. | .directWrite .. | .directWriteArr .. => r = smioDsr 0
  | .programmed (.readArr ..) => r = smioDsr c.cxt.rwConfig.readDeviceNum.toNat ∨
      r = smioDsw c.cxt.rwConfig.writeDeviceNum.toNat
  | _ => False

def RegOp.GentleOn (op : RegOp) (retunes : Reg → Prop) : Prop :=
  op.Gentle ∧ (op.reg.IsSettings → retunes op.reg)

theorem gentleOn_of_settings {op : RegOp} {retunes : Reg → Prop}
    (h : op.reg.IsSettings → op.Gentle ∧ retunes op.reg) : op.GentleOn retunes := by
  by_cases hr : op.reg.IsSettings
  · exact ⟨(h hr).1,fun _ => (h hr).2⟩
  · exact ⟨gentle_of_not hr,fun hr' => absurd hr' hr⟩

theorem directSetup_gentleOn (write : ℕ) (addr : BitVec 8) :
    ∀ op ∈ directSetup write addr, op.GentleOn (· = smioDsr 0) := by
  have hset : ∀ op ∈ directSetup write addr, op.reg.IsSettings →
      op = .field (smioDsr 0) SmiDsr.rwidth 0 := by
    simp +decide [directSetup,RegOp.reg]
  refine fun op ho => gentleOn_of_settings fun hr => ?_
  rw [hset op ho hr]
  exact ⟨gentle_dsr 0 0,rfl⟩

theorem directReadArrSetup_gentleOn (cxt : SmiCxt) (addr : BitVec 8) :
    ∀ op ∈ directReadArrSetup cxt addr, op.GentleOn (· = smioDsr 0) := by
  have hset : ∀ op ∈ directReadArrSetup cxt addr, op.reg.IsSettings →
      op = .field (smioDsr 0) SmiDsr.rwidth cxt.rwidth.toNat := by
    simp +decide [directReadArrSetup,RegOp.reg]
  refine fun op ho => gentleOn_of_settings fun hr => ?_
  rw [hset op ho hr]
  exact ⟨gentle_dsr 0 _,rfl⟩

theorem programmedReadSetup_gentleOn (cxt : SmiCxt) (addr : BitVec 8) (len : ℤ) :
    ∀ op ∈ programmedReadSetup cxt addr len, op.GentleOn fun r =>
      r = smioDsr cxt.rwConfig.readDeviceNum.toNat ∨
        r = smioDsw cxt.rwConfig.writeDeviceNum.toNat := by
  have hset : ∀ op ∈ programmedReadSetup cxt addr len, op.reg.IsSettings →
      op = .field (smioDsr cxt.rwConfig.readDeviceNum.toNat) SmiDsr.rwidth cxt.rwidth.toNat ∨
      op = .field (smioDsw cxt.rwConfig.writeDeviceNum.toNat) SmiDsw.wformat cxt.wformat.toNat ∨
      op = .field (smioDsw cxt.rwConfig.writeDeviceNum.toNat) SmiDsw.wswap cxt.wswap.toNat := by
    simp +decide [programmedReadSetup,smiStart,RegOp.reg]
  refine fun op ho => gentleOn_of_settings fun hr => ?_
  rcases hset op ho hr with rfl | rfl | rfl
  · exact ⟨gentle_dsr _ _,.inl rfl⟩
  · exact ⟨gentle_wformat _ _,.inr rfl⟩
  · exact ⟨gentle_wswap _ _,.inr rfl⟩

theorem gentleOn_of_none {ops : List RegOp} (h : ∀ op ∈ ops, ¬ op.reg.IsSettings)
    (retunes : Reg → Prop) : ∀ op ∈ ops, op.GentleOn retunes :=
  fun op ho => gentleOn_of_settings fun hr => absurd hr (h op ho)

theorem transfer_gentleOn (env : Env σ) {c : Invocation} (ht : c.entry.IsTransfer) (w : World σ) :
    ∀ op ∈ c.ops env w, op.GentleOn c.Retunes := by
  obtain ⟨cxt,entry,fuel⟩ := c
  cases entry with
  | directRead | directWrite | directWriteArr => exact directSetup_gentleOn _ _
  | directReadArr => exact directReadArrSetup_gentleOn _ _
  | programmed t =>
    cases t with
    | readArr =>
      simp only [Invocation.ops,Transfer.ops]
      split_ifs
      · simp
      · exact programmedReadSetup_gentleOn _ _ _
    | writeArr =>
      exact gentleOn_of_none (by simp +decide [Invocation.ops,Transfer.ops,programmedWriteSetup,
        smiStart,RegOp.reg]) _
    | readDma =>
      simp only [Invocation.ops,Transfer.ops]
      split_ifs
      · simp
      · exact gentleOn_of_none (by simp +decide [programmedReadDmaSetup,smiStart,RegOp.reg]) _
    | writeDma =>
      simp only [Invocation.ops,Transfer.ops]
      split_ifs
      · simp
      · exact gentleOn_of_none (by simp +decide [programmedWriteDmaSetup,smiStart,RegOp.reg]) _
  | sync | dmaSetup => exact ht.elim

/-- The timing of `r` is as it was, and all of its settings if no call may assign to it. -/
structure KeptSettings (retuned : Prop) (r : Reg) (F F' : RegFile) : Prop where
  timing : F' r &&& ~~~decodeMask r = F r &&& ~~~decodeMask r
  rest : ¬ retuned → F' r = F r

section Run

variable {env : Env σ} {regs : σ → RegFile} (hf : RegisterFile env regs) {r : Reg}
  (hr : r.IsSettings)

include hf hr

theorem transfer_keeps {c : Invocation} (ht : c.entry.IsTransfer) (w : World σ) :
    KeptSettings (c.Retunes r) r (regs w.dev) (regs (c.run env w).2.dev) := by
  have hops := transfer_gentleOn env ht w
  rw [(Invocation.run_did hf c w).2]
  refine ⟨gentle_last hr (fun op ho => (hops op ho).1) _,fun hn => ?_⟩
  refine last_of_ne (fun op ho he => hn ?_) _
  exact he ▸ (hops op ho).2 (he ▸ hr)

/-- In any run of transfers, with any contexts and on any device: after each call, also one that
never returns, the timing of every device is what it was at the start, and so are all settings that
no call of the run may assign to. -/
theorem transfers_keep_timing {cs : List Invocation} (hcs : ∀ c ∈ cs, c.entry.IsTransfer)
    (w : World σ) : ∀ p ∈ invoked env cs w,
      KeptSettings (∃ c ∈ cs, c.Retunes r) r (regs w.dev) (regs (p.1.run env p.2).2.dev) := by
  induction cs generalizing w with
  | nil => simp [invoked]
  | cons c cs ih =>
    have hc := transfer_keeps hf hr (hcs c (List.mem_cons_self ..)) w.fresh
    have hhead : KeptSettings (∃ c' ∈ c::cs, c'.Retunes r) r (regs w.dev)
        (regs (c.run env w.fresh).2.dev) :=
      ⟨hc.timing,fun hn => hc.rest fun h => hn ⟨c,List.mem_cons_self ..,h⟩⟩
    rcases hx : c.run env w.fresh with ⟨_ | a,w'⟩
    · rw [hx] at hhead
      simp only [invoked,hx,List.mem_singleton,forall_eq]
      exact hhead
    · simp only [invoked,hx,List.forall_mem_cons]
      rw [hx] at hhead
      refine ⟨hhead,fun p hp => ?_⟩
      have hrest := ih (fun c' h => hcs c' (List.mem_cons_of_mem c h)) w' p hp
      refine ⟨hrest.timing.trans hhead.timing,fun hn => ?_⟩
      have hn' : ¬ ∃ c' ∈ cs, c'.Retunes r := by
        rintro ⟨c',h,hr'⟩
        exact hn ⟨c',List.mem_cons_of_mem c h,hr'⟩
      exact (hrest.rest hn').trans (hhead.rest hn)

end Run

/-- A direct read, which may set the width of device 0, and a DMA read; both leave device 2. -/
theorem transfers_keep_timing_direct : (smioDsw 2).IsSettings ∧
    ∀ p ∈ invoked storageEnv directThenDma (World.init fun _ => 0),
      KeptSettings (∃ c ∈ directThenDma, c.Retunes (smioDsw 2)) (smioDsw 2)
        (storedFile (World.init fun _ => 0).dev) (storedFile (p.1.run storageEnv p.2).2.dev) :=
  ⟨by decide,transfers_keep_timing storageEnv_registerFile (by decide)
    (fun c hc => (directThenDma_transfers c hc).1) (World.init fun _ => 0)⟩

end RpiSmi
