import RpiSmi.DmaTransfer
import RpiSmi.SettingsCoherence

/-!
# Calls beside a channel at rest

Every call but the DMA transfers touches registers of the SMI only. It leaves a
channel at rest, and the memory on the bus, as they are.
-/

namespace RpiSmi

open Exec BitField

def Entry.IsDma : Entry → Prop
  | .programmed (.readDma ..) | .programmed (.writeDma ..) => True
  | _ => False

section Beside

variable {σ : Type} {env : Env σ} {S : Reg → Prop} {A : Reg → Field 32 → Prop}
  {R : World σ → World σ → Prop} [IsPreorder (World σ) R]

theorem forAllSetups_in (hS : ∀ off, S (.smi off)) (hA : ∀ off f, A (.smi off) f) :
    ForAllSetups (RegOp.In S A) where
  direct write addr := by simp [directSetup,RegOp.In,smioCs,smioDcs,smioDa,smioDd,smioDsr,hS,hA]
  directReadArr cxt addr := by
    simp [directReadArrSetup,RegOp.In,smioDcs,smioDa,smioDd,smioDsr,hS,hA]
  readArr cxt addr len := by
    simp [programmedReadSetup,smiStart,RegOp.In,smioCs,smioA,smioL,smioDsr,smioDsw,hA]
  writeArr cxt addr len := by
    simp [programmedWriteSetup,smiStart,RegOp.In,smioCs,smioA,smioL,hA]
  readDma cxt addr len := by
    simp [programmedReadDmaSetup,smiStart,RegOp.In,smioCs,smioA,smioL,smioDc,hA]
  writeDma cxt addr len := by
    simp [programmedWriteDmaSetup,smiStart,RegOp.In,smioCs,smioA,smioL,smioDc,hA]
  configureRead n c _ := by simp [configureReadOps,RegOp.In,smioDsr,hA]
  configureWrite n c _ := by simp [configureWriteOps,RegOp.In,smioDsw,hA]
  dmaSetup := by simp [dmaSetupOps,RegOp.In,smioCs,smioDcs,hA]

theorem Invocation.keeps_run (h : CallSteps env S A R) (hS : ∀ off, S (.smi off))
    (hA : ∀ off f, A (.smi off) f) {c : Invocation} (hc : ¬ c.entry.IsDma) :
    Keeps R (c.run env) := by
  have hset := forAllSetups_in hS hA
  have hsetup {ops : List RegOp} (ho : ∀ op ∈ ops, op.In S A) : Keeps R (regOps env ops) :=
    h.apply ho
  have hflags : ∀ f ∈ waitFlags, A smioCs f := fun f _ => hA _ f
  have hdirect : DirectIn S A := ⟨fun f _ => hA _ f,hA _ _,hS _⟩
  have hread (fuel : ℕ) (len increment : ℤ) (addr : BitVec 8) (ret : Ptr) :
      Keeps R (smiReadAwaitDirect env fuel ret addr len increment) :=
    keeps_smiReadAwaitDirect h fuel len increment addr hflags hdirect ret
  have hwrite (fuel : ℕ) (len increment : ℤ) (addr : BitVec 8) (data : Option (ℕ → Word)) :
      Keeps R (smiWriteAwaitDirect env fuel data addr len increment) :=
    keeps_smiWriteAwaitDirect h fuel len increment addr hflags hdirect data
  obtain ⟨cxt,entry,fuel⟩ := c
  intro w
  cases entry with
  | directRead ret addr =>
    simp only [Invocation.run,dropped_run]
    exact keeps_bind (hsetup (hset.direct 0 addr)) (fun _ => hread fuel _ _ addr ret) w
  | directReadArr ret addr len increment =>
    simp only [Invocation.run,dropped_run]
    exact keeps_bind (hsetup (hset.directReadArr cxt addr)) (fun _ => hread fuel _ _ addr ret) w
  | directWrite data addr =>
    simp only [Invocation.run,dropped_run]
    refine keeps_bind (hsetup (hset.direct 1 addr)) (fun _ => ?_) w
    exact keeps_then_pure (hwrite fuel _ _ addr _) _
  | directWriteArr data addr len increment =>
    simp only [Invocation.run,dropped_run]
    refine keeps_bind (hsetup (hset.direct 1 addr)) (fun _ => ?_) w
    exact keeps_then_pure (hwrite fuel _ _ addr _) _
  | programmed t =>
    simp only [Invocation.run,dropped_run]
    cases t with
    | readArr addr len =>
      have hratio : Keeps R (smiPackedRatio cxt : Drv σ PackRatio) := fun v => by
        rw [smiPackedRatio_run]
        exact keeps_ratioWorld h cxt v
      have hawait (words : ℤ) : Keeps R (smiReadAwait env fuel .rawBuffer words) :=
        keeps_smiReadAwait h.toStepsIn fuel words hflags
      refine keeps_bind hratio (fun ratio => ?_) w
      refine keeps_bind (keeps_growRawBuffer h _) fun b => keeps_ite ?_ (keeps_pure _)
      refine keeps_bind (hsetup (hset.readArr cxt addr len)) fun _ => ?_
      refine keeps_bind (hawait _) fun count => ?_
      exact keeps_then_pure (keeps_decodeRaw h cxt _ _) _
    | writeArr data addr len =>
      exact keeps_bind (hsetup (hset.writeArr cxt addr len)) (fun _ =>
        keeps_smiWriteAwait h.toStepsIn fuel len hflags (hS _) data) w
    | readDma => exact absurd trivial hc
    | writeDma => exact absurd trivial hc
  | sync strayW strayR =>
    simp only [Invocation.run,dropped_run]
    have hops : ∀ op ∈ syncOps strayW cxt, op.In S A :=
      hset.ops env ⟨cxt,.sync strayW strayR,fuel⟩ w
    obtain ⟨v,hrun,rfl | rfl⟩ := smiSyncContextDevice_run env strayW strayR cxt w
    · rw [hrun]
      exact h.apply hops w
    · rw [hrun]
      exact trans_of R (h.apply hops w) (h.report _ _)
  | dmaSetup =>
    have hseterr : Keeps R (readField env smioCs SmiCs.seterr) := h.read _
    have hmsg : Keeps R (error "SMI SETERR true\n" : Drv σ Unit) := h.report _
    have hclear : Keeps R (setField env smioCs SmiCs.seterr 1) :=
      fun v => h.assign _ _ _ v (hA _ _)
    have hreport : Keeps R (error "SMI SETERR true\n" >>= fun _ =>
        setField env smioCs SmiCs.seterr 1) := keeps_bind hmsg fun _ => hclear
    refine keeps_bind (hsetup hset.dmaSetup) (fun _ => ?_) w
    exact keeps_bind hseterr fun _ => keeps_ite hreport (keeps_pure _)

end Beside

/-- A channel at rest is at rest still, and the memory is as it was. -/
def LeavesBus (w w' : World (ℕ × DmaSys)) : Prop :=
  ∀ m₀ finished ctrlBlk, AtRest (fun x => x.mem = m₀) finished ctrlBlk w.dev.2 →
    AtRest (fun x => x.mem = m₀) finished ctrlBlk w'.dev.2

instance : IsPreorder (World (ℕ × DmaSys)) LeavesBus where
  refl _ _ _ _ h := h
  trans _ _ _ h h' m₀ finished ctrlBlk hw := h' m₀ finished ctrlBlk (h m₀ finished ctrlBlk hw)

namespace DmaTrace

variable (T : DmaTrace)

@[simp] theorem mem_take (a : Word) (x : BusData) : (T.take a x).2.mem = x.mem := by
  unfold take
  split_ifs <;> rfl

@[simp] theorem mem_put_port (v : Word) (x : BusData) : (T.put T.port v x).mem = x.mem := by
  unfold put
  simp only [if_true]
  split_ifs <;> rfl

end DmaTrace

theorem leavesBus_read (T : DmaTrace) (r : Reg) (w : World (ℕ × DmaSys)) :
    LeavesBus w (w.read T.env r) := by
  intro m₀ finished ctrlBlk h
  have hb := (stable_mem T m₀ finished ctrlBlk).before _ h
  show AtRest _ _ _ (T.device.onRead r (T.device.before w.dev))
  simp only [DmaTrace.device]
  split_ifs
  · exact { hb with data := (T.mem_take _ _).trans hb.data }
  · exact hb

theorem leavesBus_write (T : DmaTrace) (off : ℕ) (v : Word) (w : World (ℕ × DmaSys)) :
    LeavesBus w (w.write T.env (.smi off) v) := by
  intro m₀ finished ctrlBlk h
  have hb := (stable_mem T m₀ finished ctrlBlk).before _ h
  show AtRest _ _ _ (T.device.onWrite (.smi off) v (T.device.before w.dev))
  simp only [DmaTrace.device,dmaCsOffset,dmaCtrlBlk,dma_ne_smi,if_false]
  split_ifs
  · exact (stable_mem T m₀ finished ctrlBlk).dmaen _ hb
  · exact { hb with data := (T.mem_put_port _ _).trans hb.data }
  · exact { hb with data := hb.data }
  · exact hb

theorem leavesBus_steps (T : DmaTrace) :
    CallSteps T.env (fun r => ∃ off, r = .smi off) (fun r _ => ∃ off, r = .smi off) LeavesBus where
  read r w := leavesBus_read T r w
  write := by
    rintro _ v w ⟨off,rfl⟩
    exact leavesBus_write T off v w
  assign := by
    rintro _ f v w ⟨off,rfl⟩
    exact trans_of LeavesBus (leavesBus_read T _ w) (leavesBus_write T off _ _)
  store _ _ _ _ _ _ h := h
  fetch _ _ _ _ _ h := h
  report _ _ _ _ _ h := h
  clock w _ _ _ h := (stable_mem T _ _ _).clocked h
  storeTo p _ _ _ _ _ _ h := by cases p <;> exact h
  output _ _ _ _ _ h := h
  realloc _ _ _ _ _ _ h := h
  sync _ _ _ _ _ h := h
  control _ _ _ _ _ h := h

end RpiSmi
