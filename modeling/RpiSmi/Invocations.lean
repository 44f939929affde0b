import RpiSmi.Configure
import RpiSmi.DeviceSelect

/-!
# Runs of entry points

`Invocation.ops` is the list of setup statements that a call comes to. What a
call does to the register file is what `opMonitor` says of that list.
-/

namespace RpiSmi

open Exec BitField History

variable {σ : Type}

inductive Entry
  | directRead (ret : Ptr) (addr : BitVec 8)
  | directReadArr (ret : Ptr) (addr : BitVec 8) (len increment : ℤ)
  | directWrite (data : ℕ → Word) (addr : BitVec 8)
  | directWriteArr (data : Option (ℕ → Word)) (addr len : BitVec 8) (increment : ℤ)
  | programmed (t : Transfer)
  | sync (strayW strayR : ℤ)
  | dmaSetup

/-- A call with the context as the caller has it for this call. -/
structure Invocation where
  cxt : SmiCxt
  entry : Entry
  fuel : ℕ

def dropped {α : Type} (x : Drv σ α) : Drv σ Unit := x >>= fun _ => pure ()

def Invocation.run (env : Env σ) (c : Invocation) : Drv σ Unit :=
  match c.entry with
  | .directRead ret addr => dropped (smiDirectRead env c.fuel ret addr)
  | .directReadArr ret addr len increment =>
    dropped (smiDirectReadArr env c.fuel c.cxt ret addr len increment)
  | .directWrite data addr => dropped (smiDirectWrite env c.fuel data addr)
  | .directWriteArr data addr len increment =>
    dropped (smiDirectWriteArr env c.fuel data addr len increment)
  | .programmed t => dropped ((⟨c.cxt,t,c.fuel⟩ : Call).run env)
  | .sync strayW strayR => dropped (smiSyncContextDevice env strayW strayR c.cxt)
  | .dmaSetup => smiDmaSetup env

/-- The calls of a run that were made, each with the world it was made in. -/
def invoked (env : Env σ) : List Invocation → World σ → List (Invocation × World σ)
  | [], _ => []
  | c::cs, w => (c,w.fresh)::match c.run env w.fresh with
    | (some _,w') => invoked env cs w'
    | (none,_) => []

def finished (env : Env σ) : List Invocation → World σ → Option (World σ)
  | [], w => some w
  | c::cs, w => match c.run env w.fresh with
    | (some _,w') => finished env cs w'
    | (none,_) => none

/-- The raw buffer is too small for a read and cannot be made larger. -/
def NoBuffer (env : Env σ) (cxt : SmiCxt) (len : ℤ) (w : World σ) : Prop :=
  w.rawBuffer.size < sizeT (wordReads cxt len) ∧
    (env.realloc (sizeT (wordReads cxt len)*4%2^64) w.dev).1.isNone

instance (env : Env σ) (cxt : SmiCxt) (len : ℤ) (w : World σ) :
    Decidable (NoBuffer env cxt len w) :=
  inferInstanceAs (Decidable (_ ∧ _))

def Transfer.ops (env : Env σ) (cxt : SmiCxt) (w : World σ) : Transfer → List RegOp
  | .readArr addr len =>
    if NoBuffer env cxt len w then [] else programmedReadSetup cxt addr len
  | .writeArr _ addr len => programmedWriteSetup cxt addr len
  | .readDma cb addr len _ =>
    if cxt.HasNull cb then [] else programmedReadDmaSetup cxt addr len ++ smiStart
  | .writeDma cb addr len _ =>
    if cxt.HasNull cb then [] else programmedWriteDmaSetup cxt addr len ++ smiStart

def Invocation.ops (env : Env σ) (c : Invocation) (w : World σ) : List RegOp :=
  match c.entry with
  | .directRead _ addr => directSetup 0 addr
  | .directReadArr _ addr _ _ => directReadArrSetup c.cxt addr
  | .directWrite _ addr | .directWriteArr _ addr _ _ => directSetup 1 addr
  | .programmed t => t.ops env c.cxt w
  | .sync strayW _ => syncOps strayW c.cxt
  | .dmaSetup => dmaSetupOps

def World.Did (regs : σ → RegFile) (ops : List RegOp) (w w' : World σ) : Prop :=
  w.Passes regs (opMonitor.marks (regs w.dev) ops) w' ∧
    regs w'.dev = opMonitor.last (regs w.dev) ops

section Did

variable {regs : σ → RegFile} {ops ops' : List RegOp} {w w' w'' : World σ}

theorem World.Did.trans (h : w.Did regs ops w') (h' : w'.Did regs ops' w'') :
    w.Did regs (ops ++ ops') w'' := by
  obtain ⟨hp,hs⟩ := h
  obtain ⟨hp',hs'⟩ := h'
  rw [hs] at hp' hs'
  refine ⟨?_,by rw [hs',Monitor.last_append]⟩
  rw [Monitor.marks_append]
  exact hp.trans hp'

theorem World.Did.quiet (h : w.Did regs ops w') (h' : w'.Quiet regs w'') :
    w.Did regs ops w'' := ⟨h.1.quiet h',h'.2.trans h.2⟩

theorem did_of_quiet (h : w.Quiet regs w') : w.Did regs [] w' := h

theorem did_after_quiet (h : w.Quiet regs w') (h' : w'.Did regs ops w'') : w.Did regs ops w'' :=
  (did_of_quiet h).trans h'

end Did

section Calls

variable {env : Env σ} {regs : σ → RegFile} (hf : RegisterFile env regs) {cxt : SmiCxt}
  {addr : BitVec 8} {len : ℤ} {w : World σ}

theorem dropped_run {α : Type} (x : Drv σ α) (w : World σ) : (dropped x w).2 = (x w).2 := by
  rcases h : x w with ⟨_ | a,v⟩
  · rw [dropped,bind_run_none h]
  · rw [dropped,bind_run h]
    rfl

theorem quiet_waitFlags (f : Field 32) (h : f ∈ waitFlags) :
    f.mask &&& storedBits smioCs = 0 ∧ ¬ smioCs.IsSettings ∧
      (smioCs = smioCs → f.Disjoint SmiCs.start) := by
  refine ⟨?_,by decide,fun _ => disjoint_start h⟩
  simp only [waitFlags,List.mem_cons,List.not_mem_nil,or_false] at h
  rcases h with rfl | rfl | rfl <;> decide

theorem quiet_direct : DirectIn (fun r => r ≠ smioCs ∧ storedBits r = 0)
    (fun r f => f.mask &&& storedBits r = 0 ∧ ¬ r.IsSettings ∧
      (r = smioCs → f.Disjoint SmiCs.start)) where
  dcs f hf := by
    simp only [List.mem_cons,List.not_mem_nil,or_false] at hf
    refine ⟨?_,by decide,fun h => absurd h (by decide)⟩
    rcases hf with rfl | rfl | rfl <;> decide
  addr := ⟨by decide,by decide,fun h => absurd h (by decide)⟩
  data := by decide

theorem storedBits_dma (off : ℕ) : storedBits (.dma off) = 0 := by
  simp [storedBits,smioCs,smioA,smioDcs,Reg.IsSettings]

theorem readEntry_eq_none_iff :
    readEntry env cxt addr len w = none ↔ NoBuffer env cxt len w := by
  have hsize : (ratioWorld cxt w).rawBuffer.size = w.rawBuffer.size :=
    congrArg (fun m => m.rawBuffer.size) (memory_ratioWorld cxt w)
  have hdev : (ratioWorld cxt w).dev = w.dev := by
    unfold ratioWorld
    split <;> rfl
  unfold readEntry growRawBuffer NoBuffer
  rw [hsize,hdev]
  split_ifs with hs
  · rcases hr : env.realloc (sizeT (wordReads cxt len)*4%2^64) w.dev with ⟨_ | junk,s⟩ <;>
      simp [hs]
  · simp [hs]

include hf

theorem did_regOps (ops : List RegOp) (w : World σ) :
    w.Did regs ops (regOps env ops w).2 := passes_apply hf w ops

theorem did_setup {α : Type} (ops : List RegOp) {f : Unit → Drv σ α}
    (hq : ∀ a, Keeps (World.Quiet regs) (f a)) (w : World σ) :
    w.Did regs ops ((regOps env ops >>= f) w).2 :=
  (did_regOps hf ops w).quiet (keeps_after hq w)

theorem quiet_startDma (cb : BitVec 64) (channel : BitVec 8) (fd : ℤ) :
    Keeps (World.Quiet regs) (startDma env cb channel fd) := by
  refine keeps_startDma (quiet_steps hf) cb channel fd ⟨by simp [dmaCtrlBlk,smioCs],?_⟩ ?_
  · exact storedBits_dma _
  · refine ⟨?_,by simp [dmaCsOffset,Reg.IsSettings],by simp [dmaCsOffset,smioCs]⟩
    simp [dmaCsOffset,storedBits_dma]

theorem quiet_smiDmaAwait (fuel : ℕ) : Keeps (World.Quiet regs) (smiDmaAwait env fuel) :=
  keeps_smiDmaAwait (quiet_steps hf).toStepsIn fuel ⟨by decide,by decide,by decide⟩

theorem did_smiDirectWriteArr (fuel : ℕ) (data : Option (ℕ → Word)) (len : BitVec 8)
    (increment : ℤ) : w.Did regs (directSetup 1 addr)
      (smiDirectWriteArr env fuel data addr len increment w).2 :=
  did_setup hf _ (fun _ => keeps_bind (keeps_smiWriteAwaitDirect (quiet_steps hf) fuel _ _ addr
    quiet_waitFlags quiet_direct data) fun _ => keeps_pure _) w

theorem did_smiProgrammedReadArr (fuel : ℕ) :
    w.Did regs (if NoBuffer env cxt len w then [] else programmedReadSetup cxt addr len)
      (smiProgrammedReadArr env fuel cxt addr len w).2 := by
  have hq := quiet_steps hf
  have hgrow : w.Quiet regs (growRawBuffer env (wordReads cxt len) (ratioWorld cxt w)).2 :=
    trans_of (World.Quiet regs) (keeps_ratioWorld hq cxt w) (keeps_growRawBuffer hq _ _)
  rcases he : readEntry env cxt addr len w with _ | w₁
  · rw [if_pos (readEntry_eq_none_iff.mp he),smiProgrammedReadArr_refused he]
    exact hgrow
  · have hb : ¬ NoBuffer env cxt len w := fun h => by
      rw [readEntry_eq_none_iff.mpr h] at he
      cases he
    have hafter := keeps_bind
      (keeps_smiReadAwait hq.toStepsIn fuel (wordReads cxt len) quiet_waitFlags)
      (fun count => keeps_bind (keeps_decodeRaw hq cxt (wordReads cxt len) count)
        fun _ => keeps_pure count) w₁
    rw [if_neg hb,smiProgrammedReadArr_run he]
    unfold readEntry at he
    split at he
    case h_1 u hg =>
      cases he
      rw [hg] at hgrow
      exact (did_after_quiet hgrow (did_regOps hf _ u)).quiet hafter
    case h_2 => cases he

theorem did_smiProgrammedReadDma (fuel : ℕ) (cb : BitVec 64) (channel : ℤ) :
    w.Did regs (if cxt.HasNull cb then [] else programmedReadDmaSetup cxt addr len ++ smiStart)
      (smiProgrammedReadDma env fuel (some cxt) cb addr len channel w).2 := by
  split_ifs with hn
  · rw [smiProgrammedReadDma_null hn]
    exact did_of_quiet (refl_of (World.Quiet regs) w)
  · obtain ⟨hcb,hr⟩ := not_or.mp hn
    obtain ⟨smiRegs,hr⟩ := Option.ne_none_iff_exists'.mp hr
    have hratio := keeps_ratioWorld (quiet_steps hf) cxt w
    have hctrl := (quiet_steps hf).control
      (readCb smiRegs (wordReads cxt len) (ratioWorld cxt w).cb) (ratioWorld cxt w)
    have hbegin : w.Did regs (programmedReadDmaSetup cxt addr len)
        (w.beginReadDma env cxt smiRegs addr len) :=
      did_after_quiet (trans_of (World.Quiet regs) hratio hctrl) (did_regOps hf _ _)
    obtain ⟨code,v,hd⟩ := startDma_returns env (cbAddress cxt cb) (BitVec.ofInt 8 channel)
      cxt.fdSyncCpu (w.beginReadDma env cxt smiRegs addr len)
    have hdma := quiet_startDma hf (cbAddress cxt cb) (BitVec.ofInt 8 channel) cxt.fdSyncCpu
      (w.beginReadDma env cxt smiRegs addr len)
    rw [hd] at hdma
    rw [smiProgrammedReadDma_run hcb hr,bind_run hd]
    exact (hbegin.quiet hdma).trans
      (did_setup hf smiStart (fun _ => quiet_smiDmaAwait hf fuel) v)

theorem did_smiProgrammedWriteDma (fuel : ℕ) (cb : BitVec 64) (channel : ℤ) :
    w.Did regs (if cxt.HasNull cb then [] else programmedWriteDmaSetup cxt addr len ++ smiStart)
      (smiProgrammedWriteDma env fuel (some cxt) cb addr len channel w).2 := by
  split_ifs with hn
  · rw [smiProgrammedWriteDma_null hn]
    exact did_of_quiet (refl_of (World.Quiet regs) w)
  · obtain ⟨hcb,hr⟩ := not_or.mp hn
    obtain ⟨smiRegs,hr⟩ := Option.ne_none_iff_exists'.mp hr
    have hctrl := (quiet_steps hf).control (writeCb smiRegs len w.cb) w
    have hbegin : w.Did regs (programmedWriteDmaSetup cxt addr len ++ smiStart)
        (w.beginWriteDma env cxt smiRegs addr len) :=
      (did_after_quiet hctrl (did_regOps hf _ _)).trans (did_regOps hf _ _)
    rw [smiProgrammedWriteDma_run hcb hr]
    exact hbegin.quiet (keeps_bind (quiet_startDma hf _ _ _)
      (fun _ => quiet_smiDmaAwait hf fuel) _)

theorem Invocation.run_did (c : Invocation) (w : World σ) :
    w.Did regs (c.ops env w) (c.run env w).2 := by
  have hq := quiet_steps hf
  obtain ⟨cxt,entry,fuel⟩ := c
  cases entry with
  | directRead ret addr =>
    simp only [Invocation.run,dropped_run]
    exact did_setup hf _ (fun _ => keeps_smiReadAwaitDirect hq fuel _ _ addr quiet_waitFlags
      quiet_direct ret) w
  | directReadArr ret addr len increment =>
    simp only [Invocation.run,dropped_run]
    exact did_setup hf _ (fun _ => keeps_smiReadAwaitDirect hq fuel _ _ addr quiet_waitFlags
      quiet_direct ret) w
  | directWrite data addr =>
    simp only [Invocation.run,dropped_run]
    exact did_smiDirectWriteArr hf fuel _ _ _
  | directWriteArr data addr len increment =>
    simp only [Invocation.run,dropped_run]
    exact did_smiDirectWriteArr hf fuel _ _ _
  | programmed t =>
    simp only [Invocation.run,dropped_run]
    cases t with
    | readArr addr len => exact did_smiProgrammedReadArr hf fuel
    | writeArr data addr len =>
      exact did_setup hf _ (fun _ => keeps_smiWriteAwait hq.toStepsIn fuel len quiet_waitFlags
        (by decide) data) w
    | readDma cb addr len channel => exact did_smiProgrammedReadDma hf fuel cb channel
    | writeDma cb addr len channel => exact did_smiProgrammedWriteDma hf fuel cb channel
  | sync strayW strayR =>
    simp only [Invocation.run,dropped_run]
    exact passes_sync strayW strayR cxt hf w
  | dmaSetup =>
    have hclear : Keeps (World.Quiet regs) (setField env smioCs SmiCs.seterr 1) :=
      fun w => hq.assign _ _ _ w ⟨by decide,by decide,fun _ => by decide⟩
    have hread : Keeps (World.Quiet regs) (readField env smioCs SmiCs.seterr) := hq.read _
    have hmsg : Keeps (World.Quiet regs) (error "SMI SETERR true\n" : Drv σ Unit) := hq.report _
    have hreport : Keeps (World.Quiet regs) (error "SMI SETERR true\n" >>= fun _ =>
        setField env smioCs SmiCs.seterr 1) := keeps_bind hmsg fun _ => hclear
    refine did_setup hf dmaSetupOps (fun _ => ?_) w
    exact keeps_bind hread fun _ => keeps_ite hreport (keeps_pure _)

end Calls

def csFields : List (Field 32) := [SmiCs.enable,SmiCs.done,SmiCs.start,SmiCs.clear,SmiCs.write,
  SmiCs.pad,SmiCs.teen,SmiCs.intd,SmiCs.intt,SmiCs.intr,SmiCs.pvmode,SmiCs.seterr,SmiCs.pxldat,
  SmiCs.prdy,SmiCs.aferr]

theorem csFields_disjoint : ∀ f ∈ csFields, ∀ g ∈ csFields, f = g ∨ f.Disjoint g := by decide

def RegOp.ByField : RegOp → Prop
  | .field r f _ => r = smioCs → f ∈ csFields
  | .value .. => True

theorem RegOp.ByField.whole {op : RegOp} (h : op.ByField) {f : Field 32} (hf : f ∈ csFields) :
    op.Whole smioCs f := by
  cases op with
  | field r g v => exact fun hr => csFields_disjoint g (h hr) f hf
  | value r v => trivial

/-- `P` holds of every statement of every setup. -/
structure ForAllSetups (P : RegOp → Prop) : Prop where
  direct (write : ℕ) (addr : BitVec 8) : ∀ op ∈ directSetup write addr, P op
  directReadArr (cxt : SmiCxt) (addr : BitVec 8) : ∀ op ∈ directReadArrSetup cxt addr, P op
  readArr (cxt : SmiCxt) (addr : BitVec 8) (len : ℤ) : ∀ op ∈ programmedReadSetup cxt addr len, P op
  writeArr (cxt : SmiCxt) (addr : BitVec 8) (len : ℤ) :
    ∀ op ∈ programmedWriteSetup cxt addr len, P op
  readDma (cxt : SmiCxt) (addr : BitVec 8) (len : ℤ) :
    ∀ op ∈ programmedReadDmaSetup cxt addr len ++ smiStart, P op
  writeDma (cxt : SmiCxt) (addr : BitVec 8) (len : ℤ) :
    ∀ op ∈ programmedWriteDmaSetup cxt addr len ++ smiStart, P op
  configureRead (n : ℕ) (c : SmiRead) : n < 4 → ∀ op ∈ configureReadOps n c, P op
  configureWrite (n : ℕ) (c : SmiWrite) : n < 4 → ∀ op ∈ configureWriteOps n c, P op
  dmaSetup : ∀ op ∈ dmaSetupOps, P op

theorem ForAllSetups.ops {P : RegOp → Prop} (h : ForAllSetups P) (env : Env σ) (c : Invocation)
    (w : World σ) : ∀ op ∈ c.ops env w, P op := by
  obtain ⟨cxt,entry,fuel⟩ := c
  cases entry with
  | directRead | directWrite | directWriteArr => exact h.direct _ _
  | directReadArr => exact h.directReadArr _ _
  | programmed t =>
    cases t with
    | writeArr => exact h.writeArr _ _ _
    | readArr =>
      simp only [Invocation.ops,Transfer.ops]
      split_ifs
      · simp
      · exact h.readArr _ _ _
    | readDma =>
      simp only [Invocation.ops,Transfer.ops]
      split_ifs
      · simp
      · exact h.readDma _ _ _
    | writeDma =>
      simp only [Invocation.ops,Transfer.ops]
      split_ifs
      · simp
      · exact h.writeDma _ _ _
  | sync strayW =>
    have hlt {n : ℕ} (h : ¬ 3 < n) : n < 4 := by omega
    intro op ho
    simp only [Invocation.ops,syncOps] at ho
    split_ifs at ho with hw hr
    · cases ho
    · exact h.configureWrite _ _ (hlt hw) op (by simpa using ho)
    · rcases List.mem_append.mp ho with ho | ho
      · exact h.configureWrite _ _ (hlt hw) op ho
      · exact h.configureRead _ _ (hlt (not_or.mp hr).2) op ho
  | dmaSetup => exact h.dmaSetup

theorem setups_byField : ForAllSetups RegOp.ByField where
  direct _ _ := by simp +decide [directSetup,RegOp.ByField]
  directReadArr _ _ := by simp +decide [directReadArrSetup,RegOp.ByField]
  readArr _ _ _ := by simp +decide [programmedReadSetup,smiStart,RegOp.ByField,smioCs]
  writeArr _ _ _ := by simp +decide [programmedWriteSetup,smiStart,RegOp.ByField]
  readDma _ _ _ := by simp +decide [programmedReadDmaSetup,smiStart,RegOp.ByField]
  writeDma _ _ _ := by simp +decide [programmedWriteDmaSetup,smiStart,RegOp.ByField]
  configureRead _ _ _ := by simp [configureReadOps,RegOp.ByField,smioCs]
  configureWrite _ _ _ := by simp [configureWriteOps,RegOp.ByField,smioCs]
  dmaSetup := by simp +decide [dmaSetupOps,RegOp.ByField]

end RpiSmi
