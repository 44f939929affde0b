import RpiSmi.DecodeAgreement

/-!
# Settings written while the SMI is enabled

The hardware reports a setup error when a settings register is written while the
SMI is enabled. Most calls enable it and none disables it again.
-/

namespace RpiSmi

open Exec BitField History

variable {σ : Type}

/-- The two enable bits are ORed. -/
def RegFile.Enabled (F : RegFile) : Prop :=
  SmiCs.enable.test (F smioCs) = true ∨ SmiDcs.enable.test (F smioDcs) = true

instance (F : RegFile) : Decidable F.Enabled := inferInstanceAs (Decidable (_ ∨ _))

/-- Every settings register that the call wrote, it wrote with the SMI disabled. -/
def Invocation.InOrder (env : Env σ) (regs : σ → RegFile) (c : Invocation) (w : World σ) : Prop :=
  ∀ F, .settings F ∈ (c.run env w.fresh).2.keys regs w.dev → ¬ F.Enabled

/-- A call that sets the enable bit and then writes a settings register. -/
def Invocation.EnablesFirst (c : Invocation) : Prop :=
  match c.entry with
  | .directRead .. | .directWrite .. | .directWriteArr .. => True
  | _ => False

def Invocation.WritesSettings (env : Env σ) (c : Invocation) (w : World σ) : Prop :=
  match c.entry with
  | .directRead .. | .directReadArr .. | .directWrite .. | .directWriteArr .. => True
  | .programmed (.readArr _ len) => ¬ NoBuffer env c.cxt len w ∧
      (c.cxt.rwConfig.readDeviceNum.toNat < 4 ∨ c.cxt.rwConfig.writeDeviceNum.toNat < 4)
  | .programmed _ => False
  | .sync .. => c.cxt.rwConfig.writeDeviceNum.toNat < 4
  | .dmaSetup => False

def Invocation.Enables (env : Env σ) (c : Invocation) (w : World σ) : Prop :=
  match c.entry with
  | .directRead .. | .directWrite .. | .directWriteArr .. => True
  | .directReadArr .. | .sync .. => False
  | .programmed (.readArr _ len) => ¬ NoBuffer env c.cxt len w
  | .programmed (.writeArr ..) => True
  | .programmed (.readDma cb ..) | .programmed (.writeDma cb ..) => ¬ c.cxt.HasNull cb
  | .dmaSetup => True

def RegOp.LeavesEnable (op : RegOp) : Prop :=
  op.Beside smioCs SmiCs.enable ∧ op.Beside smioDcs SmiDcs.enable

theorem enabled_last {ops : List RegOp} (h : ∀ op ∈ ops, op.LeavesEnable) (F : RegFile) :
    (opMonitor.last F ops).Enabled ↔ F.Enabled := by
  have hcs := get_last_beside (f := SmiCs.enable) (by decide) (fun op ho => (h op ho).1) F
  have hdcs := get_last_beside (f := SmiDcs.enable) (by decide) (fun op ho => (h op ho).2) F
  simp only [RegFile.Enabled,Field.test,hcs,hdcs]

theorem settings_mem_marks {F G : RegFile} {ops : List RegOp} :
    .settings G ∈ opMonitor.marks F ops → ∃ l₁ op l₂, ops = l₁ ++ op::l₂ ∧ op.reg.IsSettings ∧
      G = opMonitor.last F l₁ := by
  intro hG
  obtain ⟨l₁,op,l₂,rfl,hm⟩ := (Monitor.mem_marks opMonitor).mp hG
  rw [opMonitor_mark,RegFile.key] at hm
  split_ifs at hm with hs hset
  · cases hm
  · cases hm
    exact ⟨l₁,op,l₂,rfl,hset,rfl⟩

theorem settings_mark (op : RegOp) (h : op.reg.IsSettings) (F : RegFile) (l₁ l₂ : List RegOp) :
    .settings (opMonitor.last F l₁) ∈ opMonitor.marks F (l₁ ++ op::l₂) := by
  have hcs : op.reg ≠ smioCs := by
    intro hr
    rw [hr] at h
    exact absurd h (by decide)
  exact (Monitor.mem_marks opMonitor).mpr ⟨l₁,op,l₂,rfl,by simp [RegFile.key,hcs,h]⟩

theorem settings_iff {ops ops' : List RegOp} (h : ∀ op ∈ ops, op.LeavesEnable)
    (h' : ∀ op ∈ ops', ¬ op.reg.IsSettings) (F : RegFile) :
    (∀ G, .settings G ∈ opMonitor.marks F (ops ++ ops') → ¬ G.Enabled) ↔
      ((∃ op ∈ ops, op.reg.IsSettings) → ¬ F.Enabled) := by
  constructor
  · rintro hG ⟨op,ho,hset⟩ hF
    obtain ⟨l₁,l₂,rfl⟩ := List.append_of_mem ho
    have hmark := settings_mark op hset F l₁ (l₂ ++ ops')
    rw [← List.cons_append,← List.append_assoc] at hmark
    have hleaves (op' : RegOp) (ho' : op' ∈ l₁) : op'.LeavesEnable := h op' (by simp [ho'])
    exact hG _ hmark ((enabled_last hleaves F).mpr hF)
  · rintro hF G hG hE
    rw [Monitor.marks_append,List.mem_append] at hG
    rcases hG with hG | hG
    · obtain ⟨l₁,op,l₂,rfl,hset,rfl⟩ := settings_mem_marks hG
      have hleaves (op' : RegOp) (ho' : op' ∈ l₁) : op'.LeavesEnable := h op' (by simp [ho'])
      exact hF ⟨op,by simp,hset⟩ ((enabled_last hleaves F).mp hE)
    · obtain ⟨l₁,op,l₂,rfl,hset,-⟩ := settings_mem_marks hG
      exact h' op (by simp) hset

theorem isSettings_dsr_iff (n : ℕ) : (smioDsr n).IsSettings ↔ n < 4 := by
  show 0x10 ≤ _ ∧ _ < 0x30 ↔ _
  omega

theorem isSettings_dsw_iff (n : ℕ) : (smioDsw n).IsSettings ↔ n < 4 := by
  show 0x10 ≤ _ ∧ _ < 0x30 ↔ _
  omega

theorem configureOps_leaves {n : ℕ} (h : n < 4) :
    (∀ c, ∀ op ∈ configureReadOps n c, op.LeavesEnable) ∧
    (∀ c, ∀ op ∈ configureWriteOps n c, op.LeavesEnable) := by
  have hr : smioDsr n ≠ smioDcs := by
    simp [smioDsr,smioDcs]
    omega
  have hw : smioDsw n ≠ smioDcs := by
    simp [smioDsw,smioDcs]
    omega
  constructor <;> intro c <;>
    simp [configureReadOps,configureWriteOps,RegOp.LeavesEnable,RegOp.Beside,hr,hw,smioCs]

/-- The direct transfers enable the SMI and then write the width of device 0. -/
theorem directSetup_enabled (write : ℕ) (addr : BitVec 8) (F : RegFile) :
    ∃ G : RegFile, .settings G ∈ opMonitor.marks F (directSetup write addr) ∧ G.Enabled := by
  refine ⟨_,settings_mark (.field (smioDsr 0) SmiDsr.rwidth 0) (by decide) F
    ((directSetup write addr).take 6) ((directSetup write addr).drop 7),.inl ?_⟩
  rw [test_last (by decide) (by simp +decide [directSetup,RegOp.Whole])]
  simp +decide [directSetup,RegOp.onField]

theorem inOrder_of_none {F : RegFile} {ops : List RegOp} (h : ∀ op ∈ ops, ¬ op.reg.IsSettings) :
    ∀ G, .settings G ∈ opMonitor.marks F ops → ¬ G.Enabled := by
  have hnil : ∀ op ∈ ([] : List RegOp), op.LeavesEnable := by simp
  exact (settings_iff hnil h F).mpr (by simp)

theorem programmedReadSetup_inOrder (cxt : SmiCxt) (addr : BitVec 8) (len : ℤ) (F : RegFile) :
    (∀ G, .settings G ∈ opMonitor.marks F (programmedReadSetup cxt addr len) → ¬ G.Enabled) ↔
      (cxt.rwConfig.readDeviceNum.toNat < 4 ∨ cxt.rwConfig.writeDeviceNum.toNat < 4 →
        ¬ F.Enabled) := by
  have hsplit := List.take_append_drop 4 (programmedReadSetup cxt addr len)
  rw [← hsplit,settings_iff]
  · simp +decide [programmedReadSetup,RegOp.reg,isSettings_dsr_iff,isSettings_dsw_iff]
  · simp +decide [programmedReadSetup,RegOp.LeavesEnable,RegOp.Beside,smioCs,smioA]
  · simp +decide [programmedReadSetup,smiStart,RegOp.reg]

theorem syncOps_leaves (strayW : ℤ) (cxt : SmiCxt) :
    ∀ op ∈ syncOps strayW cxt, op.LeavesEnable := by
  intro op ho
  have hlt {n : ℕ} (h : ¬ 3 < n) : n < 4 := by omega
  simp only [syncOps] at ho
  split_ifs at ho with hw hr
  · cases ho
  · exact (configureOps_leaves (hlt hw)).2 _ op (by simpa using ho)
  · rcases List.mem_append.mp ho with ho | ho
    · exact (configureOps_leaves (hlt hw)).2 _ op ho
    · exact (configureOps_leaves (hlt (not_or.mp hr).2)).1 _ op ho

theorem syncOps_inOrder (strayW : ℤ) (cxt : SmiCxt) (F : RegFile) :
    (∀ G, .settings G ∈ opMonitor.marks F (syncOps strayW cxt) → ¬ G.Enabled) ↔
      (cxt.rwConfig.writeDeviceNum.toNat < 4 → ¬ F.Enabled) := by
  have hnil : ∀ op ∈ ([] : List RegOp), ¬ op.reg.IsSettings := by simp
  have hiff := settings_iff (syncOps_leaves strayW cxt) hnil F
  rw [List.append_nil] at hiff
  rw [hiff]
  refine imp_congr_left ⟨?_,fun hw => ?_⟩
  · rintro ⟨op,ho,-⟩
    simp only [syncOps] at ho
    split_ifs at ho
    · cases ho
    all_goals omega
  · refine ⟨.field (smioDsw cxt.rwConfig.writeDeviceNum.toNat) SmiDsw.wsetup
      (cxt.rwConfig.writeSlot cxt.rwConfig.writeDeviceNum).wformat.toNat,?_,?_⟩
    · rw [syncOps,if_neg (by omega)]
      exact List.mem_append_left _ (List.mem_cons_self ..)
    · exact (isSettings_dsw_iff _).mpr hw

section Call

variable {env : Env σ} {regs : σ → RegFile} (hf : RegisterFile env regs)

include hf

theorem Invocation.keys_eq (c : Invocation) (w : World σ) :
    (c.run env w.fresh).2.keys regs w.dev = opMonitor.marks (regs w.dev) (c.ops env w.fresh) :=
  (Invocation.run_did hf c w.fresh).keys_eq

/-- One call: it writes settings in order unless it enables the SMI first or finds it enabled. -/
theorem Invocation.inOrder_iff (c : Invocation) (w : World σ) :
    c.InOrder env regs w ↔ ¬ c.EnablesFirst ∧
      (c.WritesSettings env w → ¬ (regs w.dev).Enabled) := by
  rw [Invocation.InOrder,Invocation.keys_eq hf]
  have hdirect (write : ℕ) (addr : BitVec 8) : ¬ ∀ G, .settings G ∈
      opMonitor.marks (regs w.dev) (directSetup write addr) → ¬ G.Enabled := by
    intro h
    obtain ⟨G,hG,hE⟩ := directSetup_enabled write addr (regs w.dev)
    exact h G hG hE
  obtain ⟨cxt,entry,fuel⟩ := c
  cases entry with
  | directRead | directWrite | directWriteArr =>
    simp only [Invocation.ops,Invocation.EnablesFirst,not_true,false_and,iff_false]
    exact hdirect _ _
  | directReadArr ret addr =>
    simp only [Invocation.ops,Invocation.EnablesFirst,Invocation.WritesSettings,not_false_iff,
      true_and,true_imp_iff]
    have hsplit := List.take_append_drop 1 (directReadArrSetup cxt addr)
    rw [← hsplit,settings_iff]
    · simp +decide [directReadArrSetup,RegOp.reg]
    · simp +decide [directReadArrSetup,RegOp.LeavesEnable,RegOp.Beside]
    · simp +decide [directReadArrSetup,RegOp.reg]
  | programmed t =>
    simp only [Invocation.ops,Invocation.EnablesFirst,not_false_iff,true_and]
    cases t with
    | readArr addr len =>
      simp only [Transfer.ops,Invocation.WritesSettings]
      have hb : NoBuffer env cxt len w.fresh ↔ NoBuffer env cxt len w := Iff.rfl
      by_cases hn : NoBuffer env cxt len w
      · simp [hb,hn]
      · rw [if_neg (hb.not.mpr hn),programmedReadSetup_inOrder]
        simp only [hn,not_false_iff,true_and]
    | writeArr data addr len =>
      simp only [Transfer.ops,Invocation.WritesSettings,false_imp_iff,iff_true]
      exact inOrder_of_none (by simp +decide [programmedWriteSetup,smiStart,RegOp.reg])
    | readDma cb addr len channel =>
      simp only [Transfer.ops,Invocation.WritesSettings,false_imp_iff,iff_true]
      split_ifs
      · simp
      · exact inOrder_of_none (by simp +decide [programmedReadDmaSetup,smiStart,RegOp.reg])
    | writeDma cb addr len channel =>
      simp only [Transfer.ops,Invocation.WritesSettings,false_imp_iff,iff_true]
      split_ifs
      · simp
      · exact inOrder_of_none (by simp +decide [programmedWriteDmaSetup,smiStart,RegOp.reg])
  | sync strayW strayR =>
    simp only [Invocation.ops,Invocation.EnablesFirst,Invocation.WritesSettings,not_false_iff,
      true_and]
    exact syncOps_inOrder strayW cxt _
  | dmaSetup =>
    simp only [Invocation.ops,Invocation.EnablesFirst,Invocation.WritesSettings,not_false_iff,
      true_and,false_imp_iff,iff_true]
    exact inOrder_of_none (by decide)

end Call

def RegOp.KeepsDcs : RegOp → Prop
  | .field r f _ => r = smioDcs → f.Disjoint SmiDcs.enable
  | .value r v => r = smioDcs → SmiDcs.enable.test v = false

theorem RegOp.LeavesEnable.keepsDcs {op : RegOp} (h : op.LeavesEnable) : op.KeepsDcs := by
  cases op with
  | field r f v => exact h.2
  | value r v => exact fun hr => absurd hr h.2

theorem setups_keepsDcs : ForAllSetups RegOp.KeepsDcs where
  direct _ _ := by simp +decide [directSetup,RegOp.KeepsDcs]
  directReadArr _ _ := by simp +decide [directReadArrSetup,RegOp.KeepsDcs]
  readArr _ _ _ := by simp +decide [programmedReadSetup,smiStart,RegOp.KeepsDcs]
  writeArr _ _ _ := by simp +decide [programmedWriteSetup,smiStart,RegOp.KeepsDcs]
  readDma _ _ _ := by simp +decide [programmedReadDmaSetup,smiStart,RegOp.KeepsDcs]
  writeDma _ _ _ := by simp +decide [programmedWriteDmaSetup,smiStart,RegOp.KeepsDcs]
  configureRead _ c h op ho := ((configureOps_leaves h).1 c op ho).keepsDcs
  configureWrite _ c h op ho := ((configureOps_leaves h).2 c op ho).keepsDcs
  dmaSetup := by simp +decide [dmaSetupOps,RegOp.KeepsDcs]

/-- `SMI_DCS` is not enabled: the driver never sets that bit. -/
def RegFile.DcsOff (F : RegFile) : Prop := SmiDcs.enable.test (F smioDcs) = false

theorem dcsOff_last {ops : List RegOp} (h : ∀ op ∈ ops, op.KeepsDcs) {F : RegFile}
    (hF : F.DcsOff) : (opMonitor.last F ops).DcsOff := by
  have hs : SmiDcs.enable.mask &&& storedBits smioDcs = SmiDcs.enable.mask := by decide
  refine Monitor.last_invariant opMonitor (I := RegFile.DcsOff) (fun op ho G hG => ?_) hF
  have hop := h op ho
  unfold RegFile.DcsOff at *
  by_cases hr : op.reg = smioDcs
  · cases op with
    | field r f v =>
      obtain rfl : r = smioDcs := hr
      rw [Field.test,next_field,Field.get_and hs,Field.get_set_of_disjoint (hop rfl)]
      exact hG
    | value r v =>
      obtain rfl : r = smioDcs := hr
      rw [opMonitor_next,RegFile.put,Field.test]
      simp only [RegOp.reg,RegOp.word,Function.update_self,Field.get_and hs]
      exact hop rfl
  · rwa [opMonitor_next,RegFile.put,Function.update_of_ne (Ne.symm hr)]

theorem enabled_of_set {ops : List RegOp} (hb : ∀ op ∈ ops, op.ByField)
    (h : ∀ x, ops.foldl (RegOp.onField smioCs SmiCs.enable) x = 1) (F : RegFile) :
    (opMonitor.last F ops).Enabled := by
  refine .inl ?_
  rw [test_last (by decide) (fun op ho => (hb op ho).whole (by simp [csFields])),h]
  rfl

/-- The enable state after a call, from one in which only `SMI_CS` could enable the SMI. -/
theorem Invocation.enabled_iff (env : Env σ) (c : Invocation) (w : World σ) {F : RegFile}
    (hF : F.DcsOff) : (opMonitor.last F (c.ops env w)).Enabled ↔ F.Enabled ∨ c.Enables env w := by
  have hset {ops : List RegOp} (hb : ∀ op ∈ ops, op.ByField)
      (h : ∀ x, ops.foldl (RegOp.onField smioCs SmiCs.enable) x = 1) :
      (opMonitor.last F ops).Enabled ↔ F.Enabled ∨ True := by
    simp [enabled_of_set hb h F]
  have hguard {P : Prop} [Decidable P] {ops : List RegOp} (hb : ∀ op ∈ ops, op.ByField)
      (h : ∀ x, ops.foldl (RegOp.onField smioCs SmiCs.enable) x = 1) :
      (opMonitor.last F (if P then [] else ops)).Enabled ↔ F.Enabled ∨ ¬ P := by
    split_ifs with hp
    · simp [hp]
    · simp [hp,enabled_of_set hb h F]
  have hkeep {ops : List RegOp} (h : ∀ op ∈ ops, op.LeavesEnable) :
      (opMonitor.last F ops).Enabled ↔ F.Enabled ∨ False := by
    rw [enabled_last h,or_false]
  obtain ⟨cxt,entry,fuel⟩ := c
  cases entry with
  | directRead | directWrite | directWriteArr =>
    refine hset (setups_byField.direct _ _) ?_
    simp +decide [Invocation.ops,directSetup,RegOp.onField]
  | directReadArr ret addr =>
    have hoff := dcsOff_last (setups_keepsDcs.directReadArr cxt addr) hF
    have hcs : SmiCs.enable.test (opMonitor.last F (directReadArrSetup cxt addr) smioCs) =
        SmiCs.enable.test (F smioCs) := by
      rw [Field.test,Field.test,get_last_beside (by decide)
        (by simp +decide [directReadArrSetup,RegOp.Beside])]
    unfold RegFile.DcsOff at hF hoff
    simp [Invocation.ops,RegFile.Enabled,hcs,hoff,hF,Invocation.Enables]
  | programmed t =>
    simp only [Invocation.ops]
    cases t with
    | readArr addr len =>
      refine hguard (setups_byField.readArr _ _ _) ?_
      simp +decide [programmedReadSetup,smiStart,RegOp.onField,smioCs]
    | writeArr data addr len =>
      refine hset (setups_byField.writeArr _ _ _) ?_
      simp +decide [Transfer.ops,programmedWriteSetup,smiStart,RegOp.onField]
    | readDma cb addr len channel =>
      refine hguard (setups_byField.readDma _ _ _) ?_
      simp +decide [programmedReadDmaSetup,smiStart,RegOp.onField]
    | writeDma cb addr len channel =>
      refine hguard (setups_byField.writeDma _ _ _) ?_
      simp +decide [programmedWriteDmaSetup,smiStart,RegOp.onField]
  | sync strayW => exact hkeep (syncOps_leaves strayW cxt)
  | dmaSetup =>
    refine hset setups_byField.dmaSetup ?_
    simp +decide [Invocation.ops,dmaSetupOps,RegOp.onField]

/-- No call of the run enables the SMI before its own settings, and none that enables it comes
before one that writes settings. -/
def SafeOrder (env : Env σ) (calls : List (Invocation × World σ)) : Prop :=
  (∀ p ∈ calls, ¬ p.1.EnablesFirst) ∧
    calls.Pairwise fun p q => p.1.Enables env p.2 → ¬ q.1.WritesSettings env q.2

section Run

variable {env : Env σ} {regs : σ → RegFile} (hf : RegisterFile env regs)

include hf

theorem inOrder_run (cs : List Invocation) (w : World σ) (hw : (regs w.dev).DcsOff) :
    (∀ p ∈ invoked env cs w, p.1.InOrder env regs p.2) ↔ SafeOrder env (invoked env cs w) ∧
      ((regs w.dev).Enabled → ∀ p ∈ invoked env cs w, ¬ p.1.WritesSettings env p.2) := by
  induction cs generalizing w with
  | nil => simp [invoked,SafeOrder]
  | cons c cs ih =>
    have hhead : c.InOrder env regs w.fresh ↔ _ := Invocation.inOrder_iff hf c w.fresh
    have hregs : regs w.fresh.dev = regs w.dev := rfl
    rw [hregs] at hhead
    rcases hr : c.run env w.fresh with ⟨_ | a,w'⟩
    · have hone : invoked env (c::cs) w = [(c,w.fresh)] := by
        simp only [invoked,hr]
      simp only [hone,SafeOrder,List.mem_singleton,forall_eq,List.pairwise_singleton,and_true,hhead]
      tauto
    · have hcons : invoked env (c::cs) w = (c,w.fresh)::invoked env cs w' := by
        simp only [invoked,hr]
      have hdid := Invocation.run_did hf c w.fresh
      rw [hr] at hdid
      have hw' : (regs w'.dev).DcsOff := by
        rw [hdid.2]
        exact dcsOff_last (setups_keepsDcs.ops env c w.fresh) hw
      have hon : (regs w'.dev).Enabled ↔ (regs w.dev).Enabled ∨ c.Enables env w.fresh := by
        rw [hdid.2]
        exact Invocation.enabled_iff env c w.fresh hw
      simp only [hcons,SafeOrder,List.forall_mem_cons,List.pairwise_cons,hhead,ih w' hw',hon]
      constructor
      · rintro ⟨⟨hfirst,hset⟩,⟨hfirsts,hpair⟩,htail⟩
        exact ⟨⟨⟨hfirst,hfirsts⟩,fun q hq he => htail (.inr he) q hq,hpair⟩,
          fun he => ⟨fun hs => hset hs he,htail (.inl he)⟩⟩
      · rintro ⟨⟨⟨hfirst,hfirsts⟩,hafter,hpair⟩,hstart⟩
        exact ⟨⟨hfirst,fun hs he => (hstart he).1 hs⟩,⟨hfirsts,hpair⟩,fun he q hq =>
          he.elim (fun he => (hstart he).2 q hq) fun he => hafter q hq he⟩

/-- Over a run that begins with the SMI disabled: settings are written in order exactly in the
runs where no call enables the SMI before a settings register is written. -/
theorem setupOrder_iff (cs : List Invocation) (w : World σ) (hw : ¬ (regs w.dev).Enabled) :
    (∀ p ∈ invoked env cs w, p.1.InOrder env regs p.2) ↔ SafeOrder env (invoked env cs w) := by
  have hoff : (regs w.dev).DcsOff := Bool.eq_false_iff.mpr fun h => hw (.inr h)
  rw [inOrder_run hf cs w hoff]
  simp [hw]

end Run

def syncThenWrite : List Invocation :=
  let cxt := deviceCxt 0 false false false
  [⟨cxt,.sync 0 0,0⟩,⟨cxt,.programmed (.writeArr (some fun _ => 7) 0 1),2⟩]

theorem setupOrder_iff_sync : RegisterFile storageEnv storedFile ∧
    ¬ (storedFile fun _ => 0).Enabled ∧
    ((∀ p ∈ invoked storageEnv syncThenWrite (World.init fun _ => 0),
        p.1.InOrder storageEnv storedFile p.2) ↔
      SafeOrder storageEnv (invoked storageEnv syncThenWrite (World.init fun _ => 0))) :=
  ⟨storageEnv_registerFile,by decide,
    setupOrder_iff storageEnv_registerFile syncThenWrite (World.init fun _ => 0) (by decide)⟩

/-- A direct read sets the enable bit and then the width of device 0. -/
theorem setupOrder_not : ¬ ∀ (cs : List Invocation) (w : World RegFile),
    ¬ (storedFile w.dev).Enabled → ∀ p ∈ invoked storageEnv cs w,
      p.1.InOrder storageEnv storedFile p.2 := by
  intro h
  have hord := h [⟨deviceCxt 0 false false false,.directRead .caller 0,0⟩] (World.init fun _ => 0)
    (by decide) _ (List.mem_cons_self ..)
  exact ((Invocation.inOrder_iff storageEnv_registerFile _ _).mp hord).1 trivial

end RpiSmi
