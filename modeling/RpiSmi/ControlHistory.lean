import RpiSmi.DecodeAgreement

/-!
# The control register at a START

`SMI_CS` persists between calls. A setup assigns some of its configuration
fields and leaves the others as the calls before it did.
-/

namespace RpiSmi

open Exec BitField History

variable {σ : Type}

def RegOp.Assigns (r : Reg) (f : Field 32) : RegOp → Prop
  | .field r' f' _ => r' = r ∧ f' = f
  | .value r' _ => r' = r

instance (r : Reg) (f : Field 32) : DecidablePred (RegOp.Assigns r f)
  | .field r' f' _ => inferInstanceAs (Decidable (r' = r ∧ f' = f))
  | .value r' _ => inferInstanceAs (Decidable (r' = r))

section Assigns

variable {r : Reg} {f : Field 32} {ops : List RegOp}

theorem onField_eq_self {op : RegOp} (h : ¬ op.Assigns r f) (x : ℕ) : op.onField r f x = x := by
  cases op <;> exact if_neg h

theorem onField_const {op : RegOp} (h : op.Assigns r f) (x y : ℕ) :
    op.onField r f x = op.onField r f y := by
  cases op <;> exact (if_pos h).trans (if_pos h).symm

theorem foldl_onField_eq_self (h : ∀ op ∈ ops, ¬ op.Assigns r f) (x : ℕ) :
    ops.foldl (RegOp.onField r f) x = x := by
  induction ops with
  | nil => rfl
  | cons op ops ih =>
    rw [List.foldl_cons,onField_eq_self (h op (List.mem_cons_self ..))]
    exact ih fun op' ho => h op' (List.mem_cons_of_mem op ho)

theorem foldl_onField_const (h : ∃ op ∈ ops, op.Assigns r f) (x y : ℕ) :
    ops.foldl (RegOp.onField r f) x = ops.foldl (RegOp.onField r f) y := by
  obtain ⟨op,ho,ha⟩ := h
  obtain ⟨l₁,l₂,rfl⟩ := List.append_of_mem ho
  simp only [List.foldl_append,List.foldl_cons]
  rw [onField_const ha _ (l₁.foldl (RegOp.onField r f) y)]

end Assigns

def historyOps (env : Env σ) (cs : List Invocation) (w : World σ) : List RegOp :=
  (invoked env cs w).flatMap fun p => p.1.ops env p.2

/-- What a run from `w` leaves in a field of `SMI_CS`. -/
def leftBy (env : Env σ) (regs : σ → RegFile) (cs : List Invocation) (w : World σ)
    (f : Field 32) : ℕ :=
  (historyOps env cs w).foldl (RegOp.onField smioCs f) (f.get (regs w.dev smioCs))

theorem csConfig_stored {f : Field 32} (hf : f ∈ csConfig) :
    f.mask &&& storedBits smioCs = f.mask := by
  have h : ∀ f ∈ csConfig, f.mask &&& storedBits smioCs = f.mask := by decide
  exact h f hf

theorem csConfig_fields {f : Field 32} (hf : f ∈ csConfig) : f ∈ csFields := by
  have h : ∀ f ∈ csConfig, f ∈ csFields := by decide
  exact h f hf

theorem historyOps_byField (env : Env σ) (cs : List Invocation) (w : World σ) :
    ∀ op ∈ historyOps env cs w, op.ByField := by
  intro op ho
  obtain ⟨p,-,hop⟩ := List.mem_flatMap.mp ho
  exact setups_byField.ops env p.1 p.2 op hop

section Runs

variable {env : Env σ} {regs : σ → RegFile} (hf : RegisterFile env regs)

include hf

theorem finished_regs {cs : List Invocation} {w w' : World σ} (h : finished env cs w = some w') :
    regs w'.dev = opMonitor.last (regs w.dev) (historyOps env cs w) := by
  induction cs generalizing w with
  | nil =>
    cases h
    rfl
  | cons c cs ih =>
    have hdid := (Invocation.run_did hf c w.fresh).2
    rcases hr : c.run env w.fresh with ⟨_ | a,v⟩
    · simp only [finished,hr] at h
      cases h
    · simp only [finished,hr] at h
      rw [hr] at hdid
      have hops : historyOps env (c::cs) w = c.ops env w.fresh ++ historyOps env cs v := by
        simp only [historyOps,invoked,hr,List.flatMap_cons]
      rw [ih h,hdid,hops,Monitor.last_append]
      rfl

theorem get_finished {cs : List Invocation} {w w' : World σ} (h : finished env cs w = some w')
    {f : Field 32} (hc : f ∈ csConfig) :
    f.get (regs w'.dev smioCs) = leftBy env regs cs w f := by
  rw [finished_regs hf h,get_last (csConfig_stored hc)
    fun op ho => (historyOps_byField env cs w op ho).whole (csConfig_fields hc)]
  rfl

end Runs

/-- The statements of a transfer that is not turned away. -/
def Transfer.setup (cxt : SmiCxt) : Transfer → List RegOp
  | .readArr addr len => programmedReadSetup cxt addr len
  | .writeArr _ addr len => programmedWriteSetup cxt addr len
  | .readDma _ addr len _ => programmedReadDmaSetup cxt addr len ++ smiStart
  | .writeDma _ addr len _ => programmedWriteDmaSetup cxt addr len ++ smiStart

/-- The transfer is not turned away: it has its buffer, or its pointers. -/
def Call.Starts (env : Env σ) (c : Call) (w : World σ) : Prop :=
  match c.transfer with
  | .readArr _ len => ¬ NoBuffer env c.cxt len w
  | .writeArr .. => True
  | .readDma cb .. | .writeDma cb .. => ¬ c.cxt.HasNull cb

instance (env : Env σ) (w : World σ) : (c : Call) → Decidable (c.Starts env w)
  | ⟨cxt,.readArr _ len,_⟩ => inferInstanceAs (Decidable (¬ NoBuffer env cxt len w))
  | ⟨_,.writeArr ..,_⟩ => inferInstanceAs (Decidable True)
  | ⟨cxt,.readDma cb ..,_⟩ | ⟨cxt,.writeDma cb ..,_⟩ =>
    inferInstanceAs (Decidable (¬ cxt.HasNull cb))

/-- The configuration fields that a transfer leaves as it finds them. -/
def Transfer.unassigned : Transfer → List (Field 32)
  | .readArr .. => [SmiCs.teen,SmiCs.intt]
  | .writeArr .. => [SmiCs.teen,SmiCs.pvmode]
  | .readDma .. => [SmiCs.teen,SmiCs.intd,SmiCs.intt,SmiCs.intr,SmiCs.prdy]
  | .writeDma .. =>
    [SmiCs.pad,SmiCs.teen,SmiCs.intd,SmiCs.intt,SmiCs.intr,SmiCs.pvmode,SmiCs.prdy]

theorem Transfer.setup_byField (t : Transfer) (cxt : SmiCxt) :
    ∀ op ∈ t.setup cxt, op.ByField := by
  cases t with
  | readArr addr len => exact setups_byField.readArr cxt addr len
  | writeArr data addr len => exact setups_byField.writeArr cxt addr len
  | readDma cb addr len channel => exact setups_byField.readDma cxt addr len
  | writeDma cb addr len channel => exact setups_byField.writeDma cxt addr len

theorem Transfer.setup_start (t : Transfer) (cxt : SmiCxt) :
    ∃ mid, (∀ op ∈ mid, op.Idle) ∧ t.setup cxt = mid ++ smiStart := by
  cases t with
  | readArr addr len => exact programmedReadSetup_start cxt addr len
  | writeArr data addr len =>
    refine ⟨(programmedWriteSetup cxt addr len).take 14,?_,rfl⟩
    simp +decide [programmedWriteSetup,RegOp.Idle]
  | readDma cb addr len channel =>
    exact ⟨_,by simp +decide [programmedReadDmaSetup,RegOp.Idle],rfl⟩
  | writeDma cb addr len channel =>
    exact ⟨_,by simp +decide [programmedWriteDmaSetup,RegOp.Idle],rfl⟩

/-- The fields of `SMI_CS` that a transfer assigns, in the order of its statements. -/
def Transfer.assigned : Transfer → List (Field 32)
  | .readArr .. => [SmiCs.aferr,SmiCs.seterr,SmiCs.pxldat,SmiCs.enable,SmiCs.write,SmiCs.clear,
    SmiCs.pad,SmiCs.prdy,SmiCs.intr,SmiCs.intd,SmiCs.pvmode,SmiCs.start]
  | .writeArr .. => [SmiCs.aferr,SmiCs.seterr,SmiCs.done,SmiCs.enable,SmiCs.write,SmiCs.clear,
    SmiCs.pxldat,SmiCs.pad,SmiCs.prdy,SmiCs.intr,SmiCs.intd,SmiCs.intt,SmiCs.start]
  | .readDma .. => [SmiCs.clear,SmiCs.enable,SmiCs.pxldat,SmiCs.pvmode,SmiCs.pad,SmiCs.write,
    SmiCs.start]
  | .writeDma .. => [SmiCs.clear,SmiCs.enable,SmiCs.pxldat,SmiCs.write,SmiCs.start]

theorem Transfer.mem_assigned (t : Transfer) (cxt : SmiCxt) (f : Field 32) :
    f ∈ t.assigned ↔ ∃ op ∈ t.setup cxt, op.Assigns smioCs f := by
  cases t <;>
    simp [Transfer.assigned,Transfer.setup,programmedReadSetup,programmedWriteSetup,
      programmedReadDmaSetup,programmedWriteDmaSetup,smiStart,RegOp.Assigns,smioCs,smioL,smioA,
      smioDc,eq_comm]

theorem Transfer.mem_unassigned (t : Transfer) (cxt : SmiCxt) {f : Field 32}
    (hc : f ∈ csConfig) :
    f ∈ t.unassigned ↔ ∀ op ∈ t.setup cxt, ¬ op.Assigns smioCs f := by
  have hlists : ∀ f ∈ csConfig, f ∈ t.unassigned ↔ f ∉ t.assigned := by
    cases t <;> simp only [Transfer.unassigned,Transfer.assigned] <;> decide
  rw [hlists f hc,t.mem_assigned cxt]
  push Not
  rfl

theorem Transfer.unassigned_subset (t : Transfer) : ∀ f ∈ t.unassigned, f ∈ csConfig := by
  cases t <;> simp +decide only [Transfer.unassigned]

theorem Transfer.ops_eq (env : Env σ) (c : Call) (w : World σ) :
    (c.Starts env w → c.transfer.ops env c.cxt w = c.transfer.setup c.cxt) ∧
      (¬ c.Starts env w → c.transfer.ops env c.cxt w = []) := by
  obtain ⟨cxt,t,fuel⟩ := c
  cases t with
  | writeArr data addr len => exact ⟨fun _ => rfl,fun h => absurd trivial h⟩
  | readArr addr len => exact ⟨fun h => if_neg h,fun h => if_pos (not_not.mp h)⟩
  | readDma cb addr len channel => exact ⟨fun h => if_neg h,fun h => if_pos (not_not.mp h)⟩
  | writeDma cb addr len channel => exact ⟨fun h => if_neg h,fun h => if_pos (not_not.mp h)⟩

section Control

variable {env : Env σ} {regs : σ → RegFile} (hf : RegisterFile env regs)

include hf

theorem Call.starts_iff (c : Call) (w : World σ) (F : RegFile) :
    .start F ∈ (c.run env w.fresh).2.keys regs w.dev ↔
      c.Starts env w ∧ F = opMonitor.last (regs w.dev) (c.transfer.setup c.cxt) := by
  have hdid := Invocation.run_did hf ⟨c.cxt,.programmed c.transfer,c.fuel⟩ w.fresh
  simp only [Invocation.run,dropped_run,Invocation.ops] at hdid
  have hstarts : c.Starts env w.fresh ↔ c.Starts env w := Iff.rfl
  obtain ⟨hgo,hstop⟩ := Transfer.ops_eq env c w.fresh
  rw [hdid.keys_eq]
  by_cases hs : c.Starts env w
  · obtain ⟨mid,hmid,hsetup⟩ := c.transfer.setup_start c.cxt
    rw [hgo (hstarts.mpr hs),hsetup,start_mem_marks (hf.start_off w.dev) hmid]
    simp [hs]
  · rw [hstop (hstarts.not.mpr hs)]
    simp [hs]

end Control

/-- Whatever the call finds: the same configuration of `SMI_CS` at its START. -/
def SameControl (env : Env σ) (regs : σ → RegFile) (c : Call) (w₁ w₂ : World σ) : Prop :=
  ∀ F₁ F₂, .start F₁ ∈ (c.run env w₁.fresh).2.keys regs w₁.dev →
    .start F₂ ∈ (c.run env w₂.fresh).2.keys regs w₂.dev →
    ∀ f ∈ csConfig, f.get (F₁ smioCs) = f.get (F₂ smioCs)

section Independence

variable {env : Env σ} {regs : σ → RegFile} (hf : RegisterFile env regs)

include hf

theorem sameControl_worlds (c : Call) (w₁ w₂ : World σ) :
    SameControl env regs c w₁ w₂ ↔ ¬ (c.Starts env w₁ ∧ c.Starts env w₂) ∨
      ∀ f ∈ c.transfer.unassigned,
        f.get (regs w₁.dev smioCs) = f.get (regs w₂.dev smioCs) := by
  have hlast {f : Field 32} (hc : f ∈ csConfig) (F : RegFile) :
      f.get (opMonitor.last F (c.transfer.setup c.cxt) smioCs) =
        (c.transfer.setup c.cxt).foldl (RegOp.onField smioCs f) (f.get (F smioCs)) :=
    get_last (csConfig_stored hc) (fun op ho =>
      (c.transfer.setup_byField c.cxt op ho).whole (csConfig_fields hc)) F
  simp only [SameControl,Call.starts_iff hf]
  constructor
  · intro h
    refine or_iff_not_imp_left.mpr fun hs f hu => ?_
    obtain ⟨hs₁,hs₂⟩ := not_not.mp hs
    have hc := c.transfer.unassigned_subset f hu
    have hkeep := (c.transfer.mem_unassigned c.cxt hc).mp hu
    have hsame := h _ _ ⟨hs₁,rfl⟩ ⟨hs₂,rfl⟩ f hc
    rwa [hlast hc,hlast hc,foldl_onField_eq_self hkeep,foldl_onField_eq_self hkeep] at hsame
  · rintro h F₁ F₂ ⟨hs₁,rfl⟩ ⟨hs₂,rfl⟩ f hc
    rw [hlast hc,hlast hc]
    by_cases hu : f ∈ c.transfer.unassigned
    · rw [(h.resolve_left (not_not.mpr ⟨hs₁,hs₂⟩)) f hu]
    · have hset := (c.transfer.mem_unassigned c.cxt hc).not.mp hu
      push Not at hset
      exact foldl_onField_const hset _ _

/-- After two histories a call finds the same configuration exactly when they leave the same in
the fields that it does not assign. -/
theorem sameControl_iff {w w₁ w₂ : World σ} {cs₁ cs₂ : List Invocation}
    (h₁ : finished env cs₁ w = some w₁) (h₂ : finished env cs₂ w = some w₂) (c : Call) :
    SameControl env regs c w₁ w₂ ↔ ¬ (c.Starts env w₁ ∧ c.Starts env w₂) ∨
      ∀ f ∈ c.transfer.unassigned, leftBy env regs cs₁ w f = leftBy env regs cs₂ w f := by
  rw [sameControl_worlds hf]
  refine or_congr_right (forall₂_congr fun f hu => ?_)
  have hc := c.transfer.unassigned_subset f hu
  rw [get_finished hf h₁ hc,get_finished hf h₂ hc]

end Independence

def interruptWrite : Invocation where
  cxt := { deviceCxt 0 false false false with intt := true }
  entry := .programmed (.writeArr (some fun _ => 0) 0 1)
  fuel := 2

def plainRead : Call := ⟨deviceCxt 0 false false false,.readArr 0 1,2⟩

theorem interruptWrite_finished : finished storageEnv [interruptWrite] (World.init fun _ => 0) =
    some (interruptWrite.run storageEnv (World.init fun _ => 0).fresh).2 := rfl

theorem sameControl_iff_write : RegisterFile storageEnv storedFile ∧
    (let w := World.init fun _ => 0
    let w' := (interruptWrite.run storageEnv w.fresh).2
    finished storageEnv [interruptWrite] w = some w' ∧
    (SameControl storageEnv storedFile plainRead w w' ↔
      ¬ (plainRead.Starts storageEnv w ∧ plainRead.Starts storageEnv w') ∨
        ∀ f ∈ [SmiCs.teen,SmiCs.intt], leftBy storageEnv storedFile [] w f =
          leftBy storageEnv storedFile [interruptWrite] w f)) :=
  ⟨storageEnv_registerFile,interruptWrite_finished,
    sameControl_iff storageEnv_registerFile rfl interruptWrite_finished plainRead⟩

/-- The write leaves INTT set, and the read does not clear it. -/
theorem sameControl_not : ¬ ∀ (cs₁ cs₂ : List Invocation) (w w₁ w₂ : World RegFile) (c : Call),
    finished storageEnv cs₁ w = some w₁ → finished storageEnv cs₂ w = some w₂ →
      SameControl storageEnv storedFile c w₁ w₂ := by
  intro h
  have hsame := h [] [interruptWrite] _ _ _ plainRead rfl interruptWrite_finished
  rw [sameControl_worlds storageEnv_registerFile] at hsame
  have hintt := (hsame.resolve_left (not_not.mpr (by decide))) SmiCs.intt (by decide)
  revert hintt
  decide

end RpiSmi
