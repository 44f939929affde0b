import RpiSmi.Frames
import RpiSmi.History

/-!
# The register file

The settings of the SMI are what was last written to them. `fileMonitor` replays
the log of a call on the stored bits, and marks each START and each write to a
settings register; `opMonitor` computes the same from the setup statements.
-/

namespace RpiSmi

open Exec BitField History

variable {σ : Type}

/-- The fields of `SMI_CS` that configure transfers. -/
def csConfig : List (Field 32) := [SmiCs.enable,SmiCs.write,SmiCs.pad,SmiCs.teen,SmiCs.intd,
  SmiCs.intt,SmiCs.intr,SmiCs.pvmode,SmiCs.pxldat,SmiCs.prdy]

def Reg.IsSettings : Reg → Prop
  | .smi off => 0x10 ≤ off ∧ off < 0x30
  | .dma _ => False

instance : DecidablePred Reg.IsSettings
  | .smi off => inferInstanceAs (Decidable (0x10 ≤ off ∧ off < 0x30))
  | .dma _ => inferInstanceAs (Decidable False)

/-- The bits that hold what was last written to them. The others report, trigger or are not
looked at here. -/
def storedBits (r : Reg) : Word :=
  if r = smioCs then csConfig.foldr (fun f m => f.mask ||| m) 0
  else if r = smioA ∨ r.IsSettings then BitVec.allOnes 32
  else if r = smioDcs then SmiDcs.enable.mask
  else 0

/-- The stored bits of every register; the others are 0. -/
abbrev RegFile := Reg → Word

/-- Stored bits change by a write to their register alone, and START always reads as 0. -/
structure RegisterFile (env : Env σ) (regs : σ → RegFile) : Prop where
  value (r : Reg) (s : σ) : (env.readReg r s).1 &&& storedBits r = regs s r
  read (r : Reg) (s : σ) : regs (env.readReg r s).2 = regs s
  write (r : Reg) (v : Word) (s : σ) :
    regs (env.writeReg r v s) = Function.update (regs s) r (v &&& storedBits r)
  clock (s : σ) : regs (env.clockGettime s).2 = regs s
  realloc (bytes : ℕ) (s : σ) : regs (env.realloc bytes s).2 = regs s
  writeSync (fd : ℤ) (s : σ) : regs (env.writeSync fd s) = regs s
  start (s : σ) : SmiCs.start.test (env.readReg smioCs s).1 = false

/-- What is marked: a START with the file it leaves, and a write to a settings register with the
file before it. -/
inductive Key
  | start (F : RegFile)
  | settings (F : RegFile)

/-- A word `v` on its way into register `r`. -/
def RegFile.put (F : RegFile) (r : Reg) (v : Word) : RegFile :=
  Function.update F r (v &&& storedBits r)

theorem RegFile.put_congr {F : RegFile} {r : Reg} {v v' : Word}
    (h : v &&& storedBits r = v' &&& storedBits r) : F.put r v = F.put r v' := by
  rw [RegFile.put,RegFile.put,h]

def RegFile.key (F : RegFile) (r : Reg) (v : Word) : Option Key :=
  if r = smioCs ∧ SmiCs.start.test v = true then some (.start (F.put r v))
  else if r.IsSettings then some (.settings F)
  else none

def fileMonitor : Monitor Event RegFile Key where
  next F e := match e with
    | .write r v => F.put r v
    | _ => F
  mark F e := match e with
    | .write r v => F.key r v
    | _ => none

/-- The word that a setup statement writes, with the bits that are not stored taken as 0. -/
def RegOp.word (F : RegFile) : RegOp → Word
  | .field r f v => f.set v (F r)
  | .value _ v => v

def opMonitor : Monitor RegOp RegFile Key where
  next F op := F.put op.reg (op.word F)
  mark F op := F.key op.reg (op.word F)

@[simp] theorem opMonitor_next (F : RegFile) (op : RegOp) :
    opMonitor.next F op = F.put op.reg (op.word F) := rfl
@[simp] theorem opMonitor_mark (F : RegFile) (op : RegOp) :
    opMonitor.mark F op = F.key op.reg (op.word F) := rfl

theorem test_start_set {f : Field 32} {v : ℕ} {x y : Word} (hx : SmiCs.start.test x = false)
    (hy : SmiCs.start.test y = false) :
    SmiCs.start.test (f.set v x) = SmiCs.start.test (f.set v y) := by
  simp only [Field.test_eq_getLsbD (f := SmiCs.start) rfl] at *
  rw [f.getLsbD_set v x (by decide),f.getLsbD_set v y (by decide),hx,hy]

abbrev World.Passes (regs : σ → RegFile) : List Key → World σ → World σ → Prop :=
  fileMonitor.Passes World.log (fun w => regs w.dev)

/-- Nothing is started, and no settings register is written; the stored bits stay. -/
abbrev World.Quiet (regs : σ → RegFile) : World σ → World σ → Prop :=
  fileMonitor.Quiet World.log (fun w => regs w.dev)

section Steps

variable {env : Env σ} {regs : σ → RegFile} (hf : RegisterFile env regs)

include hf

theorem RegisterFile.masked (r : Reg) (s : σ) : regs s r &&& storedBits r = regs s r := by
  rw [← hf.value r s,BitVec.and_assoc,BitVec.and_self]

theorem RegisterFile.start_off (s : σ) : SmiCs.start.test (regs s smioCs) = false := by
  rw [← hf.masked smioCs s,Field.test_eq_getLsbD rfl,BitVec.getLsbD_and]
  have h : (storedBits smioCs).getLsbD SmiCs.start.offset = false := by decide
  simp [h]

theorem RegisterFile.put_of_unstored {r : Reg} (hr : storedBits r = 0) (v : Word) (s : σ) :
    (regs s).put r v = regs s := by
  have hv : v &&& storedBits r = regs s r := by
    rw [← hf.masked r s,hr]
    simp
  rw [RegFile.put,hv,Function.update_eq_self]

theorem passes_write (w : World σ) (r : Reg) (v : Word) :
    w.Passes regs ((regs w.dev).key r v).toList (w.write env r v) ∧
      regs (w.write env r v).dev = (regs w.dev).put r v :=
  ⟨Monitor.passes_event (e := Event.write r v) rfl (hf.write r v w.dev).symm,hf.write r v w.dev⟩

theorem quiet_read (w : World σ) (r : Reg) : w.Quiet regs (w.read env r) :=
  Monitor.quiet_event (e := Event.read r (w.value env r)) rfl (hf.read r w.dev) rfl rfl

theorem word_agrees (w : World σ) (r : Reg) (f : Field 32) (v : ℕ) :
    (regs w.dev).put r (f.set v (w.value env r)) =
        (regs w.dev).put r ((RegOp.field r f v).word (regs w.dev)) ∧
      (regs w.dev).key r (f.set v (w.value env r)) =
        (regs w.dev).key r ((RegOp.field r f v).word (regs w.dev)) := by
  have hput : (regs w.dev).put r (f.set v (w.value env r)) =
      (regs w.dev).put r (f.set v (regs w.dev r)) := by
    apply RegFile.put_congr
    rw [← f.set_and v (w.value env r),World.value,hf.value]
  refine ⟨hput,?_⟩
  simp only [RegFile.key,RegOp.word,hput]
  by_cases hr : r = smioCs
  · subst hr
    rw [World.value,test_start_set (hf.start w.dev) (hf.start_off w.dev)]
    rfl
  · simp only [hr,false_and,if_false]

theorem passes_op (w : World σ) (op : RegOp) :
    w.Passes regs (opMonitor.mark (regs w.dev) op).toList (w.apply env [op]) ∧
      regs (w.apply env [op]).dev = opMonitor.next (regs w.dev) op := by
  cases op with
  | value r v => exact passes_write hf w r v
  | field r f v =>
    have hread := quiet_read hf w r
    obtain ⟨hput,hkey⟩ := word_agrees hf w r f v
    obtain ⟨hw,hs⟩ := passes_write hf (w.read env r) r (f.set v (w.value env r))
    have hregs : regs (w.read env r).dev = regs w.dev := hread.2
    rw [hregs,hkey] at hw
    rw [hregs,hput] at hs
    exact ⟨hread.passes hw,hs⟩

theorem passes_apply (w : World σ) (ops : List RegOp) :
    w.Passes regs (opMonitor.marks (regs w.dev) ops) (w.apply env ops) ∧
      regs (w.apply env ops).dev = opMonitor.last (regs w.dev) ops :=
  Monitor.passes_foldl (passes_op hf) ops w

theorem quiet_op (op : RegOp) {w : World σ} (hm : opMonitor.mark (regs w.dev) op = none)
    (hn : opMonitor.next (regs w.dev) op = regs w.dev) : w.Quiet regs (w.apply env [op]) := by
  obtain ⟨hp,hs⟩ := passes_op hf w op
  rw [hm] at hp
  exact ⟨hp,hs.trans hn⟩

/-- What the waits write is quiet: flags of `SMI_CS`, and registers that store nothing. -/
theorem quiet_steps : CallSteps env (fun r => r ≠ smioCs ∧ storedBits r = 0)
    (fun r f => f.mask &&& storedBits r = 0 ∧ ¬ r.IsSettings ∧
      (r = smioCs → f.Disjoint SmiCs.start))
    (World.Quiet regs) where
  read r w := quiet_read hf w r
  write r v w h := by
    have hset : ¬ r.IsSettings := fun hr => by simp [storedBits,h.1,hr] at h
    refine quiet_op hf (.value r v) ?_ (hf.put_of_unstored h.2 v w.dev)
    simp [RegFile.key,RegOp.reg,h.1,hset]
  assign r f v w h := by
    refine quiet_op hf (.field r f v) ?_ ?_
    · have hoff : r = smioCs → SmiCs.start.test (f.set v (regs w.dev r)) = false := by
        rintro rfl
        rw [Field.test_set_of_disjoint (h.2.2 rfl),hf.start_off]
      by_cases hr : r = smioCs <;>
        simp_all [RegFile.key,RegOp.reg,RegOp.word]
    · show (regs w.dev).put r (f.set v (regs w.dev r)) = regs w.dev
      rw [RegFile.put,Field.set_and_outside h.1,hf.masked,Function.update_eq_self]
  store i v w := Monitor.quiet_event (e := Event.store .rawBuffer i v) rfl rfl rfl rfl
  fetch i w := Monitor.quiet_event (e := Event.load i) rfl rfl rfl rfl
  report msg w := Monitor.quiet_event (e := Event.error msg) rfl rfl rfl rfl
  clock w :=
    Monitor.quiet_event (e := Event.clock (env.clockGettime w.dev).1) rfl (hf.clock w.dev) rfl rfl
  storeTo p i v w := by
    refine Monitor.quiet_event (e := Event.store p i v) ?_ ?_ rfl rfl
    · cases p <;> rfl
    · rw [dev_store]
  output _ _ := Monitor.quiet_of_eq rfl rfl
  realloc bytes _ w := Monitor.quiet_of_eq rfl (hf.realloc bytes w.dev)
  sync fd w := Monitor.quiet_event (e := Event.sync fd) rfl (hf.writeSync fd w.dev) rfl rfl
  control c w := Monitor.quiet_event (e := Event.control c) rfl rfl rfl rfl

end Steps

def RegOp.onField (r : Reg) (f : Field 32) (x : ℕ) : RegOp → ℕ
  | .field r' f' v => if r' = r ∧ f' = f then v%2^f.width else x
  | .value r' v => if r' = r then f.get v else x

def RegOp.Whole (r : Reg) (f : Field 32) : RegOp → Prop
  | .field r' f' _ => r' = r → f' = f ∨ f'.Disjoint f
  | .value .. => True

theorem next_field (F : RegFile) (r : Reg) (f : Field 32) (v : ℕ) :
    opMonitor.next F (.field r f v) r = f.set v (F r) &&& storedBits r := by
  simp [RegFile.put,RegOp.reg,RegOp.word]

theorem get_next {r : Reg} {f : Field 32} (hs : f.mask &&& storedBits r = f.mask) {op : RegOp}
    (hw : op.Whole r f) (F : RegFile) :
    f.get (opMonitor.next F op r) = op.onField r f (f.get (F r)) := by
  cases op with
  | value r' v =>
    by_cases hr : r' = r
    · subst hr
      simp [RegFile.put,RegOp.reg,RegOp.word,RegOp.onField,Field.get_and hs]
    · simp [RegFile.put,RegOp.reg,RegOp.onField,hr,Function.update_of_ne (Ne.symm hr)]
  | field r' f' v =>
    by_cases hr : r' = r
    · subst hr
      rw [next_field,Field.get_and hs]
      by_cases hf : f' = f
      · simp [RegOp.onField,hf]
      · rcases hw rfl with h | h
        · exact absurd h hf
        · simp [RegOp.onField,hf,Field.get_set_of_disjoint h]
    · simp [RegFile.put,RegOp.reg,RegOp.onField,hr,Function.update_of_ne (Ne.symm hr)]

theorem get_last {r : Reg} {f : Field 32} (hs : f.mask &&& storedBits r = f.mask)
    {ops : List RegOp} (hw : ∀ op ∈ ops, op.Whole r f) (F : RegFile) :
    f.get (opMonitor.last F ops r) = ops.foldl (RegOp.onField r f) (f.get (F r)) := by
  induction ops generalizing F with
  | nil => rfl
  | cons op ops ih =>
    rw [Monitor.last_cons,ih fun op' h => hw op' (List.mem_cons_of_mem op h),
      get_next hs (hw op (List.mem_cons_self ..)),List.foldl_cons]

theorem test_last {r : Reg} {f : Field 32} (hs : f.mask &&& storedBits r = f.mask)
    {ops : List RegOp} (hw : ∀ op ∈ ops, op.Whole r f) (F : RegFile) :
    f.test (opMonitor.last F ops r) = (ops.foldl (RegOp.onField r f) (f.get (F r)) != 0) := by
  rw [Field.test,get_last hs hw]

def RegOp.Beside (r : Reg) (f : Field 32) : RegOp → Prop
  | .field r' g _ => r' = r → g.Disjoint f
  | .value r' _ => r' ≠ r

theorem get_last_beside {r : Reg} {f : Field 32} (hs : f.mask &&& storedBits r = f.mask)
    {ops : List RegOp} (h : ∀ op ∈ ops, op.Beside r f) (F : RegFile) :
    f.get (opMonitor.last F ops r) = f.get (F r) := by
  refine Monitor.last_invariant opMonitor (I := fun G => f.get (G r) = f.get (F r)) ?_ rfl
  intro op ho G hG
  have hop := h op ho
  by_cases hr : op.reg = r
  · cases op with
    | field r' g v =>
      obtain rfl : r' = r := hr
      rw [next_field,Field.get_and hs,Field.get_set_of_disjoint (hop rfl),hG]
    | value r' v => exact absurd hr hop
  · rw [opMonitor_next,RegFile.put,Function.update_of_ne (Ne.symm hr),hG]

theorem get_last_fields {r : Reg} {l : List (Field 32 × ℕ)}
    (hs : ∀ p ∈ l, p.1.mask &&& storedBits r = p.1.mask)
    (hd : (l.map Prod.fst).Pairwise Field.Disjoint) (F : RegFile) {p : Field 32 × ℕ}
    (hp : p ∈ l) :
    p.1.get (opMonitor.last F (l.map fun p => .field r p.1 p.2) r) = p.2%2^p.1.width := by
  induction l generalizing F with
  | nil => cases hp
  | cons q l ih =>
    rw [List.map_cons,List.pairwise_cons] at hd
    rw [List.map_cons,Monitor.last_cons]
    rcases List.mem_cons.mp hp with rfl | hp
    · have hbeside : ∀ q ∈ l, q.1.Disjoint p.1 := fun q hq =>
        (hd.1 q.1 (List.mem_map_of_mem hq)).symm
      have hself := hs p (List.mem_cons_self ..)
      have hrest : ∀ op ∈ l.map fun p => RegOp.field r p.1 p.2, op.Beside r p.1 := by
        intro op ho
        obtain ⟨q,hq,rfl⟩ := List.mem_map.mp ho
        exact fun _ => hbeside q hq
      rw [get_last_beside hself hrest,next_field,Field.get_and hself,Field.get_set]
    · exact ih (fun q hq => hs q (List.mem_cons_of_mem _ hq)) hd.2 _ hp

theorem storedBits_settings {r : Reg} (hr : r.IsSettings) : storedBits r = BitVec.allOnes 32 := by
  have hcs : r ≠ smioCs := by
    rintro rfl
    exact absurd hr (by decide)
  simp only [storedBits,hcs,hr,if_false,or_true,if_true]

theorem stored_settings {r : Reg} (hr : r.IsSettings) (f : Field 32) :
    f.mask &&& storedBits r = f.mask := by
  rw [storedBits_settings hr,BitVec.and_allOnes]

def RegOp.onSettings (r : Reg) (x : Word) : RegOp → Word
  | .field r' f v => if r' = r then f.set v x else x
  | .value r' v => if r' = r then v else x

theorem last_settings {r : Reg} (hr : r.IsSettings) (ops : List RegOp) (F : RegFile) :
    opMonitor.last F ops r = ops.foldl (RegOp.onSettings r) (F r) := by
  induction ops generalizing F with
  | nil => rfl
  | cons op ops ih =>
    have hop : opMonitor.next F op r = op.onSettings r (F r) := by
      have hself (v : Word) : F.put r v r = v := by
        rw [RegFile.put,storedBits_settings hr,BitVec.and_allOnes,Function.update_self]
      cases op with
      | field r' f v =>
        by_cases h : r' = r
        · subst h
          simp [RegOp.reg,RegOp.word,RegOp.onSettings,hself]
        · simp [RegOp.reg,RegOp.onSettings,h,RegFile.put,Function.update_of_ne (Ne.symm h)]
      | value r' v =>
        by_cases h : r' = r
        · subst h
          simp [RegOp.reg,RegOp.word,RegOp.onSettings,hself]
        · simp [RegOp.reg,RegOp.onSettings,h,RegFile.put,Function.update_of_ne (Ne.symm h)]
    rw [Monitor.last_cons,ih,hop,List.foldl_cons]

theorem last_of_ne {r : Reg} {ops : List RegOp} (h : ∀ op ∈ ops, op.reg ≠ r) (F : RegFile) :
    opMonitor.last F ops r = F r :=
  Monitor.last_invariant opMonitor (I := fun G => G r = F r)
    (fun op ho G hG => (Function.update_of_ne (Ne.symm (h op ho)) _ G).trans hG) rfl

def RegOp.Idle : RegOp → Prop
  | .field r f _ => r = smioCs → f.Disjoint SmiCs.start
  | .value r v => r = smioCs → SmiCs.start.test v = false

def RegFile.StartOff (F : RegFile) : Prop := SmiCs.start.test (F smioCs) = false

theorem startOff_put {F : RegFile} (h : F.StartOff) (r : Reg) (v : Word) :
    (F.put r v).StartOff := by
  by_cases hr : r = smioCs
  · subst hr
    have hbit : (storedBits smioCs).getLsbD SmiCs.start.offset = false := by decide
    simp [RegFile.StartOff,RegFile.put,Field.test_eq_getLsbD (f := SmiCs.start) rfl,hbit]
  · have hput : F.put r v smioCs = F smioCs := Function.update_of_ne (Ne.symm hr) _ F
    rwa [RegFile.StartOff,hput]

theorem startOff_last {F : RegFile} (h : F.StartOff) (ops : List RegOp) :
    (opMonitor.last F ops).StartOff :=
  Monitor.last_invariant opMonitor (I := RegFile.StartOff) (fun _ _ _ hG => startOff_put hG _ _) h

theorem RegOp.Idle.test_word {op : RegOp} (ho : op.Idle) {F : RegFile} (h : F.StartOff)
    (hr : op.reg = smioCs) : SmiCs.start.test (op.word F) = false := by
  cases op with
  | value r v => exact ho hr
  | field r f v =>
    obtain rfl : r = smioCs := hr
    rw [RegOp.word,Field.test_set_of_disjoint (ho rfl)]
    exact h

theorem start_notMem_marks {F : RegFile} (h : F.StartOff) {ops : List RegOp}
    (ho : ∀ op ∈ ops, op.Idle) (G : RegFile) : .start G ∉ opMonitor.marks F ops := by
  intro hG
  obtain ⟨l₁,op,l₂,rfl,hm⟩ := (Monitor.mem_marks opMonitor).mp hG
  have hoff := (ho op (by simp)).test_word (startOff_last h l₁)
  rw [opMonitor_mark,RegFile.key] at hm
  split_ifs at hm with hs
  · rw [hoff hs.1] at hs
    cases hs.2
  · cases hm

theorem marks_smiStart (F : RegFile) :
    opMonitor.marks F smiStart = [.start (opMonitor.last F smiStart)] := by
  simp [smiStart,opMonitor,RegFile.key,RegOp.reg,RegOp.word,
    SmiCs.start.test_set_one (by decide)]

theorem start_mem_marks {F : RegFile} (h : F.StartOff) {mid : List RegOp}
    (ho : ∀ op ∈ mid, op.Idle) {G : RegFile} :
    .start G ∈ opMonitor.marks F (mid ++ smiStart) ↔ G = opMonitor.last F (mid ++ smiStart) := by
  have hmid := start_notMem_marks h ho G
  simp [Monitor.marks_append,Monitor.last_append,marks_smiStart,hmid]

def readyBits (r : Reg) : Word :=
  if r = smioCs then 0x18000002
  else if r = smioDcs then 0x4
  else if r = dmaoCs then 0x2
  else 0

def storageEnv : Env RegFile where
  readReg r F := (F r &&& storedBits r ||| readyBits r,F)
  writeReg r v F := Function.update F r v
  clockGettime F := (0,F)
  realloc _ F := (none,F)
  writeSync _ F := F
  limits := .default
  arm64 := true

def storedFile (F : RegFile) : RegFile := fun r => F r &&& storedBits r

theorem storageEnv_registerFile : RegisterFile storageEnv storedFile where
  value r F := by
    have hready : readyBits r &&& storedBits r = 0 := by
      by_cases hcs : r = smioCs
      · subst hcs
        decide
      · by_cases hdcs : r = smioDcs
        · subst hdcs
          decide
        · by_cases hdma : r = dmaoCs
          · subst hdma
            decide
          · simp [readyBits,hcs,hdcs,hdma]
    show (F r &&& storedBits r ||| readyBits r) &&& storedBits r = F r &&& storedBits r
    rw [BitVec.and_or_distrib_right,hready]
    simp [BitVec.and_assoc]
  read _ _ := rfl
  write r v F := by
    funext r'
    by_cases h : r' = r
    · subst h
      simp [storedFile,storageEnv]
    · simp [storedFile,storageEnv,Function.update_of_ne h]
  clock _ := rfl
  realloc _ _ := rfl
  writeSync _ _ := rfl
  start F := by
    have hs : (storedBits smioCs).getLsbD SmiCs.start.offset = false := by decide
    have hready : (readyBits smioCs).getLsbD SmiCs.start.offset = false := by decide
    simp [storageEnv,Field.test_eq_getLsbD (f := SmiCs.start) rfl,hs,hready]

end RpiSmi
