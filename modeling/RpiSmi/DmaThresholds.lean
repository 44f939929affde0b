import RpiSmi.DmaStart

/-!
# DMA thresholds

Four fields of `SMI_DC` hold the FIFO levels of the two directions, six bits
each. A user assigns a level to a field of the context, which is a `bool`, and a
transfer assigns the fields of its direction from there.
-/

namespace RpiSmi

open Exec BitField

variable {σ : Type}

def dcFields : List (Field 32) :=
  [SmiDc.reqw,SmiDc.reqr,SmiDc.panicw,SmiDc.panicr,SmiDc.dmaen]

def dcBits : Word := dcFields.foldr (fun f m => f.mask ||| m) 0

theorem mask_dcFields : ∀ f ∈ dcFields, f.mask &&& dcBits = f.mask := by decide

/-- The fields of `SMI_DC` are what was last written to them. -/
structure StoresDc (env : Env σ) (dc : σ → Word) : Prop where
  value (s : σ) : (env.readReg smioDc s).1 &&& dcBits = dc s
  put (v : Word) (s : σ) : dc (env.writeReg smioDc v s) = v &&& dcBits
  read (r : Reg) (s : σ) : dc (env.readReg r s).2 = dc s
  write (r : Reg) (v : Word) (s : σ) : r ≠ smioDc → dc (env.writeReg r v s) = dc s
  clock (s : σ) : dc (env.clockGettime s).2 = dc s
  realloc (bytes : ℕ) (s : σ) : dc (env.realloc bytes s).2 = dc s
  writeSync (fd : ℤ) (s : σ) : dc (env.writeSync fd s) = dc s

def SameDc (dc : σ → Word) (w w' : World σ) : Prop := dc w'.dev = dc w.dev

instance (dc : σ → Word) : IsPreorder (World σ) (SameDc dc) where
  refl _ := rfl
  trans _ _ _ h h' := h'.trans h

abbrev NotDc : RegOp → Prop := RegOp.In (fun r => r ≠ smioDc) fun r _ => r ≠ smioDc

section Register

variable {env : Env σ} {dc : σ → Word} (hs : StoresDc env dc)

include hs

theorem sameDc_steps :
    CallSteps env (fun r => r ≠ smioDc) (fun r _ => r ≠ smioDc) (SameDc dc) where
  read r w := hs.read r w.dev
  write r v w hr := hs.write r v w.dev hr
  assign r _ _ w hr := (hs.write r _ _ hr).trans (hs.read r w.dev)
  store _ _ _ := rfl
  fetch _ _ := rfl
  report _ _ := rfl
  clock w := hs.clock w.dev
  storeTo p i v w := congrArg dc (dev_store w p i v)
  output _ _ := rfl
  realloc bytes _ w := hs.realloc bytes w.dev
  sync fd w := hs.writeSync fd w.dev
  control _ _ := rfl

theorem dc_assign (f : Field 32) (v : ℕ) (w : World σ) :
    dc (w.assign env smioDc f v).dev = f.set v (dc w.dev) &&& dcBits := by
  have hput : dc (w.assign env smioDc f v).dev = f.set v (w.value env smioDc) &&& dcBits :=
    hs.put _ _
  rw [hput,← f.set_and v (w.value env smioDc),World.value,hs.value]

theorem dc_apply (fs : List (Field 32 × ℕ)) (w : World σ) :
    dc (w.apply env (fs.map fun p => .field smioDc p.1 p.2)).dev =
      fs.foldl (fun x p => p.1.set p.2 x &&& dcBits) (dc w.dev) := by
  induction fs generalizing w with
  | nil => rfl
  | cons p fs ih => rw [List.map_cons,World.apply_field,ih,dc_assign hs,List.foldl_cons]

end Register

def DmaDir.panic : DmaDir → Field 32
  | .read => SmiDc.panicr
  | .write => SmiDc.panicw

def DmaDir.req : DmaDir → Field 32
  | .read => SmiDc.reqr
  | .write => SmiDc.reqw

def DmaDir.other : DmaDir → DmaDir
  | .read => .write
  | .write => .read

def SmiDma.panic (c : SmiDma) : DmaDir → Bool
  | .read => c.panicr
  | .write => c.panicw

def SmiDma.req (c : SmiDma) : DmaDir → Bool
  | .read => c.reqr
  | .write => c.reqw

namespace DmaCall

variable {env : Env σ} {dc : σ → Word} {d : DmaCall} {w : World σ}

def dcAssigns (d : DmaCall) : List (Field 32 × ℕ) := [(SmiDc.dmaen,1),
  (d.dir.panic,(d.cxt.dmaConfig.panic d.dir).toNat),(d.dir.req,(d.cxt.dmaConfig.req d.dir).toNat)]

theorem setup_eq (d : DmaCall) : ∃ before after, (∀ op ∈ before, NotDc op) ∧
    (∀ op ∈ after, NotDc op) ∧
    d.setup = before ++ d.dcAssigns.map (fun p => .field smioDc p.1 p.2) ++ after := by
  obtain ⟨dir,cxt,cb,addr,len,channel⟩ := d
  cases dir with
  | read =>
    refine ⟨(programmedReadDmaSetup cxt addr len).take 8,[],?_,by simp,rfl⟩
    simp [programmedReadDmaSetup,RegOp.In,smioCs,smioA,smioL,smioDc]
  | write =>
    refine ⟨(programmedWriteDmaSetup cxt addr len).take 6,smiStart,?_,?_,rfl⟩
    · simp [programmedWriteDmaSetup,RegOp.In,smioCs,smioA,smioL,smioDc]
    · simp [smiStart,RegOp.In,smioCs,smioDc]

theorem rest_notDc (d : DmaCall) : ∀ op ∈ d.rest, NotDc op := by
  unfold rest
  cases d.dir <;> simp [smiStart,RegOp.In,smioCs,smioDc]

theorem dc_run (hs : StoresDc env dc) (hn : ¬ d.HasNull) (fuel : ℕ) :
    dc (d.run env fuel w).2.dev =
      d.dcAssigns.foldl (fun x p => p.1.set p.2 x &&& dcBits) (dc w.dev) := by
  have hsteps := sameDc_steps hs
  have hsized : SameDc dc w ((d.sized w).withCb (d.block w.cb)) := by
    unfold sized
    cases d.dir with
    | read => exact keeps_ratioWorld hsteps d.cxt w
    | write => rfl
  have hbegun : dc (d.begun env w).dev =
      d.dcAssigns.foldl (fun x p => p.1.set p.2 x &&& dcBits) (dc w.dev) := by
    obtain ⟨before,after,hb,ha,hsetup⟩ := d.setup_eq
    have hbefore := trans_of (SameDc dc) hsized (hsteps.toStepsIn.apply hb _)
    rw [begun_eq,hsetup,World.apply_append,World.apply_append]
    exact (hsteps.toStepsIn.apply ha _).trans ((dc_apply hs _ _).trans (by rw [hbefore]))
  have hstart : SameDc dc (d.begun env w) (d.start env (d.begun env w)).2 :=
    keeps_startDma hsteps _ _ _ (by simp [dmaCtrlBlk,smioDc]) (by simp [dmaCsOffset,smioDc]) _
  have hwaiting : SameDc dc (d.begun env w) (d.waiting env w) :=
    trans_of (SameDc dc) hstart (hsteps.toStepsIn.apply d.rest_notDc _)
  have hawait : SameDc dc (d.waiting env w) (smiDmaAwait env fuel (d.waiting env w)).2 :=
    keeps_smiDmaAwait hsteps.toStepsIn fuel (by simp [dmaoCs,smioDc]) _
  rw [run_eq hn]
  exact hawait.trans (hwaiting.trans hbegun)

end DmaCall

theorem get_put {f : Field 32} (hf : f ∈ dcFields) (v : ℕ) (x : Word) :
    f.get (f.set v x &&& dcBits) = v%2^f.width := by
  rw [Field.get_and (mask_dcFields f hf),f.get_set]

theorem get_put_of_disjoint {f g : Field 32} (hg : g ∈ dcFields) (h : f.Disjoint g) (v : ℕ)
    (x : Word) : g.get (f.set v x &&& dcBits) = g.get x := by
  rw [Field.get_and (mask_dcFields g hg),Field.get_set_of_disjoint h]

theorem DmaDir.mem_dcFields (dir : DmaDir) : dir.panic ∈ dcFields ∧ dir.req ∈ dcFields := by
  cases dir <;> decide

/-- What a call of direction `dir` leaves in the register, from the values it assigns. -/
theorem get_dcAssigns (d : DmaCall) (x : Word) :
    let y := d.dcAssigns.foldl (fun x p => p.1.set p.2 x &&& dcBits) x
    d.dir.panic.get y = (d.cxt.dmaConfig.panic d.dir).toNat ∧
    d.dir.req.get y = (d.cxt.dmaConfig.req d.dir).toNat ∧ SmiDc.dmaen.get y = 1 ∧
    d.dir.other.panic.get y = d.dir.other.panic.get x ∧
    d.dir.other.req.get y = d.dir.other.req.get x := by
  obtain ⟨hpanic,hreq⟩ := d.dir.mem_dcFields
  obtain ⟨hpanic',hreq'⟩ := d.dir.other.mem_dcFields
  have hdmaen : SmiDc.dmaen ∈ dcFields := by decide
  have hbool (b : Bool) : b.toNat%2^6 = b.toNat := by cases b <;> rfl
  have hwidth : d.dir.panic.width = 6 ∧ d.dir.req.width = 6 := by cases d.dir <;> decide
  have hown : d.dir.req.Disjoint d.dir.panic ∧ d.dir.req.Disjoint SmiDc.dmaen ∧
      d.dir.panic.Disjoint SmiDc.dmaen := by cases d.dir <;> decide
  have hother (g : Field 32) (hg : g = d.dir.other.panic ∨ g = d.dir.other.req) :
      d.dir.req.Disjoint g ∧ d.dir.panic.Disjoint g ∧ SmiDc.dmaen.Disjoint g := by
    rcases hg with rfl | rfl <;> cases d.dir <;> decide
  simp only [DmaCall.dcAssigns,List.foldl_cons,List.foldl_nil]
  refine ⟨?_,?_,?_,?_,?_⟩
  · rw [get_put_of_disjoint hpanic hown.1,get_put hpanic,hwidth.1,hbool]
  · rw [get_put hreq,hwidth.2,hbool]
  · rw [get_put_of_disjoint hdmaen hown.2.1,get_put_of_disjoint hdmaen hown.2.2,get_put hdmaen]
    rfl
  · obtain ⟨h₁,h₂,h₃⟩ := hother _ (.inl rfl)
    rw [get_put_of_disjoint hpanic' h₁,get_put_of_disjoint hpanic' h₂,
      get_put_of_disjoint hpanic' h₃]
  · obtain ⟨h₁,h₂,h₃⟩ := hother _ (.inr rfl)
    rw [get_put_of_disjoint hreq' h₁,get_put_of_disjoint hreq' h₂,get_put_of_disjoint hreq' h₃]

/-- The levels that a user assigns. -/
structure DmaLevels where
  panicr : BitVec 6
  panicw : BitVec 6
  reqr : BitVec 6
  reqw : BitVec 6
  deriving DecidableEq

/-- `dma_config` after the assignments: a number that goes into a `bool` is 0 or 1. -/
def DmaLevels.config (l : DmaLevels) : SmiDma :=
  ⟨l.panicr != 0,l.panicw != 0,l.reqr != 0,l.reqw != 0⟩

def DmaLevels.panic (l : DmaLevels) : DmaDir → ℕ
  | .read => l.panicr.toNat
  | .write => l.panicw.toNat

def DmaLevels.req (l : DmaLevels) : DmaDir → ℕ
  | .read => l.reqr.toNat
  | .write => l.reqw.toNat

/-- A level that is neither 0 nor 1 is lost. -/
theorem toNat_bne_zero_iff (v : BitVec 6) : (v != 0).toNat = v.toNat ↔ v.toNat ≤ 1 := by
  revert v
  decide

theorem DmaLevels.panic_config_iff (l : DmaLevels) (dir : DmaDir) :
    (l.config.panic dir).toNat = l.panic dir ↔ l.panic dir ≤ 1 := by
  cases dir <;> exact toNat_bne_zero_iff _

theorem DmaLevels.req_config_iff (l : DmaLevels) (dir : DmaDir) :
    (l.config.req dir).toNat = l.req dir ↔ l.req dir ≤ 1 := by
  cases dir <;> exact toNat_bne_zero_iff _

structure LevelCall where
  levels : DmaLevels
  call : DmaCall
  fuel : ℕ
  assigned : call.cxt.dmaConfig = levels.config

namespace LevelCall

variable (env : Env σ) (dc : σ → Word) (c : LevelCall) (w : World σ)

def run : Drv σ ℤ := c.call.run env c.fuel

/-- The direction's levels are in the register, and transfers by DMA are enabled. -/
def Set : Prop := c.call.dir.panic.get (dc w.dev) = c.levels.panic c.call.dir ∧
  c.call.dir.req.get (dc w.dev) = c.levels.req c.call.dir ∧ SmiDc.dmaen.get (dc w.dev) = 1

/-- From `w` to `u` the fields of the other direction stay as they are. -/
def LeavesOther (u : World σ) : Prop :=
  c.call.dir.other.panic.get (dc u.dev) = c.call.dir.other.panic.get (dc w.dev) ∧
  c.call.dir.other.req.get (dc u.dev) = c.call.dir.other.req.get (dc w.dev)

/-- The levels of the direction fit a `bool`, or the call is turned away and finds them there. -/
def Fits : Prop :=
  if c.call.HasNull then c.Set dc w
  else c.levels.panic c.call.dir ≤ 1 ∧ c.levels.req c.call.dir ≤ 1

end LevelCall

def levelsMade (env : Env σ) : List LevelCall → World σ → List (LevelCall × World σ)
  | [], _ => []
  | c::cs, w => (c,w.fresh)::match c.run env w.fresh with
    | (some _,u) => levelsMade env cs u
    | (none,_) => []

section Run

variable {env : Env σ} {dc : σ → Word} (hs : StoresDc env dc)

include hs

theorem LevelCall.set_iff (c : LevelCall) (w : World σ) :
    (c.Set dc (c.run env w).2 ∧ c.LeavesOther dc w (c.run env w).2) ↔ c.Fits dc w := by
  unfold LevelCall.Fits LevelCall.run
  split_ifs with hn
  · rw [DmaCall.run_null hn]
    exact and_iff_left ⟨rfl,rfl⟩
  · obtain ⟨hpanic,hreq,hdmaen,hother⟩ := get_dcAssigns c.call (dc w.dev)
    rw [← DmaCall.dc_run hs hn c.fuel] at hpanic hreq hdmaen hother
    rw [c.assigned] at hpanic hreq
    have hleft : c.LeavesOther dc w (c.call.run env c.fuel w).2 := hother
    rw [and_iff_left hleft,LevelCall.Set,hpanic,hreq,hdmaen,c.levels.panic_config_iff,
      c.levels.req_config_iff]
    simp

/-- Over a run: after every call the register has the levels of its direction, and those of the
other as before, exactly when every call has levels that fit a `bool`. -/
theorem thresholds_set_iff (calls : List LevelCall) (w : World σ) :
    (∀ p ∈ levelsMade env calls w,
      p.1.Set dc (p.1.run env p.2).2 ∧ p.1.LeavesOther dc p.2 (p.1.run env p.2).2) ↔
    ∀ p ∈ levelsMade env calls w, p.1.Fits dc p.2 :=
  forall₂_congr fun p _ => p.1.set_iff hs p.2

end Run

def dcEnv : Env Word where
  readReg r x := (if r = smioDc then x else if r = dmaoCs then 0x2 else 0,x)
  writeReg r v x := if r = smioDc then v else x
  clockGettime x := (0,x)
  realloc _ x := (none,x)
  writeSync _ x := x
  limits := .default
  arm64 := true

theorem dcEnv_storesDc : StoresDc dcEnv (· &&& dcBits) where
  value _ := rfl
  put _ _ := rfl
  read _ _ := rfl
  write _ _ _ hr := by simp [dcEnv,hr]
  clock _ := rfl
  realloc _ _ := rfl
  writeSync _ _ := rfl

def bothWays (l : DmaLevels) : List LevelCall :=
  let cxt := { deviceCxt 0 false false false with dmaConfig := l.config }
  [⟨l,⟨.read,cxt,64,0,1,0⟩,2,rfl⟩,⟨l,⟨.write,cxt,64,0,1,0⟩,2,rfl⟩]

theorem thresholds_set_iff_ones :
    (levelsMade dcEnv (bothWays ⟨1,0,1,1⟩) (World.init 0)).length = 2 ∧
    ∀ p ∈ levelsMade dcEnv (bothWays ⟨1,0,1,1⟩) (World.init 0),
      p.1.Set (· &&& dcBits) (p.1.run dcEnv p.2).2 ∧
        p.1.LeavesOther (· &&& dcBits) p.2 (p.1.run dcEnv p.2).2 := by
  refine ⟨rfl,(thresholds_set_iff dcEnv_storesDc (bothWays ⟨1,0,1,1⟩)
    (World.init 0)).mpr ?_⟩
  unfold LevelCall.Fits LevelCall.Set
  decide

/-- The levels of the examples: the panic level 4 arrives as 1. -/
theorem thresholds_set_not : ¬ ∀ (calls : List LevelCall) (w : World Word),
    ∀ p ∈ levelsMade dcEnv calls w, p.1.Set (· &&& dcBits) (p.1.run dcEnv p.2).2 ∧
      p.1.LeavesOther (· &&& dcBits) p.2 (p.1.run dcEnv p.2).2 := by
  intro h
  have hset := (h (bothWays ⟨4,4,1,1⟩) (World.init 0) _ (List.mem_cons_self ..)).1.1
  revert hset
  decide

end RpiSmi
