import Mathlib.Data.List.Destutter
import RpiSmi.Machine

/-!
# The clock of the interface

`init_smi_clk` compares the divider with the one asked for and, when they
differ, stops the clock generator, waits for BUSY to fall, sets the divider, starts
the generator and waits for BUSY to rise. The data sheet forbids a change of the
setup while BUSY is set, and writes without the password do nothing.
-/

namespace RpiSmi

open Exec

inductive ClkReg
  | ctl | div
  deriving DecidableEq, Repr

def clkPasswd : Word := 0x5a000000

/-- The clock block, with a state that the environment chooses. -/
structure ClkEnv (σ : Type) where
  readReg : ClkReg → σ → Word × σ
  writeReg : ClkReg → Word → σ → σ

inductive ClkEvent
  | read (r : ClkReg) (v : Word)
  | write (r : ClkReg) (v : Word)
  deriving DecidableEq, Repr

structure ClkWorld (σ : Type) where
  dev : σ
  log : List ClkEvent

variable {σ : Type}

def ClkWorld.value (env : ClkEnv σ) (r : ClkReg) (w : ClkWorld σ) : Word :=
  (env.readReg r w.dev).1

def ClkWorld.read (env : ClkEnv σ) (r : ClkReg) (w : ClkWorld σ) : ClkWorld σ :=
  ⟨(env.readReg r w.dev).2,w.log ++ [.read r (w.value env r)]⟩

def ClkWorld.write (env : ClkEnv σ) (r : ClkReg) (v : Word) (w : ClkWorld σ) : ClkWorld σ :=
  ⟨env.writeReg r v w.dev,w.log ++ [.write r v]⟩

def clkRead (env : ClkEnv σ) (r : ClkReg) : Prog (ClkWorld σ) Word :=
  fun w => (some (w.value env r),w.read env r)

def clkWrite (env : ClkEnv σ) (r : ClkReg) (v : Word) : Prog (ClkWorld σ) Unit :=
  fun w => (some (),w.write env r v)

/-- `v & (1 << 7)`. -/
def clkBusy (v : Word) : Bool := v &&& (1 : Word) <<< 7 != 0

/-- The loop that waits for BUSY to be as given. -/
def clkWait (env : ClkEnv σ) (fuel : ℕ) (busy : Bool) : Prog (ClkWorld σ) Unit :=
  loop (fun _ : Unit => do
    let ctl ← clkRead env .ctl
    pure (if clkBusy ctl = busy then .inr () else .inl ())) fuel ()

def clkDivider (ns : ℤ) : Word :=
  let divi := ns.tdiv 2
  BitVec.ofInt 32 (divi*2^12)

def initSmiClk (env : ClkEnv σ) (fuel : ℕ) (ns : ℤ) : Prog (ClkWorld σ) Unit := do
  let div ← clkRead env .div
  if div ≠ clkDivider ns then do
    clkWrite env .ctl (clkPasswd ||| (1 : Word) <<< 5)
    clkWait env fuel false
    clkWrite env .div (clkPasswd ||| clkDivider ns)
    clkWrite env .ctl (clkPasswd ||| 6 ||| (1 : Word) <<< 4)
    clkWait env fuel true
  else pure ()

def initSmiClks (env : ClkEnv σ) (fuel : ℕ) : List ℤ → Prog (ClkWorld σ) Unit
  | [] => pure ()
  | ns::l => do
    initSmiClk env fuel ns
    initSmiClks env fuel l

theorem clkBusy_eq (v : Word) : clkBusy v = v.getLsbD 7 := by
  have hone : (1 : Word) <<< 7 = BitVec.twoPow 32 7 := by decide
  rw [clkBusy,hone,BitVec.and_twoPow]
  cases v.getLsbD 7 <;> rfl

/-- What an event tells about the generator: a poll shows BUSY, a write to CTL makes it unknown. -/
def ClkEvent.stopped (known : Bool) : ClkEvent → Bool
  | .read .ctl v => !clkBusy v
  | .write .ctl _ => false
  | _ => known

/-- The divider is written, or the generator is started. -/
def ClkEvent.SetsUp : ClkEvent → Prop
  | .write .div _ => True
  | .write .ctl v => v.getLsbD 4 = true
  | _ => False

/-- The setup is changed only where the generator is known to have stopped. -/
def Careful : Bool → List ClkEvent → Prop
  | _, [] => True
  | known, e::l => (e.SetsUp → known = true) ∧ Careful (e.stopped known) l

def stoppedAfter (known : Bool) (l : List ClkEvent) : Bool := l.foldl ClkEvent.stopped known

theorem careful_append (known : Bool) (l l' : List ClkEvent) :
    Careful known (l ++ l') ↔ Careful known l ∧ Careful (stoppedAfter known l) l' := by
  induction l generalizing known with
  | nil => simp [Careful,stoppedAfter]
  | cons e l ih =>
    rw [List.cons_append,Careful,Careful,ih,and_assoc]
    rfl

theorem stoppedAfter_concat (known : Bool) (l : List ClkEvent) (e : ClkEvent) :
    stoppedAfter known (l ++ [e]) = e.stopped (stoppedAfter known l) := by
  simp [stoppedAfter]

section AnyBlock

variable (env : ClkEnv σ)

/-- The log so far changes the setup with care, and ends in what `known` says. -/
def CarefulTo (known : Bool) (w : ClkWorld σ) : Prop :=
  Careful false w.log ∧ (known = true → stoppedAfter false w.log = true)

theorem CarefulTo.forget {known : Bool} {w : ClkWorld σ} (h : CarefulTo known w) :
    CarefulTo false w := ⟨h.1,fun hk => by cases hk⟩

theorem post_clkRead {known : Bool} {w : ClkWorld σ} (h : CarefulTo known w) (r : ClkReg) :
    Post (clkRead env r) w (fun v w' => CarefulTo ((ClkEvent.read r v).stopped known) w')
      (CarefulTo false) := by
  refine post_of_run rfl ⟨?_,?_⟩
  · rw [ClkWorld.read,careful_append]
    exact ⟨h.1,fun hs => hs.elim,trivial⟩
  · rw [ClkWorld.read,stoppedAfter_concat]
    cases r with
    | ctl => exact id
    | div => exact h.2

theorem post_clkWrite {known : Bool} {w : ClkWorld σ} (h : CarefulTo known w) (r : ClkReg)
    (v : Word) (hs : (ClkEvent.write r v).SetsUp → known = true) :
    Post (clkWrite env r v) w (fun _ w' => CarefulTo ((ClkEvent.write r v).stopped known) w')
      (CarefulTo false) := by
  refine post_of_run rfl ⟨?_,?_⟩
  · rw [ClkWorld.write,careful_append]
    exact ⟨h.1,fun hset => h.2 (hs hset),trivial⟩
  · rw [ClkWorld.write,stoppedAfter_concat]
    cases r with
    | ctl => exact id
    | div => exact h.2

theorem post_clkWait {w : ClkWorld σ} (h : CarefulTo false w) (fuel : ℕ) (busy : Bool) :
    Post (clkWait env fuel busy) w (fun _ w' => CarefulTo (!busy) w') (CarefulTo false) := by
  refine post_loop (fun _ => CarefulTo false) (fun _ _ hi => hi) ?_ fuel () w h
  intro _ w hi
  refine post_bind ((post_clkRead env hi .ctl).mono ?_ fun _ he => he)
  intro v w' hv
  refine post_of_run rfl ?_
  split
  · rename_i hb
    simpa [ClkEvent.stopped,hb] using hv
  · exact hv.forget

theorem post_initSmiClk {w : ClkWorld σ} (h : CarefulTo false w) (fuel : ℕ) (ns : ℤ) :
    Post (initSmiClk env fuel ns) w (fun _ => CarefulTo false) (CarefulTo false) := by
  refine post_bind ((post_clkRead env h .div).mono ?_ fun _ he => he)
  intro div w₁ h₁
  refine post_ite (fun _ => ?_) fun _ => post_of_run rfl h₁
  refine post_bind ((post_clkWrite env h₁ .ctl _ (fun hs => ?_)).mono ?_ fun _ he => he)
  · cases show false = true from hs
  intro _ w₂ h₂
  refine post_bind ((post_clkWait env h₂ fuel false).mono ?_ fun _ he => he)
  intro _ w₃ h₃
  refine post_bind ((post_clkWrite env h₃ .div _ fun _ => rfl).mono ?_ fun _ he => he)
  intro _ w₄ h₄
  refine post_bind ((post_clkWrite env h₄ .ctl _ fun _ => rfl).mono ?_ fun _ he => he)
  intro _ w₅ h₅
  exact (post_clkWait env h₅ fuel true).mono (fun _ _ hq => hq) fun _ he => he

theorem post_initSmiClks {w : ClkWorld σ} (h : CarefulTo false w) (fuel : ℕ) (l : List ℤ) :
    Post (initSmiClks env fuel l) w (fun _ => CarefulTo false) (CarefulTo false) := by
  induction l generalizing w with
  | nil => exact post_of_run rfl h
  | cons ns l ih =>
    refine post_bind ((post_initSmiClk env h fuel ns).mono ?_ fun _ he => he)
    intro _ w' h'
    exact ih h'

/-- On any block and in any run of calls, ended or not, the divider is written and the generator
started only after a poll that found it stopped, with no write to CTL in between. -/
theorem initSmiClks_careful (s : σ) (fuel : ℕ) (l : List ℤ) :
    Careful false (initSmiClks env fuel l ⟨s,[]⟩).2.log :=
  (post_iff_state.mp (post_initSmiClks env (w := ⟨s,[]⟩) ⟨trivial,fun h => by cases h⟩ fuel l)).1

end AnyBlock

/-- A write that carries the password. -/
def keyed (v : Word) : Bool := v >>> 24 == 0x5a

/-- What was accepted into the registers, and BUSY, which follows ENAB after a number of accesses
that the generator chooses. -/
structure ClkGen where
  ctl : BitVec 24
  divider : BitVec 24
  busy : Bool
  /-- Accesses before BUSY is what ENAB asks for. -/
  lag : ℕ
  /-- Accepted writes to CTL. -/
  accepted : ℕ
  /-- The divider was written while BUSY was set. -/
  disturbed : Bool
  deriving DecidableEq, Repr

namespace ClkGen

def enabled (g : ClkGen) : Bool := g.ctl.getLsbD 4

def Running (g : ClkGen) : Prop := g.enabled = true ∧ g.busy = true

instance (g : ClkGen) : Decidable g.Running := inferInstanceAs (Decidable (_ ∧ _))

/-- BUSY moves on by one access. -/
def pass (g : ClkGen) : ClkGen :=
  if g.lag = 0 then { g with busy := g.enabled } else { g with lag := g.lag-1 }

def ctlValue (g : ClkGen) : Word :=
  g.ctl.setWidth 32 &&& ~~~((1 : Word) <<< 7) ||| (BitVec.ofBool g.busy).setWidth 32 <<< 7

def accept (delay : ℕ → ℕ) (r : ClkReg) (v : Word) (g : ClkGen) : ClkGen :=
  match r with
  | .ctl => { g with ctl := v.setWidth 24, lag := delay g.accepted, accepted := g.accepted+1 }
  | .div => { g with divider := v.setWidth 24, disturbed := g.disturbed || g.busy }

end ClkGen

/-- `delay k` accesses pass before BUSY follows the `k`-th write to CTL. -/
def clkGenEnv (delay : ℕ → ℕ) : ClkEnv ClkGen where
  readReg r g := (match r with
    | .ctl => g.pass.ctlValue
    | .div => g.pass.divider.setWidth 32,g.pass)
  writeReg r v g := if keyed v then g.pass.accept delay r v else g.pass

/-- The divider that a period asks for, in the bits there are. -/
def clkWanted (ns : ℤ) : BitVec 24 := (clkDivider ns).setWidth 24

def ClkEvent.divider? : ClkEvent → Option (BitVec 24)
  | .write .div v => some (v.setWidth 24)
  | _ => none

def ClkWorld.dividers (w : ClkWorld σ) : List (BitVec 24) := w.log.filterMap ClkEvent.divider?

@[simp] theorem dividers_read (env : ClkEnv σ) (r : ClkReg) (w : ClkWorld σ) :
    (w.read env r).dividers = w.dividers := by
  simp [ClkWorld.dividers,ClkWorld.read,ClkEvent.divider?]
@[simp] theorem dividers_write_ctl (env : ClkEnv σ) (v : Word) (w : ClkWorld σ) :
    (w.write env .ctl v).dividers = w.dividers := by
  simp [ClkWorld.dividers,ClkWorld.write,ClkEvent.divider?]
@[simp] theorem dividers_write_div (env : ClkEnv σ) (v : Word) (w : ClkWorld σ) :
    (w.write env .div v).dividers = w.dividers ++ [v.setWidth 24] := by
  simp [ClkWorld.dividers,ClkWorld.write,ClkEvent.divider?]

section Values

variable {ns : ℤ}

theorem clkDivider_toNat (h : 0 ≤ ns) (hlt : ns < 2^20) :
    (clkDivider ns).toNat = ns.toNat/2*4096 := by
  obtain ⟨n,rfl⟩ := Int.eq_ofNat_of_zero_le h
  have hdiv : (n : ℤ).tdiv 2 = (n/2 : ℕ) := rfl
  have hword : clkDivider n = BitVec.ofNat 32 (n/2*4096) := by
    have hmul : ((n/2 : ℕ) : ℤ)*2^12 = (n/2*4096 : ℕ) := by rw [Int.natCast_mul]; rfl
    rw [clkDivider,hdiv,hmul,BitVec.ofInt_natCast]
  rw [Int.toNat_natCast,hword,BitVec.toNat_ofNat]
  exact Nat.mod_eq_of_lt (by omega)

theorem lt_of_setWidth_eq (h : 0 ≤ ns) (hlt : ns < 2^20) {d : BitVec 24}
    (hd : d.setWidth 32 = clkDivider ns) : ns < 8192 := by
  have hnat := congrArg BitVec.toNat hd
  have := d.isLt
  rw [BitVec.toNat_setWidth,clkDivider_toNat h hlt] at hnat
  omega

theorem setWidth_eq_iff (h : 0 ≤ ns) (hlt : ns < 8192) {d : BitVec 24} :
    d.setWidth 32 = clkDivider ns ↔ d = clkWanted ns := by
  have hnat := clkDivider_toNat h (by omega)
  have hlow := d.isLt
  rw [← BitVec.toNat_inj,← BitVec.toNat_inj,clkWanted,BitVec.toNat_setWidth,
    BitVec.toNat_setWidth,hnat]
  omega

theorem keyed_divider (h : 0 ≤ ns) (hlt : ns < 8192) :
    keyed (clkPasswd ||| clkDivider ns) = true := by
  have hnat := clkDivider_toNat h (by omega)
  have hhigh : clkDivider ns >>> 24 = 0 := by
    apply BitVec.eq_of_toNat_eq
    rw [BitVec.toNat_ushiftRight,Nat.shiftRight_eq_div_pow,hnat]
    exact Nat.div_eq_of_lt (by omega)
  rw [keyed,BitVec.ushiftRight_or_distrib,hhigh]
  decide

theorem setWidth_passwd (v : Word) : (clkPasswd ||| v).setWidth 24 = v.setWidth 24 := by
  have hlow : clkPasswd.setWidth 24 = 0 := by decide
  rw [BitVec.setWidth_or,hlow]
  exact BitVec.zero_or

end Values

section Generator

variable {delay : ℕ → ℕ}

@[simp] theorem ctl_pass (g : ClkGen) : g.pass.ctl = g.ctl := by
  unfold ClkGen.pass
  split <;> rfl
@[simp] theorem divider_pass (g : ClkGen) : g.pass.divider = g.divider := by
  unfold ClkGen.pass
  split <;> rfl
@[simp] theorem disturbed_pass (g : ClkGen) : g.pass.disturbed = g.disturbed := by
  unfold ClkGen.pass
  split <;> rfl
@[simp] theorem enabled_pass (g : ClkGen) : g.pass.enabled = g.enabled := by
  simp [ClkGen.enabled]

theorem busy_pass {g : ClkGen} (h : g.busy = g.enabled) : g.pass.busy = g.enabled := by
  unfold ClkGen.pass
  split
  · rfl
  · exact h

theorem clkBusy_ctlValue (g : ClkGen) : clkBusy g.ctlValue = g.busy := by
  rw [clkBusy_eq,ClkGen.ctlValue]
  cases g.busy <;> simp

@[simp] theorem dev_read_clk (r : ClkReg) (w : ClkWorld ClkGen) :
    (w.read (clkGenEnv delay) r).dev = w.dev.pass := rfl

structure Waited (w w' : ClkWorld ClkGen) : Prop where
  ctl : w'.dev.ctl = w.dev.ctl
  divider : w'.dev.divider = w.dev.divider
  disturbed : w'.dev.disturbed = w.dev.disturbed
  dividers : w'.dividers = w.dividers

theorem Waited.read {w v : ClkWorld ClkGen} (h : Waited w v) (r : ClkReg) :
    Waited w (v.read (clkGenEnv delay) r) where
  ctl := by simpa using h.ctl
  divider := by simpa using h.divider
  disturbed := by simpa using h.disturbed
  dividers := by simpa using h.dividers

/-- A wait ends with BUSY as ENAB asks, however long the generator takes. -/
theorem clkWait_ends (delay : ℕ → ℕ) (w : ClkWorld ClkGen) : ∃ w',
    Ends (fun fuel => clkWait (clkGenEnv delay) fuel w.dev.enabled) w () w' ∧
      Waited w w' ∧ w'.dev.busy = w.dev.enabled := by
  have hround : ∀ (_ : Unit) v, Waited w v → ∃ x v', Ends (fun _ : ℕ => do
      let ctl ← clkRead (clkGenEnv delay) .ctl
      pure (if clkBusy ctl = w.dev.enabled then .inr () else .inl ())) v x v' ∧
      Sum.elim (fun _ : Unit => Waited w v' ∧ v'.dev.lag < v.dev.lag)
        (fun _ : Unit => Waited w v' ∧ v'.dev.busy = w.dev.enabled) x := by
    intro _ v hv
    have hen : v.dev.enabled = w.dev.enabled := by rw [ClkGen.enabled,hv.ctl,ClkGen.enabled]
    refine ⟨_,_,ends_of_run rfl,?_⟩
    show Sum.elim _ _ (if clkBusy v.dev.pass.ctlValue = w.dev.enabled then .inr () else .inl ())
    rw [clkBusy_ctlValue]
    split
    · exact ⟨hv.read .ctl,‹_›⟩
    · rename_i hb
      refine ⟨hv.read .ctl,?_⟩
      have hlag : v.dev.lag ≠ 0 := by
        intro hlag
        rw [ClkGen.pass,if_pos hlag] at hb
        exact hb hen
      show v.dev.pass.lag < v.dev.lag
      rw [ClkGen.pass,if_neg hlag]
      exact Nat.sub_one_lt hlag
  obtain ⟨_,w',he,hw',hbusy⟩ := loopEnds_of_measure Nat.lt_wfRel.wf (fun _ v => v.dev.lag)
    (fun _ => Waited w) (fun _ v => Waited w v ∧ v.dev.busy = w.dev.enabled) hround () w
    ⟨rfl,rfl,rfl,rfl⟩
  exact ⟨w',he.ends,hw',hbusy⟩

/-- A write of the driver carries the password, apart from a divider that runs into it. -/
theorem dev_write_clk {r : ClkReg} {v : Word} (h : keyed v) (w : ClkWorld ClkGen) :
    (w.write (clkGenEnv delay) r v).dev = w.dev.pass.accept delay r v := by
  simp [ClkWorld.write,clkGenEnv,h]

theorem enabled_write_ctl {v : Word} (h : keyed v) (w : ClkWorld ClkGen) :
    (w.write (clkGenEnv delay) .ctl v).dev.enabled = v.getLsbD 4 := by
  rw [dev_write_clk h,ClkGen.enabled,ClkGen.accept,BitVec.getLsbD_setWidth]
  rfl

theorem divider_write_ctl (v : Word) (w : ClkWorld ClkGen) :
    (w.write (clkGenEnv delay) .ctl v).dev.divider = w.dev.divider := by
  simp only [ClkWorld.write,clkGenEnv]
  split <;> simp [ClkGen.accept]

theorem disturbed_write_ctl (v : Word) (w : ClkWorld ClkGen) :
    (w.write (clkGenEnv delay) .ctl v).dev.disturbed = w.dev.disturbed := by
  simp only [ClkWorld.write,clkGenEnv]
  split <;> simp [ClkGen.accept]

theorem divider_write_div (v : Word) (w : ClkWorld ClkGen) :
    (w.write (clkGenEnv delay) .div v).dev.divider =
      if keyed v then v.setWidth 24 else w.dev.divider := by
  simp only [ClkWorld.write,clkGenEnv]
  split <;> simp [ClkGen.accept]

theorem disturbed_write_div {w : ClkWorld ClkGen} (he : w.dev.enabled = false)
    (hb : w.dev.busy = false) (v : Word) :
    (w.write (clkGenEnv delay) .div v).dev.disturbed = w.dev.disturbed := by
  have hpass : w.dev.pass.busy = false := (busy_pass (hb.trans he.symm)).trans he
  simp only [ClkWorld.write,clkGenEnv]
  split <;> simp [ClkGen.accept,hpass]

/-- What a call leaves: a divider that was there already is left alone, and any other is written
while the generator stands still, which then runs. -/
structure Called (ns : ℤ) (w w' : ClkWorld ClkGen) : Prop where
  undisturbed : w'.dev.disturbed = w.dev.disturbed
  same : w.dev.divider.setWidth 32 = clkDivider ns →
    w'.dev = w.dev.pass ∧ w'.dividers = w.dividers
  changed : w.dev.divider.setWidth 32 ≠ clkDivider ns →
    w'.dev.divider = (if keyed (clkPasswd ||| clkDivider ns) then clkWanted ns
      else w.dev.divider) ∧
    w'.dividers = w.dividers ++ [clkWanted ns] ∧ w'.dev.Running

theorem initSmiClk_ends (delay : ℕ → ℕ) (ns : ℤ) (w : ClkWorld ClkGen) :
    ∃ w', Ends (fun fuel => initSmiClk (clkGenEnv delay) fuel ns) w () w' ∧ Called ns w w' := by
  let e := clkGenEnv delay
  have hread : w.value e .div = w.dev.divider.setWidth 32 :=
    congrArg (BitVec.setWidth 32) (divider_pass w.dev)
  by_cases hsame : w.dev.divider.setWidth 32 = clkDivider ns
  · refine ⟨w.read e .div,?_,disturbed_pass _,fun _ => ⟨rfl,dividers_read e .div w⟩,
      fun h => absurd hsame h⟩
    refine ends_bind (ends_of_run rfl) ?_
    simp only [e,if_neg (not_not.mpr (hread.trans hsame))]
    exact ends_of_run rfl
  · let w₂ := (w.read e .div).write e .ctl (clkPasswd ||| (1 : Word) <<< 5)
    have hen₂ : w₂.dev.enabled = false := enabled_write_ctl (by decide) _
    obtain ⟨w₃,he₃,hw₃,hb₃⟩ := clkWait_ends delay w₂
    rw [hen₂] at he₃ hb₃
    have hen₃ : w₃.dev.enabled = false := by rw [ClkGen.enabled,hw₃.ctl,← ClkGen.enabled,hen₂]
    have hdiv₃ : w₃.dev.divider = w.dev.divider :=
      hw₃.divider.trans ((divider_write_ctl _ _).trans (divider_pass _))
    have hdis₃ : w₃.dev.disturbed = w.dev.disturbed :=
      hw₃.disturbed.trans ((disturbed_write_ctl _ _).trans (disturbed_pass _))
    let w₅ := (w₃.write e .div (clkPasswd ||| clkDivider ns)).write e .ctl
      (clkPasswd ||| 6 ||| (1 : Word) <<< 4)
    have hen₅ : w₅.dev.enabled = true := enabled_write_ctl (by decide) _
    obtain ⟨w₆,he₆,hw₆,hb₆⟩ := clkWait_ends delay w₅
    rw [hen₅] at he₆ hb₆
    refine ⟨w₆,?_,?_,fun h => absurd h hsame,fun _ => ⟨?_,?_,?_,hb₆⟩⟩
    · refine ends_bind (ends_of_run rfl) ?_
      simp only [e,if_pos fun h => hsame (hread.symm.trans h)]
      refine ends_bind (ends_of_run rfl) (ends_bind he₃ ?_)
      exact ends_bind (ends_of_run rfl) (ends_bind (ends_of_run rfl) he₆)
    · rw [hw₆.disturbed,disturbed_write_ctl,disturbed_write_div hen₃ hb₃,hdis₃]
    · rw [hw₆.divider,divider_write_ctl,divider_write_div,setWidth_passwd,hdiv₃]
      rfl
    · rw [hw₆.dividers]
      simp only [w₅,dividers_write_ctl,dividers_write_div,hw₃.dividers,w₂,dividers_read,
        setWidth_passwd]
      rfl
    · rw [ClkGen.enabled,hw₆.ctl,← ClkGen.enabled,hen₅]

/-- For every period that the shift is defined for, whatever the generator was doing: the call ends,
and the divider is then the one asked for if and only if it fits the twelve bits of its field. -/
theorem initSmiClk_sets_iff {ns : ℤ} (h : 0 ≤ ns) (hlt : ns < 2^20) (w : ClkWorld ClkGen) :
    ∃ w', Ends (fun fuel => initSmiClk (clkGenEnv delay) fuel ns) w () w' ∧
      (w'.dev.divider.setWidth 32 = clkDivider ns ↔ ns < 8192) := by
  obtain ⟨w',he,hcalled⟩ := initSmiClk_ends delay ns w
  refine ⟨w',he,lt_of_setWidth_eq h hlt,fun hfit => ?_⟩
  by_cases hsame : w.dev.divider.setWidth 32 = clkDivider ns
  · rw [(hcalled.same hsame).1,divider_pass]
    exact hsame
  · rw [(hcalled.changed hsame).1,if_pos (keyed_divider h hfit)]
    exact (setWidth_eq_iff h hfit).mpr rfl

/-- The shortest divider that does not fit. -/
theorem initSmiClk_sets_iff_wide : ∃ w', Ends (fun fuel =>
      initSmiClk (clkGenEnv fun _ => 3) fuel 8192) ⟨⟨0,0,true,0,0,false⟩,[]⟩ () w' ∧
    (w'.dev.divider.setWidth 32 = clkDivider 8192 ↔ (8192 : ℤ) < 8192) :=
  initSmiClk_sets_iff (by decide) (by decide) _

theorem destutter'_eq_cons {α : Type} [DecidableEq α] (a : α) (l : List α) :
    l.destutter' (· ≠ ·) a = a::(l.destutter' (· ≠ ·) a).tail := by
  induction l generalizing a with
  | nil => rfl
  | cons b l ih =>
    by_cases h : a ≠ b
    · rw [List.destutter'_cons_pos _ h]
      rfl
    · rw [List.destutter'_cons_neg _ h]
      exact ih a

theorem Running.pass {g : ClkGen} (h : g.Running) : g.pass.Running :=
  ⟨by simpa using h.1,(busy_pass (h.2.trans h.1.symm)).trans h.1⟩

/-- A run of calls with periods that fit, on any generator in any state: every call ends, the last
period decides the divider, each divider is written once for a row of equal ones, and never while
the generator runs. If the divider ever changed, the clock runs in the end; if not, a clock that
stood still is left so. -/
theorem initSmiClks_run {l : List ℤ} (h : ∀ ns ∈ l, 0 ≤ ns ∧ ns < 8192) (w : ClkWorld ClkGen) :
    ∃ w', Ends (fun fuel => initSmiClks (clkGenEnv delay) fuel l) w () w' ∧
      w'.dev.divider = (l.map clkWanted).getLastD w.dev.divider ∧
      w'.dividers = w.dividers ++
        ((l.map clkWanted).destutter' (· ≠ ·) w.dev.divider).tail ∧
      w'.dev.disturbed = w.dev.disturbed ∧
      ((w.dev.Running ∨ ∃ ns ∈ l, clkWanted ns ≠ w.dev.divider) → w'.dev.Running) ∧
      ((∀ ns ∈ l, clkWanted ns = w.dev.divider) → w'.dev.enabled = w.dev.enabled) := by
  induction l generalizing w with
  | nil => exact ⟨w,ends_of_run rfl,rfl,by simp,rfl,fun hr => by simpa using hr,fun _ => rfl⟩
  | cons ns l ih =>
    obtain ⟨hpos,hfit⟩ := h ns (List.mem_cons_self ..)
    obtain ⟨v,he,hcalled⟩ := initSmiClk_ends delay ns w
    obtain ⟨w',he',hdiv,hwrites,hdis,hrun,hstill⟩ :=
      ih (fun n hn => h n (List.mem_cons_of_mem _ hn)) v
    refine ⟨w',ends_bind he he',?_⟩
    by_cases hsame : w.dev.divider = clkWanted ns
    · obtain ⟨hdev,hlog⟩ := hcalled.same ((setWidth_eq_iff hpos hfit).mpr hsame)
      have hkept : v.dev.divider = w.dev.divider := by rw [hdev,divider_pass]
      rw [hkept] at hdiv hwrites hrun hstill
      refine ⟨?_,?_,hdis.trans hcalled.undisturbed,?_,?_⟩
      · rw [hdiv,List.map_cons,List.getLastD_cons,← hsame]
      · rw [hwrites,hlog,List.map_cons,List.destutter'_cons_neg _ (not_not.mpr hsame)]
      · rintro (hw | ⟨n,hn,hne⟩)
        · exact hrun (.inl (hdev ▸ Running.pass hw))
        · rcases List.mem_cons.mp hn with rfl | hn
          · exact absurd hsame.symm hne
          · exact hrun (.inr ⟨n,hn,hne⟩)
      · intro hall
        rw [hstill fun n hn => hall n (List.mem_cons_of_mem _ hn),hdev,enabled_pass]
    · obtain ⟨hset,hlog,hgo⟩ := hcalled.changed (mt (setWidth_eq_iff hpos hfit).mp hsame)
      rw [if_pos (keyed_divider hpos hfit)] at hset
      rw [hset] at hdiv hwrites
      refine ⟨?_,?_,hdis.trans hcalled.undisturbed,fun _ => hrun (.inl hgo),fun hall => ?_⟩
      · rw [hdiv,List.map_cons,List.getLastD_cons]
      · rw [hwrites,hlog,List.map_cons,List.destutter'_cons_pos _ hsame,List.tail_cons,
          destutter'_eq_cons (clkWanted ns),List.append_assoc]
        rfl
      · exact absurd (hall ns (List.mem_cons_self ..)).symm hsame

/-- Three calls, of which the second asks for what it finds. -/
theorem initSmiClks_run_repeated : ∃ w', Ends (fun fuel =>
      initSmiClks (clkGenEnv fun k => k+2) fuel [2,2,30]) ⟨⟨0,0,false,0,0,false⟩,[]⟩ () w' ∧
    w'.dev.divider = 0xf000 ∧ w'.dividers = [0x1000,0xf000] ∧ w'.dev.Running := by
  have hfit : ∀ ns ∈ ([2,2,30] : List ℤ), 0 ≤ ns ∧ ns < 8192 := by decide
  obtain ⟨w',he,hdiv,hwrites,-,hrun,-⟩ := initSmiClks_run hfit ⟨⟨0,0,false,0,0,false⟩,[]⟩
  refine ⟨w',he,hdiv.trans (by decide),hwrites.trans (by decide),hrun (.inr ⟨2,?_,?_⟩)⟩ <;> decide

end Generator
end RpiSmi
