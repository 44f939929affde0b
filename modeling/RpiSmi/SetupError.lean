import RpiSmi.Configure
import RpiSmi.StickyFlag

/-!
# The setup error of a DMA setup

`smi_dma_setup` assigns three fields of `SMI_CS`, and one of `SMI_DCS`, before it
looks at SETERR. Its nine accesses up to the test are numbered from 0.
-/

namespace RpiSmi

open Exec BitField StickyFlag

variable {σ : Type}

structure RaisesSeterr (env : Env σ) (flag : σ → Bool) (time : σ → ℕ) (raises : ℕ → Bool) :
    Prop where
  value (s : σ) : SmiCs.seterr.test (env.readReg smioCs s).1 = (flag s || raises (time s))
  read (r : Reg) (s : σ) : flag (env.readReg r s).2 = (flag s || raises (time s))
  write (r : Reg) (v : Word) (s : σ) : flag (env.writeReg r v s) =
    ((flag s || raises (time s)) && !(decide (r = smioCs) && SmiCs.seterr.test v))
  readTime (r : Reg) (s : σ) : time (env.readReg r s).2 = time s+1
  writeTime (r : Reg) (v : Word) (s : σ) : time (env.writeReg r v s) = time s+1

section Assign

variable {env : Env σ} {flag : σ → Bool} {time : σ → ℕ} {raises : ℕ → Bool}
  (h : RaisesSeterr env flag time raises)

include h

theorem time_assign (r : Reg) (f : Field 32) (v : ℕ) (w : World σ) :
    time (w.assign env r f v).dev = time w.dev+2 := by
  have hread : time (w.read env r).dev = time w.dev+1 := h.readTime r w.dev
  exact (h.writeTime r _ _).trans (by rw [hread])

theorem flag_assign_of_ne {r : Reg} (hr : r ≠ smioCs) (f : Field 32) (v : ℕ) (w : World σ) :
    flag (w.assign env r f v).dev =
      (flag w.dev || raises (time w.dev) || raises (time w.dev+1)) := by
  have hread : flag (w.read env r).dev = (flag w.dev || raises (time w.dev)) := h.read r w.dev
  have htime : time (w.read env r).dev = time w.dev+1 := h.readTime r w.dev
  refine (h.write r _ _).trans ?_
  rw [hread,htime,decide_eq_false hr,Bool.false_and,Bool.not_false,Bool.and_true]

/-- An assignment to another field of `SMI_CS` writes 1 to SETERR where it has read 1. -/
theorem flag_assign {f : Field 32} (hf : f.Disjoint SmiCs.seterr) (v : ℕ) (w : World σ) :
    flag (w.assign env smioCs f v).dev =
      (raises (time w.dev+1) && !(flag w.dev || raises (time w.dev))) := by
  have hread : flag (w.read env smioCs).dev = (flag w.dev || raises (time w.dev)) :=
    h.read smioCs w.dev
  have htime : time (w.read env smioCs).dev = time w.dev+1 := h.readTime smioCs w.dev
  have hword : SmiCs.seterr.test (f.set v (w.value env smioCs)) =
      (flag w.dev || raises (time w.dev)) := by
    rw [Field.test_set_of_disjoint hf]
    exact h.value w.dev
  refine (h.write smioCs _ _).trans ?_
  rw [hread,htime,hword,decide_eq_true rfl,Bool.true_and]
  cases flag w.dev || raises (time w.dev) <;> simp

theorem flag_apply (fs : List (Field 32 × ℕ)) (hf : ∀ p ∈ fs, p.1.Disjoint SmiCs.seterr)
    (w : World σ) :
    flag (w.apply env (fs.map fun p => .field smioCs p.1 p.2)).dev =
        kept raises (time w.dev) (flag w.dev) fs.length ∧
      time (w.apply env (fs.map fun p => .field smioCs p.1 p.2)).dev =
        time w.dev+2*fs.length := by
  induction fs using List.reverseRecOn with
  | nil => exact ⟨rfl,rfl⟩
  | append_singleton fs p ih =>
    obtain ⟨hflag,htime⟩ := ih fun q hq => hf q (List.mem_append_left _ hq)
    have hp : p.1.Disjoint SmiCs.seterr := hf p (by simp)
    rw [List.map_append,World.apply_append,List.length_append]
    constructor
    · refine (flag_assign h hp p.2 _).trans ?_
      rw [hflag,htime]
      rfl
    · refine (time_assign h smioCs p.1 p.2 _).trans ?_
      rw [htime]
      simp only [List.length_singleton]
      omega

end Assign

def setupFields : List (Field 32 × ℕ) := [(SmiCs.clear,1),(SmiCs.pxldat,1),(SmiCs.enable,1)]

theorem dmaSetupOps_eq : dmaSetupOps = setupFields.map (fun p => .field smioCs p.1 p.2) ++
    [.field smioDcs SmiDc.dmaen 1] := rfl

theorem smiDmaSetup_messages (env : Env σ) (w : World σ) : (smiDmaSetup env w.fresh).2.messages =
    if SmiCs.seterr.test ((w.fresh.apply env dmaSetupOps).value env smioCs) = true then
      ["SMI SETERR true\n"] else [] := by
  rw [smiDmaSetup,bind_run (regOps_run env _ _)]
  rcases ht : SmiCs.seterr.test ((w.fresh.apply env dmaSetupOps).value env smioCs) <;>
    simp [bind_apply,ht]

/-- The setup reports the error. -/
def ReportsSeterr (env : Env σ) (w : World σ) : Prop :=
  "SMI SETERR true\n" ∈ (smiDmaSetup env w.fresh).2.messages

theorem reportsSeterr_iff (env : Env σ) (w : World σ) : ReportsSeterr env w ↔
    SmiCs.seterr.test ((w.fresh.apply env dmaSetupOps).value env smioCs) = true := by
  rw [ReportsSeterr,smiDmaSetup_messages]
  split_ifs with ht <;> simp [ht]

section Setup

variable {env : Env σ} {flag : σ → Bool} {time : σ → ℕ} {raises : ℕ → Bool}
  (h : RaisesSeterr env flag time raises) (w : World σ)

include h

theorem seterr_at_test : SmiCs.seterr.test ((w.apply env dmaSetupOps).value env smioCs) =
    (kept raises (time w.dev) (flag w.dev) 3 || raises (time w.dev+6) || raises (time w.dev+7) ||
      raises (time w.dev+8)) := by
  obtain ⟨hflag,htime⟩ := flag_apply h setupFields (by decide) w
  have hne : smioDcs ≠ smioCs := by decide
  rw [dmaSetupOps_eq,World.apply_append,World.apply_field,World.apply_nil,World.value,h.value,
    flag_assign_of_ne h hne,time_assign h,hflag,htime]
  rfl

/-- A setup error raised on entry or before the test is reported exactly if it, or another one, is
raised after the write that sets ENABLE, or between the read and the write of that assignment
without being there at the read. -/
theorem seterr_reported_iff :
    (flag w.dev = true ∨ (∃ i ≤ 8, raises (time w.dev+i) = true) → ReportsSeterr env w) ↔
      (flag w.dev = false ∧ ∀ i ≤ 8, raises (time w.dev+i) = false) ∨
      (∃ i, 6 ≤ i ∧ i ≤ 8 ∧ raises (time w.dev+i) = true) ∨
      raises (time w.dev+5) = true ∧ found raises (time w.dev) (flag w.dev) 2 = false := by
  have htest : ReportsSeterr env w ↔ (∃ i, 6 ≤ i ∧ i ≤ 8 ∧ raises (time w.dev+i) = true) ∨
      raises (time w.dev+5) = true ∧ found raises (time w.dev) (flag w.dev) 2 = false := by
    have hthree : (∃ i, 6 ≤ i ∧ i ≤ 8 ∧ raises (time w.dev+i) = true) ↔
        raises (time w.dev+6) = true ∨ raises (time w.dev+7) = true ∨
          raises (time w.dev+8) = true := by
      constructor
      · rintro ⟨i,h₆,h₈,hi⟩
        obtain rfl | rfl | rfl : i = 6 ∨ i = 7 ∨ i = 8 := by omega
        · exact .inl hi
        · exact .inr (.inl hi)
        · exact .inr (.inr hi)
      · rintro (hi | hi | hi)
        · exact ⟨6,by decide,by decide,hi⟩
        · exact ⟨7,by decide,by decide,hi⟩
        · exact ⟨8,by decide,by decide,hi⟩
    have hdev : w.fresh.dev = w.dev := rfl
    rw [reportsSeterr_iff,seterr_at_test h,hdev,hthree,kept_succ]
    simp only [Bool.or_eq_true,Bool.and_eq_true,Bool.not_eq_true']
    tauto
  have hraised : ¬(flag w.dev = true ∨ ∃ i ≤ 8, raises (time w.dev+i) = true) ↔
      flag w.dev = false ∧ ∀ i ≤ 8, raises (time w.dev+i) = false := by
    simp only [not_or,Bool.not_eq_true,not_exists,not_and]
  rw [imp_iff_not_or,hraised,htest]

/-- A single error is reported exactly from the write that sets ENABLE on. -/
theorem seterr_once_reported_iff {m : ℕ} (hm : ∀ i, raises (time w.dev+i) = decide (i = m))
    (hb : flag w.dev = false) (hle : m ≤ 8) : ReportsSeterr env w ↔ 5 ≤ m := by
  have hdev : w.fresh.dev = w.dev := rfl
  rw [reportsSeterr_iff,seterr_at_test h,hdev,kept_of_once hm hb,hm,hm,hm]
  simp only [Bool.or_eq_true,decide_eq_true_eq]
  omega

end Setup

def seterrEnv (raises : ℕ → Bool) : Env (Word × ℕ) :=
  let raised (x : Word × ℕ) : Word := if raises x.2 then x.1 ||| SmiCs.seterr.mask else x.1
  { readReg r x := (if r = smioCs then raised x else 0,raised x,x.2+1)
    writeReg r v x :=
      (if r = smioCs then v &&& ~~~SmiCs.seterr.mask ||| raised x &&& ~~~v &&& SmiCs.seterr.mask
        else raised x,x.2+1)
    clockGettime x := (0,x)
    realloc _ x := (none,x)
    writeSync _ x := x
    limits := .default
    arm64 := true }

theorem seterrEnv_raises (raises : ℕ → Bool) : RaisesSeterr (seterrEnv raises)
    (fun x => SmiCs.seterr.test x.1) Prod.snd raises := by
  have hbit (x : Word) : SmiCs.seterr.test x = x.getLsbD 13 := Field.test_eq_getLsbD rfl x
  have hmask : SmiCs.seterr.mask[13] = true := by decide
  have hraised (x : Word × ℕ) :
      (if raises x.2 then x.1 ||| SmiCs.seterr.mask else x.1).getLsbD 13 =
        (x.1.getLsbD 13 || raises x.2) := by
    cases hr : raises x.2 <;> simp [hmask]
  refine ⟨fun x => ?_,fun r x => ?_,fun r v x => ?_,fun _ _ => rfl,fun _ _ _ => rfl⟩
  · rw [hbit,hbit]
    exact hraised x
  · rw [hbit,hbit]
    exact hraised x
  · rw [hbit,hbit,hbit,← hraised x]
    by_cases hr : r = smioCs
    · simp [seterrEnv,hr,hmask]
    · simp [seterrEnv,hr]

/-- One error, between the write that sets ENABLE and the test. -/
theorem seterr_reported_iff_enabled :
    ReportsSeterr (seterrEnv fun i => decide (i = 6)) (World.init (0,0)) :=
  (seterr_reported_iff (seterrEnv_raises _) (World.init (0,0))).mpr
    (.inr (.inl ⟨6,by decide,by decide,rfl⟩)) (.inr ⟨6,by decide,rfl⟩)

/-- An error that is there on entry is gone before the test. -/
theorem seterr_erased : SmiCs.seterr.test (World.init ((0x2000 : Word),0)).dev.1 = true ∧
    ¬ ReportsSeterr (seterrEnv fun _ => false) (World.init (0x2000,0)) := by
  unfold ReportsSeterr
  decide

end RpiSmi
