import RpiSmi.DmaWait

/-!
# The start of a DMA transfer

A DMA call is a setup, `start_dma` and a wait, which begins in the world
`waiting` whether or not `start_dma` refused the transfer.
-/

namespace RpiSmi

open Exec BitField

variable {σ : Type}

inductive DmaDir
  | read | write
  deriving DecidableEq, Repr

/-- The arguments of `smi_programmed_read_dma` or `smi_programmed_write_dma`. -/
structure DmaCall where
  dir : DmaDir
  cxt : SmiCxt
  cb : BitVec 64
  addr : BitVec 8
  len : ℤ
  channel : ℤ

namespace DmaCall

variable (env : Env σ) (d : DmaCall) (w : World σ)

def run (fuel : ℕ) : Drv σ ℤ :=
  match d.dir with
  | .read => smiProgrammedReadDma env fuel (some d.cxt) d.cb d.addr d.len d.channel
  | .write => smiProgrammedWriteDma env fuel (some d.cxt) d.cb d.addr d.len d.channel

def HasNull : Prop := d.cxt.HasNull d.cb

instance : Decidable d.HasNull := inferInstanceAs (Decidable (_ ∨ _))

def smiRegs : MemMap := d.cxt.smiRegs.getD ⟨0,0⟩

/-- The channel as `start_dma` gets it. -/
def channel8 : ℕ := (BitVec.ofInt 8 d.channel).toNat

/-- The world in which the call calls `start_dma`. -/
def begun : World σ :=
  match d.dir with
  | .read => w.beginReadDma env d.cxt d.smiRegs d.addr d.len
  | .write => w.beginWriteDma env d.cxt d.smiRegs d.addr d.len

/-- The control block that the call makes of one that the caller has filled in. -/
def block (c : DmaCb) : DmaCb :=
  match d.dir with
  | .read => readCb d.smiRegs (wordReads d.cxt d.len) c
  | .write => writeCb d.smiRegs d.len c

def sized : World σ :=
  match d.dir with
  | .read => ratioWorld d.cxt w
  | .write => w

def setup : List RegOp :=
  match d.dir with
  | .read => programmedReadDmaSetup d.cxt d.addr d.len
  | .write => programmedWriteDmaSetup d.cxt d.addr d.len ++ smiStart

def rest : List RegOp :=
  match d.dir with
  | .read => smiStart
  | .write => []

def synced : World σ := (d.begun env w).cpuSynced env d.cxt.fdSyncCpu

/-- ACTIVE of channel `n` as `start_dma` would find it. -/
def Active (n : ℕ) : Prop :=
  DmaCs.active.test ((d.synced env w).value env (dmaCsOffset n)) = true

instance (n : ℕ) : Decidable (d.Active env w n) := inferInstanceAs (Decidable (_ = _))

/-- What `start_dma` refuses, given the channel as a byte. -/
def Refused : Prop :=
  cbAddress d.cxt d.cb = 0 ∨ 14 < d.channel8 ∨ d.Active env w d.channel8

instance : Decidable (d.Refused env w) := inferInstanceAs (Decidable (_ ∨ _ ∨ _))

def start : Drv σ ℤ :=
  startDma env (cbAddress d.cxt d.cb) (BitVec.ofInt 8 d.channel) d.cxt.fdSyncCpu

/-- The world in which the wait begins. -/
def waiting : World σ := (d.start env (d.begun env w)).2.apply env d.rest

variable {env d w}

theorem run_null (h : d.HasNull) (fuel : ℕ) : d.run env fuel w = (some (-1),w) := by
  obtain ⟨dir,cxt,cb,addr,len,channel⟩ := d
  cases dir with
  | read => exact smiProgrammedReadDma_null h fuel addr len channel w
  | write => exact smiProgrammedWriteDma_null h fuel addr len channel w

theorem run_eq (h : ¬ d.HasNull) (fuel : ℕ) :
    d.run env fuel w = smiDmaAwait env fuel (d.waiting env w) := by
  obtain ⟨hcb,hnone⟩ := not_or.mp h
  obtain ⟨smiRegs,hr⟩ := Option.ne_none_iff_exists'.mp hnone
  have hregs : d.smiRegs = smiRegs := by simp [DmaCall.smiRegs,hr]
  obtain ⟨code,v,hd⟩ : ∃ code v, d.start env (d.begun env w) = (some code,v) :=
    startDma_returns _ _ _ _ _
  have hwait : d.waiting env w = v.apply env d.rest := by rw [waiting,hd]
  obtain ⟨dir,cxt,cb,addr,len,channel⟩ := d
  rw [hwait]
  cases dir with
  | read =>
    simp only [begun,hregs] at hd
    exact (smiProgrammedReadDma_run hcb hr fuel addr len channel w).trans (bind_run hd _)
  | write =>
    simp only [begun,hregs] at hd
    exact (smiProgrammedWriteDma_run hcb hr fuel addr len channel w).trans (bind_run hd _)

theorem run_returns (h : ¬ d.HasNull) {fuel : ℕ} {code : ℤ}
    (hcode : (d.run env fuel w).1 = some code) :
    ∃ late u, (d.waiting env w).Waits env late ∧ DmaEnded env (d.waiting env w) late u ∧
      code = dmaCode late ∧ (d.run env fuel w).2 = u.dmaEnd env late := by
  rw [run_eq h] at hcode ⊢
  exact ((smiDmaAwait_post fuel (d.waiting env w)).elim rfl).1 code hcode

theorem run_pending (h : ¬ d.HasNull) {fuel : ℕ} (hnone : (d.run env fuel w).1 = none) :
    Logged Event.IsPoll (d.waiting env w) (d.run env fuel w).2 := by
  rw [run_eq h] at hnone ⊢
  exact ((smiDmaAwait_post fuel (d.waiting env w)).elim rfl).2 hnone

theorem logged_synced {Q : Event → Prop} (hs : Q (.sync d.cxt.fdSyncCpu)) :
    Logged Q (d.begun env w) (d.synced env w) := by
  unfold synced World.cpuSynced
  split_ifs
  · exact logged_event rfl hs
  · exact refl_of _ _

/-- The world in which ACTIVE is about to be written. -/
def armed (env : Env σ) (d : DmaCall) (w : World σ) : World σ :=
  (((d.synced env w).read env (dmaCsOffset d.channel8)).write env (dmaCtrlBlk d.channel8)
    ((cbAddress d.cxt d.cb).setWidth 32)).read env (dmaCsOffset d.channel8)

def activeWord (env : Env σ) (d : DmaCall) (w : World σ) : Word :=
  DmaCs.active.set 1 ((((d.synced env w).read env (dmaCsOffset d.channel8)).write env
    (dmaCtrlBlk d.channel8) ((cbAddress d.cxt d.cb).setWidth 32)).value env
      (dmaCsOffset d.channel8))

theorem start_started (h : ¬ d.Refused env w) :
    d.start env (d.begun env w) = (some 0,
      (d.armed env w).write env (dmaCsOffset d.channel8) (d.activeWord env w)) := by
  simp only [Refused,not_or,Active,Bool.not_eq_true] at h
  exact startDma_started h.1 h.2.1 h.2.2

theorem logged_start {Q : Event → Prop} (hs : Q (.sync d.cxt.fdSyncCpu)) (hq : ∀ e, e.IsStep → Q e)
    (hw : ¬ d.Refused env w →
      Q (.write (dmaCtrlBlk d.channel8) ((cbAddress d.cxt d.cb).setWidth 32)) ∧
      ∀ v, Q (.write (dmaCsOffset d.channel8) v)) :
    Logged Q (d.begun env w) (d.start env (d.begun env w)).2 := by
  have hread (v : World σ) (r : Reg) : Logged Q v (v.read env r) :=
    logged_event (e := .read _ _) rfl (hq _ trivial)
  have hreport (v : World σ) (msg : String) : Logged Q v (v.report msg) :=
    logged_event (e := .error _) rfl (hq _ trivial)
  by_cases hr : d.Refused env w
  · unfold start
    by_cases hcb : cbAddress d.cxt d.cb = 0
    · rw [startDma_null hcb]
      exact hreport _ _
    by_cases hch : 14 < d.channel8
    · rw [startDma_range hcb hch]
      exact hreport _ _
    · rw [startDma_active hcb hch ((hr.resolve_left hcb).resolve_left hch)]
      exact trans_of _ (logged_synced hs) (trans_of _ (hread _ _) (hreport _ _))
  · obtain ⟨hblk,hcs⟩ := hw hr
    rw [start_started hr]
    refine trans_of _ (logged_synced hs) (trans_of _ ?_ (logged_event rfl (hcs _)))
    exact trans_of _ (hread _ _) (trans_of _ (logged_event rfl hblk) (hread _ _))

theorem begun_eq :
    d.begun env w = ((d.sized w).withCb (d.block w.cb)).apply env d.setup := by
  obtain ⟨dir,cxt,cb,addr,len,channel⟩ := d
  cases dir with
  | read =>
    have hcb : (ratioWorld cxt w).cb = w.cb := by
      unfold ratioWorld
      split_ifs <;> rfl
    simp only [begun,World.beginReadDma,sized,block,setup,hcb]
  | write => simp only [begun,World.beginWriteDma,sized,block,setup,World.apply_append]

theorem setup_in {S : Reg → Prop} {A : Reg → Field 32 → Prop} (hsmi : ∀ off f, A (.smi off) f) :
    ∀ op ∈ d.setup ++ d.rest, op.In S A := by
  unfold setup rest
  cases d.dir <;> simp [programmedReadDmaSetup,programmedWriteDmaSetup,smiStart,RegOp.In,smioCs,
    smioA,smioL,smioDc,hsmi]

theorem setup_logs {Q : Event → Prop} (hq : ∀ e, e.IsStep → Q e)
    (hw : ∀ off v, Q (.write (.smi off) v)) : ∀ op ∈ d.setup ++ d.rest, op.Logs Q := by
  intro op ho
  have hin := setup_in (S := fun _ => False) (A := fun r _ => ∃ off, r = .smi off)
    (fun off _ => ⟨off,rfl⟩) op ho
  cases op with
  | field r f v =>
    obtain ⟨off,rfl⟩ := hin
    exact fun x => ⟨hq _ trivial,hw off _⟩
  | value r v => exact absurd hin id

theorem block_mem : .control (d.block w.cb) ∈ (d.begun env w).log := by
  have hbegun : Logged (fun _ => True) ((d.sized w).withCb (d.block w.cb)) (d.begun env w) := by
    rw [begun_eq]
    refine logged_apply (fun op _ => ?_) _
    cases op <;> simp [RegOp.Logs]
  exact hbegun.mem (by simp [World.withCb])

section Logged

variable {Q : Event → Prop} (hq : ∀ e, e.IsStep → Q e)

include hq

theorem logged_begun (hc : Q (.control (d.block w.cb))) (ho : ∀ op ∈ d.setup, op.Logs Q) :
    Logged Q w (d.begun env w) := by
  have hsized : Logged Q w (d.sized w) := by
    unfold sized
    cases d.dir with
    | read =>
      unfold ratioWorld
      split_ifs
      · exact logged_event (e := .error _) rfl (hq _ trivial)
      · exact refl_of _ w
    | write => exact refl_of _ w
  have hblock : Logged Q (d.sized w) ((d.sized w).withCb (d.block w.cb)) := logged_event rfl hc
  rw [begun_eq]
  exact trans_of _ hsized (trans_of _ hblock (logged_apply ho _))

theorem logged_after (hs : Q (.sync d.cxt.fdSyncCpu)) (ho : ∀ op ∈ d.rest, op.Logs Q)
    (hw : ¬ d.Refused env w →
      Q (.write (dmaCtrlBlk d.channel8) ((cbAddress d.cxt d.cb).setWidth 32)) ∧
      ∀ v, Q (.write (dmaCsOffset d.channel8) v)) :
    Logged Q (d.begun env w) (d.waiting env w) :=
  trans_of _ (logged_start hs hq hw) (logged_apply ho _)

theorem logged_waiting (hs : Q (.sync d.cxt.fdSyncCpu)) (hc : Q (.control (d.block w.cb)))
    (ho : ∀ op ∈ d.setup ++ d.rest, op.Logs Q)
    (hw : ¬ d.Refused env w →
      Q (.write (dmaCtrlBlk d.channel8) ((cbAddress d.cxt d.cb).setWidth 32)) ∧
      ∀ v, Q (.write (dmaCsOffset d.channel8) v)) : Logged Q w (d.waiting env w) :=
  trans_of _ (logged_begun hq hc fun op h => ho op (List.mem_append_left _ h))
    (logged_after hq hs (fun op h => ho op (List.mem_append_right _ h)) hw)

theorem logged_wait (ha : ∀ v, Q (.write dmaoCs v)) (fuel : ℕ) (v : World σ) :
    Logged Q v (smiDmaAwait env fuel v).2 := by
  refine keeps_smiDmaAwait (logged_stepsIn (P := fun r => r = dmaoCs) ?_ hq) fuel rfl v
  rintro r x rfl
  exact ha x

theorem logged_run (hn : ¬ d.HasNull) (hs : Q (.sync d.cxt.fdSyncCpu))
    (hc : Q (.control (d.block w.cb))) (ho : ∀ op ∈ d.setup ++ d.rest, op.Logs Q)
    (hw : ¬ d.Refused env w →
      Q (.write (dmaCtrlBlk d.channel8) ((cbAddress d.cxt d.cb).setWidth 32)) ∧
      ∀ v, Q (.write (dmaCsOffset d.channel8) v))
    (ha : ∀ v, Q (.write dmaoCs v)) (fuel : ℕ) : Logged Q w (d.run env fuel w).2 := by
  rw [run_eq hn]
  exact trans_of (Logged Q) (logged_waiting hq hs hc ho hw) (logged_wait hq ha fuel _)

end Logged

end DmaCall
end RpiSmi
