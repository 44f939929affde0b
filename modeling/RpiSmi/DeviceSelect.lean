import RpiSmi.DmaCalls

/-!
# Device selection

`SMI_A` is shared by the four programmed entry points, and only one of them
writes its device field. `World.selection` reads off the log what the field held
at every START; a run is a list of calls, each entered in the world that the
one before it left.
-/

namespace RpiSmi

open Exec BitField

variable {σ : Type}

/-- The device field of `SMI_A` is what was last written to it, and START always reads as 0. -/
structure StoresDevice (env : Env σ) (device : σ → ℕ) : Prop where
  readA (s : σ) : SmiA.device.get (env.readReg smioA s).1 = device s
  read (r : Reg) (s : σ) : device (env.readReg r s).2 = device s
  writeA (v : Word) (s : σ) : device (env.writeReg smioA v s) = SmiA.device.get v
  write (r : Reg) (v : Word) (s : σ) : r ≠ smioA → device (env.writeReg r v s) = device s
  clock (s : σ) : device (env.clockGettime s).2 = device s
  realloc (bytes : ℕ) (s : σ) : device (env.realloc bytes s).2 = device s
  writeSync (fd : ℤ) (s : σ) : device (env.writeSync fd s) = device s
  start (s : σ) : SmiCs.start.test (env.readReg smioCs s).1 = false

structure Selection where
  device : ℕ
  starts : List ℕ

def Selection.next (q : Selection) : Event → Selection
  | .write r v =>
    if r = smioA then { q with device := SmiA.device.get v }
    else if r = smioCs ∧ SmiCs.start.test v = true then { q with starts := q.starts ++ [q.device] }
    else q
  | _ => q

def World.selection (d : ℕ) (w : World σ) : Selection := w.log.foldl Selection.next ⟨d,[]⟩

section Selection

variable (d : ℕ) (env : Env σ) (w : World σ)

@[simp] theorem selection_read (r : Reg) : (w.read env r).selection d = w.selection d := by
  simp [World.selection,World.read,Selection.next]
@[simp] theorem selection_write (r : Reg) (v : Word) :
    (w.write env r v).selection d = (w.selection d).next (.write r v) := by
  simp [World.selection,World.write]
@[simp] theorem selection_report (msg : String) :
    (w.report msg).selection d = w.selection d := by
  simp [World.selection,World.report,Selection.next]
@[simp] theorem selection_store (p : Ptr) (i : ℕ) (v : Word) :
    (w.store p i v).selection d = w.selection d := by
  cases p <;> simp [World.selection,World.store,Selection.next]
@[simp] theorem selection_fetch (i : ℕ) : (w.fetch i).selection d = w.selection d := by
  simp [World.selection,World.fetch,Selection.next]
@[simp] theorem selection_clocked : (w.clocked env).selection d = w.selection d := by
  simp [World.selection,World.clocked,World.after,Selection.next]
@[simp] theorem selection_synced (fd : ℤ) : (w.synced env fd).selection d = w.selection d := by
  simp [World.selection,World.synced,Selection.next]
@[simp] theorem selection_withCb (c : DmaCb) : (w.withCb c).selection d = w.selection d := by
  simp [World.selection,World.withCb,Selection.next]

end Selection

def Tracks (device : σ → ℕ) (d : ℕ) (q : Selection) (w : World σ) : Prop :=
  w.selection d = q ∧ device w.dev = q.device

def SameSelection (device : σ → ℕ) (d : ℕ) (w w' : World σ) : Prop :=
  ∀ q, Tracks device d q w → Tracks device d q w'

instance (device : σ → ℕ) (d : ℕ) : IsPreorder (World σ) (SameSelection device d) where
  refl _ _ h := h
  trans _ _ _ h h' q hq := h' q (h q hq)

section Tracks

variable {env : Env σ} {device : σ → ℕ} (hs : StoresDevice env device) {d : ℕ} {q : Selection}
  {w : World σ}

include hs

theorem Tracks.read (h : Tracks device d q w) (r : Reg) : Tracks device d q (w.read env r) :=
  ⟨(selection_read d env w r).trans h.1,(hs.read r w.dev).trans h.2⟩

theorem Tracks.writeA (h : Tracks device d q w) (v : Word) :
    Tracks device d { q with device := SmiA.device.get v } (w.write env smioA v) :=
  ⟨by simp [h.1,Selection.next],hs.writeA v w.dev⟩

theorem Tracks.writeCs (h : Tracks device d q w) (v : Word) :
    Tracks device d (if SmiCs.start.test v = true then { q with starts := q.starts ++ [q.device] }
      else q) (w.write env smioCs v) := by
  have hne : smioCs ≠ smioA := by decide
  refine ⟨by simp [h.1,Selection.next,hne],(hs.write _ v w.dev hne).trans (h.2.trans ?_)⟩
  split <;> rfl

theorem Tracks.write (h : Tracks device d q w) {r : Reg} (hr : r ≠ smioA ∧ r ≠ smioCs) (v : Word) :
    Tracks device d q (w.write env r v) :=
  ⟨by simp [h.1,Selection.next,hr.1,hr.2],(hs.write r v w.dev hr.1).trans h.2⟩

theorem Tracks.select (h : Tracks device d q w) (v : ℕ) :
    Tracks device d { q with device := v%4 } (w.assign env smioA SmiA.device v) := by
  have hsel := (h.read hs smioA).writeA hs (SmiA.device.set v (w.value env smioA))
  rwa [Field.get_set] at hsel

theorem Tracks.start (h : Tracks device d q w) :
    Tracks device d { q with starts := q.starts ++ [q.device] } (w.apply env smiStart) := by
  have hst := (h.read hs smioCs).writeCs hs (SmiCs.start.set 1 (w.value env smioCs))
  rwa [if_pos (SmiCs.start.test_set_one (by decide) _)] at hst

theorem Tracks.assign (h : Tracks device d q w) {r : Reg} {f : Field 32}
    (hA : r = smioA → f.Disjoint SmiA.device) (hCs : r = smioCs → f.Disjoint SmiCs.start) (v : ℕ) :
    Tracks device d q (w.assign env r f v) := by
  have hr := h.read hs r
  by_cases ha : r = smioA
  · subst ha
    have hsame : SmiA.device.get (f.set v (w.value env smioA)) = q.device := by
      rw [Field.get_set_of_disjoint (hA rfl),World.value,hs.readA,h.2]
    have hw := hr.writeA hs (f.set v (w.value env smioA))
    rwa [hsame] at hw
  · by_cases hc : r = smioCs
    · subst hc
      have hoff : SmiCs.start.test (f.set v (w.value env smioCs)) = false := by
        rw [Field.test_set_of_disjoint (hCs rfl)]
        exact hs.start w.dev
      have hw := hr.writeCs hs (f.set v (w.value env smioCs))
      rwa [if_neg (by rw [hoff]; decide)] at hw
    · exact hr.write hs ⟨ha,hc⟩ _

theorem sameSelection_steps (d : ℕ) :
    CallSteps env (fun r => r ≠ smioA ∧ r ≠ smioCs)
      (fun r f => (r = smioA → f.Disjoint SmiA.device) ∧ (r = smioCs → f.Disjoint SmiCs.start))
      (SameSelection device d) where
  read r _ _ hq := hq.read hs r
  write _ v _ hr _ hq := hq.write hs hr v
  assign _ _ v _ hf _ hq := hq.assign hs hf.1 hf.2 v
  store i v w _ hq := ⟨(selection_store d w .rawBuffer i v).trans hq.1,hq.2⟩
  fetch i w _ hq := ⟨(selection_fetch d w i).trans hq.1,hq.2⟩
  report msg w _ hq := ⟨(selection_report d w msg).trans hq.1,hq.2⟩
  clock w _ hq := ⟨(selection_clocked d env w).trans hq.1,(hs.clock w.dev).trans hq.2⟩
  storeTo p i v w _ hq :=
    ⟨(selection_store d w p i v).trans hq.1,(congrArg device (dev_store w p i v)).trans hq.2⟩
  output _ _ _ hq := hq
  realloc bytes _ w _ hq := ⟨hq.1,(hs.realloc bytes w.dev).trans hq.2⟩
  sync fd w _ hq := ⟨(selection_synced d env w fd).trans hq.1,(hs.writeSync fd w.dev).trans hq.2⟩
  control c w _ hq := ⟨(selection_withCb d w c).trans hq.1,hq.2⟩

end Tracks

/-- A field that may be assigned without selecting a device or starting a transfer. -/
abbrev Harmless : RegOp → Prop :=
  RegOp.In (fun r => r ≠ smioA ∧ r ≠ smioCs)
    fun r f => (r = smioA → f.Disjoint SmiA.device) ∧ (r = smioCs → f.Disjoint SmiCs.start)

theorem programmedReadSetup_eq (cxt : SmiCxt) (addr : BitVec 8) (len : ℤ) :
    ∃ mid, (∀ op ∈ mid, Harmless op) ∧ programmedReadSetup cxt addr len =
      .field smioA SmiA.device cxt.rwConfig.readDeviceNum.toNat::(mid ++ smiStart) := by
  refine ⟨((programmedReadSetup cxt addr len).drop 1).dropLast,?_,rfl⟩
  simp [programmedReadSetup,smiStart,Harmless,RegOp.In,smioA,smioDsr,smioDsw,smioCs,smioL]
  refine ⟨?_,?_,?_,by decide⟩
  all_goals
    intro h
    omega

theorem programmedWriteSetup_eq (cxt : SmiCxt) (addr : BitVec 8) (len : ℤ) :
    ∃ mid, (∀ op ∈ mid, Harmless op) ∧ programmedWriteSetup cxt addr len = mid ++ smiStart := by
  refine ⟨(programmedWriteSetup cxt addr len).dropLast,?_,rfl⟩
  simp [programmedWriteSetup,smiStart,Harmless,RegOp.In,smioA,smioCs,smioL]
  decide

theorem programmedReadDmaSetup_harmless (cxt : SmiCxt) (addr : BitVec 8) (len : ℤ) :
    ∀ op ∈ programmedReadDmaSetup cxt addr len, Harmless op := by
  simp [programmedReadDmaSetup,Harmless,RegOp.In,smioA,smioCs,smioL,smioDc]
  decide

theorem programmedWriteDmaSetup_harmless (cxt : SmiCxt) (addr : BitVec 8) (len : ℤ) :
    ∀ op ∈ programmedWriteDmaSetup cxt addr len, Harmless op := by
  simp [programmedWriteDmaSetup,Harmless,RegOp.In,smioA,smioCs,smioL,smioDc]
  decide

inductive Transfer
  | readArr (addr : BitVec 8) (len : ℤ)
  | writeArr (data : Option (ℕ → Word)) (addr : BitVec 8) (len : ℤ)
  | readDma (cb : BitVec 64) (addr : BitVec 8) (len channel : ℤ)
  | writeDma (cb : BitVec 64) (addr : BitVec 8) (len channel : ℤ)

/-- A call with the context as the caller has set it up for this call. -/
structure Call where
  cxt : SmiCxt
  transfer : Transfer
  fuel : ℕ

def Call.run (env : Env σ) (c : Call) : Drv σ ℤ :=
  match c.transfer with
  | .readArr addr len => smiProgrammedReadArr env c.fuel c.cxt addr len
  | .writeArr data addr len => smiProgrammedWriteArr env c.fuel c.cxt data addr len
  | .readDma cb addr len channel => smiProgrammedReadDma env c.fuel (some c.cxt) cb addr len channel
  | .writeDma cb addr len channel =>
    smiProgrammedWriteDma env c.fuel (some c.cxt) cb addr len channel

def Call.device (c : Call) : ℕ :=
  match c.transfer with
  | .readArr .. | .readDma .. => c.cxt.rwConfig.readDeviceNum.toNat
  | .writeArr .. | .writeDma .. => c.cxt.rwConfig.writeDeviceNum.toNat

def made (env : Env σ) : List Call → World σ → List (Call × World σ)
  | [], _ => []
  | c::cs, w => (c,w.fresh)::match c.run env w.fresh with
    | (some _,w') => made env cs w'
    | (none,_) => []

def Call.selected (env : Env σ) (device : σ → ℕ) (c : Call) (w : World σ) : List ℕ :=
  ((c.run env w).2.selection (device w.dev)).starts

/-- Every transfer of the run went out with the device that its context named. -/
def SelectsOwnDevice (env : Env σ) (device : σ → ℕ) (calls : List Call) (w : World σ) : Prop :=
  ∀ p ∈ made env calls w, ∀ d ∈ p.1.selected env device p.2, d = p.1.device

/-- The call starts a transfer without selecting a device. A DMA call with a null pointer does
not: it returns before it touches a register. -/
def Call.Inherits (c : Call) : Prop :=
  match c.transfer with
  | .readArr .. => False
  | .writeArr .. => True
  | .readDma cb .. | .writeDma cb .. => cb ≠ 0 ∧ c.cxt.smiRegs ≠ none

/-- A call that does not select its device finds it selected. -/
def Call.Ready (device : σ → ℕ) (c : Call) (w : World σ) : Prop :=
  c.Inherits → device w.dev = c.device

theorem disjoint_start {f : Field 32} (hf : f ∈ waitFlags) : f.Disjoint SmiCs.start := by
  simp only [waitFlags,List.mem_cons,List.not_mem_nil,or_false] at hf
  rcases hf with rfl | rfl | rfl <;> decide

theorem allowed_smioCs (f : Field 32) (hf : f ∈ waitFlags) :
    (smioCs = smioA → f.Disjoint SmiA.device) ∧ (smioCs = smioCs → f.Disjoint SmiCs.start) :=
  ⟨fun h => absurd h (by decide),fun _ => disjoint_start hf⟩

section Calls

variable {env : Env σ} {device : σ → ℕ} (hs : StoresDevice env device) {d : ℕ} {q : Selection}
  {w : World σ} {cxt : SmiCxt} {addr : BitVec 8} {len : ℤ}

include hs

theorem sameSelection_startDma (cb : BitVec 64) (channel : BitVec 8) (fd : ℤ) :
    Keeps (SameSelection device d) (startDma env cb channel fd) := by
  refine keeps_startDma (sameSelection_steps hs d) cb channel fd ?_ ?_
  · simp [dmaCtrlBlk,smioA,smioCs]
  · simp [dmaCsOffset,smioA,smioCs]

theorem harmless_apply {ops : List RegOp} (ho : ∀ op ∈ ops, Harmless op)
    (h : Tracks device d q w) : Tracks device d q (w.apply env ops) :=
  (sameSelection_steps hs d).toStepsIn.apply ho w q h

/-- A read starts its transfer on the device that it has selected, or it starts none. -/
theorem smiProgrammedReadArr_tracks (fuel : ℕ) (h : Tracks device d q w) :
    Tracks device d q (smiProgrammedReadArr env fuel cxt addr len w).2 ∨
    ∃ n, n = cxt.rwConfig.readDeviceNum.toNat%4 ∧ Tracks device d ⟨n,q.starts ++ [n]⟩
      (smiProgrammedReadArr env fuel cxt addr len w).2 := by
  have hsteps := sameSelection_steps hs d
  have hgrow := keeps_growRawBuffer hsteps (wordReads cxt len) (ratioWorld cxt w) q
    (keeps_ratioWorld hsteps cxt w q h)
  rcases he : readEntry env cxt addr len w with _ | w₁
  · rw [smiProgrammedReadArr_refused he]
    exact .inl hgrow
  · refine .inr ⟨_,rfl,?_⟩
    rw [smiProgrammedReadArr_run he]
    have hafter := keeps_bind
      (keeps_smiReadAwait hsteps.toStepsIn fuel (wordReads cxt len) allowed_smioCs)
      (fun count => keeps_bind (keeps_decodeRaw hsteps cxt (wordReads cxt len) count)
        fun _ => keeps_pure count)
    apply hafter
    unfold readEntry at he
    split at he
    case h_1 u hg =>
      cases he
      rw [hg] at hgrow
      obtain ⟨mid,hmid,hsetup⟩ := programmedReadSetup_eq cxt addr len
      rw [hsetup,World.apply_field,World.apply_append]
      exact (harmless_apply hs hmid (hgrow.select hs _)).start hs
    case h_2 => cases he

theorem smiProgrammedWriteArr_tracks (fuel : ℕ) (data : Option (ℕ → Word))
    (h : Tracks device d q w) : Tracks device d { q with starts := q.starts ++ [q.device] }
      (smiProgrammedWriteArr env fuel cxt data addr len w).2 := by
  obtain ⟨mid,hmid,hsetup⟩ := programmedWriteSetup_eq cxt addr len
  rw [smiProgrammedWriteArr,bind_run (regOps_run env _ w)]
  apply keeps_smiWriteAwait (sameSelection_steps hs d).toStepsIn fuel len allowed_smioCs
  · decide
  · rw [hsetup,World.apply_append]
    exact (harmless_apply hs hmid h).start hs

theorem keeps_dmaAwait (fuel : ℕ) : Keeps (SameSelection device d) (smiDmaAwait env fuel) :=
  keeps_smiDmaAwait (sameSelection_steps hs d).toStepsIn fuel
    ⟨fun h => absurd h (by decide),fun h => absurd h (by decide)⟩

theorem smiProgrammedWriteDma_tracks (fuel : ℕ) {cb : BitVec 64} (channel : ℤ) (hcb : cb ≠ 0)
    (hr : cxt.smiRegs ≠ none) (h : Tracks device d q w) :
    Tracks device d { q with starts := q.starts ++ [q.device] }
      (smiProgrammedWriteDma env fuel (some cxt) cb addr len channel w).2 := by
  obtain ⟨smiRegs,hr⟩ := Option.ne_none_iff_exists'.mp hr
  have hu : Tracks device d q (w.withCb (writeCb smiRegs len w.cb)) :=
    (sameSelection_steps hs d).control _ w q h
  rw [smiProgrammedWriteDma_run hcb hr]
  apply keeps_bind (sameSelection_startDma hs _ _ _) fun _ => keeps_dmaAwait hs fuel
  exact (harmless_apply hs (programmedWriteDmaSetup_harmless cxt addr len) hu).start hs

theorem smiProgrammedReadDma_tracks (fuel : ℕ) {cb : BitVec 64} (channel : ℤ) (hcb : cb ≠ 0)
    (hr : cxt.smiRegs ≠ none) (h : Tracks device d q w) :
    Tracks device d { q with starts := q.starts ++ [q.device] }
      (smiProgrammedReadDma env fuel (some cxt) cb addr len channel w).2 := by
  obtain ⟨smiRegs,hr⟩ := Option.ne_none_iff_exists'.mp hr
  have hratio := keeps_ratioWorld (sameSelection_steps hs d) cxt w q h
  have hu := (sameSelection_steps hs d).control
    (readCb smiRegs (wordReads cxt len) (ratioWorld cxt w).cb) (ratioWorld cxt w) q hratio
  have hsetup := harmless_apply hs (programmedReadDmaSetup_harmless cxt addr len) hu
  obtain ⟨code,v,hd⟩ := startDma_returns env (cbAddress cxt cb) (BitVec.ofInt 8 channel)
    cxt.fdSyncCpu (w.beginReadDma env cxt smiRegs addr len)
  have hdma := sameSelection_startDma hs (cbAddress cxt cb) (BitVec.ofInt 8 channel) cxt.fdSyncCpu
    (w.beginReadDma env cxt smiRegs addr len) q hsetup
  rw [hd] at hdma
  rw [smiProgrammedReadDma_run hcb hr,bind_run hd,bind_run (regOps_run env _ _)]
  exact keeps_dmaAwait hs fuel _ _ (hdma.start hs)

theorem Call.run_tracks_of_not_inherits {c : Call} (hc : ¬ c.Inherits)
    (h : Tracks device d q w) : Tracks device d q (c.run env w).2 ∨
      ∃ n, n = c.device%4 ∧ Tracks device d ⟨n,q.starts ++ [n]⟩ (c.run env w).2 := by
  obtain ⟨cxt,transfer,fuel⟩ := c
  cases transfer with
  | readArr addr len => exact smiProgrammedReadArr_tracks hs fuel h
  | writeArr data addr len => exact absurd trivial hc
  | readDma cb addr len channel =>
    have hnull : cb = 0 ∨ cxt.smiRegs = none := by
      by_contra hn
      exact hc (not_or.mp hn)
    simp only [Call.run,smiProgrammedReadDma_null hnull]
    exact .inl h
  | writeDma cb addr len channel =>
    have hnull : cb = 0 ∨ cxt.smiRegs = none := by
      by_contra hn
      exact hc (not_or.mp hn)
    simp only [Call.run,smiProgrammedWriteDma_null hnull]
    exact .inl h

theorem Call.run_tracks_of_inherits {c : Call} (hc : c.Inherits) (h : Tracks device d q w) :
    Tracks device d { q with starts := q.starts ++ [q.device] } (c.run env w).2 := by
  obtain ⟨cxt,transfer,fuel⟩ := c
  cases transfer with
  | readArr addr len => exact hc.elim
  | writeArr data addr len => exact smiProgrammedWriteArr_tracks hs fuel data h
  | readDma cb addr len channel => exact smiProgrammedReadDma_tracks hs fuel channel hc.1 hc.2 h
  | writeDma cb addr len channel => exact smiProgrammedWriteDma_tracks hs fuel channel hc.1 hc.2 h

/-- One call: whatever it starts goes to its own device exactly when it was ready. -/
theorem Call.selected_iff {c : Call} (hn : c.device < 4) :
    (∀ n ∈ c.selected env device w.fresh, n = c.device) ↔ c.Ready device w.fresh := by
  have hw : Tracks device (device w.dev) ⟨device w.dev,[]⟩ w.fresh := ⟨rfl,rfl⟩
  by_cases hc : c.Inherits
  · have hsel : c.selected env device w.fresh = [device w.dev] :=
      congrArg Selection.starts (c.run_tracks_of_inherits hs hc hw).1
    simp only [hsel,List.mem_singleton,forall_eq,Call.Ready,hc,true_imp_iff]
    rfl
  · have hready : c.Ready device w.fresh := fun h => absurd h hc
    simp only [hready,iff_true]
    rcases c.run_tracks_of_not_inherits hs hc hw with ht | ⟨n,hn',ht⟩
    · have hsel : c.selected env device w.fresh = [] := congrArg Selection.starts ht.1
      simp [hsel]
    · have hsel : c.selected env device w.fresh = [n] := congrArg Selection.starts ht.1
      simp [hsel,hn',Nat.mod_eq_of_lt hn]

end Calls

theorem mem_made {env : Env σ} {p : Call × World σ} :
    {calls : List Call} → {w : World σ} → p ∈ made env calls w →
      p.1 ∈ calls ∧ ∃ u : World σ, p.2 = u.fresh
  | [], _, h => by cases h
  | c::cs, w, h => by
    rcases List.mem_cons.mp h with rfl | h
    · exact ⟨List.mem_cons_self ..,w,rfl⟩
    · split at h
      · obtain ⟨hc,hu⟩ := mem_made h
        exact ⟨List.mem_cons_of_mem _ hc,hu⟩
      · cases h

/-- Over a run: every transfer goes out with its own device exactly when every write and every DMA
transfer finds that device selected already. -/
theorem selectsOwnDevice_iff {env : Env σ} {device : σ → ℕ} (hs : StoresDevice env device)
    (calls : List Call) (hn : ∀ c ∈ calls, c.device < 4) (w : World σ) :
    SelectsOwnDevice env device calls w ↔ ∀ p ∈ made env calls w, p.1.Ready device p.2 := by
  refine forall₂_congr fun p hp => ?_
  obtain ⟨hc,u,hu⟩ := mem_made hp
  rw [hu]
  exact Call.selected_iff hs (hn p.1 hc)

def storeEnv : Env Word where
  readReg r a := (if r = smioA then a else if r = smioCs then 0x08000002 else 0,a)
  writeReg r v a := if r = smioA then v else a
  clockGettime a := (0,a)
  realloc _ a := (none,a)
  writeSync _ a := a
  limits := .default
  arm64 := true

theorem storeEnv_storesDevice : StoresDevice storeEnv SmiA.device.get where
  readA _ := rfl
  read _ _ := rfl
  writeA _ _ := rfl
  write _ _ _ hr := by simp [storeEnv,hr]
  clock _ := rfl
  realloc _ _ := rfl
  writeSync _ _ := rfl
  start _ := by
    show SmiCs.start.test 0x08000002 = false
    decide

def readThenWrite (rd wd : BitVec 8) : List Call :=
  let cxt := deviceCxt 0 false false false
  [⟨{ cxt with rwConfig := { cxt.rwConfig with readDeviceNum := rd } },.readArr 0 1,2⟩,
    ⟨{ cxt with rwConfig := { cxt.rwConfig with writeDeviceNum := wd } },
      .writeArr (some fun _ => 0) 0 1,2⟩]

theorem selectsOwnDevice_iff_same : (∀ c ∈ readThenWrite 1 1, c.device < 4) ∧
    (SelectsOwnDevice storeEnv SmiA.device.get (readThenWrite 1 1) (World.init 0) ↔
      ∀ p ∈ made storeEnv (readThenWrite 1 1) (World.init 0),
        p.1.Ready SmiA.device.get p.2) :=
  ⟨by decide,selectsOwnDevice_iff storeEnv_storesDevice (readThenWrite 1 1) (by decide)
    (World.init 0)⟩

/-- After a read on device 1, a write for device 0 goes out to device 1. -/
theorem selectsOwnDevice_not : ¬ ∀ (env : Env Word) (device : Word → ℕ) (calls : List Call)
    (w : World Word), StoresDevice env device → (∀ c ∈ calls, c.device < 4) →
      SelectsOwnDevice env device calls w := by
  intro h
  have hsel := h storeEnv SmiA.device.get (readThenWrite 1 0) (World.init 0) storeEnv_storesDevice
    (by decide)
  revert hsel
  unfold SelectsOwnDevice
  decide

end RpiSmi
