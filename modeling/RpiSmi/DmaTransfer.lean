import RpiSmi.DmaEngine

/-!
# DMA transfers from call to data

The driver beside the engine of `DmaEngine`. A call sets up the SMI while the
channel is at rest, starts the channel, which also clears an END that an earlier
transfer left, and polls channel 0. What was moved follows for every interleaving.
-/

namespace RpiSmi

open Exec BitField

section Accesses

variable {T : DmaTrace} {I : DmaSys → Prop} {w : World (ℕ × DmaSys)}

theorem Stable.before (h : Stable T I) (x : ℕ × DmaSys) (hx : I x.2) : I (T.device.before x) := by
  show I ((T.between x.1).foldl (fun s m => T.move m s) x.2)
  generalize T.between x.1 = ms
  generalize x.2 = s at hx
  induction ms generalizing s with
  | nil => exact hx
  | cons m ms ih => exact ih _ (h.move m hx)

theorem Stable.read (h : Stable T I) {r : Reg} (hr : r ≠ smioD) (hw : I w.dev.2) :
    I (w.read T.env r).dev.2 := by
  have hdev : (w.read T.env r).dev.2 = T.device.before w.dev := if_neg hr
  rw [hdev]
  exact h.before _ hw

theorem Stable.clocked (h : Stable T I) (hw : I w.dev.2) : I (w.clocked T.env).dev.2 :=
  h.before _ hw

theorem dma_ne_smi (off off' : ℕ) : Reg.smi off ≠ Reg.dma off' := Reg.noConfusion

theorem dma_ne_data (off : ℕ) : Reg.dma off ≠ smioD := Reg.noConfusion

theorem Stable.write (h : Stable T I) {off : ℕ} {v : Word} (hd : off ≠ 0xc)
    (hv : off = 0 → SmiCs.clear.test v = false) (hw : I w.dev.2) :
    I (w.write T.env (.smi off) v).dev.2 := by
  have hb := h.before _ hw
  show I (T.device.onWrite (.smi off) v (T.device.before w.dev))
  have hcs : ¬ (Reg.smi off = smioCs ∧ SmiCs.clear.test v = true) := by
    rintro ⟨hr,hc⟩
    rw [hv (Reg.smi.inj hr)] at hc
    cases hc
  have hport : Reg.smi off ≠ smioD := fun hr => hd (Reg.smi.inj hr)
  simp only [DmaTrace.device,dmaCsOffset,dmaCtrlBlk,dma_ne_smi,hport,hcs,if_false]
  split_ifs
  · exact h.dmaen _ hb
  · exact hb

theorem Stable.assign (h : Stable T I) {off : ℕ} {f : Field 32} (hd : off ≠ 0xc)
    (hf : off = 0 → f.Disjoint SmiCs.clear) (v : ℕ) (hw : I w.dev.2) :
    I (w.assign T.env (.smi off) f v).dev.2 := by
  have hport : Reg.smi off ≠ smioD := fun hr => hd (Reg.smi.inj hr)
  refine h.write hd (fun ho => ?_) (h.read hport hw)
  rw [Field.test_set_of_disjoint (hf ho)]
  subst ho
  exact (T.value_smioCs w.dev.1 (T.device.before w.dev)).1

def RegOp.Calm (op : RegOp) : Prop :=
  op.In (fun _ => False) fun r f =>
    ∃ off, r = .smi off ∧ off ≠ 0xc ∧ (off = 0 → f.Disjoint SmiCs.clear)

theorem Stable.apply (h : Stable T I) {ops : List RegOp} (ho : ∀ op ∈ ops, op.Calm)
    (hw : I w.dev.2) : I (w.apply T.env ops).dev.2 := by
  induction ops generalizing w with
  | nil => exact hw
  | cons op ops ih =>
    have hop := ho op (List.mem_cons_self ..)
    have hops := fun op' hm => ho op' (List.mem_cons_of_mem op hm)
    cases op with
    | field r f v =>
      obtain ⟨off,rfl,hd,hf⟩ := hop
      exact ih hops (h.assign hd hf v hw)
    | value r v => exact hop.elim

end Accesses

section Start

variable {T : DmaTrace} {d : DmaCall} {w : World (ℕ × DmaSys)} {b : DmaCb}
  {P : ℕ → BusData → Prop} {m₀ : Word → Word} {finished : Bool} {ctrlBlk : Word}

namespace DmaCall

theorem setup_calm (d : DmaCall) : ∀ op ∈ d.setup.tail ++ d.rest, op.Calm := by
  unfold setup rest
  cases d.dir <;> simp [programmedReadDmaSetup,programmedWriteDmaSetup,smiStart,RegOp.Calm,
    RegOp.In,smioCs,smioA,smioL,smioDc] <;> decide

theorem setup_cons (d : DmaCall) : d.setup = .field smioCs SmiCs.clear 1::d.setup.tail := by
  unfold setup
  cases d.dir <;> rfl

end DmaCall

theorem Carries.atRest (h : Carries T b P) (finished : Bool) (ctrlBlk : Word) :
    Stable T (AtRest (P 0) finished ctrlBlk) :=
  stable_atRest (fun v _ hd => h.arrive v hd) (fun _ hd => h.drain hd) _ _

theorem stable_mem (T : DmaTrace) (m₀ : Word → Word) (finished : Bool) (ctrlBlk : Word) :
    Stable T (AtRest (fun x => x.mem = m₀) finished ctrlBlk) :=
  stable_atRest (fun _ _ h => h) (fun _ h => h) _ _

/-- CLEAR empties both FIFOs, once more words have come and gone. -/
theorem clear_atRest (hclear : ∀ d : BusData, d.mem = m₀ → P 0 d.clear)
    (h : AtRest (fun d => d.mem = m₀) finished ctrlBlk w.dev.2) :
    AtRest (P 0) finished ctrlBlk (w.assign T.env smioCs SmiCs.clear 1).dev.2 := by
  have hstable := stable_mem T m₀ finished ctrlBlk
  have hb := hstable.before (w.read T.env smioCs).dev (hstable.read (r := smioCs) (by decide) h)
  have htest : SmiCs.clear.test (SmiCs.clear.set 1 (w.value T.env smioCs)) = true :=
    SmiCs.clear.test_set_one (by decide) _
  have hdev : (w.assign T.env smioCs SmiCs.clear 1).dev.2 =
      { T.device.before (w.read T.env smioCs).dev with
        data := (T.device.before (w.read T.env smioCs).dev).data.clear } := T.onWrite_clear htest _
  rw [hdev]
  exact ⟨hb.job,hb.active,hb.finished,hb.ctrlBlk,hclear _ hb.data⟩

theorem begun_atRest (hP : Carries T b P) (hclear : ∀ d : BusData, d.mem = m₀ → P 0 d.clear)
    (h : AtRest (fun d => d.mem = m₀) finished ctrlBlk w.dev.2) :
    AtRest (P 0) finished ctrlBlk (d.begun T.env w).dev.2 := by
  have hstable : Stable T (AtRest (P 0) finished ctrlBlk) := hP.atRest _ _
  have hdev : ((d.sized w).withCb (d.block w.cb)).dev = w.dev := by
    show (d.sized w).dev = w.dev
    unfold DmaCall.sized
    cases d.dir
    · exact dev_ratioWorld _ _
    · rfl
  rw [DmaCall.begun_eq,DmaCall.setup_cons,World.apply_field]
  refine hstable.apply (fun op ho => d.setup_calm op (List.mem_append_left _ ho)) ?_
  refine clear_atRest hclear ?_
  rw [hdev]
  exact h

theorem status_value (T : DmaTrace) (w : World (ℕ × DmaSys)) :
    DmaCs.abort.test (w.value T.env (dmaCsOffset T.channel)) = false ∧
    DmaCs.active.test (w.value T.env (dmaCsOffset T.channel)) = (T.device.before w.dev).active ∧
    DmaCs.finish.test (w.value T.env (dmaCsOffset T.channel)) =
      (T.device.before w.dev).finished :=
  T.value_dmaCs w.dev.1 (T.device.before w.dev)

theorem active_phase (hP : Carries T b P) (hwords : 0 < b.words) (hfetch : T.fetch ctrlBlk = b)
    {v : Word} (hv : v = DmaCs.active.set 1 (w.value T.env (dmaCsOffset T.channel)))
    (h : AtRest (P 0) finished ctrlBlk w.dev.2) :
    Phase b P ((w.read T.env (dmaCsOffset T.channel)).write T.env
      (dmaCsOffset T.channel) v).dev.2 := by
  have hstable := hP.atRest finished ctrlBlk
  have hfirst := hstable.before _ h
  have hlast := hstable.before _ (hstable.read (r := dmaCsOffset T.channel) (dma_ne_data _) h)
  let s := T.device.before (w.read T.env (dmaCsOffset T.channel)).dev
  obtain ⟨habort,-,hfinish⟩ := status_value T w
  have hactive : DmaCs.active.test v = true := hv ▸ DmaCs.active.test_set_one (by decide) _
  have habort' : DmaCs.abort.test v = false := by
    rw [hv,Field.test_set_of_disjoint (by decide),habort]
  have hfinish' : DmaCs.finish.test v = finished := by
    rw [hv,Field.test_set_of_disjoint (by decide),hfinish,hfirst.finished]
  have hcontrol : T.control v s =
      { s with active := true, finished := false, job := some ⟨b,0⟩ } := by
    have hclears : (s.finished && !DmaCs.finish.test v) = false := by
      rw [hfinish',hlast.finished]
      cases finished <;> rfl
    simp only [DmaTrace.control,hclears,habort',hactive,hlast.job,hlast.ctrlBlk,hfetch,
      Option.getD_none,if_true,Bool.false_eq_true,if_false,s]
  have hdev : ((w.read T.env (dmaCsOffset T.channel)).write T.env
      (dmaCsOffset T.channel) v).dev.2 = T.control v s := T.onWrite_dmaCs v s
  rw [hdev,hcontrol]
  exact .running 0 hwords rfl rfl rfl hlast.data

theorem waiting_phase (hP : Carries T b P) (hnext : b.nextCb = 0) (hwords : 0 < b.words)
    (hcb : cbAddress d.cxt d.cb ≠ 0) (hch : d.channel8 = T.channel) (hle : d.channel8 ≤ 14)
    (hfetch : T.fetch ((cbAddress d.cxt d.cb).setWidth 32) = b)
    (h : AtRest (P 0) finished ctrlBlk (d.begun T.env w).dev.2) :
    Phase b P (d.waiting T.env w).dev.2 := by
  have hstable := hP.atRest finished ctrlBlk
  have hsynced : AtRest (P 0) finished ctrlBlk (d.synced T.env w).dev.2 := h
  have hpassive : ¬ d.Refused T.env w := by
    have hactive : ¬ d.Active T.env w d.channel8 := by
      rw [DmaCall.Active,hch,(status_value T _).2.1,(hstable.before _ hsynced).active]
      exact Bool.false_ne_true
    exact fun hr => hr.elim hcb (·.elim (by omega) hactive)
  have hread := hstable.read (r := dmaCsOffset d.channel8) (dma_ne_data _) hsynced
  let u := ((d.synced T.env w).read T.env (dmaCsOffset d.channel8)).write T.env
    (dmaCtrlBlk d.channel8) ((cbAddress d.cxt d.cb).setWidth 32)
  have haddress : AtRest (P 0) finished ((cbAddress d.cxt d.cb).setWidth 32) u.dev.2 := by
    have hb := hstable.before _ hread
    have hdev : u.dev.2 = { T.device.before
        ((d.synced T.env w).read T.env (dmaCsOffset d.channel8)).dev with
        ctrlBlk := (cbAddress d.cxt d.cb).setWidth 32 } := by
      simp only [u,hch]
      exact T.onWrite_ctrlBlk _ _
    rw [hdev]
    exact ⟨hb.job,hb.active,hb.finished,rfl,hb.data⟩
  have hphase : Phase b P ((d.armed T.env w).write T.env (dmaCsOffset d.channel8)
      (d.activeWord T.env w)).dev.2 := by
    have hstart := active_phase hP hwords hfetch rfl haddress
    rw [← hch] at hstart
    exact hstart
  rw [DmaCall.waiting,DmaCall.start_started hpassive]
  exact (stable_phase hP hnext).apply
    (fun op ho => d.setup_calm op (List.mem_append_right _ ho)) hphase

end Start

section Wait

variable {T : DmaTrace} {w : World (ℕ × DmaSys)} {b : DmaCb} {P : ℕ → BusData → Prop}

/-- What a wait returns, and what it leaves; it looks at channel 0 only. -/
structure DmaWaited (T : DmaTrace) (b : DmaCb) (P : ℕ → BusData → Prop) (r : ℤ) (s : DmaSys) :
    Prop where
  code : r = 1 ∨ r = -eTimedOut
  progress : ∃ k ≤ b.words, P k s.data
  stopped : T.channel = 0 → s.job = none ∧ s.active = false
  complete : T.channel = 0 → r = 1 → P b.words s.data

theorem Phase.progress {s : DmaSys} (h : Phase b P s) : ∃ k ≤ b.words, P k s.data := by
  cases h with
  | running k hk hj ha hf hd => exact ⟨k,Nat.le_of_lt hk,hd⟩
  | done hj ha hf hd => exact ⟨b.words,le_rfl,hd⟩

theorem ended_waited (hP : Carries T b P) (hnext : b.nextCb = 0) (h : Phase b P w.dev.2)
    (he : DmaCs.finish.test (T.env.readReg dmaoCs w.dev).1 = true) :
    DmaWaited T b P 1 (w.read T.env dmaoCs).dev.2 := by
  have hread := (stable_phase hP hnext).read (r := dmaoCs) (dma_ne_data _) h
  have hdone (h0 : T.channel = 0) : ∃ s, (w.read T.env dmaoCs).dev.2 = s ∧ s.job = none ∧
      s.active = false ∧ P b.words s.data := by
    have hstatus := (status_value T w).2.2
    rw [h0,← dmaoCs_eq] at hstatus
    have hfinished : (T.device.before w.dev).finished = true := hstatus.symm.trans he
    cases hread with
    | running k hk hj ha hf hd => exact absurd (hf.symm.trans hfinished) Bool.false_ne_true
    | done hj ha hf hd => exact ⟨_,rfl,hj,ha,hd⟩
  refine ⟨.inl rfl,hread.progress,fun h0 => ?_,fun h0 _ => ?_⟩
  · obtain ⟨s,rfl,hj,ha,-⟩ := hdone h0
    exact ⟨hj,ha⟩
  · obtain ⟨s,rfl,-,-,hd⟩ := hdone h0
    exact hd

theorem aborted_waited (hP : Carries T b P) (hnext : b.nextCb = 0) (h : Phase b P w.dev.2) :
    DmaWaited T b P (-eTimedOut) (w.assign T.env dmaoCs DmaCs.abort 1).dev.2 := by
  have hstable := stable_phase hP hnext
  have hbefore := hstable.before _ (hstable.read (r := dmaoCs) (dma_ne_data _) h)
  let v := DmaCs.abort.set 1 (w.value T.env dmaoCs)
  let s := T.device.before (w.read T.env dmaoCs).dev
  have hdev : (w.assign T.env dmaoCs DmaCs.abort 1).dev.2 = T.device.onWrite dmaoCs v s := rfl
  rw [hdev]
  by_cases h0 : T.channel = 0
  · have habort : DmaCs.abort.test v = true := DmaCs.abort.test_set_one (by decide) _
    have hwrite : T.device.onWrite dmaoCs v s = T.control v s := by
      rw [dmaoCs_eq,← h0]
      exact T.onWrite_dmaCs v s
    have hdata : (T.control v s).data = s.data := by
      simp only [DmaTrace.control,habort,if_true]
    rw [hwrite]
    refine ⟨.inr rfl,hdata ▸ hbefore.progress,fun _ => ?_,fun _ hc => absurd hc (by decide)⟩
    simp only [DmaTrace.control,habort,if_true,and_self]
  · have hwrite : T.device.onWrite dmaoCs v s = s := T.onWrite_dmaoCs h0 v s
    rw [hwrite]
    exact ⟨.inr rfl,hbefore.progress,fun h => absurd h h0,fun h => absurd h h0⟩

theorem smiDmaAwait_waited (hP : Carries T b P) (hnext : b.nextCb = 0) (fuel : ℕ)
    (h : Phase b P w.dev.2) :
    Post (smiDmaAwait T.env fuel) w (fun code w' => DmaWaited T b P code w'.dev.2)
      (fun w' => Phase b P w'.dev.2) := by
  have hstable := stable_phase hP hnext
  let deadline := w.deadline T.env progReadTimeoutS
  show Post (loop (dmaAwaitRound T.env deadline) fuel 1000) (w.clocked T.env) _ _
  refine post_loop (fun _ v => Phase b P v.dev.2) (fun _ _ h => h) ?_ fuel 1000 _
    (hstable.clocked h)
  intro delay v hv
  have hread := hstable.read (r := dmaoCs) (dma_ne_data _) hv
  have hlook : Phase b P ((v.read T.env dmaoCs).after
      (T.env.timeoutComplete deadline (T.env.readReg dmaoCs v.dev).2)).dev.2 :=
    hstable.before _ hread
  rcases he : DmaCs.finish.test (T.env.readReg dmaoCs v.dev).1
  · rcases hx : (T.env.timeoutComplete deadline (T.env.readReg dmaoCs v.dev).2).expired
    · exact post_of_run (dmaAwaitRound_again he hx) hlook
    · exact post_of_run (dmaAwaitRound_late he hx) (aborted_waited hP hnext hlook)
  · exact post_of_run (dmaAwaitRound_ended he) (ended_waited hP hnext hv he)

end Wait

namespace DmaCall

def buffer (d : DmaCall) (c : DmaCb) (i : ℕ) : Word :=
  (match d.dir with
    | .read => c.destAddr
    | .write => c.srcAddr)+BitVec.ofNat 32 (4*i)

def Carried (T : DmaTrace) (d : DmaCall) (c : DmaCb) (m₀ : Word → Word) (k : ℕ) (x : BusData) :
    Prop :=
  match d.dir with
  | .read => Filled (d.block c) m₀ k x
  | .write => Emptied T.depth (d.block c) m₀ k x

/-- A call that `start_dma` accepts for the channel of the trace, whose control block the engine
sees as it was filled in, and whose buffer is not the register that the SMI takes data at. -/
structure Suited (T : DmaTrace) (d : DmaCall) (c : DmaCb) : Prop where
  nonnull : ¬ d.HasNull
  address : cbAddress d.cxt d.cb ≠ 0
  channel : d.channel8 = T.channel
  channel_le : d.channel8 ≤ 14
  length : 1 ≤ d.len
  fits : d.LengthFits
  port : T.port = regBusAddrD d.smiRegs
  coherent : T.fetch ((cbAddress d.cxt d.cb).setWidth 32) = d.block c
  apart : ∀ i < (d.block c).words, d.buffer c i ≠ T.port

variable {T : DmaTrace} {d : DmaCall} {c : DmaCb} {m₀ : Word → Word} {finished : Bool}
  {ctrlBlk : Word}

theorem block_nextCb (d : DmaCall) (c : DmaCb) : (d.block c).nextCb = 0 := by
  unfold block
  cases d.dir <;> rfl

/-- A read takes every word at `SMI_D` and goes up in the buffer, a write the other way round. -/
theorem block_read (hd : d.dir = .read) (c : DmaCb) : (d.block c).ti &&& dmaSrceDreq ≠ 0 ∧
    (∀ i, (d.block c).srcAt i = regBusAddrD d.smiRegs) ∧
    ∀ i, (d.block c).destAt i = d.buffer c i := by
  have hinc : (d.block c).ti &&& dmaCbDestInc ≠ 0 := by
    simp only [block,hd,readCb]
    decide
  have hfixed : (d.block c).ti &&& dmaCbSrceInc = 0 := by
    simp only [block,hd,readCb]
    decide
  refine ⟨?_,fun i => ?_,fun i => ?_⟩
  · simp only [block,hd,readCb]
    decide
  · rw [DmaCb.srcAt,if_neg (not_not.mpr hfixed)]
    simp only [block,hd,readCb]
  · rw [DmaCb.destAt,if_pos hinc]
    simp only [block,hd,readCb,buffer]

theorem block_write (hd : d.dir = .write) (c : DmaCb) : (d.block c).ti &&& dmaDestDreq ≠ 0 ∧
    (∀ i, (d.block c).destAt i = regBusAddrD d.smiRegs) ∧
    ∀ i, (d.block c).srcAt i = d.buffer c i := by
  have hinc : (d.block c).ti &&& dmaCbSrceInc ≠ 0 := by
    simp only [block,hd,writeCb]
    decide
  have hfixed : (d.block c).ti &&& dmaCbDestInc = 0 := by
    simp only [block,hd,writeCb]
    decide
  refine ⟨?_,fun i => ?_,fun i => ?_⟩
  · simp only [block,hd,writeCb]
    decide
  · rw [DmaCb.destAt,if_neg (not_not.mpr hfixed)]
    simp only [block,hd,writeCb]
  · rw [DmaCb.srcAt,if_pos hinc]
    simp only [block,hd,writeCb,buffer]

theorem Suited.carries (h : d.Suited T c) : Carries T (d.block c) (d.Carried T c m₀) := by
  have hapart := h.apart
  unfold Carried
  cases hd : d.dir with
  | read =>
    obtain ⟨hpace,hsrc,hdest⟩ := block_read hd c
    rw [← h.port] at hsrc
    exact carries_filled hpace hsrc fun i hi => by
      rw [hdest]
      exact hapart i hi
  | write =>
    obtain ⟨hpace,hdest,hsrc⟩ := block_write hd c
    rw [← h.port] at hdest
    exact carries_emptied hpace hdest fun i hi => by
      rw [hsrc]
      exact hapart i hi

theorem carried_clear (T : DmaTrace) (d : DmaCall) (c : DmaCb) (x : BusData) (h : x.mem = m₀) :
    d.Carried T c m₀ 0 x.clear := by
  unfold Carried
  cases d.dir with
  | read => exact ⟨Nat.zero_le _,rfl,h,rfl⟩
  | write => exact ⟨h,rfl,rfl,Nat.zero_le _⟩

theorem Suited.words_pos (h : d.Suited T c) : 0 < (d.block c).words := by
  have hwords : (d.block c).words = _ := block_words h.fits c
  have hlen := h.length
  rw [hwords]
  cases d.dir with
  | read =>
    rw [PackRatio.words,Nat.pos_iff_ne_zero,ne_eq]
    intro hz
    have hle := (ceilDiv_le_iff_le_mul (outPixels_pos d.cxt)).mp (le_of_eq hz)
    have hpos : 0 < d.len.toNat*(packedRatio d.cxt).read :=
      Nat.mul_pos (by omega) (read_pos d.cxt)
    omega
  | write =>
    show 0 < d.len.toNat
    omega

theorem Suited.run_waited {w : World (ℕ × DmaSys)} (h : d.Suited T w.cb)
    (hrest : AtRest (fun x => x.mem = m₀) finished ctrlBlk w.dev.2) (fuel : ℕ) :
    Post (d.run T.env fuel) w
      (fun r w' => DmaWaited T (d.block w.cb) (d.Carried T w.cb m₀) r w'.dev.2)
      (fun w' => Phase (d.block w.cb) (d.Carried T w.cb m₀) w'.dev.2) := by
  have hbegun := begun_atRest (d := d) h.carries (carried_clear T d w.cb) hrest
  have hwaiting := waiting_phase h.carries (block_nextCb d w.cb) h.words_pos h.address h.channel
    h.channel_le h.coherent hbegun
  simp only [Post,run_eq h.nonnull]
  exact smiDmaAwait_waited h.carries (block_nextCb d w.cb) fuel hwaiting

end DmaCall

end RpiSmi
