import RpiSmi.ProgrammedRead

/-!
# What whole calls keep

`StepsIn` covers the steps of the FIFO waits. A call also stores for its
caller, grows the raw buffer, fills the control block and writes sync files.
-/

namespace RpiSmi

open Exec BitField Elements

variable {σ : Type}

structure CallSteps (env : Env σ) (S : Reg → Prop) (A : Reg → Field 32 → Prop)
    (R : World σ → World σ → Prop) : Prop extends StepsIn env S A R where
  storeTo (p : Ptr) (i : ℕ) (v : Word) (w : World σ) : R w (w.store p i v)
  output (m : Bytes) (w : World σ) : R w { w with retData := m }
  realloc (bytes : ℕ) (b : RawBuf) (w : World σ) :
    R w { w with dev := (env.realloc bytes w.dev).2, rawBuffer := b }
  sync (fd : ℤ) (w : World σ) : R w (w.synced env fd)
  control (c : DmaCb) (w : World σ) : R w (w.withCb c)

structure DirectIn (S : Reg → Prop) (A : Reg → Field 32 → Prop) : Prop where
  dcs : ∀ f ∈ [SmiDcs.start,SmiDcs.done,SmiDcs.write], A smioDcs f
  addr : A smioDa SmiDa.addr
  data : S smioDd

section Keeps

variable {env : Env σ} {S : Reg → Prop} {A : Reg → Field 32 → Prop}
  {R : World σ → World σ → Prop} [IsPreorder (World σ) R] (h : CallSteps env S A R)
  (fuel : ℕ) (len increment : ℤ) (addr : BitVec 8) (cxt : SmiCxt)

include h

theorem keeps_ratioWorld (w : World σ) : R w (ratioWorld cxt w) := by
  unfold ratioWorld
  split
  · exact h.report _ w
  · exact refl_of R w

theorem keeps_growRawBuffer (words : ℤ) : Keeps R (growRawBuffer env words) := by
  intro w
  simp only [growRawBuffer]
  split_ifs
  · split
    case h_1 junk s hr =>
      have hgrown := h.realloc (sizeT words*4%2^64)
        (w.rawBuffer.resize (sizeT words) (sizeT words*4%2^64) junk) w
      rwa [hr] at hgrown
    case h_2 s hr =>
      have hfailed := h.realloc (sizeT words*4%2^64) w.rawBuffer w
      rw [hr] at hfailed
      exact trans_of R hfailed (h.report _ _)
  · exact refl_of R w

omit [IsPreorder (World σ) R] in
theorem keeps_decodeRaw (words count : ℤ) : Keeps R (decodeRaw cxt words count : Drv σ Unit) := by
  intro w
  rcases hw : Width.ofCode cxt.rwidth with _ | width <;> rcases hp : cxt.pxldata with _ | _ <;>
    simp only [decodeRaw,smiUnpack,smiTruncate,hw,hp]
  · exact h.report _ w
  · exact h.report _ w
  · exact h.output _ w
  · exact h.output _ w

theorem keeps_syncForCpu (fd : ℤ) : Keeps R (syncForCpu env fd) := by
  intro w
  show R w (if env.arm64 then w.synced env fd else w)
  split_ifs
  · exact h.sync fd w
  · exact refl_of R w

theorem keeps_startDma (cb : BitVec 64) (channel : BitVec 8) (fd : ℤ)
    (hcb : S (dmaCtrlBlk channel.toNat))
    (hcs : A (dmaCsOffset channel.toNat) DmaCs.active) :
    Keeps R (startDma env cb channel fd) := by
  have hactive : Keeps R (setField env (dmaCsOffset channel.toNat) DmaCs.active 1) :=
    fun w => h.assign _ _ _ w hcs
  have hstart : Keeps R (writeReg env (dmaCtrlBlk channel.toNat) (cb.setWidth 32) >>= fun _ =>
      setField env (dmaCsOffset channel.toNat) DmaCs.active 1 >>= fun _ => pure (0 : ℤ)) :=
    keeps_bind (fun w => h.write _ _ w hcb) fun _ => keeps_then_pure hactive _
  have hmsg (msg : String) : Keeps R (error msg : Drv σ Unit) := h.report msg
  have hrefuse (msg : String) : Keeps R (error msg >>= fun _ => pure (-1 : ℤ)) :=
    keeps_then_pure (hmsg msg) _
  refine keeps_ite (hrefuse _) (keeps_ite (hrefuse _) ?_)
  refine keeps_bind (keeps_syncForCpu h fd) fun _ => ?_
  exact keeps_bind (h.read _) fun _ => keeps_ite (hrefuse _) hstart

variable (hcs : ∀ f ∈ waitFlags, A smioCs f) (hd : DirectIn S A)

include hcs hd

theorem keeps_doneRound {expired : ℕ → Drv σ Bool} (hx : ∀ n, Keeps R (expired n)) (next : ℕ → ℕ)
    (msg : String) (code : ℤ) (spin : ℕ) : Keeps R (doneRound env expired next msg code spin) := by
  have hclear : Keeps R (setField env smioCs SmiCs.clear 1) :=
    fun w => h.assign _ _ _ w (hcs _ (by simp [waitFlags]))
  have hdone : Keeps R (setField env smioDcs SmiDcs.done 1) :=
    fun w => h.assign _ _ _ w (hd.dcs _ (by simp))
  refine keeps_bind (h.read _) fun _ => keeps_ite (keeps_pure _) ?_
  refine keeps_bind (hx _) fun _ => keeps_ite ?_ (keeps_pure _)
  refine keeps_bind (h.report _) fun _ => ?_
  refine keeps_bind hclear fun _ => ?_
  exact keeps_then_pure hdone _

omit hcs in
theorem keeps_stepAddr (a : BitVec 8) : Keeps R (stepAddr env increment a) := by
  have hmove (b : BitVec 8) : Keeps R (setField env smioDa SmiDa.addr b.toNat >>= fun _ =>
      pure b) := keeps_then_pure (fun w => h.assign _ _ _ w hd.addr) _
  exact keeps_ite (hmove _) (keeps_ite (hmove _) (keeps_pure _))

theorem keeps_readDirectRound (p : Ptr) (deadline : ℤ) (s : Direct) :
    Keeps R (readDirectRound env fuel p len increment deadline s) := by
  have hdcs (f : Field 32) (hf : f ∈ [SmiDcs.start,SmiDcs.done,SmiDcs.write]) :
      Keeps R (setField env smioDcs f 1) := fun w => h.assign _ _ _ w (hd.dcs f hf)
  refine keeps_ite (keeps_pure _) (keeps_bind (hdcs _ (by simp)) fun _ => ?_)
  refine keeps_bind (keeps_loop (keeps_doneRound h hcs hd (h.spinExpired _) _ _ _) _ _) ?_
  rintro (code | spin)
  · exact keeps_pure _
  · refine keeps_bind (h.read _) fun _ => ?_
    refine keeps_bind (h.storeTo _ _ _) fun _ => ?_
    refine keeps_bind (hdcs _ (by simp)) fun _ => ?_
    exact keeps_then_pure (keeps_stepAddr h increment hd s.addr) _

theorem keeps_smiReadAwaitDirect (p : Ptr) :
    Keeps R (smiReadAwaitDirect env fuel p addr len increment) := by
  refine keeps_ite (keeps_pure _) (keeps_bind (fun w => h.assign _ _ _ w (hd.dcs _ (by simp))) ?_)
  refine fun _ => keeps_bind (fun w => h.assign _ _ _ w hd.addr) fun _ => ?_
  exact keeps_bind (h.startTimeout _) fun deadline =>
    keeps_loop (keeps_readDirectRound h fuel len increment hcs hd p deadline) _ _

theorem keeps_writeDirectRound (wait : DirectWait σ) (hx : ∀ d n, Keeps R (wait.expired d n))
    (data : ℕ → Word) (deadline : ℤ) (s : Direct) :
    Keeps R (writeDirectRound env fuel wait data len increment deadline s) := by
  refine keeps_ite (keeps_pure _) (keeps_bind (h.fetch _) fun v => ?_)
  refine keeps_bind (fun w => h.write _ v w hd.data) fun _ => ?_
  refine keeps_bind (fun w => h.assign _ _ _ w (hd.dcs _ (by simp))) fun _ => ?_
  refine keeps_bind (keeps_loop (keeps_doneRound h hcs hd (hx deadline) _ _ _) _ _) ?_
  rintro (code | spin)
  · exact keeps_pure _
  · exact keeps_then_pure (keeps_stepAddr h increment hd s.addr) _

theorem keeps_smiWriteAwaitDirect (data : Option (ℕ → Word)) :
    Keeps R (smiWriteAwaitDirect env fuel data addr len increment) := by
  cases data with
  | none => exact keeps_pure _
  | some data =>
    refine keeps_bind (h.startTimeout _) fun deadline => ?_
    refine keeps_bind (fun w => h.assign _ _ _ w (hd.dcs _ (by simp))) fun _ => ?_
    exact keeps_loop
      (keeps_writeDirectRound h fuel len increment hcs hd (directWait env) h.spinExpired data
        deadline) _ _

end Keeps
end RpiSmi
