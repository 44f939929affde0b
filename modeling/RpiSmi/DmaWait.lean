import RpiSmi.DmaCalls

/-!
# The DMA wait

`DmaWait` is the engine's and the clock's side of `smi_dma_await`, which polls
the status of channel 0 whatever channel the transfer uses.
-/

namespace RpiSmi

open Exec BitField

variable {σ : Type}

def Logged (Q : Event → Prop) (w w' : World σ) : Prop :=
  ∃ l, w'.log = w.log ++ l ∧ ∀ e ∈ l, Q e

instance (Q : Event → Prop) : IsPreorder (World σ) (Logged Q) where
  refl _ := ⟨[],by simp,by simp⟩
  trans := by
    rintro w v u ⟨l,hl,hq⟩ ⟨l',hl',hq'⟩
    refine ⟨l ++ l',by rw [hl',hl,List.append_assoc],fun e he => ?_⟩
    rcases List.mem_append.mp he with he | he
    · exact hq e he
    · exact hq' e he

section Logged

variable {Q Q' : Event → Prop} {w w' : World σ}

theorem Logged.mono (h : Logged Q w w') (hq : ∀ e, Q e → Q' e) : Logged Q' w w' := by
  obtain ⟨l,hl,he⟩ := h
  exact ⟨l,hl,fun e hm => hq e (he e hm)⟩

theorem Logged.log_eq (h : Logged Q w w') (hw : w.log = []) : ∀ e ∈ w'.log, Q e := by
  obtain ⟨l,hl,hq⟩ := h
  rwa [hl,hw,List.nil_append]

theorem Logged.mem (h : Logged Q w w') {e : Event} (he : e ∈ w.log) : e ∈ w'.log := by
  obtain ⟨l,hl,-⟩ := h
  rw [hl]
  exact List.mem_append_left _ he

theorem logged_event {e : Event} (hl : w'.log = w.log ++ [e]) (hq : Q e) : Logged Q w w' :=
  ⟨[e],hl,by simpa using hq⟩

def Event.IsStep : Event → Prop
  | .write .. | .sync _ | .control _ => False
  | _ => True

theorem logged_stepsIn {env : Env σ} {P : Reg → Prop} (hw : ∀ r v, P r → Q (.write r v))
    (hq : ∀ e, e.IsStep → Q e) : StepsIn env P (fun r _ => P r) (Logged Q) where
  read _ _ := logged_event rfl (hq _ trivial)
  write r v _ hr := logged_event rfl (hw r v hr)
  assign r _ _ w hr := by
    have hread : Logged Q w (w.read env r) := logged_event rfl (hq _ trivial)
    exact trans_of (Logged Q) hread (logged_event rfl (hw r _ hr))
  store _ _ _ := logged_event rfl (hq _ trivial)
  fetch _ _ := logged_event rfl (hq _ trivial)
  report _ _ := logged_event rfl (hq _ trivial)
  clock _ := logged_event rfl (hq _ trivial)

def RegOp.Logs (Q : Event → Prop) : RegOp → Prop
  | .field r f v => ∀ x, Q (.read r x) ∧ Q (.write r (f.set v x))
  | .value r v => Q (.write r v)

theorem logged_apply {env : Env σ} {ops : List RegOp} (h : ∀ op ∈ ops, op.Logs Q) (w : World σ) :
    Logged Q w (w.apply env ops) := by
  induction ops generalizing w with
  | nil => exact refl_of _ w
  | cons op ops ih =>
    have hop := h op (List.mem_cons_self ..)
    have hops := ih fun op' ho => h op' (List.mem_cons_of_mem op ho)
    cases op with
    | field r f v =>
      have hread : Logged Q w (w.read env r) := logged_event rfl (hop _).1
      exact trans_of _ (trans_of _ hread (logged_event rfl (hop _).2)) (hops _)
    | value r v => exact trans_of _ (logged_event rfl hop) (hops _)

end Logged

/-- From the device state `s` the wait ends: END is read, or it is `late` by the clock. -/
inductive DmaWait (env : Env σ) (deadline : ℤ) : σ → Bool → Prop
  | ended {s : σ} (he : DmaCs.finish.test (env.readReg dmaoCs s).1 = true) :
      DmaWait env deadline s false
  | late {s : σ} (he : DmaCs.finish.test (env.readReg dmaoCs s).1 = false)
      (hx : (env.timeoutComplete deadline (env.readReg dmaoCs s).2).expired = true) :
      DmaWait env deadline s true
  | again {s : σ} {late : Bool} (he : DmaCs.finish.test (env.readReg dmaoCs s).1 = false)
      (hx : (env.timeoutComplete deadline (env.readReg dmaoCs s).2).expired = false)
      (ht : DmaWait env deadline
        (env.timeoutComplete deadline (env.readReg dmaoCs s).2).state late) :
      DmaWait env deadline s late

/-- A wait that begins in `w` ends, by END or `late`. -/
def World.Waits (env : Env σ) (w : World σ) (late : Bool) : Prop :=
  DmaWait env (w.deadline env progReadTimeoutS) (w.clocked env).dev late

def Event.IsPoll : Event → Prop
  | .read r _ => r = dmaoCs
  | .clock _ => True
  | _ => False

def dmaCode (late : Bool) : ℤ := if late then -eTimedOut else 1

def World.dmaEnd (env : Env σ) (late : Bool) (w : World σ) : World σ :=
  if late then (w.report "DMA transfer timeout").assign env dmaoCs DmaCs.abort 1
  else w.read env dmaoCs

section Round

variable {env : Env σ} {deadline : ℤ} {delay : ℕ} {w : World σ}

theorem dmaAwaitRound_ended (he : DmaCs.finish.test (env.readReg dmaoCs w.dev).1 = true) :
    dmaAwaitRound env deadline delay w = (some (.inr 1),w.read env dmaoCs) := by
  have he' : DmaCs.finish.test (w.value env dmaoCs) = true := he
  simp [dmaAwaitRound,bind_apply,he']

theorem dmaAwaitRound_late (he : DmaCs.finish.test (env.readReg dmaoCs w.dev).1 = false)
    (hx : (env.timeoutComplete deadline (env.readReg dmaoCs w.dev).2).expired = true) :
    dmaAwaitRound env deadline delay w = (some (.inr (-eTimedOut)),World.dmaEnd env true
      ((w.read env dmaoCs).after
        (env.timeoutComplete deadline (env.readReg dmaoCs w.dev).2))) := by
  have he' : DmaCs.finish.test (w.value env dmaoCs) = false := he
  simp [dmaAwaitRound,bind_apply,he',hx,World.dmaEnd]

theorem dmaAwaitRound_again (he : DmaCs.finish.test (env.readReg dmaoCs w.dev).1 = false)
    (hx : (env.timeoutComplete deadline (env.readReg dmaoCs w.dev).2).expired = false) :
    dmaAwaitRound env deadline delay w =
      (some (.inl (if delay < 100000 then delay*2 else delay)),(w.read env dmaoCs).after
        (env.timeoutComplete deadline (env.readReg dmaoCs w.dev).2)) := by
  have he' : DmaCs.finish.test (w.value env dmaoCs) = false := he
  simp [dmaAwaitRound,bind_apply,he',hx]

theorem logged_poll (c : Check σ) : Logged Event.IsPoll w ((w.read env dmaoCs).after c) := by
  refine ⟨.read dmaoCs (w.value env dmaoCs)::c.readings.map .clock,?_,fun e he => ?_⟩
  · simp [World.after,World.read]
  · rcases List.mem_cons.mp he with rfl | he
    · rfl
    · obtain ⟨t,-,rfl⟩ := List.mem_map.mp he
      trivial

end Round

/-- How a wait that began in `w` ended: polls up to `u`, then the last steps. -/
def DmaEnded (env : Env σ) (w : World σ) (late : Bool) (u : World σ) : Prop :=
  Logged Event.IsPoll w u ∧ (late = false → DmaCs.finish.test (u.value env dmaoCs) = true)

section Wait

variable {env : Env σ}

/-- Every round keeps to the trace: whatever the rest of the wait meets, the wait met. -/
theorem smiDmaAwait_post (fuel : ℕ) (w : World σ) :
    Post (smiDmaAwait env fuel) w
      (fun code w' => ∃ late u, w.Waits env late ∧ DmaEnded env w late u ∧ code = dmaCode late ∧
        w' = u.dmaEnd env late)
      (Logged Event.IsPoll w) := by
  have hclock : Logged Event.IsPoll w (w.clocked env) := logged_event rfl trivial
  let deadline := w.deadline env progReadTimeoutS
  let I : ℕ → World σ → Prop := fun _ v => Logged Event.IsPoll w v ∧
    ∀ late, DmaWait env deadline v.dev late → w.Waits env late
  show Post (loop (dmaAwaitRound env deadline) fuel 1000) (w.clocked env) _ _
  refine post_loop I (fun _ _ h => h.1) ?_ fuel 1000 (w.clocked env) ⟨hclock,fun _ h => h⟩
  rintro delay v ⟨hlog,hwait⟩
  rcases he : DmaCs.finish.test (env.readReg dmaoCs v.dev).1
  · let look := env.timeoutComplete deadline (env.readReg dmaoCs v.dev).2
    have hlook : Logged Event.IsPoll v ((v.read env dmaoCs).after look) := logged_poll look
    have hpoll := trans_of (Logged Event.IsPoll) hlog hlook
    rcases hx : (env.timeoutComplete deadline (env.readReg dmaoCs v.dev).2).expired
    · exact post_of_run (dmaAwaitRound_again he hx)
        ⟨hpoll,fun late ht => hwait late (.again he hx ht)⟩
    · exact post_of_run (dmaAwaitRound_late he hx)
        ⟨true,_,hwait true (.late he hx),⟨hpoll,by simp⟩,rfl,rfl⟩
  · exact post_of_run (dmaAwaitRound_ended he)
      ⟨false,v,hwait false (.ended he),⟨hlog,fun _ => he⟩,rfl,rfl⟩

theorem dmaLoop_ends {deadline : ℤ} {s : σ} {late : Bool} (h : DmaWait env deadline s late)
    (delay : ℕ) (w : World σ) (hd : w.dev = s) :
    ∃ u, DmaEnded env w late u ∧
      LoopEnds (fun _ => dmaAwaitRound env deadline) delay w (dmaCode late)
        (u.dmaEnd env late) := by
  induction h generalizing delay w with
  | ended he =>
    subst hd
    exact ⟨w,⟨refl_of _ w,fun _ => he⟩,loopEnds_exit (ends_of_run (dmaAwaitRound_ended he))⟩
  | late he hx =>
    subst hd
    exact ⟨_,⟨logged_poll _,by simp⟩,loopEnds_exit (ends_of_run (dmaAwaitRound_late he hx))⟩
  | again he hx _ ih =>
    subst hd
    obtain ⟨u,⟨hlog,hend⟩,hloop⟩ := ih _ ((w.read env dmaoCs).after
      (env.timeoutComplete deadline (env.readReg dmaoCs w.dev).2)) rfl
    exact ⟨u,⟨trans_of _ (logged_poll _) hlog,hend⟩,
      loopEnds_again (ends_of_run (dmaAwaitRound_again he hx)) hloop⟩

theorem smiDmaAwait_ends {w : World σ} {late : Bool} (h : w.Waits env late) :
    ∃ fuel u, DmaEnded env w late u ∧
      smiDmaAwait env fuel w = (some (dmaCode late),u.dmaEnd env late) := by
  obtain ⟨u,⟨hlog,hend⟩,hloop⟩ := dmaLoop_ends h 1000 (w.clocked env) rfl
  obtain ⟨N,hN⟩ := hloop.ends
  exact ⟨N,u,⟨trans_of _ (logged_event (e := .clock _) rfl trivial) hlog,hend⟩,hN N le_rfl⟩

end Wait
end RpiSmi
