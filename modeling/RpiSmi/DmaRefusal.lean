import RpiSmi.DmaChannel

/-!
# Refused DMA transfers

The callers drop what `start_dma` returns and pass it their channel as a byte.
-/

namespace RpiSmi

open Exec BitField

variable {σ : Type}

/-- The DMA block is written only by assignments in a status register that write ACTIVE as read. -/
def LeavesChannels (log : List Event) : Prop :=
  ∀ l₁ off v l₂, log = l₁ ++ .write (.dma off) v::l₂ →
    ∃ c l₀ x, .dma off = dmaCsOffset c ∧ l₁ = l₀ ++ [.read (.dma off) x] ∧
      DmaCs.active.test v = DmaCs.active.test x

/-- The call reports an error, and changes no control block address and no ACTIVE bit. -/
def DmaCall.Reports (env : Env σ) (d : DmaCall) (w : World σ) : Prop :=
  ∀ fuel, (∀ code, (d.run env fuel w.fresh).1 = some code → code < 0) ∧
    LeavesChannels (d.run env fuel w.fresh).2.log

/-- What `start_dma` is to refuse, given the channel as the callers have it. -/
def DmaCall.Refusable (env : Env σ) (d : DmaCall) (w : World σ) : Prop :=
  cbAddress d.cxt d.cb = 0 ∨ ¬ (0 ≤ d.channel ∧ d.channel ≤ 14) ∨
    0 ≤ d.channel ∧ d.channel ≤ 14 ∧ d.Active env w d.channel.toNat

instance (env : Env σ) (d : DmaCall) (w : World σ) : Decidable (d.Refusable env w) :=
  inferInstanceAs (Decidable (_ ∨ _ ∨ _))

theorem leaves_of_unwritten {l : List Event} (h : ∀ e ∈ l, ∀ off v, e ≠ .write (.dma off) v) :
    LeavesChannels l := by
  rintro l₁ off v l₂ rfl
  exact absurd rfl (h (.write (.dma off) v) (by simp) off v)

theorem leaves_assign {l : List Event} (h : ∀ e ∈ l, ∀ off v, e ≠ .write (.dma off) v) (c : ℕ)
    {x y : Word} (ha : DmaCs.active.test y = DmaCs.active.test x) :
    LeavesChannels (l ++ [.read (dmaCsOffset c) x,.write (dmaCsOffset c) y]) := by
  intro l₁ off v l₂ heq
  rcases List.append_eq_append_iff.mp heq with ⟨m,rfl,hm⟩ | ⟨m,rfl,hm⟩
  · rcases m with _ | ⟨e,_ | ⟨e',m⟩⟩
    · cases hm
    · cases hm
      exact ⟨c,l,x,rfl,rfl,ha⟩
    · simp at hm
  · rcases m with _ | ⟨e,m⟩
    · cases hm
    · injection hm with he
      exact absurd he.symm (h e (by simp) off v)

namespace DmaCall

variable {env : Env σ} {d : DmaCall} {w : World σ}

theorem ctrlBlk_mem (hn : ¬ d.HasNull) (hr : ¬ d.Refused env w) (fuel : ℕ) :
    .write (dmaCtrlBlk d.channel8) ((cbAddress d.cxt d.cb).setWidth 32) ∈
      (d.run env fuel w).2.log := by
  have hsteps := logGrows_steps env
  have hrest : ∀ op ∈ d.rest, op.In (fun _ => True) (fun _ _ => True) := fun op ho =>
    setup_in (fun _ _ => trivial) op (List.mem_append_right _ ho)
  have hgrows : LogGrows (d.armed env w) (d.run env fuel w).2 := by
    rw [run_eq hn,waiting,start_started hr]
    exact trans_of LogGrows (hsteps.write _ _ _ trivial) (trans_of LogGrows
      (hsteps.apply hrest _) (keeps_smiDmaAwait hsteps fuel trivial _))
  exact hgrows.mem (by simp [armed,World.read,World.write])

theorem not_leaves_of_started (hn : ¬ d.HasNull) (hr : ¬ d.Refused env w) (fuel : ℕ) :
    ¬ LeavesChannels (d.run env fuel w).2.log := by
  intro h
  obtain ⟨l₁,l₂,heq⟩ := List.append_of_mem (ctrlBlk_mem hn hr fuel)
  obtain ⟨c,-,-,hc,-⟩ := h l₁ _ _ l₂ heq
  exact dmaCtrlBlk_ne _ _ hc

/-- A refused transfer: the abort of channel 0 at most is written, and keeps ACTIVE. -/
theorem leaves_of_refused (hw : w.log = []) (hn : ¬ d.HasNull) (hr : d.Refused env w) (fuel : ℕ) :
    LeavesChannels (d.run env fuel w).2.log := by
  have hbefore := waiting_refused hr
  have hpolls {v : World σ} (h : Logged Event.IsPoll (d.waiting env w) v) :
      ∀ e ∈ v.log, ∀ off x, e ≠ .write (.dma off) x := by
    have hquiet : Logged (fun e => ∀ off x, e ≠ .write (.dma off) x) (d.waiting env w) v := by
      refine h.mono ?_
      rintro e he off x rfl
      exact he
    exact (trans_of (Logged _) hbefore hquiet).log_eq hw
  rcases run_polls hn fuel with hp | ⟨-,u,hp,hrun⟩
  · exact leaves_of_unwritten (hpolls hp)
  · let v := u.report "DMA transfer timeout"
    have hactive : DmaCs.active.test (DmaCs.abort.set 1 (v.value env dmaoCs)) =
        DmaCs.active.test (v.value env dmaoCs) :=
      Field.test_set_of_disjoint (by decide) _ _
    have hlog : (u.dmaEnd env true).log = v.log ++ [.read (dmaCsOffset 0) (v.value env dmaoCs),
        .write (dmaCsOffset 0) (DmaCs.abort.set 1 (v.value env dmaoCs))] := by
      simp [World.dmaEnd,World.assign,World.read,World.write,v,dmaoCs_eq]
    rw [hrun,hlog]
    refine leaves_assign (fun e he => ?_) 0 hactive
    rcases List.mem_append.mp he with he | he
    · exact hpolls hp e he
    · rw [List.mem_singleton.mp he]
      simp

theorem Reports.of_waits (h : d.Reports env w) (hn : ¬ d.HasNull) :
    d.Refused env w.fresh ∧ ∀ late, (d.waiting env w.fresh).Waits env late → late = true := by
  refine ⟨by_contra fun hr => not_leaves_of_started hn hr 0 (h 0).2,fun late hwait => ?_⟩
  obtain ⟨fuel,u,-,hrun⟩ := smiDmaAwait_ends hwait
  have hcode := (h fuel).1 (dmaCode late) (by rw [run_eq hn,hrun])
  cases late with
  | false => exact absurd hcode (by decide)
  | true => rfl

theorem reports_of_null (hn : d.HasNull) : d.Reports env w := by
  intro fuel
  rw [run_null hn]
  refine ⟨fun code h => ?_,leaves_of_unwritten fun e he => by cases he⟩
  cases h
  decide

theorem reports_of_refused (hn : ¬ d.HasNull) (hr : d.Refused env w.fresh)
    (h : ∀ late, (d.waiting env w.fresh).Waits env late → late = true) : d.Reports env w := by
  refine fun fuel => ⟨fun code hcode => ?_,leaves_of_refused rfl hn hr fuel⟩
  obtain ⟨late,u,hwait,-,rfl,-⟩ := run_returns hn hcode
  rw [h late hwait]
  decide

theorem channel8_of_range (h : 0 ≤ d.channel ∧ d.channel ≤ 14) : d.channel8 = d.channel.toNat := by
  rw [channel8,BitVec.toNat_ofInt]
  omega

theorem refused_iff (h : d.Refusable env w) :
    d.Refused env w ↔ cbAddress d.cxt d.cb = 0 ∨ (0 ≤ d.channel ∧ d.channel ≤ 14) ∨
      14 < d.channel8 ∨ d.Active env w d.channel8 := by
  by_cases hrange : 0 ≤ d.channel ∧ d.channel ≤ 14
  · have hchannel := channel8_of_range hrange
    simp only [hrange,and_self,true_or,or_true,iff_true]
    rcases h with hcb | hout | ⟨-,-,hactive⟩
    · exact .inl hcb
    · exact absurd hrange hout
    · rw [← hchannel] at hactive
      exact .inr (.inr hactive)
  · rw [Refused,or_iff_right hrange]

/-- A refusal is reported when the channel is refused as a byte too, and the wait does not find
END. -/
theorem reports_iff (w : World σ) (h : d.Refusable env w.fresh) :
    d.Reports env w ↔ d.HasNull ∨ (cbAddress d.cxt d.cb = 0 ∨ (0 ≤ d.channel ∧ d.channel ≤ 14) ∨
      14 < d.channel8 ∨ d.Active env w.fresh d.channel8) ∧
        ∀ late, (d.waiting env w.fresh).Waits env late → late = true := by
  rw [← refused_iff h]
  by_cases hn : d.HasNull
  · exact iff_of_true (reports_of_null hn) (.inl hn)
  · rw [or_iff_right hn]
    exact ⟨fun h => h.of_waits hn,fun ⟨hr,hwait⟩ => reports_of_refused hn hr hwait⟩

theorem reports_iff_range : (readOn 20).Refusable storageEnv (World.init fun _ => 0).fresh ∧
    ((readOn 20).Reports storageEnv (World.init fun _ => 0) ↔ (readOn 20).HasNull ∨
      (cbAddress (readOn 20).cxt (readOn 20).cb = 0 ∨
        (0 ≤ (readOn 20).channel ∧ (readOn 20).channel ≤ 14) ∨ 14 < (readOn 20).channel8 ∨
          (readOn 20).Active storageEnv (World.init fun _ => 0).fresh (readOn 20).channel8) ∧
        ∀ late, ((readOn 20).waiting storageEnv (World.init fun _ => 0).fresh).Waits storageEnv
          late → late = true) :=
  ⟨.inr (.inl (by decide)),reports_iff _ (.inr (.inl (by decide)))⟩

/-- Channel 20 is refused, and END of channel 0 makes it a success. -/
theorem reports_not : ¬ ∀ (d : DmaCall) (w : World RegFile),
    d.Refusable storageEnv w.fresh → d.Reports storageEnv w := by
  intro h
  have hwait : ((readOn 20).waiting storageEnv (World.init fun _ => 0).fresh).Waits storageEnv
      false := .ended rfl
  have hlate := ((h (readOn 20) (World.init fun _ => 0) (.inr (.inl (by decide)))).of_waits
    (by decide)).2 false hwait
  cases hlate

end DmaCall
end RpiSmi
