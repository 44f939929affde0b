import RpiSmi.DmaStart
import RpiSmi.RegisterFile

/-!
# The channel of a DMA call

`start_dma` uses the channel that it is given, the wait always channel 0.
-/

namespace RpiSmi

open Exec BitField

variable {σ : Type}

def Reg.InChannel (c : ℕ) : Reg → Prop
  | .smi _ => True
  | .dma off => off/0x100 = c

/-- After ACTIVE of channel `c` was set, END of channel `c` was read. -/
def EndSeen (c : ℕ) (log : List Event) : Prop :=
  ∃ l l', log = l ++ l' ∧ (∃ v, .write (dmaCsOffset c) v ∈ l ∧ DmaCs.active.test v = true) ∧
    ∃ v, .read (dmaCsOffset c) v ∈ l' ∧ DmaCs.finish.test v = true

/-- The call succeeds only by END of its own channel, and writes to no other channel. -/
def DmaCall.Consistent (env : Env σ) (d : DmaCall) (w : World σ) : Prop :=
  ∀ fuel, (∀ code, (d.run env fuel w.fresh).1 = some code → 0 ≤ code →
      EndSeen d.channel.toNat (d.run env fuel w.fresh).2.log) ∧
    ∀ r v, .write r v ∈ (d.run env fuel w.fresh).2.log → r.InChannel d.channel.toNat

theorem not_endSeen_of_unwritten {c : ℕ} {log : List Event}
    (h : ∀ v, .write (dmaCsOffset c) v ∉ log) : ¬ EndSeen c log := by
  rintro ⟨l,l',rfl,⟨v,hv,-⟩,-⟩
  exact h v (List.mem_append_left _ hv)

/-- The only write to the status of channel `c` comes after every read of it. -/
theorem not_endSeen_of_unread {c : ℕ} {e : Event} {l₁ l₂ : List Event}
    (h₁ : ∀ v, .write (dmaCsOffset c) v ∉ l₁) (h₂ : ∀ v, .read (dmaCsOffset c) v ∉ l₂) :
    ¬ EndSeen c (l₁ ++ e::l₂) := by
  rintro ⟨l,l',heq,⟨v,hv,-⟩,v',hv',-⟩
  rcases List.append_eq_append_iff.mp heq with ⟨m,rfl,hm⟩ | ⟨m,rfl,-⟩
  · cases m with
    | nil =>
      rw [List.append_nil] at hv
      exact h₁ v hv
    | cons e' m =>
      rw [List.cons_append,List.cons.injEq] at hm
      rw [hm.2] at h₂
      exact h₂ v' (List.mem_append_right _ hv')
  · exact h₁ v (List.mem_append_left _ hv)

theorem dmaCsOffset_inj {c n : ℕ} : dmaCsOffset c = dmaCsOffset n ↔ c = n := by
  simp [dmaCsOffset]

theorem dmaCtrlBlk_ne (c n : ℕ) : dmaCtrlBlk c ≠ dmaCsOffset n := by
  simp [dmaCtrlBlk,dmaCsOffset]
  omega

theorem dmaoCs_eq : dmaoCs = dmaCsOffset 0 := rfl

namespace DmaCall

variable {env : Env σ} {d : DmaCall} {w : World σ}

theorem channel8_eq {c : Fin 15} (hc : d.channel = (c : ℕ)) : d.channel8 = c := by
  have hlt := c.isLt
  rw [channel8,hc,BitVec.toNat_ofInt]
  omega

theorem waiting_inChannel (env : Env σ) (d : DmaCall) (w : World σ) :
    Logged (fun e => ∀ r v, e = .write r v → r.InChannel d.channel8) w (d.waiting env w) := by
  have hq : ∀ e : Event, e.IsStep → ∀ r v, e = .write r v → r.InChannel d.channel8 := by
    rintro e he r v rfl
    exact absurd he id
  refine logged_waiting hq (by simp) (by simp) (setup_logs hq ?_) fun _ => ⟨?_,?_⟩
  · rintro off x r v he
    cases he
    trivial
  · rintro r v he
    cases he
    show (d.channel8*0x100+0x04)/0x100 = d.channel8
    omega
  · rintro x r v he
    cases he
    show d.channel8*0x100/0x100 = d.channel8
    omega

theorem unwritten_of_step {r : Reg} (e : Event) (he : e.IsStep) (v : Word) : e ≠ .write r v := by
  rintro rfl
  exact he

theorem waiting_refused (h : d.Refused env w) :
    Logged (fun e => ∀ off v, e ≠ .write (.dma off) v) w (d.waiting env w) := by
  have hq : ∀ e : Event, e.IsStep → ∀ off v, e ≠ .write (.dma off) v :=
    fun e he off v => unwritten_of_step e he v
  exact logged_waiting hq (by simp) (by simp) (setup_logs hq (by simp)) fun hr => absurd h hr

theorem armed_logged (env : Env σ) (d : DmaCall) (w : World σ) :
    Logged (fun e => ∀ v, e ≠ .write (dmaCsOffset d.channel8) v) w (d.armed env w) := by
  let Q : Event → Prop := fun e => ∀ v, e ≠ .write (dmaCsOffset d.channel8) v
  have hq : ∀ e : Event, e.IsStep → Q e := fun e he v => unwritten_of_step e he v
  have hread (v : World σ) : Logged Q v (v.read env (dmaCsOffset d.channel8)) :=
    logged_event (e := .read _ _) rfl (hq _ trivial)
  have hbegun : Logged Q w (d.begun env w) :=
    logged_begun hq (by simp [Q]) fun op ho =>
      setup_logs hq (by simp [Q,dmaCsOffset]) op (List.mem_append_left _ ho)
  refine trans_of _ (trans_of _ hbegun (logged_synced (by simp [Q]))) ?_
  refine trans_of _ (hread _) (trans_of _ (logged_event (e := .write _ _) rfl ?_) (hread _))
  simp [Q,dmaCtrlBlk_ne]

theorem rest_logged (env : Env σ) (d : DmaCall) (v : World σ) :
    Logged (fun e => ∀ off u, e ≠ .read (.dma off) u) v (v.apply env d.rest) := by
  unfold rest
  cases d.dir with
  | read =>
    have hread : Logged (fun e => ∀ off u, e ≠ .read (.dma off) u) v (v.read env smioCs) :=
      logged_event (e := .read smioCs _) rfl (by simp [smioCs])
    exact trans_of _ hread (logged_event (e := .write smioCs _) rfl (by simp))
  | write => exact refl_of _ v

theorem waiting_started (h : ¬ d.Refused env w) :
    ∃ l₁ l₂, (d.waiting env w).log =
        w.log ++ l₁ ++ .write (dmaCsOffset d.channel8) (d.activeWord env w)::l₂ ∧
      (∀ v, .write (dmaCsOffset d.channel8) v ∉ l₁) ∧ ∀ off v, .read (.dma off) v ∉ l₂ := by
  obtain ⟨l₁,hl₁,hq₁⟩ := armed_logged env d w
  obtain ⟨l₂,hl₂,hq₂⟩ := rest_logged env d
    ((d.armed env w).write env (dmaCsOffset d.channel8) (d.activeWord env w))
  refine ⟨l₁,l₂,?_,fun v hv => hq₁ _ hv v rfl,fun off v hv => hq₂ _ hv off v rfl⟩
  rw [waiting,start_started h,hl₂,World.write,hl₁]
  simp

theorem test_activeWord : DmaCs.active.test (d.activeWord env w) = true :=
  DmaCs.active.test_set_one (by decide) _

theorem log_ended {v u : World σ} (h : DmaEnded env v false u) :
    ∃ l, (u.dmaEnd env false).log = v.log ++ l ∧ (∀ e ∈ l, e.IsPoll) ∧
      ∃ x, .read dmaoCs x ∈ l ∧ DmaCs.finish.test x = true := by
  obtain ⟨⟨l,hl,hq⟩,hend⟩ := h
  refine ⟨l ++ [.read dmaoCs (u.value env dmaoCs)],?_,?_,_,by simp,hend rfl⟩
  · simp [World.dmaEnd,World.read,hl]
  · intro e he
    rcases List.mem_append.mp he with he | he
    · exact hq e he
    · rw [List.mem_singleton.mp he]
      rfl

theorem run_polls (hn : ¬ d.HasNull) (fuel : ℕ) :
    Logged Event.IsPoll (d.waiting env w) (d.run env fuel w).2 ∨
      (d.waiting env w).Waits env true ∧ ∃ u, Logged Event.IsPoll (d.waiting env w) u ∧
        (d.run env fuel w).2 = u.dmaEnd env true := by
  rcases hcode : (d.run env fuel w).1 with _ | code
  · exact .inl (run_pending hn hcode)
  obtain ⟨late,u,hwait,hend,-,hrun⟩ := run_returns hn hcode
  cases late with
  | false =>
    obtain ⟨l,hl,hq,-⟩ := log_ended hend
    rw [hrun]
    exact .inl ⟨l,hl,hq⟩
  | true => exact .inr ⟨hwait,u,hend.1,hrun⟩

theorem not_poll_write {l : List Event} (hl : ∀ e ∈ l, e.IsPoll) (r : Reg) (v : Word) :
    .write r v ∉ l := fun hm => hl _ hm

/-- A call that returns on END has seen that of its own channel if that is channel 0 and
`start_dma` started the transfer. -/
theorem endSeen_iff {c : Fin 15} (hc : d.channel = (c : ℕ)) (hw : w.log = []) {u : World σ}
    (h : DmaEnded env (d.waiting env w) false u) :
    EndSeen c (u.dmaEnd env false).log ↔ (c : ℕ) = 0 ∧ ¬ d.Refused env w := by
  obtain ⟨l,hlog,hpoll,x,hx,hfinish⟩ := log_ended h
  by_cases hr : d.Refused env w
  · have hnone := (waiting_refused hr).log_eq hw
    refine iff_of_false (not_endSeen_of_unwritten fun v hv => ?_) fun h' => h'.2 hr
    rw [hlog] at hv
    rcases List.mem_append.mp hv with hv | hv
    · exact hnone _ hv _ v rfl
    · exact not_poll_write hpoll _ v hv
  obtain ⟨l₁,l₂,hstart,hl₁,hl₂⟩ := waiting_started hr
  rw [hw,List.nil_append,channel8_eq hc] at hstart
  rw [channel8_eq hc] at hl₁
  by_cases h0 : (c : ℕ) = 0
  · refine iff_of_true ⟨_,l,hlog,⟨d.activeWord env w,?_,test_activeWord⟩,x,?_,hfinish⟩ ⟨h0,hr⟩
    · rw [hstart]
      simp
    · rwa [h0]
  · refine iff_of_false ?_ fun h' => h0 h'.1
    rw [hlog,hstart,List.append_assoc,List.cons_append]
    refine not_endSeen_of_unread hl₁ fun v hv => ?_
    rcases List.mem_append.mp hv with hv | hv
    · exact hl₂ _ v hv
    · exact h0 (dmaCsOffset_inj.mp (hpoll _ hv))

theorem run_inChannel {c : Fin 15} (hc : d.channel = (c : ℕ)) (hw : w.log = []) (hn : ¬ d.HasNull)
    (h : (c : ℕ) = 0 ∨ ¬ (d.waiting env w).Waits env true) (fuel : ℕ) {r : Reg} {v : Word}
    (hv : .write r v ∈ (d.run env fuel w).2.log) : r.InChannel c := by
  have hbefore := (waiting_inChannel env d w).log_eq hw
  rw [channel8_eq hc] at hbefore
  have hpolls {v' : World σ} (hp : Logged Event.IsPoll (d.waiting env w) v') {r : Reg} {v : Word}
      (hm : .write r v ∈ v'.log) : r.InChannel c := by
    obtain ⟨l,hl,hq⟩ := hp
    rw [hl] at hm
    rcases List.mem_append.mp hm with hm | hm
    · exact hbefore _ hm r v rfl
    · exact absurd hm (not_poll_write hq r v)
  rcases run_polls hn fuel with hp | ⟨hwait,u,hp,hrun⟩
  · exact hpolls hp hv
  · have h0 := h.resolve_right (not_not.mpr hwait)
    rw [hrun] at hv
    simp only [World.dmaEnd,World.assign,World.read,World.write,World.report,if_true,
      List.mem_append,List.mem_singleton,reduceCtorEq,or_false] at hv
    rcases hv with hv | hv
    · exact hpolls hp hv
    · cases hv
      exact h0.symm

/-- A wait that ends must be that of channel 0, and must not be ended by a stale END. -/
theorem Consistent.of_waits {c : Fin 15} (hc : d.channel = (c : ℕ)) (h : d.Consistent env w)
    (hn : ¬ d.HasNull) {late : Bool} (hwait : (d.waiting env w.fresh).Waits env late) :
    (c : ℕ) = 0 ∧ (late = true ∨ ¬ d.Refused env w.fresh) := by
  have hnat : d.channel.toNat = c := by rw [hc,Int.toNat_natCast]
  obtain ⟨fuel,u,hend,hrun⟩ := smiDmaAwait_ends hwait
  obtain ⟨hsuccess,hwrites⟩ := h fuel
  rw [run_eq hn,hrun,hnat] at hsuccess hwrites
  cases late with
  | false =>
    have hseen := (endSeen_iff hc rfl hend).mp (hsuccess 1 rfl (by decide))
    exact ⟨hseen.1,.inr hseen.2⟩
  | true =>
    have habort := hwrites dmaoCs (DmaCs.abort.set 1
      ((u.report "DMA transfer timeout").value env dmaoCs))
      (by simp [World.dmaEnd,World.assign,World.write])
    exact ⟨habort.symm,.inl rfl⟩

theorem consistent_of_null (hn : d.HasNull) : d.Consistent env w := by
  intro fuel
  rw [run_null hn]
  refine ⟨fun code h hle => ?_,fun r v hv => by cases hv⟩
  cases h
  exact absurd hle (by decide)

/-- The call keeps to its channel when the wait never ends, or when the channel is 0 and END was
not left over from before. -/
theorem consistent_iff {c : Fin 15} (hc : d.channel = (c : ℕ)) (w : World σ) :
    d.Consistent env w ↔ d.HasNull ∨ ∀ late, (d.waiting env w.fresh).Waits env late →
      (c : ℕ) = 0 ∧ (late = true ∨ ¬ d.Refused env w.fresh) := by
  by_cases hn : d.HasNull
  · exact iff_of_true (consistent_of_null hn) (.inl hn)
  rw [or_iff_right hn]
  refine ⟨fun h late hwait => h.of_waits hc hn hwait,fun h fuel => ?_⟩
  have hnat : d.channel.toNat = c := by rw [hc,Int.toNat_natCast]
  rw [hnat]
  refine ⟨fun code hcode hle => ?_,fun r v hv => ?_⟩
  · obtain ⟨late,u,hwait,hend,rfl,hrun⟩ := run_returns hn hcode
    cases late with
    | false =>
      obtain ⟨h0,hr⟩ := h false hwait
      rw [hrun]
      exact (endSeen_iff hc rfl hend).mpr ⟨h0,hr.resolve_left (by decide)⟩
    | true => exact absurd hle (by decide)
  · refine run_inChannel hc rfl hn (or_iff_not_imp_right.mpr fun hwait => ?_) fuel hv
    exact (h true (not_not.mp hwait)).1

def readOn (n : ℤ) : DmaCall := ⟨.read,deviceCxt 0 false false false,64,0,1,n⟩

theorem consistent_iff_first : (readOn 0).channel = ((0 : Fin 15) : ℕ) ∧
    ((readOn 0).Consistent storageEnv (World.init fun _ => 0) ↔ (readOn 0).HasNull ∨
      ∀ late, ((readOn 0).waiting storageEnv (World.init fun _ => 0).fresh).Waits storageEnv late →
        ((0 : Fin 15) : ℕ) = 0 ∧
          (late = true ∨ ¬ (readOn 0).Refused storageEnv (World.init fun _ => 0).fresh)) :=
  ⟨rfl,consistent_iff rfl _⟩

/-- END of channel 0, set from before, ends the wait for channel 5 at once. -/
theorem consistent_not : ¬ ∀ (c : Fin 15) (d : DmaCall) (w : World RegFile),
    d.channel = (c : ℕ) → d.Consistent storageEnv w := by
  intro h
  have hwait : ((readOn 5).waiting storageEnv (World.init fun _ => 0).fresh).Waits storageEnv
      false := .ended rfl
  have h0 := ((h 5 (readOn 5) (World.init fun _ => 0) rfl).of_waits (c := 5) rfl (by decide)
    hwait).1
  revert h0
  decide

end DmaCall
end RpiSmi
