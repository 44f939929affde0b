import RpiSmi.WriteAwait

/-!
# What a programmed write returns

`WriteTrace` is what `smi_write_await` can meet, with the exit it takes. A count
that is not negative should say that all words went out, but two exits return
one all the same: DONE seen before the last word is pushed, and AFERR, which the
wait reports on stderr before it returns its count.
-/

namespace RpiSmi

open Exec

variable {σ : Type}

def aferrMessage : String := "Protected registers written to during write"

/-- All words pushed, DONE seen last, and AFERR not found. -/
structure WriteComplete (data : ℕ → Word) (len : ℕ) (w : World σ) : Prop where
  pushed : (List.range len).map data <+: w.view (Event.writeTo? smioD)
  done : ∃ v, SmiCs.done.test v = true ∧ w.log.getLast? = some (.read smioCs v)
  aferr : aferrMessage ∉ w.messages

/-- What a round does with the room it has found, by the guard `count < len + 1`. -/
def Env.pushed (env : Env σ) (data : ℕ → Word) (len k : ℕ) (s : σ) : ℕ × σ :=
  if k < len+1 then (k+1,env.writeReg smioD (data k) s) else (k,s)

inductive WriteExit
  | done (count : ℕ)
  | aferr (count : ℕ)
  | late
  deriving DecidableEq, Repr

def WriteExit.code : WriteExit → ℤ
  | .done count => count
  | .aferr count => count
  | .late => smiErrTimeout

/-- A count is returned although something is amiss. -/
def WriteExit.Misreports (len : ℕ) : WriteExit → Prop
  | .done count => count < len
  | .aferr _ => True
  | .late => False

inductive NoRoom (env : Env σ) (deadline : ℤ) : ℕ → σ → Prop
  | now {spin : ℕ} {s : σ} (hp : env.flag SmiCs.txd s = false)
      (hx : (env.spinExpired deadline spin (env.polled s)).expired = true) :
      NoRoom env deadline spin s
  | later {spin : ℕ} {s : σ} (hp : env.flag SmiCs.txd s = false)
      (hx : (env.spinExpired deadline spin (env.polled s)).expired = false)
      (h : NoRoom env deadline (spin+1) (env.spinExpired deadline spin (env.polled s)).state) :
      NoRoom env deadline spin s

/-- What the wait meets from the count `k` on, and where it leaves. -/
inductive WriteTrace (env : Env σ) (deadline : ℤ) (data : ℕ → Word) (len : ℕ) :
    ℕ → ℕ → σ → WriteExit → Prop
  | done {k spin : ℕ} {s : σ} (hd : env.flag SmiCs.done s = true) :
      WriteTrace env deadline data len k spin s (.done k)
  | noRoom {k spin : ℕ} {s : σ} (hd : env.flag SmiCs.done s = false)
      (hr : NoRoom env deadline spin (env.polled s)) :
      WriteTrace env deadline data len k spin s .late
  | late {k spin spin' k' : ℕ} {s t t' : σ} (hd : env.flag SmiCs.done s = false)
      (hr : Room env deadline spin (env.polled s) spin' t)
      (hp : env.pushed data len k t = (k',t'))
      (hx : (env.spinExpired deadline spin' t').expired = true) :
      WriteTrace env deadline data len k spin s .late
  | aferr {k spin spin' k' : ℕ} {s t t' : σ} (hd : env.flag SmiCs.done s = false)
      (hr : Room env deadline spin (env.polled s) spin' t)
      (hp : env.pushed data len k t = (k',t'))
      (hx : (env.spinExpired deadline spin' t').expired = false)
      (ha : env.flag SmiCs.aferr (env.spinExpired deadline spin' t').state = true) :
      WriteTrace env deadline data len k spin s (.aferr k')
  | next {k spin spin' k' : ℕ} {s t t' : σ} {e : WriteExit} (hd : env.flag SmiCs.done s = false)
      (hr : Room env deadline spin (env.polled s) spin' t)
      (hp : env.pushed data len k t = (k',t'))
      (hx : (env.spinExpired deadline spin' t').expired = false)
      (ha : env.flag SmiCs.aferr (env.spinExpired deadline spin' t').state = false)
      (h : WriteTrace env deadline data len k' (spin'+1)
        (env.polled (env.spinExpired deadline spin' t').state) e) :
      WriteTrace env deadline data len k spin s e

section Loop

variable {env : Env σ} {data : ℕ → Word} {len : ℕ} {deadline : ℤ}

theorem txdLoop_messages (n spin : ℕ) (w : World σ) :
    Post (loop (txdRound env deadline) n spin) w
      (fun r w' => ∀ spin', r = .ok spin' → w'.messages = w.messages) (fun _ => True) := by
  refine post_loop (fun _ w₁ => w₁.messages = w.messages) (fun _ _ _ => trivial) ?_ n spin w rfl
  intro spin₁ w₁ hm
  rcases hp : env.flag SmiCs.txd w₁.dev
  · rcases hx : (env.spinExpired deadline spin₁ (env.polled w₁.dev)).expired
    · exact post_of_run (txdRound_wait hp hx) (by simpa using hm)
    · obtain ⟨w',h,-⟩ := txdRound_late (w := w₁) hp hx
      exact post_of_run h (by simp)
  · refine post_of_run (txdRound_room hp) fun spin' _ => ?_
    simpa using hm

theorem writePush_pushed (env : Env σ) (len : ℕ) (deadline : ℤ) (s : Poll) {w : World σ}
    (hw : SentPrefix data s.count w) :
    ∃ v, writePush env data len deadline s w =
        writeChecks env deadline ⟨(env.pushed data len s.count w.dev).1,s.spin⟩ v ∧
      v.dev = (env.pushed data len s.count w.dev).2 ∧ v.messages = w.messages ∧
      SentPrefix data (env.pushed data len s.count w.dev).1 v := by
  by_cases hk : s.count < len+1
  · refine ⟨(w.fetch s.count).write env smioD (data s.count),?_,?_,by simp,?_⟩
    · rw [writePush_run (by omega)]
      simp [Env.pushed,hk]
    · simp [Env.pushed,hk]
    · simpa [Env.pushed,hk] using hw.push env
  · have hge : ¬ (s.count : ℤ) < len+1 := by omega
    exact ⟨w,by simp [writePush,hge,Env.pushed,hk],by simp [Env.pushed,hk],rfl,
      by simpa [Env.pushed,hk] using hw⟩

theorem SentPrefix.complete {count : ℕ} {w : World σ} (h : SentPrefix data count w)
    (hc : len ≤ count) (hm : w.messages = []) (hd : env.flag SmiCs.done w.dev = true) :
    WriteComplete data len (w.read env smioCs) where
  pushed := by
    have hsent : (w.read env smioCs).sent = (List.range count,(List.range count).map data) := by
      rw [sent_read,h]
    rw [show (w.read env smioCs).view (Event.writeTo? smioD) = (List.range count).map data from
      congrArg Prod.snd hsent]
    refine List.IsPrefix.map data ?_
    obtain ⟨n,rfl⟩ := Nat.exists_eq_add_of_le hc
    rw [List.range_add]
    exact List.prefix_append _ _
  done := ⟨w.value env smioCs,hd,by simp [World.read]⟩
  aferr := by simp [hm]

theorem txdLoop_noRoom (n spin : ℕ) (w : World σ) :
    Post (loop (txdRound env deadline) n spin) w
      (fun r _ => ∀ code, r = .error code → NoRoom env deadline spin w.dev) (fun _ => True) := by
  refine post_loop
    (fun spin₁ w₁ => NoRoom env deadline spin₁ w₁.dev → NoRoom env deadline spin w.dev)
    (fun _ _ _ => trivial) ?_ n spin w id
  intro spin₁ w₁ hback
  rcases hp : env.flag SmiCs.txd w₁.dev
  · rcases hx : (env.spinExpired deadline spin₁ (env.polled w₁.dev)).expired
    · exact post_of_run (txdRound_wait hp hx) fun h => hback (.later hp hx h)
    · obtain ⟨w',h,-⟩ := txdRound_late (w := w₁) hp hx
      exact post_of_run h fun _ _ => hback (.now hp hx)
  · exact post_of_run (txdRound_room hp) (by simp)

theorem NoRoom.ends {spin : ℕ} {s : σ} (h : NoRoom env deadline spin s) (w : World σ)
    (hs : w.dev = s) : ∃ w', LoopEnds (fun _ => txdRound env deadline) spin w
      (.error smiErrTimeout) w' := by
  induction h generalizing w with
  | now hp hx =>
    subst hs
    obtain ⟨w',h,-⟩ := txdRound_late (w := w) hp hx
    exact ⟨w',loopEnds_exit (ends_of_run h)⟩
  | later hp hx _ ih =>
    subst hs
    obtain ⟨w',he⟩ := ih ((w.read env smioCs).after _) rfl
    exact ⟨w',loopEnds_again (ends_of_run (txdRound_wait hp hx)) he⟩

theorem writeAwaitRound_goes {k spin spin' k' : ℕ} {t t' : σ} {w : World σ}
    (hw : SentPrefix data k w) (hd : env.flag SmiCs.done w.dev = false)
    (hr : Room env deadline spin (env.polled w.dev) spin' t)
    (hp : env.pushed data len k t = (k',t')) :
    ∃ v, (∀ {r : Poll ⊕ ℤ} {w' : World σ},
        writeChecks env deadline ⟨k',spin'⟩ v = (some r,w') →
        Ends (fun n => writeAwaitRound env n data len deadline ⟨k,spin⟩) w r w') ∧
      v.dev = t' ∧ v.messages = w.messages ∧ SentPrefix data k' v := by
  obtain ⟨u,⟨N,hN⟩,rfl⟩ := txdLoop_ends hr (w.read env smioCs) rfl
  have hpost := ((txdLoop_post N spin (w.read env smioCs)).and
    (txdLoop_messages N spin (w.read env smioCs))).elim (hN N N le_rfl le_rfl)
  obtain ⟨⟨hsent,-⟩,hmsg⟩ := hpost.1 _ rfl
  have hu : SentPrefix data k u := by
    unfold SentPrefix at *
    rw [hsent,sent_read,hw]
  obtain ⟨v,hrun,hdev,hquiet,hpre⟩ := writePush_pushed env len deadline ⟨k,spin'⟩ hu
  simp only [hp] at hrun hdev hpre
  refine ⟨v,fun {r w'} hc => ⟨N,fun n hn => ?_⟩,hdev,?_,hpre⟩
  · simp only [writeAwaitRound_wait hd]
    rw [bind_run (hN n n hn hn)]
    exact hrun.trans hc
  · rw [hquiet,hmsg spin' rfl,messages_read]

/-- The wait on a trace: its code, and whether the write is complete. -/
theorem WriteTrace.ends {k spin : ℕ} {s : σ} {e : WriteExit}
    (h : WriteTrace env deadline data len k spin s e) (w : World σ) (hs : w.dev = s)
    (hw : SentPrefix data k w) (hm : w.messages = []) : ∃ w',
    LoopEnds (fun n => writeAwaitRound env n data len deadline) ⟨k,spin⟩ w e.code w' ∧
      (0 ≤ e.code → (WriteComplete data len w' ↔ ¬ e.Misreports len)) := by
  induction h generalizing w with
  | @done k spin s hd =>
    subst hs
    refine ⟨_,loopEnds_exit ⟨0,fun _ _ => writeAwaitRound_done hd⟩,
      fun _ => ⟨fun hc => ?_,fun hk => ?_⟩⟩
    · have hlen := hc.pushed.length_le
      have hsent : (w.read env smioCs).sent = (List.range k,(List.range k).map data) := by
        rw [sent_read,hw]
      rw [show (w.read env smioCs).view (Event.writeTo? smioD) = (List.range k).map data from
        congrArg Prod.snd hsent] at hlen
      simpa [WriteExit.Misreports] using hlen
    · exact hw.complete (Nat.not_lt.mp hk) hm hd
  | @noRoom k spin s hd hr =>
    subst hs
    obtain ⟨w',N,hN⟩ := hr.ends (w.read env smioCs) rfl
    refine ⟨w',loopEnds_exit ⟨N,fun n hn => ?_⟩,fun hcode => absurd hcode (by decide)⟩
    simp only [writeAwaitRound_wait hd]
    rw [bind_run (hN n n hn hn)]
    rfl
  | @late k spin spin' k' s t t' hd hr hp hx =>
    subst hs
    obtain ⟨v,hv,rfl,-⟩ := writeAwaitRound_goes hw hd hr hp
    exact ⟨_,loopEnds_exit (hv (writeChecks_gaveUp (s := ⟨k',spin'⟩) hx)),
      fun hcode => absurd hcode (by decide)⟩
  | @aferr k spin spin' k' s t t' hd hr hp hx ha =>
    subst hs
    obtain ⟨v,hv,rfl,-⟩ := writeAwaitRound_goes hw hd hr hp
    -- AFERR is reported, and the count returned all the same
    refine ⟨_,loopEnds_exit (hv (writeChecks_aferr (s := ⟨k',spin'⟩) hx ha)),fun _ => ?_⟩
    exact ⟨fun hc => absurd (by simp [aferrMessage]) hc.aferr,fun hmis => absurd trivial hmis⟩
  | @next k spin spin' k' s t t' e hd hr hp hx ha _ ih =>
    subst hs
    obtain ⟨v,hv,rfl,hmsg,hpre⟩ := writeAwaitRound_goes hw hd hr hp
    have hnext : SentPrefix data k'
        ((v.after (env.spinExpired deadline spin' v.dev)).read env smioCs) := by
      unfold SentPrefix at *
      rw [sent_read,sent_after,hpre]
    obtain ⟨w',hl,hc⟩ := ih _ rfl hnext (by simp [hmsg,hm])
    exact ⟨w',loopEnds_again (hv (writeChecks_next (s := ⟨k',spin'⟩) hx ha)) hl,hc⟩

theorem writeAwaitLoop_trace {n m k spin : ℕ} {w w' : World σ} {r : ℤ} (hw : SentPrefix data k w)
    (h : loop (writeAwaitRound env n data len deadline) m ⟨k,spin⟩ w = (some r,w')) :
    ∃ e, WriteTrace env deadline data len k spin w.dev e := by
  induction m generalizing k spin w with
  | zero => cases h
  | succ m ih =>
    rcases hd : env.flag SmiCs.done w.dev
    · have hround : writeAwaitRound env n data len deadline ⟨k,spin⟩ w = _ :=
        writeAwaitRound_wait hd
      have hroom : Post (loop (txdRound env deadline) n spin) (w.read env smioCs) _ _ :=
        txdLoop_post n spin (w.read env smioCs)
      have hpost := hroom.and (txdLoop_noRoom n spin (w.read env smioCs))
      rcases hx : loop (txdRound env deadline) n spin (w.read env smioCs) with
        ⟨_ | code | spin',u⟩
      · rw [bind_run_none hx] at hround
        rw [loop_stuck hround] at h
        cases h
      · exact ⟨_,.noRoom hd (((hpost.elim hx).1 _ rfl).2 code rfl)⟩
      · obtain ⟨⟨hsent,hr⟩,-⟩ := (hpost.elim hx).1 _ rfl
        have hu : SentPrefix data k u := by
          unfold SentPrefix at *
          rw [hsent,sent_read,hw]
        obtain ⟨v,hrun,hdev,-,hpre⟩ := writePush_pushed env len deadline ⟨k,spin'⟩ hu
        simp only at hrun hdev hpre
        rw [bind_run hx] at hround
        replace hround := hround.trans hrun
        rcases hlate : (env.spinExpired deadline spin' v.dev).expired
        · rcases ha : env.flag SmiCs.aferr (env.spinExpired deadline spin' v.dev).state
          · rw [loop_again (hround.trans (writeChecks_next hlate ha))] at h
            have hnext : SentPrefix data (env.pushed data len k u.dev).1
                ((v.after (env.spinExpired deadline spin' v.dev)).read env smioCs) := by
              unfold SentPrefix at *
              rw [sent_read,sent_after,hpre]
            obtain ⟨e,he⟩ := ih hnext h
            rw [hdev] at hlate ha
            simp only [dev_read,World.dev_after,hdev] at he
            exact ⟨e,.next hd hr rfl hlate ha he⟩
          · rw [hdev] at hlate ha
            exact ⟨_,.aferr hd hr rfl hlate ha⟩
        · rw [hdev] at hlate
          exact ⟨_,.late hd hr rfl hlate⟩
    · exact ⟨_,.done hd⟩

theorem writeAwaitLoop_grows (data : ℕ → Word) (len deadline : ℤ) (s : Poll) :
    Grows (fun fuel => loop (writeAwaitRound env fuel data len deadline) fuel s) := by
  refine grows_loop (fun s => grows_bind (grows_const _) fun b => ?_) s
  cases b with
  | true => exact grows_const _
  | false =>
    refine grows_bind (grows_loop (fun spin => grows_const (txdRound env deadline spin)) _)
      fun r => ?_
    cases r <;> exact grows_const _

end Loop

/-- A programmed write returns on every finite trace. It returns a count for complete transfers
only, exactly when no trace it can meet is misreported. -/
theorem smiProgrammedWriteArr_reports_iff (env : Env σ) (cxt : SmiCxt) (data : ℕ → Word)
    (addr : BitVec 8) (len : ℕ) (w : World σ) :
    let v := w.fresh.apply env (programmedWriteSetup cxt addr len)
    let Meets := WriteTrace env (v.deadline env progWriteTimeoutS) data len 0 0 (v.clocked env).dev
    (∀ e, Meets e → ∃ w', Ends (fun fuel => smiProgrammedWriteArr env fuel cxt (some data) addr len)
      w.fresh e.code w') ∧
    ((∀ fuel r w', smiProgrammedWriteArr env fuel cxt (some data) addr len w.fresh = (some r,w') →
        0 ≤ r → WriteComplete data len w') ↔
      ∀ e, Meets e → ¬ e.Misreports len) := by
  intro v Meets
  have hsent : SentPrefix data 0 (v.clocked env) := by
    rw [SentPrefix,World.clocked,sent_after,sent_programmedWriteSetup,sent_fresh]
    rfl
  have hmsg : (v.clocked env).messages = [] := by simp [World.clocked,v]
  have hrun (fuel : ℕ) : smiProgrammedWriteArr env fuel cxt (some data) addr len w.fresh =
      loop (writeAwaitRound env fuel data len (v.deadline env progWriteTimeoutS)) fuel ⟨0,0⟩
        (v.clocked env) := rfl
  have hends (e : WriteExit) (he : Meets e) : ∃ w',
      Ends (fun fuel => smiProgrammedWriteArr env fuel cxt (some data) addr len) w.fresh e.code w' ∧
        (0 ≤ e.code → (WriteComplete data len w' ↔ ¬ e.Misreports len)) := by
    obtain ⟨w',hl,hc⟩ := he.ends (v.clocked env) rfl hsent hmsg
    exact ⟨w',hl.ends,hc⟩
  refine ⟨fun e he => ?_,fun h e he hmis => ?_,fun h fuel r w' hres hr => ?_⟩
  · obtain ⟨w',hw,-⟩ := hends e he
    exact ⟨w',hw⟩
  · obtain ⟨w',⟨N,hN⟩,hc⟩ := hends e he
    have hcode : 0 ≤ e.code := by
      cases e with
      | done count => exact Int.natCast_nonneg count
      | aferr count => exact Int.natCast_nonneg count
      | late => exact absurd hmis id
    exact (hc hcode).mp (h N _ w' (hN N le_rfl) hcode) hmis
  · rw [hrun] at hres
    obtain ⟨e,he⟩ := writeAwaitLoop_trace hsent hres
    obtain ⟨w₁,hl,hc⟩ := he.ends (v.clocked env) rfl hsent hmsg
    obtain ⟨rfl,rfl⟩ := hl.ends.unique (writeAwaitLoop_grows _ _ _ _) hres
    exact (hc hr).mpr (h e he)

def overflowEnv : Env Unit where
  readReg r _ := (if r = smioCs then 0x11000000#32 else 0,())
  writeReg _ _ _ := ()
  clockGettime _ := (0,())
  realloc _ _ := (none,())
  writeSync _ _ := ()
  limits := .default
  arm64 := true

/-- Three words are given; the first one overflows the FIFO, and 1 is returned. -/
theorem smiProgrammedWriteArr_reports_not : ¬ ∀ (cxt : SmiCxt) (data : ℕ → Word) (addr : BitVec 8)
    (len : ℕ) (w : World Unit) (fuel : ℕ) (r : ℤ) (w' : World Unit), 1 ≤ len →
    smiProgrammedWriteArr overflowEnv fuel cxt (some data) addr len w.fresh = (some r,w') →
      0 ≤ r → WriteComplete data len w' := by
  intro h
  have hpushed := (h (deviceCxt 0 false false false) (fun _ => 7) 0 3 (World.init ()) 4 1 _
    (by decide) (Prod.ext rfl rfl) (by decide)).pushed
  exact absurd hpushed.length_le (by decide)

end RpiSmi
