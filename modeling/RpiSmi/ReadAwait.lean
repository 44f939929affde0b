import RpiSmi.Await

/-!
# The read wait

`Arrivals` is the device's and the clock's side of `smi_read_await`. The code
returns what `Arrivals` says, so a run is determined by the trace it meets.
-/

namespace RpiSmi

open Exec

variable {σ : Type}

/-- From the device state `s`, `left` words short and after `spin` fruitless polls, the words `ws`
arrive and the wait ends in the state `t`: with all words, or `late` by a check that fires. -/
inductive Arrivals (env : Env σ) (deadline : ℤ) : ℕ → ℕ → σ → List Word → Bool → σ → Prop
  | full {spin : ℕ} {s : σ} : Arrivals env deadline 0 spin s [] false s
  | late {left spin : ℕ} {s : σ} (hp : env.flag SmiCs.rxd s = false)
      (hx : (env.spinExpired deadline spin (env.polled s)).expired = true) :
      Arrivals env deadline (left+1) spin s [] true
        (env.spinExpired deadline spin (env.polled s)).state
  | idle {left spin : ℕ} {s t : σ} {ws : List Word} {late : Bool}
      (hp : env.flag SmiCs.rxd s = false)
      (hx : (env.spinExpired deadline spin (env.polled s)).expired = false)
      (ht : Arrivals env deadline (left+1) (spin+1)
        (env.spinExpired deadline spin (env.polled s)).state ws late t) :
      Arrivals env deadline (left+1) spin s ws late t
  | word {left spin : ℕ} {s t : σ} {ws : List Word} {late : Bool}
      (hp : env.flag SmiCs.rxd s = true)
      (ht : Arrivals env deadline left 0 (env.readReg smioD (env.polled s)).2 ws late t) :
      Arrivals env deadline (left+1) spin s ((env.readReg smioD (env.polled s)).1::ws) late t

section Arrivals

variable {env : Env σ} {deadline : ℤ} {left spin : ℕ} {s t : σ} {ws : List Word}

theorem Arrivals.length_eq (h : Arrivals env deadline left spin s ws false t) :
    ws.length = left := by
  generalize hl : false = late at h
  induction h with
  | full => rfl
  | late => cases hl
  | idle _ _ _ ih => exact ih hl
  | word _ _ ih => simp [ih hl]

theorem Arrivals.length_lt (h : Arrivals env deadline left spin s ws true t) :
    ws.length < left := by
  generalize hl : true = late at h
  induction h with
  | full => cases hl
  | late => simp
  | idle _ _ _ ih => exact ih hl
  | word _ _ ih => simp [ih hl]

end Arrivals

/-- A wait for `left` words that starts in `s` meets its deadline. -/
def TimesOut (env : Env σ) (deadline : ℤ) (left : ℕ) (s : σ) : Prop :=
  ∃ ws t, Arrivals env deadline left 0 s ws true t

section Round

variable {env : Env σ} {p : Ptr} {len deadline : ℤ} {s : Poll} {w : World σ}

theorem readAwaitRound_full (h : ¬ (s.count : ℤ) < len) :
    readAwaitRound env p len deadline s w = (some (.inr (.ok s.count)),w) := by
  simp [readAwaitRound,h]

theorem readAwaitRound_word (h : (s.count : ℤ) < len) (hp : env.flag SmiCs.rxd w.dev = true) :
    readAwaitRound env p len deadline s w = (some (.inl ⟨s.count+1,0⟩),
      ((w.read env smioCs).read env smioD).store p s.count
        (env.readReg smioD (env.polled w.dev)).1) := by
  have hp' : SmiCs.rxd.test (w.value env smioCs) = true := hp
  simp [readAwaitRound,h,bind_apply,hp']
  rfl

theorem readAwaitRound_idle (h : (s.count : ℤ) < len) (hp : env.flag SmiCs.rxd w.dev = false)
    (hx : (env.spinExpired deadline s.spin (env.polled w.dev)).expired = false) :
    readAwaitRound env p len deadline s w = (some (.inl ⟨s.count,s.spin+1⟩),
      (w.read env smioCs).after (env.spinExpired deadline s.spin (env.polled w.dev))) := by
  have hp' : SmiCs.rxd.test (w.value env smioCs) = false := hp
  simp only [Env.polled] at *
  simp [readAwaitRound,h,bind_apply,hp',hx]

theorem readAwaitRound_late (h : (s.count : ℤ) < len) (hp : env.flag SmiCs.rxd w.dev = false)
    (hx : (env.spinExpired deadline s.spin (env.polled w.dev)).expired = true) :
    readAwaitRound env p len deadline s w = (some (.inr (.error (-smiErrTimeout))),
      (((w.read env smioCs).after (env.spinExpired deadline s.spin (env.polled w.dev))).report
        "Read await timeout reached").assign env smioCs SmiCs.clear 1) := by
  have hp' : SmiCs.rxd.test (w.value env smioCs) = false := hp
  simp only [Env.polled] at *
  simp [readAwaitRound,h,bind_apply,hp',hx]

end Round

section Loop

variable {env : Env σ} {p : Ptr} {len deadline : ℤ}

theorem readAwaitLoop_ends {left spin : ℕ} {d t : σ} {ws : List Word} {late : Bool}
    (h : Arrivals env deadline left spin d ws late t) (count : ℕ)
    (hl : left = (len-count).toNat) (w : World σ) (hd : w.dev = d) :
    ∃ w', LoopEnds (fun _ => readAwaitRound env p len deadline) ⟨count,spin⟩ w
        (if late then .error (-smiErrTimeout) else .ok (count+left)) w' ∧
      w'.memory = Memory.storeAll p count ws w.memory ∧
      (late = true → ∃ c, .clock c ∈ w'.log ∧ deadline ≤ c) := by
  induction h generalizing count w with
  | full =>
    subst hd
    refine ⟨w,loopEnds_exit (ends_of_run ?_),rfl,by simp⟩
    exact readAwaitRound_full (by simp only; omega)
  | late hp hx =>
    subst hd
    refine ⟨_,loopEnds_exit (ends_of_run (readAwaitRound_late (by simp only; omega) hp hx)),
      by simp [Memory.storeAll],fun _ => ?_⟩
    obtain ⟨c,hc,hle⟩ := Env.spinExpired_reading hx
    refine ⟨c,?_,hle⟩
    simp [World.assign,World.read,World.write,World.report,World.after,hc]
  | idle hp hx _ ih =>
    subst hd
    obtain ⟨w',he,hm,hc⟩ := ih count hl
      ((w.read env smioCs).after (env.spinExpired deadline _ (env.polled w.dev))) rfl
    refine ⟨w',loopEnds_again (ends_of_run (readAwaitRound_idle (by simp only; omega) hp hx)) he,
      ?_,hc⟩
    simpa using hm
  | word hp _ ih =>
    subst hd
    obtain ⟨w',he,hm,hc⟩ := ih (count+1) (by push_cast; omega)
      (((w.read env smioCs).read env smioD).store p count
        (env.readReg smioD (env.polled w.dev)).1) (by simp [Env.polled])
    refine ⟨w',?_,by simpa [Memory.storeAll] using hm,hc⟩
    rw [Nat.add_comm _ 1,← Nat.add_assoc]
    exact loopEnds_again (ends_of_run (readAwaitRound_word (by simp only; omega) hp)) he

theorem readAwaitLoop_arrivals {n left spin count : ℕ} {r : Except ℤ ℕ} {w w' : World σ}
    (hl : left = (len-count).toNat)
    (h : loop (readAwaitRound env p len deadline) n ⟨count,spin⟩ w = (some r,w')) :
    ∃ ws late t, Arrivals env deadline left spin w.dev ws late t := by
  induction n generalizing left spin count w with
  | zero => cases h
  | succ n ih =>
    match left with
    | 0 => exact ⟨_,_,_,.full⟩
    | left+1 =>
      have hc : ((⟨count,spin⟩ : Poll).count : ℤ) < len := by simp only; omega
      rcases hp : env.flag SmiCs.rxd w.dev
      · rcases hx : (env.spinExpired deadline spin (env.polled w.dev)).expired
        · rw [loop_again (readAwaitRound_idle hc hp hx)] at h
          obtain ⟨ws,late,t,ht⟩ := ih hl h
          exact ⟨ws,late,t,.idle hp hx ht⟩
        · exact ⟨_,_,_,.late hp hx⟩
      · rw [loop_again (readAwaitRound_word hc hp)] at h
        obtain ⟨ws,late,t,ht⟩ := ih (show left = _ by push_cast; omega) h
        exact ⟨_,late,t,.word hp (by simpa [Env.polled] using ht)⟩

end Loop

section Call

variable {env : Env σ} {p : Ptr}

theorem readAwaitEnd_error (len code : ℤ) (w : World σ) :
    readAwaitEnd env len (.error code) w = (some code,w) := rfl

theorem readAwaitEnd_ok {len : ℤ} {count : ℕ} (h : ¬ (count : ℤ) < len) (w : World σ) :
    ∃ w' : World σ, readAwaitEnd env len (.ok count) w = (some (count : ℤ),w') ∧
      w'.memory = w.memory := by
  rcases hp : SmiCs.rxd.test (w.value env smioCs) with _ | _
  · exact ⟨w.read env smioCs,by simp [readAwaitEnd,bind_apply,h,hp],by simp⟩
  · exact ⟨(w.read env smioCs).report "Leftover data in the RX FIFO",
      by simp [readAwaitEnd,bind_apply,h,hp],by simp⟩

theorem smiReadAwait_run (hp : p ≠ .null) (fuel : ℕ) (len : ℤ) (w : World σ) :
    smiReadAwait env fuel p len w =
      (loop (readAwaitRound env p len (w.deadline env progReadTimeoutS)) fuel ⟨0,0⟩ >>=
        readAwaitEnd env len) (w.clocked env) := by
  simp only [smiReadAwait,hp,if_false,bind_apply,startTimeout_run]

theorem smiReadAwait_grows (p : Ptr) (len : ℤ) :
    Grows (fun fuel => smiReadAwait env fuel p len) := by
  by_cases hp : p = .null
  · simpa only [smiReadAwait,hp,if_true] using grows_const _
  · intro n m w a w' hn h
    simp only [smiReadAwait_run hp] at h ⊢
    have hloop : Grows fun fuel => loop (readAwaitRound env p len
        (w.deadline env progReadTimeoutS)) fuel ⟨0,0⟩ :=
      grows_loop (fun s => grows_const (readAwaitRound env p len _ s)) _
    exact grows_bind hloop (f := fun _ => readAwaitEnd env len) (fun _ => grows_const _)
      n m _ _ _ hn h

/-- The whole call on a trace: what it returns and what it has stored. -/
theorem smiReadAwait_ends (hp : p ≠ .null) (len : ℤ) {w : World σ} {ws : List Word} {late : Bool}
    {t : σ} (h : Arrivals env (w.deadline env progReadTimeoutS) len.toNat 0 (w.clocked env).dev
      ws late t) :
    ∃ w', Ends (fun fuel => smiReadAwait env fuel p len) w
        (if late then -smiErrTimeout else len.toNat) w' ∧
      w'.memory = Memory.storeAll p 0 ws w.memory ∧
      (late = true → ∃ c, .clock c ∈ w'.log ∧ w.deadline env progReadTimeoutS ≤ c) := by
  obtain ⟨w₁,he,hm,hc⟩ := readAwaitLoop_ends (p := p) h 0
    (show len.toNat = (len-(0 : ℕ)).toNat by simp) (w.clocked env) rfl
  have hm₁ : w₁.memory = Memory.storeAll p 0 ws w.memory := by simpa [World.clocked] using hm
  simp only [smiReadAwait_run hp,Ends]
  cases late with
  | true => exact ⟨w₁,ends_bind he.ends (ends_of_run (readAwaitEnd_error _ _ _)),hm₁,hc⟩
  | false =>
    obtain ⟨w',hr,hm'⟩ := readAwaitEnd_ok (show ¬ ((0+len.toNat : ℕ) : ℤ) < len by omega) w₁
    refine ⟨w',?_,hm'.trans hm₁,by simp⟩
    simpa [Ends] using ends_bind he.ends (ends_of_run hr)

theorem smiReadAwait_arrivals (hp : p ≠ .null) {fuel : ℕ} {len : ℤ} {w w' : World σ} {r : ℤ}
    (h : smiReadAwait env fuel p len w = (some r,w')) :
    ∃ ws late t, Arrivals env (w.deadline env progReadTimeoutS) len.toNat 0 (w.clocked env).dev
      ws late t := by
  rw [smiReadAwait_run hp] at h
  rcases hl : loop (readAwaitRound env p len (w.deadline env progReadTimeoutS)) fuel ⟨0,0⟩
    (w.clocked env) with ⟨_ | a,v⟩
  · rw [bind_run_none hl] at h
    cases h
  · exact readAwaitLoop_arrivals (by simp) hl

theorem smiReadAwait_outcome (hp : p ≠ .null) {fuel : ℕ} {len : ℤ} {w w' : World σ} {r : ℤ}
    (h : smiReadAwait env fuel p len w = (some r,w')) :
    ∃ ws late t, Arrivals env (w.deadline env progReadTimeoutS) len.toNat 0 (w.clocked env).dev
        ws late t ∧ r = (if late then -smiErrTimeout else len.toNat) ∧
      w'.memory = Memory.storeAll p 0 ws w.memory := by
  obtain ⟨ws,late,t,ha⟩ := smiReadAwait_arrivals hp h
  obtain ⟨v,he,hm,-⟩ := smiReadAwait_ends hp _ ha
  obtain ⟨rfl,rfl⟩ := he.unique (smiReadAwait_grows p len) h
  exact ⟨ws,late,t,ha,rfl,hm⟩

end Call

section Queue

/-- A receiver with its words queued at the start, and a clock that leaps a minute a reading. -/
def fifoEnv : Env (List Word × ℕ) where
  readReg r s :=
    if r = smioCs then (if s.1.isEmpty then 0 else 0x08000000#32,s)
    else if r = smioD then (s.1.headD 0,s.1.tail,s.2)
    else (0,s)
  writeReg _ _ s := s
  clockGettime s := (s.2*60000000000,s.1,s.2+1)
  realloc _ s := (some fun _ => 0,s)
  writeSync _ s := s
  limits := .default
  arm64 := true

theorem fifoEnv_rxd (s : List Word × ℕ) : fifoEnv.flag SmiCs.rxd s = !s.1.isEmpty := by
  rcases s with ⟨_ | ⟨v,words⟩,k⟩ <;> simp [Env.flag,fifoEnv] <;> decide

theorem fifoEnv_apply (ops : List RegOp) (h : ∀ op ∈ ops, op.reg ≠ smioD)
    (w : World (List Word × ℕ)) : (w.apply fifoEnv ops).dev = w.dev := by
  have hread {r : Reg} (hr : r ≠ smioD) (s : List Word × ℕ) : (fifoEnv.readReg r s).2 = s := by
    by_cases hc : r = smioCs <;> simp [fifoEnv,hr,hc]
  induction ops generalizing w with
  | nil => rfl
  | cons op ops ih =>
    have hop := h op (List.mem_cons_self ..)
    have hops := fun op' h' => h op' (List.mem_cons_of_mem op h')
    cases op with
    | field r f v => exact (ih hops _).trans (hread hop w.dev)
    | value r v => exact ih hops _

theorem fifoEnv_full (deadline : ℤ) (words : List Word) (k spin : ℕ) :
    Arrivals fifoEnv deadline words.length spin (words,k) words false ([],k) := by
  induction words generalizing spin with
  | nil => exact .full
  | cons v words ih => exact .word (fifoEnv_rxd _) (ih 0)

/-- With the FIFO empty the yield limit of 192 polls is reached and the clock asked. -/
theorem fifoEnv_empty {deadline : ℤ} {left k : ℕ} (hk : deadline ≤ k*60000000000) (n : ℕ) :
    n ≤ 192 → ∃ t, Arrivals fifoEnv deadline (left+1) (192-n) ([],k) [] true t := by
  induction n with
  | zero =>
    intro _
    exact ⟨_,.late (fifoEnv_rxd _) (by simpa [Env.spinExpired,Env.timeoutSpinTier,Env.timeoutApply,
      Env.timeoutComplete,Env.polled,fifoEnv] using hk)⟩
  | succ n ih =>
    intro hn
    obtain ⟨t,ht⟩ := ih (by omega)
    have hx : fifoEnv.spinExpired deadline (192-(n+1)) (fifoEnv.polled ([],k)) =
        ⟨false,[],fifoEnv.polled ([],k)⟩ :=
      Env.spinExpired_of_lt _ _ (by simp only [fifoEnv,SpinLimits.default_yield]; omega) _
    refine ⟨t,.idle (fifoEnv_rxd _) (by rw [hx]) ?_⟩
    rw [hx,show 192-(n+1)+1 = 192-n by omega]
    exact ht

theorem fifoEnv_short {deadline : ℤ} {k : ℕ} (hk : deadline ≤ k*60000000000) (left : ℕ)
    (words : List Word) (spin : ℕ) (hs : words = [] → spin = 0) :
    ∃ t, Arrivals fifoEnv deadline (words.length+left+1) spin (words,k) words true t := by
  induction words generalizing spin with
  | nil =>
    rw [hs rfl]
    simpa using fifoEnv_empty hk 192 le_rfl
  | cons v words ih =>
    obtain ⟨t,ht⟩ := ih 0 fun _ => rfl
    refine ⟨t,?_⟩
    rw [show (v::words).length+left+1 = words.length+left+1+1 by simp; omega]
    exact .word (fifoEnv_rxd _) ht

end Queue

section Code

/-- What the returned code promises: negative exactly when words are missing, which the clock
reaching the deadline explains, and otherwise the length. -/
structure ReadCodeRight (env : Env σ) (len : ℕ) (w : World σ) (r : ℤ) (w' : World σ) : Prop where
  negative_iff : r < 0 ↔ w'.memory.stores.length < len
  expired : w'.memory.stores.length < len →
    ∃ c, .clock c ∈ w'.log ∧ w.deadline env progReadTimeoutS ≤ c
  complete : ¬ w'.memory.stores.length < len → r = len

/-- The call returns on every finite trace. The code is right exactly on the traces that do not
run into the deadline: the timeout code is negated once too often at the return. -/
theorem smiReadAwait_code_iff (env : Env σ) {p : Ptr} (hp : p ≠ .null) (len : ℕ) (w : World σ) :
    (∀ ws late t, Arrivals env (w.fresh.deadline env progReadTimeoutS) len 0
      (w.fresh.clocked env).dev ws late t →
        ∃ r w', Ends (fun fuel => smiReadAwait env fuel p len) w.fresh r w') ∧
    ((∀ fuel r w', smiReadAwait env fuel p len w.fresh = (some r,w') →
      ReadCodeRight env len w.fresh r w') ↔
    ¬ TimesOut env (w.fresh.deadline env progReadTimeoutS) len (w.fresh.clocked env).dev) := by
  have hstores (p : Ptr) (ws : List Word) :
      (Memory.storeAll p 0 ws w.fresh.memory).stores.length = ws.length := by
    simp [Memory.length_stores_storeAll,World.memory]
  refine ⟨fun ws late t ht => ?_,?_,?_⟩
  · obtain ⟨w',he,-⟩ := smiReadAwait_ends hp len ht
    exact ⟨_,w',he⟩
  · rintro h ⟨ws,t,ht⟩
    obtain ⟨w',⟨N,hN⟩,hm,-⟩ := smiReadAwait_ends hp len ht
    have hn := (h N _ w' (hN N le_rfl)).negative_iff
    rw [hm,hstores] at hn
    have h₁ := hn.mpr ht.length_lt
    simp [smiErrTimeout] at h₁
  · intro h fuel r w' hr
    obtain ⟨ws,late,t,ht⟩ := smiReadAwait_arrivals hp hr
    cases late with
    | true => exact (h ⟨ws,t,ht⟩).elim
    | false =>
      obtain ⟨v,he,hm,-⟩ := smiReadAwait_ends hp _ ht
      obtain ⟨rfl,rfl⟩ := he.unique (smiReadAwait_grows p len) hr
      have hlen : w'.memory.stores.length = len := by rw [hm,hstores,ht.length_eq,Int.toNat_natCast]
      exact ⟨by simp [hlen],by simp [hlen],by simp⟩

theorem smiReadAwait_code_iff_queued :
    Ptr.caller ≠ .null ∧ ((∀ fuel r w',
      smiReadAwait fifoEnv fuel .caller (1 : ℕ) (World.init ([7],0)).fresh = (some r,w') →
        ReadCodeRight fifoEnv 1 (World.init ([7],0)).fresh r w') ↔
      ¬ TimesOut fifoEnv ((World.init ([7],0)).fresh.deadline fifoEnv progReadTimeoutS) 1
        ((World.init ([7],0)).fresh.clocked fifoEnv).dev) :=
  ⟨by decide,(smiReadAwait_code_iff fifoEnv (by decide) 1 (World.init ([7],0))).2⟩

/-- A silent device: one word is asked for, none comes, and the call returns 21. -/
theorem smiReadAwait_code_wrong : ¬ ∀ fuel r w',
    smiReadAwait fifoEnv fuel .caller (1 : ℕ) (World.init ([],0)).fresh = (some r,w') →
      ReadCodeRight fifoEnv 1 (World.init ([],0)).fresh r w' := by
  intro h
  obtain ⟨t,ht⟩ := fifoEnv_short (show (World.init (([] : List Word),0)).fresh.deadline fifoEnv
    progReadTimeoutS ≤ (1 : ℕ)*60000000000 by decide) 0 [] 0 fun _ => rfl
  obtain ⟨w',⟨N,hN⟩,hm,-⟩ := smiReadAwait_ends (p := .caller) (by decide) (1 : ℕ)
    (w := (World.init ([],0)).fresh) ht
  have hn := (h N _ w' (hN N le_rfl)).negative_iff
  rw [hm] at hn
  revert hn
  decide

end Code

end RpiSmi
