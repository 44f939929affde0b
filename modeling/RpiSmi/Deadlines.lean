import RpiSmi.LiteDirect

/-!
# What a wait does at its deadline

Every wait of the two headers sets a deadline, looks at the clock now and then, and
gives up when it finds the deadline passed. No assumption is made about the devices
or about the clock: the trace of a wait shows that it gives up at its first late
look, and does no more than clean up after that.
-/

namespace RpiSmi

open Exec BitField

variable {σ : Type}

/-- How a wait gives up: after how many seconds, with which messages and which assignments. -/
structure Expiry where
  seconds : ℕ
  messages : List String
  cleanUp : List RegOp

/-- No late look at the clock, and no message about one. -/
def Expiry.Early (g : Expiry) (deadline : ℤ) : Event → Prop
  | .clock t => t < deadline
  | .error msg => msg ∉ g.messages
  | _ => True

namespace World

/-- What was done between two moments of a wait whose deadline has not been seen to pass. -/
def InTime (g : Expiry) (deadline : ℤ) (w w' : World σ) : Prop :=
  ∃ events, w'.log = w.log ++ events ∧ ∀ e ∈ events, g.Early deadline e

/-- The last look at the clock was the only late one; then came the message and the clean-up. -/
def GaveUp (env : Env σ) (g : Expiry) (deadline : ℤ) (w w' : World σ) : Prop :=
  ∃ v t s msg, w.InTime g deadline v ∧ deadline ≤ t ∧ msg ∈ g.messages ∧
    w' = ((v.after ⟨true,[t],s⟩).report msg).apply env g.cleanUp

end World

instance (g : Expiry) (deadline : ℤ) : IsPreorder (World σ) (World.InTime g deadline) where
  refl w := ⟨[],by simp,by simp⟩
  trans u v w h h' := by
    obtain ⟨es,hes,he⟩ := h
    obtain ⟨es',hes',he'⟩ := h'
    refine ⟨es ++ es',by rw [hes',hes,List.append_assoc],fun e hmem => ?_⟩
    rcases List.mem_append.mp hmem with hmem | hmem
    · exact he e hmem
    · exact he' e hmem

section Rules

variable {env : Env σ} {g : Expiry} {deadline : ℤ} {α β S : Type}

theorem World.InTime.gaveUp {u v w : World σ} (h : u.InTime g deadline v)
    (h' : v.GaveUp env g deadline w) : u.GaveUp env g deadline w := by
  obtain ⟨v',t,s,msg,hv,ht⟩ := h'
  exact ⟨v',t,s,msg,trans_of (World.InTime g deadline) h hv,ht⟩

/-- What is returned and done in the end: `late` comes with having given up. -/
def Met (env : Env σ) (g : Expiry) (deadline : ℤ) (late : α) (w : World σ) (a : α)
    (w' : World σ) : Prop :=
  w.InTime g deadline w' ∨ (a = late ∧ w.GaveUp env g deadline w')

/-- From any moment on, and also where the fuel ends, the program has met its deadline. -/
def Punctual (env : Env σ) (g : Expiry) (deadline : ℤ) (late : α) (x : Drv σ α) : Prop :=
  ∀ w, Post x w (Met env g deadline late w) (w.InTime g deadline)

theorem punctual_of_keeps {x : Drv σ α} (h : Keeps (World.InTime g deadline) x) (late : α) :
    Punctual env g deadline late x :=
  fun w => (h.post w).mono (fun _ _ hw => .inl hw) fun _ hw => hw

theorem punctual_pure (late a : α) : Punctual env g deadline late (pure a : Drv σ α) :=
  punctual_of_keeps (keeps_pure a) late

theorem punctual_ite {c : Prop} [Decidable c] {late : α} {x y : Drv σ α}
    (hx : Punctual env g deadline late x) (hy : Punctual env g deadline late y) :
    Punctual env g deadline late (if c then x else y) := by
  split
  · exact hx
  · exact hy

theorem punctual_bind {late : α} {late' : β} {x : Drv σ α} {f : α → Drv σ β}
    (hx : Punctual env g deadline late x) (hlate : f late = pure late')
    (hf : ∀ a, Punctual env g deadline late' (f a)) :
    Punctual env g deadline late' (x >>= f) := by
  intro w
  refine post_bind ((hx w).mono ?_ fun _ hw => hw)
  rintro a v (hv | ⟨rfl,hv⟩)
  · refine (hf a v).mono ?_ fun u hu => trans_of (World.InTime g deadline) hv hu
    rintro b u (hu | ⟨hb,hu⟩)
    · exact .inl (trans_of (World.InTime g deadline) hv hu)
    · exact .inr ⟨hb,hv.gaveUp hu⟩
  · rw [hlate]
    exact .inr ⟨rfl,hv⟩

theorem punctual_keeps_bind {late : β} {x : Drv σ α} {f : α → Drv σ β}
    (hx : Keeps (World.InTime g deadline) x) (hf : ∀ a, Punctual env g deadline late (f a)) :
    Punctual env g deadline late (x >>= f) := by
  refine fun w => post_bind ((hx.post w).mono (fun a v hv => ?_) fun _ hw => hw)
  refine (hf a v).mono ?_ fun u hu => trans_of (World.InTime g deadline) hv hu
  rintro b u (hu | ⟨hb,hu⟩)
  · exact .inl (trans_of (World.InTime g deadline) hv hu)
  · exact .inr ⟨hb,hv.gaveUp hu⟩

theorem punctual_loop {late : α} {body : S → Drv σ (S ⊕ α)}
    (hb : ∀ s, Punctual env g deadline (.inr late) (body s)) (n : ℕ) (s : S) :
    Punctual env g deadline late (loop body n s) := by
  induction n generalizing s with
  | zero => exact fun w => refl_of (World.InTime g deadline) w
  | succ n ih =>
    refine punctual_bind (hb s) rfl fun r => ?_
    rcases r with s' | a
    · exact ih s'
    · exact punctual_pure late a

end Rules

section Steps

variable {env : Env σ} {g : Expiry} {deadline : ℤ}

theorem World.InTime.of_log {w w' : World σ} {events : List Event} (h : w'.log = w.log ++ events)
    (he : ∀ e ∈ events, g.Early deadline e) : w.InTime g deadline w' := ⟨events,h,he⟩

theorem keeps_readReg_inTime (r : Reg) : Keeps (World.InTime g deadline) (readReg env r) :=
  fun _ => .of_log rfl (by simp [Expiry.Early])

theorem keeps_readField_inTime (r : Reg) (f : Field 32) :
    Keeps (World.InTime g deadline) (readField env r f) :=
  fun _ => .of_log rfl (by simp [Expiry.Early])

theorem keeps_writeReg_inTime (r : Reg) (v : Word) :
    Keeps (World.InTime g deadline) (writeReg env r v) :=
  fun _ => .of_log rfl (by simp [Expiry.Early])

theorem keeps_setField_inTime (r : Reg) (f : Field 32) (v : ℕ) :
    Keeps (World.InTime g deadline) (setField env r f v) :=
  fun _ => .of_log (List.append_assoc ..) (by simp [Expiry.Early])

theorem keeps_loadWord_inTime (data : ℕ → Word) (i : ℕ) :
    Keeps (World.InTime g deadline) (loadWord data i : Drv σ Word) :=
  fun _ => .of_log rfl (by simp [Expiry.Early])

theorem keeps_storeWord_inTime (p : Ptr) (i : ℕ) (v : Word) :
    Keeps (World.InTime g deadline) (storeWord p i v : Drv σ Unit) := by
  intro w
  cases p <;> exact .of_log rfl (by simp [Expiry.Early])

theorem keeps_error_inTime {msg : String} (h : msg ∉ g.messages) :
    Keeps (World.InTime g deadline) (error msg : Drv σ Unit) :=
  fun _ => .of_log rfl (by simpa [Expiry.Early] using h)

theorem keeps_stepAddr_inTime (increment : ℤ) (addr : BitVec 8) :
    Keeps (World.InTime g deadline) (stepAddr env increment addr) := by
  have hmove (a : BitVec 8) : Keeps (World.InTime g deadline)
      (setField env smioDa SmiDa.addr a.toNat >>= fun _ => pure a) :=
    keeps_then_pure (keeps_setField_inTime _ _ _) _
  exact keeps_ite (hmove _) (keeps_ite (hmove _) (keeps_pure _))

/-- A look at the clock that goes on only before the deadline, and stops at the first late one. -/
def Looks (g : Expiry) (deadline : ℤ) (x : Drv σ Bool) : Prop :=
  ∀ w, (∃ v, x w = (some false,v) ∧ w.InTime g deadline v) ∨
    ∃ v t s, x w = (some true,v.after ⟨true,[t],s⟩) ∧ w.InTime g deadline v ∧ deadline ≤ t

theorem looks_timeoutComplete (env : Env σ) (g : Expiry) (deadline : ℤ) :
    Looks g deadline (timeoutComplete env deadline) := by
  intro w
  by_cases h : deadline ≤ (env.clockGettime w.dev).1
  · refine .inr ⟨w,_,(env.clockGettime w.dev).2,?_,refl_of (World.InTime g deadline) w,h⟩
    rw [timeoutComplete_run,Env.timeoutComplete,decide_eq_true h]
  · refine .inl ⟨_,by rw [timeoutComplete_run,Env.timeoutComplete,decide_eq_false h],?_⟩
    exact .of_log rfl (by simpa [Expiry.Early] using h)

theorem looks_pure : Looks g deadline (pure false : Drv σ Bool) :=
  fun w => .inl ⟨w,rfl,refl_of (World.InTime g deadline) w⟩

theorem looks_ite {c : Prop} [Decidable c] {x y : Drv σ Bool} (hx : Looks g deadline x)
    (hy : Looks g deadline y) : Looks g deadline (if c then x else y) := by
  split
  · exact hx
  · exact hy

theorem looks_lite (spin : ℕ) : Looks g deadline (Lite.expired env deadline spin) :=
  looks_ite (looks_timeoutComplete env g deadline) looks_pure

/-- The tier that sleeps looks a second time only when the first look was early. -/
theorem looks_spinExpired (spin : ℕ) : Looks g deadline (spinExpired env deadline spin) := by
  intro w
  have hnone : w.after ⟨false,[],w.dev⟩ = w := by
    simp [World.after]
  have hone := looks_timeoutComplete env g deadline w
  rw [timeoutComplete_run] at hone
  simp only [spinExpired_run,Env.spinExpired,Env.timeoutApply]
  split
  · exact hone
  · split_ifs with h
    · exact hone
    · rcases hone with ⟨v,hv,hw⟩ | ⟨v,t,s,hv,-⟩
      · have htwo := looks_timeoutComplete env g deadline v
        have hdev : v.dev = (env.timeoutComplete deadline w.dev).state := by
          rw [← (Prod.mk.inj hv).2,World.dev_after]
        have hlog : v = w.after (env.timeoutComplete deadline w.dev) := (Prod.mk.inj hv).2.symm
        have hboth (c : Check σ) : v.after c =
            w.after { c with readings := (env.timeoutComplete deadline w.dev).readings ++
              c.readings } := by
          simp [hlog,World.after]
        rw [timeoutComplete_run,hdev,hboth] at htwo
        rcases htwo with ⟨u,hu,hvu⟩ | ⟨u,t,s,hu,hvu,ht⟩
        · exact .inl ⟨u,hu,trans_of (World.InTime g deadline) hw hvu⟩
        · exact .inr ⟨u,t,s,hu,trans_of (World.InTime g deadline) hw hvu,ht⟩
      · exact absurd (Option.some.inj (Prod.mk.inj hv).1) h
  · exact .inl ⟨w,by rw [hnone],refl_of (World.InTime g deadline) w⟩

/-- The check of a wait: what it does on a late look is to give up. -/
theorem punctual_check {α : Type} {late : α} {x : Drv σ Bool} {y z : Drv σ α} {msg : String}
    (hx : Looks g deadline x) (hmsg : msg ∈ g.messages)
    (hy : ∀ v, y v = (some late,(v.report msg).apply env g.cleanUp))
    (hz : Punctual env g deadline late z) :
    Punctual env g deadline late (x >>= fun b => if b then y else z) := by
  intro w
  rcases hx w with ⟨v,hv,hw⟩ | ⟨v,t,s,hv,hw,ht⟩
  · have hrun : (x >>= fun b => if b then y else z) w = z v := bind_run hv _
    rw [Post,hrun]
    refine Post.mono (hz v) ?_ fun u hu => trans_of (World.InTime g deadline) hw hu
    rintro b u (hu | ⟨hb,hu⟩)
    · exact .inl (trans_of (World.InTime g deadline) hw hu)
    · exact .inr ⟨hb,hw.gaveUp hu⟩
  · exact post_of_run ((bind_run hv _).trans (hy _)) (.inr ⟨rfl,v,t,s,msg,hw,ht,hmsg,rfl⟩)

end Steps

namespace Expiry

def fifoCleanUp : List RegOp := [.field smioCs SmiCs.clear 1,.field smioCs SmiCs.done 1]

def directCleanUp : List RegOp := [.field smioCs SmiCs.clear 1,.field smioDcs SmiDcs.done 1]

def read (msg : String) : Expiry := ⟨progReadTimeoutS,[msg],[.field smioCs SmiCs.clear 1]⟩

def write (wait : WriteWait σ) : Expiry :=
  ⟨progWriteTimeoutS,[wait.fullMsg,wait.lateMsg],fifoCleanUp⟩

def direct (seconds : ℕ) (msg : String) : Expiry := ⟨seconds,[msg],directCleanUp⟩

def dma : Expiry := ⟨progReadTimeoutS,["DMA transfer timeout"],[.field dmaoCs DmaCs.abort 1]⟩

end Expiry

section Rounds

variable {env : Env σ} {deadline : ℤ} {len increment : ℤ} {data : ℕ → Word} {ret : Ptr}

theorem punctual_readAwaitRound (s : Poll) :
    Punctual env (.read "Read await timeout reached") deadline (.inr (.error (-smiErrTimeout)))
      (readAwaitRound env ret len deadline s) := by
  refine punctual_ite (punctual_pure _ _) (punctual_keeps_bind (keeps_readField_inTime _ _) ?_)
  refine fun rxd => punctual_ite ?_ ?_
  · exact punctual_keeps_bind (keeps_readReg_inTime _) fun v =>
      punctual_keeps_bind (keeps_storeWord_inTime _ _ _) fun _ => punctual_pure _ _
  · exact punctual_check (looks_spinExpired s.spin) (List.mem_singleton_self _) (fun _ => rfl)
      (punctual_pure _ _)

theorem keeps_readAwaitEnd_inTime {msg : String} (hlost : msg ≠
      "Transfer complete but data lost. Slow the clock") (hleft : msg ≠
      "Leftover data in the RX FIFO") (r : Except ℤ ℕ) :
    Keeps (World.InTime (.read msg) deadline) (readAwaitEnd env len r) := by
  have herror {other : String} (h : msg ≠ other) :
      Keeps (World.InTime (.read msg) deadline) (error other : Drv σ Unit) :=
    keeps_error_inTime fun hmem => h (List.mem_singleton.mp hmem).symm
  exact keeps_readAwaitEnd_of len (keeps_readField_inTime _ _) (herror hlost) (herror hleft) r

theorem punctual_lite_readCheck (s : Poll) :
    Punctual env (.read "Programmed read data fetch timeout") deadline
      (.inr (.error (-eTimedOut))) (Lite.readCheck env deadline s) :=
  punctual_check (looks_lite s.spin) (List.mem_singleton_self _)
    (fun _ => rfl) (punctual_pure _ _)

theorem punctual_lite_readAwaitRound (s : Poll) :
    Punctual env (.read "Programmed read data fetch timeout") deadline
      (.inr (.error (-eTimedOut))) (Lite.readAwaitRound env ret len deadline s) := by
  refine punctual_ite (punctual_pure _ _) (punctual_keeps_bind (keeps_readField_inTime _ _) ?_)
  refine fun rxd => punctual_ite ?_ (punctual_lite_readCheck s)
  refine punctual_keeps_bind (keeps_readReg_inTime _) fun v => ?_
  exact punctual_keeps_bind (keeps_storeWord_inTime _ _ _) fun _ => punctual_lite_readCheck _

theorem keeps_lite_readAwaitEnd_inTime (r : Except ℤ ℕ) :
    Keeps (World.InTime (.read "Programmed read data fetch timeout") deadline)
      (Lite.readAwaitEnd env r) := by
  cases r with
  | error code => exact keeps_pure _
  | ok count =>
    refine keeps_bind (keeps_readField_inTime _ _) fun b => keeps_ite ?_ (keeps_pure _)
    exact keeps_then_pure (keeps_error_inTime (by decide)) _

section Write

variable {wait : WriteWait σ}
  (hx : ∀ spin, Looks (.write wait) deadline (wait.expired deadline spin))

include hx

theorem punctual_txdRound (spin : ℕ) : Punctual env (.write wait) deadline
    (.inr (.error wait.timeoutCode)) (wait.txdRound env deadline spin) := by
  refine punctual_keeps_bind (keeps_readField_inTime _ _) fun txd =>
    punctual_ite (punctual_pure _ _) ?_
  exact punctual_check (hx spin) (List.mem_cons_self ..) (fun _ => rfl) (punctual_pure _ _)

/-- A report of protected registers is not one of a deadline. -/
theorem punctual_checks (hprot : "Protected registers written to during write" ∉
      (Expiry.write wait).messages) (s : Poll) :
    Punctual env (.write wait) deadline (.inr wait.timeoutCode) (wait.checks env deadline s) := by
  refine punctual_check (hx s.spin) (List.mem_cons_of_mem _ (List.mem_singleton_self _))
    (fun _ => rfl) ?_
  refine punctual_keeps_bind (keeps_readField_inTime _ _) fun aferr =>
    punctual_ite ?_ (punctual_pure _ _)
  refine punctual_of_keeps (keeps_bind (keeps_error_inTime hprot) fun _ => ?_) _
  refine keeps_bind (keeps_setField_inTime _ _ _) fun _ => ?_
  exact keeps_then_pure (keeps_setField_inTime _ _ _) _

end Write

theorem punctual_writeAwaitRound (fuel : ℕ) (s : Poll) :
    Punctual env (.write (writeWait env)) deadline (.inr smiErrTimeout)
      (writeAwaitRound env fuel data len deadline s) := by
  have hx (spin : ℕ) : Looks (.write (writeWait env)) deadline
      ((writeWait env).expired deadline spin) := looks_spinExpired spin
  have hchecks (s : Poll) : Punctual env (.write (writeWait env)) deadline (.inr smiErrTimeout)
      (writeChecks env deadline s) := punctual_checks hx (by simp [Expiry.write,writeWait]) s
  refine punctual_keeps_bind (keeps_readField_inTime _ _) fun done =>
    punctual_ite (punctual_pure _ _) ?_
  refine punctual_bind (punctual_loop (punctual_txdRound hx) fuel s.spin) rfl fun r => ?_
  rcases r with code | spin
  · exact punctual_pure _ _
  · refine punctual_ite (punctual_keeps_bind (keeps_loadWord_inTime _ _) fun v => ?_) (hchecks _)
    exact punctual_keeps_bind (keeps_writeReg_inTime _ _) fun _ => hchecks _

theorem punctual_lite_writeRoom (fuel : ℕ) (s : Poll) :
    Punctual env (.write (Lite.writeWait env)) deadline (.inr (-eTimedOut))
      (Lite.writeRoom env fuel deadline s) := by
  have hx (spin : ℕ) : Looks (.write (Lite.writeWait env)) deadline
      ((Lite.writeWait env).expired deadline spin) := looks_lite spin
  refine punctual_bind (punctual_loop (punctual_txdRound hx) fuel s.spin) rfl fun r => ?_
  rcases r with code | spin
  · exact punctual_pure _ _
  · exact punctual_checks hx (by simp [Expiry.write,Lite.writeWait]) _

theorem punctual_lite_writeAwaitRound (fuel : ℕ) (s : Poll) :
    Punctual env (.write (Lite.writeWait env)) deadline (.inr (-eTimedOut))
      (Lite.writeAwaitRound env fuel data len deadline s) := by
  refine punctual_keeps_bind (keeps_readField_inTime _ _) fun done =>
    punctual_ite (punctual_pure _ _) (punctual_ite ?_ (punctual_lite_writeRoom fuel s))
  refine punctual_keeps_bind (keeps_loadWord_inTime _ _) fun v => ?_
  exact punctual_keeps_bind (keeps_writeReg_inTime _ _) fun _ => punctual_lite_writeRoom fuel _

theorem punctual_doneRound {seconds : ℕ} {msg : String} {expired : ℕ → Drv σ Bool} {next : ℕ → ℕ}
    {code : ℤ} (hx : ∀ spin, Looks (.direct seconds msg) deadline (expired spin)) (spin : ℕ) :
    Punctual env (.direct seconds msg) deadline (.inr (.error code))
      (doneRound env expired next msg code spin) := by
  refine punctual_keeps_bind (keeps_readField_inTime _ _) fun done =>
    punctual_ite (punctual_pure _ _) ?_
  exact punctual_check (hx spin) (List.mem_singleton_self _) (fun _ => rfl) (punctual_pure _ _)

theorem punctual_readDirectRound (fuel : ℕ) (s : Direct) :
    Punctual env (.direct directReadTimeoutS "Direct read await timeout reached") deadline
      (.inr smiErrTimeout) (readDirectRound env fuel ret len increment deadline s) := by
  refine punctual_ite (punctual_pure _ _) (punctual_keeps_bind (keeps_setField_inTime _ _ _) ?_)
  refine fun _ => punctual_bind (punctual_loop (punctual_doneRound looks_spinExpired) fuel s.spin)
    rfl fun r => ?_
  rcases r with code | spin
  · exact punctual_pure _ _
  · refine punctual_of_keeps (keeps_bind (keeps_readReg_inTime _) fun v => ?_) _
    refine keeps_bind (keeps_storeWord_inTime _ _ _) fun _ => ?_
    refine keeps_bind (keeps_setField_inTime _ _ _) fun _ => ?_
    exact keeps_then_pure (keeps_stepAddr_inTime _ _) _

theorem punctual_lite_readDirectRound (fuel : ℕ) (s : Direct) :
    Punctual env (.direct directReadTimeoutS "Direct read timeout") deadline (.inr (-eTimedOut))
      (Lite.readDirectRound env fuel ret len increment deadline s) := by
  refine punctual_ite (punctual_pure _ _) (punctual_keeps_bind (keeps_setField_inTime _ _ _) ?_)
  refine fun _ => punctual_bind (punctual_loop (punctual_doneRound looks_lite) fuel s.spin)
    rfl fun r => ?_
  rcases r with code | spin
  · exact punctual_pure _ _
  · refine punctual_of_keeps (keeps_bind (keeps_readReg_inTime _) fun v => ?_) _
    refine keeps_bind (keeps_storeWord_inTime _ _ _) fun _ => ?_
    refine keeps_bind (keeps_setField_inTime _ _ _) fun _ => ?_
    exact keeps_then_pure (keeps_stepAddr_inTime _ _) _

theorem punctual_writeDirectRound (wait : DirectWait σ) (hx : ∀ spin, Looks
      (.direct progWriteTimeoutS wait.msg) deadline (wait.expired deadline spin)) (fuel : ℕ)
    (s : Direct) : Punctual env (.direct progWriteTimeoutS wait.msg) deadline
      (.inr wait.timeoutCode) (writeDirectRound env fuel wait data len increment deadline s) := by
  refine punctual_ite (punctual_pure _ _) (punctual_keeps_bind (keeps_loadWord_inTime _ _) ?_)
  refine fun v => punctual_keeps_bind (keeps_writeReg_inTime _ _) fun _ =>
    punctual_keeps_bind (keeps_setField_inTime _ _ _) fun _ => ?_
  refine punctual_bind (punctual_loop (punctual_doneRound hx) fuel s.spin) rfl fun r => ?_
  rcases r with code | spin
  · exact punctual_pure _ _
  · exact punctual_of_keeps (keeps_then_pure (keeps_stepAddr_inTime _ _) _) _

theorem punctual_dmaAwaitRound (delay : ℕ) :
    Punctual env .dma deadline (.inr (-eTimedOut)) (dmaAwaitRound env deadline delay) := by
  refine punctual_keeps_bind (keeps_readField_inTime _ _) fun finish =>
    punctual_ite (punctual_pure _ _) ?_
  exact punctual_check (looks_timeoutComplete _ _ _) (List.mem_singleton_self _) (fun _ => rfl)
    (punctual_pure _ _)

end Rounds

section Calls

variable {env : Env σ}

/-- A call that first makes the assignments `setup` and then sets its deadline: it waits until that
has passed, or it has given up and returns `code`. -/
def MeetsDeadline (env : Env σ) (g : Expiry) (setup : List RegOp) (code : ℤ) (x : Drv σ ℤ) :
    Prop :=
  ∀ w, Post x w (Met env g ((w.apply env setup).deadline env g.seconds) code
      ((w.apply env setup).clocked env))
    (((w.apply env setup).clocked env).InTime g ((w.apply env setup).deadline env g.seconds))

theorem meetsDeadline_of_run {g : Expiry} {setup : List RegOp} {code : ℤ} {x : Drv σ ℤ}
    (rest : ℤ → Drv σ ℤ) (hx : ∀ w, x w = rest ((w.apply env setup).deadline env g.seconds)
      ((w.apply env setup).clocked env))
    (hrest : ∀ deadline, Punctual env g deadline code (rest deadline)) :
    MeetsDeadline env g setup code x := by
  intro w
  have h := hrest ((w.apply env setup).deadline env g.seconds) ((w.apply env setup).clocked env)
  rwa [Post,← hx w] at h

theorem meetsDeadline_smiDmaAwait (env : Env σ) (fuel : ℕ) :
    MeetsDeadline env .dma [] (-eTimedOut) (smiDmaAwait env fuel) :=
  meetsDeadline_of_run _ (fun _ => rfl) fun _ => punctual_loop punctual_dmaAwaitRound fuel 1000

/-- The ten waits. -/
structure WaitsMeetDeadlines (env : Env σ) (fuel : ℕ) (ret : Ptr) (data : ℕ → Word)
    (addr : BitVec 8) (len increment : ℤ) : Prop where
  readAwait : MeetsDeadline env (.read "Read await timeout reached") [] (-smiErrTimeout)
    (smiReadAwait env fuel ret len)
  writeAwait : MeetsDeadline env (.write (writeWait env)) [] smiErrTimeout
    (smiWriteAwait env fuel (some data) len)
  readDirect : MeetsDeadline env
    (.direct directReadTimeoutS "Direct read await timeout reached")
    [.field smioDcs SmiDcs.write 0,.field smioDa SmiDa.addr addr.toNat] smiErrTimeout
    (smiReadAwaitDirect env fuel ret addr len increment)
  writeDirect : MeetsDeadline env
    (.direct progWriteTimeoutS "Direct write await timeout reached") [] smiErrTimeout
    (smiWriteAwaitDirect env fuel (some data) addr len increment)
  dmaAwait : MeetsDeadline env .dma [] (-eTimedOut) (smiDmaAwait env fuel)
  liteReadAwait : MeetsDeadline env (.read "Programmed read data fetch timeout") []
    (-eTimedOut) (Lite.smiReadAwait env fuel ret len)
  liteWriteAwait : MeetsDeadline env (.write (Lite.writeWait env)) [] (-eTimedOut)
    (Lite.smiWriteAwait env fuel (some data) len)
  liteReadDirect : MeetsDeadline env (.direct directReadTimeoutS "Direct read timeout")
    [.field smioDcs SmiDcs.write 0,.field smioDa SmiDa.addr addr.toNat] (-eTimedOut)
    (Lite.smiReadAwaitDirect env fuel ret addr len increment)
  liteWriteDirect : MeetsDeadline env (.direct progWriteTimeoutS "Direct read array timeout") []
    (-eTimedOut) (Lite.smiWriteAwaitDirect env fuel (some data) addr len increment)
  liteDmaAwait : MeetsDeadline env .dma [] (-eTimedOut) (Lite.smiDmaAwait env fuel)

/-- On every device, every clock and every amount of fuel, each wait gives up at its first look at
the clock past its deadline and at no other moment, and after it moves no data. -/
theorem waits_meet_deadlines (env : Env σ) (fuel : ℕ) {ret : Ptr} (h : ret ≠ .null)
    (data : ℕ → Word) (addr : BitVec 8) (len increment : ℤ) :
    WaitsMeetDeadlines env fuel ret data addr len increment where
  readAwait := by
    refine meetsDeadline_of_run (fun deadline =>
      loop (readAwaitRound env ret len deadline) fuel ⟨0,0⟩ >>= readAwaitEnd env len) ?_ ?_
    · intro w
      simp only [smiReadAwait,h,if_false]
      rfl
    · exact fun deadline => punctual_bind (punctual_loop punctual_readAwaitRound fuel _) rfl
        fun r => punctual_of_keeps (keeps_readAwaitEnd_inTime (by decide) (by decide) r) _
  writeAwait := meetsDeadline_of_run _ (fun _ => rfl) fun _ =>
    punctual_loop (punctual_writeAwaitRound fuel) fuel _
  readDirect := by
    refine meetsDeadline_of_run (fun deadline =>
      loop (readDirectRound env fuel ret len increment deadline) fuel ⟨0,0,addr⟩) ?_ ?_
    · intro w
      simp only [smiReadAwaitDirect,h,if_false]
      rfl
    · exact fun _ => punctual_loop (punctual_readDirectRound fuel) fuel _
  writeDirect := meetsDeadline_of_run _ (fun _ => rfl) fun _ =>
    punctual_keeps_bind (keeps_setField_inTime _ _ _) fun _ =>
      punctual_loop (punctual_writeDirectRound (directWait env) looks_spinExpired fuel) fuel _
  dmaAwait := meetsDeadline_smiDmaAwait env fuel
  liteReadAwait := by
    refine meetsDeadline_of_run (fun deadline =>
      loop (Lite.readAwaitRound env ret len deadline) fuel ⟨0,0⟩ >>= Lite.readAwaitEnd env) ?_ ?_
    · intro w
      simp only [Lite.smiReadAwait,h,if_false]
      rfl
    · exact fun deadline => punctual_bind (punctual_loop punctual_lite_readAwaitRound fuel _) rfl
        fun r => punctual_of_keeps (keeps_lite_readAwaitEnd_inTime r) _
  liteWriteAwait := meetsDeadline_of_run _ (fun _ => rfl) fun _ =>
    punctual_loop (punctual_lite_writeAwaitRound fuel) fuel _
  liteReadDirect := by
    refine meetsDeadline_of_run (fun deadline =>
      loop (Lite.readDirectRound env fuel ret len increment deadline) fuel ⟨0,0,addr⟩) ?_ ?_
    · intro w
      simp only [Lite.smiReadAwaitDirect,h,if_false]
      rfl
    · exact fun _ => punctual_loop (punctual_lite_readDirectRound fuel) fuel _
  liteWriteDirect := meetsDeadline_of_run _ (fun _ => rfl) fun _ =>
    punctual_keeps_bind (keeps_setField_inTime _ _ _) fun _ =>
      punctual_loop (punctual_writeDirectRound (Lite.directWait env) looks_lite fuel) fuel _
  liteDmaAwait := meetsDeadline_smiDmaAwait env fuel

/-- The raw buffer of a programmed read, addresses that wrap downwards. -/
theorem waits_meet_deadlines_rawBuffer : WaitsMeetDeadlines
    (lineEnv (steadyPeripheral 7) fun i _ => BitVec.ofNat 18 (1000*i)) 64 .rawBuffer
    (fun k => BitVec.ofNat 32 k) 1 4 (-1) :=
  waits_meet_deadlines _ 64 (by decide) (fun k => BitVec.ofNat 32 k) 1 4 (-1)

end Calls

end RpiSmi
