import Mathlib.Data.List.Range
import RpiSmi.Transfer

/-!
# The write wait

`Room` is a wait for TXD that finds room. `Accepts` is the trace on which the
wait of `smi_write_await` is offered room once more than it has words, which is
where its guard `count < len + 1` lets a word too many through.
-/

namespace RpiSmi

open Exec

variable {σ : Type}

/-- From `s`, after `spin` fruitless polls, TXD is seen in the state `t` with the count `spin'`. -/
inductive Room (env : Env σ) (deadline : ℤ) : ℕ → σ → ℕ → σ → Prop
  | now {spin : ℕ} {s : σ} (hp : env.flag SmiCs.txd s = true) :
      Room env deadline spin s spin (env.polled s)
  | later {spin spin' : ℕ} {s t : σ} (hp : env.flag SmiCs.txd s = false)
      (hx : (env.spinExpired deadline spin (env.polled s)).expired = false)
      (ht : Room env deadline (spin+1) (env.spinExpired deadline spin (env.polled s)).state
        spin' t) : Room env deadline spin s spin' t

/-- The device takes the words from `data k` on, `left` of them, without DONE, AFERR or the
deadline in between, and then shows room for yet another. -/
inductive Accepts (env : Env σ) (deadline : ℤ) (data : ℕ → Word) : ℕ → ℕ → ℕ → σ → Prop
  | last {k spin spin' : ℕ} {s t : σ} (hd : env.flag SmiCs.done s = false)
      (hr : Room env deadline spin (env.polled s) spin' t) :
      Accepts env deadline data k 0 spin s
  | next {k left spin spin' : ℕ} {s t t' : σ} (hd : env.flag SmiCs.done s = false)
      (hr : Room env deadline spin (env.polled s) spin' t)
      (hx : (env.spinExpired deadline spin' (env.writeReg smioD (data k) t)).expired = false)
      (ht : (env.spinExpired deadline spin' (env.writeReg smioD (data k) t)).state = t')
      (ha : env.flag SmiCs.aferr t' = false)
      (h : Accepts env deadline data (k+1) left (spin'+1) (env.polled t')) :
      Accepts env deadline data k (left+1) spin s

/-- What has been loaded from the caller's array and pushed into `SMI_D`. -/
def World.sent (w : World σ) : List ℕ × List Word :=
  (w.view Event.load?,w.view (Event.writeTo? smioD))

section Sent

variable (env : Env σ) (w : World σ)

@[simp] theorem sent_fresh : w.fresh.sent = ([],[]) := rfl
@[simp] theorem sent_read (r : Reg) : (w.read env r).sent = w.sent := by
  simp [World.sent,Event.load?,Event.writeTo?]
theorem sent_write {r : Reg} (h : r ≠ smioD) (v : Word) : (w.write env r v).sent = w.sent := by
  simp [World.sent,Event.load?,Event.writeTo?,h]
@[simp] theorem sent_assign_cs (f : BitField.Field 32) (v : ℕ) :
    (w.assign env smioCs f v).sent = w.sent := by
  simp [World.assign,sent_write env _ (show smioCs ≠ smioD by decide)]
@[simp] theorem sent_report (msg : String) : (w.report msg).sent = w.sent := by
  simp [World.sent,Event.load?,Event.writeTo?]
@[simp] theorem sent_after (c : Check σ) : (w.after c).sent = w.sent := by
  simp [World.sent,Event.load?,Event.writeTo?]
@[simp] theorem sent_push (i : ℕ) (v : Word) :
    ((w.fetch i).write env smioD v).sent = (w.sent.1 ++ [i],w.sent.2 ++ [v]) := by
  simp [World.sent,Event.load?,Event.writeTo?]

end Sent

section Round

variable {env : Env σ} {fuel : ℕ} {data : ℕ → Word} {len deadline : ℤ} {spin : ℕ} {s : Poll}
  {w : World σ}

theorem txdRound_room (hp : env.flag SmiCs.txd w.dev = true) :
    txdRound env deadline spin w = (some (.inr (.ok spin)),w.read env smioCs) := by
  have hp' : SmiCs.txd.test (w.value env smioCs) = true := hp
  simp [txdRound,bind_apply,hp']

theorem txdRound_wait (hp : env.flag SmiCs.txd w.dev = false)
    (hx : (env.spinExpired deadline spin (env.polled w.dev)).expired = false) :
    txdRound env deadline spin w = (some (.inl (spin+1)),
      (w.read env smioCs).after (env.spinExpired deadline spin (env.polled w.dev))) := by
  have hp' : SmiCs.txd.test (w.value env smioCs) = false := hp
  simp only [Env.polled] at *
  simp [txdRound,bind_apply,hp',hx]

theorem txdRound_gaveUp (hp : env.flag SmiCs.txd w.dev = false)
    (hx : (env.spinExpired deadline spin (env.polled w.dev)).expired = true) :
    txdRound env deadline spin w = (some (.inr (.error smiErrTimeout)),
      ((((w.read env smioCs).after (env.spinExpired deadline spin (env.polled w.dev))).report
        "Write await timeout reached. Interface not receiving data").assign env smioCs
          SmiCs.clear 1).assign env smioCs SmiCs.done 1) := by
  have hp' : SmiCs.txd.test (w.value env smioCs) = false := hp
  simp only [Env.polled] at *
  simp [txdRound,bind_apply,hp',hx]

theorem txdRound_late (hp : env.flag SmiCs.txd w.dev = false)
    (hx : (env.spinExpired deadline spin (env.polled w.dev)).expired = true) :
    ∃ w', txdRound env deadline spin w = (some (.inr (.error smiErrTimeout)),w') ∧
      w'.sent = w.sent :=
  ⟨_,txdRound_gaveUp hp hx,by simp⟩

theorem writeAwaitRound_done (hd : env.flag SmiCs.done w.dev = true) :
    writeAwaitRound env fuel data len deadline s w = (some (.inr s.count),w.read env smioCs) := by
  have hd' : SmiCs.done.test (w.value env smioCs) = true := hd
  simp [writeAwaitRound,bind_apply,hd']

theorem writeAwaitRound_wait (hd : env.flag SmiCs.done w.dev = false) :
    writeAwaitRound env fuel data len deadline s w =
      (loop (txdRound env deadline) fuel s.spin >>= fun r => match r with
        | .error code => pure (.inr code)
        | .ok spin => writePush env data len deadline ⟨s.count,spin⟩) (w.read env smioCs) := by
  have hd' : SmiCs.done.test (w.value env smioCs) = false := hd
  simp only [writeAwaitRound,bind_apply,readField_run,hd']
  rfl

theorem writePush_run (h : (s.count : ℤ) < len+1) :
    writePush env data len deadline s w = writeChecks env deadline ⟨s.count+1,s.spin⟩
      ((w.fetch s.count).write env smioD (data s.count)) := by
  simp [writePush,h,bind_apply]

theorem writeChecks_next (hx : (env.spinExpired deadline s.spin w.dev).expired = false)
    (ha : env.flag SmiCs.aferr (env.spinExpired deadline s.spin w.dev).state = false) :
    writeChecks env deadline s w = (some (.inl ⟨s.count,s.spin+1⟩),
      (w.after (env.spinExpired deadline s.spin w.dev)).read env smioCs) := by
  have ha' : SmiCs.aferr.test ((w.after (env.spinExpired deadline s.spin w.dev)).value env smioCs) =
    false := ha
  simp [writeChecks,bind_apply,hx,ha']

theorem writeChecks_gaveUp (hx : (env.spinExpired deadline s.spin w.dev).expired = true) :
    writeChecks env deadline s w = (some (.inr smiErrTimeout),
      (((w.after (env.spinExpired deadline s.spin w.dev)).report
        "Write await timeout reached. Data available but not readable").assign env smioCs
          SmiCs.clear 1).assign env smioCs SmiCs.done 1) := by
  simp [writeChecks,bind_apply,hx]

theorem writeChecks_aferr (hx : (env.spinExpired deadline s.spin w.dev).expired = false)
    (ha : env.flag SmiCs.aferr (env.spinExpired deadline s.spin w.dev).state = true) :
    writeChecks env deadline s w = (some (.inr s.count),
      ((((w.after (env.spinExpired deadline s.spin w.dev)).read env smioCs).report
        "Protected registers written to during write").assign env smioCs SmiCs.aferr 1).assign env
          smioCs SmiCs.clear 1) := by
  have ha' : SmiCs.aferr.test ((w.after (env.spinExpired deadline s.spin w.dev)).value env smioCs) =
    true := ha
  simp [writeChecks,bind_apply,hx,ha']

theorem writeChecks_exit (h : (env.spinExpired deadline s.spin w.dev).expired = true ∨
      env.flag SmiCs.aferr (env.spinExpired deadline s.spin w.dev).state = true) :
    ∃ r w', writeChecks env deadline s w = (some (.inr r),w') ∧ w'.sent = w.sent ∧
      (r = smiErrTimeout ∨ r = s.count) := by
  rcases hx : (env.spinExpired deadline s.spin w.dev).expired
  · have ha := h.resolve_left (by simp [hx])
    exact ⟨_,_,writeChecks_aferr hx ha,by simp,.inr rfl⟩
  · exact ⟨_,_,writeChecks_gaveUp hx,by simp,.inl rfl⟩

end Round
section Loop

variable {env : Env σ} {data : ℕ → Word} {len : ℕ} {deadline : ℤ}

/-- The wait for room sends nothing, and if it goes on to a push it has met a `Room`. -/
theorem txdLoop_post (n spin : ℕ) (w : World σ) :
    Post (loop (txdRound env deadline) n spin) w
      (fun r w' => w'.sent = w.sent ∧ match r with
        | .ok spin' => Room env deadline spin w.dev spin' w'.dev
        | .error code => code = smiErrTimeout)
      (fun w' => w'.sent = w.sent) := by
  refine post_loop (fun spin₁ w₁ => w₁.sent = w.sent ∧ ∀ spin' t,
    Room env deadline spin₁ w₁.dev spin' t → Room env deadline spin w.dev spin' t)
    (fun _ _ h => h.1) ?_ n spin w ⟨rfl,fun _ _ h => h⟩
  rintro spin₁ w₁ ⟨hs,hr⟩
  rcases hp : env.flag SmiCs.txd w₁.dev
  · rcases hx : (env.spinExpired deadline spin₁ (env.polled w₁.dev)).expired
    · exact post_of_run (txdRound_wait hp hx)
        ⟨by simpa using hs,fun _ _ h => hr _ _ (.later hp hx h)⟩
    · obtain ⟨w',h,hs'⟩ := txdRound_late (w := w₁) hp hx
      exact post_of_run h ⟨hs'.trans hs,rfl⟩
  · exact post_of_run (txdRound_room hp) ⟨by simpa using hs,hr _ _ (.now hp)⟩

theorem txdLoop_ends {spin spin' : ℕ} {d t : σ} (h : Room env deadline spin d spin' t)
    (w : World σ) (hd : w.dev = d) : ∃ w', LoopEnds (fun _ => txdRound env deadline) spin w
      (.ok spin') w' ∧ w'.dev = t := by
  induction h generalizing w with
  | now hp =>
    subst hd
    exact ⟨_,loopEnds_exit (ends_of_run (txdRound_room hp)),rfl⟩
  | later hp hx _ ih =>
    subst hd
    obtain ⟨w',he,ht⟩ := ih ((w.read env smioCs).after _) rfl
    exact ⟨w',loopEnds_again (ends_of_run (txdRound_wait hp hx)) he,ht⟩

/-- Loads below `len`, pushes a prefix of the array, and a result of at most `len`. -/
structure WithinArray (data : ℕ → Word) (len : ℕ) (x : Option ℤ × World σ) : Prop where
  loads : ∀ i ∈ x.2.view Event.load?, i < len
  pushes : ∃ k ≤ len, x.2.view (Event.writeTo? smioD) = (List.range k).map data
  result : ∀ r, x.1 = some r → r ≤ len

def SentPrefix (data : ℕ → Word) (count : ℕ) (w : World σ) : Prop :=
  w.sent = (List.range count,(List.range count).map data)

theorem SentPrefix.within {count : ℕ} {w : World σ} {o : Option ℤ} (h : SentPrefix data count w)
    (hc : count ≤ len) (ho : ∀ r, o = some r → r ≤ len) : WithinArray data len (o,w) := by
  obtain ⟨hl,hp⟩ := Prod.ext_iff.mp h
  refine ⟨fun i hi => ?_,⟨count,hc,hp⟩,ho⟩
  rw [show w.view Event.load? = List.range count from hl,List.mem_range] at hi
  omega

theorem SentPrefix.push (env : Env σ) {count : ℕ} {w : World σ} (h : SentPrefix data count w) :
    SentPrefix data (count+1) ((w.fetch count).write env smioD (data count)) := by
  unfold SentPrefix at *
  rw [sent_push,h,List.range_succ,List.map_append]
  rfl

theorem writeAwaitRound_post {fuel : ℕ} {s : Poll} {w : World σ} (hc : s.count ≤ len)
    (hw : SentPrefix data s.count w)
    (ha : ¬ Accepts env deadline data s.count (len-s.count) s.spin w.dev) :
    Post (writeAwaitRound env fuel data len deadline s) w
      (fun r w' => Sum.elim (fun s' => s'.count ≤ len ∧ SentPrefix data s'.count w' ∧
          ¬ Accepts env deadline data s'.count (len-s'.count) s'.spin w'.dev)
        (fun r => WithinArray data len (some r,w')) r)
      (fun w' => WithinArray data len (none,w')) := by
  rcases hd : env.flag SmiCs.done w.dev
  · have hstay {w' : World σ} (h : w'.sent = (w.read env smioCs).sent) :
        SentPrefix data s.count w' := by
      unfold SentPrefix at *
      rw [h,sent_read,hw]
    simp only [Post,writeAwaitRound_wait hd]
    refine post_bind ((txdLoop_post fuel s.spin (w.read env smioCs)).mono ?_ ?_)
    · rintro (code | spin') w' ⟨hs,hr⟩
      · refine post_of_run (pure_run _ _) ((hstay hs).within hc ?_)
        rintro _ ⟨⟩
        rw [hr,smiErrTimeout]
        omega
      · -- room was seen, so a word is still due: the trace would accept one too many otherwise
        have hlt : s.count < len := by
          by_contra hge
          rw [show len-s.count = 0 by omega] at ha
          exact ha (.last hd hr)
        have hp := (hstay hs).push env
        simp only [Post,writePush_run (show ((⟨s.count,spin'⟩ : Poll).count : ℤ) < len+1 by
          simp only; omega)]
        generalize hv : (w'.fetch s.count).write env smioD (data s.count) = v at hp
        have hvd : v.dev = env.writeReg smioD (data s.count) w'.dev := by rw [← hv]; rfl
        by_cases hx : (env.spinExpired deadline spin' v.dev).expired = true ∨
            env.flag SmiCs.aferr (env.spinExpired deadline spin' v.dev).state = true
        · obtain ⟨r,w₂,h,hs₂,hr₂⟩ := writeChecks_exit (s := ⟨s.count+1,spin'⟩) hx
          refine post_of_run h (SentPrefix.within ?_ hlt ?_)
          · unfold SentPrefix at *
            rw [hs₂,hp]
          · rintro _ ⟨⟩
            rcases hr₂ with rfl | rfl
            · rw [smiErrTimeout]
              omega
            · exact_mod_cast hlt
        · rw [not_or,Bool.not_eq_true,Bool.not_eq_true] at hx
          refine post_of_run (writeChecks_next (s := ⟨s.count+1,spin'⟩) hx.1 hx.2) ⟨hlt,?_,?_⟩
          · unfold SentPrefix at *
            rw [sent_read,sent_after,hp]
          · rw [hvd] at hx
            intro h
            rw [show len-s.count = len-(s.count+1)+1 by omega] at ha
            refine ha (.next hd hr hx.1 rfl hx.2 ?_)
            simpa [hvd,Env.polled] using h
    · intro w' hs
      exact (hstay hs).within hc (by simp)
  · refine post_of_run (writeAwaitRound_done hd) (SentPrefix.within ?_ hc ?_)
    · unfold SentPrefix at *
      rw [sent_read,hw]
    · rintro _ ⟨⟩
      exact_mod_cast hc

theorem writePush_logs {s : Poll} {w : World σ} (h : (s.count : ℤ) < len+1) :
    .load s.count ∈ (writePush env data len deadline s w).2.log := by
  rw [writePush_run h]
  refine (keeps_writeChecks (logGrows_steps env) (fun _ _ => trivial) _ _ _).mem ?_
  simp [World.fetch,World.write]

theorem writeAwaitRound_next {k spin spin' : ℕ} {t : σ} {w : World σ} (hk : k < len)
    (hd : env.flag SmiCs.done w.dev = false)
    (hr : Room env deadline spin (env.polled w.dev) spin' t)
    (hx : (env.spinExpired deadline spin' (env.writeReg smioD (data k) t)).expired = false)
    (ha : env.flag SmiCs.aferr
      (env.spinExpired deadline spin' (env.writeReg smioD (data k) t)).state = false) :
    ∃ w', Ends (fun n => writeAwaitRound env n data len deadline ⟨k,spin⟩) w
        (.inl ⟨k+1,spin'+1⟩) w' ∧
      w'.dev =
        env.polled (env.spinExpired deadline spin' (env.writeReg smioD (data k) t)).state := by
  obtain ⟨v,⟨N,hN⟩,hv⟩ := txdLoop_ends hr (w.read env smioCs) rfl
  subst hv
  have hp := (writePush_run (s := ⟨k,spin'⟩) (w := v)
    (show (k : ℤ) < (len : ℤ)+1 by omega)).trans (writeChecks_next hx ha)
  refine ⟨(writePush env data len deadline ⟨k,spin'⟩ v).2,⟨N,fun n hn => ?_⟩,?_⟩
  · simp only [writeAwaitRound_wait hd]
    rw [bind_run (hN n n hn hn)]
    simp only [hp]
  · rw [hp]
    rfl

/-- On a trace that accepts a word too many, enough fuel reads past the array. -/
theorem writeAwaitLoop_overrun {k left spin : ℕ} {d : σ}
    (h : Accepts env deadline data k left spin d) (hk : k+left = len) (w : World σ)
    (hd : w.dev = d) : ∃ N, ∀ n m, N ≤ n → N ≤ m → .load len ∈
      (loop (writeAwaitRound env n data len deadline) m ⟨k,spin⟩ w).2.log := by
  induction h generalizing w with
  | @last k spin spin' s t hd' hr =>
    subst hd
    obtain ⟨w',⟨N,hN⟩,-⟩ := txdLoop_ends hr (w.read env smioCs) rfl
    refine ⟨N+1,fun n m hn hm => ?_⟩
    obtain ⟨m,rfl⟩ : ∃ j, m = j+1 := ⟨m-1,by omega⟩
    refine (keeps_rounds (keeps_writeAwaitRound (logGrows_steps env) n len (fun _ _ => trivial)
      trivial data deadline) m _ w).mem ?_
    rw [writeAwaitRound_wait hd',bind_run (hN n n (by omega) (by omega)),← hk]
    exact writePush_logs (s := ⟨k,spin'⟩) (by simp only; omega)
  | next hd' hr hx ht ha _ ih =>
    subst hd ht
    obtain ⟨w',⟨N,hN⟩,hw⟩ := writeAwaitRound_next (show _ < len by omega) hd' hr hx ha
    obtain ⟨M,hM⟩ := ih (by omega) w' hw
    refine ⟨max N M+1,fun n m hn hm => ?_⟩
    obtain ⟨m,rfl⟩ : ∃ j, m = j+1 := ⟨m-1,by omega⟩
    rw [loop_again (hN n (by omega)) m]
    exact hM n m (by omega) (by omega)

end Loop
section Call

variable {env : Env σ} {data : ℕ → Word} {len : ℕ} {w : World σ}

/-- The wait entered in `w` meets a trace that accepts one word more than the array has. -/
def Overruns (env : Env σ) (data : ℕ → Word) (len : ℕ) (w : World σ) : Prop :=
  Accepts env (w.deadline env progWriteTimeoutS) data 0 len 0 (w.clocked env).dev

theorem smiWriteAwait_run (fuel : ℕ) (len : ℤ) (w : World σ) :
    smiWriteAwait env fuel (some data) len w =
      loop (writeAwaitRound env fuel data len (w.deadline env progWriteTimeoutS)) fuel ⟨0,0⟩
        (w.clocked env) := rfl

theorem smiWriteAwait_within (hw : w.sent = ([],[])) :
    (∀ fuel, WithinArray data len (smiWriteAwait env fuel (some data) len w)) ↔
      ¬ Overruns env data len w := by
  have hs : SentPrefix data 0 (w.clocked env) := by simpa [SentPrefix,World.clocked] using hw
  simp only [smiWriteAwait_run]
  constructor
  · intro h ha
    obtain ⟨N,hN⟩ := writeAwaitLoop_overrun ha (Nat.zero_add _) (w.clocked env) rfl
    have hl := (h N).loads len (by
      simp only [World.view,List.mem_filterMap]
      exact ⟨_,hN N N le_rfl le_rfl,rfl⟩)
    omega
  · intro ha fuel
    have hp : Post (loop (writeAwaitRound env fuel data len (w.deadline env progWriteTimeoutS))
        fuel ⟨0,0⟩) (w.clocked env) (fun r w' => WithinArray data len (some r,w'))
        (fun w' => WithinArray data len (none,w')) := post_loop
      (fun (s : Poll) w' => s.count ≤ len ∧ SentPrefix data s.count w' ∧
        ¬ Accepts env (w.deadline env progWriteTimeoutS) data s.count (len-s.count) s.spin w'.dev)
      (fun (s : Poll) w' hi => hi.2.1.within hi.1 (by simp))
      (fun (s : Poll) w' hi => writeAwaitRound_post hi.1 hi.2.1 hi.2.2)
      fuel (⟨0,0⟩ : Poll) (w.clocked env) ⟨Nat.zero_le _,hs,ha⟩
    rcases hr : loop (writeAwaitRound env fuel data len (w.deadline env progWriteTimeoutS)) fuel
      ⟨0,0⟩ (w.clocked env) with ⟨_ | r,w'⟩
    · exact (hp.elim hr).2 rfl
    · exact (hp.elim hr).1 r rfl

theorem sent_programmedWriteSetup (cxt : SmiCxt) (addr : BitVec 8) (len : ℤ) :
    (w.apply env (programmedWriteSetup cxt addr len)).sent = w.sent := by
  have h {r : Reg} (f : BitField.Field 32) (v : ℕ) (u : World σ) (hr : r ≠ smioD) :
      (u.assign env r f v).sent = u.sent := by
    rw [World.assign,sent_write env _ hr,sent_read]
  simp only [programmedWriteSetup,smiStart,List.cons_append,List.nil_append,World.apply_field,
    World.apply_nil,sent_assign_cs]
  rw [h SmiA.addr _ _ (by decide),h SmiL.length _ _ (by decide)]
  simp only [sent_assign_cs]

/-- The three entry points keep to the caller's array exactly on the traces that do not take a
word too many. -/
theorem smiWriteAwait_within_iff (env : Env σ) (cxt : SmiCxt) (data : ℕ → Word) (addr : BitVec 8)
    (len : ℕ) (w : World σ) :
    ((∀ fuel, WithinArray data len (smiWriteAwait env fuel (some data) len w.fresh)) ↔
      ¬ Overruns env data len w.fresh) ∧
    ((∀ fuel, WithinArray data len
        (smiProgrammedWriteArr env fuel cxt (some data) addr len w.fresh)) ↔
      ¬ Overruns env data len (w.fresh.apply env (programmedWriteSetup cxt addr len))) ∧
    ((∀ fuel, WithinArray data 1 (smiProgrammedWrite env fuel cxt data addr w.fresh)) ↔
      ¬ Overruns env data 1 (w.fresh.apply env (programmedWriteSetup cxt addr 1))) := by
  have hp (len : ℕ) : (w.fresh.apply env (programmedWriteSetup cxt addr len)).sent = ([],[]) := by
    rw [sent_programmedWriteSetup,sent_fresh]
  exact ⟨smiWriteAwait_within (sent_fresh w),smiWriteAwait_within (hp len),
    smiWriteAwait_within (hp 1)⟩

def lateDoneEnv : Env ℕ where
  readReg r s := if r = smioCs then (if s < 6 then 0x10000000#32 else 0x10000002#32,s+1) else (0,s)
  writeReg _ _ s := s
  clockGettime s := (0,s)
  realloc _ s := (none,s)
  writeSync _ s := s
  limits := .default
  arm64 := true

/-- One word is given; when DONE comes two have been read and pushed, and 2 is returned. -/
theorem smiWriteAwait_not_within : ¬ ∀ (data : ℕ → Word) (len : ℕ) (w : World ℕ) (fuel : ℕ),
    WithinArray data len (smiWriteAwait lateDoneEnv fuel (some data) len w.fresh) := by
  intro h
  have hr := (h (fun _ => 7) 1 (World.init 0) 4).result 2
    (by decide)
  omega

end Call
end RpiSmi
