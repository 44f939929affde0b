import RpiSmi.DirectTrace
import RpiSmi.History
import RpiSmi.Transfer

/-!
# What a direct write returns

`smi_direct_write_arr` returns 1 whatever its wait returned, and takes its length
as a `uint8_t`. `DirectTrace` is what the wait can meet. `served` replays the log
and lists the words that were handed over and seen done.
-/

namespace RpiSmi

open Exec BitField History

variable {σ : Type}

/-- The data word of `SMI_DD`, and whether it has been started since it was written. -/
structure Handed where
  word : Option Word
  started : Bool
  deriving DecidableEq, Repr

/-- DONE, read after a START, marks the word that was started. -/
def doneMonitor : Monitor Event Handed Word where
  next s e := match e with
    | .write r v =>
      if r = smioDd then ⟨some v,false⟩
      else if r = smioDcs ∧ SmiDcs.start.test v = true then { s with started := true }
      else s
    | .read r v =>
      if r = smioDcs ∧ SmiDcs.done.test v = true ∧ s.started = true then ⟨none,false⟩ else s
    | _ => s
  mark s e := match e with
    | .read r v =>
      if r = smioDcs ∧ SmiDcs.done.test v = true ∧ s.started = true then s.word else none
    | _ => none

/-- The words handed to the device and seen done, in order. -/
def World.served (w : World σ) : List Word := doneMonitor.marks ⟨none,false⟩ w.log

def World.handed (w : World σ) : Handed := doneMonitor.last ⟨none,false⟩ w.log

/-- Nothing is served, and the word on its way stays. -/
def Unserving (w w' : World σ) : Prop := w'.served = w.served ∧ w'.handed = w.handed

section Replay

variable (env : Env σ) (w : World σ)

theorem served_snoc (w' : World σ) {e : Event} (h : w'.log = w.log ++ [e]) :
    w'.served = w.served ++ (doneMonitor.mark w.handed e).toList ∧
      w'.handed = doneMonitor.next w.handed e := by
  simp [World.served,World.handed,h,Monitor.marks_append,Monitor.last_append]

theorem unserving_snoc {w' : World σ} {e : Event} (h : w'.log = w.log ++ [e])
    (hm : doneMonitor.mark w.handed e = none) (hn : doneMonitor.next w.handed e = w.handed) :
    Unserving w w' := by
  obtain ⟨hs,hh⟩ := served_snoc w _ h
  rw [hm] at hs
  exact ⟨hs.trans (List.append_nil _),hh.trans hn⟩

instance : IsPreorder (World σ) Unserving where
  refl _ := ⟨rfl,rfl⟩
  trans _ _ _ h h' := ⟨h'.1.trans h.1,h'.2.trans h.2⟩

theorem unserving_read {r : Reg}
    (h : ¬ (r = smioDcs ∧ SmiDcs.done.test (w.value env r) = true ∧ w.handed.started = true)) :
    Unserving w (w.read env r) :=
  unserving_snoc w rfl (by simp only [doneMonitor,if_neg h]) (by simp only [doneMonitor,if_neg h])

theorem unserving_write {r : Reg} (v : Word) (hd : r ≠ smioDd) (hs : r ≠ smioDcs) :
    Unserving w (w.write env r v) :=
  unserving_snoc w rfl rfl (by simp [doneMonitor,hd,hs])

theorem unserving_assign {r : Reg} (f : Field 32) (v : ℕ) (hd : r ≠ smioDd) (hs : r ≠ smioDcs) :
    Unserving w (w.assign env r f v) :=
  trans_of Unserving (unserving_read env w fun h => hs h.1) (unserving_write env _ _ hd hs)

theorem unserving_fetch (i : ℕ) : Unserving w (w.fetch i) := unserving_snoc w rfl rfl rfl

theorem unserving_after (c : Check σ) : Unserving w (w.after c) := by
  have key (l : List ℤ) (s : Handed) : doneMonitor.marks s (l.map .clock) = [] ∧
      doneMonitor.last s (l.map .clock) = s := by
    induction l generalizing s with
    | nil => exact ⟨rfl,rfl⟩
    | cons t l ih => exact ih s
  obtain ⟨hm,hl⟩ := key c.readings w.handed
  constructor
  · show doneMonitor.marks _ (w.log ++ c.readings.map .clock) = _
    rw [Monitor.marks_append]
    exact (congrArg _ hm).trans (List.append_nil _)
  · show doneMonitor.last _ (w.log ++ c.readings.map .clock) = _
    rw [Monitor.last_append]
    exact hl

theorem handed_sendWord (data : ℕ → Word) (k : ℕ) :
    (w.sendWord env data k).served = w.served ∧
      (w.sendWord env data k).handed = ⟨some (data k),true⟩ := by
  have hf := unserving_fetch w k
  have hw := served_snoc (w.fetch k) ((w.fetch k).write env smioDd (data k)) rfl
  have hload : ((w.fetch k).write env smioDd (data k)).handed = ⟨some (data k),false⟩ := by
    rw [hw.2]
    simp [doneMonitor]
  have hr := unserving_read env ((w.fetch k).write env smioDd (data k)) (r := smioDcs)
    (by simp [hload])
  have hstart := served_snoc (((w.fetch k).write env smioDd (data k)).read env smioDcs)
    (w.sendWord env data k) rfl
  constructor
  · rw [hstart.1,hr.1,hw.1,hf.1]
    simp [doneMonitor]
  · rw [hstart.2,hr.2,hload]
    have hne : smioDcs ≠ smioDd := by decide
    simp [doneMonitor,hne,SmiDcs.start.test_set_one (by decide)]

theorem served_read {v : Word} (hh : w.handed = ⟨some v,true⟩)
    (hd : SmiDcs.done.test (w.value env smioDcs) = true) :
    (w.read env smioDcs).served = w.served ++ [v] ∧
      (w.read env smioDcs).handed = ⟨none,false⟩ := by
  have h := served_snoc w (w.read env smioDcs) rfl
  rw [h.1,h.2,hh]
  simp [doneMonitor,hd]

end Replay

def directTimeout : String := "Direct write await timeout reached"

inductive Served (env : Env σ) (deadline : ℤ) (spin : ℕ) : World σ → World σ → Prop
  | now {w : World σ} (hd : SmiDcs.done.test (w.value env smioDcs) = true) :
      Served env deadline spin w (w.read env smioDcs)
  | later {w w' : World σ} (hd : SmiDcs.done.test (w.value env smioDcs) = false)
      (hx : (env.spinExpired deadline spin (w.read env smioDcs).dev).expired = false)
      (h : Served env deadline spin ((w.read env smioDcs).after
        (env.spinExpired deadline spin (w.read env smioDcs).dev)) w') :
      Served env deadline spin w w'

inductive Unserved (env : Env σ) (deadline : ℤ) (spin : ℕ) : World σ → Prop
  | now {w : World σ} (hd : SmiDcs.done.test (w.value env smioDcs) = false)
      (hx : (env.spinExpired deadline spin (w.read env smioDcs).dev).expired = true) :
      Unserved env deadline spin w
  | later {w : World σ} (hd : SmiDcs.done.test (w.value env smioDcs) = false)
      (hx : (env.spinExpired deadline spin (w.read env smioDcs).dev).expired = false)
      (h : Unserved env deadline spin ((w.read env smioDcs).after
        (env.spinExpired deadline spin (w.read env smioDcs).dev))) :
      Unserved env deadline spin w

/-- What the write meets from element `k` on; `late` tells whether a wait ends at the deadline. -/
inductive DirectTrace (env : Env σ) (deadline : ℤ) (data : ℕ → Word) (len increment : ℤ) :
    ℕ → BitVec 8 → World σ → (late : Bool) → Prop
  | full {k : ℕ} {addr : BitVec 8} {w : World σ} (hk : ¬ (k : ℤ) < len) :
      DirectTrace env deadline data len increment k addr w false
  | late {k : ℕ} {addr : BitVec 8} {w : World σ} (hk : (k : ℤ) < len)
      (h : Unserved env deadline k (w.sendWord env data k)) :
      DirectTrace env deadline data len increment k addr w true
  | next {k : ℕ} {addr : BitVec 8} {w v : World σ} {late : Bool} (hk : (k : ℤ) < len)
      (hs : Served env deadline k (w.sendWord env data k) v)
      (h : DirectTrace env deadline data len increment (k+1) (nextAddr increment addr)
        (v.stepped env increment addr) late) :
      DirectTrace env deadline data len increment k addr w late

section Wait

variable {env : Env σ} {deadline : ℤ} {spin : ℕ} {w w' : World σ}

theorem Served.ends (h : Served env deadline spin w w') :
    LoopEnds (fun _ => doneRound env (spinExpired env deadline) id directTimeout smiErrTimeout)
      spin w (.ok spin) w' := by
  induction h with
  | now hd => exact loopEnds_exit (ends_of_run (doneRound_done hd))
  | later hd hx _ ih =>
    exact loopEnds_again (ends_of_run (doneRound_wait hd (by rw [spinExpired_run,hx]))) ih

theorem Unserved.ends (h : Unserved env deadline spin w) : ∃ w',
    LoopEnds (fun _ => doneRound env (spinExpired env deadline) id directTimeout smiErrTimeout)
      spin w (.error smiErrTimeout) w' ∧ directTimeout ∈ w'.messages := by
  induction h with
  | now hd hx =>
    exact ⟨_,loopEnds_exit (ends_of_run (doneRound_late hd (by rw [spinExpired_run,hx]))),by simp⟩
  | later hd hx _ ih =>
    obtain ⟨w',he,hm⟩ := ih
    exact ⟨w',loopEnds_again (ends_of_run (doneRound_wait hd (by rw [spinExpired_run,hx]))) he,hm⟩

theorem doneLoop_cases {n : ℕ} {r : Except ℤ ℕ}
    (h : loop (doneRound env (spinExpired env deadline) id directTimeout smiErrTimeout) n spin w =
      (some r,w')) :
    (r = .ok spin ∧ Served env deadline spin w w') ∨
      (r = .error smiErrTimeout ∧ Unserved env deadline spin w) := by
  induction n generalizing w with
  | zero => cases h
  | succ n ih =>
    rcases hd : SmiDcs.done.test (w.value env smioDcs)
    · rcases hx : (env.spinExpired deadline spin (w.read env smioDcs).dev).expired
      · rw [loop_again (doneRound_wait hd (by rw [spinExpired_run,hx]))] at h
        rcases ih h with ⟨hr,hs⟩ | ⟨hr,hu⟩
        · exact .inl ⟨hr,.later hd hx hs⟩
        · exact .inr ⟨hr,.later hd hx hu⟩
      · rw [loop_exit (doneRound_late hd (by rw [spinExpired_run,hx]))] at h
        cases h
        exact .inr ⟨rfl,.now hd hx⟩
    · rw [loop_exit (doneRound_done hd)] at h
      cases h
      exact .inl ⟨rfl,.now hd⟩

theorem Served.served (h : Served env deadline spin w w') {v : Word}
    (hh : w.handed = ⟨some v,true⟩) : w'.served = w.served ++ [v] ∧ w'.handed = ⟨none,false⟩ ∧
      w'.messages = w.messages := by
  induction h with
  | @now w hd =>
    obtain ⟨hs,hn⟩ := served_read env w hh hd
    exact ⟨hs,hn,by simp⟩
  | @later w w' hd hx _ ih =>
    have hr := unserving_read env w (r := smioDcs) (by simp [hd])
    have ha := unserving_after (w.read env smioDcs)
      (env.spinExpired deadline spin (w.read env smioDcs).dev)
    obtain ⟨hs,hn,hm⟩ := ih (by rw [ha.2,hr.2,hh])
    rw [ha.1,hr.1] at hs
    exact ⟨hs,hn,by simpa using hm⟩

end Wait

section Loop

variable {env : Env σ} {deadline : ℤ} {data : ℕ → Word} {len increment : ℤ}

theorem writeDirectRound_served {k : ℕ} {addr : BitVec 8} {w v : World σ} (hk : (k : ℤ) < len)
    (hs : Served env deadline k (w.sendWord env data k) v) :
    Ends (fun n => writeDirectRound env n (directWait env) data len increment deadline ⟨k,k,addr⟩) w
      (.inl ⟨k+1,k+1,nextAddr increment addr⟩) (v.stepped env increment addr) := by
  obtain ⟨N,hN⟩ := hs.ends
  refine ⟨N,fun n hn => ?_⟩
  have hround := writeDirectRound_run (s := ⟨k,k,addr⟩) env n (directWait env) data increment
    deadline w hk
  exact hround.trans ((bind_run (hN n n hn hn) _).trans (bind_run (stepAddr_run increment addr) _))

theorem stepped_messages (increment : ℤ) (addr : BitVec 8) (w : World σ) :
    (w.stepped env increment addr).messages = w.messages := by
  unfold World.stepped
  split <;> simp

theorem unserving_stepped (increment : ℤ) (addr : BitVec 8) (w : World σ) :
    Unserving w (w.stepped env increment addr) := by
  unfold World.stepped
  split
  · exact refl_of Unserving w
  · exact unserving_assign env w _ _ (by decide) (by decide)

def remaining (data : ℕ → Word) (len : ℤ) (k : ℕ) : List Word :=
  (List.range' k (len.toNat-k)).map data

theorem remaining_cons {k : ℕ} (hk : (k : ℤ) < len) :
    remaining data len k = data k::remaining data len (k+1) := by
  rw [remaining,remaining,show len.toNat-k = (len.toNat-(k+1))+1 by omega,List.range'_succ,
    List.map_cons]

theorem DirectTrace.ends {k : ℕ} {addr : BitVec 8} {w : World σ} {late : Bool}
    (h : DirectTrace env deadline data len increment k addr w late) : ∃ r w',
    LoopEnds (fun n => writeDirectRound env n (directWait env) data len increment deadline)
        ⟨k,k,addr⟩ w r w' ∧
      (late = false → w'.served = w.served ++ remaining data len k ∧ w'.messages = w.messages) ∧
      (late = true → directTimeout ∈ w'.messages) := by
  induction h with
  | @full k addr w hk =>
    refine ⟨k,w,loopEnds_exit ⟨0,fun _ _ => writeDirectRound_full hk⟩,fun _ => ⟨?_,rfl⟩,by simp⟩
    rw [remaining,show len.toNat-k = 0 by omega]
    simp
  | @late k addr w hk hu =>
    obtain ⟨w',⟨N,hN⟩,hm⟩ := hu.ends
    refine ⟨smiErrTimeout,w',loopEnds_exit ⟨N,fun n hn => ?_⟩,by simp,fun _ => hm⟩
    have hround := writeDirectRound_run (s := ⟨k,k,addr⟩) env n (directWait env) data increment
      deadline w hk
    exact hround.trans (bind_run (hN n n hn hn) _)
  | @next k addr w v late hk hs _ ih =>
    obtain ⟨r,w',hl,hserved,hlate⟩ := ih
    refine ⟨r,w',loopEnds_again (writeDirectRound_served hk hs) hl,fun hf => ?_,hlate⟩
    obtain ⟨hsend,hword⟩ := handed_sendWord env w data k
    obtain ⟨hone,-,hquiet⟩ := hs.served hword
    obtain ⟨hrest,hmsg⟩ := hserved hf
    rw [(unserving_stepped increment addr v).1,hone,hsend,List.append_assoc,
      List.singleton_append,← remaining_cons hk] at hrest
    refine ⟨hrest,?_⟩
    rw [hmsg,stepped_messages,hquiet]
    simp [World.sendWord]

theorem writeDirectLoop_trace {n m k : ℕ} {addr : BitVec 8} {w w' : World σ} {r : ℤ}
    (h : loop (writeDirectRound env n (directWait env) data len increment deadline) m ⟨k,k,addr⟩ w =
      (some r,w')) : ∃ late, DirectTrace env deadline data len increment k addr w late := by
  induction m generalizing k addr w with
  | zero => cases h
  | succ m ih =>
    by_cases hk : (k : ℤ) < len
    · have hround := writeDirectRound_run (s := ⟨k,k,addr⟩) env n (directWait env) data increment
        deadline w hk
      rcases hx : loop (doneRound env (spinExpired env deadline) id directTimeout smiErrTimeout) n k
          (w.sendWord env data k) with ⟨_ | o,v⟩
      · rw [loop_stuck (hround.trans (bind_run_none hx _))] at h
        cases h
      · rcases doneLoop_cases hx with ⟨rfl,hs⟩ | ⟨rfl,hu⟩
        · rw [loop_again (hround.trans ((bind_run hx _).trans
            (bind_run (stepAddr_run increment addr) _)))] at h
          obtain ⟨late,ht⟩ := ih h
          exact ⟨late,.next hk hs ht⟩
        · exact ⟨true,.late hk hu⟩
    · exact ⟨false,.full hk⟩

theorem writeDirectLoop_grows (s : Direct) :
    Grows (fun n => loop (writeDirectRound env n (directWait env) data len increment deadline) n s)
    := by
  refine grows_loop (fun s => ?_) s
  have hbody : Grows fun n => loop (doneRound env (spinExpired env deadline) id directTimeout
      smiErrTimeout) n s.spin := grows_loop (fun spin => grows_const (doneRound env _ _ _ _ spin)) _
  by_cases hk : (s.count : ℤ) < len
  · simp only [writeDirectRound,hk,not_true,if_false]
    refine grows_bind (grows_const _) fun v => grows_bind (grows_const _) fun _ => ?_
    refine grows_bind (grows_const _) fun _ => grows_bind hbody fun r => ?_
    cases r <;> exact grows_const _
  · simp only [writeDirectRound,hk,not_false_eq_true,if_true]
    exact grows_const _

end Loop

/-- A positive result says that every word asked for was handed over and seen done; a null pointer,
a length beyond the parameter and a timeout give a negative one. -/
structure DirectReport (data : Option (ℕ → Word)) (len r : ℤ) (w : World σ) : Prop where
  positive : 0 < r → ∃ d, data = some d ∧ (List.range len.toNat).map d <:+ w.served
  negative : data = none ∨ len < 0 ∨ 255 < len ∨ directTimeout ∈ w.messages → r < 0

def directStart (env : Env σ) (addr : BitVec 8) (w : World σ) : World σ :=
  ((w.fresh.apply env (directSetup 1 addr)).clocked env).assign env smioDcs SmiDcs.write 1

def directDeadline (env : Env σ) (addr : BitVec 8) (w : World σ) : ℤ :=
  (w.fresh.apply env (directSetup 1 addr)).deadline env progWriteTimeoutS

section Call

variable {env : Env σ} {data : ℕ → Word} {addr : BitVec 8} {increment : ℤ} {w : World σ}

theorem directStart_messages : (directStart env addr w).messages = [] := by
  simp [directStart,World.clocked]

theorem smiDirectWriteArr_run (fuel : ℕ) (len : BitVec 8) :
    smiDirectWriteArr env fuel (some data) addr len increment w.fresh =
      (loop (writeDirectRound env fuel (directWait env) data len.toNat increment
        (directDeadline env addr w)) fuel ⟨0,0,addr⟩ >>= fun _ => pure 1)
        (directStart env addr w) := rfl

theorem smiDirectWriteArr_null (fuel : ℕ) (len : BitVec 8) :
    smiDirectWriteArr env fuel none addr len increment w.fresh =
      (some 1,w.fresh.apply env (directSetup 1 addr)) := rfl

theorem smiDirectWriteArr_ends {len : BitVec 8} {late : Bool}
    (h : DirectTrace env (directDeadline env addr w) data len.toNat increment 0 addr
      (directStart env addr w) late) :
    ∃ w',
      Ends (fun fuel => smiDirectWriteArr env fuel (some data) addr len increment) w.fresh 1 w' ∧
      (late = false → (List.range len.toNat).map data <:+ w'.served ∧ w'.messages = []) ∧
      (late = true → directTimeout ∈ w'.messages) := by
  obtain ⟨r,w',hl,hserved,hlate⟩ := h.ends
  obtain ⟨N,hN⟩ := hl.ends
  refine ⟨w',⟨N,fun n hn => ?_⟩,fun hf => ?_,hlate⟩
  · exact (smiDirectWriteArr_run n len).trans (bind_run (hN n hn) _)
  · obtain ⟨hs,hm⟩ := hserved hf
    rw [hs,hm,directStart_messages,remaining,Int.toNat_natCast,Nat.sub_zero,← List.range_eq_range']
    exact ⟨List.suffix_append _ _,rfl⟩

theorem smiDirectWriteArr_trace {fuel : ℕ} {len : BitVec 8} {r : ℤ} {w' : World σ}
    (h : smiDirectWriteArr env fuel (some data) addr len increment w.fresh = (some r,w')) :
    r = 1 ∧ ∃ late, DirectTrace env (directDeadline env addr w) data len.toNat increment 0 addr
      (directStart env addr w) late := by
  rw [smiDirectWriteArr_run] at h
  rcases hx : loop (writeDirectRound env fuel (directWait env) data len.toNat increment
      (directDeadline env addr w)) fuel ⟨0,0,addr⟩ (directStart env addr w) with ⟨_ | a,v⟩
  · rw [bind_run_none hx] at h
    cases h
  · rw [bind_run hx] at h
    cases h
    exact ⟨rfl,writeDirectLoop_trace hx⟩

theorem smiDirectWriteArr_grows (len : BitVec 8) :
    Grows (fun fuel => smiDirectWriteArr env fuel (some data) addr len increment) := by
  have hwait : Grows fun fuel =>
      smiWriteAwaitDirect env fuel (some data) addr len.toNat increment :=
    grows_bind (grows_const _) fun _ => grows_bind (grows_const _) fun _ => writeDirectLoop_grows _
  exact grows_bind (grows_const _) fun _ => grows_bind hwait fun _ => grows_const _

/-- The results of the array version are right when the pointer is not null and, in case the call
returns at all, the length fits and no wait ends at the deadline. -/
theorem smiDirectWriteArr_report_iff (env : Env σ) (data : Option (ℕ → Word)) (addr : BitVec 8)
    (len increment : ℤ) (w : World σ) :
    (∀ fuel r w', smiDirectWriteArr env fuel data addr (BitVec.ofInt 8 len) increment w.fresh =
        (some r,w') → DirectReport data len r w') ↔
      ∃ d, data = some d ∧ ∀ late, DirectTrace env (directDeadline env addr w) d
        (BitVec.ofInt 8 len).toNat increment 0 addr (directStart env addr w) late →
          late = false ∧ 0 ≤ len ∧ len ≤ 255 := by
  cases data with
  | none =>
    constructor
    · intro h
      have hneg := (h 0 1 _ (smiDirectWriteArr_null 0 _)).negative (.inl rfl)
      omega
    · rintro ⟨d,hd,-⟩
      cases hd
  | some d =>
    constructor
    · intro h
      refine ⟨d,rfl,fun late ht => ?_⟩
      obtain ⟨w',⟨N,hN⟩,-,hlate⟩ := smiDirectWriteArr_ends ht
      have hneg := (h N 1 w' (hN N le_rfl)).negative
      refine ⟨?_,?_,?_⟩
      · rw [← Bool.not_eq_true]
        intro hl
        have := hneg (.inr (.inr (.inr (hlate hl))))
        omega
      · by_contra hlen
        have := hneg (.inr (.inl (by omega)))
        omega
      · by_contra hlen
        have := hneg (.inr (.inr (.inl (by omega))))
        omega
    · rintro ⟨_,⟨⟩,hd⟩ fuel r w' hres
      obtain ⟨rfl,late,ht⟩ := smiDirectWriteArr_trace hres
      obtain ⟨rfl,h₀,h₁⟩ := hd late ht
      obtain ⟨v,he,hok,-⟩ := smiDirectWriteArr_ends ht
      obtain ⟨-,rfl⟩ := he.unique (smiDirectWriteArr_grows _) hres
      obtain ⟨hs,hm⟩ := hok rfl
      have hlen : (BitVec.ofInt 8 len).toNat = len.toNat := by
        rw [BitVec.toNat_ofInt]
        omega
      rw [hlen] at hs
      refine ⟨fun _ => ⟨d,rfl,hs⟩,fun hbad => ?_⟩
      simp only [hm,List.not_mem_nil,or_false,reduceCtorEq,false_or] at hbad
      omega

theorem smiDirectWrite_report_iff (env : Env σ) (data : ℕ → Word) (addr : BitVec 8)
    (w : World σ) :
    (∀ fuel r w', smiDirectWrite env fuel data addr w.fresh = (some r,w') →
        DirectReport (some data) 1 r w') ↔
      ∀ late, DirectTrace env (directDeadline env addr w) data 1 0 0 addr (directStart env addr w)
        late → late = false := by
  have h := smiDirectWriteArr_report_iff env (some data) addr 1 0 w
  constructor
  · intro hr late ht
    obtain ⟨_,⟨⟩,hd⟩ := h.mp hr
    exact (hd late ht).1
  · intro hd
    exact h.mpr ⟨data,rfl,fun late ht => ⟨hd late ht,by decide,by decide⟩⟩

/-- Both entry points: what they return is right exactly when the pointer is not null and, in case
the call returns at all, the length fits its parameter and no wait ends at the deadline. -/
theorem directWrites_report_iff (env : Env σ) (data : Option (ℕ → Word)) (word : ℕ → Word)
    (addr : BitVec 8) (len increment : ℤ) (w : World σ) :
    ((∀ fuel r w', smiDirectWriteArr env fuel data addr (BitVec.ofInt 8 len) increment w.fresh =
        (some r,w') → DirectReport data len r w') ↔
      ∃ d, data = some d ∧ ∀ late, DirectTrace env (directDeadline env addr w) d
        (BitVec.ofInt 8 len).toNat increment 0 addr (directStart env addr w) late →
          late = false ∧ 0 ≤ len ∧ len ≤ 255) ∧
    ((∀ fuel r w', smiDirectWrite env fuel word addr w.fresh = (some r,w') →
        DirectReport (some word) 1 r w') ↔
      ∀ late, DirectTrace env (directDeadline env addr w) word 1 0 0 addr
        (directStart env addr w) late → late = false) :=
  ⟨smiDirectWriteArr_report_iff env data addr len increment w,
    smiDirectWrite_report_iff env word addr w⟩

/-- 256 words are asked for, none is sent, and 1 is returned. -/
theorem directWrites_report_not : ¬ ∀ (data : Option (ℕ → Word)) (addr : BitVec 8)
    (len increment : ℤ) (w : World TraceState) (fuel : ℕ) (r : ℤ) (w' : World TraceState),
    smiDirectWriteArr (traceEnv (fun _ _ => true) (fun _ => 0) {}) fuel data addr
      (BitVec.ofInt 8 len) increment w.fresh = (some r,w') → DirectReport data len r w' := by
  intro h
  have hneg := (h (some fun _ => 7) 0 256 0 (World.init ⟨0,0,0⟩) 1 1 _ (Prod.ext rfl rfl)).negative
    (.inr (.inr (.inl (by decide))))
  omega

end Call

end RpiSmi
