import RpiSmi.DirectLoops
import RpiSmi.LiteAwait

/-!
# Direct mode in `smilite.h`

The direct waits of `smilite.h` differ from those of `smi.c` in when they look at
the clock and in what they report. On the device of `DirectLoops` they do the same
transfers, so where neither is late the results are the same.
-/

namespace RpiSmi

open Exec Elements BitField

section Waits

variable {σ : Type} (env : Env σ) (fuel : ℕ)

namespace Lite

/-- A poll of DONE; a look at the clock sets `spin` back. -/
def readDoneRound (deadline : ℤ) : ℕ → Drv σ (ℕ ⊕ Except ℤ ℕ) :=
  doneRound env (expired env deadline) (fun spin => (if 1024 < spin then 0 else spin)+1)
    "Direct read timeout" (-eTimedOut)

def readDirectRound (ret : Ptr) (len increment deadline : ℤ) (s : Direct) :
    Drv σ (Direct ⊕ ℤ) := do
  if ¬ (s.count : ℤ) < len then return .inr s.count
  setField env smioDcs SmiDcs.start 1
  match ← loop (readDoneRound env deadline) fuel s.spin with
  | .error code => return .inr code
  | .ok spin =>
    let v ← readReg env smioDd
    storeWord ret s.count (v &&& 0xFF)
    setField env smioDcs SmiDcs.done 1
    let addr ← stepAddr env increment s.addr
    return .inl ⟨s.count+1,spin,addr⟩

def smiReadAwaitDirect (ret : Ptr) (addr : BitVec 8) (len increment : ℤ) : Drv σ ℤ := do
  if ret = .null then return -1
  setField env smioDcs SmiDcs.write 0
  setField env smioDa SmiDa.addr addr.toNat
  let deadline ← startTimeout env directReadTimeoutS
  loop (readDirectRound env fuel ret len increment deadline) fuel ⟨0,0,addr⟩

end Lite

end Waits

section Line

variable {m : Peripheral} {answer : Answers} {w : World DirectDev} {bus : List BusTransfer}
  {increment deadline : ℤ} {addr : BitVec 8} {k : ℕ} {len : ℤ} {n : ℕ} {x : BusTransfer}

theorem glances_lite (m : Peripheral) (answer : Answers) (deadline : ℤ) :
    Glances deadline (Lite.expired (lineEnv m answer) deadline) := by
  intro spin w
  rw [Lite.expired]
  by_cases hs : 1024 < spin
  · rw [if_pos hs]
    refine ⟨_,_,timeoutComplete_run _ _ _,rfl,World.memory_after _ _,fun hlate => ?_⟩
    exact (expired_after w _).mpr (.inr ⟨_,List.mem_singleton_self _,of_decide_eq_true hlate⟩)
  · rw [if_neg hs]
    exact ⟨false,w,rfl,rfl,rfl,fun hlate => absurd hlate (by decide)⟩

theorem lite_readDirectRound_run (m : Peripheral) (answer : Answers) (increment deadline : ℤ)
    (fuel : ℕ) {s : Direct} (h : (s.count : ℤ) < len) (w : World DirectDev) :
    Lite.readDirectRound (lineEnv m answer) fuel .caller len increment deadline s w =
      (loop (Lite.readDoneRound (lineEnv m answer) deadline) fuel s.spin >>= fun r => match r with
        | .error code => pure (.inr code)
        | .ok spin => fun v => (some (.inl ⟨s.count+1,spin,nextAddr increment s.addr⟩),
            v.takeWord (lineEnv m answer) .caller s.count increment s.addr))
        (w.assign (lineEnv m answer) smioDcs SmiDcs.start 1) := by
  simp only [Lite.readDirectRound,h,not_true,if_false,
    bind_run (setField_run (lineEnv m answer) _ _ _ w)]
  refine bind_congr (fun r v => ?_) _
  cases r with
  | error code => rfl
  | ok spin => exact bind_run (stepAddr_run increment s.addr) _

theorem lite_doneLoop_lands (m : Peripheral) (answer : Answers) (deadline : ℤ)
    (hf : w.dev.port.flight = some (n,x)) (hd : w.dev.port.done = false) (spin : ℕ) :
    ∃ out w', LoopEnds (fun _ => Lite.readDoneRound (lineEnv m answer) deadline) spin w out w' ∧
      ((out = .error (-eTimedOut) ∧ w'.TimedOut deadline) ∨ ((∃ spin', out = .ok spin') ∧
        w'.dev.port = w.dev.port.finish answer x ∧ w'.memory = w.memory)) :=
  doneLoop_lands m answer (glances_lite m answer deadline) hf hd spin

theorem lite_readDirectRound_idle (m : Peripheral) (answer : Answers) (deadline : ℤ) (spin : ℕ)
    (h : (k : ℤ) < len)
    (hi : w.dev.port.Idle false ((addrAt increment addr k).setWidth 6) bus) :
    ∃ r w', Ends (fun fuel => Lite.readDirectRound (lineEnv m answer) fuel .caller len increment
        deadline ⟨k,spin,addrAt increment addr k⟩) w r w' ∧
      ((r = .inr (-eTimedOut) ∧ w'.TimedOut deadline) ∨
        ((∃ spin', r = .inl ⟨k+1,spin',addrAt increment addr (k+1)⟩) ∧
          w'.dev.port.Idle false ((addrAt increment addr (k+1)).setWidth 6)
            (bus ++ [⟨(addrAt increment addr k).setWidth 6,w.dev.port.dd,false⟩]) ∧
          w'.retData = put 4 k (lowByte (answer bus.length (elemAddr increment addr k)))
            w.retData)) := by
  have hstart : (w.assign (lineEnv m answer) smioDcs SmiDcs.start 1).dev.port =
      w.dev.port.start m := by
    rw [line_assign_idle hi.flight,port_start]
  have hb := hi.start (m := m)
  rw [← hstart] at hb
  obtain ⟨out,v,hloop,hout⟩ := lite_doneLoop_lands m answer deadline hb.flight hb.done_eq spin
  have hround (fuel : ℕ) := lite_readDirectRound_run (s := ⟨k,spin,addrAt increment addr k⟩) m
    answer increment deadline fuel h w
  simp only [Ends,hround]
  rcases hout with ⟨rfl,hlate⟩ | ⟨⟨spin',rfl⟩,hp,hm⟩
  · exact ⟨_,v,ends_bind hloop.ends (ends_of_run rfl),.inl ⟨rfl,hlate⟩⟩
  · have hidle := hp ▸ hb.finish
    have hdd : v.dev.port.dd = answer bus.length (elemAddr increment addr k) := by
      rw [hp,Port.finish,hb.bus_eq,List.length_append,List.length_singleton,Nat.add_sub_cancel,
        ← setWidth_addrAt]
      rfl
    refine ⟨_,_,ends_bind hloop.ends (ends_of_run rfl),.inr ⟨⟨spin',?_⟩,?_,?_⟩⟩
    · rw [addrAt_succ]
    · rw [(line_takeWord hidle).1,addrAt_succ]
      exact hidle.clear.step increment
    · have hret : v.retData = w.retData :=
        congrArg Memory.retData (hm.trans (memory_assign _ _ _ _ _))
      rw [(line_takeWord hidle).2,hdd,hret]

theorem lite_readDirectLoop_idle (m : Peripheral) (answer : Answers) (deadline : ℤ)
    (spin left : ℕ) (hk : (k : ℤ)+left = len)
    (h : w.dev.port.Idle false ((addrAt increment addr k).setWidth 6) bus) :
    ∃ r w', LoopEnds (fun fuel => Lite.readDirectRound (lineEnv m answer) fuel .caller len
        increment deadline) ⟨k,spin,addrAt increment addr k⟩ w r w' ∧
      ((r = -eTimedOut ∧ w'.TimedOut deadline) ∨
        (r = len ∧ ReadsFrom answer increment addr k left w w')) := by
  induction left generalizing k spin w bus with
  | zero =>
    have hfull : ¬ (k : ℤ) < len := by omega
    refine ⟨k,w,loopEnds_exit ⟨0,fun _ _ => ?_⟩,.inr ⟨by omega,⟨⟨[],?_,rfl⟩,rfl⟩⟩⟩
    · simp [Lite.readDirectRound,hfull]
    · rw [List.append_nil]
  | succ left ih =>
    obtain ⟨r,v,hround,hr⟩ :=
      lite_readDirectRound_idle m answer deadline spin (show (k : ℤ) < len by omega) h
    rcases hr with ⟨rfl,hlate⟩ | ⟨⟨spin',rfl⟩,hi,hret⟩
    · exact ⟨_,v,loopEnds_exit hround,.inl ⟨rfl,hlate⟩⟩
    · obtain ⟨r,w',hloop,hw'⟩ := ih spin' (by push_cast; omega) hi
      refine ⟨r,w',loopEnds_again hround hloop,hw'.imp_right fun hq => ⟨hq.1,?_⟩⟩
      refine hq.2.cons (hi.bus_eq.trans (by rw [h.bus_eq])) (setWidth_addrAt ..) rfl ?_
      rw [hret,h.bus_eq]

theorem lite_smiReadAwaitDirect_idle (m : Peripheral) (answer : Answers)
    (h : w.dev.port.flight = none) (addr : BitVec 8) (len : ℕ) (increment : ℤ) :
    ∃ r w', Ends (fun fuel =>
        Lite.smiReadAwaitDirect (lineEnv m answer) fuel .caller addr len increment) w r w' ∧
      ((r = -eTimedOut ∧ w'.TimedOut (w.readDeadline (lineEnv m answer) addr)) ∨
        (r = len ∧ ReadsFrom answer increment addr 0 len w w')) := by
  let u := w.assign (lineEnv m answer) smioDcs SmiDcs.write false.toNat
  let v := (u.assign (lineEnv m answer) smioDa SmiDa.addr addr.toNat).clocked (lineEnv m answer)
  have hu : u.dev.port.Idle false w.dev.port.addr w.dev.port.bus := line_direct m answer h false
  have hv : v.dev.port.Idle false (addr.setWidth 6) w.dev.port.bus := by
    show (u.assign (lineEnv m answer) smioDa SmiDa.addr addr.toNat).dev.port.Idle _ _ _
    rw [line_assign_idle hu.flight,port_move]
    exact hu.move addr
  have hret : v.retData = w.retData := by
    have hm : v.memory = w.memory := by
      simp only [v,u,World.clocked,World.memory_after,memory_assign]
    exact congrArg Memory.retData hm
  obtain ⟨r,w',hloop,hw'⟩ := lite_readDirectLoop_idle (k := 0) m answer
    ((u.assign (lineEnv m answer) smioDa SmiDa.addr addr.toNat).deadline (lineEnv m answer)
      directReadTimeoutS) 0 len (show ((0 : ℕ) : ℤ)+len = len by omega) hv
  refine ⟨r,w',hloop.ends,hw'.imp_right fun hq => ⟨hq.1,?_,?_⟩⟩
  · rw [← hv.bus_eq]
    exact hq.2.bus
  · rw [← hv.bus_eq,← hret]
    exact hq.2.stored

/-- From an idle port the two headers' direct waits, where neither is late, return the same and
leave the same data and the same transfers. -/
theorem lite_awaitDirect_agrees (m : Peripheral) (answer : Answers) (data : ℕ → Word)
    (addr : BitVec 8) (len : ℕ) (increment : ℤ) (w : World DirectDev)
    (h : w.dev.port.flight = none) :
    (∃ r v r' v', Ends (fun fuel => smiReadAwaitDirect (lineEnv m answer) fuel .caller addr len
        increment) w.fresh r v ∧
      Ends (fun fuel => Lite.smiReadAwaitDirect (lineEnv m answer) fuel .caller addr len increment)
        w.fresh r' v' ∧
      (v.Late ∨ v'.Late ∨ (r = len ∧ r' = len ∧ v'.retData = v.retData ∧
        v'.dev.port.bus.map (fun x => (x.addr,x.write)) =
          v.dev.port.bus.map fun x => (x.addr,x.write)))) ∧
    (w.dev.port.addr = addr.setWidth 6 → ∃ r v r' v', Ends (fun fuel => smiWriteAwaitDirect
        (lineEnv m answer) fuel (some data) addr len increment) w.fresh r v ∧
      Ends (fun fuel => Lite.smiWriteAwaitDirect (lineEnv m answer) fuel (some data) addr len
        increment) w.fresh r' v' ∧
      (v.Late ∨ v'.Late ∨ (r = len ∧ r' = len ∧ v'.dev.port.bus = v.dev.port.bus))) := by
  constructor
  · obtain ⟨r,v,hrun,hv⟩ : ∃ r v, Ends (fun fuel => smiReadAwaitDirect (lineEnv m answer) fuel
        .caller addr len increment) w.fresh r v ∧ _ :=
      smiReadAwaitDirect_idle (w := w.fresh) h addr len increment
    obtain ⟨r',v',hrun',hv'⟩ := lite_smiReadAwaitDirect_idle m answer (w := w.fresh) h addr len
      increment
    refine ⟨r,v,r',v',hrun,hrun',?_⟩
    rcases hv with hlate | ⟨hr,hreads⟩
    · exact .inl hlate.2.1
    rcases hv' with hlate | ⟨hr',hreads'⟩
    · exact .inr (.inl hlate.2.1)
    obtain ⟨xs,hbus,hmap⟩ := hreads.bus
    obtain ⟨ys,hbus',hmap'⟩ := hreads'.bus
    refine .inr (.inr ⟨hr,hr',hreads'.stored.trans hreads.stored.symm,?_⟩)
    rw [hbus,hbus',List.map_append,List.map_append,hmap,hmap']
  · intro ha
    obtain ⟨r,v,hrun,hv⟩ := writeAwaitDirect_idle m answer (directWait (lineEnv m answer))
      (w := w.fresh) (glances_line m answer) h data addr ha len increment
    obtain ⟨r',v',hrun',hv'⟩ := writeAwaitDirect_idle m answer (Lite.directWait (lineEnv m answer))
      (w := w.fresh) (glances_lite m answer) h data addr ha len increment
    refine ⟨r,v,r',v',hrun,hrun',?_⟩
    rcases hv with hlate | ⟨hr,hbus⟩
    · exact .inl hlate.2.1
    rcases hv' with hlate | ⟨hr',hbus'⟩
    · exact .inr (.inl hlate.2.1)
    exact .inr (.inr ⟨hr,hr',hbus'.trans hbus.symm⟩)

theorem lite_awaitDirect_agrees_wrap :
    (∃ r v r' v', Ends (fun fuel => smiReadAwaitDirect (lineEnv (steadyPeripheral 7)
        fun i _ => BitVec.ofNat 18 (1000*i)) fuel .caller 254 (4 : ℕ) 5)
        (World.init parkedDev).fresh r v ∧
      Ends (fun fuel => Lite.smiReadAwaitDirect (lineEnv (steadyPeripheral 7)
        fun i _ => BitVec.ofNat 18 (1000*i)) fuel .caller 254 (4 : ℕ) 5)
        (World.init parkedDev).fresh r' v' ∧
      (v.Late ∨ v'.Late ∨ (r = (4 : ℕ) ∧ r' = (4 : ℕ) ∧ v'.retData = v.retData ∧
        v'.dev.port.bus.map (fun x => (x.addr,x.write)) =
          v.dev.port.bus.map fun x => (x.addr,x.write)))) ∧
    ∃ r v r' v', Ends (fun fuel => smiWriteAwaitDirect (lineEnv (steadyPeripheral 7)
        fun i _ => BitVec.ofNat 18 (1000*i)) fuel (some fun k => BitVec.ofNat 32 k) 254 (4 : ℕ) 5)
        (World.init parkedDev).fresh r v ∧
      Ends (fun fuel => Lite.smiWriteAwaitDirect (lineEnv (steadyPeripheral 7)
        fun i _ => BitVec.ofNat 18 (1000*i)) fuel (some fun k => BitVec.ofNat 32 k) 254 (4 : ℕ) 5)
        (World.init parkedDev).fresh r' v' ∧
      (v.Late ∨ v'.Late ∨ (r = (4 : ℕ) ∧ r' = (4 : ℕ) ∧
        v'.dev.port.bus = v.dev.port.bus)) :=
  ⟨(lite_awaitDirect_agrees _ _ (fun k => BitVec.ofNat 32 k) _ _ _ (World.init parkedDev) rfl).1,
    (lite_awaitDirect_agrees _ _ _ _ _ _ (World.init parkedDev) rfl).2 (by decide)⟩

end Line

end RpiSmi
