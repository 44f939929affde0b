import RpiSmi.DirectLoops

/-!
# Direct writes as the peripheral sees them

The setup of `smi_direct_write_arr` issues a START of its own, so the bus first
carries a zero. What becomes of the loop's first START depends on how long that
transfer lasts.
-/

namespace RpiSmi

open Exec

def Port.send (m : Peripheral) (v : Word) (p : Port) : Port := ((p.tick m).load v).start m

section Send

variable {m : Peripheral} {p : Port} {done : Bool} {a : BitVec 6} {n : ℕ} {x : BusTransfer}
  {bus : List BusTransfer} {v : Word}

theorem Port.Idle.send (h : p.Idle true a bus) : (p.send m v).Busy true a false
    (m.latency bus.length) ⟨a,v.setWidth 18,true⟩ (bus ++ [⟨a,v.setWidth 18,true⟩]) := by
  rw [Port.send,h.tick]
  exact (h.load v).start

/-- A transfer that ends two accesses later at most is out of the way of the next. -/
theorem Port.Busy.send_free (h : p.Busy true a done n x bus) (hx : x.write = true) (hn : n ≤ 1) :
    (p.send m v).Busy true a false (m.latency bus.length) ⟨a,v.setWidth 18,true⟩
      (bus ++ [⟨a,v.setWidth 18,true⟩]) := by
  match n, hn with
  | 0, _ =>
    rw [Port.send,h.tick_zero]
    exact (h.complete.load v).start
  | 1, _ =>
    have hs := (h.tick_succ (m := m) |>.load v).start_zero (m := m)
    simp only [Port.complete,hx,if_true] at hs
    exact hs

theorem Port.Busy.send_two (h : p.Busy true a done 2 x bus) (hx : x.write = true) :
    (p.send m v).Busy true a (!done) (m.latency bus.length) ⟨a,v.setWidth 18,true⟩
      (bus ++ [⟨a,v.setWidth 18,true⟩]) := by
  have hs := (h.tick_succ (m := m) |>.load v).start_one (m := m)
  simp only [Port.complete,hx,if_true] at hs
  exact hs

/-- A longer one absorbs the START. -/
theorem Port.Busy.send_late (h : p.Busy true a done (n+3) x bus) :
    (p.send m v).Busy true a false n x bus :=
  (h.tick_succ.load v).start_succ

theorem Port.Busy.send_done (h : p.Busy true a true n x bus) (hx : x.write = true) (hn : n ≤ 2) :
    (p.send m v).Busy true a false (m.latency bus.length) ⟨a,v.setWidth 18,true⟩
      (bus ++ [⟨a,v.setWidth 18,true⟩]) := by
  rcases Nat.le_succ_iff.mp hn with hn | rfl
  · exact h.send_free hx hn
  · exact h.send_two hx

/-- The accesses from a START to the write of the next, when the wait between ends at once. -/
def staleGap (increment : ℤ) : ℕ := if increment = 0 then 4 else 6

theorem Port.Busy.send_stale {b : BitVec 8} (increment : ℤ)
    (h : p.Busy true (b.setWidth 6) true n x bus) (hx : x.write = true) :
    (n < staleGap increment →
      (((p.tick m).step m increment b).send m v).Busy true ((nextAddr increment b).setWidth 6) false
        (m.latency bus.length) ⟨(nextAddr increment b).setWidth 6,v.setWidth 18,true⟩
        (bus ++ [⟨(nextAddr increment b).setWidth 6,v.setWidth 18,true⟩])) ∧
    (staleGap increment ≤ n → (((p.tick m).step m increment b).send m v).Busy true
      ((nextAddr increment b).setWidth 6) false (n-staleGap increment) x bus) := by
  rcases n with _ | n
  · rw [h.tick_zero]
    refine ⟨fun _ => (h.complete.step increment).send,fun hn => ?_⟩
    unfold staleGap at hn
    split_ifs at hn <;> omega
  · have ht := h.tick_succ (m := m)
    unfold staleGap Port.step
    split_ifs with hi
    · subst hi
      refine ⟨fun hn => ht.send_done hx (by omega),fun hn => ?_⟩
      obtain ⟨k,rfl⟩ := Nat.exists_eq_add_of_le' (show 3 ≤ n by omega)
      rw [show k+3+1-4 = k by omega]
      exact ht.send_late
    · constructor
      · intro hn
        rcases Nat.lt_or_ge n 2 with h₂ | h₂
        · exact (ht.move_idle (by omega) _).send
        · obtain ⟨k,rfl⟩ := Nat.exists_eq_add_of_le' h₂
          exact (ht.move _).send_done hx (by omega)
      · intro hn
        obtain ⟨k,rfl⟩ := Nat.exists_eq_add_of_le' (show 5 ≤ n by omega)
        rw [show k+5+1-6 = k by omega]
        exact (Port.Busy.move (n := k+3) ht _).send_late

theorem port_sendWord {w : World DirectDev} (data : ℕ → Word) (k : ℕ) :
    (w.sendWord (directEnv m) data k).dev.port = w.dev.port.send m (data k) := by
  rw [World.sendWord,port_start,port_write_dd]
  rfl

end Send

section Rounds

variable {m : Peripheral} {data : ℕ → Word} {len increment deadline : ℤ} {addr : BitVec 8}
  {k spin : ℕ} {w : World DirectDev} {bus : List BusTransfer}

abbrev writeRound (m : Peripheral) (data : ℕ → Word) (len increment deadline : ℤ) (fuel : ℕ) :
    Direct → Drv DirectDev (Direct ⊕ ℤ) :=
  writeDirectRound (directEnv m) fuel (directWait (directEnv m)) data len increment deadline

theorem writeRound_stale (h : (k : ℤ) < len)
    (hd : ((w.dev.port.send m (data k)).tick m).done = true) :
    ∃ w', Ends (fun fuel => writeRound m data len increment deadline fuel
        ⟨k,spin,addrAt increment addr k⟩) w (.inl ⟨k+1,spin+1,addrAt increment addr (k+1)⟩) w' ∧
      w'.dev.port =
        ((w.dev.port.send m (data k)).tick m).step m increment (addrAt increment addr k) := by
  have hloop := doneLoop_stale ((directWait (directEnv m)).expired deadline) id
    (directWait (directEnv m)).msg (directWait (directEnv m)).timeoutCode
    (w := w.sendWord (directEnv m) data k) (by rw [port_sendWord]; exact hd) spin
  refine ⟨((w.sendWord (directEnv m) data k).read (directEnv m) smioDcs).stepped (directEnv m)
    increment (addrAt increment addr k),?_,?_⟩
  · rw [addrAt_succ]
    have hround (fuel : ℕ) := writeDirectRound_run (s := ⟨k,spin,addrAt increment addr k⟩)
      (directEnv m) fuel (directWait (directEnv m)) data increment deadline w h
    simp only [Ends,writeRound,hround]
    exact ends_bind hloop.ends (ends_of_run (bind_run (stepAddr_run increment _) _))
  · rw [port_stepped,port_read,port_sendWord]

theorem writeRound_busy (h : (k : ℤ) < len) {n : ℕ} {x : BusTransfer}
    (hb : (w.dev.port.send m (data k)).Busy true ((addrAt increment addr k).setWidth 6) false n x
      bus) :
    ∃ r w', Ends (fun fuel => writeRound m data len increment deadline fuel
        ⟨k,spin,addrAt increment addr k⟩) w r w' ∧
      (((∃ code, r = .inr code) ∧ w'.Late) ∨
        ((∃ spin', r = .inl ⟨k+1,spin',addrAt increment addr (k+1)⟩) ∧
          w'.dev.port.Idle true ((addrAt increment addr (k+1)).setWidth 6) bus)) := by
  rw [← port_sendWord,directEnv_eq] at hb
  obtain ⟨r,w',hround,hr⟩ := writeDirectRound_lands (directWait (lineEnv m m.answers))
    (glances_line m m.answers deadline) spin h hb
  rw [← directEnv_eq] at hround
  exact ⟨r,w',hround,hr.imp_left fun hlate => ⟨⟨_,hlate.1⟩,hlate.2.1⟩⟩

def WriteLoopEnds (m : Peripheral) (data : ℕ → Word) (len increment deadline : ℤ) (s : Direct)
    (w : World DirectDev) (bus : List BusTransfer) : Prop :=
  ∃ r w', LoopEnds (writeRound m data len increment deadline) s w r w' ∧
    (w'.Late ∨ w'.dev.port.bus = bus)

theorem WriteLoopEnds.of_round {s s' : Direct} {w' : World DirectDev}
    (h : Ends (fun fuel => writeRound m data len increment deadline fuel s) w (.inl s') w')
    (ht : WriteLoopEnds m data len increment deadline s' w' bus) :
    WriteLoopEnds m data len increment deadline s w bus := by
  obtain ⟨r,v,hloop,hv⟩ := ht
  exact ⟨r,v,loopEnds_again h hloop,hv⟩

theorem WriteLoopEnds.full {s : Direct} (h : ¬ (s.count : ℤ) < len) :
    WriteLoopEnds m data len increment deadline s w w.dev.port.bus :=
  ⟨_,w,loopEnds_exit ⟨0,fun _ _ => writeDirectRound_full h⟩,.inr rfl⟩

/-- Entered idle, the rounds put one transfer each on the bus: a wait ends with the transfer that
its own START began, and the next START clears the DONE that it leaves. -/
theorem writeLoop_idle (left : ℕ) (hk : (k : ℤ)+left = len)
    (h : w.dev.port.Idle true ((addrAt increment addr k).setWidth 6) bus) :
    WriteLoopEnds m data len increment deadline ⟨k,spin,addrAt increment addr k⟩ w
      (bus ++ (List.range' k left).map (sentElem data increment addr)) := by
  obtain ⟨r,w',hloop,hw'⟩ := writeDirectLoop_idle m m.answers data
    (directWait (lineEnv m m.answers)) (glances_line m m.answers deadline) spin left hk h
  rw [← directEnv_eq] at hloop
  exact ⟨r,w',hloop,hw'.imp (·.2.1) (·.2)⟩

theorem writeLoop_busy (left : ℕ) (hk : (k : ℤ)+1+left = len) {n : ℕ} {x : BusTransfer}
    (h : (w.dev.port.send m (data k)).Busy true ((addrAt increment addr k).setWidth 6) false n x
      bus) :
    WriteLoopEnds m data len increment deadline ⟨k,spin,addrAt increment addr k⟩ w
      (bus ++ (List.range' (k+1) left).map (sentElem data increment addr)) := by
  obtain ⟨r,w',hround,hr⟩ := writeRound_busy
    (show (k : ℤ) < len by omega) h
  rcases hr with ⟨⟨code,rfl⟩,hlate⟩ | ⟨⟨spin',rfl⟩,hi⟩
  · exact ⟨code,w',loopEnds_exit hround,.inl hlate⟩
  · exact (writeLoop_idle left (by push_cast; omega) hi).of_round hround

/-- A round that ends at once is followed by one whose START may be absorbed, and from there on by
rounds that put one transfer each on the bus. -/
theorem writeLoop_stale (left : ℕ) (hk : (k : ℤ)+1+left = len) {n : ℕ} {x : BusTransfer}
    (hx : x.write = true)
    (h : (w.dev.port.send m (data k)).Busy true ((addrAt increment addr k).setWidth 6) true n x
      bus) :
    WriteLoopEnds m data len increment deadline ⟨k,spin,addrAt increment addr k⟩ w
      (bus ++ (if staleGap increment ≤ n then List.range' (k+2) (left-1)
        else List.range' (k+1) left).map (sentElem data increment addr)) := by
  obtain ⟨w',hround,hport⟩ := writeRound_stale (show (k : ℤ) < len by omega)
    (Port.tick_done h.done_eq)
  refine WriteLoopEnds.of_round hround ?_
  obtain ⟨hfree,hlate⟩ := h.send_stale (v := data (k+1)) increment hx
  rw [← hport,← addrAt_succ] at hfree
  rw [← hport,← addrAt_succ] at hlate
  rcases left with _ | left
  · have hbus : w'.dev.port.bus = bus := by
      rw [hport,Port.step_bus,Port.tick_bus,h.bus_eq]
    rw [show (if staleGap increment ≤ n then List.range' (k+2) (0-1) else List.range' (k+1) 0) = []
      by split_ifs <;> rfl,List.map_nil,List.append_nil,← hbus]
    exact WriteLoopEnds.full (by push_cast; omega)
  · split_ifs with hn
    · exact writeLoop_busy left (by push_cast; omega) (hlate hn)
    · have hb := hfree (by omega)
      rw [sentElem_eq] at hb
      rw [List.range'_succ,List.map_cons,List.append_cons]
      exact writeLoop_busy left (by push_cast; omega) hb

/-- The elements that reach the bus when `n` transfers went before the call. The first is missing
when the setup's transfer is still on its way at the loop's first START; the second when DONE of
that transfer has ended the first element's wait. -/
def seenElems (m : Peripheral) (increment : ℤ) (len n : ℕ) : List ℕ :=
  if 5 ≤ m.latency n then (List.range len).eraseIdx 0
  else if m.latency n = 4 ∧ staleGap increment ≤ m.latency (n+1) then (List.range len).eraseIdx 1
  else List.range len

theorem writeLoop_armed {p : Port} (hp : p.Armed m true addr bus)
    (hw : w.dev.port = p.direct m true) (n : ℕ) :
    WriteLoopEnds m data n increment deadline ⟨0,0,addr⟩ w (bus ++ ⟨addr.setWidth 6,0,true⟩::
      (seenElems m increment n bus.length).map (sentElem data increment addr)) := by
  rw [List.append_cons]
  rcases n with _ | n
  · have hempty : seenElems m increment 0 bus.length = [] := by
      simp [seenElems]
    have hb : w.dev.port.bus = bus ++ [⟨addr.setWidth 6,0,true⟩] := by
      rw [hw,Port.direct_bus,hp.bus_eq]
    rw [hempty,List.map_nil,List.append_nil,← hb]
    exact WriteLoopEnds.full (by simp)
  · have hrange : List.range (n+1) = 0::List.range' 1 n := by
      rw [List.range_eq_range',List.range'_succ]
    unfold Port.Armed at hp
    rcases hl : m.latency bus.length with _ | _ | l <;> rw [hl] at hp
    case zero | succ.zero =>
      -- the setup's transfer is out before the direction has been written back
      have hd : w.dev.port.Idle true ((addrAt increment addr 0).setWidth 6) _ :=
        hw ▸ hp.direct_idle (by omega) true
      rw [seenElems,if_neg (by omega),if_neg (by omega),List.range_eq_range']
      exact writeLoop_idle (k := 0) (n+1) (by push_cast; omega) hd
    case succ.succ =>
      have hd : w.dev.port.Busy true ((addrAt increment addr 0).setWidth 6) false l _ _ :=
        hw ▸ hp.direct true
      rcases Nat.lt_trichotomy l 2 with h | rfl | h
      · -- it is out before the loop's first START is read
        have hb := hd.send_free (m := m) (v := data 0) rfl (by omega)
        rw [sentElem_eq] at hb
        rw [seenElems,if_neg (by omega),if_neg (by omega),hrange,List.map_cons,
          List.append_cons (bus ++ [_])]
        exact writeLoop_busy (k := 0) n (by push_cast; omega) hb
      · -- it is out between the read and the write of that START, and DONE stays set
        have hb := hd.send_two (m := m) (v := data 0) rfl
        rw [List.length_append,List.length_singleton,sentElem_eq] at hb
        have helems : seenElems m increment (n+1) bus.length =
            0::if staleGap increment ≤ m.latency (bus.length+1) then List.range' 2 (n-1)
              else List.range' 1 n := by
          rw [seenElems,if_neg (by omega),hrange]
          by_cases hg : staleGap increment ≤ m.latency (bus.length+1)
          · rw [if_pos ⟨hl,hg⟩,if_pos hg]
            cases n <;> rfl
          · rw [if_neg fun h => hg h.2,if_neg hg]
        rw [helems,List.map_cons,List.append_cons (bus ++ [_])]
        exact writeLoop_stale (k := 0) n (by push_cast; omega) rfl hb
      · -- it is still on its way and absorbs that START
        obtain ⟨j,rfl⟩ := Nat.exists_eq_add_of_le' h
        rw [seenElems,if_pos (by omega),hrange]
        exact writeLoop_busy (k := 0) n (by push_cast; omega) (hd.send_late (v := data 0))

end Rounds

section Entry

variable {m : Peripheral} {data : ℕ → Word} {increment : ℤ} {addr len : BitVec 8}
  {w : World DirectDev}

theorem smiDirectWriteArr_bus (h : w.dev.port.flight = none) :
    ∃ w', Ends (fun fuel => smiDirectWriteArr (directEnv m) fuel (some data) addr len increment)
        w 1 w' ∧
      (w'.Late ∨ w'.dev.port.bus = w.dev.port.bus ++ ⟨addr.setWidth 6,0,true⟩::
        (seenElems m increment len.toNat w.dev.port.bus.length).map
          (sentElem data increment addr)) := by
  have harm := directSetup_armed (m := m) true addr h
  obtain ⟨r,w',hloop,hbus⟩ := writeLoop_armed (m := m)
    (w := ((w.apply (directEnv m) (directSetup 1 addr)).clocked (directEnv m)).assign (directEnv m)
      smioDcs SmiDcs.write true.toNat) harm (port_direct true) len.toNat
  have hawait : Ends (fun fuel => smiWriteAwaitDirect (directEnv m) fuel (some data) addr
      len.toNat increment) (w.apply (directEnv m) (directSetup 1 addr)) r w' := by
    simp only [Ends,smiWriteAwaitDirect,writeAwaitDirect_run]
    exact hloop.ends
  refine ⟨w',?_,hbus⟩
  simp only [Ends,smiDirectWriteArr,bind_run (regOps_run (directEnv m) (directSetup 1 addr) w)]
  exact ends_bind hawait (ends_of_run rfl)

/-- The setup's transfer passes for the first element, or it and the first element pass for the
first two. -/
def OnlyElements (m : Peripheral) (data : ℕ → Word) (increment : ℤ) (len n : ℕ) : Prop :=
  1 ≤ len ∧ (data 0).setWidth 18 = 0#18 ∧ (5 ≤ m.latency n ∨ (m.latency n = 4 ∧
    4 ≤ m.latency (n+1) ∧ 2 ≤ len ∧ increment = 0 ∧ (data 1).setWidth 18 = 0#18))

theorem elemAddr_one (increment : ℤ) (addr : BitVec 8) :
    elemAddr increment addr 0 = elemAddr increment addr 1 ↔ increment = 0 := by
  constructor
  · intro h
    have hv := congrArg BitVec.toNat h
    simp only [elemAddr,BitVec.toNat_ofInt] at hv
    rcases Int.lt_trichotomy increment 0 with hi | hi | hi
    · rw [Int.sign_eq_neg_one_of_neg hi] at hv
      omega
    · exact hi
    · rw [Int.sign_eq_one_of_pos hi] at hv
      omega
  · rintro rfl
    simp [elemAddr]

/-- The setup's transfer looks like the first element when that element is a zero. -/
theorem zero_eq_sentElem (data : ℕ → Word) (increment : ℤ) (addr : BitVec 8) :
    ⟨addr.setWidth 6,0,true⟩ = sentElem data increment addr 0 ↔
      (data 0).setWidth 18 = 0#18 := by
  simp [sentElem,elemAddr_zero,eq_comm]

theorem seen_eq_iff (m : Peripheral) (data : ℕ → Word) (increment : ℤ) (addr : BitVec 8)
    (len n : ℕ) :
    (⟨addr.setWidth 6,0,true⟩::(seenElems m increment len n).map (sentElem data increment addr) =
      (List.range len).map (sentElem data increment addr)) ↔
    OnlyElements m data increment len n := by
  by_cases h₅ : 5 ≤ m.latency n
  · rw [seenElems,if_pos h₅]
    cases len with
    | zero => simp [OnlyElements]
    | succ len =>
      rw [List.range_succ_eq_map,List.eraseIdx_cons_zero,List.map_cons,List.cons.injEq,
        zero_eq_sentElem]
      simp [OnlyElements,h₅]
  · by_cases h₄ : m.latency n = 4 ∧ staleGap increment ≤ m.latency (n+1)
    · rw [seenElems,if_neg h₅,if_pos h₄]
      match len with
      | 0 => simp [OnlyElements]
      | 1 => simp [OnlyElements,h₄.1,List.range_succ_eq_map]
      | len+2 =>
        -- the first two elements are the setup's transfer and the first element
        have hsecond : sentElem data increment addr 0 = sentElem data increment addr 1 ↔
            increment = 0 ∧ (data 0).setWidth 18 = (data 1).setWidth 18 := by
          simp only [sentElem,BusTransfer.mk.injEq,elemAddr_one,and_true]
        rw [show List.range (len+2) = 0::1::List.range' 2 len by
          rw [List.range_eq_range',List.range'_succ,List.range'_succ]]
        simp only [List.eraseIdx,List.map_cons,List.cons.injEq,and_true,zero_eq_sentElem,hsecond,
          OnlyElements]
        constructor
        · rintro ⟨h₀,rfl,h₁⟩
          exact ⟨by omega,h₀,.inr ⟨h₄.1,h₄.2,by omega,rfl,h₁ ▸ h₀⟩⟩
        · rintro ⟨-,h₀,h | ⟨-,-,-,hi,h₁⟩⟩
          · exact absurd h h₅
          · exact ⟨h₀,hi,h₀.trans h₁.symm⟩
    · rw [seenElems,if_neg h₅,if_neg h₄]
      constructor
      · intro h
        have hlen := congrArg List.length h
        simp at hlen
      · rintro ⟨-,-,h | ⟨h,hg,-,rfl,-⟩⟩
        · exact absurd h h₅
        · exact absurd ⟨h,hg⟩ h₄

/-- The bus carries the elements and nothing else exactly when an extra zero passes for one. -/
theorem smiDirectWriteArr_bus_iff (m : Peripheral) (data : ℕ → Word) (addr len : BitVec 8)
    (increment : ℤ) (w : World DirectDev) (h : w.dev.port.flight = none) :
    ∃ w', Ends (fun fuel => smiDirectWriteArr (directEnv m) fuel (some data) addr len increment)
        w.fresh 1 w' ∧
      (¬ w'.Late → (w'.dev.port.bus = w.dev.port.bus ++
          (List.range len.toNat).map (sentElem data increment addr) ↔
        OnlyElements m data increment len.toNat w.dev.port.bus.length)) := by
  obtain ⟨w',he,hbus⟩ := smiDirectWriteArr_bus (m := m) (w := w.fresh) h
  refine ⟨w',he,fun hlate => ?_⟩
  rw [hbus.resolve_left hlate]
  exact (List.append_right_inj _).trans (seen_eq_iff m data increment addr len.toNat _)

theorem smiDirectWriteArr_bus_iff_slow : (World.init restDev).dev.port.flight = none ∧
    ∃ w', Ends (fun fuel => smiDirectWriteArr (directEnv (steadyPeripheral 5)) fuel
        (some fun _ => 0) 3 2 1) (World.init restDev).fresh 1 w' ∧
      (¬ w'.Late → (w'.dev.port.bus = (World.init restDev).dev.port.bus ++
          (List.range (2 : BitVec 8).toNat).map (sentElem (fun _ => 0) 1 3) ↔
        OnlyElements (steadyPeripheral 5) (fun _ => 0) 1 (2 : BitVec 8).toNat
          (World.init restDev).dev.port.bus.length)) :=
  ⟨rfl,smiDirectWriteArr_bus_iff (steadyPeripheral 5) (fun _ => 0) 3 2 1 (World.init restDev) rfl⟩

/-- One element, the word 5: where transfers complete at once the bus carries a zero and the 5. -/
theorem smiDirectWriteArr_extra : ¬ ∀ (m : Peripheral) (data : ℕ → Word) (addr len : BitVec 8)
    (increment : ℤ) (w : World DirectDev) (fuel : ℕ), w.dev.port.flight = none →
      (smiDirectWriteArr (directEnv m) fuel (some data) addr len increment w).1 = some 1 →
      ¬ (smiDirectWriteArr (directEnv m) fuel (some data) addr len increment w).2.Late →
      (smiDirectWriteArr (directEnv m) fuel (some data) addr len increment w).2.dev.port.bus =
        w.dev.port.bus ++ (List.range len.toNat).map (sentElem data increment addr) := by
  intro h
  have hbus := h (steadyPeripheral 0) (fun _ => 5) 3 1 1 (World.init restDev) 2 rfl
    (by decide +kernel) (by decide +kernel)
  revert hbus
  decide +kernel

end Entry
end RpiSmi
