import RpiSmi.DirectDevice
import RpiSmi.Frames

/-!
# The direct loops from an idle port

The device of `DirectDevice` with eighteen data lines: what it answers to a read
may be another value for every transfer. Entered idle, a loop waits in every round
for the transfer that its own START began, so no DONE is taken for another's.
-/

namespace RpiSmi

open Exec Elements BitField

/-- What the data lines carry in transfer `i`, when that is a read of address `a`. -/
abbrev Answers := ℕ → BitVec 6 → BitVec 18

def Peripheral.answers (m : Peripheral) : Answers := fun _ a => (m.mem a).setWidth 18

namespace Port

def finish (answer : Answers) (x : BusTransfer) (p : Port) : Port :=
  { p with
    flight := none, done := true, dd := if x.write then p.dd else answer (p.bus.length-1) x.addr }

def land (answer : Answers) (p : Port) : Port :=
  match p.flight with
  | none => p
  | some (0,x) => p.finish answer x
  | some (n+1,x) => { p with flight := some (n,x) }

end Port

/-- The device whose data lines answer like this; the rest is as in `directEnv`. -/
def lineEnv (m : Peripheral) (answer : Answers) : Env DirectDev :=
  { directEnv m with
    readReg := fun r d =>
      let p := d.port.land answer
      (if r = smioDcs then p.dcs else if r = smioDa then p.da
        else if r = smioDd then p.dd.setWidth 32 else d.regs r,{ d with port := p })
    writeReg := fun r v d =>
      let p := d.port.land answer
      if r = smioDcs then { d with port := p.control m v }
      else if r = smioDa then { d with port := { p with da := v } }
      else if r = smioDd then { d with port := p.load v }
      else { d with port := p, regs := Function.update d.regs r v } }

theorem Port.land_answers (m : Peripheral) : Port.land m.answers = Port.tick m := by
  funext p
  rcases h : p.flight with _ | ⟨_ | n,x⟩ <;>
    simp [Port.land,Port.tick,h,Port.finish,Port.complete,Peripheral.answers]

theorem directEnv_eq (m : Peripheral) : directEnv m = lineEnv m m.answers := by
  rw [lineEnv,Port.land_answers]
  rfl

section Line

variable {m : Peripheral} {answer : Answers} {w : World DirectDev} {p : Port} {write done : Bool}
  {a : BitVec 6} {n : ℕ} {x : BusTransfer} {bus : List BusTransfer}

theorem Port.land_idle (h : p.flight = none) : p.land answer = p := by
  simp [Port.land,h]

theorem Port.Idle.land (h : p.Idle write a bus) : p.land answer = p := land_idle h.flight

theorem Port.Busy.finish (h : p.Busy write a done n x bus) :
    (p.finish answer x).Idle write a bus := ⟨h.write_eq,h.addr_eq,rfl,h.bus_eq⟩

theorem line_read_idle (h : w.dev.port.flight = none) (r : Reg) :
    (lineEnv m answer).readReg r w.dev = (directEnv m).readReg r w.dev := by
  simp only [lineEnv,directEnv,Port.land_idle h,Port.tick_idle h]

theorem line_write_idle (h : w.dev.port.flight = none) (r : Reg) (v : Word) :
    w.write (lineEnv m answer) r v = w.write (directEnv m) r v := by
  simp only [World.write,lineEnv,directEnv,Port.land_idle h,Port.tick_idle h]

theorem line_assign_idle (h : w.dev.port.flight = none) (r : Reg) (f : Field 32) (v : ℕ) :
    w.assign (lineEnv m answer) r f v = w.assign (directEnv m) r f v := by
  have hread : w.read (lineEnv m answer) r = w.read (directEnv m) r := by
    rw [World.read,World.read,World.value,World.value,line_read_idle h]
  have hflight : (w.read (directEnv m) r).dev.port.flight = none := by
    rw [port_read,Port.tick_idle h,h]
  rw [World.assign,World.assign,hread,line_write_idle hflight,World.value,World.value,
    line_read_idle h]

theorem line_stepped_idle (h : w.dev.port.flight = none) (increment : ℤ) (b : BitVec 8) :
    (w.stepped (lineEnv m answer) increment b).dev.port = w.dev.port.step m increment b := by
  rw [← port_stepped,World.stepped,World.stepped,line_assign_idle h]

theorem line_value_dcs :
    w.value (lineEnv m answer) smioDcs = (w.dev.port.land answer).dcs := rfl

theorem line_port_read (r : Reg) :
    (w.read (lineEnv m answer) r).dev.port = w.dev.port.land answer := rfl

theorem glances_line (m : Peripheral) (answer : Answers) (deadline : ℤ) :
    Glances deadline (spinExpired (lineEnv m answer) deadline) := by
  refine fun spin w => ⟨_,_,spinExpired_run _ _ _ _,?_,World.memory_after _ _,?_⟩
  · exact port_spinExpired (m := m) deadline spin
  · exact expired_of_check _ w

end Line

section Rounds

variable {m : Peripheral} {answer : Answers} {increment deadline : ℤ} {addr : BitVec 8} {k : ℕ}
  {w : World DirectDev} {bus : List BusTransfer} {n : ℕ} {x : BusTransfer}

/-- With DONE clear a wait lasts until the transfer in progress completes, unless it times out. -/
theorem doneLoop_lands (m : Peripheral) (answer : Answers) {expired : ℕ → Drv DirectDev Bool}
    {next : ℕ → ℕ} {msg : String} {code : ℤ} (hx : Glances deadline expired)
    (hf : w.dev.port.flight = some (n,x)) (hd : w.dev.port.done = false)
    (spin : ℕ) : ∃ out w',
      LoopEnds (fun _ => doneRound (lineEnv m answer) expired next msg code) spin w out w' ∧
      ((out = .error code ∧ w'.TimedOut deadline) ∨ ((∃ spin', out = .ok spin') ∧
        w'.dev.port = w.dev.port.finish answer x ∧ w'.memory = w.memory)) := by
  induction n generalizing w spin with
  | zero =>
    have hl : w.dev.port.land answer = w.dev.port.finish answer x := by
      simp [Port.land,hf]
    have hpoll : SmiDcs.done.test (w.value (lineEnv m answer) smioDcs) = true := by
      rw [line_value_dcs,Port.test_done,hl]
      rfl
    refine ⟨_,_,loopEnds_exit (ends_of_run (doneRound_done hpoll)),
      .inr ⟨⟨spin,rfl⟩,?_,memory_read _ _ _⟩⟩
    rw [line_port_read,hl]
  | succ n ih =>
    have hl : w.dev.port.land answer = { w.dev.port with flight := some (n,x) } := by
      simp [Port.land,hf]
    have hpoll : SmiDcs.done.test (w.value (lineEnv m answer) smioDcs) = false := by
      rw [line_value_dcs,Port.test_done,hl,hd]
    obtain ⟨b,v,hv,hp,hm,hlate⟩ := hx spin (w.read (lineEnv m answer) smioDcs)
    have hport : v.dev.port = { w.dev.port with flight := some (n,x) } := by
      rw [hp,line_port_read,hl]
    cases b with
    | true =>
      refine ⟨_,_,loopEnds_exit (ends_of_run (doneRound_late hpoll hv)),.inl ⟨rfl,?_,?_⟩⟩
      · simp [World.Late,World.assign,Event.error?]
      · rw [expired_assign,expired_assign,expired_report]
        exact hlate rfl
    | false =>
      obtain ⟨out,w',he,hq⟩ := ih (w := v) (by rw [hport]) (by rw [hport]; exact hd) (next spin)
      refine ⟨out,w',loopEnds_again (ends_of_run (doneRound_wait hpoll hv)) he,?_⟩
      rcases hq with hq | ⟨hout,hport',hmem⟩
      · exact .inl hq
      · refine .inr ⟨hout,?_,?_⟩
        · rw [hport',hport]
          rfl
        · rw [hmem,hm,memory_read]

section Write

variable {data : ℕ → Word} {len : ℤ} {spin : ℕ}

def sentElem (data : ℕ → Word) (increment : ℤ) (addr : BitVec 8) (k : ℕ) : BusTransfer :=
  ⟨elemAddr increment addr k,(data k).setWidth 18,true⟩

theorem writeDirectRound_lands (wait : DirectWait DirectDev)
    (hx : Glances deadline (wait.expired deadline)) (spin : ℕ) (h : (k : ℤ) < len)
    (hb : (w.sendWord (lineEnv m answer) data k).dev.port.Busy true
      ((addrAt increment addr k).setWidth 6) false n x bus) :
    ∃ r w', Ends (fun fuel => writeDirectRound (lineEnv m answer) fuel wait data len increment
        deadline ⟨k,spin,addrAt increment addr k⟩) w r w' ∧
      ((r = .inr wait.timeoutCode ∧ w'.TimedOut deadline) ∨
        ((∃ spin', r = .inl ⟨k+1,spin',addrAt increment addr (k+1)⟩) ∧
          w'.dev.port.Idle true ((addrAt increment addr (k+1)).setWidth 6) bus)) := by
  obtain ⟨out,v,hloop,hout⟩ := doneLoop_lands m answer
    (w := w.sendWord (lineEnv m answer) data k) hx
    hb.flight hb.done_eq spin
  have hround (fuel : ℕ) := writeDirectRound_run (s := ⟨k,spin,addrAt increment addr k⟩)
    (lineEnv m answer) fuel wait data increment deadline w h
  simp only [Ends,hround]
  rcases hout with ⟨rfl,hlate⟩ | ⟨⟨spin',rfl⟩,hp,-⟩
  · exact ⟨_,v,ends_bind hloop.ends (ends_of_run rfl),.inl ⟨rfl,hlate⟩⟩
  · have hi : v.dev.port.Idle true ((addrAt increment addr k).setWidth 6) bus :=
      hp ▸ hb.finish
    refine ⟨_,v.stepped (lineEnv m answer) increment (addrAt increment addr k),ends_bind hloop.ends
      (ends_of_run (bind_run (stepAddr_run increment _) _)),.inr ⟨⟨spin'+1,?_⟩,?_⟩⟩
    · rw [addrAt_succ]
    · rw [line_stepped_idle hi.flight,addrAt_succ]
      exact hi.step increment

theorem sentElem_eq (data : ℕ → Word) (increment : ℤ) (addr : BitVec 8) (k : ℕ) :
    ⟨(addrAt increment addr k).setWidth 6,(data k).setWidth 18,true⟩ =
      sentElem data increment addr k := by
  rw [setWidth_addrAt,sentElem]

theorem line_sendWord (m : Peripheral) (answer : Answers) (data : ℕ → Word)
    (h : w.dev.port.Idle true ((addrAt increment addr k).setWidth 6) bus) :
    (w.sendWord (lineEnv m answer) data k).dev.port.Busy true
      ((addrAt increment addr k).setWidth 6) false (m.latency bus.length)
      (sentElem data increment addr k) (bus ++ [sentElem data increment addr k]) := by
  have hidle : (w.fetch k).dev.port.flight = none := h.flight
  have hload : ((w.fetch k).write (directEnv m) smioDd (data k)).dev.port =
      w.dev.port.load (data k) := by
    rw [port_write_dd,dev_fetch,h.tick]
  rw [World.sendWord,line_write_idle hidle,line_assign_idle (by rw [hload]; exact h.flight),
    port_start,hload,← sentElem_eq]
  exact (h.load (data k)).start

/-- Entered idle, the rounds put one transfer each on the bus. -/
theorem writeDirectLoop_idle (m : Peripheral) (answer : Answers) (data : ℕ → Word)
    (wait : DirectWait DirectDev) (hx : Glances deadline (wait.expired deadline)) (spin left : ℕ)
    (hk : (k : ℤ)+left = len)
    (h : w.dev.port.Idle true ((addrAt increment addr k).setWidth 6) bus) :
    ∃ r w', LoopEnds (fun fuel => writeDirectRound (lineEnv m answer) fuel wait data len increment
        deadline) ⟨k,spin,addrAt increment addr k⟩ w r w' ∧
      ((r = wait.timeoutCode ∧ w'.TimedOut deadline) ∨ (r = len ∧ w'.dev.port.bus =
        bus ++ (List.range' k left).map (sentElem data increment addr))) := by
  induction left generalizing k spin w bus with
  | zero =>
    rw [List.range'_zero,List.map_nil,List.append_nil]
    exact ⟨k,w,loopEnds_exit ⟨0,fun _ _ => writeDirectRound_full (by simp only; omega)⟩,
      .inr ⟨by omega,h.bus_eq⟩⟩
  | succ left ih =>
    obtain ⟨r,v,hround,hr⟩ := writeDirectRound_lands wait hx spin
      (show (k : ℤ) < len by omega) (line_sendWord m answer data h)
    rcases hr with ⟨rfl,hlate⟩ | ⟨⟨spin',rfl⟩,hi⟩
    · exact ⟨_,v,loopEnds_exit hround,.inl ⟨rfl,hlate⟩⟩
    · obtain ⟨r,w',hloop,hw'⟩ := ih spin' (by push_cast; omega) hi
      rw [List.append_assoc,List.singleton_append,← List.map_cons,← List.range'_succ] at hw'
      exact ⟨r,w',loopEnds_again hround hloop,hw'⟩

end Write

section Read

variable {len : ℤ} {spin : ℕ}

def lowByte (v : BitVec 18) : Word := (v.setWidth 8).setWidth 32

theorem lowByte_eq (v : BitVec 18) : (v.setWidth 32 : Word) &&& 0xFF = lowByte v := by
  apply BitVec.eq_of_toNat_eq
  have hv := v.isLt
  simp only [lowByte,BitVec.toNat_and,BitVec.toNat_setWidth]
  rw [show (0xFF : Word).toNat = 2^8-1 from rfl,Nat.and_two_pow_sub_one_eq_mod]
  omega

theorem line_takeWord {a : BitVec 6} {b : BitVec 8} (h : w.dev.port.Idle false a bus) :
    (w.takeWord (lineEnv m answer) .caller k increment b).dev.port =
        (w.dev.port.clear m).step m increment b ∧
      (w.takeWord (lineEnv m answer) .caller k increment b).retData =
        put 4 k (lowByte w.dev.port.dd) w.retData := by
  let v := (w.read (lineEnv m answer) smioDd).store .caller k
    (w.value (lineEnv m answer) smioDd &&& 0xFF)
  have hread : v.dev.port = w.dev.port := by
    show (w.read (lineEnv m answer) smioDd).dev.port = w.dev.port
    rw [line_port_read,h.land]
  have hflight : v.dev.port.flight = none := by rw [hread,h.flight]
  have hclear : (v.assign (lineEnv m answer) smioDcs SmiDcs.done 1).dev.port =
      w.dev.port.clear m := by
    rw [line_assign_idle hflight,port_clear,hread]
  have hvalue : w.value (lineEnv m answer) smioDd &&& 0xFF = lowByte w.dev.port.dd := by
    have hl : w.dev.port.land answer = w.dev.port := h.land
    rw [← lowByte_eq,← hl]
    rfl
  have hmem : (w.takeWord (lineEnv m answer) .caller k increment b).memory =
      w.memory.store .caller k (w.value (lineEnv m answer) smioDd &&& 0xFF) := by
    unfold World.takeWord World.stepped
    split_ifs <;> simp
  constructor
  · rw [World.takeWord,line_stepped_idle,hclear]
    rw [hclear]
    exact h.clear.flight
  · rw [← hvalue]
    exact congrArg Memory.retData hmem

theorem readDirectRound_lands (deadline : ℤ) (spin : ℕ) (h : (k : ℤ) < len) (hx : x.write = false)
    (hb : (w.assign (lineEnv m answer) smioDcs SmiDcs.start 1).dev.port.Busy false
      ((addrAt increment addr k).setWidth 6) false n x bus) :
    ∃ r w', Ends (fun fuel => readDirectRound (lineEnv m answer) fuel .caller len increment
        deadline ⟨k,spin,addrAt increment addr k⟩) w r w' ∧
      ((r = .inr smiErrTimeout ∧ w'.TimedOut deadline) ∨
        ((∃ spin', r = .inl ⟨k+1,spin',addrAt increment addr (k+1)⟩) ∧
          w'.dev.port.Idle false ((addrAt increment addr (k+1)).setWidth 6) bus ∧
          w'.retData = put 4 k (lowByte (answer (bus.length-1) x.addr)) w.retData)) := by
  obtain ⟨out,v,hloop,hout⟩ := doneLoop_lands m answer
    (w := w.assign (lineEnv m answer) smioDcs SmiDcs.start 1) (glances_line m answer deadline)
    hb.flight hb.done_eq spin
  simp only [Ends,readDirectRound_run (s := ⟨k,spin,addrAt increment addr k⟩) h]
  rcases hout with ⟨rfl,hlate⟩ | ⟨⟨spin',rfl⟩,hp,hm⟩
  · exact ⟨_,v,ends_bind hloop.ends (ends_of_run rfl),.inl ⟨rfl,hlate⟩⟩
  · have hi : v.dev.port.Idle false ((addrAt increment addr k).setWidth 6) bus := hp ▸ hb.finish
    have hdd : v.dev.port.dd = answer (bus.length-1) x.addr := by
      rw [hp,Port.finish,hb.bus_eq,hx]
      rfl
    refine ⟨_,_,ends_bind hloop.ends (ends_of_run rfl),.inr ⟨⟨spin',?_⟩,?_,?_⟩⟩
    · rw [addrAt_succ]
    · rw [(line_takeWord hi).1,addrAt_succ]
      exact hi.clear.step increment
    · have hret : v.retData = w.retData :=
        congrArg Memory.retData (hm.trans (memory_assign _ _ _ _ _))
      rw [(line_takeWord hi).2,hdd,hret]

/-- Elements `k` to `k+left-1` were read with one transfer each, in this order. -/
structure ReadsFrom (answer : Answers) (increment : ℤ) (addr : BitVec 8) (k left : ℕ)
    (w w' : World DirectDev) : Prop where
  bus : ∃ xs : List BusTransfer, w'.dev.port.bus = w.dev.port.bus ++ xs ∧
    xs.map (fun x => (x.addr,x.write)) =
      (List.range' k left).map fun i => (elemAddr increment addr i,false)
  stored : w'.retData = putAll 4 ((List.range' k left).map fun i =>
    lowByte (answer (w.dev.port.bus.length+(i-k)) (elemAddr increment addr i))) k w.retData

theorem ReadsFrom.cons {left : ℕ} {v w' : World DirectDev} {y : BusTransfer}
    (h : ReadsFrom answer increment addr (k+1) left v w')
    (hbus : v.dev.port.bus = w.dev.port.bus ++ [y])
    (hy : y.addr = elemAddr increment addr k) (hw : y.write = false)
    (hret : v.retData = put 4 k
      (lowByte (answer w.dev.port.bus.length (elemAddr increment addr k))) w.retData) :
    ReadsFrom answer increment addr k (left+1) w w' := by
  obtain ⟨xs,hxs,hmap⟩ := h.bus
  refine ⟨⟨y::xs,?_,?_⟩,?_⟩
  · rw [hxs,hbus,List.append_assoc,List.singleton_append]
  · rw [List.range'_succ,List.map_cons,List.map_cons,hmap,hy,hw]
  · have hnext : ∀ i ∈ List.range' (k+1) left,
        lowByte (answer (v.dev.port.bus.length+(i-(k+1))) (elemAddr increment addr i)) =
          lowByte (answer (w.dev.port.bus.length+(i-k)) (elemAddr increment addr i)) := by
      intro i hi
      have hle := (List.mem_range'_1.mp hi).1
      rw [hbus,List.length_append,List.length_singleton,
        show w.dev.port.bus.length+1+(i-(k+1)) = w.dev.port.bus.length+(i-k) by omega]
    rw [h.stored,hret,List.map_congr_left hnext,List.range'_succ,List.map_cons,putAll,Nat.sub_self]
    rfl

/-- Entered idle, each round makes one read and stores what the data lines carried in it. -/
theorem readDirectLoop_idle (m : Peripheral) (answer : Answers) (deadline : ℤ) (spin left : ℕ)
    (hk : ∀ i : ℕ, (i : ℤ) < len ↔ i < k+left)
    (h : w.dev.port.Idle false ((addrAt increment addr k).setWidth 6) bus) :
    ∃ r w', LoopEnds (fun fuel => readDirectRound (lineEnv m answer) fuel .caller len increment
        deadline) ⟨k,spin,addrAt increment addr k⟩ w r w' ∧
      ((r = smiErrTimeout ∧ w'.TimedOut deadline) ∨
        (r = (k+left : ℕ) ∧ ReadsFrom answer increment addr k left w w')) := by
  induction left generalizing k spin w bus with
  | zero =>
    refine ⟨k,w,loopEnds_exit ⟨0,fun _ _ => readDirectRound_full fun hlt =>
      absurd ((hk k).mp hlt) (by omega)⟩,.inr ⟨rfl,⟨⟨[],?_,rfl⟩,rfl⟩⟩⟩
    rw [List.append_nil]
  | succ left ih =>
    have hstart : (w.assign (lineEnv m answer) smioDcs SmiDcs.start 1).dev.port =
        w.dev.port.start m := by
      rw [line_assign_idle h.flight,port_start]
    obtain ⟨r,v,hround,hr⟩ := readDirectRound_lands deadline spin ((hk k).mpr (by omega)) rfl
      (hstart ▸ h.start)
    rcases hr with ⟨rfl,hlate⟩ | ⟨⟨spin',rfl⟩,hi,hret⟩
    · exact ⟨_,v,loopEnds_exit hround,.inl ⟨rfl,hlate⟩⟩
    · have hk' : ∀ i : ℕ, (i : ℤ) < len ↔ i < k+1+left := fun i =>
        (hk i).trans (by rw [show k+1+left = k+(left+1) by omega])
      obtain ⟨r,w',hloop,hw'⟩ := ih spin' hk' hi
      refine ⟨r,w',loopEnds_again hround hloop,hw'.imp_right fun hq => ⟨?_,?_⟩⟩
      · rw [hq.1]
        congr 1
        omega
      · refine hq.2.cons (hi.bus_eq.trans (by rw [h.bus_eq])) (setWidth_addrAt ..) rfl ?_
        rw [hret,List.length_append,List.length_singleton,Nat.add_sub_cancel,h.bus_eq,
          setWidth_addrAt]

end Read

end Rounds

section Calls

variable {σ : Type} {m : Peripheral} {answer : Answers} {w : World DirectDev}

theorem Port.Idle.direct {p : Port} {write : Bool} {a : BitVec 6} {bus : List BusTransfer}
    (h : p.Idle write a bus) (b : Bool) : (p.direct m b).Idle b a bus := by
  rw [Port.direct,Port.rewrite,h.tick,h.tick]
  exact ⟨rfl,h.addr_eq,h.flight,h.bus_eq⟩

theorem line_direct (m : Peripheral) (answer : Answers) (h : w.dev.port.flight = none) (b : Bool) :
    (w.assign (lineEnv m answer) smioDcs SmiDcs.write b.toNat).dev.port.Idle b w.dev.port.addr
      w.dev.port.bus := by
  rw [line_assign_idle h,port_direct]
  exact (⟨rfl,rfl,h,rfl⟩ : w.dev.port.Idle _ _ _).direct b

def World.readDeadline (env : Env σ) (addr : BitVec 8) (w : World σ) : ℤ :=
  ((w.assign env smioDcs SmiDcs.write 0).assign env smioDa SmiDa.addr addr.toNat).deadline env
    directReadTimeoutS

theorem smiReadAwaitDirect_idle (h : w.dev.port.flight = none) (addr : BitVec 8) (len : ℕ)
    (increment : ℤ) : ∃ r w', Ends (fun fuel =>
        smiReadAwaitDirect (lineEnv m answer) fuel .caller addr len increment) w r w' ∧
      ((r = smiErrTimeout ∧ w'.TimedOut (w.readDeadline (lineEnv m answer) addr)) ∨
        (r = len ∧ ReadsFrom answer increment addr 0 len w w')) := by
  let u := w.assign (lineEnv m answer) smioDcs SmiDcs.write false.toNat
  let v := (u.assign (lineEnv m answer) smioDa SmiDa.addr addr.toNat).clocked (lineEnv m answer)
  have hu : u.dev.port.Idle false w.dev.port.addr w.dev.port.bus :=
    line_direct m answer h false
  have hv : v.dev.port.Idle false (addr.setWidth 6) w.dev.port.bus := by
    show (u.assign (lineEnv m answer) smioDa SmiDa.addr addr.toNat).dev.port.Idle _ _ _
    rw [line_assign_idle hu.flight,port_move]
    exact hu.move addr
  have hret : v.retData = w.retData := by
    have hm : v.memory = w.memory := by
      simp only [v,u,World.clocked,World.memory_after,memory_assign]
    exact congrArg Memory.retData hm
  obtain ⟨r,w',hloop,hw'⟩ := readDirectLoop_idle (k := 0) m answer
    ((u.assign (lineEnv m answer) smioDa SmiDa.addr addr.toNat).deadline (lineEnv m answer)
      directReadTimeoutS) 0 len
    (show ∀ i : ℕ, (i : ℤ) < len ↔ i < 0+len from fun i => by omega) hv
  refine ⟨r,w',?_,?_⟩
  · simp only [Ends,smiReadAwaitDirect_run (show Ptr.caller ≠ .null by decide)]
    exact hloop.ends
  · rcases hw' with hlate | ⟨hr,hreads⟩
    · exact .inl hlate
    · refine .inr ⟨by rw [hr,Nat.zero_add],?_,?_⟩
      · rw [← hv.bus_eq]
        exact hreads.bus
      · rw [← hv.bus_eq,← hret]
        exact hreads.stored

theorem writeAwaitDirect_idle (m : Peripheral) (answer : Answers) (wait : DirectWait DirectDev)
    (hx : ∀ deadline, Glances deadline (wait.expired deadline)) (h : w.dev.port.flight = none)
    (data : ℕ → Word) (addr : BitVec 8) (ha : w.dev.port.addr = addr.setWidth 6) (len : ℕ)
    (increment : ℤ) : ∃ r w', Ends (fun fuel =>
        writeAwaitDirect (lineEnv m answer) fuel wait (some data) addr len increment) w r w' ∧
      ((r = wait.timeoutCode ∧ w'.TimedOut (w.deadline (lineEnv m answer) progWriteTimeoutS)) ∨
        (r = len ∧ w'.dev.port.bus =
          w.dev.port.bus ++ (List.range len).map (sentElem data increment addr))) := by
  have hv := line_direct m answer (w := w.clocked (lineEnv m answer)) h true
  obtain ⟨r,w',hloop,hw'⟩ := writeDirectLoop_idle (k := 0) m answer data wait
    (hx (w.deadline (lineEnv m answer) progWriteTimeoutS)) 0 len
    (show ((0 : ℕ) : ℤ)+len = len by omega) (ha ▸ hv)
  refine ⟨r,w',?_,?_⟩
  · simp only [Ends,writeAwaitDirect_run]
    exact hloop.ends
  · rwa [← List.range_eq_range'] at hw'

theorem smiWriteAwaitDirect_idle (h : w.dev.port.flight = none) (data : ℕ → Word)
    (addr : BitVec 8) (ha : w.dev.port.addr = addr.setWidth 6) (len : ℕ) (increment : ℤ) :
    ∃ r w', Ends (fun fuel =>
        smiWriteAwaitDirect (lineEnv m answer) fuel (some data) addr len increment) w r w' ∧
      ((r = smiErrTimeout ∧ w'.TimedOut (w.deadline (lineEnv m answer) progWriteTimeoutS)) ∨
        (r = len ∧ w'.dev.port.bus =
          w.dev.port.bus ++ (List.range len).map (sentElem data increment addr))) :=
  writeAwaitDirect_idle m answer _ (glances_line m answer) h data addr ha len increment

/-- Entered idle, both loops put exactly `len` transfers on the bus, the k-th for element `k`, and
return `len`, unless they find the clock at their deadline and time out. -/
theorem awaitDirect_transfers (m : Peripheral) (answer : Answers) (data : ℕ → Word)
    (addr : BitVec 8) (len : ℕ) (increment : ℤ) (w : World DirectDev)
    (h : w.dev.port.flight = none) :
    (∃ r w', Ends (fun fuel => smiReadAwaitDirect (lineEnv m answer) fuel .caller addr len
        increment) w.fresh r w' ∧
      ((r = smiErrTimeout ∧ w'.TimedOut (w.fresh.readDeadline (lineEnv m answer) addr)) ∨
        (r = len ∧ ReadsFrom answer increment addr 0 len w.fresh w'))) ∧
    (w.dev.port.addr = addr.setWidth 6 → ∃ r w', Ends (fun fuel => smiWriteAwaitDirect
        (lineEnv m answer) fuel (some data) addr len increment) w.fresh r w' ∧
      ((r = smiErrTimeout ∧
          w'.TimedOut (w.fresh.deadline (lineEnv m answer) progWriteTimeoutS)) ∨
        (r = len ∧ w'.dev.port.bus =
          w.dev.port.bus ++ (List.range len).map (sentElem data increment addr)))) :=
  ⟨smiReadAwaitDirect_idle (w := w.fresh) h addr len increment,
    fun ha => smiWriteAwaitDirect_idle (w := w.fresh) h data addr ha len increment⟩

/-- The deadline has not been found to pass. -/
def Ahead (deadline : ℤ) (w w' : World σ) : Prop := w'.Expired deadline → w.Expired deadline

instance (deadline : ℤ) : IsPreorder (World σ) (Ahead deadline) where
  refl _ := id
  trans _ _ _ h h' := h ∘ h'

theorem ahead_steps {deadline : ℤ} (hclock : ∀ i, m.clock i < deadline) :
    CallSteps (lineEnv m answer) (fun _ => True) (fun _ _ => True) (Ahead deadline) where
  read r w := (expired_read _ w r).mp
  write r v w _ := (expired_write _ w r v).mp
  assign r f v w _ := (expired_assign _ w r f v).mp
  store i v w := (expired_store w .rawBuffer i v).mp
  fetch i w := (expired_fetch w i).mp
  report msg w := (expired_report w msg).mp
  clock w h := by
    rcases (expired_after w _).mp h with hx | ⟨t,ht,hle⟩
    · exact hx
    · obtain rfl := List.mem_singleton.mp ht
      exact absurd (hclock w.dev.asked) (not_lt.mpr hle)
  storeTo p i v w := (expired_store w p i v).mp
  output _ _ := id
  realloc _ _ _ := id
  sync fd w := by simp [Ahead,World.Expired,World.synced,World.view,Event.clock?]
  control c w := by simp [Ahead,World.Expired,World.withCb,World.view,Event.clock?]

theorem inTime_of_ends {deadline : ℤ} {x : ℕ → Drv σ ℤ}
    (hx : ∀ fuel, Keeps (Ahead deadline) (x fuel)) {w w' : World σ} {r : ℤ}
    (h : Ends x w.fresh r w') : ¬ w'.Expired deadline := by
  obtain ⟨N,hN⟩ := h
  have hrun := hx N w.fresh
  rw [hN N le_rfl] at hrun
  exact fun hlate => expired_fresh w (hrun hlate)

/-- A port at rest whose address register holds 62, which is 254 in six bits. -/
def parkedDev : DirectDev := { restDev with port.da := SmiDa.addr.set 254 0 }

/-- On a clock that never gets there, the four words of each direction go over the bus, from address
62 on to 1. -/
theorem awaitDirect_transfers_wrap :
    (∃ w', Ends (fun fuel => smiReadAwaitDirect (lineEnv (steadyPeripheral 7)
        fun i _ => BitVec.ofNat 18 (1000*i)) fuel .caller 254 (4 : ℕ) 5)
        (World.init parkedDev).fresh 4 w' ∧
      ReadsFrom (fun i _ => BitVec.ofNat 18 (1000*i)) 5 254 0 4 (World.init parkedDev).fresh w') ∧
    ∃ w', Ends (fun fuel => smiWriteAwaitDirect (lineEnv (steadyPeripheral 7)
        fun i _ => BitVec.ofNat 18 (1000*i)) fuel (some fun k => BitVec.ofNat 32 k) 254 (4 : ℕ) 5)
        (World.init parkedDev).fresh 4 w' ∧
      w'.dev.port.bus = (World.init parkedDev).dev.port.bus ++
        (List.range 4).map (sentElem (fun k => BitVec.ofNat 32 k) 5 254) := by
  have hflags (f : Field 32) (_ : f ∈ waitFlags) : (fun _ _ => True : Reg → Field 32 → Prop)
      smioCs f := trivial
  have hdirect : DirectIn (fun _ => True) (fun _ _ => True) := ⟨fun _ _ => trivial,trivial,trivial⟩
  obtain ⟨hread,hwrite⟩ := awaitDirect_transfers (steadyPeripheral 7)
    (fun i _ => BitVec.ofNat 18 (1000*i)) (fun k => BitVec.ofNat 32 k) 254 4 5
    (World.init parkedDev) rfl
  constructor
  · obtain ⟨r,w',hend,⟨-,-,hx⟩ | ⟨rfl,hreads⟩⟩ := hread
    · refine absurd hx (inTime_of_ends (fun fuel => ?_) hend)
      refine keeps_smiReadAwaitDirect (ahead_steps fun _ => ?_) fuel _ _ _ hflags hdirect _
      show (0 : ℤ) < _
      decide
    · exact ⟨w',hend,hreads⟩
  · obtain ⟨r,w',hend,⟨-,-,hx⟩ | ⟨rfl,hbus⟩⟩ := hwrite (by decide)
    · refine absurd hx (inTime_of_ends (fun fuel => ?_) hend)
      refine keeps_smiWriteAwaitDirect (ahead_steps fun _ => ?_) fuel _ _ _ hflags hdirect _
      show (0 : ℤ) < _
      decide
    · exact ⟨w',hend,hbus⟩

end Calls

end RpiSmi
