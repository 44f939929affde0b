import RpiSmi.DirectAwait
import RpiSmi.Transfer

/-!
# The direct-mode device

START written while the port is idle latches address, data and direction and
puts a transfer on the bus; while a transfer is in progress it is ignored. A
transfer completes after an arbitrary number of register accesses, which sets
DONE; DONE is cleared by writing 1 to it. Accesses are the device's only clock,
so a read-modify-write gives a transfer two moments to complete.
-/

namespace RpiSmi

open Exec BitField

/-- A transfer as the external bus carries it. -/
structure BusTransfer where
  addr : BitVec 6
  data : BitVec 18
  write : Bool
  deriving DecidableEq, Repr

/-- `flight` is the transfer in progress, with the accesses that still come before it completes;
`bus` lists the transfers in the order in which they went out. -/
structure Port where
  da : Word
  dd : BitVec 18
  enable : Bool
  write : Bool
  done : Bool
  flight : Option (ℕ × BusTransfer)
  bus : List BusTransfer

/-- What the driver does not control: how many accesses each transfer lasts, the bytes that the
peripheral holds, and the clock. -/
structure Peripheral where
  latency : ℕ → ℕ
  mem : BitVec 6 → BitVec 8
  clock : ℕ → ℤ
  limits : SpinLimits

structure DirectDev where
  port : Port
  /-- Every register outside the port. -/
  regs : Reg → Word
  /-- Clock readings so far. -/
  asked : ℕ

namespace Port

variable (m : Peripheral)

/-- A read leaves what the peripheral holds in `SMI_DD`. -/
def complete (x : BusTransfer) (p : Port) : Port :=
  { p with
    flight := none, done := true, dd := if x.write then p.dd else (m.mem x.addr).setWidth 18 }

def tick (p : Port) : Port :=
  match p.flight with
  | none => p
  | some (0,x) => p.complete m x
  | some (n+1,x) => { p with flight := some (n,x) }

/-- `SMI_DCS` as it reads; START always reads as 0. -/
def dcs (p : Port) : Word :=
  SmiDcs.write.set p.write.toNat (SmiDcs.done.set p.done.toNat (SmiDcs.enable.set p.enable.toNat 0))

def addr (p : Port) : BitVec 6 := BitVec.ofNat 6 (SmiDa.addr.get p.da)

/-- START: a busy port ignores it. -/
def launch (p : Port) : Port :=
  match p.flight with
  | some _ => p
  | none =>
    { p with
      flight := some (m.latency p.bus.length,⟨p.addr,p.dd,p.write⟩)
      bus := p.bus ++ [⟨p.addr,p.dd,p.write⟩] }

def load (v : Word) (p : Port) : Port := { p with dd := v.setWidth 18 }

/-- A write of the whole word to `SMI_DCS`. -/
def control (v : Word) (p : Port) : Port :=
  let q := { p with
    enable := SmiDcs.enable.test v
    write := SmiDcs.write.test v
    done := p.done && !SmiDcs.done.test v }
  if SmiDcs.start.test v then q.launch m else q

end Port

def directEnv (m : Peripheral) : Env DirectDev where
  readReg r d :=
    let p := d.port.tick m
    (if r = smioDcs then p.dcs else if r = smioDa then p.da
      else if r = smioDd then p.dd.setWidth 32 else d.regs r,{ d with port := p })
  writeReg r v d :=
    let p := d.port.tick m
    if r = smioDcs then { d with port := p.control m v }
    else if r = smioDa then { d with port := { p with da := v } }
    else if r = smioDd then { d with port := p.load v }
    else { d with port := p, regs := Function.update d.regs r v }
  clockGettime d := (m.clock d.asked,{ d with asked := d.asked+1 })
  realloc _ d := (none,d)
  writeSync _ d := d
  limits := m.limits
  arm64 := true

/-- The device after reset, with this many accesses for every transfer and a clock at rest. -/
def restDev : DirectDev := ⟨⟨0,0,false,false,false,none,[]⟩,fun _ => 0,0⟩

def steadyPeripheral (latency : ℕ) : Peripheral :=
  ⟨fun _ => latency,fun a => a.setWidth 8,fun _ => 0,.default⟩

section Port

variable {m : Peripheral} {p : Port}

@[simp] theorem Port.test_done (p : Port) : SmiDcs.done.test p.dcs = p.done := by
  rw [Port.dcs,Field.test_set_of_disjoint (by decide),Field.test_set]
  cases p.done <;> rfl

@[simp] theorem Port.test_write (p : Port) : SmiDcs.write.test p.dcs = p.write := by
  rw [Port.dcs,Field.test_set]
  cases p.write <;> rfl

@[simp] theorem Port.test_enable (p : Port) : SmiDcs.enable.test p.dcs = p.enable := by
  rw [Port.dcs,Field.test_set_of_disjoint (by decide),Field.test_set_of_disjoint (by decide),
    Field.test_set]
  cases p.enable <;> rfl

@[simp] theorem Port.test_start (p : Port) : SmiDcs.start.test p.dcs = false := by
  rw [Port.dcs,Field.test_set_of_disjoint (by decide),Field.test_set_of_disjoint (by decide),
    Field.test_set_of_disjoint (by decide)]
  decide

theorem Port.tick_idle (h : p.flight = none) : p.tick m = p := by
  simp [Port.tick,h]

@[simp] theorem Port.tick_da (p : Port) : (p.tick m).da = p.da := by
  unfold Port.tick
  split <;> rfl
@[simp] theorem Port.tick_write (p : Port) : (p.tick m).write = p.write := by
  unfold Port.tick
  split <;> rfl
@[simp] theorem Port.tick_enable (p : Port) : (p.tick m).enable = p.enable := by
  unfold Port.tick
  split <;> rfl
@[simp] theorem Port.tick_bus (p : Port) : (p.tick m).bus = p.bus := by
  unfold Port.tick
  split <;> rfl

/-- DONE is cleared when the read saw it set. -/
def Port.rewrite (m : Peripheral) (p : Port) : Port :=
  { (p.tick m).tick m with done := ((p.tick m).tick m).done && !(p.tick m).done }

def Port.start (m : Peripheral) (p : Port) : Port := (p.rewrite m).launch m

def Port.clear (m : Peripheral) (p : Port) : Port := { (p.tick m).tick m with done := false }

def Port.direct (m : Peripheral) (write : Bool) (p : Port) : Port :=
  { p.rewrite m with write := write }

def Port.move (m : Peripheral) (v : ℕ) (p : Port) : Port :=
  { (p.tick m).tick m with da := SmiDa.addr.set v p.da }

end Port

section World

variable {m : Peripheral} {w : World DirectDev}

theorem port_read (r : Reg) :
    (w.read (directEnv m) r).dev.port = w.dev.port.tick m := rfl

theorem port_write_dcs (v : Word) :
    (w.write (directEnv m) smioDcs v).dev.port = (w.dev.port.tick m).control m v := rfl
theorem port_write_da (v : Word) :
    (w.write (directEnv m) smioDa v).dev.port = { w.dev.port.tick m with da := v } := rfl
theorem port_write_dd (v : Word) :
    (w.write (directEnv m) smioDd v).dev.port = (w.dev.port.tick m).load v := rfl

theorem port_write_other {r : Reg} (hr : r ≠ smioDcs ∧ r ≠ smioDa ∧ r ≠ smioDd) (v : Word) :
    (w.write (directEnv m) r v).dev.port = w.dev.port.tick m := by
  simp [World.write,directEnv,hr]

@[simp] theorem value_dcs : w.value (directEnv m) smioDcs = (w.dev.port.tick m).dcs := rfl
@[simp] theorem value_dd :
    w.value (directEnv m) smioDd = (w.dev.port.tick m).dd.setWidth 32 := rfl

theorem port_control (f : Field 32) (v : ℕ) :
    (w.assign (directEnv m) smioDcs f v).dev.port =
      ((w.dev.port.tick m).tick m).control m (f.set v (w.dev.port.tick m).dcs) := rfl

theorem port_start :
    (w.assign (directEnv m) smioDcs SmiDcs.start 1).dev.port = w.dev.port.start m := by
  rw [port_control]
  simp [Port.control,Port.start,Port.rewrite,
    Field.test_set_one _ (show 0 < SmiDcs.start.width by decide),
    Field.test_set_of_disjoint (show SmiDcs.start.Disjoint SmiDcs.enable by decide),
    Field.test_set_of_disjoint (show SmiDcs.start.Disjoint SmiDcs.write by decide),
    Field.test_set_of_disjoint (show SmiDcs.start.Disjoint SmiDcs.done by decide)]

theorem port_clear :
    (w.assign (directEnv m) smioDcs SmiDcs.done 1).dev.port = w.dev.port.clear m := by
  rw [port_control]
  simp [Port.control,Port.clear,
    Field.test_set_one _ (show 0 < SmiDcs.done.width by decide),
    Field.test_set_of_disjoint (show SmiDcs.done.Disjoint SmiDcs.enable by decide),
    Field.test_set_of_disjoint (show SmiDcs.done.Disjoint SmiDcs.write by decide),
    Field.test_set_of_disjoint (show SmiDcs.done.Disjoint SmiDcs.start by decide)]

theorem port_direct (b : Bool) :
    (w.assign (directEnv m) smioDcs SmiDcs.write b.toNat).dev.port = w.dev.port.direct m b := by
  have hb (x : Word) : SmiDcs.write.test (SmiDcs.write.set b.toNat x) = b := by
    rw [Field.test_set]
    cases b <;> rfl
  rw [port_control]
  simp [Port.control,Port.direct,Port.rewrite,hb,
    Field.test_set_of_disjoint (show SmiDcs.write.Disjoint SmiDcs.enable by decide),
    Field.test_set_of_disjoint (show SmiDcs.write.Disjoint SmiDcs.done by decide),
    Field.test_set_of_disjoint (show SmiDcs.write.Disjoint SmiDcs.start by decide)]

theorem port_move (v : ℕ) :
    (w.assign (directEnv m) smioDa SmiDa.addr v).dev.port = w.dev.port.move m v := by
  have hv : w.value (directEnv m) smioDa = w.dev.port.da := Port.tick_da _
  rw [World.assign,port_write_da,hv,Port.move,port_read]

theorem port_other {r : Reg} (hr : r ≠ smioDcs ∧ r ≠ smioDa ∧ r ≠ smioDd) (f : Field 32) (v : ℕ) :
    (w.assign (directEnv m) r f v).dev.port = (w.dev.port.tick m).tick m := by
  rw [World.assign,port_write_other hr,port_read]

theorem port_spinExpired (deadline : ℤ) (spin : ℕ) :
    (w.after ((directEnv m).spinExpired deadline spin w.dev)).dev.port = w.dev.port := by
  simp only [World.dev_after,Env.spinExpired,Env.timeoutApply]
  split
  · rfl
  · split <;> rfl
  · rfl

end World

structure Port.Idle (write : Bool) (a : BitVec 6) (bus : List BusTransfer) (p : Port) : Prop where
  write_eq : p.write = write
  addr_eq : p.addr = a
  flight : p.flight = none
  bus_eq : p.bus = bus

/-- Transfer `x` in progress, with `n` accesses still to come before it completes. -/
structure Port.Busy (write : Bool) (a : BitVec 6) (done : Bool) (n : ℕ) (x : BusTransfer)
    (bus : List BusTransfer) (p : Port) : Prop where
  write_eq : p.write = write
  addr_eq : p.addr = a
  done_eq : p.done = done
  flight : p.flight = some (n,x)
  bus_eq : p.bus = bus

namespace Port

variable {m : Peripheral} {p : Port} {write done : Bool} {a : BitVec 6} {n : ℕ} {x : BusTransfer}
  {bus : List BusTransfer}

theorem Idle.tick (h : p.Idle write a bus) : p.tick m = p := tick_idle h.flight

theorem Idle.load (h : p.Idle write a bus) (v : Word) : (p.load v).Idle write a bus :=
  ⟨h.write_eq,h.addr_eq,h.flight,h.bus_eq⟩

theorem Busy.load (h : p.Busy write a done n x bus) (v : Word) :
    (p.load v).Busy write a done n x bus :=
  ⟨h.write_eq,h.addr_eq,h.done_eq,h.flight,h.bus_eq⟩

theorem Busy.complete (h : p.Busy write a done n x bus) : (p.complete m x).Idle write a bus :=
  ⟨h.write_eq,h.addr_eq,rfl,h.bus_eq⟩

theorem Busy.tick_zero (h : p.Busy write a done 0 x bus) : p.tick m = p.complete m x := by
  simp [Port.tick,h.flight]

theorem Busy.tick_succ (h : p.Busy write a done (n+1) x bus) :
    (p.tick m).Busy write a done n x bus := by
  have ht : p.tick m = { p with flight := some (n,x) } := by
    simp [Port.tick,h.flight]
  rw [ht]
  exact ⟨h.write_eq,h.addr_eq,h.done_eq,rfl,h.bus_eq⟩

theorem tick_done (h : p.done = true) : (p.tick m).done = true := by
  unfold Port.tick
  split
  · exact h
  · rfl
  · exact h

theorem Idle.launch (h : p.Idle write a bus) : (p.launch m).Busy write a p.done
    (m.latency bus.length) ⟨a,p.dd,write⟩ (bus ++ [⟨a,p.dd,write⟩]) := by
  have hl : p.launch m = { p with
      flight := some (m.latency p.bus.length,⟨p.addr,p.dd,p.write⟩)
      bus := p.bus ++ [⟨p.addr,p.dd,p.write⟩] } := by
    simp [Port.launch,h.flight]
  rw [hl]
  obtain ⟨rfl,rfl,-,rfl⟩ := h
  exact ⟨rfl,rfl,rfl,rfl,rfl⟩

theorem Busy.launch (h : p.Busy write a done n x bus) : p.launch m = p := by
  simp [Port.launch,h.flight]

/-- START on an idle port is accepted, and a DONE that stands is cleared by it. -/
theorem Idle.start (h : p.Idle write a bus) : (p.start m).Busy write a false
    (m.latency bus.length) ⟨a,p.dd,write⟩ (bus ++ [⟨a,p.dd,write⟩]) := by
  have hr : p.rewrite m = { p with done := false } := by
    simp [Port.rewrite,h.tick]
  have hi : ({ p with done := false } : Port).Idle write a bus :=
    ⟨h.write_eq,h.addr_eq,h.flight,h.bus_eq⟩
  rw [Port.start,hr]
  exact hi.launch

theorem Busy.start_zero (h : p.Busy write a done 0 x bus) : (p.start m).Busy write a false
    (m.latency bus.length) ⟨a,(p.complete m x).dd,write⟩
    (bus ++ [⟨a,(p.complete m x).dd,write⟩]) := by
  have hc := h.complete (m := m)
  have hs : p.start m = (p.complete m x).start m := by
    simp [Port.start,Port.rewrite,h.tick_zero,hc.tick]
  rw [hs]
  exact hc.start

/-- Between the read and the write START is accepted too, but a DONE that was clear stays set. -/
theorem Busy.start_one (h : p.Busy write a done 1 x bus) : (p.start m).Busy write a (!done)
    (m.latency bus.length) ⟨a,(p.complete m x).dd,write⟩
    (bus ++ [⟨a,(p.complete m x).dd,write⟩]) := by
  have ht := h.tick_succ (m := m)
  have hr : p.rewrite m = { (p.tick m).complete m x with done := !done } := by
    simp [Port.rewrite,ht.tick_zero,ht.done_eq,Port.complete]
  have hdd : ((p.tick m).complete m x).dd = (p.complete m x).dd := by
    simp [Port.complete,Port.tick,h.flight]
  have hc : ({ (p.tick m).complete m x with done := !done } : Port).Idle write a bus :=
    ⟨ht.write_eq,ht.addr_eq,rfl,ht.bus_eq⟩
  rw [Port.start,hr,← hdd]
  exact hc.launch

theorem Busy.start_succ (h : p.Busy write a done (n+2) x bus) :
    (p.start m).Busy write a false n x bus := by
  have ht := h.tick_succ (m := m)
  have ht' := ht.tick_succ (m := m)
  have hb : (p.rewrite m).Busy write a false n x bus :=
    ⟨ht'.write_eq,ht'.addr_eq,by simp [Port.rewrite,ht.done_eq,ht'.done_eq],ht'.flight,ht'.bus_eq⟩
  rwa [Port.start,hb.launch]

theorem Busy.ticks_idle (h : p.Busy write a done n x bus) (hn : n ≤ 1) :
    ((p.tick m).tick m).Idle write a bus := by
  match n, hn with
  | 0, _ =>
    rw [h.tick_zero,h.complete.tick]
    exact h.complete
  | 1, _ =>
    rw [h.tick_succ.tick_zero]
    exact h.tick_succ.complete

theorem Busy.direct (h : p.Busy write a done (n+2) x bus) (b : Bool) :
    (p.direct m b).Busy b a false n x bus := by
  have ht := h.tick_succ (m := m)
  have ht' := ht.tick_succ (m := m)
  exact ⟨rfl,ht'.addr_eq,by simp [Port.direct,Port.rewrite,ht.done_eq,ht'.done_eq],ht'.flight,
    ht'.bus_eq⟩

theorem direct_bus (p : Port) (b : Bool) : (p.direct m b).bus = p.bus := by
  simp [Port.direct,Port.rewrite]

theorem Busy.direct_idle (h : p.Busy write a done n x bus) (hn : n ≤ 1) (b : Bool) :
    (p.direct m b).Idle b a bus :=
  have ht := h.ticks_idle (m := m) hn
  ⟨rfl,ht.addr_eq,ht.flight,ht.bus_eq⟩

theorem Idle.clear (h : p.Idle write a bus) : (p.clear m).Idle write a bus := by
  rw [Port.clear,h.tick,h.tick]
  exact ⟨h.write_eq,h.addr_eq,h.flight,h.bus_eq⟩

theorem Busy.clear (h : p.Busy write a done (n+2) x bus) :
    (p.clear m).Busy write a false n x bus :=
  have ht := (h.tick_succ (m := m)).tick_succ (m := m)
  ⟨ht.write_eq,ht.addr_eq,rfl,ht.flight,ht.bus_eq⟩

theorem Busy.clear_idle (h : p.Busy write a done n x bus) (hn : n ≤ 1) :
    (p.clear m).Idle write a bus :=
  have ht := h.ticks_idle (m := m) hn
  ⟨ht.write_eq,ht.addr_eq,ht.flight,ht.bus_eq⟩

theorem addr_set (b : BitVec 8) (v : Word) :
    BitVec.ofNat 6 (SmiDa.addr.get (SmiDa.addr.set b.toNat v)) = b.setWidth 6 := by
  rw [Field.get_set]
  apply BitVec.eq_of_toNat_eq
  simp [SmiDa.addr]

theorem Idle.move (h : p.Idle write a bus) (b : BitVec 8) :
    (p.move m b.toNat).Idle write (b.setWidth 6) bus := by
  rw [Port.move,h.tick,h.tick]
  exact ⟨h.write_eq,addr_set b _,h.flight,h.bus_eq⟩

theorem Busy.move (h : p.Busy write a done (n+2) x bus) (b : BitVec 8) :
    (p.move m b.toNat).Busy write (b.setWidth 6) done n x bus :=
  have ht := (h.tick_succ (m := m)).tick_succ (m := m)
  ⟨ht.write_eq,addr_set b _,ht.done_eq,ht.flight,ht.bus_eq⟩

theorem Busy.move_idle (h : p.Busy write a done n x bus) (hn : n ≤ 1) (b : BitVec 8) :
    (p.move m b.toNat).Idle write (b.setWidth 6) bus :=
  have ht := h.ticks_idle (m := m) hn
  ⟨ht.write_eq,addr_set b _,ht.flight,ht.bus_eq⟩

def step (m : Peripheral) (increment : ℤ) (b : BitVec 8) (p : Port) : Port :=
  if increment = 0 then p else p.move m (nextAddr increment b).toNat

theorem step_bus (increment : ℤ) (b : BitVec 8) (p : Port) :
    (p.step m increment b).bus = p.bus := by
  unfold Port.step
  split_ifs
  · rfl
  · simp [Port.move]

theorem Idle.step {b : BitVec 8} (h : p.Idle write (b.setWidth 6) bus) (increment : ℤ) :
    (p.step m increment b).Idle write ((nextAddr increment b).setWidth 6) bus := by
  unfold Port.step
  split_ifs with hi
  · rwa [hi]
  · exact h.move _

end Port

def addrAt (increment : ℤ) (b : BitVec 8) (k : ℕ) : BitVec 8 := (nextAddr increment)^[k] b

theorem addrAt_succ (increment : ℤ) (b : BitVec 8) (k : ℕ) :
    addrAt increment b (k+1) = nextAddr increment (addrAt increment b k) :=
  Function.iterate_succ_apply' ..

def elemAddr (increment : ℤ) (b : BitVec 8) (k : ℕ) : BitVec 6 :=
  BitVec.ofInt 6 (b.toNat+k*increment.sign)

theorem nextAddr_eq (increment : ℤ) (b : BitVec 8) :
    nextAddr increment b = b+BitVec.ofInt 8 increment.sign := by
  rcases Int.lt_trichotomy increment 0 with h | rfl | h
  · rw [nextAddr,if_neg (by omega),if_pos h,Int.sign_eq_neg_one_of_neg h,BitVec.sub_eq_add_neg]
    rfl
  · simp [nextAddr]
  · rw [nextAddr,if_pos h,Int.sign_eq_one_of_pos h]
    rfl

/-- Eight bits of the counter are enough for the six of the register. -/
theorem setWidth_addrAt (increment : ℤ) (b : BitVec 8) (k : ℕ) :
    (addrAt increment b k).setWidth 6 = elemAddr increment b k := by
  have h : addrAt increment b k = BitVec.ofInt 8 (b.toNat+k*increment.sign) := by
    induction k with
    | zero => simp [addrAt]
    | succ k ih =>
      rw [addrAt_succ,nextAddr_eq,ih,← BitVec.ofInt_add]
      congr 1
      rw [Int.natCast_add,Int.natCast_one,Int.add_mul,Int.one_mul,Int.add_assoc]
  rw [h,elemAddr]
  apply BitVec.eq_of_toNat_eq
  simp only [BitVec.toNat_setWidth,BitVec.toNat_ofInt]
  omega

theorem elemAddr_zero (increment : ℤ) (addr : BitVec 8) :
    elemAddr increment addr 0 = addr.setWidth 6 := (setWidth_addrAt increment addr 0).symm

theorem port_stepped {m : Peripheral} {w : World DirectDev} (increment : ℤ) (b : BitVec 8) :
    (w.stepped (directEnv m) increment b).dev.port = w.dev.port.step m increment b := by
  unfold World.stepped Port.step
  split_ifs
  · rfl
  · exact port_move _

section Setup

variable {m : Peripheral} {w : World DirectDev}

def armOps (write : Bool) (a : BitVec 8) : List RegOp := [
  .field smioDcs SmiDcs.done 1,
  .field smioDcs SmiDcs.write write.toNat,
  .field smioDa SmiDa.addr a.toNat,
  .value smioDd 0,
  .field smioDcs SmiDcs.start 1]

/-- The setup's own START has been accepted, with the zero that it put into `SMI_DD`. -/
abbrev Port.Armed (m : Peripheral) (write : Bool) (a : BitVec 8) (bus : List BusTransfer) :
    Port → Prop :=
  Port.Busy write (a.setWidth 6) false (m.latency bus.length) ⟨a.setWidth 6,0,write⟩
    (bus ++ [⟨a.setWidth 6,0,write⟩])

theorem armOps_armed (write : Bool) (a : BitVec 8) (h : w.dev.port.flight = none) :
    ((w.apply (directEnv m) (armOps write a)).dev.port).Armed m write a w.dev.port.bus := by
  have hport : (w.apply (directEnv m) (armOps write a)).dev.port =
      { w.dev.port with
        done := false
        write := write
        da := SmiDa.addr.set a.toNat w.dev.port.da
        dd := 0
        flight := some (m.latency w.dev.port.bus.length,⟨a.setWidth 6,0,write⟩)
        bus := w.dev.port.bus ++ [⟨a.setWidth 6,0,write⟩] } := by
    simp only [armOps,World.apply_field,World.apply_value,World.apply_nil,port_clear,port_direct,
      port_move,port_write_dd,port_start]
    simp [Port.clear,Port.direct,Port.move,Port.load,Port.start,Port.rewrite,Port.launch,Port.addr,
      Port.tick_idle,h,Port.addr_set,-Field.get_set]
  rw [hport]
  exact ⟨rfl,Port.addr_set a _,rfl,rfl,rfl⟩

theorem port_apply_other (ops : List RegOp) (hops : ∀ op ∈ ops,
    op.reg ≠ smioDcs ∧ op.reg ≠ smioDa ∧ op.reg ≠ smioDd) (h : w.dev.port.flight = none) :
    (w.apply (directEnv m) ops).dev.port = w.dev.port := by
  induction ops generalizing w with
  | nil => rfl
  | cons op ops ih =>
    have hop := hops op (List.mem_cons_self ..)
    have htail := fun op' h' => hops op' (List.mem_cons_of_mem op h')
    cases op with
    | field r f v =>
      have hp := port_other (m := m) (w := w) (r := r) hop f v
      rw [Port.tick_idle h,Port.tick_idle h] at hp
      rw [World.apply_field,ih htail (by rw [hp,h]),hp]
    | value r v =>
      have hp := port_write_other (m := m) (w := w) (r := r) hop v
      rw [Port.tick_idle h] at hp
      rw [World.apply_value,ih htail (by rw [hp,h]),hp]

theorem directSetup_armed (write : Bool) (a : BitVec 8) (h : w.dev.port.flight = none) :
    ((w.apply (directEnv m) (directSetup write.toNat a)).dev.port).Armed m write a
      w.dev.port.bus := by
  have hfront := port_apply_other (m := m) (w := w) ((directSetup 0 0).take 7) (by decide) h
  have harm := armOps_armed (m := m) write a
    (w := w.apply (directEnv m) ((directSetup 0 0).take 7)) (by rw [hfront,h])
  rwa [hfront,← World.apply_append] at harm

theorem directReadArrSetup_armed (cxt : SmiCxt) (a : BitVec 8) (h : w.dev.port.flight = none) :
    ((w.apply (directEnv m) (directReadArrSetup cxt a)).dev.port).Armed m false a
      w.dev.port.bus := by
  have hfront := port_other (m := m) (w := w) (r := smioDsr 0) (by decide) SmiDsr.rwidth
    cxt.rwidth.toNat
  rw [Port.tick_idle h,Port.tick_idle h] at hfront
  have hcontrol : (((w.assign (directEnv m) (smioDsr 0) SmiDsr.rwidth cxt.rwidth.toNat).write
      (directEnv m) smioDcs 0).dev.port) =
      { w.dev.port with enable := false, write := false, done := w.dev.port.done && true } := by
    rw [port_write_dcs,hfront,Port.tick_idle h]
    rfl
  have harm := armOps_armed (m := m) false a (w := (w.assign (directEnv m)
    (smioDsr 0) SmiDsr.rwidth cxt.rwidth.toNat).write (directEnv m) smioDcs 0)
    (by rw [hcontrol]; exact h)
  rwa [hcontrol] at harm

end Setup

def Event.error? : Event → Option String
  | .error msg => some msg
  | _ => none

/-- A message has been logged, which in direct mode only a timeout does. -/
def World.Late {σ : Type} (w : World σ) : Prop := w.view Event.error? ≠ []

instance {σ : Type} (w : World σ) : Decidable w.Late := inferInstanceAs (Decidable (_ ≠ _))

/-- A look at the clock, which changes neither the port nor the memory, and fires only where it
finds the deadline reached. -/
def Glances (deadline : ℤ) (expired : ℕ → Drv DirectDev Bool) : Prop :=
  ∀ spin w, ∃ b v, expired spin w = (some b,v) ∧ v.dev.port = w.dev.port ∧
    v.memory = w.memory ∧ (b = true → v.Expired deadline)

/-- A timeout was reported, and the clock had been found at the deadline or past it. -/
def World.TimedOut {σ : Type} (deadline : ℤ) (w : World σ) : Prop := w.Late ∧ w.Expired deadline

section Wait

variable {m : Peripheral} (expired : ℕ → Drv DirectDev Bool) (next : ℕ → ℕ) (msg : String)
  (code : ℤ) {w : World DirectDev}

theorem doneLoop_stale (h : (w.dev.port.tick m).done = true) (spin : ℕ) :
    LoopEnds (fun _ => doneRound (directEnv m) expired next msg code) spin w (.ok spin)
      (w.read (directEnv m) smioDcs) := by
  refine loopEnds_exit (ends_of_run (doneRound_done ?_))
  rw [value_dcs,Port.test_done,h]

end Wait
end RpiSmi
