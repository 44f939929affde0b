import RpiSmi.DirectWrite
import RpiSmi.SameRun
import RpiSmi.Writes

/-!
# A memory chip on the bus

The chip of `sram.c`: 64 cells of one byte, each read of which answers with what
the last write to it left there. A call of the driver has one direction, and
while only writes or only reads go out the chip is a peripheral with fixed
contents; so the results for these carry over, call by call.
-/

namespace RpiSmi

open Exec Elements BitField Writes

def BusTransfer.stored? (x : BusTransfer) : Option (BitVec 6 × BitVec 8) :=
  if x.write then some (x.addr,x.data.setWidth 8) else none

def cellsAfter (cells : BitVec 6 → BitVec 8) (bus : List BusTransfer) : BitVec 6 → BitVec 8 :=
  run cells (bus.filterMap BusTransfer.stored?)

def sramAnswers (cells : BitVec 6 → BitVec 8) (bus : List BusTransfer) : Answers :=
  fun _ a => (cellsAfter cells bus a).setWidth 18

/-- The direct-mode device with the chip behind it; of the peripheral only the latencies and the
clock are used. -/
def sramEnv (m : Peripheral) (cells : BitVec 6 → BitVec 8) : Env DirectDev :=
  { directEnv m with
    readReg := fun r d => (lineEnv m (sramAnswers cells d.port.bus)).readReg r d
    writeReg := fun r v d => (lineEnv m (sramAnswers cells d.port.bus)).writeReg r v d }

def Peripheral.holding (m : Peripheral) (mem : BitVec 6 → BitVec 8) : Peripheral :=
  { m with mem := mem }

section Cells

variable {cells : BitVec 6 → BitVec 8} {bus : List BusTransfer}

theorem cellsAfter_append (bus bus' : List BusTransfer) :
    cellsAfter cells (bus ++ bus') = cellsAfter (cellsAfter cells bus) bus' := by
  rw [cellsAfter,List.filterMap_append,run_append]
  rfl

theorem cellsAfter_reads (h : ∀ x ∈ bus, x.write = false) : cellsAfter cells bus = cells := by
  have hnone : bus.filterMap BusTransfer.stored? = [] :=
    List.filterMap_eq_nil_iff.mpr fun x hx => by simp [BusTransfer.stored?,h x hx]
  rw [cellsAfter,hnone,run_nil]

end Cells

/-- The direction is `b`, also of the transfer in progress, and for reads the chip holds `mem`. -/
structure Port.OneWay (cells mem : BitVec 6 → BitVec 8) (b : Bool) (p : Port) : Prop where
  write_eq : p.write = b
  flight (n : ℕ) (x : BusTransfer) : p.flight = some (n,x) → x.write = b
  holds : b = false → cellsAfter cells p.bus = mem

section OneWay

variable {m : Peripheral} {cells mem : BitVec 6 → BitVec 8} {b : Bool} {p : Port}

theorem Port.OneWay.land (h : p.OneWay cells mem b) :
    p.land (sramAnswers cells p.bus) = p.tick (m.holding mem) := by
  rcases hf : p.flight with _ | ⟨_ | n,x⟩
  · simp [Port.land,Port.tick,hf]
  · have hx := h.flight 0 x hf
    cases b with
    | true => simp [Port.land,Port.tick,hf,Port.finish,Port.complete,hx]
    | false =>
      simp [Port.land,Port.tick,hf,Port.finish,Port.complete,sramAnswers,h.holds rfl,
        Peripheral.holding]
  · simp [Port.land,Port.tick,hf]

theorem Port.OneWay.tick (h : p.OneWay cells mem b) : (p.tick m).OneWay cells mem b := by
  refine ⟨by rw [Port.tick_write,h.write_eq],fun n x hx => ?_,by rw [Port.tick_bus]; exact h.holds⟩
  rcases hf : p.flight with _ | ⟨_ | k,y⟩
  · rw [Port.tick_idle hf] at hx
    exact h.flight n x hx
  · simp [Port.tick,hf,Port.complete] at hx
  · rw [Port.tick,hf] at hx
    cases hx
    exact h.flight (n+1) x hf

theorem Port.OneWay.launch (h : p.OneWay cells mem b) : (p.launch m).OneWay cells mem b := by
  rcases hf : p.flight with _ | y
  · have hl : p.launch m = { p with
        flight := some (m.latency p.bus.length,⟨p.addr,p.dd,p.write⟩)
        bus := p.bus ++ [⟨p.addr,p.dd,p.write⟩] } := by
      simp [Port.launch,hf]
    rw [hl]
    refine ⟨h.write_eq,fun n x hx => ?_,fun hb => ?_⟩
    · cases hx
      exact h.write_eq
    · rw [cellsAfter_append,cellsAfter_reads,h.holds hb]
      simp [h.write_eq,hb]
  · simp only [Port.launch,hf]
    exact h

theorem Port.OneWay.control (h : p.OneWay cells mem b) {v : Word}
    (hv : SmiDcs.write.test v = b) : (p.control m v).OneWay cells mem b := by
  have hq : ({ p with
      enable := SmiDcs.enable.test v
      write := SmiDcs.write.test v
      done := p.done && !SmiDcs.done.test v } : Port).OneWay cells mem b :=
    ⟨hv,h.flight,h.holds⟩
  unfold Port.control
  split_ifs
  · exact hq.launch
  · exact hq

/-- The transfer that a setup has begun goes the way that the setup has chosen. -/
theorem Port.Armed.oneWay {p : Port} {a : BitVec 8} {bus : List BusTransfer} (h : p.Armed m b a bus)
    (hmem : b = false → cellsAfter cells bus = mem) : p.OneWay cells mem b := by
  refine ⟨h.write_eq,fun n x hx => ?_,fun hb => ?_⟩
  · rw [h.flight] at hx
    cases hx
    rfl
  · rw [h.bus_eq,cellsAfter_append,hmem hb]
    exact cellsAfter_reads (by simp [hb])

theorem sram_clock (m : Peripheral) (cells mem : BitVec 6 → BitVec 8) :
    (sramEnv m cells).clockGettime = (directEnv (m.holding mem)).clockGettime := rfl

theorem sram_limits (m : Peripheral) (cells mem : BitVec 6 → BitVec 8) :
    (sramEnv m cells).limits = (directEnv (m.holding mem)).limits := rfl

variable {w : World DirectDev}

theorem sram_read (h : w.dev.port.OneWay cells mem b) (r : Reg) :
    (sramEnv m cells).readReg r w.dev = (directEnv (m.holding mem)).readReg r w.dev := by
  simp only [sramEnv,lineEnv,directEnv,h.land (m := m)]

theorem sram_write (h : w.dev.port.OneWay cells mem b) (r : Reg) (v : Word) :
    (sramEnv m cells).writeReg r v w.dev = (directEnv (m.holding mem)).writeReg r v w.dev := by
  simp only [sramEnv,lineEnv,directEnv,h.land (m := m)]
  rfl

theorem Port.OneWay.write (h : w.dev.port.OneWay cells mem b) {r : Reg} {v : Word}
    (hv : r = smioDcs → SmiDcs.write.test v = b) :
    (w.write (directEnv m) r v).dev.port.OneWay cells mem b := by
  have ht := h.tick (m := m)
  by_cases hc : r = smioDcs
  · subst hc
    rw [port_write_dcs]
    exact ht.control (hv rfl)
  by_cases ha : r = smioDa
  · subst ha
    rw [port_write_da]
    exact ⟨ht.write_eq,ht.flight,ht.holds⟩
  by_cases hd : r = smioDd
  · subst hd
    rw [port_write_dd]
    exact ⟨ht.write_eq,ht.flight,ht.holds⟩
  · rw [port_write_other ⟨hc,ha,hd⟩]
    exact ht

end OneWay

section Calls

variable (m : Peripheral) (cells mem : BitVec 6 → BitVec 8) (b : Bool)

/-- A run on the chip is a run with the contents `mem`, as long as transfers go the way `b`. -/
abbrev SameOnChip {α : Type} (x y : Drv DirectDev α) : Prop :=
  SameRun (fun w => w.dev.port.OneWay cells mem b) x y

variable {m cells mem b}

theorem same_readReg (r : Reg) :
    SameOnChip cells mem b (readReg (sramEnv m cells) r)
      (readReg (directEnv (m.holding mem)) r) := by
  intro w hw
  have he : w.value (sramEnv m cells) r = w.value (directEnv (m.holding mem)) r ∧
      w.read (sramEnv m cells) r = w.read (directEnv (m.holding mem)) r := by
    simp only [World.value,World.read,sram_read hw,and_self]
  rw [readReg_run,readReg_run,he.1,he.2]
  exact ⟨rfl,hw.tick⟩

theorem same_readField (r : Reg) (f : Field 32) : SameOnChip cells mem b
    (readField (sramEnv m cells) r f) (readField (directEnv (m.holding mem)) r f) :=
  sameRun_bind (same_readReg r) fun v => sameRun_pure (f.test v)

theorem same_writeReg {r : Reg} (hr : r ≠ smioDcs) (v : Word) : SameOnChip cells mem b
    (writeReg (sramEnv m cells) r v) (writeReg (directEnv (m.holding mem)) r v) := by
  intro w hw
  have he : w.write (sramEnv m cells) r v = w.write (directEnv (m.holding mem)) r v := by
    rw [World.write,World.write,sram_write hw]
  rw [writeReg_run,writeReg_run,he]
  exact ⟨rfl,hw.write fun h => absurd h hr⟩

theorem same_setField {r : Reg} {f : Field 32} {v : ℕ} (hf : r = smioDcs →
    f.Disjoint SmiDcs.write ∨ f = SmiDcs.write ∧ v = b.toNat) : SameOnChip cells mem b
    (setField (sramEnv m cells) r f v) (setField (directEnv (m.holding mem)) r f v) := by
  intro w hw
  obtain ⟨hv,hr⟩ : w.value (sramEnv m cells) r = w.value (directEnv (m.holding mem)) r ∧
      w.read (sramEnv m cells) r = w.read (directEnv (m.holding mem)) r := by
    simp only [World.value,World.read,sram_read hw,and_self]
  have hport : (w.read (directEnv (m.holding mem)) r).dev.port.OneWay cells mem b := hw.tick
  have hdir : r = smioDcs →
      SmiDcs.write.test (f.set v (w.value (directEnv (m.holding mem)) r)) = b := by
    intro h
    rcases hf h with hd | ⟨rfl,rfl⟩
    · rw [Field.test_set_of_disjoint hd,h,value_dcs,Port.test_write,Port.tick_write,hw.write_eq]
    · rw [Field.test_set]
      cases b <;> rfl
  have he : w.assign (sramEnv m cells) r f v = w.assign (directEnv (m.holding mem)) r f v := by
    rw [World.assign,World.assign,hr,hv,World.write,World.write,sram_write hport]
  rw [setField_run,setField_run,he]
  exact ⟨rfl,hport.write hdir⟩

theorem same_setField_other {r : Reg} (hr : r ≠ smioDcs) (f : Field 32) (v : ℕ) :
    SameOnChip cells mem b (setField (sramEnv m cells) r f v)
      (setField (directEnv (m.holding mem)) r f v) :=
  same_setField fun h => absurd h hr

theorem same_keeps {α : Type} {x : Drv DirectDev α} (h : ∀ w, (x w).2.dev.port = w.dev.port) :
    SameOnChip cells mem b x x :=
  fun w hw => ⟨rfl,show (x w).2.dev.port.OneWay cells mem b from (h w).symm ▸ hw⟩

theorem same_error (msg : String) : SameOnChip cells mem b (error msg) (error msg) :=
  same_keeps fun _ => rfl

theorem same_loadWord (data : ℕ → Word) (i : ℕ) :
    SameOnChip cells mem b (loadWord data i) (loadWord data i) :=
  same_keeps fun _ => rfl

theorem same_storeWord (p : Ptr) (i : ℕ) (v : Word) :
    SameOnChip cells mem b (storeWord p i v) (storeWord p i v) :=
  same_keeps fun w => by rw [storeWord_run,dev_store]

theorem same_startTimeout (seconds : ℕ) : SameOnChip cells mem b
    (startTimeout (sramEnv m cells) seconds)
    (startTimeout (directEnv (m.holding mem)) seconds) := by
  have he : startTimeout (sramEnv m cells) seconds =
      startTimeout (directEnv (m.holding mem)) seconds := by
    funext w
    simp only [startTimeout,World.deadline,World.clocked,sram_clock m cells mem]
  rw [he]
  exact same_keeps fun _ => rfl

theorem same_spinExpired (deadline : ℤ) (spin : ℕ) : SameOnChip cells mem b
    (spinExpired (sramEnv m cells) deadline spin)
    (spinExpired (directEnv (m.holding mem)) deadline spin) := by
  have he : spinExpired (sramEnv m cells) deadline spin =
      spinExpired (directEnv (m.holding mem)) deadline spin := by
    funext w
    simp only [spinExpired,Env.spinExpired,Env.timeoutApply,Env.timeoutComplete,
      sram_clock m cells mem,sram_limits m cells mem]
    rfl
  rw [he]
  exact same_keeps fun _ => port_spinExpired (m := m.holding mem) deadline spin

theorem same_doneRound {next : ℕ → ℕ} {msg : String} {code deadline : ℤ} (spin : ℕ) :
    SameOnChip cells mem b
      (doneRound (sramEnv m cells) (spinExpired (sramEnv m cells) deadline) next msg code spin)
      (doneRound (directEnv (m.holding mem)) (spinExpired (directEnv (m.holding mem)) deadline) next
        msg code spin) := by
  unfold doneRound
  refine sameRun_bind (same_readField _ _) fun done => sameRun_ite (sameRun_pure _) ?_
  refine sameRun_bind (same_spinExpired _ _) fun late => sameRun_ite ?_ (sameRun_pure _)
  refine sameRun_bind (same_error msg) fun _ => ?_
  refine sameRun_bind (same_setField_other (by decide) _ _) fun _ => ?_
  exact sameRun_bind (same_setField fun _ => .inl (by decide)) fun _ => sameRun_pure _

theorem same_stepAddr (increment : ℤ) (addr : BitVec 8) : SameOnChip cells mem b
    (stepAddr (sramEnv m cells) increment addr)
    (stepAddr (directEnv (m.holding mem)) increment addr) := by
  unfold stepAddr
  refine sameRun_ite ?_ (sameRun_ite ?_ (sameRun_pure _))
  all_goals exact sameRun_bind (same_setField_other (by decide) _ _) fun _ => sameRun_pure _

theorem same_readDirectRound {len increment deadline : ℤ} (fuel : ℕ) (s : Direct) :
    SameOnChip cells mem b
      (readDirectRound (sramEnv m cells) fuel .caller len increment deadline s)
      (readDirectRound (directEnv (m.holding mem)) fuel .caller len increment deadline s) := by
  unfold readDirectRound
  refine sameRun_ite (sameRun_pure _) ?_
  refine sameRun_bind (same_setField fun _ => .inl (by decide)) fun _ => ?_
  refine sameRun_bind (sameRun_loop (fun spin => same_doneRound spin) _ _) fun out => ?_
  cases out with
  | error code => exact sameRun_pure _
  | ok spin =>
    refine sameRun_bind (same_readReg _) fun v => ?_
    refine sameRun_bind (same_storeWord _ _ _) fun _ => ?_
    refine sameRun_bind (same_setField fun _ => .inl (by decide)) fun _ => ?_
    exact sameRun_bind (same_stepAddr _ _) fun addr => sameRun_pure _

theorem same_writeDirectRound {data : ℕ → Word} {len increment deadline : ℤ} (fuel : ℕ)
    (s : Direct) : SameOnChip cells mem b
      (writeDirectRound (sramEnv m cells) fuel (directWait (sramEnv m cells)) data len increment
        deadline s)
      (writeDirectRound (directEnv (m.holding mem)) fuel (directWait (directEnv (m.holding mem)))
        data len increment deadline s) := by
  unfold writeDirectRound
  refine sameRun_ite (sameRun_pure _) ?_
  refine sameRun_bind (same_loadWord _ _) fun v => ?_
  refine sameRun_bind (same_writeReg (by decide) _) fun _ => ?_
  refine sameRun_bind (same_setField fun _ => .inl (by decide)) fun _ => ?_
  refine sameRun_bind (sameRun_loop (fun spin => same_doneRound spin) _ _) fun out => ?_
  cases out with
  | error code => exact sameRun_pure _
  | ok spin => exact sameRun_bind (same_stepAddr _ _) fun addr => sameRun_pure _

theorem same_readAwait (addr : BitVec 8) (len increment : ℤ) (fuel : ℕ) :
    SameOnChip cells mem false
      (smiReadAwaitDirect (sramEnv m cells) fuel .caller addr len increment)
      (smiReadAwaitDirect (directEnv (m.holding mem)) fuel .caller addr len increment) := by
  unfold smiReadAwaitDirect
  refine sameRun_ite (sameRun_pure _) ?_
  refine sameRun_bind (same_setField fun _ => .inr ⟨rfl,rfl⟩) fun _ => ?_
  refine sameRun_bind (same_setField_other (by decide) _ _) fun _ => ?_
  refine sameRun_bind (same_startTimeout _) fun deadline => ?_
  exact sameRun_loop (fun s => same_readDirectRound fuel s) _ _

theorem same_writeAwait (data : ℕ → Word) (addr : BitVec 8) (len increment : ℤ) (fuel : ℕ) :
    SameOnChip cells mem true
      (smiWriteAwaitDirect (sramEnv m cells) fuel (some data) addr len increment)
      (smiWriteAwaitDirect (directEnv (m.holding mem)) fuel (some data) addr len increment) := by
  refine sameRun_bind (same_startTimeout _) fun deadline => ?_
  refine sameRun_bind (same_setField fun _ => .inr ⟨rfl,rfl⟩) fun _ => ?_
  exact sameRun_loop (fun s => same_writeDirectRound fuel s) _ _

end Calls

section Setup

variable {m : Peripheral} {cells : BitVec 6 → BitVec 8} {w : World DirectDev}

section Idle

variable (mem : BitVec 6 → BitVec 8)

theorem sram_read_idle (h : w.dev.port.flight = none) (r : Reg) :
    (sramEnv m cells).readReg r w.dev = (directEnv (m.holding mem)).readReg r w.dev := by
  simp only [sramEnv,lineEnv,directEnv,Port.land_idle h,Port.tick_idle h]

theorem sram_write_idle (h : w.dev.port.flight = none) (r : Reg) (v : Word) :
    w.write (sramEnv m cells) r v = w.write (directEnv (m.holding mem)) r v := by
  simp only [World.write,sramEnv,lineEnv,directEnv,Port.land_idle h,Port.tick_idle h]
  rfl

theorem sram_assign_idle (h : w.dev.port.flight = none) (r : Reg) (f : Field 32) (v : ℕ) :
    w.assign (sramEnv m cells) r f v = w.assign (directEnv (m.holding mem)) r f v := by
  have hread : w.read (sramEnv m cells) r = w.read (directEnv (m.holding mem)) r := by
    rw [World.read,World.read,World.value,World.value,sram_read_idle mem h]
  have hflight : (w.read (directEnv (m.holding mem)) r).dev.port.flight = none := by
    rw [port_read,Port.tick_idle h,h]
  rw [World.assign,World.assign,hread,sram_write_idle mem hflight,World.value,World.value,
    sram_read_idle mem h]

def RegOp.Quiet : RegOp → Prop
  | .field r f _ => r = smioDcs → f.Disjoint SmiDcs.start
  | .value r v => r = smioDcs → SmiDcs.start.test v = false

theorem idle_write (h : w.dev.port.flight = none) {r : Reg} {v : Word}
    (hv : r = smioDcs → SmiDcs.start.test v = false) :
    (w.write (directEnv m) r v).dev.port.flight = none := by
  by_cases hc : r = smioDcs
  · subst hc
    rw [port_write_dcs,Port.tick_idle h]
    simp [Port.control,hv rfl,h]
  by_cases ha : r = smioDa
  · subst ha
    rw [port_write_da,Port.tick_idle h,h]
  by_cases hd : r = smioDd
  · subst hd
    rw [port_write_dd,Port.tick_idle h,Port.load,h]
  · rw [port_write_other ⟨hc,ha,hd⟩,Port.tick_idle h,h]

theorem idle_assign (h : w.dev.port.flight = none) {r : Reg} {f : Field 32} {v : ℕ}
    (hf : r = smioDcs → f.Disjoint SmiDcs.start) :
    (w.assign (directEnv m) r f v).dev.port.flight = none := by
  refine idle_write (by rw [port_read,Port.tick_idle h,h]) fun hr => ?_
  rw [Field.test_set_of_disjoint (hf hr),hr,value_dcs,Port.test_start]

theorem sram_apply_idle (ops : List RegOp) (hops : ∀ op ∈ ops, op.Quiet) (r : Reg) (f : Field 32)
    (v : ℕ) (h : w.dev.port.flight = none) :
    w.apply (sramEnv m cells) (ops ++ [.field r f v]) =
      w.apply (directEnv (m.holding mem)) (ops ++ [.field r f v]) := by
  induction ops generalizing w with
  | nil => exact sram_assign_idle mem h r f v
  | cons op ops ih =>
    have hop := hops op (List.mem_cons_self ..)
    have hrest := fun op' h' => hops op' (List.mem_cons_of_mem op h')
    cases op with
    | field r f v =>
      rw [List.cons_append,World.apply_field,World.apply_field,
        sram_assign_idle mem h,ih hrest (idle_assign h hop)]
    | value r v =>
      rw [List.cons_append,World.apply_value,World.apply_value,
        sram_write_idle mem h,ih hrest (idle_write h hop)]

theorem sram_directSetup (write : ℕ) (addr : BitVec 8) (h : w.dev.port.flight = none) :
    w.apply (sramEnv m cells) (directSetup write addr) =
      w.apply (directEnv (m.holding mem)) (directSetup write addr) := by
  refine sram_apply_idle mem ((directSetup write addr).take 11) ?_ smioDcs SmiDcs.start 1 h
  simp only [directSetup,List.take,List.forall_mem_cons,RegOp.Quiet,List.not_mem_nil,
    false_implies,implies_true]
  decide

theorem sram_directReadArrSetup (cxt : SmiCxt) (addr : BitVec 8) (h : w.dev.port.flight = none) :
    w.apply (sramEnv m cells) (directReadArrSetup cxt addr) =
      w.apply (directEnv (m.holding mem)) (directReadArrSetup cxt addr) := by
  refine sram_apply_idle mem ((directReadArrSetup cxt addr).take 6) ?_ smioDcs SmiDcs.start 1 h
  simp only [directReadArrSetup,List.take,List.forall_mem_cons,RegOp.Quiet,List.not_mem_nil,
    false_implies,implies_true]
  decide

end Idle

variable {fuel : ℕ} {addr : BitVec 8}

theorem sram_smiDirectWriteArr (mem : BitVec 6 → BitVec 8) (data : ℕ → Word) (len : BitVec 8)
    (increment : ℤ) (h : w.dev.port.flight = none) :
    smiDirectWriteArr (sramEnv m cells) fuel (some data) addr len increment w =
      smiDirectWriteArr (directEnv (m.holding mem)) fuel (some data) addr len increment w := by
  have harm := directSetup_armed (m := m.holding mem) true addr h
  have hawait : SameOnChip cells mem true _ _ :=
    same_writeAwait (m := m) data addr len.toNat increment fuel
  have hrun := sameRun_bind hawait (fun _ => sameRun_pure (1 : ℤ)) _
    (harm.oneWay fun hb => by cases hb)
  simp only [smiDirectWriteArr,bind_run (regOps_run _ _ w)]
  rw [sram_directSetup mem 1 addr h]
  exact hrun.1

/-- A read on the chip runs as on a peripheral that holds what the chip holds. -/
theorem sram_smiDirectReadArr (cxt : SmiCxt) (len increment : ℤ) (h : w.dev.port.flight = none) :
    smiDirectReadArr (sramEnv m cells) fuel cxt .caller addr len increment w =
      smiDirectReadArr (directEnv (m.holding (cellsAfter cells w.dev.port.bus))) fuel cxt .caller
        addr len increment w := by
  have harm :=
    directReadArrSetup_armed (m := m.holding (cellsAfter cells w.dev.port.bus)) cxt addr h
  have hawait : SameOnChip cells (cellsAfter cells w.dev.port.bus) false _ _ :=
    same_readAwait (m := m) addr len increment fuel
  have hrun := hawait _ (harm.oneWay fun _ => rfl)
  simp only [smiDirectReadArr,bind_run (regOps_run _ _ w)]
  rw [sram_directReadArrSetup (cellsAfter cells w.dev.port.bus) cxt addr h]
  exact hrun.1

theorem sram_smiDirectRead (h : w.dev.port.flight = none) :
    smiDirectRead (sramEnv m cells) fuel .caller addr w =
      smiDirectRead (directEnv (m.holding (cellsAfter cells w.dev.port.bus))) fuel .caller addr
        w := by
  have harm := directSetup_armed (m := m.holding (cellsAfter cells w.dev.port.bus)) false addr h
  have hawait : SameOnChip cells (cellsAfter cells w.dev.port.bus) false _ _ :=
    same_readAwait (m := m) addr 1 0 fuel
  have hrun := hawait _ (harm.oneWay fun _ => rfl)
  simp only [smiDirectRead,bind_run (regOps_run _ _ w)]
  rw [sram_directSetup (cellsAfter cells w.dev.port.bus) 0 addr h]
  exact hrun.1

end Setup
end RpiSmi
