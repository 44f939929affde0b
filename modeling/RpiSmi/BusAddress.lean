import RpiSmi.BufferInit
import RpiSmi.DmaCoherence

/-!
# Bus addresses of the DMA buffer

A pointer into the buffer goes to the DMA engine as a 32-bit bus address, two
bits of which select the alias. The translation back keeps the other thirty.
-/

namespace RpiSmi

open Exec

def busPhysAddr (a : Word) : BitVec 64 := (a &&& ~~~0xC0000000#32).setWidth 64

theorem busPhysAddr_toNat (a : Word) : (busPhysAddr a).toNat = a.toNat%2^30 := by
  have hmask : (~~~0xC0000000#32).toNat = 2^30-1 := by decide
  have hlt : a.toNat%2^30 < 2^64 := lt_of_lt_of_le (Nat.mod_lt _ (by decide)) (by decide)
  rw [busPhysAddr,BitVec.toNat_setWidth,BitVec.toNat_and,hmask,Nat.and_two_pow_sub_one_eq_mod,
    Nat.mod_eq_of_lt hlt]

namespace Udmabuf

variable {τ : Type}

def BufferMap.memMap (b : BufferMap) : MemMap := ⟨b.bus,BitVec.ofNat 64 b.virt⟩

def BufferMap.offset (b : BufferMap) (a : BitVec 64) : ℕ := (a-b.memMap.virt).toNat

def BufferMap.Inside (b : BufferMap) (a : BitVec 64) : Prop := b.offset a < b.size.toNat

instance (b : BufferMap) (a : BitVec 64) : Decidable (b.Inside a) :=
  inferInstanceAs (Decidable (_ < _))

def initBuffer (os : BufferOs τ) (u : Init τ) : BufferMap := (dmaBufferInit os true true u).2.buffer

section Located

variable {os : BufferOs τ} {u : Init τ} {base errors : ℕ} {size phys : BitVec 64}
  (hsteps : os.steps u.sys =
    [.mapped (some base),.sized (.found size),.located (.found phys),.checked errors])

include hsteps

theorem initBuffer_eq : initBuffer os u = ⟨size,phys+0xC0000000,base,phys⟩ := by
  have hrun := dmaBufferInit_run os u
  unfold initBuffer
  rcases hx : dmaBufferInit os true true u with ⟨_ | r,u'⟩
  · exact absurd hrun (by simp [Post,hx])
  · have hinit : Initialised os u u' := by simpa [Post,hx] using hrun
    obtain ⟨l,-,hbuffer⟩ := hinit.added
    exact (hbuffer base size phys errors hsteps).1

end Located

section Translate

variable {b : BufferMap} (hbus : b.bus = b.phys+0xC0000000)

include hbus

theorem memBusAddr_toNat (a : BitVec 64) : (memBusAddr b.memMap a).toNat =
    (b.phys.toNat+b.offset a+0xC0000000)%2^32 := by
  have hoff : (a.setWidth 32-b.memMap.virt.setWidth 32).toNat = b.offset a%2^32 := by
    have hvirt := b.memMap.virt.isLt
    rw [BufferMap.offset,BitVec.toNat_sub,BitVec.toNat_sub,BitVec.toNat_setWidth,
      BitVec.toNat_setWidth]
    omega
  have hbase : (b.memMap.bus.setWidth 32).toNat = (b.phys.toNat+0xC0000000)%2^32 := by
    rw [BitVec.toNat_setWidth,show b.memMap.bus = b.phys+0xC0000000 from hbus,BitVec.toNat_add]
    exact Nat.mod_mod_of_dvd _ (by decide)
  rw [memBusAddr,BitVec.toNat_add,hoff,hbase]
  omega

/-- There and back keeps thirty bits of the physical address. -/
theorem round_trip (a : BitVec 64) : (busPhysAddr (memBusAddr b.memMap a)).toNat =
    (b.phys.toNat+b.offset a)%2^30 := by
  rw [busPhysAddr_toNat,memBusAddr_toNat hbus]
  omega

theorem round_trip_iff (a : BitVec 64) : (busPhysAddr (memBusAddr b.memMap a)).toNat =
    b.phys.toNat+b.offset a ↔ b.phys.toNat+b.offset a < 2^30 := by
  rw [round_trip hbus]
  omega

theorem memBusAddr_injOn (hfit : b.size.toNat < 2^32) {a a' : BitVec 64} (ha : b.Inside a)
    (ha' : b.Inside a') (h : memBusAddr b.memMap a = memBusAddr b.memMap a') : a = a' := by
  have hnat := congrArg BitVec.toNat h
  rw [memBusAddr_toNat hbus,memBusAddr_toNat hbus] at hnat
  have hoff : b.offset a = b.offset a' := by
    unfold BufferMap.Inside at ha ha'
    omega
  have hsub : a-b.memMap.virt = a'-b.memMap.virt := BitVec.eq_of_toNat_eq hoff
  exact (BitVec.sub_left_inj _).mp hsub

end Translate

end Udmabuf

namespace DmaCall

variable {σ : Type} {env : Env σ} {d : DmaCall} {w : World σ}

/-- The pointer to the data in a control block; the other one is to the FIFO register. -/
def dataPtr (d : DmaCall) (c : DmaCb) : Word :=
  match d.dir with
  | .read => c.destAddr
  | .write => c.srcAddr

theorem dataPtr_block (c : DmaCb) : d.dataPtr (d.block c) = d.dataPtr c := by
  unfold dataPtr block
  cases d.dir <;> rfl

theorem pointers (env : Env σ) (d : DmaCall) (w : World σ) (fuel : ℕ) :
    ∀ e ∈ (d.run env fuel w.fresh).2.log,
      (∀ v, e = .write (dmaCtrlBlk d.channel8) v → v = memBusAddr d.cxt.dmaBuffer d.cb) ∧
      ∀ c, e = .control c → d.dataPtr c = d.dataPtr w.cb := by
  by_cases hn : d.HasNull
  · rw [run_null hn]
    intro e he
    cases he
  · let Q : Event → Prop := fun e =>
      (∀ v, e = .write (dmaCtrlBlk d.channel8) v → v = memBusAddr d.cxt.dmaBuffer d.cb) ∧
      ∀ c, e = .control c → d.dataPtr c = d.dataPtr w.cb
    have hq : ∀ e : Event, e.IsStep → Q e := by
      rintro (_ | _ | _ | _ | _ | _ | _ | _) he <;> simp_all [Q,Event.IsStep]
    have hother {r : Reg} (hr : r ≠ dmaCtrlBlk d.channel8) (x : Word) : Q (.write r x) := by
      refine ⟨?_,by simp⟩
      rintro v he
      cases he
      exact absurd rfl hr
    have hcb : Q (.write (dmaCtrlBlk d.channel8) ((cbAddress d.cxt d.cb).setWidth 32)) := by
      refine ⟨?_,by simp⟩
      rintro v he
      cases he
      simp [cbAddress]
    have hblock : Q (.control (d.block w.cb)) := by
      refine ⟨by simp,?_⟩
      rintro c he
      cases he
      exact dataPtr_block w.cb
    have hrun : Logged Q w.fresh (d.run env fuel w.fresh).2 :=
      logged_run (w := w.fresh) hq hn (by simp [Q]) hblock
        (setup_logs hq fun off v => hother (by simp [dmaCtrlBlk]) v)
        (fun _ => ⟨hcb,hother (dmaCtrlBlk_ne _ _).symm⟩)
        (hother (by rw [dmaoCs_eq]; exact (dmaCtrlBlk_ne _ _).symm)) fuel
    exact hrun.log_eq rfl

end DmaCall

namespace Udmabuf

variable {τ : Type} {os : BufferOs τ} {u : Init τ} {base errors : ℕ} {size phys : BitVec 64}

/-- The way back is right exactly below 2^30, the memory that the alias shows. Bus addresses
are distinct wherever the buffer lies, and where it lies below 2^30 all pointers that a call gives
the engine are pointers into the buffer. -/
theorem bus_addresses_translate (hsteps : os.steps u.sys =
      [.mapped (some base),.sized (.found size),.located (.found phys),.checked errors])
    (hfit : phys.toNat+size.toNat < 2^32) :
    (∀ a, (initBuffer os u).Inside a →
      ((busPhysAddr (memBusAddr (initBuffer os u).memMap a)).toNat =
        phys.toNat+(a-BitVec.ofNat 64 base).toNat ↔
          phys.toNat+(a-BitVec.ofNat 64 base).toNat < 2^30)) ∧
    (∀ a a', (initBuffer os u).Inside a → (initBuffer os u).Inside a' →
      memBusAddr (initBuffer os u).memMap a = memBusAddr (initBuffer os u).memMap a' → a = a') ∧
    (phys.toNat+size.toNat ≤ 2^30 →
      (∀ a, (initBuffer os u).Inside a →
        (busPhysAddr (memBusAddr (initBuffer os u).memMap a)).toNat =
          phys.toNat+(a-BitVec.ofNat 64 base).toNat) ∧
      ∀ (σ : Type) (env : Env σ) (d : DmaCall) (w : World σ) (fuel : ℕ),
        d.cxt.dmaBuffer = (initBuffer os u).memMap → (initBuffer os u).Inside d.cb →
        (∀ v, .write (dmaCtrlBlk d.channel8) v ∈ (d.run env fuel w.fresh).2.log →
          (busPhysAddr v).toNat = phys.toNat+(d.cb-BitVec.ofNat 64 base).toNat) ∧
        ∀ a, (initBuffer os u).Inside a →
          d.dataPtr w.cb = memBusAddr (initBuffer os u).memMap a →
          ∀ c, .control c ∈ (d.run env fuel w.fresh).2.log →
            (busPhysAddr (d.dataPtr c)).toNat =
              phys.toNat+(a-BitVec.ofNat 64 base).toNat) := by
  rw [initBuffer_eq hsteps]
  let b : BufferMap := ⟨size,phys+0xC0000000,base,phys⟩
  have hbus : b.bus = b.phys+0xC0000000 := rfl
  have hback (a : BitVec 64) (hlow : phys.toNat+size.toNat ≤ 2^30) (ha : b.Inside a) :
      (busPhysAddr (memBusAddr b.memMap a)).toNat = phys.toNat+b.offset a := by
    have hlt : b.offset a < size.toNat := ha
    exact (round_trip_iff hbus a).mpr (show phys.toNat+b.offset a < 2^30 by omega)
  refine ⟨fun a _ => round_trip_iff hbus a,fun a a' ha ha' h => ?_,fun hlow =>
    ⟨fun a ha => hback a hlow ha,fun σ env d w fuel hmap hcb => ⟨fun v hv => ?_,?_⟩⟩⟩
  · exact memBusAddr_injOn hbus (show size.toNat < 2^32 by omega) ha ha' h
  · rw [(d.pointers env w fuel _ hv).1 v rfl,hmap]
    exact hback d.cb hlow hcb
  · intro a ha hptr c hc
    rw [(d.pointers env w fuel _ hc).2 c rfl,hptr]
    exact hback a hlow ha

def locatedOs (phys : BitVec 64) : BufferOs ℕ where
  openFile _ n := (3,n)
  close _ n := n
  mmap _ n := (some 0x7f8000000000,n)
  munmap _ _ n := n
  scanSize n := (some 0x10000,n)
  scanAddr n := (some phys,n)
  stray _ := 0
  poke _ _ n := n
  peek _ n := (0,n)

def locatedInit : Init ℕ := ⟨Process.start 0 ⟨0,0,0,0,0,-1,-1⟩,⟨0,0,0,0⟩,[]⟩

theorem locatedOs_steps (phys : BitVec 64) : (locatedOs phys).steps locatedInit.sys =
    [.mapped (some 0x7f8000000000),.sized (.found 0x10000),.located (.found phys),
      .checked ((locatedOs phys).checkBuf 0x7f8000000000 dmaBufferSize 0).1] := rfl

/-- A buffer in the last megabytes below 2^30, and a pointer 32 bytes into it. -/
theorem bus_addresses_translate_low : (busPhysAddr (memBusAddr
    (initBuffer (locatedOs 0x3e513000) locatedInit).memMap 0x7f8000000020)).toNat =
      0x3e513000+0x20 := by
  have hlow := (bus_addresses_translate (locatedOs_steps 0x3e513000) (by decide)).2.2 (by decide)
  refine (hlow.1 0x7f8000000020 ?_).trans (by decide)
  rw [initBuffer_eq (locatedOs_steps 0x3e513000)]
  decide

/-- A buffer at 2^30: its first address comes back as 0. -/
theorem bus_addresses_wrap : (0x40000000 : BitVec 64).toNat+(0x10000 : BitVec 64).toNat < 2^32 ∧
    (initBuffer (locatedOs 0x40000000) locatedInit).Inside 0x7f8000000000 ∧
    (busPhysAddr (memBusAddr (initBuffer (locatedOs 0x40000000) locatedInit).memMap
      0x7f8000000000)).toNat ≠ 0x40000000+0 := by
  rw [initBuffer_eq (locatedOs_steps 0x40000000)]
  decide

end Udmabuf

end RpiSmi
