import RpiSmi.DirectRead
import RpiSmi.DirectResult
import RpiSmi.Sram

/-!
# Direct calls as operations of a map

A write call is to update the cells one element after the other, a read call is
to look them up. What the chip holds after any write call is known exactly; where
the transfer that a setup begins is short, any sequence of calls is a sequence
of operations of a map.
-/

namespace RpiSmi

open Exec Elements BitField Writes

def storedElem (data : ℕ → Word) (increment : ℤ) (addr : BitVec 8) (k : ℕ) :
    BitVec 6 × BitVec 8 := (elemAddr increment addr k,(data k).setWidth 8)

section Stores

theorem cellsAfter_elems (cells : BitVec 6 → BitVec 8) (bus : List BusTransfer) (data : ℕ → Word)
    (increment : ℤ) (addr : BitVec 8) (ks : List ℕ) :
    cellsAfter cells (bus ++ ⟨addr.setWidth 6,0,true⟩::ks.map (sentElem data increment addr)) =
      run (cellsAfter cells bus)
        ((addr.setWidth 6,0)::ks.map (storedElem data increment addr)) := by
  have helem (k : ℕ) : (sentElem data increment addr k).stored? =
      some (storedElem data increment addr k) := by
    simp [BusTransfer.stored?,sentElem,storedElem,BitVec.setWidth_setWidth_of_le]
  have hmap : (ks.map (sentElem data increment addr)).filterMap BusTransfer.stored? =
      ks.map (storedElem data increment addr) := by
    rw [List.filterMap_map,show BusTransfer.stored? ∘ sentElem data increment addr =
      some ∘ storedElem data increment addr from funext helem,List.filterMap_eq_map]
  rw [cellsAfter_append,cellsAfter,List.filterMap_cons,hmap]
  rfl

/-- A later element of the call goes to the cell of element `k`. -/
def Overwritten (increment : ℤ) (addr : BitVec 8) (len k : ℕ) : Prop :=
  ∃ j < len, k < j ∧ elemAddr increment addr j = elemAddr increment addr k

instance (increment : ℤ) (addr : BitVec 8) (len k : ℕ) :
    Decidable (Overwritten increment addr len k) := inferInstanceAs (Decidable (∃ j < len, _))

/-- When the chip comes to hold the elements and is otherwise as before: an empty call finds a zero
where its setup puts one, and an element that is not sent is one that cannot be missed. -/
structure StoresElements (m : Peripheral) (mem : BitVec 6 → BitVec 8) (data : ℕ → Word)
    (increment : ℤ) (addr : BitVec 8) (len n : ℕ) : Prop where
  empty : len = 0 → mem (addr.setWidth 6) = 0#8
  first : 1 ≤ len → 5 ≤ m.latency n →
    Overwritten increment addr len 0 ∨ (data 0).setWidth 8 = 0#8
  second : 2 ≤ len → m.latency n = 4 → staleGap increment ≤ m.latency (n+1) →
    Overwritten increment addr len 1 ∨ (data 1).setWidth 8 =
      Function.update mem (addr.setWidth 6) ((data 0).setWidth 8) (elemAddr increment addr 1)

variable {m : Peripheral} {mem : BitVec 6 → BitVec 8} (data : ℕ → Word) {increment : ℤ}
  {addr : BitVec 8}

theorem overwritten_iff (increment : ℤ) (addr : BitVec 8) (len k : ℕ) :
    (∃ w ∈ (List.range' (k+1) (len-(k+1))).map (storedElem data increment addr),
      w.1 = elemAddr increment addr k) ↔ Overwritten increment addr len k := by
  constructor
  · rintro ⟨w,hw,ha⟩
    obtain ⟨j,hj,rfl⟩ := List.mem_map.mp hw
    obtain ⟨hk,hl⟩ := List.mem_range'_1.mp hj
    exact ⟨j,by omega,by omega,ha⟩
  · rintro ⟨j,hl,hk,ha⟩
    exact ⟨_,List.mem_map.mpr ⟨j,List.mem_range'_1.mpr ⟨by omega,by omega⟩,rfl⟩,ha⟩

theorem range_cons (n : ℕ) : List.range (n+1) = 0::List.range' 1 n := by
  rw [List.range_eq_range',List.range'_succ]

/-- The setup's zero is written over by the first element. -/
theorem run_setup (mem : BitVec 6 → BitVec 8) (l : List (BitVec 6 × BitVec 8)) :
    run mem ((addr.setWidth 6,0)::storedElem data increment addr 0::l) =
      run mem (storedElem data increment addr 0::l) :=
  (run_cons_eq_self_iff mem).mpr (.inl ⟨_,List.mem_cons_self ..,elemAddr_zero increment addr⟩)

theorem run_seen_iff (len n : ℕ) :
    run mem ((addr.setWidth 6,0)::
        (seenElems m increment len n).map (storedElem data increment addr)) =
      run mem ((List.range len).map (storedElem data increment addr)) ↔
    StoresElements m mem data increment addr len n := by
  rcases len with _ | len
  · have hseen : seenElems m increment 0 n = [] := by
      simp [seenElems]
    rw [hseen,List.range_zero,List.map_nil,run_cons_eq_self_iff]
    constructor
    · rintro (⟨w,hw,-⟩ | h)
      · cases hw
      · exact ⟨fun _ => h.symm,fun h => absurd h (by omega),fun h => absurd h (by omega)⟩
    · exact fun h => .inr (h.empty rfl).symm
  by_cases h₅ : 5 ≤ m.latency n
  · -- the first element is not sent
    rw [seenElems,if_pos h₅,range_cons,List.eraseIdx_cons_zero,List.map_cons,storedElem,
      ← elemAddr_zero increment addr,run_cons_eq_iff]
    have hkeys := overwritten_iff data increment addr (len+1) 0
    rw [Nat.zero_add,Nat.add_sub_cancel] at hkeys
    rw [hkeys]
    constructor
    · intro h
      exact ⟨fun h => absurd h (by omega),fun _ _ => h.imp_right Eq.symm,
        fun _ h₄ => absurd h₄ (by omega)⟩
    · exact fun h => (h.first (by omega) h₅).imp_right Eq.symm
  · by_cases h₄ : m.latency n = 4 ∧ staleGap increment ≤ m.latency (n+1)
    · rw [seenElems,if_neg h₅,if_pos h₄]
      rcases len with _ | len
      · refine iff_of_true ?_ ⟨fun h => absurd h (by omega),fun _ h => absurd h h₅,
          fun h => absurd h (by omega)⟩
        exact run_setup data mem []
      · -- the second element is not sent
        have hkeys := overwritten_iff data increment addr (len+2) 1
        rw [show len+2-(1+1) = len by omega] at hkeys
        rw [range_cons,List.range'_succ,List.eraseIdx_cons_succ,List.eraseIdx_cons_zero,
          List.map_cons,List.map_cons,List.map_cons,run_setup,run_cons,run_cons,eq_comm,
          show storedElem data increment addr 1 =
            (elemAddr increment addr 1,(data 1).setWidth 8) from rfl,
          run_cons_eq_self_iff,hkeys]
        constructor
        · intro h
          refine ⟨fun h => absurd h (by omega),fun _ h => absurd h h₅,fun _ _ _ => h.imp_right ?_⟩
          rintro hv
          rw [hv,storedElem,elemAddr_zero]
        · intro h
          refine (h.second (by omega) h₄.1 h₄.2).imp_right fun hv => ?_
          rw [hv,storedElem,elemAddr_zero]
    · -- all elements are sent
      rw [seenElems,if_neg h₅,if_neg h₄,range_cons,List.map_cons,run_setup]
      exact iff_of_true rfl ⟨fun h => absurd h (by omega),fun _ h => absurd h h₅,
        fun _ h h' => absurd ⟨h,h'⟩ h₄⟩

/-- After a write call the chip holds the elements, and what else it held before, exactly when no
element is missed. -/
theorem smiDirectWriteArr_stores_iff (m : Peripheral) (cells : BitVec 6 → BitVec 8)
    (data : ℕ → Word) (addr len : BitVec 8) (increment : ℤ) (w : World DirectDev)
    (h : w.dev.port.flight = none) :
    ∃ w', Ends (fun fuel => smiDirectWriteArr (sramEnv m cells) fuel (some data) addr len increment)
        w.fresh 1 w' ∧
      (¬ w'.Late → (cellsAfter cells w'.dev.port.bus = run (cellsAfter cells w.dev.port.bus)
          ((List.range len.toNat).map (storedElem data increment addr)) ↔
        StoresElements m (cellsAfter cells w.dev.port.bus) data increment addr len.toNat
          w.dev.port.bus.length)) := by
  obtain ⟨w',he,hbus⟩ := smiDirectWriteArr_bus (m := m.holding cells) (w := w.fresh) h
  refine ⟨w',?_,fun hlate => ?_⟩
  · simp only [Ends,sram_smiDirectWriteArr (w := w.fresh) cells data len increment h]
    exact he
  · rw [hbus.resolve_left hlate,cellsAfter_elems]
    exact run_seen_iff (m := m) data _ _

/-- Where transfers take five accesses, the word 5 at address 3 does not arrive. -/
theorem smiDirectWriteArr_stores_iff_slow : (World.init restDev).dev.port.flight = none ∧
    ∃ w', Ends (fun fuel => smiDirectWriteArr (sramEnv (steadyPeripheral 5) fun _ => 1) fuel
        (some fun _ => 5) 3 1 1) (World.init restDev).fresh 1 w' ∧
      (¬ w'.Late → (cellsAfter (fun _ => 1) w'.dev.port.bus =
          run (cellsAfter (fun _ => 1) (World.init restDev).dev.port.bus)
            ((List.range (1 : BitVec 8).toNat).map (storedElem (fun _ => 5) 1 3)) ↔
        StoresElements (steadyPeripheral 5)
          (cellsAfter (fun _ => 1) (World.init restDev).dev.port.bus) (fun _ => 5) 1 3
          (1 : BitVec 8).toNat (World.init restDev).dev.port.bus.length)) :=
  ⟨rfl,smiDirectWriteArr_stores_iff (steadyPeripheral 5) (fun _ => 1) (fun _ => 5) 3 1 1
    (World.init restDev) rfl⟩

end Stores

section Loops

variable {m : Peripheral} {data : ℕ → Word} {increment : ℤ} {addr : BitVec 8} {w : World DirectDev}
  {bus : List BusTransfer}

def sentBefore (data : ℕ → Word) (increment : ℤ) (addr : BitVec 8) (k : ℕ) : List BusTransfer :=
  (List.range k).map (sentElem data increment addr)

theorem sentBefore_succ (k : ℕ) : sentBefore data increment addr (k+1) =
    sentBefore data increment addr k ++ [sentElem data increment addr k] := by
  simp [sentBefore,List.range_succ]

def WriteReady (m : Peripheral) (data : ℕ → Word) (increment : ℤ) (addr : BitVec 8)
    (bus : List BusTransfer) (k : ℕ) (p : Port) : Prop :=
  ∃ n, (p.send m (data k)).Busy true ((addrAt increment addr k).setWidth 6) false n
    (sentElem data increment addr k) (bus ++ sentBefore data increment addr (k+1))

theorem Port.Idle.writeReady {k : ℕ} {p : Port}
    (h : p.Idle true ((addrAt increment addr k).setWidth 6)
      (bus ++ sentBefore data increment addr k)) : WriteReady m data increment addr bus k p := by
  have hsend := h.send (m := m) (v := data k)
  rw [sentElem_eq] at hsend
  rw [List.append_assoc,← sentBefore_succ] at hsend
  exact ⟨_,hsend⟩

/-- The transfer of the setup, `latency` accesses long, is over before the first START is read. -/
theorem Port.Armed.writeReady {p : Port} (h : p.Armed m true addr bus)
    (hn : m.latency bus.length ≤ 3) :
    WriteReady m data increment addr (bus ++ [⟨addr.setWidth 6,0,true⟩]) 0 (p.direct m true) := by
  unfold Port.Armed at h
  rcases hl : m.latency bus.length with _ | _ | l <;> rw [hl] at h
  case zero | succ.zero =>
    refine Port.Idle.writeReady ?_
    rw [sentBefore,List.range_zero,List.map_nil,List.append_nil]
    exact h.direct_idle (by omega) true
  case succ.succ =>
    have hd : (p.direct m true).Busy true ((addrAt increment addr 0).setWidth 6) false l _ _ :=
      h.direct true
    have hsend := hd.send_free (m := m) (v := data 0) rfl (by omega)
    rw [sentElem_eq] at hsend
    exact ⟨_,hsend⟩

theorem writeLoop_ready (deadline : ℤ) (len : ℕ)
    (hready : 0 < len → WriteReady m data increment addr bus 0 w.dev.port)
    (hidle : len = 0 → w.dev.port.Idle true (addr.setWidth 6) bus) :
    ∃ r w', LoopEnds (writeRound m data len increment deadline) ⟨0,0,addr⟩ w r w' ∧
      (w'.Late ∨ (w'.dev.port.flight = none ∧
        w'.dev.port.bus = bus ++ sentBefore data increment addr len)) := by
  -- before round k the port is ready for it, or idle if there is no round k
  let I (k : ℕ) (s : Direct) (v : World DirectDev) : Prop :=
    (∃ spin, s = ⟨k,spin,addrAt increment addr k⟩) ∧
      (k < len → WriteReady m data increment addr bus k v.dev.port) ∧
      (k = len → v.dev.port.Idle true ((addrAt increment addr k).setWidth 6)
        (bus ++ sentBefore data increment addr k))
  refine loopEnds_count I ?_ ?_ (Nat.zero_le len)
    ⟨⟨0,rfl⟩,hready,fun h => by simpa [sentBefore,addrAt] using hidle h.symm⟩
  · rintro k hk _ v ⟨⟨spin,rfl⟩,hr,-⟩
    obtain ⟨n,hb⟩ := hr hk
    obtain ⟨r,v',hround,hv⟩ := writeRound_busy (Int.ofNat_lt.mpr hk) hb
    rcases hv with ⟨⟨code,rfl⟩,hlate⟩ | ⟨⟨spin',rfl⟩,hi⟩
    · exact ⟨_,v',hround,.inl hlate⟩
    · exact ⟨_,v',hround,⟨spin',rfl⟩,fun _ => hi.writeReady,fun _ => hi⟩
  · rintro _ v ⟨⟨spin,rfl⟩,-,hi⟩
    exact ⟨_,v,⟨0,fun _ _ => writeDirectRound_full (by simp)⟩,
      .inr ⟨(hi rfl).flight,(hi rfl).bus_eq⟩⟩

def readBefore (m : Peripheral) (increment : ℤ) (addr : BitVec 8) (k : ℕ) : Bytes :=
  putAll 4 ((List.range k).map (elemByte m increment addr)) 0 empty

theorem readBefore_succ (k : ℕ) : readBefore m increment addr (k+1) =
    put 4 k (elemByte m increment addr k) (readBefore m increment addr k) := by
  simp [readBefore,List.range_succ,putAll_append,putAll]

theorem ReadsSince.snoc {k : ℕ} {w' : World DirectDev} {y : BusTransfer} (h : ReadsSince bus k w)
    (hbus : w'.dev.port.bus = w.dev.port.bus ++ [y]) (hy : y.write = false) :
    ReadsSince bus (k+1) w' := by
  obtain ⟨xs,hxs,hlen,hreads⟩ := h
  refine ⟨xs ++ [y],by rw [hbus,hxs,List.append_assoc],by simp [hlen],fun x hx => ?_⟩
  rcases List.mem_append.mp hx with hx | hx
  · exact hreads x hx
  · rw [List.mem_singleton.mp hx,hy]

theorem readLoop_ready (increment deadline len : ℤ)
    (hidle : w.dev.port.Idle false (addr.setWidth 6) bus) (hret : w.retData = empty) :
    ∃ r w', LoopEnds (readRound m len increment deadline) ⟨0,0,addr⟩ w r w' ∧
      (w'.Late ∨ (r = len.toNat ∧ w'.dev.port.flight = none ∧ ReadsSince bus len.toNat w' ∧
        w'.retData = readBefore m increment addr len.toNat)) := by
  let I (k : ℕ) (s : Direct) (v : World DirectDev) : Prop :=
    (∃ spin, s = ⟨k,spin,addrAt increment addr k⟩) ∧ ReadsSince bus k v ∧
      v.dev.port.Idle false ((addrAt increment addr k).setWidth 6) v.dev.port.bus ∧
      v.retData = readBefore m increment addr k
  refine loopEnds_count I ?_ ?_ (Nat.zero_le len.toNat)
    ⟨⟨0,rfl⟩,⟨[],by simp [hidle.bus_eq],rfl,by simp⟩,by rw [hidle.bus_eq]; exact hidle,hret⟩
  · rintro k hk _ v ⟨⟨spin,rfl⟩,hreads,hi,hv⟩
    obtain ⟨r,v',hround,hv'⟩ := readRound_busy (show ((_ : ℕ) : ℤ) < len by omega) rfl
      (hi.start (m := m))
    rcases hv' with ⟨⟨code,rfl⟩,hlate⟩ | ⟨⟨spin',rfl⟩,hi',hput⟩
    · exact ⟨_,v',hround,.inl hlate⟩
    · refine ⟨_,v',hround,⟨spin',rfl⟩,hreads.snoc hi'.bus_eq rfl,?_,?_⟩
      · rw [hi'.bus_eq]
        exact hi'
      · rw [hput,hv,readBefore_succ,elemByte,setWidth_addrAt]
  · rintro _ v ⟨⟨spin,rfl⟩,hreads,hi,hv⟩
    exact ⟨_,v,⟨0,fun _ _ => readDirectRound_full (by simp only; omega)⟩,
      .inr ⟨rfl,hi.flight,hreads,hv⟩⟩

end Loops

inductive DirectCall
  | write (data : ℕ → Word) (addr : BitVec 8)
  | writeArr (data : ℕ → Word) (addr len : BitVec 8) (increment : ℤ)
  | read (addr : BitVec 8)
  | readArr (cxt : SmiCxt) (addr : BitVec 8) (len increment : ℤ)

namespace DirectCall

def run {σ : Type} (env : Env σ) (fuel : ℕ) : DirectCall → Drv σ ℤ
  | .write data addr => smiDirectWrite env fuel data addr
  | .writeArr data addr len increment =>
    smiDirectWriteArr env fuel (some data) addr len increment
  | .read addr => smiDirectRead env fuel .caller addr
  | .readArr cxt addr len increment => smiDirectReadArr env fuel cxt .caller addr len increment

def updates : DirectCall → List (BitVec 6 × BitVec 8)
  | .write data addr => [(addr.setWidth 6,0),storedElem data 0 addr 0]
  | .writeArr data addr len increment =>
    (addr.setWidth 6,0)::(List.range len.toNat).map (storedElem data increment addr)
  | _ => []

def lookups : DirectCall → List (BitVec 6)
  | .read addr => [elemAddr 0 addr 0]
  | .readArr _ addr len increment => (List.range len.toNat).map (elemAddr increment addr)
  | _ => []

def found (mem : BitVec 6 → BitVec 8) : DirectCall → Option Bytes
  | c@(.read ..) | c@(.readArr ..) =>
    some (putAll 4 (c.lookups.map fun a => (mem a).setWidth 32) 0 empty)
  | _ => none

def transfers : DirectCall → ℕ
  | .writeArr _ _ len _ => len.toNat+1
  | .readArr _ _ len _ => len.toNat+1
  | _ => 2

def Short (n : ℕ) : DirectCall → Prop
  | .writeArr _ _ len _ => n ≤ if len = 0 then 1 else 3
  | _ => n ≤ 3

end DirectCall

section Step

variable {m : Peripheral} (cells : BitVec 6 → BitVec 8) {w : World DirectDev}

/-- The chip after a call that has come to its end. -/
structure Performed (cells : BitVec 6 → BitVec 8) (c : DirectCall) (w w' : World DirectDev) :
    Prop where
  flight : w'.dev.port.flight = none
  length : w'.dev.port.bus.length = w.dev.port.bus.length+c.transfers
  stored : cellsAfter cells w'.dev.port.bus = run (cellsAfter cells w.dev.port.bus) c.updates
  found (ret : Bytes) : c.found (cellsAfter cells w.dev.port.bus) = some ret → w'.retData = ret

theorem writeArr_performed (data : ℕ → Word) (addr len : BitVec 8) (increment : ℤ)
    (h : w.dev.port.flight = none) (hn : (DirectCall.writeArr data addr len increment).Short
      (m.latency w.dev.port.bus.length)) :
    ∃ w', Ends (fun fuel => smiDirectWriteArr (sramEnv m cells) fuel (some data) addr len increment)
        w.fresh 1 w' ∧
      (w'.Late ∨ Performed cells (.writeArr data addr len increment) w w') := by
  let e := directEnv (m.holding cells)
  let u := ((w.fresh.apply e (directSetup 1 addr)).clocked e).assign e smioDcs SmiDcs.write
    true.toNat
  have harm := directSetup_armed (m := m.holding cells) (w := w.fresh) true addr h
  have hu : u.dev.port =
      (w.fresh.apply e (directSetup 1 addr)).dev.port.direct (m.holding cells) true :=
    port_direct true
  have hready : 0 < len.toNat → WriteReady (m.holding cells) data increment addr
      (w.dev.port.bus ++ [⟨addr.setWidth 6,0,true⟩]) 0 u.dev.port := by
    intro hlen
    rw [hu]
    refine harm.writeReady ?_
    have hne : len ≠ 0 := by
      rintro rfl
      exact absurd hlen (by decide)
    show m.latency w.dev.port.bus.length ≤ 3
    rwa [DirectCall.Short,if_neg hne] at hn
  have hidle : len.toNat = 0 → u.dev.port.Idle true (addr.setWidth 6)
      (w.dev.port.bus ++ [⟨addr.setWidth 6,0,true⟩]) := by
    intro hlen
    rw [hu]
    refine harm.direct_idle ?_ true
    have hz : len = 0 := BitVec.eq_of_toNat_eq hlen
    show m.latency w.dev.port.bus.length ≤ 1
    rwa [DirectCall.Short,if_pos hz] at hn
  obtain ⟨r,w',hloop,hw'⟩ := writeLoop_ready
    ((w.fresh.apply e (directSetup 1 addr)).deadline e progWriteTimeoutS) len.toNat hready hidle
  refine ⟨w',?_,hw'.imp_right fun ⟨hf,hb⟩ => ?_⟩
  · have hawait : Ends (fun fuel => smiWriteAwaitDirect e fuel (some data) addr len.toNat increment)
        (w.fresh.apply e (directSetup 1 addr)) r w' := by
      simp only [Ends,smiWriteAwaitDirect,writeAwaitDirect_run]
      exact hloop.ends
    simp only [Ends,sram_smiDirectWriteArr (w := w.fresh) cells data len increment h]
    simp only [smiDirectWriteArr,bind_run (regOps_run _ (directSetup 1 addr) w.fresh)]
    exact ends_bind hawait (ends_of_run rfl)
  · rw [List.append_assoc,List.singleton_append] at hb
    refine ⟨hf,?_,?_,fun ret hr => by cases hr⟩
    · simp [hb,DirectCall.transfers,sentBefore]
    · rw [hb]
      exact cellsAfter_elems cells w.dev.port.bus data increment addr _

theorem readAwait_performed {v : World DirectDev} {addr : BitVec 8} (len increment : ℤ)
    (hn : m.latency w.dev.port.bus.length ≤ 3)
    (harm : v.dev.port.Armed (m.holding (cellsAfter cells w.dev.port.bus)) false addr
      w.dev.port.bus) (hret : v.retData = empty) :
    ∃ r w', Ends (fun fuel => smiReadAwaitDirect
        (directEnv (m.holding (cellsAfter cells w.dev.port.bus))) fuel .caller addr len increment)
        v r w' ∧
      (w'.Late ∨ (r = len.toNat ∧ w'.dev.port.flight = none ∧
        ReadsSince w.dev.port.bus (len.toNat+1) w' ∧
        w'.retData = putAll 4 (((List.range len.toNat).map (elemAddr increment addr)).map fun a =>
          (cellsAfter cells w.dev.port.bus a).setWidth 32) 0 empty)) := by
  let m' := m.holding (cellsAfter cells w.dev.port.bus)
  let e := directEnv m'
  let u := (v.assign e smioDcs SmiDcs.write false.toNat).assign e smioDa SmiDa.addr addr.toNat
  have hport : (u.clocked e).dev.port = (v.dev.port.direct m' false).move m' addr.toNat := by
    show u.dev.port = _
    rw [port_move,port_direct]
  have hidle : (u.clocked e).dev.port.Idle false (addr.setWidth 6)
      (w.dev.port.bus ++ [⟨addr.setWidth 6,0,false⟩]) := by
    have hgap := six_le_startGap increment 0
    have hn' : (m.holding (cellsAfter cells w.dev.port.bus)).latency w.dev.port.bus.length ≤ 3 := hn
    exact hport ▸ (harm.pending increment).idle (by omega)
  have hmem : (u.clocked e).retData = empty := by
    have hm : (u.clocked e).memory = v.memory := by
      simp only [World.clocked,World.memory_after,u,memory_assign]
    exact (congrArg Memory.retData hm).trans hret
  obtain ⟨r,w',hloop,hw'⟩ := readLoop_ready (m := m') increment
    (u.deadline e directReadTimeoutS) len hidle hmem
  refine ⟨r,w',?_,?_⟩
  · simp only [Ends,smiReadAwaitDirect_run (show Ptr.caller ≠ .null by decide)]
    exact hloop.ends
  · rcases hw' with hlate | ⟨hr,hf,hreads,hfound⟩
    · exact .inl hlate
    · refine .inr ⟨hr,hf,hreads.cons rfl,?_⟩
      rw [hfound,readBefore,List.map_map]
      rfl

theorem performed_of_reads {c : DirectCall} {v : World DirectDev} (hf : v.dev.port.flight = none)
    (hreads : ReadsSince w.dev.port.bus c.transfers v) (hup : c.updates = [])
    (hfound : ∀ ret, c.found (cellsAfter cells w.dev.port.bus) = some ret → v.retData = ret) :
    Performed cells c w v := by
  obtain ⟨xs,hxs,hlen,hx⟩ := hreads
  refine ⟨hf,by rw [hxs,List.length_append,hlen],?_,hfound⟩
  rw [hxs,cellsAfter_append,cellsAfter_reads hx,hup,run_nil]

def DirectCall.result : DirectCall → ℤ
  | .readArr _ _ len _ => len.toNat
  | _ => 1

/-- The step: a call on an idle port ends; if it reports no timeout, it has been the operation of
the map, and the port is idle again. -/
theorem DirectCall.performed (c : DirectCall) (h : w.dev.port.flight = none)
    (hn : c.Short (m.latency w.dev.port.bus.length)) :
    ∃ r w', Ends (fun fuel => c.run (sramEnv m cells) fuel) w.fresh r w' ∧
      (w'.Late ∨ (r = c.result ∧ Performed cells c w w')) := by
  have harmed (addr : BitVec 8) := directSetup_armed
    (m := m.holding (cellsAfter cells w.dev.port.bus)) (w := w.fresh) false addr h
  have hret (ops : List RegOp) : (w.fresh.apply
      (directEnv (m.holding (cellsAfter cells w.dev.port.bus))) ops).retData = empty :=
    congrArg Memory.retData (memory_apply _ w.fresh ops)
  cases c with
  | write data addr =>
    obtain ⟨w',he,hw'⟩ := writeArr_performed cells data addr 1 0 h hn
    exact ⟨1,w',he,hw'.imp_right fun hp => ⟨rfl,hp.flight,hp.length,hp.stored,hp.found⟩⟩
  | writeArr data addr len increment =>
    obtain ⟨w',he,hw'⟩ := writeArr_performed cells data addr len increment h hn
    exact ⟨1,w',he,hw'.imp_right fun hp => ⟨rfl,hp⟩⟩
  | read addr =>
    obtain ⟨r,w',he,hw'⟩ := readAwait_performed cells 1 0 hn (harmed addr) (hret _)
    refine ⟨r,w',?_,?_⟩
    · simp only [Ends,DirectCall.run,sram_smiDirectRead (w := w.fresh) h]
      simp only [smiDirectRead,bind_run (regOps_run _ (directSetup 0 addr) w.fresh)]
      exact he
    · rcases hw' with hlate | ⟨hr,hf,hreads,hfound⟩
      · exact .inl hlate
      · refine .inr ⟨hr,performed_of_reads cells hf hreads rfl ?_⟩
        rintro ret ⟨⟩
        exact hfound
  | readArr cxt addr len increment =>
    obtain ⟨r,w',he,hw'⟩ := readAwait_performed cells len increment hn
      (directReadArrSetup_armed (m := m.holding (cellsAfter cells w.dev.port.bus)) (w := w.fresh)
        cxt addr h) (hret _)
    refine ⟨r,w',?_,?_⟩
    · simp only [Ends,DirectCall.run,sram_smiDirectReadArr (w := w.fresh) cxt len increment h]
      simp only [smiDirectReadArr,bind_run (regOps_run _ (directReadArrSetup cxt addr) w.fresh)]
      exact he
    · rcases hw' with hlate | ⟨hr,hf,hreads,hfound⟩
      · exact .inl hlate
      · refine .inr ⟨hr,performed_of_reads cells hf hreads rfl ?_⟩
        rintro ret ⟨⟩
        exact hfound

end Step

section Runs

variable {m : Peripheral} {cells : BitVec 6 → BitVec 8}

/-- Calls one after the other, none of which reports a timeout, with what each stored for its
caller and returned. -/
inductive CallsRun (m : Peripheral) (cells : BitVec 6 → BitVec 8) :
    World DirectDev → List (DirectCall × ℤ × Bytes) → World DirectDev → Prop
  | nil (w : World DirectDev) : CallsRun m cells w [] w
  | cons {w v w' : World DirectDev} {c : DirectCall} {r : ℤ} {l : List (DirectCall × ℤ × Bytes)}
      (he : Ends (fun fuel => c.run (sramEnv m cells) fuel) w.fresh r v) (hv : ¬ v.Late)
      (hrun : CallsRun m cells v l w') : CallsRun m cells w ((c,r,v.retData)::l) w'

/-- The same calls as operations of a map. -/
inductive MapRun :
    (BitVec 6 → BitVec 8) → List (DirectCall × ℤ × Bytes) → (BitVec 6 → BitVec 8) → Prop
  | nil (mem : BitVec 6 → BitVec 8) : MapRun mem [] mem
  | cons {mem mem' : BitVec 6 → BitVec 8} {c : DirectCall} {ret : Bytes}
      {l : List (DirectCall × ℤ × Bytes)} (hfound : ∀ b, c.found mem = some b → ret = b)
      (hrun : MapRun (run mem c.updates) l mem') : MapRun mem ((c,c.result,ret)::l) mem'

/-- The setup of every call is short, where the bus has carried `n` transfers. -/
def ShortSetups (m : Peripheral) : ℕ → List (DirectCall × ℤ × Bytes) → Prop
  | _, [] => True
  | n, (c,_)::l => c.Short (m.latency n) ∧ ShortSetups m (n+c.transfers) l

/-- Any sequence of direct calls on the chip is a run of the map; the port ends idle, and every
further call that its setup allows comes to an end. -/
theorem directCalls_refine_map {w w' : World DirectDev} {l : List (DirectCall × ℤ × Bytes)}
    (hrun : CallsRun m cells w l w') (h : w.dev.port.flight = none)
    (hshort : ShortSetups m w.dev.port.bus.length l) :
    MapRun (cellsAfter cells w.dev.port.bus) l (cellsAfter cells w'.dev.port.bus) ∧
      w'.dev.port.flight = none ∧ ∀ c : DirectCall, c.Short (m.latency w'.dev.port.bus.length) →
        ∃ r v, Ends (fun fuel => c.run (sramEnv m cells) fuel) w'.fresh r v := by
  induction hrun with
  | nil w =>
    refine ⟨.nil _,h,fun c hc => ?_⟩
    obtain ⟨r,v,he,-⟩ := c.performed cells h hc
    exact ⟨r,v,he⟩
  | @cons w v w' c r l he hv _ ih =>
    obtain ⟨hc,hl⟩ := hshort
    obtain ⟨r',v',he',hv'⟩ := c.performed cells h hc
    obtain ⟨rfl,rfl⟩ := ends_unique he' he
    obtain ⟨rfl,hp⟩ := hv'.resolve_left hv
    obtain ⟨hmap,hw',hnext⟩ := ih hp.flight (by rw [hp.length]; exact hl)
    refine ⟨.cons hp.found ?_,hw',hnext⟩
    rwa [← hp.stored]

theorem smiReadAwaitDirect_grows {σ : Type} (env : Env σ) (p : Ptr) (addr : BitVec 8)
    (len increment : ℤ) : Grows (fun fuel => smiReadAwaitDirect env fuel p addr len increment) := by
  have hround (deadline : ℤ) (s : Direct) :
      Grows fun n => readDirectRound env n p len increment deadline s := by
    by_cases hk : (s.count : ℤ) < len
    · simp only [readDirectRound,hk,not_true,if_false]
      refine grows_bind (grows_const _) fun _ => grows_bind ?_ fun r => ?_
      · exact grows_loop (fun spin => grows_const (doneRound env _ _ _ _ spin)) s.spin
      · cases r <;> exact grows_const _
    · simp only [readDirectRound,hk,not_false_eq_true,if_true]
      exact grows_const _
  unfold smiReadAwaitDirect
  split
  · exact grows_const _
  · refine grows_bind (grows_const _) fun _ => grows_bind (grows_const _) fun _ => ?_
    exact grows_bind (grows_const _) fun deadline => grows_loop (hround deadline) _

theorem DirectCall.run_grows {σ : Type} (env : Env σ) (c : DirectCall) :
    Grows (fun fuel => c.run env fuel) := by
  cases c with
  | write data addr => exact smiDirectWriteArr_grows 1
  | writeArr data addr len increment => exact smiDirectWriteArr_grows len
  | read addr => exact grows_bind (grows_const _) fun _ => smiReadAwaitDirect_grows env _ _ _ _
  | readArr cxt addr len increment =>
    exact grows_bind (grows_const _) fun _ => smiReadAwaitDirect_grows env _ _ _ _

theorem CallsRun.of_run (m : Peripheral) (cells : BitVec 6 → BitVec 8) (w : World DirectDev)
    (c : DirectCall) (n : ℕ) {r : ℤ} {l : List (DirectCall × ℤ × Bytes)} {w' : World DirectDev}
    (he : (c.run (sramEnv m cells) n w.fresh).1 = some r)
    (hv : ¬ (c.run (sramEnv m cells) n w.fresh).2.Late)
    (hrun : CallsRun m cells (c.run (sramEnv m cells) n w.fresh).2 l w') :
    CallsRun m cells w ((c,r,(c.run (sramEnv m cells) n w.fresh).2.retData)::l) w' :=
  .cons ⟨n,fun k hk => c.run_grows (sramEnv m cells) n k w.fresh r _ hk (Prod.ext he rfl)⟩ hv hrun

def echoCalls : List DirectCall := [.write (fun _ => 0x1A5) 3,.read 3]

theorem directCalls_refine_map_echo : ∃ w' l, l.map Prod.fst = echoCalls ∧
    CallsRun (steadyPeripheral 0) (fun _ => 0) (World.init restDev) l w' ∧
    MapRun (cellsAfter (fun _ => 0) []) l (cellsAfter (fun _ => 0) w'.dev.port.bus) ∧
      w'.dev.port.flight = none ∧
      ∀ c : DirectCall, c.Short ((steadyPeripheral 0).latency w'.dev.port.bus.length) →
        ∃ r v, Ends (fun fuel => c.run (sramEnv (steadyPeripheral 0) fun _ => 0) fuel) w'.fresh r
          v := by
  have hread (w : World DirectDev) (he : ((DirectCall.read 3).run
        (sramEnv (steadyPeripheral 0) fun _ => 0) 3 w.fresh).1 = some 1)
      (hv : ¬ ((DirectCall.read 3).run (sramEnv (steadyPeripheral 0) fun _ => 0) 3
        w.fresh).2.Late) :=
    CallsRun.of_run _ _ w (.read 3) 3 he hv (.nil _)
  have hrun := CallsRun.of_run (steadyPeripheral 0) (fun _ => 0) (World.init restDev)
    (.write (fun _ => 0x1A5) 3) 3 (r := 1) (by decide +kernel) (by decide +kernel)
    (hread _ (by decide +kernel) (by decide +kernel))
  exact ⟨_,_,rfl,hrun,directCalls_refine_map hrun rfl ⟨Nat.zero_le _,Nat.zero_le _,trivial⟩⟩

theorem elemAddr_injOn {increment : ℤ} (hi : increment ≠ 0) (addr : BitVec 8) {j k : ℕ}
    (hj : j < 64) (hk : k < 64)
    (h : elemAddr increment addr j = elemAddr increment addr k) : j = k := by
  have hv := congrArg BitVec.toNat h
  simp only [elemAddr,BitVec.toNat_ofInt] at hv
  rcases Int.lt_or_gt_of_ne hi with hlt | hgt
  · rw [Int.sign_eq_neg_one_of_neg hlt] at hv
    omega
  · rw [Int.sign_eq_one_of_pos hgt] at hv
    omega

theorem run_elems (data : ℕ → Word) {increment : ℤ} (hi : increment ≠ 0) (addr : BitVec 8)
    {len k : ℕ} (hlen : len ≤ 64) (hk : k < len) (mem : BitVec 6 → BitVec 8) :
    run mem ((addr.setWidth 6,0)::(List.range len).map (storedElem data increment addr))
      (elemAddr increment addr k) = (data k).setWidth 8 := by
  obtain ⟨n,rfl⟩ := Nat.exists_eq_add_of_le' (show 1 ≤ len by omega)
  rw [range_cons,List.map_cons,run_setup,← List.map_cons,← range_cons]
  have hmem : (elemAddr increment addr k,(data k).setWidth 8) ∈
      (List.range (n+1)).map (storedElem data increment addr) :=
    List.mem_map.mpr ⟨k,List.mem_range.mpr hk,rfl⟩
  refine run_of_mem hmem (fun x hx ha => ?_) mem
  obtain ⟨j,hj,rfl⟩ := List.mem_map.mp hx
  have hjk : j = k := elemAddr_injOn hi addr (by have := List.mem_range.mp hj; omega) (by omega) ha
  rw [hjk,storedElem]

/-- A write call of up to 64 elements at moving addresses, and the read call of the same addresses:
the caller gets the low byte of every element. -/
theorem directArr_round_trip {w w' : World DirectDev} {data : ℕ → Word} {addr len : BitVec 8}
    {increment r r' : ℤ} {cxt : SmiCxt} {ret ret' : Bytes} (hi : increment ≠ 0)
    (hlen : len.toNat ≤ 64) (h : w.dev.port.flight = none)
    (hshort : ShortSetups m w.dev.port.bus.length
      [(.writeArr data addr len increment,r,ret),(.readArr cxt addr len.toNat increment,r',ret')])
    (hrun : CallsRun m cells w
      [(.writeArr data addr len increment,r,ret),(.readArr cxt addr len.toNat increment,r',ret')]
      w') :
    r' = len.toNat ∧ ret' = putAll 4
      ((List.range len.toNat).map fun k => ((data k).setWidth 8).setWidth 32) 0 empty := by
  obtain ⟨hmap,-⟩ := directCalls_refine_map hrun h hshort
  rcases hmap with _ | ⟨-,_ | ⟨hfound,-⟩⟩
  refine ⟨rfl,?_⟩
  rw [hfound _ rfl,DirectCall.lookups,List.map_map]
  congr 1
  refine List.map_congr_left fun k hk => ?_
  have hcell := run_elems data hi addr hlen (List.mem_range.mp hk) (cellsAfter cells w.dev.port.bus)
  exact congrArg (BitVec.setWidth 32) hcell

/-- Two words at addresses 63 and 0, over transfers of three accesses. -/
theorem directArr_round_trip_wrap : ∃ ret ret' w', CallsRun (steadyPeripheral 3) (fun _ => 0)
      (World.init restDev) [(.writeArr (fun k => 0x1A5+BitVec.ofNat 32 k) 63 2 1,1,ret),
        (.readArr (deviceCxt 0 false false false) 63 2 1,2,ret')] w' ∧
    ret' = putAll 4 [0xA5,0xA6] 0 empty := by
  have hread (w : World DirectDev)
      (he : ((DirectCall.readArr (deviceCxt 0 false false false) 63 2 1).run
        (sramEnv (steadyPeripheral 3) fun _ => 0) 8 w.fresh).1 = some 2)
      (hv : ¬ ((DirectCall.readArr (deviceCxt 0 false false false) 63 2 1).run
        (sramEnv (steadyPeripheral 3) fun _ => 0) 8 w.fresh).2.Late) :=
    CallsRun.of_run _ _ w (.readArr (deviceCxt 0 false false false) 63 2 1) 8 he hv (.nil _)
  have hrun := CallsRun.of_run (steadyPeripheral 3) (fun _ => 0) (World.init restDev)
    (.writeArr (fun k => 0x1A5+BitVec.ofNat 32 k) 63 2 1) 8 (r := 1) (by decide +kernel)
    (by decide +kernel) (hread _ (by decide +kernel) (by decide +kernel))
  exact ⟨_,_,_,hrun,(directArr_round_trip (by decide) (by decide) rfl
    (by exact ⟨Nat.le_refl 3,Nat.le_refl 3,trivial⟩) hrun).2⟩

end Runs
end RpiSmi
