import RpiSmi.DirectLoops

/-!
# Direct reads on the device

As for writes, the setup begins a read of its own. The loop's first START is
absorbed by it, begins a second read of the same address, or does so with the
DONE of the setup's read still standing; in the last case every element may be
taken one transfer too early until some START is absorbed.
-/

namespace RpiSmi

open Exec Elements

def byteAt (m : Peripheral) (a : BitVec 6) : Word := (m.mem a).setWidth 32

def elemByte (m : Peripheral) (increment : ℤ) (addr : BitVec 8) (k : ℕ) : Word :=
  byteAt m (elemAddr increment addr k)

/-- The accesses from the START before to the write of START `k`; the first START follows the
setup's, and the others follow an element that was taken at the first poll. -/
def startGap (increment : ℤ) (k : ℕ) : ℕ := if k = 0 ∨ increment = 0 then 6 else 8

theorem six_le_startGap (increment : ℤ) (k : ℕ) : 6 ≤ startGap increment k := by
  unfold startGap
  split_ifs <;> omega

/-- A port about to be given START `c` accesses after the START that began `x`, which lasts `n`. -/
structure Port.Pending (a : BitVec 6) (c n : ℕ) (x : BusTransfer) (bus : List BusTransfer)
    (p : Port) : Prop where
  idle : n+2 < c → p.Idle false a bus
  busy : c ≤ n+2 → p.Busy false a false (n+2-c) x bus

section Start

variable {m : Peripheral} {p : Port} {a : BitVec 6} {c n : ℕ} {x : BusTransfer}
  {bus : List BusTransfer}

theorem Port.Pending.bus_eq (h : p.Pending a c n x bus) : p.bus = bus := by
  rcases Nat.lt_or_ge (n+2) c with hn | hn
  · exact (h.idle hn).bus_eq
  · exact (h.busy hn).bus_eq

theorem Port.launch_dd (p : Port) : (p.launch m).dd = p.dd := by
  unfold Port.launch
  split <;> rfl

theorem Port.Pending.start_free (h : p.Pending a c n x bus) (hn : n+1 < c) :
    ∃ y : BusTransfer, y.addr = a ∧ y.write = false ∧
      (p.start m).Busy false a false (m.latency bus.length) y (bus ++ [y]) := by
  by_cases hi : n+2 < c
  · exact ⟨_,rfl,rfl,(h.idle hi).start⟩
  · have hb := h.busy (by omega)
    rw [show n+2-c = 0 by omega] at hb
    exact ⟨_,rfl,rfl,hb.start_zero⟩

theorem Port.Pending.start_stale (h : p.Pending a c n x bus) (hx : x.write = false)
    (hn : n+1 = c) : ∃ y : BusTransfer, y.addr = a ∧ y.write = false ∧
      (p.start m).Busy false a true (m.latency bus.length) y (bus ++ [y]) ∧
      (p.start m).dd = (m.mem x.addr).setWidth 18 := by
  have hb := h.busy (by omega)
  rw [show n+2-c = 1 by omega] at hb
  refine ⟨_,rfl,rfl,hb.start_one,?_⟩
  rw [Port.start,Port.launch_dd]
  simp [Port.rewrite,hb.tick_succ.tick_zero,Port.complete,hx]

theorem Port.Pending.start_late (h : p.Pending a c n x bus) (hn : c ≤ n) :
    (p.start m).Busy false a false (n-c) x bus := by
  have hb := h.busy (by omega)
  rw [show n+2-c = n-c+2 by omega] at hb
  exact hb.start_succ

/-- What a round that ends at its first poll makes of the transfer it has begun: a poll, the read of
`SMI_DD`, the clearing of DONE and, where the address moves, an assignment to `SMI_DA`. -/
theorem Port.Busy.take {b : BitVec 8} (increment : ℤ) (k : ℕ)
    (h : p.Busy false (b.setWidth 6) true n x bus) :
    ((((p.tick m).tick m).clear m).step m increment b).Pending
      ((nextAddr increment b).setWidth 6) (startGap increment (k+1)) n x bus := by
  have hgap := six_le_startGap increment (k+1)
  rcases Nat.lt_or_ge n 4 with hn | hn
  · -- the transfer is over before the address moves
    have hi : (((p.tick m).tick m).clear m).Idle false (b.setWidth 6) bus := by
      rcases Nat.lt_or_ge n 2 with h₂ | h₂
      · exact (h.ticks_idle (by omega)).clear
      · obtain ⟨j,rfl⟩ := Nat.exists_eq_add_of_le' h₂
        exact h.tick_succ.tick_succ.clear_idle (by omega)
    refine ⟨fun _ => hi.step increment,fun hc => by omega⟩
  · obtain ⟨j,rfl⟩ := Nat.exists_eq_add_of_le' hn
    have hb := (h.tick_succ (m := m)).tick_succ (m := m) |>.clear (m := m)
    by_cases hz : increment = 0
    · subst hz
      have hg : startGap 0 (k+1) = 6 := by simp [startGap]
      refine ⟨fun hc => by omega,fun _ => ?_⟩
      rw [hg,show j+4+2-6 = j by omega]
      exact hb
    · have hg : startGap increment (k+1) = 8 := by simp [startGap,hz]
      rw [Port.step,if_neg hz,hg]
      refine ⟨fun hc => hb.move_idle (by omega) _,fun hc => ?_⟩
      obtain ⟨i,rfl⟩ := Nat.exists_eq_add_of_le' (show 2 ≤ j by omega)
      rw [show i+2+4+2-8 = i by omega]
      exact hb.move _

theorem Port.Armed.pending {b : BitVec 8} (increment : ℤ) (h : p.Armed m false b bus) :
    ((p.direct m false).move m b.toNat).Pending (b.setWidth 6) (startGap increment 0)
      (m.latency bus.length) ⟨b.setWidth 6,0,false⟩ (bus ++ [⟨b.setWidth 6,0,false⟩]) := by
  have hg : startGap increment 0 = 6 := by simp [startGap]
  unfold Port.Armed at h
  rw [hg]
  generalize m.latency bus.length = n at h ⊢
  rcases Nat.lt_or_ge n 4 with hn | hn
  · refine ⟨fun _ => ?_,fun hc => by omega⟩
    rcases Nat.lt_or_ge n 2 with h₂ | h₂
    · exact (h.direct_idle (by omega) false).move b
    · obtain ⟨j,rfl⟩ := Nat.exists_eq_add_of_le' h₂
      exact (h.direct false).move_idle (by omega) b
  · obtain ⟨j,rfl⟩ := Nat.exists_eq_add_of_le' hn
    refine ⟨fun hc => by omega,fun _ => ?_⟩
    rw [show j+4+2-6 = j by omega]
    exact (Port.Busy.direct (n := j+2) h false).move b

end Start
section Rounds

variable {m : Peripheral} {len increment deadline : ℤ} {addr : BitVec 8} {k spin : ℕ}
  {w : World DirectDev} {bus : List BusTransfer} {n : ℕ} {x : BusTransfer}

abbrev readRound (m : Peripheral) (len increment deadline : ℤ) (fuel : ℕ) :
    Direct → Drv DirectDev (Direct ⊕ ℤ) :=
  readDirectRound (directEnv m) fuel .caller len increment deadline

theorem port_takeWord (b : BitVec 8) : (w.takeWord (directEnv m) .caller k increment b).dev.port =
    ((w.dev.port.tick m).clear m).step m increment b := by
  rw [World.takeWord,port_stepped,port_clear]
  rfl

theorem retData_takeWord (b : BitVec 8) :
    (w.takeWord (directEnv m) .caller k increment b).retData =
      put 4 k ((w.dev.port.tick m).dd.setWidth 32 &&& 0xFF) w.retData := by
  have hm : (w.takeWord (directEnv m) .caller k increment b).memory =
      w.memory.store .caller k ((w.dev.port.tick m).dd.setWidth 32 &&& 0xFF) := by
    unfold World.takeWord World.stepped
    split_ifs <;> simp
  exact congrArg Memory.retData hm

theorem lowByte_answers (m : Peripheral) (i : ℕ) (a : BitVec 6) :
    lowByte (m.answers i a) = byteAt m a := by
  simp [lowByte,Peripheral.answers,byteAt]

theorem readRound_busy (h : (k : ℤ) < len) (hx : x.write = false)
    (hb : (w.dev.port.start m).Busy false ((addrAt increment addr k).setWidth 6) false n x bus) :
    ∃ r w', Ends (fun fuel => readRound m len increment deadline fuel
        ⟨k,spin,addrAt increment addr k⟩) w r w' ∧
      (((∃ code, r = .inr code) ∧ w'.Late) ∨
        ((∃ spin', r = .inl ⟨k+1,spin',addrAt increment addr (k+1)⟩) ∧
          w'.dev.port.Idle false ((addrAt increment addr (k+1)).setWidth 6) bus ∧
          w'.retData = put 4 k (byteAt m x.addr) w.retData)) := by
  rw [← port_start,directEnv_eq] at hb
  obtain ⟨r,w',hround,hr⟩ := readDirectRound_lands deadline spin h hx hb
  rw [← directEnv_eq] at hround
  rw [lowByte_answers] at hr
  exact ⟨r,w',hround,hr.imp_left fun hlate => ⟨⟨_,hlate.1⟩,hlate.2.1⟩⟩

/-- A round whose wait finds DONE set at once takes what the transfer before has left. -/
theorem readRound_stale (h : (k : ℤ) < len)
    (hb : (w.dev.port.start m).Busy false ((addrAt increment addr k).setWidth 6) true n x bus) :
    ∃ w', Ends (fun fuel => readRound m len increment deadline fuel
        ⟨k,spin,addrAt increment addr k⟩) w (.inl ⟨k+1,spin,addrAt increment addr (k+1)⟩) w' ∧
      w'.dev.port.Pending ((addrAt increment addr (k+1)).setWidth 6) (startGap increment (k+1)) n x
        bus ∧
      ∃ v, w'.retData = put 4 k v w.retData ∧
        (2 ≤ n → v = (w.dev.port.start m).dd.setWidth 32 &&& 0xFF) := by
  have hloop := doneLoop_stale (m := m) (spinExpired (directEnv m) deadline) (· + 1)
    "Direct read await timeout reached" smiErrTimeout
    (w := w.assign (directEnv m) smioDcs SmiDcs.start 1)
    (by rw [port_start]; exact Port.tick_done hb.done_eq) spin
  simp only [Ends,readRound,readDirectRound_run (s := ⟨k,spin,addrAt increment addr k⟩) h]
  refine ⟨((w.assign (directEnv m) smioDcs SmiDcs.start 1).read (directEnv m) smioDcs).takeWord
    (directEnv m) .caller k increment (addrAt increment addr k),?_,?_,
    (((w.dev.port.start m).tick m).tick m).dd.setWidth 32 &&& 0xFF,?_,?_⟩
  · rw [addrAt_succ]
    exact ends_bind hloop.ends (ends_of_run rfl)
  · rw [port_takeWord,port_read,port_start,addrAt_succ]
    exact hb.take increment k
  · rw [retData_takeWord,port_read,port_start]
    rfl
  · intro hn
    obtain ⟨j,rfl⟩ := Nat.exists_eq_add_of_le' hn
    have hdd : (((w.dev.port.start m).tick m).tick m).dd = (w.dev.port.start m).dd := by
      simp [Port.tick,hb.flight]
    rw [hdd]

def ReadLoopEnds (m : Peripheral) (len increment deadline : ℤ) (s : Direct) (w : World DirectDev)
    (Q : World DirectDev → Prop) : Prop :=
  ∃ r w', LoopEnds (readRound m len increment deadline) s w r w' ∧ (w'.Late ∨ Q w')

theorem ReadLoopEnds.of_round {s s' : Direct} {w' : World DirectDev} {Q Q' : World DirectDev → Prop}
    (h : Ends (fun fuel => readRound m len increment deadline fuel s) w (.inl s') w')
    (ht : ReadLoopEnds m len increment deadline s' w' Q) (hq : ∀ v, Q v → Q' v) :
    ReadLoopEnds m len increment deadline s w Q' := by
  obtain ⟨r,v,hloop,hv⟩ := ht
  exact ⟨r,v,loopEnds_again h hloop,hv.imp_right (hq v)⟩

theorem ReadLoopEnds.full {s : Direct} {Q : World DirectDev → Prop} (h : ¬ (s.count : ℤ) < len)
    (hq : Q w) : ReadLoopEnds m len increment deadline s w Q :=
  ⟨_,w,loopEnds_exit ⟨0,fun _ _ => readDirectRound_full h⟩,.inr hq⟩

theorem ReadLoopEnds.of_busy {Q : World DirectDev → Prop} (hlt : (k : ℤ) < len)
    (hx : x.write = false)
    (hb : (w.dev.port.start m).Busy false ((addrAt increment addr k).setWidth 6) false n x bus)
    (ht : ∀ spin' w', w'.dev.port.Idle false ((addrAt increment addr (k+1)).setWidth 6) bus →
      w'.retData = put 4 k (byteAt m x.addr) w.retData →
      ReadLoopEnds m len increment deadline ⟨k+1,spin',addrAt increment addr (k+1)⟩ w' Q) :
    ReadLoopEnds m len increment deadline ⟨k,spin,addrAt increment addr k⟩ w Q := by
  obtain ⟨r,w',hround,hr⟩ := readRound_busy hlt hx hb
  rcases hr with ⟨⟨code,rfl⟩,hlate⟩ | ⟨⟨spin',rfl⟩,hi,hret⟩
  · exact ⟨code,w',loopEnds_exit hround,.inl hlate⟩
  · exact ReadLoopEnds.of_round hround (ht spin' w' hi hret) fun _ hv => hv

theorem ReadLoopEnds.mono {s : Direct} {Q Q' : World DirectDev → Prop}
    (h : ReadLoopEnds m len increment deadline s w Q) (hq : ∀ v, Q v → Q' v) :
    ReadLoopEnds m len increment deadline s w Q' := by
  obtain ⟨r,v,hloop,hv⟩ := h
  exact ⟨r,v,hloop,hv.imp_right (hq v)⟩

def ReadsSince (bus : List BusTransfer) (n : ℕ) (w : World DirectDev) : Prop :=
  ∃ xs, w.dev.port.bus = bus ++ xs ∧ xs.length = n ∧ ∀ x ∈ xs, x.write = false

theorem ReadsSince.cons {y : BusTransfer} (h : ReadsSince (bus ++ [y]) n w)
    (hy : y.write = false) : ReadsSince bus (n+1) w := by
  obtain ⟨xs,hbus,hlen,hxs⟩ := h
  refine ⟨y::xs,by rw [hbus,List.append_assoc]; rfl,by rw [List.length_cons,hlen],?_⟩
  intro z hz
  rcases List.mem_cons.mp hz with rfl | hz
  · exact hy
  · exact hxs z hz

theorem ReadsFrom.readsSince {answer : Answers} {v : World DirectDev}
    (h : ReadsFrom answer increment addr k n v w) : ReadsSince v.dev.port.bus n w := by
  obtain ⟨xs,hbus,hmap⟩ := h.bus
  have hlen := congrArg List.length hmap
  rw [List.length_map,List.length_map,List.length_range'] at hlen
  refine ⟨xs,hbus,hlen,fun x hx => ?_⟩
  have hpair : (x.addr,x.write) ∈
      (List.range' k n).map fun i => (elemAddr increment addr i,false) :=
    hmap ▸ List.mem_map.mpr ⟨x,hx,rfl⟩
  obtain ⟨i,-,hi⟩ := List.mem_map.mp hpair
  exact (Prod.ext_iff.mp hi).2.symm

theorem readLoop_idle (left : ℕ) (hk : ∀ i : ℕ, (i : ℤ) < len ↔ i < k+left)
    (h : w.dev.port.Idle false ((addrAt increment addr k).setWidth 6) bus) :
    ReadLoopEnds m len increment deadline ⟨k,spin,addrAt increment addr k⟩ w fun w' =>
      ReadsSince bus left w' ∧
      w'.retData = putAll 4 ((List.range' k left).map (elemByte m increment addr)) k w.retData := by
  obtain ⟨r,w',hloop,hw'⟩ := readDirectLoop_idle m m.answers deadline spin left hk h
  rw [← directEnv_eq] at hloop
  refine ⟨r,w',hloop,hw'.imp (·.2.1) fun ⟨_,hreads⟩ => ⟨?_,?_⟩⟩
  · rw [← h.bus_eq]
    exact hreads.readsSince
  · rw [hreads.stored]
    simp only [lowByte_answers]
    rfl

/-- START `j` is the first that is not accepted; from START `k` on, each before it is written in
the very access in which the transfer before it completes. -/
structure Absorbed (m : Peripheral) (increment : ℤ) (n k j : ℕ) : Prop where
  from_le : k ≤ j
  stale : ∀ i, k ≤ i → i < j → m.latency (n+i)+1 = startGap increment i
  late : startGap increment j ≤ m.latency (n+j)

namespace Absorbed

variable {j : ℕ}

theorem head (h : Absorbed m increment n (k+1) j)
    (hs : m.latency (n+k)+1 = startGap increment k) : Absorbed m increment n k j where
  from_le := by have := h.from_le; omega
  stale i hi hij := by
    rcases Nat.eq_or_lt_of_le hi with rfl | hi
    · exact hs
    · exact h.stale i hi hij
  late := h.late

theorem tail (h : Absorbed m increment n k j) (hj : k ≠ j) : Absorbed m increment n (k+1) j where
  from_le := by have := h.from_le; omega
  stale i hi hij := h.stale i (by omega) hij
  late := h.late

theorem latency_ge (h : Absorbed m increment n k j) :
    startGap increment k ≤ m.latency (n+k)+1 := by
  rcases Nat.eq_or_lt_of_le h.from_le with rfl | hk
  · exact Nat.le_succ_of_le h.late
  · exact (h.stale k le_rfl hk).ge

theorem unique {i : ℕ} (hi : Absorbed m increment n k i) (hj : Absorbed m increment n k j) :
    i = j := by
  rcases Nat.lt_trichotomy i j with h | h | h
  · have := hj.stale i hi.from_le h
    have := hi.late
    omega
  · exact h
  · have := hi.stale j hj.from_le h
    have := hj.late
    omega

end Absorbed

/-- What the rounds from `k` on come to, entered with the transfer before the first START still to
be accounted for: the elements up to a START that is absorbed get the value of the one before, and
where none is absorbed there is one read too many. -/
def TakenFrom (m : Peripheral) (increment : ℤ) (addr : BitVec 8) (n k left : ℕ)
    (bus : List BusTransfer) (ret : Bytes) (w' : World DirectDev) : Prop :=
  (∃ j < k+left, Absorbed m increment n k j ∧ ReadsSince bus (left-1) w' ∧
    w'.retData = putAll 4 ((List.range' k left).map fun i =>
      elemByte m increment addr (if i ≤ j then i-1 else i)) k ret) ∨
  ((∀ j < k+left, ¬ Absorbed m increment n k j) ∧ ReadsSince bus left w')

section TakenFrom

variable {left : ℕ} {ret : Bytes} {y : BusTransfer}

theorem takenFrom_free (hl : m.latency (n+k)+1 < startGap increment k) (hy : y.write = false)
    (h : ReadsSince (bus ++ [y]) left w) :
    TakenFrom m increment addr n k (left+1) bus ret w := by
  refine .inr ⟨fun j _ ha => ?_,h.cons hy⟩
  have := ha.latency_ge
  omega

/-- START `k` is absorbed: the transfer before serves element `k`, and the rounds after it are
regular. -/
theorem takenFrom_late (hl : startGap increment k ≤ m.latency (n+k)) (h : ReadsSince bus left w)
    (hret : w.retData = putAll 4 ((List.range' (k+1) left).map (elemByte m increment addr)) (k+1)
      (put 4 k (elemByte m increment addr (k-1)) ret)) :
    TakenFrom m increment addr n k (left+1) bus ret w := by
  have htail : (List.range' (k+1) left).map (elemByte m increment addr) =
      (List.range' (k+1) left).map fun i =>
        elemByte m increment addr (if i ≤ k then i-1 else i) := by
    refine List.map_congr_left fun i hi => ?_
    have := (List.mem_range'_1.mp hi).1
    rw [if_neg (by omega)]
  refine .inl ⟨k,by omega,⟨le_rfl,fun i _ _ => by omega,hl⟩,h,?_⟩
  rw [hret,htail,List.range'_succ,List.map_cons,if_pos le_rfl]
  rfl

/-- START `k` begins a read with DONE of the transfer before still standing: element `k` takes what
that transfer has left, unless the read just begun is over before `SMI_DD` is read, and then no
later START is absorbed. -/
theorem TakenFrom.stale {v : Word} (h : TakenFrom m increment addr n (k+1) left (bus ++ [y])
      (put 4 k v ret) w) (hl : m.latency (n+k)+1 = startGap increment k) (hy : y.write = false)
    (hv : 2 ≤ m.latency (n+(k+1)) → v = elemByte m increment addr (k-1)) :
    TakenFrom m increment addr n k (left+1) bus ret w := by
  rcases h with ⟨j,hj,ha,hreads,hret⟩ | ⟨hnot,hreads⟩
  · have hfrom := ha.from_le
    have hge := ha.latency_ge
    have hsix := six_le_startGap increment (k+1)
    refine .inl ⟨j,by omega,ha.head hl,?_,?_⟩
    · obtain ⟨i,rfl⟩ := Nat.exists_eq_add_of_le' (show 1 ≤ left by omega)
      exact hreads.cons hy
    · rw [hret,hv (by omega),List.range'_succ,List.map_cons,if_pos (by omega)]
      rfl
  · refine .inr ⟨fun j hj ha => ?_,hreads.cons hy⟩
    by_cases hkj : k = j
    · subst hkj
      have := ha.late
      omega
    · exact hnot j (by omega) (ha.tail hkj)

end TakenFrom

theorem readLoop_pending (left : ℕ) (hk : ∀ i : ℕ, (i : ℤ) < len ↔ i < k+left) {n : ℕ}
    {x : BusTransfer} (hbus : bus.length = n+k+1) (hx : x.write = false)
    (hxa : x.addr = elemAddr increment addr (k-1))
    (h : w.dev.port.Pending ((addrAt increment addr k).setWidth 6) (startGap increment k)
      (m.latency (n+k)) x bus) :
    ReadLoopEnds m len increment deadline ⟨k,spin,addrAt increment addr k⟩ w
      (TakenFrom m increment addr n k left bus w.retData) := by
  induction left generalizing k spin w bus x with
  | zero =>
    refine ReadLoopEnds.full (fun hlt => absurd ((hk k).mp hlt) (by omega)) (.inr ⟨?_,?_⟩)
    · intro j hj ha
      exact absurd ha.from_le (by omega)
    · exact ⟨[],by rw [List.append_nil,h.bus_eq],rfl,by simp⟩
  | succ left ih =>
    have hlt : (k : ℤ) < len := (hk k).mpr (by omega)
    have hk' : ∀ i : ℕ, (i : ℤ) < len ↔ i < k+1+left := fun i =>
      (hk i).trans (by rw [show k+1+left = k+(left+1) by omega])
    rcases Nat.lt_trichotomy (m.latency (n+k)+1) (startGap increment k) with hl | hl | hl
    · -- over before START is read
      obtain ⟨y,hya,hy,hb⟩ := h.start_free (m := m) hl
      exact .of_busy hlt hy hb fun spin' w' hi hret =>
        (readLoop_idle left hk' hi).mono fun v hv => takenFrom_free hl hy hv.1
    · -- over between the read and the write
      obtain ⟨y,hya,hy,hb,hdd⟩ := h.start_stale (m := m) hx hl
      obtain ⟨w',hround,hp,v,hret,hv⟩ := readRound_stale hlt hb
      rw [hbus,Nat.add_assoc] at hp
      refine ReadLoopEnds.of_round hround (ih hk' (by simp [hbus]; omega) hy
        (by rw [hya,setWidth_addrAt]; rfl) hp) fun u hu => ?_
      rw [hret] at hu
      refine hu.stale hl hy fun h₂ => ?_
      rw [hv (by rwa [hbus]),hdd,lowByte_eq,elemByte,← hxa]
      exact lowByte_answers m 0 x.addr
    · -- still in progress
      have hb := h.start_late (m := m) (by omega)
      refine .of_busy hlt hx hb fun spin' w' hi hret => (readLoop_idle left hk' hi).mono ?_
      rintro v ⟨hreads,hv⟩
      refine takenFrom_late (by omega) hreads ?_
      rw [hv,hret,hxa]
      rfl

end Rounds

section Entry

variable {m : Peripheral} {len increment : ℤ} {addr : BitVec 8} {w : World DirectDev}
  {bus : List BusTransfer}

/-- As many reads as elements, and in each element what the peripheral holds at its address. -/
structure ReadsElements (m : Peripheral) (increment : ℤ) (addr : BitVec 8) (len : ℕ)
    (bus : List BusTransfer) (w : World DirectDev) : Prop where
  reads : ReadsSince bus len w
  values : ∀ k < len, Holds 4 k (elemByte m increment addr k) w.retData

/-- Some START of the loop is absorbed, so that the setup's read is not one too many, and up to
there the peripheral holds the same value at every address. -/
def SetupReadUsed (m : Peripheral) (increment : ℤ) (addr : BitVec 8) (len n : ℕ) : Prop :=
  ∃ j < len, Absorbed m increment n 0 j ∧
    ∀ i < j, elemByte m increment addr i = elemByte m increment addr (i+1)

theorem ReadsSince.unique {a b : ℕ} (ha : ReadsSince bus a w) (hb : ReadsSince bus b w) :
    a = b := by
  obtain ⟨xs,hx,rfl,-⟩ := ha
  obtain ⟨ys,hy,rfl,-⟩ := hb
  rw [List.append_cancel_left (hx.symm.trans hy)]

/-- With START `j` absorbed the reads are as many as the elements, and the values decide. -/
theorem readsElements_of_absorbed {n j : ℕ} {y : BusTransfer} {k : ℕ} (hj : j < k)
    (ha : Absorbed m increment n 0 j) (hy : y.write = false)
    (hreads : ReadsSince (bus ++ [y]) (k-1) w)
    (hret : w.retData = putAll 4 ((List.range' 0 k).map fun i =>
      elemByte m increment addr (if i ≤ j then i-1 else i)) 0 empty) :
    ReadsElements m increment addr k bus w ↔ SetupReadUsed m increment addr k n := by
  have hcount : ReadsSince bus k w := by
    have hc := hreads.cons hy
    rwa [Nat.sub_add_cancel (by omega)] at hc
  have hholds (i : ℕ) (hi : i < k) : Holds 4 i (elemByte m increment addr i) w.retData ↔
      elemByte m increment addr (if i ≤ j then i-1 else i) = elemByte m increment addr i := by
    rw [hret,holds_word_iff,← List.range_eq_range',List.getElem?_map,List.getElem?_range hi]
    exact Option.some_inj
  constructor
  · rintro ⟨-,hv⟩
    refine ⟨j,hj,ha,fun i hi => ?_⟩
    have h := (hholds (i+1) (by omega)).mp (hv (i+1) (by omega))
    rwa [if_pos (by omega)] at h
  · rintro ⟨j',-,ha',hv⟩
    obtain rfl := ha.unique ha'
    refine ⟨hcount,fun i hi => (hholds i hi).mpr ?_⟩
    split_ifs with hij
    · rcases i with _ | i
      · rfl
      · exact hv i (by omega)
    · rfl

theorem smiReadAwaitDirect_armed (len increment : ℤ) (hp : w.dev.port.Armed m false addr bus)
    (hret : w.retData = empty) :
    ∃ r w', Ends (fun fuel => smiReadAwaitDirect (directEnv m) fuel .caller addr len increment)
        w r w' ∧
      (¬ w'.Late → (ReadsElements m increment addr len.toNat bus w' ↔
        SetupReadUsed m increment addr len.toNat bus.length)) := by
  let v := (w.assign (directEnv m) smioDcs SmiDcs.write false.toNat).assign (directEnv m) smioDa
    SmiDa.addr addr.toNat
  have hport : (v.clocked (directEnv m)).dev.port =
      (w.dev.port.direct m false).move m addr.toNat := by
    show v.dev.port = _
    rw [port_move,port_direct]
  have hmem : (v.clocked (directEnv m)).retData = empty := by
    have hm : (v.clocked (directEnv m)).memory = w.memory := by
      simp only [World.clocked,World.memory_after,v,memory_assign]
    exact (congrArg Memory.retData hm).trans hret
  obtain ⟨r,w',hloop,hw'⟩ := readLoop_pending (m := m) (k := 0) (n := bus.length)
    (w := v.clocked (directEnv m)) len.toNat
    (show ∀ i : ℕ, (i : ℤ) < len ↔ i < 0+len.toNat from fun i => by omega) (by simp) rfl
    (elemAddr_zero increment addr).symm (hport ▸ hp.pending increment)
  refine ⟨r,w',?_,fun hl => ?_⟩
  · simp only [Ends,smiReadAwaitDirect_run (show Ptr.caller ≠ .null by decide)]
    exact hloop.ends
  · rcases hw'.resolve_left hl with ⟨j,hj,ha,hreads,hvals⟩ | ⟨hnot,hreads⟩
    · rw [hmem] at hvals
      exact readsElements_of_absorbed (by omega) ha rfl hreads hvals
    · -- one read too many
      refine ⟨fun h => ?_,?_⟩
      · have := h.reads.unique (hreads.cons rfl)
        omega
      · rintro ⟨j,hj,ha,-⟩
        exact absurd ha (hnot j (by omega))

theorem setupReadUsed_one (m : Peripheral) (addr : BitVec 8) (n : ℕ) :
    SetupReadUsed m 0 addr 1 n ↔ 6 ≤ m.latency n := by
  constructor
  · rintro ⟨j,hj,ha,-⟩
    obtain rfl : j = 0 := by omega
    exact ha.late
  · intro h
    exact ⟨0,by decide,⟨le_rfl,fun i _ hi => absurd hi (by omega),h⟩,
      fun i hi => absurd hi (by omega)⟩

/-- The reads come out right exactly when the setup's read takes the place of one of them and no
value shows it. -/
theorem smiDirectRead_elements_iff (m : Peripheral) (cxt : SmiCxt) (addr : BitVec 8)
    (len increment : ℤ) (w : World DirectDev) (h : w.dev.port.flight = none) :
    (∃ r w', Ends (fun fuel => smiDirectReadArr (directEnv m) fuel cxt .caller addr len increment)
        w.fresh r w' ∧
      (¬ w'.Late → (ReadsElements m increment addr len.toNat w.dev.port.bus w' ↔
        SetupReadUsed m increment addr len.toNat w.dev.port.bus.length))) ∧
    (∃ r w', Ends (fun fuel => smiDirectRead (directEnv m) fuel .caller addr) w.fresh r w' ∧
      (¬ w'.Late → (ReadsElements m 0 addr 1 w.dev.port.bus w' ↔
        6 ≤ m.latency w.dev.port.bus.length))) := by
  have hret (ops : List RegOp) : (w.fresh.apply (directEnv m) ops).retData = empty :=
    congrArg Memory.retData (memory_apply (directEnv m) w.fresh ops)
  constructor
  · obtain ⟨r,w',he,hq⟩ := smiReadAwaitDirect_armed len increment
      (directReadArrSetup_armed (m := m) (w := w.fresh) cxt addr h) (hret _)
    refine ⟨r,w',?_,hq⟩
    simp only [Ends,smiDirectReadArr,bind_run (regOps_run (directEnv m) _ _)]
    exact he
  · obtain ⟨r,w',he,hq⟩ := smiReadAwaitDirect_armed 1 0
      (directSetup_armed (m := m) (w := w.fresh) false addr h) (hret _)
    refine ⟨r,w',?_,fun hl => (hq hl).trans (setupReadUsed_one m addr _)⟩
    simp only [Ends,smiDirectRead,bind_run (regOps_run (directEnv m) _ _)]
    exact he

theorem smiDirectRead_elements_iff_slow : (World.init restDev).dev.port.flight = none ∧
    (∃ r w', Ends (fun fuel => smiDirectReadArr (directEnv (steadyPeripheral 6)) fuel
        (deviceCxt 0 false false false) .caller 3 2 1) (World.init restDev).fresh r w' ∧
      (¬ w'.Late → (ReadsElements (steadyPeripheral 6) 1 3 (2 : ℤ).toNat
          (World.init restDev).dev.port.bus w' ↔
        SetupReadUsed (steadyPeripheral 6) 1 3 (2 : ℤ).toNat
          (World.init restDev).dev.port.bus.length))) ∧
    (∃ r w', Ends (fun fuel => smiDirectRead (directEnv (steadyPeripheral 6)) fuel .caller 3)
        (World.init restDev).fresh r w' ∧
      (¬ w'.Late → (ReadsElements (steadyPeripheral 6) 0 3 1 (World.init restDev).dev.port.bus w' ↔
        6 ≤ (steadyPeripheral 6).latency (World.init restDev).dev.port.bus.length))) :=
  ⟨rfl,smiDirectRead_elements_iff (steadyPeripheral 6) (deviceCxt 0 false false false) 3 2 1
    (World.init restDev) rfl⟩

/-- One element where transfers complete at once: two reads. -/
theorem smiDirectRead_extra : ¬ ∀ (m : Peripheral) (cxt : SmiCxt) (addr : BitVec 8)
    (len increment : ℤ) (w : World DirectDev) (fuel : ℕ) (r : ℤ), w.dev.port.flight = none →
      (smiDirectReadArr (directEnv m) fuel cxt .caller addr len increment w).1 = some r →
      ¬ (smiDirectReadArr (directEnv m) fuel cxt .caller addr len increment w).2.Late →
      ReadsElements m increment addr len.toNat w.dev.port.bus
        (smiDirectReadArr (directEnv m) fuel cxt .caller addr len increment w).2 := by
  intro h
  obtain ⟨xs,hbus,hlen,-⟩ := (h (steadyPeripheral 0) (deviceCxt 0 false false false) 3 1 1
    (World.init restDev) 2 1 rfl (by decide +kernel) (by decide +kernel)).reads
  have htwo : (smiDirectReadArr (directEnv (steadyPeripheral 0)) 2 (deviceCxt 0 false false false)
      .caller 3 1 1 (World.init restDev)).2.dev.port.bus.length = 2 := by
    decide +kernel
  rw [hbus,List.length_append,hlen] at htwo
  cases htwo

end Entry
end RpiSmi
