import RpiSmi.Device
import RpiSmi.DmaChannel
import RpiSmi.DmaLength
import RpiSmi.Writes

/-!
# The engine of a DMA channel

A channel fetches the control block whose address it holds and moves a word at a
time, while the SMI fills its RX FIFO and drains its TX FIFO. Between two accesses
of the driver these moves come in any number and order. The driver gets at the
FIFOs through `SMI_D` as the engine does.
-/

namespace RpiSmi

open Exec BitField

/-- Both FIFOs, everything that arrived in the one and was sent to the other since CLEAR, and the
memory by bus address. -/
structure BusData where
  rx : List Word
  arrived : List Word
  tx : List Word
  sent : List Word
  mem : Word → Word

namespace BusData

def arrive (v : Word) (d : BusData) : BusData :=
  { d with rx := d.rx ++ [v], arrived := d.arrived ++ [v] }

def drain (d : BusData) : BusData := { d with tx := d.tx.tail }

def clear (d : BusData) : BusData := ⟨[],[],[],[],d.mem⟩

end BusData

namespace DmaCb

def words (c : DmaCb) : ℕ := c.tfrLen.toNat/4

def srcAt (c : DmaCb) (i : ℕ) : Word :=
  if c.ti &&& dmaCbSrceInc ≠ 0 then c.srcAddr+BitVec.ofNat 32 (4*i) else c.srcAddr
def destAt (c : DmaCb) (i : ℕ) : Word :=
  if c.ti &&& dmaCbDestInc ≠ 0 then c.destAddr+BitVec.ofNat 32 (4*i) else c.destAddr

def permap (c : DmaCb) : Word := c.ti >>> 16 &&& 0x1F

end DmaCb

/-- A block that is being worked on, and how many of its words have been moved. -/
structure DmaJob where
  block : DmaCb
  moved : ℕ

/-- The registers of the channel, its job, and the part of `SMI_DC` that lets DREQ through. -/
structure DmaSys where
  ctrlBlk : Word
  active : Bool
  finished : Bool
  job : Option DmaJob
  dmaen : Bool
  data : BusData

inductive BusMove
  | arrive (v : Word)
  | drain
  | transfer

/-- The channel, the bus address of `SMI_D`, the words that fit the TX FIFO, the control block that
memory holds at each address, what happens before each access, whatever else the registers read,
what `realloc` finds at each access, and a clock. -/
structure DmaTrace where
  channel : ℕ
  port : Word
  depth : ℕ
  fetch : Word → DmaCb
  between : ℕ → List BusMove
  bits : Reg → ℕ → Word
  heap : ℕ → ℕ → Option (ℕ → Word)
  clock : ℕ → ℤ
  limits : SpinLimits

namespace DmaTrace

variable (T : DmaTrace)

/-- A read on the bus; an empty FIFO gives nothing of use. -/
def take (a : Word) (d : BusData) : Word × BusData :=
  if a = T.port then (d.rx.headD 0,{ d with rx := d.rx.tail }) else (d.mem a,d)

/-- A write on the bus; a word that finds no room is lost. -/
def put (a v : Word) (d : BusData) : BusData :=
  if a = T.port then
    if d.tx.length < T.depth then { d with tx := d.tx ++ [v], sent := d.sent ++ [v] } else d
  else { d with mem := Function.update d.mem a v }

def moveWord (b : DmaCb) (i : ℕ) (d : BusData) : BusData :=
  T.put (b.destAt i) (T.take (b.srcAt i) d).1 (T.take (b.srcAt i) d).2

/-- A paced block waits for the SMI, whose DREQ is up while DMAEN is set and there is a word in the
RX FIFO, or room in the TX FIFO. -/
def Ready (b : DmaCb) (s : DmaSys) : Prop :=
  (b.ti &&& dmaSrceDreq ≠ 0 → b.permap = dmaSmiDreq ∧ s.dmaen = true ∧ s.data.rx ≠ []) ∧
  (b.ti &&& dmaDestDreq ≠ 0 →
    b.permap = dmaSmiDreq ∧ s.dmaen = true ∧ s.data.tx.length < T.depth)

instance (b : DmaCb) (s : DmaSys) : Decidable (T.Ready b s) := inferInstanceAs (Decidable (_ ∧ _))

/-- After a word: the next word, the next block, or the end. -/
def advance (j : DmaJob) (s : DmaSys) : DmaSys :=
  if j.moved+1 < j.block.words then { s with job := some ⟨j.block,j.moved+1⟩ }
  else if j.block.nextCb = 0 then
    { s with job := none, active := false, finished := true, ctrlBlk := 0 }
  else
    { s with
      job := some ⟨T.fetch j.block.nextCb,0⟩
      finished := true
      ctrlBlk := j.block.nextCb }

def transfer (s : DmaSys) : DmaSys :=
  match s.job with
  | none => s
  | some j =>
    if s.active = true ∧ T.Ready j.block s then
      T.advance j { s with data := T.moveWord j.block j.moved s.data }
    else s

def move : BusMove → DmaSys → DmaSys
  | .arrive v, s => { s with data := s.data.arrive v }
  | .drain, s => { s with data := s.data.drain }
  | .transfer, s => T.transfer s

/-- A write to the status: a one clears END, ABORT stops the channel, and ACTIVE starts it. -/
def control (v : Word) (s : DmaSys) : DmaSys :=
  let s := { s with finished := s.finished && !DmaCs.finish.test v }
  if DmaCs.abort.test v then { s with active := false, job := none }
  else if DmaCs.active.test v then
    { s with active := true, job := some (s.job.getD ⟨T.fetch s.ctrlBlk,0⟩) }
  else { s with active := false }

/-- ABORT of the channel and CLEAR of the SMI read as 0. RXD and TXD tell of words and of room in
the FIFOs. -/
def device : Device DmaSys where
  tick t s := (T.between t).foldl (fun s m => T.move m s) s
  value r t s :=
    if r = dmaCsOffset T.channel then DmaCs.abort.set 0 (DmaCs.active.set s.active.toNat
      (DmaCs.finish.set s.finished.toNat (T.bits r t)))
    else if r = dmaCtrlBlk T.channel then s.ctrlBlk
    else if r = smioDc then SmiDc.dmaen.set s.dmaen.toNat (T.bits r t)
    else if r = smioCs then SmiCs.clear.set 0
      (SmiCs.txd.set (decide (s.data.tx.length < T.depth)).toNat
        (SmiCs.rxd.set (!s.data.rx.isEmpty).toNat (T.bits r t)))
    else if r = smioD then (T.take T.port s.data).1
    else T.bits r t
  onRead r s := if r = smioD then { s with data := (T.take T.port s.data).2 } else s
  onWrite r v s :=
    if r = dmaCsOffset T.channel then T.control v s
    else if r = dmaCtrlBlk T.channel then { s with ctrlBlk := v }
    else if r = smioDc then { s with dmaen := SmiDc.dmaen.test v }
    else if r = smioD then { s with data := T.put T.port v s.data }
    else if r = smioCs ∧ SmiCs.clear.test v then { s with data := s.data.clear }
    else s

def env : Env (ℕ × DmaSys) :=
  { T.device.env T.clock T.limits with realloc := fun bytes x => (T.heap bytes x.1,x) }

theorem onWrite_dmaCs (v : Word) (s : DmaSys) :
    T.device.onWrite (dmaCsOffset T.channel) v s = T.control v s := by
  simp [device]

theorem onWrite_ctrlBlk (v : Word) (s : DmaSys) :
    T.device.onWrite (dmaCtrlBlk T.channel) v s = { s with ctrlBlk := v } := by
  simp [device,dmaCsOffset,dmaCtrlBlk]

theorem onWrite_clear {v : Word} (h : SmiCs.clear.test v = true) (s : DmaSys) :
    T.device.onWrite smioCs v s = { s with data := s.data.clear } := by
  simp [device,smioCs,smioD,smioDc,dmaCsOffset,dmaCtrlBlk,h]

theorem onWrite_data (v : Word) (s : DmaSys) :
    T.device.onWrite smioD v s = { s with data := T.put T.port v s.data } := by
  simp [device,smioD,smioDc,dmaCsOffset,dmaCtrlBlk]

theorem onRead_data (s : DmaSys) :
    T.device.onRead smioD s = { s with data := (T.take T.port s.data).2 } := by
  simp [device]

theorem onWrite_dmaoCs (h : T.channel ≠ 0) (v : Word) (s : DmaSys) :
    T.device.onWrite dmaoCs v s = s := by
  have hcs : dmaoCs ≠ dmaCsOffset T.channel := fun hr =>
    h (dmaCsOffset_inj.mp (dmaoCs_eq.symm.trans hr)).symm
  have hblk : dmaoCs ≠ dmaCtrlBlk T.channel := (dmaCtrlBlk_ne T.channel 0).symm
  simp only [device,hcs,hblk,if_false]
  rfl

theorem value_data (t : ℕ) (s : DmaSys) :
    T.device.value smioD t s = (T.take T.port s.data).1 := by
  simp [device,smioD,smioCs,smioDc,dmaCsOffset,dmaCtrlBlk]

theorem value_smioCs (t : ℕ) (s : DmaSys) :
    SmiCs.clear.test (T.device.value smioCs t s) = false ∧
    SmiCs.rxd.test (T.device.value smioCs t s) = !s.data.rx.isEmpty ∧
    SmiCs.txd.test (T.device.value smioCs t s) = decide (s.data.tx.length < T.depth) := by
  have hv : T.device.value smioCs t s = SmiCs.clear.set 0
      (SmiCs.txd.set (decide (s.data.tx.length < T.depth)).toNat
        (SmiCs.rxd.set (!s.data.rx.isEmpty).toNat (T.bits smioCs t))) := by
    simp [device,smioCs,smioDc,dmaCsOffset,dmaCtrlBlk]
  refine ⟨?_,?_,?_⟩ <;> rw [hv]
  · exact SmiCs.clear.test_set_zero _
  · rw [Field.test_set_of_disjoint (by decide),Field.test_set_of_disjoint (by decide),
      Field.test_set]
    cases s.data.rx.isEmpty <;> rfl
  · rw [Field.test_set_of_disjoint (by decide),Field.test_set]
    cases decide (s.data.tx.length < T.depth) <;> rfl

theorem value_dmaCs (t : ℕ) (s : DmaSys) :
    DmaCs.abort.test (T.device.value (dmaCsOffset T.channel) t s) = false ∧
    DmaCs.active.test (T.device.value (dmaCsOffset T.channel) t s) = s.active ∧
    DmaCs.finish.test (T.device.value (dmaCsOffset T.channel) t s) = s.finished := by
  have hv : T.device.value (dmaCsOffset T.channel) t s = DmaCs.abort.set 0
      (DmaCs.active.set s.active.toNat (DmaCs.finish.set s.finished.toNat
        (T.bits (dmaCsOffset T.channel) t))) := by
    simp [device]
  refine ⟨?_,?_,?_⟩ <;> rw [hv]
  · exact DmaCs.abort.test_set_zero _
  · rw [Field.test_set_of_disjoint (by decide),Field.test_set]
    cases s.active <;> rfl
  · rw [Field.test_set_of_disjoint (by decide),Field.test_set_of_disjoint (by decide),
      Field.test_set]
    cases s.finished <;> rfl

end DmaTrace

section Engine

variable {T : DmaTrace} {b : DmaCb} {P : ℕ → BusData → Prop}

/-- `P k` holds of the data once `k` words have been moved: the SMI keeps it, and a move of the
engine leads to the next. -/
structure Carries (T : DmaTrace) (b : DmaCb) (P : ℕ → BusData → Prop) : Prop where
  arrive {k : ℕ} {d : BusData} (v : Word) : P k d → P k (d.arrive v)
  drain {k : ℕ} {d : BusData} : P k d → P k d.drain
  word {k : ℕ} {s : DmaSys} : k < b.words → T.Ready b s → P k s.data →
    P (k+1) (T.moveWord b k s.data)

structure AtRest (P : BusData → Prop) (finished : Bool) (ctrlBlk : Word) (s : DmaSys) : Prop where
  job : s.job = none
  active : s.active = false
  finished : s.finished = finished
  ctrlBlk : s.ctrlBlk = ctrlBlk
  data : P s.data

/-- A block that was started: END comes with its last word. -/
inductive Phase (b : DmaCb) (P : ℕ → BusData → Prop) (s : DmaSys) : Prop
  | running (k : ℕ) (hk : k < b.words) (hj : s.job = some ⟨b,k⟩) (ha : s.active = true)
      (hf : s.finished = false) (hd : P k s.data)
  | done (hj : s.job = none) (ha : s.active = false) (hf : s.finished = true)
      (hd : P b.words s.data)

structure Stable (T : DmaTrace) (I : DmaSys → Prop) : Prop where
  move (m : BusMove) {s : DmaSys} : I s → I (T.move m s)
  dmaen (v : Bool) {s : DmaSys} : I s → I { s with dmaen := v }

theorem stable_atRest {Q : BusData → Prop} (ha : ∀ v d, Q d → Q (d.arrive v))
    (hd : ∀ d, Q d → Q d.drain) (finished : Bool) (ctrlBlk : Word) :
    Stable T (AtRest Q finished ctrlBlk) where
  move m s h := by
    cases m with
    | arrive v => exact { h with data := ha v _ h.data }
    | drain => exact { h with data := hd _ h.data }
    | transfer =>
      have hs : T.transfer s = s := by simp only [DmaTrace.transfer,h.job]
      show AtRest Q finished ctrlBlk (T.transfer s)
      rwa [hs]
  dmaen v s h := ⟨h.job,h.active,h.finished,h.ctrlBlk,h.data⟩

theorem phase_transfer (h : Carries T b P) (hb : b.nextCb = 0) {s : DmaSys} (hs : Phase b P s) :
    Phase b P (T.transfer s) := by
  cases hs with
  | running k hk hj ha hf hd =>
    by_cases hr : T.Ready b s
    · have hword := h.word hk hr hd
      simp only [DmaTrace.transfer,hj,ha,hr,and_self,if_true,DmaTrace.advance,hb]
      split_ifs with hlast
      · exact .running (k+1) hlast rfl rfl hf hword
      · have hall : k+1 = b.words := by omega
        exact .done rfl rfl rfl (hall ▸ hword)
    · have hwait : T.transfer s = s := by simp only [DmaTrace.transfer,hj,ha,hr,and_false,if_false]
      rw [hwait]
      exact .running k hk hj ha hf hd
  | done hj ha hf hd =>
    have hwait : T.transfer s = s := by simp only [DmaTrace.transfer,hj]
    rw [hwait]
    exact .done hj ha hf hd

theorem stable_phase (h : Carries T b P) (hb : b.nextCb = 0) : Stable T (Phase b P) where
  move m s hs := by
    cases m with
    | arrive v => cases hs with
      | running k hk hj ha hf hd => exact .running k hk hj ha hf (h.arrive v hd)
      | done hj ha hf hd => exact .done hj ha hf (h.arrive v hd)
    | drain => cases hs with
      | running k hk hj ha hf hd => exact .running k hk hj ha hf (h.drain hd)
      | done hj ha hf hd => exact .done hj ha hf (h.drain hd)
    | transfer => exact phase_transfer h hb hs
  dmaen v s hs := by
    cases hs with
    | running k hk hj ha hf hd => exact .running k hk hj ha hf hd
    | done hj ha hf hd => exact .done hj ha hf hd

end Engine

section Directions

variable {T : DmaTrace} {b : DmaCb} {m₀ : Word → Word} {k : ℕ} {d : BusData}

/-- The first `k` words that arrived are in memory, the others in the RX FIFO. -/
structure Filled (b : DmaCb) (m₀ : Word → Word) (k : ℕ) (d : BusData) : Prop where
  arrived : k ≤ d.arrived.length
  rx : d.rx = d.arrived.drop k
  mem : d.mem = Writes.run m₀ ((d.arrived.take k).mapIdx fun i v => (b.destAt i,v))
  sent : d.sent = []

/-- The first `k` words of the source were sent, in order, and nothing else. -/
structure Emptied (depth : ℕ) (b : DmaCb) (m₀ : Word → Word) (k : ℕ) (d : BusData) : Prop where
  mem : d.mem = m₀
  rx : d.rx = d.arrived
  sent : d.sent = (List.range k).map fun i => m₀ (b.srcAt i)
  tx : d.tx.length ≤ depth

theorem Filled.word (h : Filled b m₀ k d) (hsrc : b.srcAt k = T.port) (hdest : b.destAt k ≠ T.port)
    (hrx : d.rx ≠ []) : Filled b m₀ (k+1) (T.moveWord b k d) := by
  obtain ⟨v,rest,hhead⟩ := List.exists_cons_of_ne_nil hrx
  have hdrop : d.arrived.drop k = v::rest := h.rx.symm.trans hhead
  have hnext : d.arrived[k]? = some v := by rw [← List.head?_drop,hdrop,List.head?_cons]
  have hlt : k < d.arrived.length := (List.getElem?_eq_some_iff.mp hnext).choose
  have hmove : T.moveWord b k d =
      { d with rx := rest, mem := Function.update d.mem (b.destAt k) v } := by
    simp only [DmaTrace.moveWord,DmaTrace.take,DmaTrace.put,hsrc,hdest,hhead,if_true,if_false,
      List.headD_cons,List.tail_cons]
  rw [hmove]
  refine ⟨hlt,?_,?_,h.sent⟩
  · show rest = d.arrived.drop (k+1)
    rw [← List.tail_drop,hdrop,List.tail_cons]
  · have htake : (d.arrived.take k).length = k := List.length_take_of_le h.arrived
    show Function.update d.mem (b.destAt k) v = _
    rw [List.take_add_one,hnext,Option.toList_some,List.mapIdx_append,Writes.run_append,← h.mem,
      htake]
    simp

theorem Emptied.word (h : Emptied T.depth b m₀ k d) (hsrc : b.srcAt k ≠ T.port)
    (hdest : b.destAt k = T.port) (htx : d.tx.length < T.depth) :
    Emptied T.depth b m₀ (k+1) (T.moveWord b k d) := by
  have hmove : T.moveWord b k d =
      { d with tx := d.tx ++ [m₀ (b.srcAt k)], sent := d.sent ++ [m₀ (b.srcAt k)] } := by
    simp only [DmaTrace.moveWord,DmaTrace.take,DmaTrace.put,hsrc,hdest,htx,h.mem,if_true,if_false]
  rw [hmove]
  refine ⟨h.mem,h.rx,?_,?_⟩
  · rw [List.range_succ,List.map_append,← h.sent]
    rfl
  · rw [List.length_append,List.length_singleton]
    exact htx

theorem carries_filled (hpace : b.ti &&& dmaSrceDreq ≠ 0) (hsrc : ∀ i, b.srcAt i = T.port)
    (hdest : ∀ i < b.words, b.destAt i ≠ T.port) : Carries T b (Filled b m₀) where
  arrive v h := by
    have hlen := h.arrived
    refine ⟨?_,?_,?_,h.sent⟩
    · simp only [BusData.arrive,List.length_append]
      omega
    · simp only [BusData.arrive,h.rx,List.drop_append_of_le_length hlen]
    · simp only [BusData.arrive,h.mem,List.take_append_of_le_length hlen]
  drain h := ⟨h.arrived,h.rx,h.mem,h.sent⟩
  word hk hr h := h.word (hsrc _) (hdest _ hk) (hr.1 hpace).2.2

theorem carries_emptied (hpace : b.ti &&& dmaDestDreq ≠ 0) (hdest : ∀ i, b.destAt i = T.port)
    (hsrc : ∀ i < b.words, b.srcAt i ≠ T.port) : Carries T b (Emptied T.depth b m₀) where
  arrive v h := ⟨h.mem,by simp only [BusData.arrive,h.rx],h.sent,h.tx⟩
  drain h := by
    have hlen := h.tx
    refine ⟨h.mem,h.rx,h.sent,?_⟩
    simp only [BusData.drain,List.length_tail]
    omega
  word hk hr h := h.word (hsrc _ hk) (hdest _) (hr.2 hpace).2.2

end Directions
end RpiSmi
