import RpiSmi.DmaChannel
import RpiSmi.SharedBuffer

/-!
# Coherence of the DMA buffer

The buffer holds a control block and data words. The driver's part of what
happens to it is in the log of a call; the engine may store words at any time.
-/

namespace RpiSmi

open Exec BitField SharedBuffer

variable {σ : Type}

inductive Slot
  | block
  | data (i : ℕ)
  deriving DecidableEq, Repr

def Slot.Content : Slot → Type
  | .block => DmaCb
  | .data _ => Word

abbrev DmaBuffer := Shared Slot.Content

/-- A step of the engine: it stores a data word. -/
abbrev EngineStore := ℕ × Word

def EngineStore.store (s : EngineStore) : Store Slot.Content := ⟨.data s.1,s.2⟩

/-- What an event does to the buffer. A descriptor below 0 is no open sync file. -/
def Event.act (cxt : SmiCxt) : Event → Option (Act Slot.Content)
  | .control c => some (.cpuStore ⟨.block,c⟩)
  | .sync fd =>
    if fd < 0 then none
    else if fd = cxt.fdSyncCpu then some .syncForCpu
    else if fd = cxt.fdSyncDev then some .syncForDevice
    else none
  | _ => none

def acts (cxt : SmiCxt) (l : List (Event ⊕ EngineStore)) : List (Act Slot.Content) :=
  l.filterMap (Sum.elim (Event.act cxt) fun s => some (.devStore s.store))

def engineStores (l : List (Event ⊕ EngineStore)) : List (Store Slot.Content) :=
  l.filterMap (Sum.elim (fun _ => none) fun s => some s.store)

/-- A call in the world and with the buffer that it finds, and what the engine stores meanwhile. -/
structure DmaVisit (σ : Type) where
  call : DmaCall
  fuel : ℕ
  engine : ℕ → List EngineStore
  world : World σ
  buffer : DmaBuffer

namespace DmaVisit

variable (env : Env σ) (v : DmaVisit σ)

def steps : List (Event ⊕ EngineStore) :=
  weave (v.call.run env v.fuel v.world.fresh).2.log v.engine

def Succeeds : Prop :=
  ∃ code, (v.call.run env v.fuel v.world.fresh).1 = some code ∧ 0 ≤ code

def after (l : List (Event ⊕ EngineStore)) : DmaBuffer := v.buffer.run (acts v.call.cxt l)

/-- Word `i` of the buffer is one that the control block moves. -/
def Moves (i : ℕ) : Prop :=
  let c := v.call.block v.world.cb
  let base := match v.call.dir with
    | .read => c.destAddr
    | .write => c.srcAddr
  let a := (v.call.cxt.dmaBuffer.bus.setWidth 32).toNat+4*i
  base.toNat ≤ a ∧ a < base.toNat+c.tfrLen.toNat

/-- Between `l` and `l'` `start_dma` sets ACTIVE: the first write to the status of the channel,
once the address of the control block is written. -/
structure StartsAt (l l' : List (Event ⊕ EngineStore)) : Prop where
  split : ∃ x, v.steps env = l ++ .inl (.write (dmaCsOffset v.call.channel8) x)::l' ∧
    DmaCs.active.test x = true
  address : ∃ y, .inl (.write (dmaCtrlBlk v.call.channel8) y) ∈ l
  first : ∀ y, .inl (.write (dmaCsOffset v.call.channel8) y) ∉ l

/-- What the engine fetches is what the processor wrote last, and what a successful read returns
with is what the engine stored. -/
structure Coherent : Prop where
  block : ∀ l l', v.StartsAt env l l' → ∀ c, .inl (.control c) ∈ l → (v.after l).dev .block = c
  source : v.call.dir = .write → ∀ l l', v.StartsAt env l l' → ∀ i, v.Moves i →
    (v.after l).dev (.data i) = v.buffer.cpu (.data i)
  destination : v.call.dir = .read → v.Succeeds env → ∀ l l', v.StartsAt env l l' → ∀ i,
    v.Moves i → (∃ x, .inr (i,x) ∈ l') →
      (v.after (v.steps env)).cpu (.data i) = (v.after (v.steps env)).dev (.data i)

/-- The memory already holds what the processor writes, and the processor already sees what the
engine is going to store. -/
structure AlreadyCoherent : Prop where
  block : v.buffer.dev .block = v.call.block v.world.cb
  source : v.call.dir = .write → ∀ l l', v.StartsAt env l l' → ∀ i, v.Moves i →
    (engineStores l).foldl put v.buffer.dev (.data i) = v.buffer.cpu (.data i)
  destination : v.call.dir = .read → v.Succeeds env → ∀ l l', v.StartsAt env l l' → ∀ i,
    v.Moves i → (∃ x, .inr (i,x) ∈ l') →
      (engineStores l').foldl put v.buffer.dev (.data i) = (v.after l).cpu (.data i)

end DmaVisit

section Acts

variable {cxt : SmiCxt} {l : List (Event ⊕ EngineStore)}

theorem acts_append (l l' : List (Event ⊕ EngineStore)) :
    acts cxt (l ++ l') = acts cxt l ++ acts cxt l' := List.filterMap_append

theorem engineStores_append (l l' : List (Event ⊕ EngineStore)) :
    engineStores (l ++ l') = engineStores l ++ engineStores l' := List.filterMap_append

theorem devStores_acts : (acts cxt l).filterMap Act.devStore? = engineStores l := by
  rw [acts,engineStores,List.filterMap_filterMap]
  refine List.filterMap_congr fun x _ => ?_
  rcases x with e | s
  · cases e with
    | sync fd =>
      simp only [Sum.elim_inl,Event.act]
      split_ifs <;> rfl
    | _ => rfl
  · rfl

theorem engineStores_block : ∀ s ∈ engineStores l, s.1 ≠ .block := by
  intro s hs
  obtain ⟨x,-,hx⟩ := List.mem_filterMap.mp hs
  rcases x with e | s'
  · cases hx
  · cases hx
    exact Slot.noConfusion

theorem engineStores_data {i : ℕ} {x : Word} (h : .inr (i,x) ∈ l) :
    ∃ s ∈ engineStores l, s.1 = .data i :=
  ⟨EngineStore.store (i,x),List.mem_filterMap.mpr ⟨.inr (i,x),h,rfl⟩,rfl⟩

theorem mem_acts {a : Act Slot.Content} (h : a ∈ acts cxt l) :
    (∃ e ∈ events l, e.act cxt = some a) ∨ ∃ s, a = .devStore s := by
  obtain ⟨x,hx,ha⟩ := List.mem_filterMap.mp h
  rcases x with e | s
  · exact .inl ⟨e,mem_events.mpr hx,ha⟩
  · cases ha
    exact .inr ⟨_,rfl⟩

theorem acts_keepsDevice (h : ∀ fd, .sync fd ∈ events l → fd = cxt.fdSyncCpu) :
    ∀ a ∈ acts cxt l, a.KeepsDevice := by
  intro a ha
  rcases mem_acts ha with ⟨e,he,hact⟩ | ⟨s,rfl⟩
  · cases e with
    | sync fd =>
      simp only [Event.act,h fd he,if_true] at hact
      split_ifs at hact
      cases hact
      trivial
    | control c =>
      cases hact
      trivial
    | _ => cases hact
  · trivial

theorem acts_keepsCpu (h : ∀ e ∈ events l, (∀ fd, e ≠ .sync fd) ∧ ∀ c, e ≠ .control c) :
    ∀ a ∈ acts cxt l, a.KeepsCpu := by
  intro a ha
  rcases mem_acts ha with ⟨e,he,hact⟩ | ⟨s,rfl⟩
  · obtain ⟨hsync,hcontrol⟩ := h e he
    cases e with
    | sync fd => exact absurd rfl (hsync fd)
    | control c => exact absurd rfl (hcontrol c)
    | _ => cases hact
  · trivial

end Acts

namespace DmaCall

variable {env : Env σ} {d : DmaCall} {w : World σ}

theorem logged_buffer (hn : ¬ d.HasNull) (fuel : ℕ) :
    Logged (fun e => (∀ fd, e = .sync fd → fd = d.cxt.fdSyncCpu) ∧
      ∀ c, e = .control c → c = d.block w.cb) w (d.run env fuel w).2 := by
  let Q : Event → Prop := fun e => (∀ fd, e = .sync fd → fd = d.cxt.fdSyncCpu) ∧
    ∀ c, e = .control c → c = d.block w.cb
  have hq : ∀ e : Event, e.IsStep → Q e := by
    rintro (_ | _ | _ | _ | _ | _ | _ | _) he <;> simp_all [Q,Event.IsStep]
  have hw (r : Reg) (x : Word) : Q (.write r x) := by simp [Q]
  exact logged_run hq hn (by simp [Q]) (by simp [Q]) (setup_logs hq fun _ => hw _)
    (fun _ => ⟨hw _ _,hw _⟩) (hw _) fuel

theorem logged_started (env : Env σ) (d : DmaCall) (fuel : ℕ) (v : World σ) :
    Logged (fun e => (∀ fd, e ≠ .sync fd) ∧ ∀ c, e ≠ .control c) v
      (smiDmaAwait env fuel (v.apply env d.rest)).2 := by
  let Q : Event → Prop := fun e => (∀ fd, e ≠ .sync fd) ∧ ∀ c, e ≠ .control c
  have hq : ∀ e : Event, e.IsStep → Q e := by
    rintro (_ | _ | _ | _ | _ | _ | _ | _) he <;> simp_all [Q,Event.IsStep]
  have hw (r : Reg) (x : Word) : Q (.write r x) := by simp [Q]
  have hrest (op : RegOp) (ho : op ∈ d.rest) : op.Logs Q :=
    setup_logs hq (fun _ => hw _) op (List.mem_append_right _ ho)
  exact trans_of (Logged Q) (logged_apply hrest v) (logged_wait hq (hw _) fuel _)

theorem run_log (hn : ¬ d.HasNull) (hr : ¬ d.Refused env w) (fuel : ℕ) :
    ∃ l, (d.run env fuel w).2.log = (d.armed env w).log ++
        .write (dmaCsOffset d.channel8) (d.activeWord env w)::l ∧
      ∀ e ∈ l, (∀ fd, e ≠ .sync fd) ∧ ∀ c, e ≠ .control c := by
  obtain ⟨l,hl,hq⟩ := logged_started env d fuel
    ((d.armed env w).write env (dmaCsOffset d.channel8) (d.activeWord env w))
  refine ⟨l,?_,hq⟩
  rw [run_eq hn,waiting,start_started hr,hl]
  simp [World.write]

theorem block_mem_armed : .control (d.block w.cb) ∈ (d.armed env w).log := by
  have hsynced : Logged (fun _ => True) (d.begun env w) (d.synced env w) := logged_synced trivial
  have hblock := hsynced.mem block_mem
  simp [armed,World.read,World.write,hblock]

theorem address_mem_armed (env : Env σ) (d : DmaCall) (w : World σ) :
    .write (dmaCtrlBlk d.channel8) ((cbAddress d.cxt d.cb).setWidth 32) ∈ (d.armed env w).log := by
  simp [armed,World.read,World.write]

theorem ctrlBlk_notMem (hn : ¬ d.HasNull) (hr : d.Refused env w) (hw : w.log = []) (fuel n : ℕ)
    (y : Word) : .write (dmaCtrlBlk n) y ∉ (d.run env fuel w).2.log := by
  let Q : Event → Prop := fun e => ∀ y, e ≠ .write (dmaCtrlBlk n) y
  have hq : ∀ e : Event, e.IsStep → Q e := fun e he y => unwritten_of_step e he y
  have hrun : Logged Q w (d.run env fuel w).2 :=
    logged_run hq hn (by simp [Q]) (by simp [Q]) (setup_logs hq (by simp [Q,dmaCtrlBlk]))
      (fun h => absurd hr h) (by simp [Q,dmaoCs_eq,(dmaCtrlBlk_ne n 0).symm]) fuel
  exact fun h => hrun.log_eq hw _ h y rfl

end DmaCall

namespace DmaVisit

variable {env : Env σ} {v : DmaVisit σ} {l l' : List (Event ⊕ EngineStore)}

theorem events_steps (env : Env σ) (v : DmaVisit σ) : events (v.steps env) =
    (v.call.run env v.fuel v.world.fresh).2.log := events_weave _ _

theorem StartsAt.logs (h : v.StartsAt env l l') : ¬ v.call.HasNull ∧
    ¬ v.call.Refused env v.world.fresh ∧ events l = (v.call.armed env v.world.fresh).log ∧
    ∀ e ∈ events l', (∀ fd, e ≠ .sync fd) ∧ ∀ c, e ≠ .control c := by
  obtain ⟨⟨x,hsplit,-⟩,⟨y,hy⟩,hfirst⟩ := h
  have hlog := events_steps env v
  rw [hsplit,events_append,events_inl] at hlog
  have hn : ¬ v.call.HasNull := by
    intro hn
    rw [DmaCall.run_null hn] at hlog
    simp [World.fresh] at hlog
  have hr : ¬ v.call.Refused env v.world.fresh := by
    intro hr
    have hmem := DmaCall.ctrlBlk_notMem hn hr rfl v.fuel v.call.channel8 y
    rw [← hlog] at hmem
    exact hmem (List.mem_append_left _ (mem_events.mpr hy))
  obtain ⟨b,hrun,hb⟩ := DmaCall.run_log hn hr v.fuel
  rw [hrun] at hlog
  obtain ⟨harmed,hrest⟩ := first_unique
    (P := fun e => ∃ x, e = .write (dmaCsOffset v.call.channel8) x) hlog ⟨x,rfl⟩ ⟨_,rfl⟩
    (by
      rintro e he ⟨x,rfl⟩
      exact hfirst x (mem_events.mp he))
    (by
      rintro e he ⟨x,rfl⟩
      exact (DmaCall.armed_logged _ _ _).log_eq rfl _ he x rfl)
  exact ⟨hn,hr,harmed,hrest ▸ hb⟩

theorem exists_startsAt (hn : ¬ v.call.HasNull) (hr : ¬ v.call.Refused env v.world.fresh) :
    ∃ l l', v.StartsAt env l l' := by
  obtain ⟨b,hrun,-⟩ := DmaCall.run_log hn hr v.fuel
  obtain ⟨l,l',hsplit,hl,-⟩ := weave_split (v.call.armed env v.world.fresh).log b
    (.write (dmaCsOffset v.call.channel8) (v.call.activeWord env v.world.fresh)) v.engine
  have haddress := DmaCall.address_mem_armed env v.call v.world.fresh
  rw [← hl] at haddress
  refine ⟨l,l',⟨⟨v.call.activeWord env v.world.fresh,?_,DmaCall.test_activeWord⟩,
    ⟨_,mem_events.mp haddress⟩,?_⟩⟩
  · rw [steps,hrun,hsplit]
  · intro y hy
    have hmem := mem_events.mpr hy
    rw [hl] at hmem
    exact (DmaCall.armed_logged _ _ _).log_eq rfl _ hmem y rfl

theorem StartsAt.steps_eq (h : v.StartsAt env l l') :
    acts v.call.cxt (v.steps env) = acts v.call.cxt l ++ acts v.call.cxt l' ∧
      engineStores (v.steps env) = engineStores l ++ engineStores l' := by
  obtain ⟨x,hsplit,-⟩ := h.split
  rw [hsplit,acts_append,engineStores_append]
  exact ⟨rfl,rfl⟩

theorem StartsAt.keepsDevice (h : v.StartsAt env l l') :
    ∀ a ∈ acts v.call.cxt (v.steps env), a.KeepsDevice := by
  refine acts_keepsDevice fun fd hfd => ?_
  rw [events_steps] at hfd
  exact ((DmaCall.logged_buffer h.logs.1 v.fuel).log_eq rfl _ hfd).1 fd rfl

/-- The engine's view at the start: what it stored itself since the call was made. -/
theorem StartsAt.dev_after (h : v.StartsAt env l l') :
    (v.after l).dev = (engineStores l).foldl put v.buffer.dev := by
  have hkeeps := h.keepsDevice
  rw [h.steps_eq.1] at hkeeps
  rw [after,Shared.dev_run fun a ha => hkeeps a (List.mem_append_left _ ha),devStores_acts]

theorem StartsAt.block_after (h : v.StartsAt env l l') :
    (v.after l).dev .block = v.buffer.dev .block := by
  rw [h.dev_after]
  exact foldl_put_of_notMem engineStores_block _

theorem StartsAt.control_iff (h : v.StartsAt env l l') (c : DmaCb) :
    .inl (.control c) ∈ l ↔ c = v.call.block v.world.cb := by
  obtain ⟨hn,-,hl,-⟩ := h.logs
  constructor
  · intro hc
    obtain ⟨x,hsplit,-⟩ := h.split
    have hmem : .control c ∈ events (v.steps env) := by
      rw [hsplit]
      exact mem_events.mpr (List.mem_append_left _ hc)
    rw [events_steps] at hmem
    exact ((DmaCall.logged_buffer hn v.fuel).log_eq rfl _ hmem).2 c rfl
  · rintro rfl
    rw [← mem_events,hl]
    exact DmaCall.block_mem_armed

theorem StartsAt.cpu_after (h : v.StartsAt env l l') :
    (v.after (v.steps env)).cpu = (v.after l).cpu := by
  obtain ⟨-,-,-,hrest⟩ := h.logs
  rw [after,h.steps_eq.1,Shared.run_append]
  exact Shared.cpu_run (acts_keepsCpu hrest) _

theorem StartsAt.dev_steps (h : v.StartsAt env l l') {i : ℕ} {x : Word} (hx : .inr (i,x) ∈ l') :
    (v.after (v.steps env)).dev (.data i) =
      (engineStores l').foldl put v.buffer.dev (.data i) := by
  rw [after,Shared.dev_run h.keepsDevice,devStores_acts,h.steps_eq.2,List.foldl_append]
  exact foldl_put_congr (engineStores_data hx) _ _

/-- One call: it does not make the views agree, so they must agree before. -/
theorem coherent_iff (v : DmaVisit σ) : v.Coherent env ↔
    v.call.HasNull ∨ v.call.Refused env v.world.fresh ∨ v.AlreadyCoherent env := by
  constructor
  · intro h
    refine or_iff_not_imp_left.mpr fun hn => or_iff_not_imp_left.mpr fun hr => ⟨?_,?_,?_⟩
    · obtain ⟨l,l',hs⟩ := exists_startsAt hn hr
      rw [← hs.block_after]
      exact h.block l l' hs _ ((hs.control_iff _).mpr rfl)
    · intro hd l l' hs i hi
      rw [← hs.dev_after]
      exact h.source hd l l' hs i hi
    · rintro hd hsucc l l' hs i hi ⟨x,hx⟩
      rw [← hs.dev_steps hx,← hs.cpu_after]
      exact (h.destination hd hsucc l l' hs i hi ⟨x,hx⟩).symm
  · intro h
    have hready {l l' : List (Event ⊕ EngineStore)} (hs : v.StartsAt env l l') :
        v.AlreadyCoherent env := (h.resolve_left hs.logs.1).resolve_left hs.logs.2.1
    refine ⟨fun l l' hs c hc => ?_,fun hd l l' hs i hi => ?_,?_⟩
    · rw [hs.block_after,(hready hs).block,(hs.control_iff c).mp hc]
    · rw [hs.dev_after]
      exact (hready hs).source hd l l' hs i hi
    · rintro hd hsucc l l' hs i hi ⟨x,hx⟩
      rw [hs.dev_steps hx,hs.cpu_after]
      exact ((hready hs).destination hd hsucc l l' hs i hi ⟨x,hx⟩).symm

end DmaVisit

/-- What happens to the buffer: a DMA call, or what the caller or the engine does between calls. -/
inductive DmaMove
  | call (d : DmaCall) (fuel : ℕ) (engine : ℕ → List EngineStore)
  | act (a : Act Slot.Content)

/-- The caller fills in its fields of a control block. -/
def World.acted (w : World σ) : Act Slot.Content → World σ
  | .cpuStore ⟨.block,c⟩ => { w with cb := c }
  | _ => w

def dmaVisits (env : Env σ) : List DmaMove → World σ → DmaBuffer → List (DmaVisit σ)
  | [], _, _ => []
  | .act a::ms, w, b => dmaVisits env ms (w.acted a) (b.act a)
  | .call d fuel engine::ms, w, b =>
    let v : DmaVisit σ := ⟨d,fuel,engine,w,b⟩
    v::match d.run env fuel w.fresh with
      | (some _,w') => dmaVisits env ms w' (v.after (v.steps env))
      | (none,_) => []

/-- A buffer of zeros that both sides have seen. -/
def zeroBuffer : DmaBuffer :=
  let zeros : (s : Slot) → s.Content
    | .block => (⟨0,0,0,0,0,0⟩ : DmaCb)
    | .data _ => (0 : Word)
  ⟨zeros,zeros,[],[]⟩

end RpiSmi
