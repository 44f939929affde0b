import RpiSmi.AwaitEnds

/-!
# The RX FIFO under the read wait

The device pushes words at any moment, RXD tells whether the FIFO holds one, and
a read of `SMI_D` takes the first. `rxRule` is the driver's side of it, one event
at a time: what it reads and stores then follows for every moment of a run.
-/

namespace RpiSmi

open Exec BitField History

/-- The words in the FIFO, and all that were ever pushed. -/
structure RxFifo where
  queue : List Word
  delivered : List Word

/-- The words pushed before each access, whatever the other bits and registers read, and a clock. -/
structure RxTrace where
  arrivals : ℕ → List Word
  bits : Reg → ℕ → Word
  clock : ℕ → ℤ
  limits : SpinLimits

namespace RxTrace

variable (T : RxTrace)

def device : Device RxFifo where
  tick t s := ⟨s.queue ++ T.arrivals t,s.delivered ++ T.arrivals t⟩
  value r t s :=
    if r = smioCs then SmiCs.rxd.set (if s.queue = [] then 0 else 1) (T.bits r t)
    else if r = smioD then s.queue.headD (T.bits r t)
    else T.bits r t
  onRead r s := if r = smioD then { s with queue := s.queue.tail } else s
  onWrite r v s := if r = smioCs ∧ SmiCs.clear.test v then { s with queue := [] } else s

def env : Env (ℕ × RxFifo) := T.device.env T.clock T.limits

def after (words : List Word) (l : List Event) : ℕ × RxFifo := T.device.after (0,⟨words,words⟩) l

end RxTrace

def World.queued (words : List Word) (w : World (ℕ × RxFifo)) : World (ℕ × RxFifo) :=
  { w.fresh with dev := (0,⟨words,words⟩) }

def Event.popped? : Event → Option Word
  | .read r v => if r = smioD then some v else none
  | _ => none

def keptWords (l : List Event) : List Word := (l.filterMap Event.store?).map fun x => x.2.2

theorem keptWords_concat (l : List Event) {e : Event} (h : e.store? = none) :
    keptWords (l ++ [e]) = keptWords l := by
  simp [keptWords,h]

theorem keptWords_store (l : List Event) (q : Ptr) (i : ℕ) (v : Word) :
    keptWords (l ++ [Event.store q i v]) = keptWords l ++ [v] := by
  simp [keptWords,Event.store?]

/-- What an event after the log `l` must be. A read of `SMI_D` takes the head of a FIFO that is not
empty, when no word is held, and a store puts the word held, the next of the words delivered, at the
next index, below `len`. -/
def rxRule (T : RxTrace) (words : List Word) (p : Ptr) (len : ℤ) (l : List Event) : Event → Prop
  | .read r v => r = smioD → (T.device.before (T.after words l)).queue.head? = some v ∧
      l.filterMap Event.popped? = keptWords l
  | .store q i v => q = p ∧ i = (l.filterMap Event.store?).length ∧ (i : ℤ) < len ∧
      (T.after words l).2.delivered[i]? = some v ∧ l.filterMap Event.popped? = keptWords l ++ [v]
  | _ => True

section History

variable {T : RxTrace} {words : List Word} {p : Ptr} {len : ℤ} {l : List Event}

theorem delivered_step (x : ℕ × RxFifo) (e : Event) :
    x.2.delivered <+: (T.device.step x e).2.delivered := by
  have happend : x.2.delivered <+: x.2.delivered ++ T.arrivals x.1 := List.prefix_append _ _
  cases e with
  | read r v =>
    simp only [Device.step,RxTrace.device]
    split <;> exact happend
  | write r v =>
    simp only [Device.step,RxTrace.device]
    split <;> exact happend
  | clock t => exact happend
  | load i => exact List.prefix_rfl
  | store q i v => exact List.prefix_rfl
  | error msg => exact List.prefix_rfl
  | sync fd => exact List.prefix_rfl
  | control c => exact List.prefix_rfl

structure StoredFirst (p : Ptr) (len : ℤ) (delivered : List Word) (l : List Event) : Prop where
  arrived : (l.filterMap Event.store?).length ≤ delivered.length
  inside : ((l.filterMap Event.store?).length : ℤ) ≤ max len 0
  stores : l.filterMap Event.store? =
    (delivered.take (l.filterMap Event.store?).length).mapIdx fun i v => (p,i,v)

theorem StoredFirst.mono {d d' : List Word} (h : StoredFirst p len d l) (hd : d <+: d') {e : Event}
    (he : e.store? = none) : StoredFirst p len d' (l ++ [e]) := by
  obtain ⟨more,rfl⟩ := hd
  have heq : (l ++ [e]).filterMap Event.store? = l.filterMap Event.store? := by simp [he]
  refine ⟨?_,?_,?_⟩ <;> rw [heq]
  · exact h.arrived.trans (by simp)
  · exact h.inside
  · rw [List.take_append_of_le_length h.arrived]
    exact h.stores

theorem StoredFirst.store {d : List Word} (h : StoredFirst p len d l) {i : ℕ} {v : Word}
    (hi : i = (l.filterMap Event.store?).length) (hlen : (i : ℤ) < len) (hv : d[i]? = some v) :
    StoredFirst p len d (l ++ [Event.store p i v]) := by
  have heq : (l ++ [Event.store p i v]).filterMap Event.store? =
      l.filterMap Event.store? ++ [(p,i,v)] := by simp [Event.store?]
  have hlt : i < d.length := (List.getElem?_eq_some_iff.mp hv).choose
  refine ⟨?_,?_,?_⟩ <;> rw [heq,List.length_append,List.length_singleton,← hi]
  · exact hlt
  · push_cast
    omega
  · have htake : (d.take i).length = i := List.length_take_of_le (Nat.le_of_lt hlt)
    rw [List.take_add_one,hv,Option.toList_some,List.mapIdx_append,htake,h.stores,← hi]
    simp

/-- Every word taken has been stored, but for the last while the driver holds it. -/
def NoneLost (l : List Event) : Prop :=
  ∃ held : List Word, held.length ≤ 1 ∧ l.filterMap Event.popped? = keptWords l ++ held

theorem NoneLost.concat (h : NoneLost l) {e : Event} (hp : e.popped? = none)
    (hs : e.store? = none) : NoneLost (l ++ [e]) := by
  obtain ⟨held,hlen,hl⟩ := h
  refine ⟨held,hlen,?_⟩
  rw [keptWords_concat l hs,← hl]
  simp [hp]

theorem noneLost_of_obeys (h : Obeys (rxRule T words p len) l) : NoneLost l := by
  refine h.invariant (I := NoneLost) ⟨[],Nat.zero_le _,rfl⟩ ?_
  intro l e hl he
  cases e with
  | read r v =>
    by_cases hr : r = smioD
    · have hnone := (he hr).2
      refine ⟨[v],le_rfl,?_⟩
      rw [keptWords_concat l rfl,← hnone]
      simp [Event.popped?,hr]
    · exact hl.concat (if_neg hr) rfl
  | store q i v =>
    have hheld := he.2.2.2.2
    refine ⟨[],Nat.zero_le _,?_⟩
    rw [keptWords_store,← hheld]
    simp [Event.popped?]
  | _ => exact hl.concat rfl rfl

/-- A driver that keeps to the rule has at every moment stored the first words delivered. -/
theorem storedFirst_of_obeys (h : Obeys (rxRule T words p len) l) :
    StoredFirst p len (T.after words l).2.delivered l := by
  refine h.invariant (I := fun l => StoredFirst p len (T.after words l).2.delivered l)
    ⟨Nat.zero_le _,Int.le_max_right len 0,rfl⟩ ?_
  intro l e hl he
  have hstep : T.after words (l ++ [e]) = T.device.step (T.after words l) e :=
    Device.after_concat _ _ _ _
  rw [hstep]
  have hmono := delivered_step (T := T) (T.after words l) e
  cases e with
  | store q i v =>
    obtain ⟨rfl,hi,hlen,hv,-⟩ := he
    exact hl.store hi hlen hv
  | _ => exact hl.mono hmono rfl

end History

section Driver

variable {T : RxTrace} {words : List Word} {p : Ptr} {len : ℤ} {m : Memory}
  {w w' : World (ℕ × RxFifo)}

/-- A moment of a wait that began with the memory `m`. -/
structure RxMoment (T : RxTrace) (words : List Word) (p : Ptr) (len : ℤ) (m : Memory)
    (w : World (ℕ × RxFifo)) : Prop where
  obeyed : T.device.Obeyed (0,⟨words,words⟩) (rxRule T words p len) w
  arrived : (w.view Event.store?).length ≤ w.dev.2.delivered.length
  popped : w.view Event.popped? = keptWords w.log
  memory : w.memory =
    Memory.storeAll p 0 (w.dev.2.delivered.take (w.view Event.store?).length) m

/-- Between two rounds: `count` words have been stored and the FIFO holds the others. -/
structure RxAt (T : RxTrace) (words : List Word) (p : Ptr) (len : ℤ) (m : Memory) (count : ℕ)
    (w : World (ℕ × RxFifo)) : Prop extends RxMoment T words p len m w where
  stored : (w.view Event.store?).length = count
  queue : w.dev.2.queue = w.dev.2.delivered.drop count

theorem RxMoment.event (h : RxMoment T words p len m w) {e : Event}
    (hl : w'.log = w.log ++ [e]) (hd : w'.dev = T.device.step w.dev e)
    (hm : w'.memory = w.memory) (hs : e.store? = none) (hp : e.popped? = none)
    (he : rxRule T words p len w.log e) : RxMoment T words p len m w' := by
  have hpopped : w'.view Event.popped? = keptWords w'.log := by
    rw [hl,keptWords_concat _ hs,← h.popped]
    simp [World.view,hl,hp]
  obtain ⟨more,hmore⟩ := delivered_step (T := T) w.dev e
  have hview : w'.view Event.store? = w.view Event.store? := by
    simp [World.view,hl,hs]
  refine ⟨h.obeyed.event hl hd he,?_,hpopped,?_⟩ <;> rw [hview,hd,← hmore]
  · exact h.arrived.trans (by simp)
  · rw [hm,h.memory,List.take_append_of_le_length h.arrived]

def Event.LeavesFifo : Event → Prop
  | .read r _ => r ≠ smioD
  | .clock _ => True
  | .error _ => True
  | _ => False

theorem step_leavesFifo {e : Event} (he : e.LeavesFifo) (x : ℕ × RxFifo) :
    ∃ more, (T.device.step x e).2.queue = x.2.queue ++ more ∧
      (T.device.step x e).2.delivered = x.2.delivered ++ more := by
  cases e with
  | read r v =>
    refine ⟨T.arrivals x.1,?_⟩
    have hr : r ≠ smioD := he
    simp [Device.step,Device.before,RxTrace.device,hr]
  | clock t => exact ⟨T.arrivals x.1,rfl,rfl⟩
  | error msg => exact ⟨[],by simp [Device.step],by simp [Device.step]⟩
  | _ => exact he.elim

theorem RxAt.leavesFifo {count : ℕ} (h : RxAt T words p len m count w) {e : Event}
    (he : e.LeavesFifo) (hl : w'.log = w.log ++ [e]) (hd : w'.dev = T.device.step w.dev e)
    (hm : w'.memory = w.memory) : RxAt T words p len m count w' := by
  have hs : e.store? = none ∧ e.popped? = none ∧ rxRule T words p len w.log e := by
    cases e with
    | read r v => exact ⟨rfl,if_neg he,fun hr => absurd hr he⟩
    | clock t => exact ⟨rfl,rfl,trivial⟩
    | error msg => exact ⟨rfl,rfl,trivial⟩
    | _ => exact he.elim
  obtain ⟨more,hq,hdel⟩ := step_leavesFifo (T := T) he w.dev
  have harrived := h.arrived
  rw [h.stored] at harrived
  refine ⟨h.toRxMoment.event hl hd hm hs.1 hs.2.1 hs.2.2,?_,?_⟩
  · simp [World.view,hl,hs.1,← h.stored]
  · rw [hd,hq,hdel,h.queue,List.drop_append_of_le_length harrived]

theorem RxAt.poll {count : ℕ} (h : RxAt T words p len m count w) :
    RxAt T words p len m count (w.read T.env smioCs) :=
  h.leavesFifo (e := .read smioCs (w.value T.env smioCs)) (show smioCs ≠ smioD by decide) rfl rfl
    (memory_read _ _ _)

theorem RxAt.check {count : ℕ} (h : RxAt T words p len m count w) (deadline : ℤ) (spin : ℕ) :
    RxAt T words p len m count (w.after (T.env.spinExpired deadline spin w.dev)) :=
  World.after_spinExpired (P := RxAt T words p len m count) (fun v hv =>
    hv.leavesFifo (e := .clock (T.clock v.dev.1)) trivial rfl rfl (World.memory_after _ _))
    deadline spin h

theorem RxAt.report {count : ℕ} (h : RxAt T words p len m count w) (msg : String) :
    RxAt T words p len m count (w.report msg) :=
  h.leavesFifo (e := .error msg) trivial rfl rfl (memory_report _ _)

/-- Giving up: the FIFO is cleared, and nothing is read after it. -/
theorem RxAt.clear {count : ℕ} (h : RxAt T words p len m count w) :
    RxMoment T words p len m (w.assign T.env smioCs SmiCs.clear 1) :=
  h.poll.toRxMoment.event (e := .write smioCs _) rfl rfl (memory_write _ _ _ _) rfl rfl trivial

theorem flag_rxd (x : ℕ × RxFifo) :
    T.env.flag SmiCs.rxd x = decide ((T.device.before x).queue ≠ []) := by
  have hflag : T.env.flag SmiCs.rxd x = SmiCs.rxd.test (SmiCs.rxd.set
      (if (T.device.before x).queue = [] then 0 else 1) (T.bits smioCs x.1)) := rfl
  rw [hflag]
  split_ifs with h
  · simp [h]
  · simpa [h] using SmiCs.rxd.test_set_one (by decide) _

/-- A read of `SMI_D` takes the head, whatever is pushed behind it meanwhile. -/
theorem readReg_head {x : ℕ × RxFifo} {v : Word} {rest : List Word} (hq : x.2.queue = v::rest) :
    (T.device.before x).queue = v::rest ++ T.arrivals x.1 ∧
      T.env.readReg smioD x =
        (v,x.1+1,⟨rest ++ T.arrivals x.1,x.2.delivered ++ T.arrivals x.1⟩) := by
  have hbefore : (T.device.before x).queue = v::rest ++ T.arrivals x.1 := by rw [← hq]; rfl
  refine ⟨hbefore,?_⟩
  show ((T.device.before x).queue.headD _,_,(⟨(T.device.before x).queue.tail,_⟩ : RxFifo)) = _
  rw [hbefore]
  rfl

theorem RxAt.word {count : ℕ} (h : RxAt T words p len m count w) (hlen : (count : ℤ) < len)
    (hq : w.dev.2.queue ≠ []) : RxAt T words p len m (count+1)
      ((w.read T.env smioD).store p count (T.env.readReg smioD w.dev).1) := by
  have harrived := h.arrived
  rw [h.stored] at harrived
  let pushed := T.arrivals w.dev.1
  obtain ⟨v,rest,hhead⟩ := List.exists_cons_of_ne_nil hq
  obtain ⟨hbefore,hreg⟩ := readReg_head (T := T) hhead
  have hvalue : (T.env.readReg smioD w.dev).1 = v := congrArg Prod.fst hreg
  have hdev : (w.read T.env smioD).dev =
      (w.dev.1+1,⟨rest ++ pushed,w.dev.2.delivered ++ pushed⟩) := congrArg Prod.snd hreg
  have hdrop : (w.dev.2.delivered ++ pushed).drop count = v::rest ++ pushed := by
    rw [List.drop_append_of_le_length harrived,← h.queue,hhead]
  have hnext : (w.dev.2.delivered ++ pushed)[count]? = some v := by
    rw [← List.head?_drop,hdrop]
    rfl
  rw [hvalue]
  have hread : T.device.Obeyed (0,⟨words,words⟩) (rxRule T words p len) (w.read T.env smioD) := by
    refine h.obeyed.read fun _ => ⟨?_,h.popped⟩
    have hafter : T.after words w.log = w.dev := h.obeyed.dev.symm
    show (T.device.before (T.after words w.log)).queue.head? = some (w.value T.env smioD)
    rw [hafter,hbefore,show w.value T.env smioD = v from hvalue]
    rfl
  have hview : (w.read T.env smioD).view Event.store? = w.view Event.store? := by
    simp [Event.store?]
  have hstores : (((w.read T.env smioD).store p count v).view Event.store?).length = count+1 := by
    simp [Event.store?,h.stored]
  have hheld : (w.read T.env smioD).view Event.popped? = keptWords w.log ++ [v] := by
    have hvalue' : w.value T.env smioD = v := hvalue
    rw [← h.popped]
    simp [World.view,World.read,Event.popped?,hvalue']
  have hkept : keptWords (w.read T.env smioD).log = keptWords w.log := keptWords_concat _ rfl
  have hpopped : ((w.read T.env smioD).store p count v).view Event.popped? =
      keptWords ((w.read T.env smioD).store p count v).log := by
    have hlast : keptWords ((w.read T.env smioD).store p count v).log =
        keptWords (w.read T.env smioD).log ++ [v] := by
      cases p <;> exact keptWords_store _ _ _ _
    rw [hlast,hkept,← hheld]
    simp [Event.popped?]
  refine ⟨⟨hread.store ⟨rfl,?_,hlen,?_,?_⟩,?_,hpopped,?_⟩,hstores,?_⟩
  · exact (h.stored.symm.trans (congrArg List.length hview.symm))
  · rw [show T.after words (w.read T.env smioD).log = (w.read T.env smioD).dev from
      hread.dev.symm,hdev]
    exact hnext
  · rw [hkept]
    exact hheld
  · rw [hstores,dev_store,hdev]
    exact (List.getElem?_eq_some_iff.mp hnext).choose
  · have htake : (w.dev.2.delivered.take count).length = count := List.length_take_of_le harrived
    rw [hstores,dev_store,hdev,memory_store,memory_read,h.memory,h.stored,List.take_add_one,hnext,
      List.take_append_of_le_length harrived,Option.toList_some,Memory.storeAll_concat,htake,
      Nat.zero_add]
  · rw [dev_store,hdev]
    show rest ++ pushed = (w.dev.2.delivered ++ pushed).drop (count+1)
    rw [← List.tail_drop,hdrop]
    rfl

/-- What the wait returns and what it has stored then: `len` words, or fewer and a clock that has
reached the deadline. -/
def RxEnd (p : Ptr) (len deadline : ℤ) (r : ℤ) (w : World (ℕ × RxFifo)) : Prop :=
  (p = .null ∧ r = smiErrNullPtr ∧ w.view Event.store? = []) ∨
  (r = (w.view Event.store?).length ∧ (w.view Event.store?).length = len.toNat) ∨
  (r = -smiErrTimeout ∧ w.Expired deadline)

/-- What the loop ends with: all words and the count of them, or a moment after which nothing is
read. -/
def RxLoopEnd (T : RxTrace) (words : List Word) (p : Ptr) (len : ℤ) (m : Memory) (deadline : ℤ)
    (w : World (ℕ × RxFifo)) : Except ℤ ℕ → Prop
  | .ok count => RxAt T words p len m count w ∧ ¬ (count : ℤ) < len
  | .error code => code = -smiErrTimeout ∧ w.Expired deadline ∧ RxMoment T words p len m w

variable {deadline : ℤ}

theorem readAwaitRound_rx (s : Poll) (h : RxAt T words p len m s.count w) :
    Post (readAwaitRound T.env p len deadline s) w
      (fun r w' => Sum.elim (fun s' => RxAt T words p len m s'.count w')
        (fun a => RxLoopEnd T words p len m deadline w' a) r)
      (RxMoment T words p len m) := by
  by_cases hlen : (s.count : ℤ) < len
  · rcases hp : T.env.flag SmiCs.rxd w.dev
    · have hcheck := h.poll.check deadline s.spin
      rcases hx : (T.env.spinExpired deadline s.spin (T.env.polled w.dev)).expired
      · exact post_of_run (readAwaitRound_idle hlen hp hx) hcheck
      · refine post_of_run (readAwaitRound_late hlen hp hx) ⟨rfl,?_,?_⟩
        · rw [expired_assign,expired_report]
          exact expired_of_check _ _ hx
        · exact (hcheck.report "Read await timeout reached").clear
    · refine post_of_run (readAwaitRound_word hlen hp) (h.poll.word hlen ?_)
      exact of_decide_eq_true ((flag_rxd w.dev).symm.trans hp)
  · exact post_of_run (readAwaitRound_full hlen) ⟨h,hlen⟩

theorem RxAt.full {count : ℕ} (h : RxAt T words p len m count w) (hlen : ¬ (count : ℤ) < len) :
    RxEnd p len deadline count w := by
  have hinside := (storedFirst_of_obeys h.obeyed.rules).inside
  have hstored : (w.log.filterMap Event.store?).length = count := h.stored
  rw [hstored] at hinside
  refine .inr (.inl ⟨by rw [h.stored],?_⟩)
  rw [h.stored]
  omega

theorem readAwaitEnd_rx (r : Except ℤ ℕ) (h : RxLoopEnd T words p len m deadline w r) :
    Post (readAwaitEnd T.env len r) w
      (fun r w' => RxMoment T words p len m w' ∧ RxEnd p len deadline r w')
      (RxMoment T words p len m) := by
  cases r with
  | error code =>
    obtain ⟨rfl,hx,hw⟩ := h
    exact post_of_run (pure_run _ _) ⟨hw,.inr (.inr ⟨rfl,hx⟩)⟩
  | ok count =>
    obtain ⟨hw,hlen⟩ := h
    have hrest (v : World (ℕ × RxFifo)) (hv : RxAt T words p len m count v) :
        Post (readField T.env smioCs SmiCs.rxd >>= fun b =>
          if b then error "Leftover data in the RX FIFO" >>= fun _ => pure (count : ℤ)
          else pure (count : ℤ)) v
          (fun r w' => RxMoment T words p len m w' ∧ RxEnd p len deadline r w')
          (RxMoment T words p len m) := by
      refine post_step (readField_run _ _ _ _) ?_
      refine post_ite (fun _ => ?_) fun _ => ?_
      · have hreport := hv.poll.report "Leftover data in the RX FIFO"
        refine post_step (error_run _ _) ?_
        exact post_of_run (pure_run _ _) ⟨hreport.toRxMoment,hreport.full hlen⟩
      · exact post_of_run (pure_run _ _) ⟨hv.poll.toRxMoment,hv.poll.full hlen⟩
    refine post_ite (fun _ => ?_) fun _ => hrest w hw
    refine post_step (error_run _ _) ?_
    exact hrest _ (hw.report _)

theorem smiReadAwait_rx (fuel : ℕ) (w : World (ℕ × RxFifo)) :
    Post (smiReadAwait T.env fuel p len) (w.queued words)
      (fun r w' => RxMoment T words p len w.fresh.memory w' ∧
        RxEnd p len ((w.queued words).deadline T.env progReadTimeoutS) r w')
      (RxMoment T words p len w.fresh.memory) := by
  have hstart : RxAt T words p len w.fresh.memory 0 (w.queued words) :=
    ⟨⟨.start rfl rfl,Nat.zero_le _,rfl,rfl⟩,rfl,rfl⟩
  by_cases hp : p = .null
  · have hrun : smiReadAwait T.env fuel p len (w.queued words) =
        (some smiErrNullPtr,w.queued words) := by
      simp only [smiReadAwait,hp,if_true]
      rfl
    exact post_of_run hrun ⟨hstart.toRxMoment,.inl ⟨hp,rfl,rfl⟩⟩
  · have hclocked : RxAt T words p len w.fresh.memory 0 ((w.queued words).clocked T.env) :=
      hstart.leavesFifo (e := .clock (T.clock 0)) trivial rfl rfl (World.memory_after _ _)
    simp only [Post,smiReadAwait_run hp]
    apply post_bind
    refine Post.mono ?_ (fun r v h => readAwaitEnd_rx r h) fun _ h => h
    exact post_loop (fun s => RxAt T words p len w.fresh.memory s.count)
      (fun _ _ h => h.toRxMoment) (fun s v h => readAwaitRound_rx s h) fuel ⟨0,0⟩ _ hclocked

end Driver

/-- The driver's side of the protocol. It reads `SMI_D` only while the FIFO holds a word. At every
moment the stores are those of the first words delivered, each at its own index below `len`, and
no word that was taken is missing from them, but for one that is still held. At the end none is
held, the destination holds the stores, and without a timeout the result is their number, `len`. -/
theorem smiReadAwait_rxProtocol (T : RxTrace) (words : List Word) (p : Ptr) (len : ℤ) (fuel : ℕ)
    (w : World (ℕ × RxFifo)) :
    let x := smiReadAwait T.env fuel p len (w.queued words)
    (∀ l v l', x.2.log = l ++ .read smioD v::l' →
      (T.device.before (T.after words l)).queue.head? = some v) ∧
    (∀ l, l <+: x.2.log → StoredFirst p len (T.after words l).2.delivered l ∧ NoneLost l) ∧
    x.2.view Event.popped? = keptWords x.2.log ∧
    x.2.memory = Memory.storeAll p 0
      ((T.after words x.2.log).2.delivered.take (x.2.view Event.store?).length) w.fresh.memory ∧
    ∀ r ∈ x.1, RxEnd p len ((w.queued words).deadline T.env progReadTimeoutS) r x.2 := by
  intro x
  have hpost : Post _ _ _ (RxMoment T words p len w.fresh.memory) := smiReadAwait_rx fuel w
  have h : RxMoment T words p len w.fresh.memory x.2 := by
    rcases hx : x.1 with _ | r
    · exact (hpost.elim (Prod.ext hx rfl)).2 rfl
    · exact ((hpost.elim (Prod.ext hx rfl)).1 r rfl).1
  refine ⟨fun l v l' hl => (h.obeyed.rules l _ l' hl rfl).1,fun l hl => ?_,h.popped,?_,?_⟩
  · have hrules := h.obeyed.rules.of_prefix hl
    exact ⟨storedFirst_of_obeys hrules,noneLost_of_obeys hrules⟩
  · rw [h.memory,h.obeyed.dev]
    rfl
  · intro r hr
    exact ((hpost.elim (Prod.ext hr rfl)).1 r rfl).2

end RpiSmi
