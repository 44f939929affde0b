import RpiSmi.Device
import RpiSmi.WriteAwait

/-!
# The TX FIFO under the write wait

The SMI drains a bounded FIFO at any moment and TXD tells whether it has room. A
word written without room is lost and raises the error. `txRule` is the driver's
side, one event at a time.
-/

namespace RpiSmi

open Exec BitField History

/-- The words in the FIFO, all that it has taken, and whether one was written without room. -/
structure TxFifo where
  queue : List Word
  accepted : List Word
  overflowed : Bool

/-- How many words leave before each access, whatever the other bits and registers read, DONE and
AFERR among them, and a clock. -/
structure TxTrace where
  capacity : ℕ
  drains : ℕ → ℕ
  bits : Reg → ℕ → Word
  clock : ℕ → ℤ
  limits : SpinLimits

namespace TxTrace

variable (T : TxTrace)

def device : Device TxFifo where
  tick t s := { s with queue := s.queue.drop (T.drains t) }
  value r t s :=
    if r = smioCs then SmiCs.txd.set (if s.queue.length < T.capacity then 1 else 0) (T.bits r t)
    else T.bits r t
  onRead _ s := s
  onWrite r v s :=
    if r = smioD then
      if s.queue.length < T.capacity then
        { s with queue := s.queue ++ [v], accepted := s.accepted ++ [v] }
      else { s with overflowed := true }
    else if r = smioCs ∧ SmiCs.clear.test v then { s with queue := [] }
    else s

def env : Env (ℕ × TxFifo) := T.device.env T.clock T.limits

def after (words : List Word) (l : List Event) : ℕ × TxFifo :=
  T.device.after (0,⟨words,[],false⟩) l

end TxTrace

def World.sending (words : List Word) (w : World (ℕ × TxFifo)) : World (ℕ × TxFifo) :=
  { w.fresh with dev := (0,⟨words,[],false⟩) }

/-- What an event after the log `l` must be: a load is of the next index and follows the push of
the word loaded before it, and a push finds room and is of the word loaded last. -/
def txRule (T : TxTrace) (words : List Word) (data : ℕ → Word) (l : List Event) : Event → Prop
  | .load i => i = (l.filterMap Event.load?).length ∧ i = (T.after words l).2.accepted.length
  | .write r v => r = smioD → (T.device.before (T.after words l)).queue.length < T.capacity ∧
      (l.filterMap Event.load?).length = (T.after words l).2.accepted.length+1 ∧
      v = data (T.after words l).2.accepted.length
  | _ => True

section History

variable {T : TxTrace} {words : List Word} {data : ℕ → Word} {l : List Event}

def Event.LeavesSent : Event → Prop
  | .load _ => False
  | .write r _ => r ≠ smioD
  | _ => True

theorem step_leavesSent {e : Event} (he : e.LeavesSent) (x : ℕ × TxFifo) :
    (T.device.step x e).2.accepted = x.2.accepted ∧
      (T.device.step x e).2.overflowed = x.2.overflowed := by
  cases e with
  | write r v =>
    have hr : r ≠ smioD := he
    simp only [Device.step,Device.before,TxTrace.device,hr,if_false]
    split <;> exact ⟨rfl,rfl⟩
  | load i => exact he.elim
  | _ => exact ⟨rfl,rfl⟩

theorem Event.LeavesSent.load? {e : Event} (he : e.LeavesSent) : e.load? = none := by
  cases e with
  | load i => exact he.elim
  | _ => rfl

theorem step_push {x : ℕ × TxFifo} (h : (T.device.before x).queue.length < T.capacity) (v : Word) :
    (T.device.step x (.write smioD v)).2.accepted = x.2.accepted ++ [v] ∧
      (T.device.step x (.write smioD v)).2.overflowed = x.2.overflowed := by
  have hroom : (x.2.queue.drop (T.drains x.1)).length < T.capacity := h
  simp [-List.length_drop,Device.step,Device.before,TxTrace.device,hroom]

/-- The loads are of the indices in order, all but the last of them at most have been pushed, and
nothing was written without room. -/
structure PushedFirst (data : ℕ → Word) (s : TxFifo) (l : List Event) : Prop where
  loads : l.filterMap Event.load? = List.range (l.filterMap Event.load?).length
  accepted : s.accepted = (List.range s.accepted.length).map data
  pushed : s.accepted.length ≤ (l.filterMap Event.load?).length
  pending : (l.filterMap Event.load?).length ≤ s.accepted.length+1
  clean : s.overflowed = false

theorem PushedFirst.accepted_loaded {s : TxFifo} (h : PushedFirst data s l) :
    s.accepted <+: (l.filterMap Event.load?).map data := by
  rw [h.accepted,h.loads]
  refine List.IsPrefix.map data ?_
  rw [List.prefix_iff_eq_take,List.length_range,List.take_range,Nat.min_eq_left h.pushed]

theorem PushedFirst.leavesSent {x : ℕ × TxFifo} (h : PushedFirst data x.2 l) {e : Event}
    (he : e.LeavesSent) (T : TxTrace) : PushedFirst data (T.device.step x e).2 (l ++ [e]) := by
  have hloads : (l ++ [e]).filterMap Event.load? = l.filterMap Event.load? := by simp [he.load?]
  obtain ⟨ha,ho⟩ := step_leavesSent (T := T) he x
  refine ⟨?_,?_,?_,?_,ho.trans h.clean⟩ <;> simp only [hloads,ha]
  · exact h.loads
  · exact h.accepted
  · exact h.pushed
  · exact h.pending

theorem PushedFirst.load {s : TxFifo} (h : PushedFirst data s l) {i : ℕ}
    (hi : i = (l.filterMap Event.load?).length) (ha : i = s.accepted.length) :
    PushedFirst data s (l ++ [Event.load i]) := by
  have hloads : (l ++ [Event.load i]).filterMap Event.load? = l.filterMap Event.load? ++ [i] := by
    simp [Event.load?]
  refine ⟨?_,h.accepted,?_,?_,h.clean⟩ <;>
    rw [hloads,List.length_append,List.length_singleton,← hi]
  · rw [List.range_succ,hi,← h.loads]
  · omega
  · omega

theorem PushedFirst.push {x : ℕ × TxFifo} (h : PushedFirst data x.2 l)
    (hroom : (T.device.before x).queue.length < T.capacity)
    (hn : (l.filterMap Event.load?).length = x.2.accepted.length+1) :
    PushedFirst data (T.device.step x (.write smioD (data x.2.accepted.length))).2
      (l ++ [Event.write smioD (data x.2.accepted.length)]) := by
  obtain ⟨ha,ho⟩ := step_push hroom (data x.2.accepted.length)
  have hloads : (l ++ [Event.write smioD (data x.2.accepted.length)]).filterMap Event.load? =
      l.filterMap Event.load? := by simp [Event.load?]
  refine ⟨?_,?_,?_,?_,ho.trans h.clean⟩ <;>
    simp only [hloads,ha,List.length_append,List.length_singleton]
  · exact h.loads
  · rw [List.range_succ,List.map_append,← h.accepted]
    rfl
  · omega
  · omega

theorem pushedFirst_of_obeys (h : Obeys (txRule T words data) l) :
    PushedFirst data (T.after words l).2 l := by
  refine h.invariant (I := fun l => PushedFirst data (T.after words l).2 l)
    ⟨rfl,rfl,Nat.le_refl _,Nat.zero_le _,rfl⟩ ?_
  intro l e hl he
  have hstep : T.after words (l ++ [e]) = T.device.step (T.after words l) e :=
    Device.after_concat _ _ _ _
  rw [hstep]
  by_cases hq : e.LeavesSent
  · exact hl.leavesSent hq _
  · cases e with
    | load i =>
      obtain ⟨hi,ha⟩ := he
      exact hl.load hi ha
    | write r v =>
      obtain ⟨hroom,hn,rfl⟩ := he (not_not.mp hq)
      rw [not_not.mp hq]
      exact hl.push hroom hn
    | _ => exact absurd trivial hq

end History

section Driver

variable {T : TxTrace} {words : List Word} {data : ℕ → Word} {len deadline : ℤ}
  {w w' : World (ℕ × TxFifo)} {count : ℕ}

structure TxAt (T : TxTrace) (words : List Word) (data : ℕ → Word) (count : ℕ)
    (w : World (ℕ × TxFifo)) : Prop where
  obeyed : T.device.Obeyed (0,⟨words,[],false⟩) (txRule T words data) w
  loads : (w.view Event.load?).length = count
  accepted : w.dev.2.accepted.length = count

/-- There is room, and there will be whatever the SMI drains. -/
def TxRoom (T : TxTrace) (w : World (ℕ × TxFifo)) : Prop :=
  w.dev.2.queue.length < T.capacity

theorem TxAt.leavesSent (h : TxAt T words data count w) {e : Event} (he : e.LeavesSent)
    (hl : w'.log = w.log ++ [e]) (hd : w'.dev = T.device.step w.dev e) :
    TxAt T words data count w' := by
  have hrule : txRule T words data w.log e := by
    cases e with
    | write r v => exact fun hr => absurd hr he
    | load i => exact he.elim
    | _ => trivial
  refine ⟨h.obeyed.event hl hd hrule,?_,?_⟩
  · simp [World.view,hl,he.load?,← h.loads]
  · rw [hd,(step_leavesSent he _).1,h.accepted]

theorem TxAt.read (h : TxAt T words data count w) (r : Reg) :
    TxAt T words data count (w.read T.env r) :=
  h.leavesSent (e := .read r (w.value T.env r)) trivial rfl rfl

theorem TxAt.assign (h : TxAt T words data count w) (f : Field 32) (v : ℕ) :
    TxAt T words data count (w.assign T.env smioCs f v) :=
  (h.read smioCs).leavesSent (e := .write smioCs (f.set v (w.value T.env smioCs)))
    (show smioCs ≠ smioD by decide) rfl rfl

theorem TxAt.report (h : TxAt T words data count w) (msg : String) :
    TxAt T words data count (w.report msg) :=
  h.leavesSent (e := .error msg) trivial rfl rfl

theorem TxAt.check (h : TxAt T words data count w) (deadline : ℤ) (spin : ℕ) :
    TxAt T words data count (w.after (T.env.spinExpired deadline spin w.dev)) :=
  World.after_spinExpired (P := TxAt T words data count) (fun v hv =>
    hv.leavesSent (e := .clock (T.clock v.dev.1)) trivial rfl rfl) deadline spin h

theorem TxAt.push (h : TxAt T words data count w) (hroom : TxRoom T w) :
    TxAt T words data (count+1) ((w.fetch count).write T.env smioD (data count)) := by
  have hbefore : (T.device.before w.dev).queue.length < T.capacity := by
    have hdrained : (w.dev.2.queue.drop (T.drains w.dev.1)).length ≤ w.dev.2.queue.length := by
      simp
    exact Nat.lt_of_le_of_lt hdrained hroom
  have hfetch : T.device.Obeyed (0,⟨words,[],false⟩) (txRule T words data) (w.fetch count) := by
    refine h.obeyed.fetch ⟨h.loads.symm,?_⟩
    rw [show T.after words w.log = w.dev from h.obeyed.dev.symm,h.accepted]
  have hloads : ((w.fetch count).view Event.load?).length = count+1 := by
    simp [Event.load?,h.loads]
  refine ⟨hfetch.write fun _ => ?_,?_,?_⟩
  · rw [show T.after words (w.fetch count).log = w.dev from hfetch.dev.symm,h.accepted]
    exact ⟨hbefore,hloads,rfl⟩
  · simpa [Event.load?] using hloads
  · rw [dev_write]
    show ((T.device.step w.dev (.write smioD (data count))).2.accepted).length = count+1
    rw [(step_push hbefore _).1,List.length_append,h.accepted,List.length_singleton]

theorem flag_txd (x : ℕ × TxFifo) :
    T.env.flag SmiCs.txd x = decide ((T.device.before x).queue.length < T.capacity) := by
  have hflag : T.env.flag SmiCs.txd x = SmiCs.txd.test (SmiCs.txd.set
      (if (T.device.before x).queue.length < T.capacity then 1 else 0) (T.bits smioCs x.1)) := rfl
  rw [hflag]
  split_ifs with h
  · simpa [h] using SmiCs.txd.test_set_one (by decide) _
  · simp [h]

theorem giveUp_tx (h : TxAt T words data count w) {α : Type} {Q : α → World (ℕ × TxFifo) → Prop}
    {E : World (ℕ × TxFifo) → Prop} (msg : String) (f g : Field 32) (a : α)
    (hq : ∀ v, TxAt T words data count v → Q a v) :
    Post (error msg >>= fun _ => setField T.env smioCs f 1 >>= fun _ =>
      setField T.env smioCs g 1 >>= fun _ => pure a) w Q E :=
  post_of_run rfl (hq _ (((h.report msg).assign f 1).assign g 1))

theorem txdRound_tx (h : TxAt T words data count w) (spin : ℕ) :
    Post (txdRound T.env deadline spin) w
      (fun r w' => TxAt T words data count w' ∧ (∀ spin', r = .inr (.ok spin') → TxRoom T w'))
      (TxAt T words data count) := by
  refine post_step (readField_run _ _ _ _) ?_
  refine post_ite (fun ht => ?_) fun _ => ?_
  · have hroom : (T.device.before w.dev).queue.length < T.capacity :=
      of_decide_eq_true ((flag_txd w.dev).symm.trans ht)
    exact post_of_run (pure_run _ _) ⟨h.read smioCs,fun _ _ => hroom⟩
  · refine post_step (spinExpired_run _ _ _ _) ?_
    refine post_ite (fun _ => ?_) fun _ => ?_
    · exact giveUp_tx ((h.read smioCs).check deadline spin) _ _ _ _
        fun v hv => ⟨hv,fun _ hr => by cases hr⟩
    · exact post_of_run (pure_run _ _) ⟨(h.read smioCs).check deadline spin,fun _ hr => by cases hr⟩

theorem writeChecks_tx (h : TxAt T words data count w) (spin : ℕ) :
    Post (writeChecks T.env deadline ⟨count,spin⟩) w
      (fun r w' => Sum.elim (fun s' => TxAt T words data s'.count w')
        (fun _ => ∃ n, TxAt T words data n w') r)
      (fun w' => ∃ n, TxAt T words data n w') := by
  have hcheck := h.check deadline spin
  refine post_step (spinExpired_run _ _ _ _) ?_
  refine post_ite (fun _ => ?_) fun _ => ?_
  · exact giveUp_tx hcheck _ _ _ _ fun v hv => ⟨count,hv⟩
  · refine post_step (readField_run _ _ _ _) ?_
    refine post_ite (fun _ => ?_) fun _ => ?_
    · exact giveUp_tx (hcheck.read smioCs) _ _ _ _ fun v hv => ⟨count,hv⟩
    · exact post_of_run (pure_run _ _) (hcheck.read smioCs)

/-- A round pushes only after TXD was seen, in the room that it then has. -/
theorem writeAwaitRound_tx (fuel : ℕ) (s : Poll) (h : TxAt T words data s.count w) :
    Post (writeAwaitRound T.env fuel data len deadline s) w
      (fun r w' => Sum.elim (fun s' => TxAt T words data s'.count w')
        (fun _ => ∃ n, TxAt T words data n w') r)
      (fun w' => ∃ n, TxAt T words data n w') := by
  refine post_step (readField_run _ _ _ _) ?_
  refine post_ite (fun _ => ?_) fun _ => ?_
  · exact post_of_run (pure_run _ _) ⟨_,h.read smioCs⟩
  · refine post_bind ((post_loop (fun _ => TxAt T words data s.count)
      (Q := fun r w' => TxAt T words data s.count w' ∧ ∀ spin', r = .ok spin' → TxRoom T w')
      (fun _ _ h => h) (fun spin v hv => (txdRound_tx hv spin).mono ?_ fun _ h => h)
      fuel s.spin _ (h.read smioCs)).mono ?_ fun _ h => ⟨_,h⟩)
    · rintro (spin' | r) v' ⟨ht,hr⟩
      · exact ht
      · exact ⟨ht,fun spin' hs => hr spin' (by rw [hs])⟩
    · rintro (code | spin') v ⟨hv,hroom⟩
      · exact post_of_run (pure_run _ _) ⟨_,hv⟩
      · by_cases hlen : (s.count : ℤ) < len+1
        · simp only [Post,writePush_run (s := ⟨s.count,spin'⟩) hlen]
          exact writeChecks_tx (hv.push (hroom spin' rfl)) spin'
        · simp only [writePush,hlen,if_false]
          exact writeChecks_tx hv spin'

theorem smiWriteAwait_tx (T : TxTrace) (words : List Word) (data : Option (ℕ → Word)) (len : ℤ)
    (fuel : ℕ) (w : World (ℕ × TxFifo)) : ∃ n, TxAt T words (data.getD fun _ => 0) n
      (smiWriteAwait T.env fuel data len (w.sending words)).2 := by
  have hstart (data : ℕ → Word) : TxAt T words data 0 (w.sending words) :=
    ⟨.start rfl rfl,rfl,rfl⟩
  refine (post_iff_state (P := fun v => ∃ n, TxAt T words (data.getD fun _ => 0) n v)).mp ?_
  cases data with
  | none => exact post_of_run (pure_run _ _) ⟨0,hstart _⟩
  | some data =>
    have hclocked : TxAt T words data 0 ((w.sending words).clocked T.env) :=
      (hstart data).leavesSent (e := .clock (T.clock 0)) trivial rfl rfl
    refine post_step (startTimeout_run _ _ _) ?_
    exact post_loop
      (fun s => TxAt T words data s.count) (fun s _ h => ⟨s.count,h⟩)
      (fun s v h => writeAwaitRound_tx fuel s h) fuel ⟨0,0⟩ _ hclocked

end Driver

/-- The driver's side of the protocol. It writes `SMI_D` only while the FIFO has room, so it never
overflows it, and at every moment the words accepted are a prefix of those it has loaded, which are
those of the array in order. -/
theorem smiWriteAwait_txProtocol (T : TxTrace) (words : List Word) (data : Option (ℕ → Word))
    (len : ℤ) (fuel : ℕ) (w : World (ℕ × TxFifo)) :
    let w' := (smiWriteAwait T.env fuel data len (w.sending words)).2
    (∀ l v l', w'.log = l ++ .write smioD v::l' →
      (T.device.before (T.after words l)).queue.length < T.capacity) ∧
    (∀ l, l <+: w'.log → (T.after words l).2.overflowed = false ∧
      (∃ n, l.filterMap Event.load? = List.range n) ∧
      (T.after words l).2.accepted <+:
        (l.filterMap Event.load?).map (data.getD fun _ => 0)) := by
  intro w'
  obtain ⟨n,h⟩ := smiWriteAwait_tx T words data len fuel w
  refine ⟨fun l v l' hl => (h.obeyed.rules l _ l' hl rfl).1,fun l hl => ?_⟩
  have hpushed := pushedFirst_of_obeys (h.obeyed.rules.of_prefix hl)
  exact ⟨hpushed.clean,⟨_,hpushed.loads⟩,hpushed.accepted_loaded⟩

end RpiSmi
