import RpiSmi.ReadAwait
import RpiSmi.PollTrace

/-!
# `smilite.h` beside `smi.c`

Both waits of either kind follow one system that has no clock, so they can part
only where one of them finds its deadline reached. There they do part: the two
ask the clock at different times, and `smilite.h` also in the round that has
brought the last word.
-/

namespace RpiSmi

open Exec

def txdStep (T : PollTrace) (p : ℕ) : ℕ ⊕ ℕ :=
  if SmiCs.txd.test (T.cs p) then .inr (p+1) else .inl (p+1)

/-- The count after the push of a round, by the guard `count < len + 1`. -/
def pushCount (len : ℤ) (k : ℕ) : ℕ := if (k : ℤ) < len+1 then k+1 else k

def roomStep (T : PollTrace) (k q : ℕ) : (ℕ × ℕ) ⊕ ℕ :=
  if SmiCs.aferr.test (T.cs q) then .inr k else .inl (k,q+1)

inductive WriteStep (T : PollTrace) (len : ℤ) : ℕ × ℕ → (ℕ × ℕ) ⊕ ℕ → Prop
  | done {k p : ℕ} (hd : SmiCs.done.test (T.cs p) = true) : WriteStep T len (k,p) (.inr k)
  | room {k p q : ℕ} (hd : SmiCs.done.test (T.cs p) = false)
      (hr : Leads (fun p o => o = txdStep T p) (p+1) q) :
      WriteStep T len (k,p) (roomStep T (pushCount len k) q)

theorem writeStep_deterministic (T : PollTrace) (len : ℤ) :
    Deterministic (WriteStep T len) := by
  rintro ⟨k,p⟩ o o' h h'
  cases h with
  | done hd =>
    cases h' with
    | done _ => rfl
    | room hd' _ => simp [hd] at hd'
  | room hd hr =>
    cases h' with
    | done hd' => simp [hd] at hd'
    | room _ hr' => rw [hr.unique (deterministic_fun _) hr']

structure TxdAt (deadline : ℤ) (l : List ℕ × List Word) (p : ℕ) (w : World PollState) : Prop where
  polls : w.dev.polls = p
  sent : w.sent = l
  inTime : ¬ w.Expired deadline

def TxdOut (deadline : ℤ) (l : List ℕ × List Word) (q : ℕ) (r : Except ℤ ℕ)
    (w : World PollState) : Prop :=
  (∃ spin, r = .ok spin) ∧ TxdAt deadline l q w

/-- A wait that has pushed `t.1` words, in time. -/
structure WriteAt (deadline : ℤ) (data : ℕ → Word) (t : ℕ × ℕ) (s : Poll)
    (w : World PollState) : Prop where
  count : s.count = t.1
  polls : w.dev.polls = t.2
  sent : SentPrefix data t.1 w
  inTime : ¬ w.Expired deadline

structure WriteOut (deadline : ℤ) (data : ℕ → Word) (k : ℕ) (r : ℤ) (w : World PollState) :
    Prop where
  result : r = k
  sent : SentPrefix data k w
  inTime : ¬ w.Expired deadline

def afterRoom (go : ℕ → Drv PollState (Poll ⊕ ℤ)) : Except ℤ ℕ → Drv PollState (Poll ⊕ ℤ)
  | .error code => pure (.inr code)
  | .ok spin => go spin

def roomThen (round : ℕ → Drv PollState (ℕ ⊕ Except ℤ ℕ)) (go : ℕ → Drv PollState (Poll ⊕ ℤ))
    (spin n : ℕ) : Drv PollState (Poll ⊕ ℤ) :=
  loop round n spin >>= afterRoom go

structure Rest (T : PollTrace) (deadline code : ℤ) (data : ℕ → Word)
    (x : ℕ → Drv PollState (Poll ⊕ ℤ)) (k p : ℕ) (l : List ℕ × List Word)
    (w : World PollState) : Prop where
  sound {n : ℕ} {r : Poll ⊕ ℤ} {w' : World PollState} : x n w = (some r,w') →
    (∃ a, r = .inr a ∧ GivesUp deadline code a w') ∨
      ∃ q, Leads (fun p o => o = txdStep T p) p q ∧
        Meets (WriteAt deadline data) (WriteOut deadline data) (roomStep T k q) r w'
  total {q : ℕ} : Leads (fun p o => o = txdStep T p) p q → ∃ r w', Ends x w r w'
  stuck {n : ℕ} {w' : World PollState} : x n w = (none,w') → w'.sent = l

section Write

variable {T : PollTrace} {deadline len : ℤ} {data : ℕ → Word}
  {wait : WriteWait PollState}

theorem txdRound_follows (hw : ∀ spin, Watches deadline (wait.expired deadline spin))
    (l : List ℕ × List Word) : Follows (fun p o => o = txdStep T p)
      (fun _ => wait.txdRound T.env deadline)
      (fun p _ => TxdAt deadline l p) (TxdOut deadline l)
      (GivesUp deadline (.error wait.timeoutCode)) := by
  refine follows_of_run fun p spin w ht => ?_
  obtain rfl : w.dev.polls = p := ht.polls
  have hvalue : w.value T.env smioCs = T.cs w.dev.polls := rfl
  have hpoll : TxdAt deadline l (w.dev.polls+1) (w.read T.env smioCs) :=
    ⟨rfl,by rw [sent_read,ht.sent],by simpa using ht.inTime⟩
  rcases hp : SmiCs.txd.test (T.cs w.dev.polls)
  · obtain ⟨b,v,hx,hv,-,hs,he⟩ := hw spin (w.read T.env smioCs)
    have hround : wait.txdRound T.env deadline spin w =
        (wait.expired deadline spin >>= fun b => if b then do
            error wait.fullMsg
            setField T.env smioCs SmiCs.clear 1
            setField T.env smioCs SmiCs.done 1
            return .inr (.error wait.timeoutCode)
          else return .inl (wait.next spin)) (w.read T.env smioCs) := by
      simp [WriteWait.txdRound,bind_apply,hvalue,hp]
    rw [hround,bind_run hx]
    cases b with
    | true => exact ⟨_,_,rfl,.inl ⟨_,rfl,rfl,by simpa using he.mpr (.inr rfl)⟩⟩
    | false =>
      refine ⟨_,v,rfl,.inr ?_⟩
      simp only [txdStep,hp]
      exact ⟨hv.trans hpoll.polls,hs.trans hpoll.sent,by simpa [he] using ht.inTime⟩
  · refine ⟨.inr (.ok spin),_,by simp [WriteWait.txdRound,bind_apply,hvalue,hp]; rfl,.inr ?_⟩
    simp only [txdStep,hp]
    exact ⟨⟨spin,rfl⟩,hpoll⟩

theorem checks_meets (hw : ∀ spin, Watches deadline (wait.expired deadline spin)) {k q : ℕ}
    {w : World PollState} (hq : w.dev.polls = q) (hs : SentPrefix data k w)
    (hin : ¬ w.Expired deadline) (spin : ℕ) : ∃ r v,
    wait.checks T.env deadline ⟨k,spin⟩ w = (some r,v) ∧
      ((∃ a, r = .inr a ∧ GivesUp deadline wait.timeoutCode a v) ∨
        Meets (WriteAt deadline data) (WriteOut deadline data) (roomStep T k q) r v) := by
  subst hq
  obtain ⟨b,v,hx,hv,-,hsent,he⟩ := hw spin w
  rw [WriteWait.checks,bind_run hx]
  cases b with
  | true => exact ⟨_,_,rfl,.inl ⟨_,rfl,rfl,by simpa using he.mpr (.inr rfl)⟩⟩
  | false =>
    have hpre : SentPrefix data k v := hsent.trans hs
    have htime : ¬ v.Expired deadline := by simpa [he] using hin
    have hvalue : v.value T.env smioCs = T.cs w.dev.polls := by
      rw [← hv]
      rfl
    rcases ha : SmiCs.aferr.test (T.cs w.dev.polls)
    · refine ⟨.inl ⟨k,wait.next spin⟩,v.read T.env smioCs,
        by simp [bind_apply,hvalue,ha],.inr ?_⟩
      simp only [roomStep,ha]
      exact ⟨rfl,by rw [← hv]; rfl,by rw [SentPrefix,sent_read,hpre],by simpa using htime⟩
    · refine ⟨.inr (k : ℤ),_,by simp [bind_apply,hvalue,ha]; rfl,.inr ?_⟩
      simp only [roomStep,ha]
      exact ⟨rfl,by simpa [SentPrefix] using hpre,by simpa using htime⟩

theorem rest_roomThen (hw : ∀ spin, Watches deadline (wait.expired deadline spin))
    {go : ℕ → Drv PollState (Poll ⊕ ℤ)} {k p : ℕ} {l : List ℕ × List Word} {w : World PollState}
    (hgo : ∀ q spin v, TxdAt deadline l q v → ∃ r w', go spin v = (some r,w') ∧
      ((∃ a, r = .inr a ∧ GivesUp deadline wait.timeoutCode a w') ∨
        Meets (WriteAt deadline data) (WriteOut deadline data) (roomStep T k q) r w'))
    (ht : TxdAt deadline l p w) (spin : ℕ) : Rest T deadline wait.timeoutCode data
      (roomThen (wait.txdRound T.env deadline) go spin) k p l w := by
  have hloop := txdRound_follows (T := T) hw l
  -- a wait for TXD that is over, by the deadline or with room
  have hover {o : Except ℤ ℕ} {v : World PollState}
      (ho : GivesUp deadline (.error wait.timeoutCode) o v ∨
        ∃ q, Leads (fun p o => o = txdStep T p) p q ∧ TxdOut deadline l q o v) :
      ∃ r w', afterRoom go o v = (some r,w') ∧
        ((∃ a, r = .inr a ∧ GivesUp deadline wait.timeoutCode a w') ∨
          ∃ q, Leads (fun p o => o = txdStep T p) p q ∧
            Meets (WriteAt deadline data) (WriteOut deadline data) (roomStep T k q) r w') := by
    rcases ho with ⟨rfl,he⟩ | ⟨q,hl,⟨spin',rfl⟩,hq⟩
    · exact ⟨_,v,rfl,.inl ⟨_,rfl,rfl,he⟩⟩
    · obtain ⟨r,w',hrun,hm⟩ := hgo q spin' v hq
      exact ⟨r,w',hrun,hm.imp_right fun hm => ⟨q,hl,hm⟩⟩
  constructor
  · intro n r w' hr
    rcases hx : loop (wait.txdRound T.env deadline) n spin w with
      ⟨_ | o,v⟩
    · rw [roomThen,bind_run_none hx] at hr
      cases hr
    · rw [roomThen,bind_run hx] at hr
      obtain ⟨r',v',hrun,hm⟩ := hover (hloop.returns (n := n) ht hx)
      rw [hrun] at hr
      cases hr
      exact hm
  · intro q hl
    obtain ⟨o,v,⟨N,hN⟩,ho⟩ := hloop.ends (deterministic_fun _) hl ht (s := spin)
    obtain ⟨r,w',hrun,-⟩ := hover (ho.imp_right fun ho => ⟨q,hl,ho⟩)
    exact ⟨r,w',N,fun n hn => (bind_run (hN n n hn hn) _).trans hrun⟩
  · intro n w' hr
    rcases hx : loop (wait.txdRound T.env deadline) n spin w with
      ⟨_ | o,v⟩
    · rw [roomThen,bind_run_none hx] at hr
      cases hr
      have hat (q spin : ℕ) (w : World PollState) (h : TxdAt deadline l q w) : w.sent = l := h.sent
      obtain ⟨q,-,hcut⟩ := hloop.cut (n := n) hat (fun _ q spin w v h hx => by
        obtain ⟨r,u,N,hN⟩ := hloop.total h rfl
        cases hx.symm.trans (hN N le_rfl)) ht hx
      exact hcut
    · rw [roomThen,bind_run hx] at hr
      obtain ⟨r',v',hrun,-⟩ := hover (hloop.returns (n := n) ht hx)
      cases hr.symm.trans hrun

theorem follows_of_rest {body : ℕ → Poll → Drv PollState (Poll ⊕ ℤ)} {code : ℤ}
    (hdone : ∀ n s w, SmiCs.done.test (T.cs w.dev.polls) = true →
      body n s w = (some (.inr (s.count : ℤ)),w.read T.env smioCs))
    (hrest : ∀ k p s w, WriteAt deadline data (k,p) s w → SmiCs.done.test (T.cs p) = false →
      ∃ x l u, (∀ n, body n s w = x n u) ∧
        Rest T deadline code data x (pushCount len k) (p+1) l u) :
    Follows (WriteStep T len) body (WriteAt deadline data) (WriteOut deadline data)
      (GivesUp deadline code) := by
  have hcount {k p : ℕ} {s : Poll} {w : World PollState} (ht : WriteAt deadline data (k,p) s w)
      (hd : SmiCs.done.test (T.cs p) = true) (n : ℕ) :
      body n s w = (some (.inr (k : ℤ)),w.read T.env smioCs) := by
    rw [hdone n s w (by rw [ht.polls]; exact hd),ht.count]
  constructor
  · rintro n ⟨k,p⟩ s w w' r ht hr
    rcases hd : SmiCs.done.test (T.cs p)
    · obtain ⟨x,l,u,hx,hrest⟩ := hrest k p s w ht hd
      rw [hx n] at hr
      exact (hrest.sound hr).imp_right fun ⟨q,hl,hm⟩ => ⟨_,.room hd hl,hm⟩
    · rw [hcount ht hd n] at hr
      cases hr
      exact .inr ⟨.inr k,.done hd,rfl,by simpa [SentPrefix] using ht.sent,by simpa using ht.inTime⟩
  · rintro ⟨k,p⟩ s w o ht ho
    cases ho with
    | done hd => exact ⟨_,_,0,fun n _ => hcount ht hd n⟩
    | room hd hl =>
      obtain ⟨x,l,u,hx,hrest⟩ := hrest k p s w ht hd
      obtain ⟨r,w',N,hN⟩ := hrest.total hl
      exact ⟨r,w',N,fun n hn => (hx n).trans (hN n hn)⟩

theorem push_sent {k : ℕ} {w : World PollState} (hs : SentPrefix data k w) (hk : (k : ℤ) < len+1) :
    SentPrefix data (pushCount len k) ((w.fetch k).write T.env smioD (data k)) := by
  rw [pushCount,if_pos hk]
  exact hs.push _

variable (len) in
theorem writeAwaitRound_rest {k p : ℕ} {s : Poll} {w : World PollState}
    (ht : WriteAt deadline data (k,p) s w) (hd : SmiCs.done.test (T.cs p) = false) : ∃ x u,
    (∀ n, writeAwaitRound T.env n data len deadline s w = x n u) ∧
      Rest T deadline smiErrTimeout data x (pushCount len k) (p+1)
        (List.range k,(List.range k).map data) u := by
  have hwait : ∀ spin, Watches deadline ((writeWait T.env).expired deadline spin) :=
    watches_spinExpired T
  obtain rfl : w.dev.polls = p := ht.polls
  obtain rfl : s.count = k := ht.count
  have hpoll : TxdAt deadline (List.range s.count,(List.range s.count).map data) (w.dev.polls+1)
      (w.read T.env smioCs) :=
    ⟨rfl,by rw [sent_read,ht.sent],by simpa using ht.inTime⟩
  have hgo (q spin : ℕ) (v : World PollState)
      (hv : TxdAt deadline (List.range s.count,(List.range s.count).map data) q v) : ∃ r w',
      writePush T.env data len deadline ⟨s.count,spin⟩ v = (some r,w') ∧
        ((∃ a, r = .inr a ∧ GivesUp deadline (writeWait T.env).timeoutCode a w') ∨
          Meets (WriteAt deadline data) (WriteOut deadline data)
            (roomStep T (pushCount len s.count) q) r w') := by
    by_cases hk : (s.count : ℤ) < len+1
    · have hcount : pushCount len s.count = s.count+1 := if_pos hk
      have hpush : SentPrefix data (pushCount len s.count)
          ((v.fetch s.count).write T.env smioD (data s.count)) := push_sent hv.sent hk
      have hq : ((v.fetch s.count).write T.env smioD (data s.count)).dev.polls = q := hv.polls
      rw [writePush_run (s := ⟨s.count,spin⟩) hk,writeChecks_eq]
      rw [hcount] at hpush ⊢
      exact checks_meets hwait hq hpush (by simpa using hv.inTime) spin
    · have hpush : writePush T.env data len deadline ⟨s.count,spin⟩ v =
          writeChecks T.env deadline ⟨s.count,spin⟩ v := by
        simp [writePush,hk]
      rw [hpush,writeChecks_eq,pushCount,if_neg hk]
      exact checks_meets hwait hv.polls hv.sent hv.inTime spin
  refine ⟨_,_,fun n => ?_,rest_roomThen hwait hgo hpoll s.spin⟩
  rw [writeAwaitRound_wait (show T.env.flag SmiCs.done w.dev = false from hd)]
  refine Exec.bind_congr (fun r v => ?_) _
  cases r <;> rfl

variable (len) in
/-- `smilite.h` has pushed before it waits for room. -/
theorem lite_writeAwaitRound_rest {k p : ℕ} {s : Poll} {w : World PollState}
    (ht : WriteAt deadline data (k,p) s w) (hd : SmiCs.done.test (T.cs p) = false) : ∃ x u,
    (∀ n, Lite.writeAwaitRound T.env n data len deadline s w = x n u) ∧
      Rest T deadline (-eTimedOut) data x (pushCount len k) (p+1)
        (List.range (pushCount len k),(List.range (pushCount len k)).map data) u := by
  have hwait : ∀ spin, Watches deadline ((Lite.writeWait T.env).expired deadline spin) :=
    watches_lite T
  obtain rfl : w.dev.polls = p := ht.polls
  obtain rfl : s.count = k := ht.count
  have hvalue : w.value T.env smioCs = T.cs w.dev.polls := rfl
  have hread : SentPrefix data s.count (w.read T.env smioCs) := by
    rw [SentPrefix,sent_read,ht.sent]
  have hgo (q spin : ℕ) (v : World PollState) (hv : TxdAt deadline
      (List.range (pushCount len s.count),(List.range (pushCount len s.count)).map data) q v) :
      ∃ r w', (Lite.writeWait T.env).checks T.env deadline ⟨pushCount len s.count,spin⟩ v =
        (some r,w') ∧ ((∃ a, r = .inr a ∧
            GivesUp deadline (Lite.writeWait T.env).timeoutCode a w') ∨
          Meets (WriteAt deadline data) (WriteOut deadline data)
            (roomStep T (pushCount len s.count) q) r w') :=
    checks_meets hwait hv.polls hv.sent hv.inTime spin
  by_cases hk : (s.count : ℤ) < len+1
  · have hcount : pushCount len s.count = s.count+1 := if_pos hk
    have hpush : TxdAt deadline
        (List.range (pushCount len s.count),(List.range (pushCount len s.count)).map data)
        (w.dev.polls+1) (((w.read T.env smioCs).fetch s.count).write T.env smioD (data s.count)) :=
      ⟨rfl,push_sent hread hk,by simpa using ht.inTime⟩
    refine ⟨_,_,fun n => ?_,rest_roomThen hwait hgo hpush s.spin⟩
    have hround : Lite.writeAwaitRound T.env n data len deadline s w =
        Lite.writeRoom T.env n deadline ⟨s.count+1,s.spin⟩
          (((w.read T.env smioCs).fetch s.count).write T.env smioD (data s.count)) := by
      simp [Lite.writeAwaitRound,bind_apply,hvalue,hd,hk]
    rw [hround,← hcount]
    refine Exec.bind_congr (fun r v => ?_) _
    cases r <;> rfl
  · have hcount : pushCount len s.count = s.count := if_neg hk
    have hpush : TxdAt deadline
        (List.range (pushCount len s.count),(List.range (pushCount len s.count)).map data)
        (w.dev.polls+1) (w.read T.env smioCs) :=
      ⟨rfl,by rw [hcount]; exact hread,by simpa using ht.inTime⟩
    refine ⟨_,_,fun n => ?_,rest_roomThen hwait hgo hpush s.spin⟩
    have hround : Lite.writeAwaitRound T.env n data len deadline s w =
        Lite.writeRoom T.env n deadline ⟨pushCount len s.count,s.spin⟩
          (w.read T.env smioCs) := by
      simp [Lite.writeAwaitRound,bind_apply,hvalue,hd,hk,hcount]
    rw [hround]
    refine Exec.bind_congr (fun r v => ?_) _
    cases r <;> rfl

theorem writeAwaitRound_follows : Follows (WriteStep T len)
    (fun n => writeAwaitRound T.env n data len deadline) (WriteAt deadline data)
    (WriteOut deadline data) (GivesUp deadline smiErrTimeout) :=
  follows_of_rest (fun _ _ _ hd => writeAwaitRound_done hd) fun _ _ _ _ ht hd => by
    obtain ⟨x,u,hx,hrest⟩ := writeAwaitRound_rest len ht hd
    exact ⟨x,_,u,hx,hrest⟩

theorem lite_writeAwaitRound_follows : Follows (WriteStep T len)
    (fun n => Lite.writeAwaitRound T.env n data len deadline) (WriteAt deadline data)
    (WriteOut deadline data) (GivesUp deadline (-eTimedOut)) := by
  refine follows_of_rest (fun n s w hd => ?_) fun _ _ _ _ ht hd => ?_
  · have hvalue : w.value T.env smioCs = T.cs w.dev.polls := rfl
    simp [Lite.writeAwaitRound,bind_apply,hvalue,hd]
  · obtain ⟨x,u,hx,hrest⟩ := lite_writeAwaitRound_rest len ht hd
    exact ⟨x,_,u,hx,hrest⟩

end Write

def SameResult (r r' : ℤ) : Prop := r' = r ∨ (r < 0 ∧ r' < 0)

/-- What `call` returns in time, `call'` returns too, with the same to be seen by `f`, unless it
finds the deadline reached. -/
def MatchedBy {γ : Type} (f : World PollState → γ) (deadline : ℤ)
    (call call' : ℕ → Drv PollState ℤ) (w : World PollState) : Prop :=
  ∀ fuel r v, call fuel w = (some r,v) → v.Expired deadline ∨
    ∃ r' v', Ends call' w r' v' ∧ (v'.Expired deadline ∨ (SameResult r r' ∧ f v' = f v))

theorem matchedBy_codes {γ : Type} {f : World PollState → γ} {deadline a b : ℤ} (ha : a < 0)
    (hb : b < 0) {w : World PollState} :
    MatchedBy f deadline (fun _ => pure a) (fun _ => pure b) w := by
  rintro fuel r v ⟨⟩
  exact .inr ⟨b,w,ends_of_run rfl,.inr ⟨.inr ⟨ha,hb⟩,rfl⟩⟩

/-- What `call` has pushed at any time, less what `cut` takes away, `call'` pushes too, unless one
of the two finds the deadline reached. -/
def KeepsUp (cut : List Word → List Word) (deadline : ℤ) (call call' : ℕ → Drv PollState ℤ)
    (w : World PollState) : Prop :=
  ∀ fuel, (call fuel w).2.Expired deadline ∨ ∃ fuel', (call' fuel' w).2.Expired deadline ∨
    cut (call fuel w).2.sent.2 <+: (call' fuel' w).2.sent.2

section Entry

variable {w w' : World PollState} {deadline : ℤ} {call call' run run' : ℕ → Drv PollState ℤ}
  (hc : ∀ fuel, call fuel w = run fuel w') (hc' : ∀ fuel, call' fuel w = run' fuel w')

include hc hc'

theorem MatchedBy.of_entry {γ : Type} {f : World PollState → γ}
    (h : MatchedBy f deadline run run' w') : MatchedBy f deadline call call' w := by
  intro fuel r v hr
  rw [hc] at hr
  refine (h fuel r v hr).imp_right ?_
  rintro ⟨r',v',⟨N,hN⟩,hv⟩
  exact ⟨r',v',⟨N,fun n hn => (hc' n).trans (hN n hn)⟩,hv⟩

theorem KeepsUp.of_entry {cut : List Word → List Word} (h : KeepsUp cut deadline run run' w') :
    KeepsUp cut deadline call call' w := by
  intro fuel
  rw [hc]
  refine (h fuel).imp_right ?_
  rintro ⟨fuel',hv⟩
  exact ⟨fuel',by rw [hc']; exact hv⟩

end Entry

section Calls

variable {T : PollTrace} {deadline len : ℤ} {data : ℕ → Word}

theorem inTime_clocked (env : Env PollState) (w : World PollState) :
    ¬ (w.fresh.clocked env).Expired (w.fresh.deadline env 50) := by
  simp only [World.clocked,expired_after,expired_fresh,World.deadline,List.mem_singleton,
    exists_eq_left,false_or]
  omega

section Write

variable {body body' : ℕ → Poll → Drv PollState (Poll ⊕ ℤ)} {code code' : ℤ}
  (h : Follows (WriteStep T len) body (WriteAt deadline data) (WriteOut deadline data)
    (GivesUp deadline code))
  (h' : Follows (WriteStep T len) body' (WriteAt deadline data) (WriteOut deadline data)
    (GivesUp deadline code'))
  {t : ℕ × ℕ} {s : Poll} {w : World PollState} (ht : WriteAt deadline data t s w)

include h h' ht

theorem writeLoop_matched {n m : ℕ} {r : ℤ} {v : World PollState}
    (hr : loop (body n) m s w = (some r,v)) : v.Expired deadline ∨
      ∃ r' v', Ends (fun n => loop (body' n) n s) w r' v' ∧
        (v'.Expired deadline ∨ (SameResult r r' ∧ v'.sent = v.sent)) := by
  rcases h.matched (writeStep_deterministic T len) h' ht ht hr with
    ⟨-,he⟩ | ⟨k,r',v',hout,hends,⟨-,he⟩ | hout'⟩
  · exact .inl he
  · exact .inr ⟨r',v',hends.ends,.inl he⟩
  · exact .inr ⟨r',v',hends.ends,.inr ⟨.inl (hout'.result.trans hout.result.symm),
      Eq.trans hout'.sent hout.sent.symm⟩⟩

theorem writeLoop_keepsUp {cut : List Word → List Word} (hcut : ∀ l, cut l <+: l)
    (hstuck : ∀ n t s w v, WriteAt deadline data t s w → body n s w = (none,v) →
      cut v.sent.2 <+: (List.range t.1).map data)
    (hgrow : ∀ n s, Keeps LogGrows (body' n s)) :
    KeepsUp cut deadline (fun n => loop (body n) n s) (fun n => loop (body' n) n s) w := by
  intro fuel
  simp only
  rcases hr : loop (body fuel) fuel s w with ⟨_ | r,v⟩
  · have hprefix (t : ℕ × ℕ) (s : Poll) (w : World PollState) (hat : WriteAt deadline data t s w) :
        cut w.sent.2 <+: (List.range t.1).map data := by
      rw [hat.sent]
      exact hcut _
    obtain ⟨t',hreach,hv⟩ := h.cut hprefix hstuck ht hr
    rcases h'.reaches (writeStep_deterministic T len) hreach ht with
      ⟨r,v',hends,-,he⟩ | ⟨k,N,s',w',hat,hrun⟩
    · obtain ⟨N,hN⟩ := hends.ends
      have hrun : loop (body' N) N s w = (some r,v') := hN N le_rfl
      exact .inr ⟨N,.inl (by rw [hrun]; exact he)⟩
    · have hlog : LogGrows w' (loop (body' (max N k)) (max N k) s w).2 := by
        have hrest := hrun (max N k) (max N k-k) (by omega)
        rw [show max N k-k+k = max N k by omega] at hrest
        rw [hrest]
        exact keeps_loop (hgrow _) _ _ _
      have hsent : w'.sent.2 = (List.range t'.1).map data := by rw [hat.sent]
      rw [← hsent] at hv
      exact .inr ⟨max N k,.inr (hv.trans (hlog.filterMap _))⟩
  · rcases writeLoop_matched h h' ht hr with he | ⟨r',v',⟨N,hN⟩,he | ⟨-,hs⟩⟩
    · exact .inl he
    · have hrun : loop (body' N) N s w = (some r',v') := hN N le_rfl
      exact .inr ⟨N,.inl (by rw [hrun]; exact he)⟩
    · have hrun : loop (body' N) N s w = (some r',v') := hN N le_rfl
      refine .inr ⟨N,.inr ?_⟩
      rw [hrun,hs]
      exact hcut _

omit h' in
theorem writeLoop_negative (hcode : code < 0) {n m : ℕ} {r : ℤ} {v : World PollState}
    (hr : loop (body n) m s w = (some r,v)) : r < 0 ↔ v.Expired deadline := by
  rcases h.returns ht hr with ⟨rfl,he⟩ | ⟨k,-,hout⟩
  · exact iff_of_true hcode he
  · rw [hout.result]
    exact iff_of_false (Int.not_lt.mpr (Int.natCast_nonneg _)) hout.inTime

end Write

theorem writeAwaitRound_stuck {n : ℕ} {t : ℕ × ℕ} {s : Poll} {w v : World PollState}
    (ht : WriteAt deadline data t s w)
    (hr : writeAwaitRound T.env n data len deadline s w = (none,v)) :
    v.sent = (List.range t.1,(List.range t.1).map data) := by
  rcases hd : SmiCs.done.test (T.cs t.2)
  · obtain ⟨x,u,hx,hrest⟩ := writeAwaitRound_rest len ht hd
    exact hrest.stuck ((hx n).symm.trans hr)
  · have hflag : T.env.flag SmiCs.done w.dev = true := by
      rw [← ht.polls] at hd
      exact hd
    cases (writeAwaitRound_done hflag).symm.trans hr

theorem lite_writeAwaitRound_stuck {n : ℕ} {t : ℕ × ℕ} {s : Poll} {w v : World PollState}
    (ht : WriteAt deadline data t s w)
    (hr : Lite.writeAwaitRound T.env n data len deadline s w = (none,v)) :
    v.sent = (List.range (pushCount len t.1),(List.range (pushCount len t.1)).map data) := by
  rcases hd : SmiCs.done.test (T.cs t.2)
  · obtain ⟨x,u,hx,hrest⟩ := lite_writeAwaitRound_rest len ht hd
    exact hrest.stuck ((hx n).symm.trans hr)
  · have hvalue : w.value T.env smioCs = T.cs w.dev.polls := rfl
    rw [← ht.polls] at hd
    simp [Lite.writeAwaitRound,bind_apply,hvalue,hd] at hr

theorem dropLast_pushed (data : ℕ → Word) (len : ℤ) (k : ℕ) :
    ((List.range (pushCount len k)).map data).dropLast <+: (List.range k).map data := by
  unfold pushCount
  split
  · have hlast : ((List.range (k+1)).map data).dropLast = (List.range k).map data := by
      rw [List.range_succ,List.map_append,List.map_singleton,List.dropLast_concat]
    exact ⟨[],(List.append_nil _).trans hlast⟩
  · exact List.dropLast_prefix _

section Read

/-- What a read call returns for the result of its loop. -/
def resultCode : Except ℤ ℕ → ℤ
  | .error code => code
  | .ok count => count

/-- The end of a read call, which polls once more and may report. -/
def Finishes (deadline : ℤ) (fin : Except ℤ ℕ → Drv PollState ℤ) : Prop :=
  ∀ r w, ∃ v, fin r w = (some (resultCode r),v) ∧ v.memory = w.memory ∧
    (v.Expired deadline ↔ w.Expired deadline)

theorem finishes_readAwaitEnd (env : Env PollState) (deadline len : ℤ) :
    Finishes deadline (readAwaitEnd env len) := by
  rintro (code | count) w
  · exact ⟨w,rfl,rfl,Iff.rfl⟩
  · have hvalue (msg : String) : (w.report msg).value env smioCs = w.value env smioCs := rfl
    by_cases hc : (count : ℤ) < len <;>
      rcases hp : SmiCs.rxd.test (w.value env smioCs) <;>
      refine ⟨_,by simp [readAwaitEnd,bind_apply,hc,hvalue,hp]; exact ⟨rfl,rfl⟩,by simp,by simp⟩

theorem finishes_lite (env : Env PollState) (deadline : ℤ) :
    Finishes deadline (Lite.readAwaitEnd env) := by
  rintro (code | count) w
  · exact ⟨w,rfl,rfl,Iff.rfl⟩
  · rcases hp : SmiCs.rxd.test (w.value env smioCs) <;>
      refine ⟨_,by simp [Lite.readAwaitEnd,bind_apply,hp]; exact ⟨rfl,rfl⟩,by simp,by simp⟩

variable {ret : Ptr} {m : Memory} {body body' : Poll → Drv PollState (Poll ⊕ Except ℤ ℕ)}
  {code code' : ℤ} {fin fin' : Except ℤ ℕ → Drv PollState ℤ}
  (h : Follows (fun t o => o = readStep T len t) (fun _ => body) (ReadAt deadline ret m)
    (ReadOut deadline ret m) (GivesUp deadline (.error code)))
  (hfin : Finishes deadline fin) {t : List Word × ℕ} {s : Poll} {w : World PollState}
  (ht : ReadAt deadline ret m t s w)

include h hfin ht

theorem readLoop_matched (h' : Follows (fun t o => o = readStep T len t) (fun _ => body')
      (ReadAt deadline ret m) (ReadOut deadline ret m) (GivesUp deadline (.error code')))
    (hfin' : Finishes deadline fin') : MatchedBy World.memory deadline
      (fun n => loop body n s >>= fin) (fun n => loop body' n s >>= fin') w := by
  intro fuel r v hr
  simp only at hr
  rcases hx : loop body fuel s w with ⟨_ | o,u⟩
  · rw [bind_run_none hx] at hr
    cases hr
  · obtain ⟨v₁,hrun,hmem,hexp⟩ := hfin o u
    rw [bind_run hx,hrun] at hr
    cases hr
    rcases h.matched (deterministic_fun _) h' (n := fuel) ht ht hx with
      ⟨-,he⟩ | ⟨ws,o',u',hout,hends,hor⟩
    · exact .inl (hexp.mpr he)
    · obtain ⟨v',hrun',hmem',hexp'⟩ := hfin' o' u'
      refine .inr ⟨_,v',ends_bind hends.ends (ends_of_run hrun'),?_⟩
      rcases hor with ⟨-,he⟩ | hout'
      · exact .inl (hexp'.mpr he)
      · refine .inr ⟨.inl ?_,?_⟩
        · rw [hout.result,hout'.result]
        · rw [hmem,hmem',hout.memory,hout'.memory]

theorem readLoop_negative (hcode : code < 0) {n : ℕ} {r : ℤ} {v : World PollState}
    (hr : (loop body n s >>= fin) w = (some r,v)) : r < 0 ↔ v.Expired deadline := by
  rcases hx : loop body n s w with ⟨_ | o,u⟩
  · rw [bind_run_none hx] at hr
    cases hr
  · obtain ⟨v₁,hrun,-,hexp⟩ := hfin o u
    rw [bind_run hx,hrun] at hr
    cases hr
    rw [hexp]
    rcases h.returns (n := n) ht hx with ⟨rfl,he⟩ | ⟨ws,-,hout⟩
    · exact iff_of_true hcode he
    · rw [hout.result]
      exact iff_of_false (Int.not_lt.mpr (Int.natCast_nonneg _)) hout.inTime

end Read

end Calls

/-- The two read waits, on one trace. -/
structure ReadsAgree (T : PollTrace) (ret : Ptr) (len : ℤ) (w : World PollState) : Prop where
  toLite : MatchedBy World.memory (w.deadline T.env progReadTimeoutS)
    (fun fuel => smiReadAwait T.env fuel ret len)
    (fun fuel => Lite.smiReadAwait T.env fuel ret len) w
  ofLite : MatchedBy World.memory (w.deadline T.env progReadTimeoutS)
    (fun fuel => Lite.smiReadAwait T.env fuel ret len)
    (fun fuel => smiReadAwait T.env fuel ret len) w
  negative (fuel : ℕ) (r : ℤ) (v : World PollState) :
    Lite.smiReadAwait T.env fuel ret len w = (some r,v) →
      (r < 0 ↔ ret = .null ∨ v.Expired (w.deadline T.env progReadTimeoutS))

structure WritesAgree (T : PollTrace) (data : Option (ℕ → Word)) (len : ℤ)
    (w : World PollState) : Prop where
  toLite : MatchedBy World.sent (w.deadline T.env progWriteTimeoutS)
    (fun fuel => smiWriteAwait T.env fuel data len)
    (fun fuel => Lite.smiWriteAwait T.env fuel data len) w
  ofLite : MatchedBy World.sent (w.deadline T.env progWriteTimeoutS)
    (fun fuel => Lite.smiWriteAwait T.env fuel data len)
    (fun fuel => smiWriteAwait T.env fuel data len) w
  negative (fuel : ℕ) (r : ℤ) (v : World PollState) :
    smiWriteAwait T.env fuel data len w = (some r,v) ∨
      Lite.smiWriteAwait T.env fuel data len w = (some r,v) →
    (r < 0 ↔ data = none ∨ v.Expired (w.deadline T.env progWriteTimeoutS))
  level : KeepsUp id (w.deadline T.env progWriteTimeoutS)
    (fun fuel => smiWriteAwait T.env fuel data len)
    (fun fuel => Lite.smiWriteAwait T.env fuel data len) w
  ahead : KeepsUp List.dropLast (w.deadline T.env progWriteTimeoutS)
    (fun fuel => Lite.smiWriteAwait T.env fuel data len)
    (fun fuel => smiWriteAwait T.env fuel data len) w

section Agreement

variable (T : PollTrace) (len : ℤ) (w : World PollState)

theorem readAt_start (ret : Ptr) : ReadAt (w.fresh.deadline T.env progReadTimeoutS) ret
    w.fresh.memory ([],w.dev.polls) ⟨0,0⟩ (w.fresh.clocked T.env) where
  count := rfl
  polls := rfl
  memory := by simp [World.clocked,Memory.storeAll]
  inTime := inTime_clocked T.env w

theorem writeAt_start (data : ℕ → Word) : WriteAt (w.fresh.deadline T.env progWriteTimeoutS) data
    (0,w.dev.polls) ⟨0,0⟩ (w.fresh.clocked T.env) where
  count := rfl
  polls := rfl
  sent := by simp [SentPrefix,World.clocked]
  inTime := inTime_clocked T.env w

theorem lite_smiReadAwait_run {ret : Ptr} (hp : ret ≠ .null) (fuel : ℕ) (w : World PollState) :
    Lite.smiReadAwait T.env fuel ret len w =
      (loop (Lite.readAwaitRound T.env ret len (w.deadline T.env progReadTimeoutS)) fuel ⟨0,0⟩ >>=
        Lite.readAwaitEnd T.env) (w.clocked T.env) := by
  simp only [Lite.smiReadAwait,hp,if_false,bind_apply,startTimeout_run]

theorem readsAgree (ret : Ptr) : ReadsAgree T ret len w.fresh := by
  by_cases hp : ret = .null
  · subst hp
    refine ⟨matchedBy_codes (by decide) (by decide),matchedBy_codes (by decide) (by decide),?_⟩
    rintro fuel r v ⟨⟩
    simp [Lite.eInval]
  · have hstart := readAt_start T w ret
    have hsmi := finishes_readAwaitEnd T.env (w.fresh.deadline T.env progReadTimeoutS) len
    have hlite := finishes_lite T.env (w.fresh.deadline T.env progReadTimeoutS)
    have hrun (fuel : ℕ) : smiReadAwait T.env fuel ret len w.fresh = _ :=
      smiReadAwait_run hp fuel len w.fresh
    have hrun' (fuel : ℕ) := lite_smiReadAwait_run T len hp fuel w.fresh
    have hfollows : Follows (fun t o => o = readStep T len t) _
      (ReadAt (w.fresh.deadline T.env progReadTimeoutS) ret w.fresh.memory) _ _ :=
      lite_readAwaitRound_follows
    refine ⟨.of_entry hrun hrun' ?_,.of_entry hrun' hrun ?_,fun fuel r v hr => ?_⟩
    · exact readLoop_matched readAwaitRound_follows hsmi hstart lite_readAwaitRound_follows hlite
    · exact readLoop_matched lite_readAwaitRound_follows hlite hstart readAwaitRound_follows hsmi
    · rw [hrun'] at hr
      rw [readLoop_negative hfollows hlite hstart (by decide) hr]
      simp [hp]

theorem writesAgree (data : Option (ℕ → Word)) : WritesAgree T data len w.fresh := by
  cases data with
  | none =>
    refine ⟨matchedBy_codes (by decide) (by decide),matchedBy_codes (by decide) (by decide),?_,
      fun fuel => .inr ⟨0,.inr List.prefix_rfl⟩,fun fuel => .inr ⟨0,.inr (List.dropLast_prefix _)⟩⟩
    rintro fuel r v (⟨⟨⟩⟩ | ⟨⟨⟩⟩) <;> simp [smiErrNullPtr]
  | some data =>
    have hstart := writeAt_start T w data
    have hrun (fuel : ℕ) : smiWriteAwait T.env fuel (some data) len w.fresh = _ :=
      smiWriteAwait_run fuel len w.fresh
    have hrun' (fuel : ℕ) : Lite.smiWriteAwait T.env fuel (some data) len w.fresh =
        loop (Lite.writeAwaitRound T.env fuel data len
          (w.fresh.deadline T.env progWriteTimeoutS)) fuel ⟨0,0⟩ (w.fresh.clocked T.env) := rfl
    have hsmi : Follows (WriteStep T len) _
      (WriteAt (w.fresh.deadline T.env progWriteTimeoutS) data) _ _ := writeAwaitRound_follows
    have hlite : Follows (WriteStep T len) _
      (WriteAt (w.fresh.deadline T.env progWriteTimeoutS) data) _ _ := lite_writeAwaitRound_follows
    refine ⟨.of_entry hrun hrun' fun _ _ _ hr => writeLoop_matched hsmi hlite hstart hr,
      .of_entry hrun' hrun fun _ _ _ hr => writeLoop_matched hlite hsmi hstart hr,?_,
      .of_entry hrun hrun' ?_,.of_entry hrun' hrun ?_⟩
    · rintro fuel r v (hr | hr)
      · rw [hrun] at hr
        rw [writeLoop_negative hsmi hstart (by decide) hr]
        simp
      · rw [hrun'] at hr
        rw [writeLoop_negative hlite hstart (by decide) hr]
        simp
    · refine writeLoop_keepsUp hsmi hlite hstart (fun _ => List.prefix_rfl)
        (fun n t s w v ht hr => ?_) fun n s => keeps_lite_writeAwaitRound (logGrows_steps _)
          (fun _ _ => trivial) trivial _ _ _ _ _
      rw [writeAwaitRound_stuck ht hr]
      exact List.prefix_rfl
    · refine writeLoop_keepsUp hlite hsmi hstart List.dropLast_prefix (fun n t s w v ht hr => ?_)
        fun n s => keeps_writeAwaitRound (logGrows_steps _) _ _ (fun _ _ => trivial) trivial _ _ _
      rw [lite_writeAwaitRound_stuck ht hr]
      exact dropLast_pushed data len t.1

/-- On every trace the two versions of either wait return together and with the same effect, unless
one of them finds its deadline reached, which a negative code then tells; and at no time has
`smilite.h` pushed less than `smi.c`, or more than one word beyond it. -/
theorem smiLite_agrees (T : PollTrace) (w : World PollState) :
    (∀ ret len, ReadsAgree T ret len w.fresh) ∧ ∀ data len, WritesAgree T data len w.fresh :=
  ⟨fun ret len => readsAgree T len w ret,fun data len => writesAgree T len w data⟩

end Agreement

def Succeeds {γ : Type} (f : World PollState → γ) (call : ℕ → Drv PollState ℤ)
    (w : World PollState) (r : ℤ) (g : γ) : Prop :=
  ∃ fuel v, call fuel w = (some r,v) ∧ 0 ≤ r ∧ f v = g

/-- One version can be put in the place of the other. -/
structure DropIn (T : PollTrace) (w : World PollState) : Prop where
  read (ret : Ptr) (len r : ℤ) (m : Memory) :
    Succeeds World.memory (fun fuel => Lite.smiReadAwait T.env fuel ret len) w r m ↔
      Succeeds World.memory (fun fuel => smiReadAwait T.env fuel ret len) w r m
  pushes (data : Option (ℕ → Word)) (len : ℤ) (l : List Word) :
    (∃ fuel, l <+: (Lite.smiWriteAwait T.env fuel data len w).2.sent.2) ↔
      ∃ fuel, l <+: (smiWriteAwait T.env fuel data len w).2.sent.2
  write (data : Option (ℕ → Word)) (len : ℤ) :
    (∃ r g, Succeeds World.sent (fun fuel => Lite.smiWriteAwait T.env fuel data len) w r g) ↔
      ∃ r g, Succeeds World.sent (fun fuel => smiWriteAwait T.env fuel data len) w r g

def busyTrace : PollTrace where
  cs _ := 0x08000000#32
  words _ := 7
  clock _ i := i*60000000000
  limits := .default

theorem busyTrace_rxd (s : PollState) : busyTrace.env.flag SmiCs.rxd s = true := by
  have hp : SmiCs.rxd.test 0x08000000#32 = true := by decide
  exact hp

theorem busyTrace_arrivals (deadline : ℤ) (n spin : ℕ) (s : PollState) :
    ∃ ws t, Arrivals busyTrace.env deadline n spin s ws false t := by
  induction n generalizing spin s with
  | zero => exact ⟨_,_,.full⟩
  | succ n ih =>
    obtain ⟨ws,t,ht⟩ := ih 0 (busyTrace.env.readReg smioD (busyTrace.env.polled s)).2
    exact ⟨_,t,.word (busyTrace_rxd s) ht⟩

/-- The spin count of `smilite.h` counts the words too. -/
theorem busyTrace_round {len : ℤ} (deadline : ℤ) {count : ℕ} (hlt : (count : ℤ) < len)
    (w : World PollState) : ∃ v, v.dev.readings = w.dev.readings ∧
      Lite.readAwaitRound busyTrace.env .caller len deadline ⟨count,count⟩ w =
        Lite.readCheck busyTrace.env deadline ⟨count+1,count⟩ v := by
  have hrxd : SmiCs.rxd.test (w.value busyTrace.env smioCs) = true := busyTrace_rxd w.dev
  refine ⟨((w.read busyTrace.env smioCs).read busyTrace.env smioD).store .caller count
    ((w.read busyTrace.env smioCs).value busyTrace.env smioD),rfl,?_⟩
  simp [Lite.readAwaitRound,hlt,bind_apply,hrxd]

theorem busyTrace_loop {len deadline : ℤ} (hlen : len = 1026) (hd : deadline ≤ 60000000000)
    (fuel : ℕ) {w : World PollState} (hw : 1 ≤ w.dev.readings) :
    Post (loop (Lite.readAwaitRound busyTrace.env .caller len deadline) fuel ⟨0,0⟩) w
      (fun o _ => o = .error (-eTimedOut)) (fun _ => True) := by
  refine post_loop (fun s w => s.count = s.spin ∧ (s.spin : ℤ) < len ∧ 1 ≤ w.dev.readings)
    (fun _ _ _ => trivial) (fun s w hi => ?_) fuel _ _ ⟨rfl,by simp [hlen],hw⟩
  obtain ⟨count,spin⟩ := s
  obtain ⟨hcount,hlt,hread⟩ := hi
  simp only at hcount hlt
  subst hcount
  obtain ⟨v,hv,hround⟩ := busyTrace_round deadline hlt w
  rw [← hv] at hread
  by_cases hask : 1024 < count
  · have hlate : deadline ≤ (busyTrace.env.clockGettime v.dev).1 := by
      simp only [PollTrace.env,busyTrace]
      omega
    have hx : Lite.expired busyTrace.env deadline count v =
        (some true,v.after (busyTrace.env.timeoutComplete deadline v.dev)) := by
      simp [Lite.expired,hask,Env.timeoutComplete,hlate]
    rw [Post,hround,Lite.readCheck,bind_run hx]
    rfl
  · have hx : Lite.expired busyTrace.env deadline count v = (some false,v) := by
      simp [Lite.expired,hask]
    rw [Post,hround,Lite.readCheck,bind_run hx]
    exact ⟨rfl,by simp only; omega,hread⟩

theorem busyTrace_lite (fuel : ℕ) {r : ℤ} {v : World PollState}
    (hr : Lite.smiReadAwait busyTrace.env fuel .caller 1026 (World.init ⟨0,0⟩).fresh =
      (some r,v)) : r = -eTimedOut := by
  rw [lite_smiReadAwait_run busyTrace 1026 (by decide)] at hr
  have hdl : (World.init (⟨0,0⟩ : PollState)).fresh.deadline busyTrace.env progReadTimeoutS ≤
      60000000000 := by decide
  have hw : 1 ≤ ((World.init (⟨0,0⟩ : PollState)).fresh.clocked busyTrace.env).dev.readings :=
    le_rfl
  have hloop := busyTrace_loop rfl hdl fuel hw
  rcases hx : loop (Lite.readAwaitRound busyTrace.env .caller 1026
      ((World.init ⟨0,0⟩).fresh.deadline busyTrace.env progReadTimeoutS)) fuel ⟨0,0⟩
      ((World.init ⟨0,0⟩).fresh.clocked busyTrace.env) with ⟨_ | o,u⟩
  · rw [bind_run_none hx] at hr
    cases hr
  · obtain rfl := (hloop.elim hx).1 o rfl
    rw [bind_run hx] at hr
    cases hr
    rfl

/-- 1026 words, each there when it is polled for: `smi.c` returns them without a look at the clock,
`smilite.h` looks after the last one and gives up. -/
theorem smiLite_not_dropIn : ¬ ∀ (T : PollTrace) (w : World PollState), T.Monotone →
    DropIn T w.fresh := by
  intro h
  have hmono : busyTrace.Monotone := by
    intro p q i j _ hij
    simp only [busyTrace]
    omega
  obtain ⟨ws,t,ht⟩ := busyTrace_arrivals ((World.init ⟨0,0⟩).fresh.deadline busyTrace.env
    progReadTimeoutS) (1026 : ℤ).toNat 0 ((World.init ⟨0,0⟩).fresh.clocked busyTrace.env).dev
  obtain ⟨w',⟨N,hN⟩,-⟩ := smiReadAwait_ends (show Ptr.caller ≠ .null by decide) 1026 ht
  have hsmi := hN N le_rfl
  simp only [Bool.false_eq_true,if_false] at hsmi
  obtain ⟨fuel,v,hr,hpos,-⟩ := ((h busyTrace (World.init ⟨0,0⟩) hmono).read .caller 1026 _
    w'.memory).mpr ⟨N,w',hsmi,Int.natCast_nonneg _,rfl⟩
  rw [busyTrace_lite fuel hr] at hpos
  exact absurd hpos (by decide)

end RpiSmi
