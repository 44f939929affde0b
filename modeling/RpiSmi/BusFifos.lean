import RpiSmi.BusRest
import RpiSmi.ReadRuns
import RpiSmi.WriteAwait

/-!
# Programmed transfers on the bus

The driver takes the words of a programmed read from the RX FIFO, and puts those of
a programmed write into the TX FIFO, that the DMA engine uses as well. Either way
nothing from before CLEAR is among them.
-/

namespace RpiSmi

open Exec BitField Elements

section Reads

variable {T : DmaTrace} {m₀ : Word → Word} {finished : Bool} {ctrlBlk : Word}

/-- `ws` are the first words that arrived since CLEAR, the others are in the RX FIFO. -/
def Popped (m₀ : Word → Word) (ws : List Word) (x : BusData) : Prop :=
  x.mem = m₀ ∧ x.arrived = ws ++ x.rx

theorem stable_popped (ws : List Word) : Stable T (AtRest (Popped m₀ ws) finished ctrlBlk) := by
  refine stable_atRest (fun v x hx => ⟨hx.1,?_⟩) (fun x hx => hx) _ _
  simp only [BusData.arrive,hx.2,List.append_assoc]

theorem AtRest.pop {ws : List Word} {v : Word} {rest : List Word} {s : DmaSys}
    (h : AtRest (Popped m₀ ws) finished ctrlBlk s) (hx : s.data.rx = v::rest) (t : ℕ) :
    T.device.value smioD t s = v ∧
    AtRest (Popped m₀ (ws ++ [v])) finished ctrlBlk (T.device.onRead smioD s) := by
  have htake : T.take T.port s.data = (v,{ s.data with rx := rest }) := by
    simp only [DmaTrace.take,if_true,hx,List.headD_cons,List.tail_cons]
  constructor
  · rw [T.value_data,htake]
  · rw [T.onRead_data,htake]
    refine ⟨h.job,h.active,h.finished,h.ctrlBlk,h.data.1,?_⟩
    rw [h.data.2,hx,List.append_assoc]
    rfl

def PopAt (m₀ : Word → Word) (finished : Bool) (ctrlBlk : Word) (m : Memory) (count : ℕ)
    (w : World (ℕ × DmaSys)) : Prop :=
  ∃ ws : List Word, ws.length = count ∧ w.memory = Memory.storeAll .rawBuffer 0 ws m ∧
    AtRest (Popped m₀ ws) finished ctrlBlk w.dev.2

variable {m : Memory} {count : ℕ} {w : World (ℕ × DmaSys)}

theorem PopAt.leaves {w' : World (ℕ × DmaSys)} (h : PopAt m₀ finished ctrlBlk m count w)
    (hm : w'.memory = w.memory)
    (hd : ∀ ws, AtRest (Popped m₀ ws) finished ctrlBlk w.dev.2 →
      AtRest (Popped m₀ ws) finished ctrlBlk w'.dev.2) : PopAt m₀ finished ctrlBlk m count w' := by
  obtain ⟨ws,hl,hw,hr⟩ := h
  exact ⟨ws,hl,hm.trans hw,hd ws hr⟩

theorem PopAt.poll (h : PopAt m₀ finished ctrlBlk m count w) :
    PopAt m₀ finished ctrlBlk m count (w.read T.env smioCs) :=
  h.leaves (memory_read _ _ _) fun ws hr => (stable_popped ws).read (by decide) hr

theorem PopAt.clock (h : PopAt m₀ finished ctrlBlk m count w) :
    PopAt m₀ finished ctrlBlk m count (w.clocked T.env) :=
  h.leaves (World.memory_after _ _) fun ws hr => (stable_popped ws).clocked hr

theorem PopAt.rest (h : PopAt m₀ finished ctrlBlk m count w) :
    AtRest (fun x => x.mem = m₀) finished ctrlBlk w.dev.2 := by
  obtain ⟨ws,-,-,hr⟩ := h
  exact { hr with data := hr.data.1 }

theorem PopAt.word (h : PopAt m₀ finished ctrlBlk m count w)
    (hp : T.env.flag SmiCs.rxd w.dev = true) :
    PopAt m₀ finished ctrlBlk m (count+1) (((w.read T.env smioCs).read T.env smioD).store
      .rawBuffer count (T.env.readReg smioD (T.env.polled w.dev)).1) := by
  obtain ⟨ws,hl,hm,hr⟩ := h
  have hfirst : AtRest (fun x => Popped m₀ ws x ∧ x.rx ≠ []) finished ctrlBlk
      (T.device.before w.dev) := by
    have hb := (stable_popped (T := T) ws).before _ hr
    have hrxd : (!(T.device.before w.dev).data.rx.isEmpty) = true :=
      (T.value_smioCs w.dev.1 (T.device.before w.dev)).2.1.symm.trans hp
    refine { hb with data := ⟨hb.data,fun he => ?_⟩ }
    rw [he] at hrxd
    cases hrxd
  have hstable : Stable T (AtRest (fun x => Popped m₀ ws x ∧ x.rx ≠ []) finished ctrlBlk) := by
    refine stable_atRest (fun v x hx => ⟨⟨hx.1.1,?_⟩,?_⟩) (fun x hx => hx) _ _
    · simp only [BusData.arrive,hx.1.2,List.append_assoc]
    · simp [BusData.arrive]
  have hsecond := hstable.before (w.read T.env smioCs).dev hfirst
  obtain ⟨v,rest,hx⟩ := List.exists_cons_of_ne_nil hsecond.data.2
  obtain ⟨hvalue,hpopped⟩ := AtRest.pop (T := T) { hsecond with data := hsecond.data.1 } hx
    (w.read T.env smioCs).dev.1
  have hword : (T.env.readReg smioD (T.env.polled w.dev)).1 = v := hvalue
  refine ⟨ws ++ [v],by rw [List.length_append,hl]; rfl,?_,hpopped⟩
  rw [memory_store,memory_read,memory_read,hm,hword,Memory.storeAll_concat,hl,
    Nat.zero_add]

def Awaited (m₀ : Word → Word) (finished : Bool) (ctrlBlk : Word) (m : Memory) (len : ℤ)
    (w : World (ℕ × DmaSys)) : Except ℤ ℕ → Prop
  | .ok count => count = len.toNat ∧ PopAt m₀ finished ctrlBlk m count w
  | .error code => code = -smiErrTimeout ∧ AtRest (fun x => x.mem = m₀) finished ctrlBlk w.dev.2

theorem readAwaitRound_bus {len : ℤ} (deadline : ℤ) {s : Poll} (hle : s.count ≤ len.toNat)
    (h : PopAt m₀ finished ctrlBlk m s.count w) :
    Post (readAwaitRound T.env .rawBuffer len deadline s) w
      (fun r w' => Sum.elim
        (fun s' => s'.count ≤ len.toNat ∧ PopAt m₀ finished ctrlBlk m s'.count w')
        (fun a => Awaited m₀ finished ctrlBlk m len w' a) r)
      (fun w' => AtRest (fun x => x.mem = m₀) finished ctrlBlk w'.dev.2) := by
  by_cases hlen : (s.count : ℤ) < len
  · rcases hp : T.env.flag SmiCs.rxd w.dev
    · have hcheck : PopAt m₀ finished ctrlBlk m s.count ((w.read T.env smioCs).after
          (T.env.spinExpired deadline s.spin (T.env.polled w.dev))) :=
        World.after_spinExpired (fun v hv => hv.clock) deadline s.spin h.poll
      rcases hx : (T.env.spinExpired deadline s.spin (T.env.polled w.dev)).expired
      · exact post_of_run (readAwaitRound_idle hlen hp hx) ⟨hle,hcheck⟩
      · refine post_of_run (readAwaitRound_late hlen hp hx) ⟨rfl,?_⟩
        exact (leavesBus_steps T).assign smioCs SmiCs.clear 1 _ ⟨0,rfl⟩ _ _ _ hcheck.rest
    · exact post_of_run (readAwaitRound_word hlen hp) ⟨by simp only; omega,h.word hp⟩
  · exact post_of_run (readAwaitRound_full hlen) ⟨by omega,h⟩

theorem smiReadAwait_bus (len : ℤ) (fuel : ℕ) (h : PopAt m₀ finished ctrlBlk m 0 w) :
    Post (smiReadAwait T.env fuel .rawBuffer len) w
      (fun r w' => (r = len.toNat ∧ PopAt m₀ finished ctrlBlk m len.toNat w') ∨
        (r = -smiErrTimeout ∧ AtRest (fun x => x.mem = m₀) finished ctrlBlk w'.dev.2))
      (fun w' => AtRest (fun x => x.mem = m₀) finished ctrlBlk w'.dev.2) := by
  let I : Poll → World (ℕ × DmaSys) → Prop := fun s v =>
    s.count ≤ len.toNat ∧ PopAt m₀ finished ctrlBlk m s.count v
  have hloop := post_loop I (fun _ _ h => h.2.rest)
    (fun s v h => readAwaitRound_bus (T := T) (w.deadline T.env progReadTimeoutS) h.1 h.2)
    fuel ⟨0,0⟩ _ ⟨Nat.zero_le _,h.clock (T := T)⟩
  simp only [Post,smiReadAwait_run (show Ptr.rawBuffer ≠ .null by decide)]
  refine post_bind (hloop.mono ?_ fun _ h => h)
  rintro (code | count) v hv
  · exact post_of_run (readAwaitEnd_error len code v) (.inr hv)
  · obtain ⟨rfl,hv⟩ := hv
    rcases hp : SmiCs.rxd.test (v.value T.env smioCs)
    · have hrun : readAwaitEnd T.env len (.ok len.toNat) v =
          (some (len.toNat : ℤ),v.read T.env smioCs) := by
        simp [readAwaitEnd,bind_apply,hp]
      exact post_of_run hrun (.inl ⟨rfl,hv.poll⟩)
    · have hrun : readAwaitEnd T.env len (.ok len.toNat) v = (some (len.toNat : ℤ),
          (v.read T.env smioCs).report "Leftover data in the RX FIFO") := by
        simp [readAwaitEnd,bind_apply,hp]
      exact post_of_run hrun (.inl ⟨rfl,hv.poll.leaves (memory_report _ _) fun _ hr => hr⟩)

theorem readSetup_calm (cxt : SmiCxt) (addr : BitVec 8) (len : ℤ) :
    ∀ op ∈ (programmedReadSetup cxt addr len).take 9 ++ (programmedReadSetup cxt addr len).drop 10,
      op.Calm := by
  simp [programmedReadSetup,smiStart,RegOp.Calm,RegOp.In,smioCs,smioA,smioL,smioDsr,smioDsw]
  refine ⟨by omega,by omega,?_⟩
  decide

theorem readSetup_popped {cxt : SmiCxt} {addr : BitVec 8} {len : ℤ}
    (h : AtRest (fun x => x.mem = m₀) finished ctrlBlk w.dev.2) :
    AtRest (Popped m₀ []) finished ctrlBlk
      (w.apply T.env (programmedReadSetup cxt addr len)).dev.2 := by
  have hcalm := readSetup_calm cxt addr len
  have hsplit : programmedReadSetup cxt addr len = (programmedReadSetup cxt addr len).take 9 ++
      .field smioCs SmiCs.clear 1::(programmedReadSetup cxt addr len).drop 10 := rfl
  have hbefore := (stable_mem T m₀ finished ctrlBlk).apply
    (fun op ho => hcalm op (List.mem_append_left _ ho)) h
  have hclear : AtRest (Popped m₀ []) finished ctrlBlk
      ((w.apply T.env ((programmedReadSetup cxt addr len).take 9)).assign T.env smioCs
        SmiCs.clear 1).dev.2 :=
    clear_atRest (P := fun _ => Popped m₀ []) (fun x hx => ⟨hx,rfl⟩) hbefore
  rw [hsplit,World.apply_append,World.apply_field]
  exact (stable_popped []).apply (fun op ho => hcalm op (List.mem_append_right _ ho)) hclear

/-- What a programmed read comes to. It changes no memory on the bus. If it returns the length, and
this is not what it returns after a timeout, its caller has been handed what the first words that
arrived since CLEAR decode to, and those that came later are in the FIFO. -/
structure Delivered (cxt : SmiCxt) (len : ℤ) (m₀ : Word → Word)
    (x : Option ℤ × World (ℕ × DmaSys)) : Prop where
  mem : x.2.dev.2.data.mem = m₀
  code : ∀ r ∈ x.1, r = wordReads cxt len ∨ r = -smiErrTimeout ∨ r = -1
  words : wordReads cxt len ≠ -smiErrTimeout → x.1 = some (wordReads cxt len) → ∃ ws : List Word,
    (ws.length : ℤ) = wordReads cxt len ∧ x.2.dev.2.data.arrived = ws ++ x.2.dev.2.data.rx ∧
    x.2.retData = decodeBytes cxt (fun i => ws.getD i 0) (wordReads cxt len) (wordReads cxt len)
      empty

variable {cxt : SmiCxt} {addr : BitVec 8} {len : ℤ}

theorem refused_delivered (hlen : 0 ≤ len) (he : readEntry T.env cxt addr len w = none)
    (h : AtRest (fun x => x.mem = m₀) finished ctrlBlk w.dev.2) (fuel : ℕ) :
    AtRest (fun x => x.mem = m₀) finished ctrlBlk
      (smiProgrammedReadArr T.env fuel cxt addr len w).2.dev.2 ∧
    Delivered cxt len m₀ (smiProgrammedReadArr T.env fuel cxt addr len w) := by
  have hsteps := leavesBus_steps T
  have hrest := keeps_growRawBuffer hsteps (wordReads cxt len) (ratioWorld cxt w) m₀ finished
    ctrlBlk (keeps_ratioWorld hsteps cxt w m₀ finished ctrlBlk h)
  obtain ⟨n,rfl⟩ := Int.eq_ofNat_of_zero_le hlen
  have hwords := wordReads_eq cxt n
  rw [smiProgrammedReadArr_refused he]
  refine ⟨hrest,hrest.data,?_,?_⟩
  · rintro r ⟨⟩
    exact .inr (.inr rfl)
  · intro _ hr
    have hneg : -1 = wordReads cxt n := Option.some.inj hr
    omega

theorem taken_delivered (hlen : 0 ≤ len) (hfit : SizeFits cxt len.toNat)
    {v : World (ℕ × DmaSys)} (hret : w.retData = empty)
    (h : PopAt m₀ finished ctrlBlk w.memory (wordReads cxt len).toNat v) :
    ∃ w', (decodeRaw cxt (wordReads cxt len) (wordReads cxt len).toNat >>= fun _ =>
        pure ((wordReads cxt len).toNat : ℤ)) v = (some (wordReads cxt len),w') ∧
      AtRest (fun x => x.mem = m₀) finished ctrlBlk w'.dev.2 ∧
      Delivered cxt len m₀ (some (wordReads cxt len),w') := by
  obtain ⟨n,rfl⟩ := Int.eq_ofNat_of_zero_le hlen
  have hlt : (wordReads cxt n).toNat < 2^64 :=
    lt_trans (SizeFits.wordCount_lt hfit) (by decide)
  have hcount : ((wordReads cxt n).toNat : ℤ) = wordReads cxt n := (wordReads_eq cxt n).symm
  have hrest := h.rest
  obtain ⟨ws,hl,hm,hr⟩ := h
  obtain ⟨w',hd,hdev,hdata⟩ := decodeRaw_run cxt (wordReads cxt n) (wordReads cxt n).toNat v
  have hbuf : v.rawBuffer.buf = overlay ws w.rawBuffer.buf :=
    (congrArg (fun m => m.rawBuffer.buf) hm).trans (Memory.buf_storeAll_zero ws w.memory)
  have hempty : v.retData = empty := ((congrArg Memory.retData hm).trans
    (Memory.retData_storeAll_rawBuffer 0 ws w.memory)).trans hret
  have hrun := bind_run hd fun _ => pure ((wordReads cxt n).toNat : ℤ)
  rw [pure_run,hcount] at hrun
  rw [hcount] at hdata
  refine ⟨w',by rw [hcount]; exact hrun,by rw [hdev]; exact hrest,?_,?_,fun _ _ => ?_⟩
  · show w'.dev.2.data.mem = m₀
    rw [hdev]
    exact hrest.data
  · rintro r ⟨⟩
    exact .inl rfl
  · refine ⟨ws,by rw [hl,hcount],?_,?_⟩
    · show w'.dev.2.data.arrived = ws ++ w'.dev.2.data.rx
      rw [hdev]
      exact hr.data.2
    · show w'.retData = _
      rw [hdata,hbuf,hempty]
      refine decodeBytes_congr fun i hi => ?_
      have hsize : sizeT (wordReads cxt n) = ws.length :=
        (congrArg sizeT hcount.symm).trans ((sizeT_natCast hlt).trans hl.symm)
      rw [ite_self,hsize] at hi
      rw [overlay,List.getD,List.getElem?_eq_getElem hi]
      rfl

theorem late_delivered {v : World (ℕ × DmaSys)}
    (h : AtRest (fun x => x.mem = m₀) finished ctrlBlk v.dev.2) :
    ∃ w', (decodeRaw cxt (wordReads cxt len) (-smiErrTimeout) >>= fun _ =>
        pure (-smiErrTimeout)) v = (some (-smiErrTimeout),w') ∧
      AtRest (fun x => x.mem = m₀) finished ctrlBlk w'.dev.2 ∧
      Delivered cxt len m₀ (some (-smiErrTimeout),w') := by
  obtain ⟨w',hd,hdev,-⟩ := decodeRaw_run cxt (wordReads cxt len) (-smiErrTimeout) v
  rw [← hdev] at h
  refine ⟨w',bind_run hd _,h,h.data,?_,fun hne hr => absurd (Option.some.inj hr).symm hne⟩
  rintro r ⟨⟩
  exact .inr (.inl rfl)

theorem smiProgrammedReadArr_bus (addr : BitVec 8) (hlen : 0 ≤ len) (hfit : SizeFits cxt len.toNat)
    (h : AtRest (fun x => x.mem = m₀) finished ctrlBlk w.dev.2) (hret : w.retData = empty)
    (fuel : ℕ) :
    AtRest (fun x => x.mem = m₀) finished ctrlBlk
      (smiProgrammedReadArr T.env fuel cxt addr len w).2.dev.2 ∧
    Delivered cxt len m₀ (smiProgrammedReadArr T.env fuel cxt addr len w) := by
  rcases he : readEntry T.env cxt addr len w with _ | w₁
  · exact refused_delivered hlen he h fuel
  have hstart : PopAt m₀ finished ctrlBlk w₁.memory 0 w₁ := by
    have hsteps := leavesBus_steps T
    have hgrown := keeps_growRawBuffer hsteps (wordReads cxt len) (ratioWorld cxt w) m₀ finished
      ctrlBlk (keeps_ratioWorld hsteps cxt w m₀ finished ctrlBlk h)
    unfold readEntry at he
    split at he
    case h_1 u hg =>
      cases he
      rw [hg] at hgrown
      exact ⟨[],rfl,rfl,readSetup_popped hgrown⟩
    case h_2 => cases he
  have hret₁ : w₁.retData = empty := (retData_readEntry he).trans hret
  have hawait := smiReadAwait_bus (T := T) (wordReads cxt len) fuel hstart
  rw [smiProgrammedReadArr_run he]
  rcases hx : smiReadAwait T.env fuel .rawBuffer (wordReads cxt len) w₁ with ⟨_ | r,v⟩
  · have hrest := (hawait.elim hx).2 rfl
    rw [bind_run_none hx]
    refine ⟨hrest,hrest.data,?_,?_⟩
    · exact fun r hr => absurd hr (Option.not_mem_none r)
    · exact fun _ hr => absurd hr.symm (Option.some_ne_none _)
  · rw [bind_run hx]
    rcases (hawait.elim hx).1 r rfl with ⟨rfl,hv⟩ | ⟨rfl,hv⟩
    · obtain ⟨w',hrun,hrest,hdelivered⟩ := taken_delivered hlen hfit hret₁ hv
      rw [hrun]
      exact ⟨hrest,hdelivered⟩
    · obtain ⟨w',hrun,hrest,hdelivered⟩ := late_delivered hv
      rw [hrun]
      exact ⟨hrest,hdelivered⟩

end Reads

section Writes

variable {T : DmaTrace} {m₀ : Word → Word} {finished : Bool} {ctrlBlk : Word} {data : ℕ → Word}
  {n : ℕ} {w : World (ℕ × DmaSys)}

/-- The first `n` words of the array were sent since CLEAR, in order, and nothing else. -/
def Pushed (m₀ : Word → Word) (data : ℕ → Word) (n : ℕ) (x : BusData) : Prop :=
  x.mem = m₀ ∧ x.sent = (List.range n).map data

theorem stable_pushed : Stable T (AtRest (Pushed m₀ data n) finished ctrlBlk) :=
  stable_atRest (fun _ _ h => h) (fun _ h => h) _ _

theorem stable_room : Stable T
    (AtRest (fun x => Pushed m₀ data n x ∧ x.tx.length < T.depth) finished ctrlBlk) := by
  refine stable_atRest (fun _ _ h => h) (fun x hx => ⟨hx.1,?_⟩) _ _
  have hroom := hx.2
  simp only [BusData.drain,List.length_tail]
  omega

theorem AtRest.push (hw : AtRest (fun x => Pushed m₀ data n x ∧ x.tx.length < T.depth) finished
      ctrlBlk w.dev.2) : AtRest (Pushed m₀ data (n+1)) finished ctrlBlk
    ((w.fetch n).write T.env smioD (data n)).dev.2 := by
  have hb := stable_room.before w.dev hw
  have hdev : ((w.fetch n).write T.env smioD (data n)).dev.2 = { T.device.before w.dev with
      data := T.put T.port (data n) (T.device.before w.dev).data } := T.onWrite_data _ _
  rw [hdev]
  refine ⟨hb.job,hb.active,hb.finished,hb.ctrlBlk,?_,?_⟩
  · exact (T.mem_put_port _ _).trans hb.data.1.1
  · simp only [DmaTrace.put,if_true,hb.data.2,hb.data.1.2]
    rw [List.range_succ,List.map_append]
    rfl

theorem AtRest.cleared (h : AtRest (Pushed m₀ data n) finished ctrlBlk w.dev.2) :
    AtRest (Pushed m₀ data 0) finished ctrlBlk (w.assign T.env smioCs SmiCs.clear 1).dev.2 :=
  clear_atRest (P := fun _ => Pushed m₀ data 0) (fun _ hx => ⟨hx,rfl⟩) { h with data := h.data.1 }

/-- A wait that returns `a`: the words were pushed, or CLEAR has come after them. -/
def SendEnd (m₀ : Word → Word) (finished : Bool) (ctrlBlk : Word) (data : ℕ → Word) (len : ℤ)
    (a : ℤ) (w : World (ℕ × DmaSys)) : Prop :=
  ∃ n ≤ len.toNat+1, (n = 0 ∨ a = n) ∧ AtRest (Pushed m₀ data n) finished ctrlBlk w.dev.2

def RoomEnd (T : DmaTrace) (m₀ : Word → Word) (finished : Bool) (ctrlBlk : Word) (data : ℕ → Word)
    (n : ℕ) (len : ℤ) (w : World (ℕ × DmaSys)) : Except ℤ ℕ → Prop
  | .ok _ => AtRest (fun x => Pushed m₀ data n x ∧ x.tx.length < T.depth) finished ctrlBlk w.dev.2
  | .error code => SendEnd m₀ finished ctrlBlk data len code w

variable {len deadline : ℤ}

theorem AtRest.poll_pushed (h : AtRest (Pushed m₀ data n) finished ctrlBlk w.dev.2) :
    AtRest (Pushed m₀ data n) finished ctrlBlk (w.read T.env smioCs).dev.2 :=
  stable_pushed.read (by decide) h

theorem AtRest.check_pushed (h : AtRest (Pushed m₀ data n) finished ctrlBlk w.dev.2)
    (deadline : ℤ) (spin : ℕ) : AtRest (Pushed m₀ data n) finished ctrlBlk
      (w.after (T.env.spinExpired deadline spin w.dev)).dev.2 :=
  World.after_spinExpired
    (P := fun v : World (ℕ × DmaSys) => AtRest (Pushed m₀ data n) finished ctrlBlk v.dev.2)
    (fun _ hv => stable_pushed.clocked hv) deadline spin h

theorem txdRound_bus (spin : ℕ) (h : AtRest (Pushed m₀ data n) finished ctrlBlk w.dev.2) :
    Post (txdRound T.env deadline spin) w
      (fun r w' => Sum.elim (fun _ => AtRest (Pushed m₀ data n) finished ctrlBlk w'.dev.2)
        (fun a => RoomEnd T m₀ finished ctrlBlk data n len w' a) r)
      (fun w' => AtRest (Pushed m₀ data n) finished ctrlBlk w'.dev.2) := by
  refine post_step (readField_run _ _ _ _) ?_
  refine post_ite (fun ht => ?_) fun _ => ?_
  · have hb := (stable_pushed (T := T)).before _ h
    have hroom : (T.device.before w.dev).data.tx.length < T.depth :=
      of_decide_eq_true ((T.value_smioCs w.dev.1 (T.device.before w.dev)).2.2.symm.trans ht)
    exact post_of_run (pure_run _ _) { hb with data := ⟨hb.data,hroom⟩ }
  · have hcheck := (h.poll_pushed (T := T)).check_pushed (T := T) deadline spin
    refine post_step (spinExpired_run _ _ _ _) ?_
    refine post_ite (fun _ => ?_) fun _ => ?_
    · refine post_of_run rfl ⟨0,Nat.zero_le _,.inl rfl,?_⟩
      exact stable_pushed.assign (by decide) (fun _ => by decide) 1 hcheck.cleared
    · exact post_of_run (pure_run _ _) hcheck

theorem writeChecks_bus (spin : ℕ) (hle : n ≤ len.toNat+1)
    (h : AtRest (Pushed m₀ data n) finished ctrlBlk w.dev.2) :
    Post (writeChecks T.env deadline ⟨n,spin⟩) w
      (fun r w' => Sum.elim
        (fun s' => s'.count ≤ len.toNat+1 ∧
          AtRest (Pushed m₀ data s'.count) finished ctrlBlk w'.dev.2)
        (fun a => SendEnd m₀ finished ctrlBlk data len a w') r)
      (fun w' => ∃ k ≤ len.toNat+1, AtRest (Pushed m₀ data k) finished ctrlBlk w'.dev.2) := by
  have hcheck := h.check_pushed (T := T) deadline spin
  refine post_step (spinExpired_run _ _ _ _) ?_
  refine post_ite (fun _ => ?_) fun _ => ?_
  · refine post_of_run rfl ⟨0,Nat.zero_le _,.inl rfl,?_⟩
    exact stable_pushed.assign (by decide) (fun _ => by decide) 1 hcheck.cleared
  · have hpoll := hcheck.poll_pushed (T := T)
    refine post_step (readField_run _ _ _ _) ?_
    refine post_ite (fun _ => ?_) fun _ => ?_
    · refine post_of_run rfl ⟨0,Nat.zero_le _,.inl rfl,?_⟩
      have haferr : AtRest (Pushed m₀ data n) finished ctrlBlk
          ((((w.after (T.env.spinExpired deadline spin w.dev)).read T.env smioCs).report
            "Protected registers written to during write").assign T.env smioCs
              SmiCs.aferr 1).dev.2 :=
        stable_pushed.assign (by decide) (fun _ => by decide) 1 hpoll
      exact haferr.cleared
    · exact post_of_run (pure_run _ _) ⟨hle,hpoll⟩

theorem writeAwaitRound_bus (fuel : ℕ) {s : Poll} (hle : s.count ≤ len.toNat+1)
    (h : AtRest (Pushed m₀ data s.count) finished ctrlBlk w.dev.2) :
    Post (writeAwaitRound T.env fuel data len deadline s) w
      (fun r w' => Sum.elim
        (fun s' => s'.count ≤ len.toNat+1 ∧
          AtRest (Pushed m₀ data s'.count) finished ctrlBlk w'.dev.2)
        (fun a => SendEnd m₀ finished ctrlBlk data len a w') r)
      (fun w' => ∃ k ≤ len.toNat+1, AtRest (Pushed m₀ data k) finished ctrlBlk w'.dev.2) := by
  have hpoll := h.poll_pushed (T := T)
  refine post_step (readField_run _ _ _ _) ?_
  refine post_ite (fun _ => ?_) fun _ => ?_
  · exact post_of_run (pure_run _ _) ⟨_,hle,.inr rfl,hpoll⟩
  · let I : ℕ → World (ℕ × DmaSys) → Prop := fun _ v =>
      AtRest (Pushed m₀ data s.count) finished ctrlBlk v.dev.2
    have hwait : Post (loop (txdRound T.env deadline) fuel s.spin) (w.read T.env smioCs)
        (fun a v => RoomEnd T m₀ finished ctrlBlk data s.count len v a)
        (fun v => AtRest (Pushed m₀ data s.count) finished ctrlBlk v.dev.2) :=
      post_loop I (fun _ _ h => h) (fun spin v hv => txdRound_bus spin hv) fuel s.spin _ hpoll
    refine post_bind (hwait.mono ?_ fun _ h => ⟨s.count,hle,h⟩)
    rintro (code | spin) v hv
    · exact post_of_run (pure_run _ _) hv
    · by_cases hlen : (s.count : ℤ) < len+1
      · simp only [Post,writePush_run (s := ⟨s.count,spin⟩) hlen]
        exact writeChecks_bus spin (by omega) hv.push
      · simp only [writePush,hlen,if_false]
        exact writeChecks_bus spin hle { hv with data := hv.data.1 }

theorem smiWriteAwait_bus (data : Option (ℕ → Word)) (len : ℤ) (fuel : ℕ)
    (h : AtRest (Pushed m₀ (data.getD fun _ => 0) 0) finished ctrlBlk w.dev.2) :
    Post (smiWriteAwait T.env fuel data len) w
      (SendEnd m₀ finished ctrlBlk (data.getD fun _ => 0) len)
      (fun w' => ∃ k ≤ len.toNat+1,
        AtRest (Pushed m₀ (data.getD fun _ => 0) k) finished ctrlBlk w'.dev.2) := by
  cases data with
  | none => exact post_of_run (pure_run _ _) ⟨0,Nat.zero_le _,.inl rfl,h⟩
  | some data =>
    let I : Poll → World (ℕ × DmaSys) → Prop := fun s v =>
      s.count ≤ len.toNat+1 ∧ AtRest (Pushed m₀ data s.count) finished ctrlBlk v.dev.2
    have hclocked := (stable_pushed (T := T)).clocked h
    refine post_step (startTimeout_run _ _ _) ?_
    exact post_loop I
      (fun s _ h => ⟨s.count,h⟩) (fun s v h => writeAwaitRound_bus fuel h.1 h.2) fuel ⟨0,0⟩ _
      ⟨Nat.zero_le _,hclocked⟩

theorem writeSetup_calm (cxt : SmiCxt) (addr : BitVec 8) (len : ℤ) :
    ∀ op ∈ (programmedWriteSetup cxt addr len).take 5 ++ (programmedWriteSetup cxt addr len).drop 6,
      op.Calm := by
  simp [programmedWriteSetup,smiStart,RegOp.Calm,RegOp.In,smioCs,smioA,smioL]
  decide

theorem writeSetup_pushed {cxt : SmiCxt} {addr : BitVec 8}
    (h : AtRest (fun x => x.mem = m₀) finished ctrlBlk w.dev.2) :
    AtRest (Pushed m₀ data 0) finished ctrlBlk
      (w.apply T.env (programmedWriteSetup cxt addr len)).dev.2 := by
  have hcalm := writeSetup_calm cxt addr len
  have hsplit : programmedWriteSetup cxt addr len = (programmedWriteSetup cxt addr len).take 5 ++
      .field smioCs SmiCs.clear 1::(programmedWriteSetup cxt addr len).drop 6 := rfl
  have hbefore := (stable_mem T m₀ finished ctrlBlk).apply
    (fun op ho => hcalm op (List.mem_append_left _ ho)) h
  have hclear : AtRest (Pushed m₀ data 0) finished ctrlBlk
      ((w.apply T.env ((programmedWriteSetup cxt addr len).take 5)).assign T.env smioCs
        SmiCs.clear 1).dev.2 :=
    clear_atRest (P := fun _ => Pushed m₀ data 0) (fun x hx => ⟨hx,rfl⟩) hbefore
  rw [hsplit,World.apply_append,World.apply_field]
  exact stable_pushed.apply (fun op ho => hcalm op (List.mem_append_right _ ho)) hclear

/-- What a programmed write comes to. It changes no memory on the bus, and what has been sent since
CLEAR are the first words of the array, at most one more than asked for; as many as it returns,
unless CLEAR has come again. -/
structure Sent (data : ℕ → Word) (len : ℤ) (m₀ : Word → Word)
    (x : Option ℤ × World (ℕ × DmaSys)) : Prop where
  mem : x.2.dev.2.data.mem = m₀
  words : ∃ n ≤ len.toNat+1, x.2.dev.2.data.sent = (List.range n).map data ∧
    ∀ r ∈ x.1, n = 0 ∨ r = n

theorem smiProgrammedWriteArr_bus (cxt : SmiCxt) (data : Option (ℕ → Word)) (addr : BitVec 8)
    (len : ℤ) (h : AtRest (fun x => x.mem = m₀) finished ctrlBlk w.dev.2) (fuel : ℕ) :
    AtRest (fun x => x.mem = m₀) finished ctrlBlk
      (smiProgrammedWriteArr T.env fuel cxt data addr len w).2.dev.2 ∧
    Sent (data.getD fun _ => 0) len m₀ (smiProgrammedWriteArr T.env fuel cxt data addr len w) := by
  have hpost : Post (smiProgrammedWriteArr T.env fuel cxt data addr len) w
      (SendEnd m₀ finished ctrlBlk (data.getD fun _ => 0) len)
      (fun w' => ∃ k ≤ len.toNat+1,
        AtRest (Pushed m₀ (data.getD fun _ => 0) k) finished ctrlBlk w'.dev.2) :=
    post_step (regOps_run _ _ _) (smiWriteAwait_bus data len fuel
      (writeSetup_pushed h))
  rcases hx : smiProgrammedWriteArr T.env fuel cxt data addr len w with ⟨_ | r,w'⟩
  · obtain ⟨n,hle,hr⟩ := (hpost.elim hx).2 rfl
    refine ⟨{ hr with data := hr.data.1 },hr.data.1,n,hle,hr.data.2,?_⟩
    exact fun r hr => absurd hr (Option.not_mem_none r)
  · obtain ⟨n,hle,hn,hr⟩ := (hpost.elim hx).1 r rfl
    refine ⟨{ hr with data := hr.data.1 },hr.data.1,n,hle,hr.data.2,?_⟩
    rintro a ⟨⟩
    exact hn

end Writes

end RpiSmi
