import RpiSmi.DirectAwait
import RpiSmi.ReadBuffer

/-!
# One bus value in both read modes

A direct read keeps the low byte of what it finds in `SMI_DD`, at every width.
A programmed read without packing keeps the bus width of what it finds in `SMI_D`.
-/

namespace RpiSmi

open Exec BitField Elements

variable {σ : Type}

def Event.readFrom? (r : Reg) : Event → Option Word
  | .read r' v => if r' = r then some v else none
  | _ => none

def World.taken (r : Reg) (w : World σ) : List Word := w.view (Event.readFrom? r)

section Taken

variable (env : Env σ) (w : World σ) (r : Reg)

@[simp] theorem taken_fresh : w.fresh.taken r = [] := rfl
@[simp] theorem taken_read_self : (w.read env r).taken r = w.taken r ++ [w.value env r] := by
  simp [World.taken,Event.readFrom?]
@[simp] theorem taken_write (r' : Reg) (v : Word) : (w.write env r' v).taken r = w.taken r := by
  simp [World.taken,Event.readFrom?]
@[simp] theorem taken_report (msg : String) : (w.report msg).taken r = w.taken r := by
  simp [World.taken,Event.readFrom?]
@[simp] theorem taken_store (p : Ptr) (i : ℕ) (v : Word) : (w.store p i v).taken r = w.taken r := by
  simp [World.taken,Event.readFrom?]
@[simp] theorem taken_after (c : Check σ) : (w.after c).taken r = w.taken r := by
  simp [World.taken,Event.readFrom?]

variable {r}

theorem taken_read {r' : Reg} (h : r' ≠ r) : (w.read env r').taken r = w.taken r := by
  simp [World.taken,Event.readFrom?,h]

theorem taken_assign {r' : Reg} (h : r' ≠ r) (f : Field 32) (v : ℕ) :
    (w.assign env r' f v).taken r = w.taken r := by
  rw [World.assign,taken_write,taken_read env w h]

theorem taken_apply {ops : List RegOp} (h : ∀ f v, .field r f v ∉ ops) :
    (w.apply env ops).taken r = w.taken r := by
  induction ops generalizing w with
  | nil => rfl
  | cons op ops ih =>
    have hops := fun f v hmem => h f v (List.mem_cons_of_mem op hmem)
    cases op with
    | field r' f v =>
      have hne : r' ≠ r := by
        rintro rfl
        exact h f v (List.mem_cons_self ..)
      exact (ih _ hops).trans (taken_assign env w hne f v)
    | value r' v => exact (ih _ hops).trans (taken_write env w r r' v)

end Taken

def Untaken (r : Reg) (w w' : World σ) : Prop := w'.taken r = w.taken r ∧ w'.memory = w.memory

instance (r : Reg) : IsPreorder (World σ) (Untaken r) where
  refl _ := ⟨rfl,rfl⟩
  trans _ _ _ h h' := ⟨h'.1.trans h.1,h'.2.trans h.2⟩

theorem untaken_assign (env : Env σ) {r r' : Reg} (h : r' ≠ r) (f : Field 32) (v : ℕ)
    (w : World σ) : Untaken r w (w.assign env r' f v) :=
  ⟨taken_assign env w h f v,memory_assign env w r' f v⟩

theorem untaken_after (r : Reg) (c : Check σ) (w : World σ) : Untaken r w (w.after c) :=
  ⟨taken_after w r c,World.memory_after c w⟩

theorem untaken_clocked (env : Env σ) (r : Reg) (w : World σ) : Untaken r w (w.clocked env) :=
  untaken_after r _ w

/-- Each word taken from `r` has gone through `f` into the next element of `p`; `count` of them. -/
structure World.Sampled (r : Reg) (p : Ptr) (f : Word → Word) (m : Memory) (count : ℕ)
    (w : World σ) : Prop where
  count_eq : count = (w.taken r).length
  memory_eq : w.memory = Memory.storeAll p 0 ((w.taken r).map f) m

namespace World.Sampled

variable {r : Reg} {p : Ptr} {f : Word → Word} {m : Memory} {count : ℕ} {w w' : World σ}

theorem untaken (h : w.Sampled r p f m count) (hw : Untaken r w w') :
    w'.Sampled r p f m count where
  count_eq := by rw [h.count_eq,hw.1]
  memory_eq := by rw [hw.2,h.memory_eq,hw.1]

theorem take (env : Env σ) (h : w.Sampled r p f m count) :
    ((w.read env r).store p count (f (w.value env r))).Sampled r p f m (count+1) where
  count_eq := by simp [h.count_eq]
  memory_eq := by
    rw [memory_store,memory_read,h.memory_eq,h.count_eq,taken_store,taken_read_self,
      List.map_append,List.map_cons,List.map_nil,Memory.storeAll_concat,List.length_map,
      Nat.zero_add]

end World.Sampled

section Direct

variable {env : Env σ} {p : Ptr} {m : Memory} {len increment deadline : ℤ}

theorem untaken_doneRound (env : Env σ) (deadline : ℤ) (msg : String) (code : ℤ) (spin : ℕ) :
    Keeps (Untaken smioDd)
      (doneRound env (spinExpired env deadline) (· + 1) msg code spin) := by
  have hread : Keeps (Untaken smioDd) (readField env smioDcs SmiDcs.done) := fun w =>
    ⟨taken_read env w (by decide),memory_read env w _⟩
  have hcheck : Keeps (Untaken smioDd) (spinExpired env deadline spin) := fun w =>
    untaken_after _ _ w
  have hreport : Keeps (Untaken smioDd) (error msg : Drv σ Unit) := fun w =>
    ⟨taken_report w _ _,memory_report w _⟩
  have hassign (r : Reg) (hr : r ≠ smioDd) (f : Field 32) :
      Keeps (Untaken smioDd) (setField env r f 1) := untaken_assign env hr f 1
  refine keeps_bind hread fun _ => keeps_ite (keeps_pure _) ?_
  refine keeps_bind hcheck fun _ => keeps_ite ?_ (keeps_pure _)
  refine keeps_bind hreport fun _ => ?_
  refine keeps_bind (hassign _ (by decide) _) fun _ => ?_
  exact keeps_then_pure (hassign _ (by decide) _) _

theorem untaken_stepped (w : World σ) (addr : BitVec 8) :
    Untaken smioDd w (w.stepped env increment addr) := by
  unfold World.stepped
  split
  · exact refl_of _ w
  · exact untaken_assign env (by decide) _ _ w

/-- What the wait is at, at the start and at the end of each round. -/
def World.DirectAt (p : Ptr) (m : Memory) (count : ℕ) (w : World σ) : Prop :=
  w.Sampled smioDd p (· &&& 0xFF) m count

theorem readDirectRound_sampled (fuel : ℕ) (s : Direct) {w : World σ}
    (h : w.DirectAt p m s.count) :
    Post (readDirectRound env fuel p len increment deadline s) w
      (fun r w' => Sum.elim (fun s' => w'.DirectAt p m s'.count)
        (fun _ => ∃ count, w'.DirectAt p m count) r)
      (fun w' => ∃ count, w'.DirectAt p m count) := by
  by_cases hlt : (s.count : ℤ) < len
  · have hstart : (w.assign env smioDcs SmiDcs.start 1).DirectAt p m s.count :=
      h.untaken (untaken_assign env (by decide) _ _ w)
    have hwait := (keeps_loop (untaken_doneRound env deadline
      "Direct read await timeout reached" smiErrTimeout) fuel s.spin).post
      (w.assign env smioDcs SmiDcs.start 1)
    rw [Post,readDirectRound_run hlt,← Post]
    refine post_bind (hwait.mono ?_ fun v hv => ⟨_,hstart.untaken hv⟩)
    rintro (code | spin) v hv
    · exact ⟨s.count,hstart.untaken hv⟩
    · have htaken := (hstart.untaken hv).take env
      have hdone := htaken.untaken
        (untaken_assign env (show smioDcs ≠ smioDd by decide) SmiDcs.done 1 _)
      exact hdone.untaken (untaken_stepped _ s.addr)
  · exact post_of_run (readDirectRound_full hlt) ⟨_,h⟩

theorem readDirectLoop_sampled (fuel : ℕ) (s : Direct) {w : World σ} (h : w.DirectAt p m s.count) :
    Post (loop (readDirectRound env fuel p len increment deadline) fuel s) w
      (fun _ v => ∃ count, v.DirectAt p m count) (fun v => ∃ count, v.DirectAt p m count) :=
  post_loop (fun s v => v.DirectAt p m s.count) (fun s _ hs => ⟨s.count,hs⟩)
    (fun s _ hs => readDirectRound_sampled fuel s hs) fuel s w h

theorem smiDirectReadArr_sampled (env : Env σ) (fuel : ℕ) (cxt : SmiCxt) (addr : BitVec 8)
    (len increment : ℤ) (w : World σ) : ∃ count,
    (smiDirectReadArr env fuel cxt .caller addr len increment w.fresh).2.DirectAt .caller
      w.fresh.memory count := by
  have hsetup : ∀ f v, .field smioDd f v ∉ directReadArrSetup cxt addr := by
    simp [directReadArrSetup,smioDsr,smioDcs,smioDa,smioDd]
  have hentry : (w.fresh.apply env (directReadArrSetup cxt addr)).DirectAt .caller
      w.fresh.memory 0 :=
    ⟨by rw [taken_apply env _ hsetup]; rfl,by rw [memory_apply,taken_apply env _ hsetup]; rfl⟩
  have hrun : smiDirectReadArr env fuel cxt .caller addr len increment w.fresh =
      smiReadAwaitDirect env fuel .caller addr len increment
        (w.fresh.apply env (directReadArrSetup cxt addr)) := bind_run (regOps_run env _ _) _
  have hloop := ((hentry.untaken
    (untaken_assign env (show smioDcs ≠ smioDd by decide) SmiDcs.write 0 _)).untaken
    (untaken_assign env (show smioDa ≠ smioDd by decide) SmiDa.addr addr.toNat _)).untaken
    (untaken_clocked env _ _)
  rw [hrun,smiReadAwaitDirect_run (by decide)]
  exact post_iff_state.mp (readDirectLoop_sampled fuel ⟨0,0,addr⟩ hloop)

end Direct

section Programmed

variable {env : Env σ} {p : Ptr} {m : Memory} {len deadline : ℤ}

def World.FifoAt (p : Ptr) (m : Memory) (count : ℕ) (w : World σ) : Prop :=
  w.Sampled smioD p id m count

def ReadResult (len : ℤ) (count : ℕ) (r : Except ℤ ℕ) : Prop :=
  (r = .ok count ∧ ¬ (count : ℤ) < len) ∨ (r = .error (-smiErrTimeout) ∧ (count : ℤ) < len)

theorem readAwaitRound_sampled (s : Poll) {w : World σ} (h : w.FifoAt p m s.count) :
    Post (readAwaitRound env p len deadline s) w
      (fun r w' => Sum.elim (fun s' => w'.FifoAt p m s'.count)
        (fun a => ∃ count, ReadResult len count a ∧ w'.FifoAt p m count) r)
      (fun w' => ∃ count, w'.FifoAt p m count) := by
  have hpoll : Untaken smioD w (w.read env smioCs) :=
    ⟨taken_read env w (by decide),memory_read env w _⟩
  by_cases hlt : (s.count : ℤ) < len
  · rcases hp : env.flag SmiCs.rxd w.dev with _ | _
    · rcases hx : (env.spinExpired deadline s.spin (env.polled w.dev)).expired with _ | _
      · exact post_of_run (readAwaitRound_idle hlt hp hx)
          ((h.untaken hpoll).untaken (untaken_after _ _ _))
      · refine post_of_run (readAwaitRound_late hlt hp hx) ⟨s.count,.inr ⟨rfl,hlt⟩,?_⟩
        have hreport : Untaken smioD _ (((w.read env smioCs).after
            (env.spinExpired deadline s.spin (env.polled w.dev))).report
              "Read await timeout reached") := ⟨taken_report _ _ _,memory_report _ _⟩
        exact ((h.untaken hpoll).untaken (untaken_after _ _ _)).untaken
          (trans_of _ hreport (untaken_assign env (by decide) _ _ _))
    · have hword := (h.untaken hpoll).take env
      exact post_of_run (readAwaitRound_word hlt hp) hword
  · exact post_of_run (readAwaitRound_full hlt) ⟨s.count,.inl ⟨rfl,hlt⟩,h⟩

theorem readAwaitLoop_sampled (env : Env σ) (len deadline : ℤ) (fuel : ℕ) (s : Poll)
    {w : World σ} (h : w.FifoAt p m s.count) :
    Post (loop (readAwaitRound env p len deadline) fuel s) w
      (fun a v => ∃ count, ReadResult len count a ∧ v.FifoAt p m count)
      (fun v => ∃ count, v.FifoAt p m count) :=
  post_loop (fun s v => v.FifoAt p m s.count) (fun s _ hs => ⟨s.count,hs⟩)
    (fun s _ hs => readAwaitRound_sampled s hs) fuel s w h

theorem readAwaitEnd_untaken (env : Env σ) (len : ℤ) (r : Except ℤ ℕ) :
    Keeps (Untaken smioD) (readAwaitEnd env len r) := by
  have hread : Keeps (Untaken smioD) (readField env smioCs SmiCs.rxd) := fun w =>
    ⟨taken_read env w (by decide),memory_read env w _⟩
  have hreport (msg : String) : Keeps (Untaken smioD) (error msg : Drv σ Unit) := fun w =>
    ⟨taken_report w _ _,memory_report w _⟩
  exact keeps_readAwaitEnd_of len hread (hreport _) (hreport _) r

theorem smiReadAwait_sampled (hp : p ≠ .null) {fuel : ℕ} {len r : ℤ} {w w' : World σ}
    (h : w.FifoAt p m 0) (hrun : smiReadAwait env fuel p len w = (some r,w')) :
    ∃ count, w'.FifoAt p m count ∧ (¬ (count : ℤ) < len → r = count) := by
  have hloop := readAwaitLoop_sampled env len (w.deadline env progReadTimeoutS) fuel ⟨0,0⟩
    (h.untaken (untaken_clocked env _ w))
  rw [smiReadAwait_run hp] at hrun
  rcases hx : loop (readAwaitRound env p len (w.deadline env progReadTimeoutS)) fuel ⟨0,0⟩
    (w.clocked env) with ⟨_ | a,v⟩
  · rw [bind_run_none hx] at hrun
    cases hrun
  · rw [bind_run hx] at hrun
    obtain ⟨count,hresult,hv⟩ := (hloop.elim hx).1 a rfl
    have hend := readAwaitEnd_untaken env len a v
    rw [hrun] at hend
    refine ⟨count,hv.untaken hend,fun hge => ?_⟩
    rcases hresult with ⟨rfl,-⟩ | ⟨-,hlt⟩
    · obtain ⟨u,hu,-⟩ := readAwaitEnd_ok hge v
      rw [hu] at hrun
      cases hrun
      rfl
    · exact absurd hlt hge

theorem taken_growRawBuffer (env : Env σ) (words : ℤ) (r : Reg) (w : World σ) :
    (growRawBuffer env words w).2.taken r = w.taken r := by
  unfold growRawBuffer
  split
  · split
    · rfl
    · exact taken_report _ r _
  · rfl

theorem taken_readEntry {cxt : SmiCxt} {addr : BitVec 8} {len : ℤ} {w w₁ : World σ}
    (he : readEntry env cxt addr len w = some w₁) :
    w₁.taken smioD = (ratioWorld cxt w).taken smioD := by
  have hgrow := taken_growRawBuffer env (wordReads cxt len) smioD (ratioWorld cxt w)
  have hsetup : ∀ f v, .field smioD f v ∉ programmedReadSetup cxt addr len :=
    fun f v h => programmedReadSetup_reg cxt addr len _ h rfl
  unfold readEntry at he
  split at he
  case h_1 w' hg =>
    cases he
    rw [hg] at hgrow
    exact (taken_apply env _ hsetup).trans hgrow
  case h_2 => cases he

/-- Without packing a read that returns has put the words that it took, truncated, into the caller's
buffer, if they are as many as it was to read. -/
theorem smiProgrammedReadArr_sampled {cxt : SmiCxt} {width : Width}
    (hw : Width.ofCode cxt.rwidth = some width) (hp : cxt.pxldata = false) {fuel : ℕ}
    {addr : BitVec 8} {len : ℕ} (hlen : len < 2^31) {r : ℤ} {w u : World σ}
    (hrun : smiProgrammedReadArr env fuel cxt addr len w.fresh = (some r,u))
    (htaken : (u.taken smioD).length = len) :
    u.retData = putAll (elemSize width) (truncated width (u.taken smioD)) 0 empty := by
  have hratio : ratioWorld cxt w.fresh = w.fresh := by
    simp [ratioWorld,packedRatio?,hp]
  have hwords : wordReads cxt len = len := by
    rw [wordReads_eq,wordCount_eq,packedRatio_eq hw,hp]
    simp
  rcases he : readEntry env cxt addr len w.fresh with _ | w₁
  · rw [smiProgrammedReadArr_refused he,hratio] at hrun
    cases hrun
    rw [taken_growRawBuffer,retData_growRawBuffer]
    rfl
  · have hempty : w₁.taken smioD = [] := by
      rw [taken_readEntry he,hratio,taken_fresh]
    have hentry : w₁.FifoAt .rawBuffer w₁.memory 0 :=
      ⟨by rw [hempty]; rfl,by rw [hempty]; rfl⟩
    rw [smiProgrammedReadArr_run he] at hrun
    rcases hx : smiReadAwait env fuel .rawBuffer (wordReads cxt len) w₁ with ⟨_ | c,v⟩
    · rw [bind_run_none hx] at hrun
      cases hrun
    · obtain ⟨n,hv,hc⟩ := smiReadAwait_sampled (by decide) hentry hx
      have hdecode : decodeRaw cxt (wordReads cxt len) c v = (some (),{ v with
          retData := truncator v.rawBuffer.buf (sizeT c) width v.retData }) := by
        simp [decodeRaw,smiTruncate,hw,hp]
      rw [bind_run hx,bind_run hdecode] at hrun
      cases hrun
      have hn : n = len := hv.count_eq.trans htaken
      have hsize : sizeT r = len := by
        rw [hc (by omega),hn,sizeT_natCast (by omega)]
      have hbuf : v.rawBuffer.buf = overlay (v.taken smioD) w₁.rawBuffer.buf := by
        have hmem := congrArg (fun m : Memory => m.rawBuffer.buf) hv.memory_eq
        rw [List.map_id] at hmem
        exact hmem.trans (Memory.buf_storeAll_zero _ _)
      have hret : v.retData = empty := by
        have hmem := congrArg Memory.retData hv.memory_eq
        exact (hmem.trans (Memory.retData_storeAll_rawBuffer _ _ _)).trans (retData_readEntry he)
      show truncator v.rawBuffer.buf (sizeT r) width v.retData = _
      have hlength : (v.taken smioD).length = len := htaken
      rw [hsize,hbuf,hret,truncator_eq,firstWords_overlay _ _ hlength.le,hlength,Nat.sub_self]
      simp only [List.range'_zero,List.map_nil,List.append_nil]
      rfl

end Programmed

section Agreement

theorem fits_widthMask (width : Width) (v : Word) :
    Fits (elemSize width) (v &&& widthMask width) := by
  have hle : (v &&& widthMask width).toNat ≤ (widthMask width).toNat := by
    rw [BitVec.toNat_and]
    exact Nat.and_le_right
  have hmask : (widthMask width).toNat < 256^elemSize width := by cases width <;> decide
  exact Nat.lt_of_le_of_lt hle hmask

variable {τ : Type} {cxt : SmiCxt} {width : Width} {len : ℕ} {env : Env σ} {env' : Env τ}
  {fuel fuel' : ℕ} {addr addr' : BitVec 8} {increment r r' : ℤ} {w u : World σ} {w' u' : World τ}

theorem loads_direct
    (hd : smiDirectReadArr env fuel cxt .caller addr len increment w.fresh = (some r,u))
    (hlen : (u.taken smioDd).length = len) :
    loads 4 len u.retData = (u.taken smioDd).map (· &&& 0xFF) := by
  obtain ⟨count,hat⟩ := smiDirectReadArr_sampled env fuel cxt addr len increment w
  rw [hd] at hat
  have hret : u.retData = putAll 4 ((u.taken smioDd).map (· &&& 0xFF)) 0 empty := by
    have hmem := congrArg Memory.retData hat.memory_eq
    exact hmem.trans (Memory.retData_storeAll_caller _ _ _)
  rw [hret,← hlen]
  conv_lhs => rw [← List.length_map (· &&& 0xFF)]
  exact loads_putAll (fun v _ => fits_word v) empty

theorem loads_programmed (hw : Width.ofCode cxt.rwidth = some width) (hp : cxt.pxldata = false)
    (hlt : len < 2^31)
    (hd : smiProgrammedReadArr env fuel cxt addr len w.fresh = (some r,u))
    (hlen : (u.taken smioD).length = len) :
    loads (elemSize width) len u.retData = truncated width (u.taken smioD) := by
  rw [smiProgrammedReadArr_sampled hw hp hlt hd hlen,← hlen]
  have hfits : ∀ v ∈ truncated width (u.taken smioD), Fits (elemSize width) v := by
    intro v hv
    obtain ⟨v',-,rfl⟩ := List.mem_map.mp hv
    exact fits_widthMask width v'
  have hlength : (truncated width (u.taken smioD)).length = (u.taken smioD).length :=
    List.length_map _
  rw [← hlength]
  exact loads_putAll hfits empty

/-- For one sequence of bus values, met in time, both modes store its values at the bus width
exactly if no value has a bit between the low byte and the width. -/
theorem bus_values_agree_iff (hw : Width.ofCode cxt.rwidth = some width) (hp : cxt.pxldata = false)
    (hlt : len < 2^31) {vs : List Word} (hvs : vs.length = len)
    (hd : smiDirectReadArr env fuel cxt .caller addr len increment w.fresh = (some r,u))
    (hdd : u.taken smioDd = vs)
    (hpr : smiProgrammedReadArr env' fuel' cxt addr' len w'.fresh = (some r',u'))
    (hdp : u'.taken smioD = vs) :
    (loads 4 len u.retData = loads (elemSize width) len u'.retData ∧
      loads (elemSize width) len u'.retData = vs.map (· &&& widthMask width)) ↔
    ∀ v ∈ vs, v &&& 0xFF = v &&& widthMask width := by
  rw [loads_direct hd (hdd ▸ hvs),loads_programmed hw hp hlt hpr (hdp ▸ hvs),hdd,hdp,truncated,
    List.map_inj_left]
  exact and_iff_left rfl

def busEnv : Env (List Word) where
  readReg r s :=
    if r = smioDcs then (SmiDcs.done.set 1 0,s)
    else if r = smioDd then (s.headD 0,s.tail)
    else (0,s)
  writeReg _ _ s := s
  clockGettime s := (0,s)
  realloc _ s := (none,s)
  writeSync _ s := s
  limits := .default
  arm64 := true

theorem bus_values_agree_iff_wide :
    (loads 4 2 (smiDirectReadArr busEnv 3 (deviceCxt 1 false false false) .caller 0 2 1
        (World.init [0x12,0x34]).fresh).2.retData =
      loads 2 2 (smiProgrammedReadArr fifoEnv 3 (deviceCxt 1 false false false) 0 (2 : ℕ)
        (World.init ([0x12,0x34],0)).fresh).2.retData ∧
      loads 2 2 (smiProgrammedReadArr fifoEnv 3 (deviceCxt 1 false false false) 0 (2 : ℕ)
        (World.init ([0x12,0x34],0)).fresh).2.retData =
          ([0x12,0x34] : List Word).map (· &&& widthMask .w16)) ↔
    ∀ v ∈ ([0x12,0x34] : List Word), v &&& 0xFF = v &&& widthMask .w16 :=
  have hw : Width.ofCode (deviceCxt 1 false false false).rwidth = some .w16 := rfl
  bus_values_agree_iff hw rfl (by decide) rfl (Prod.ext rfl rfl) rfl (Prod.ext rfl rfl) rfl

/-- The value 0x100 on a 16-bit bus is stored as 0 by the direct read. -/
theorem bus_values_disagree : ¬ ∀ (cxt : SmiCxt) (width : Width) (len fuel : ℕ) (r r' : ℤ)
    (w u : World (List Word)) (w' u' : World (List Word × ℕ)),
    Width.ofCode cxt.rwidth = some width → cxt.pxldata = false →
    smiDirectReadArr busEnv fuel cxt .caller 0 len 1 w.fresh = (some r,u) →
    smiProgrammedReadArr fifoEnv fuel cxt 0 len w'.fresh = (some r',u') →
    (u.taken smioDd).length = len → u.taken smioDd = u'.taken smioD →
      loads 4 len u.retData = loads (elemSize width) len u'.retData := by
  intro h
  have hloads := h (deviceCxt 1 false false false) .w16 1 2 1 1 (World.init [0x100]) _
    (World.init ([0x100],0)) _ rfl rfl (Prod.ext rfl rfl) (Prod.ext rfl rfl) rfl rfl
  revert hloads
  decide

end Agreement

end RpiSmi
