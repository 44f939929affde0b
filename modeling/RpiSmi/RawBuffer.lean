import RpiSmi.Frames
import RpiSmi.ReadBuffer

/-!
# The raw buffer and its block

The allocator numbers the blocks that it hands out. `Env.withHeap` keeps that
record beside the devices, so the driver runs unchanged and the size field can
be compared with the block it describes after every call of a run.
-/

namespace RpiSmi

open Exec BitField Elements

variable {σ : Type}

/-- The bytes of every block handed out, the numbers of those given back, in order, and the block
that `raw_buffer.buf` points to, if any. -/
structure Heap where
  blocks : List ℕ
  freed : List ℕ
  buf : Option ℕ
  freed_lt : ∀ b ∈ freed, b < blocks.length
  buf_lt : ∀ b ∈ buf, b < blocks.length

namespace Heap

def none : Heap := ⟨[],[],.none,by simp,by simp⟩

/-- `buf = realloc(buf, bytes)` that succeeds; `malloc` when `buf` is null. -/
def realloc (bytes : ℕ) (h : Heap) : Heap where
  blocks := h.blocks ++ [bytes]
  freed := h.freed ++ h.buf.toList
  buf := some h.blocks.length
  freed_lt b hb := by
    have hlt : b < h.blocks.length := by
      rcases List.mem_append.mp hb with hb | hb
      · exact h.freed_lt b hb
      · exact h.buf_lt b (by simpa using hb)
    simp
    omega
  buf_lt b hb := by
    cases hb
    simp

def malloc (bytes : ℕ) (h : Heap) : Heap := realloc bytes { h with
  buf := .none
  buf_lt := by simp }

def free (h : Heap) : Heap where
  blocks := h.blocks
  freed := h.freed ++ h.buf.toList
  buf := h.buf
  freed_lt b hb := by
    rcases List.mem_append.mp hb with hb | hb
    · exact h.freed_lt b hb
    · exact h.buf_lt b (by simpa using hb)
  buf_lt := h.buf_lt

/-- `buf` points to a live block of so many bytes. -/
def Live (h : Heap) (bytes : ℕ) : Prop :=
  ∃ b, h.buf = some b ∧ h.blocks[b]? = some bytes ∧ b ∉ h.freed

theorem realloc_live (bytes : ℕ) (h : Heap) : (h.realloc bytes).Live bytes := by
  refine ⟨h.blocks.length,rfl,by simp [realloc],fun hb => ?_⟩
  rcases List.mem_append.mp hb with hb | hb
  · exact absurd (h.freed_lt _ hb) (lt_irrefl _)
  · exact absurd (h.buf_lt _ (by simpa using hb)) (lt_irrefl _)

theorem malloc_live (bytes : ℕ) (h : Heap) : (h.malloc bytes).Live bytes := realloc_live _ _

end Heap

/-- The environment with the allocator's record beside its state. Asked for no bytes, `realloc`
gives its block back and may answer null. -/
@[simps] def Env.withHeap (env : Env σ) : Env (σ × Heap) where
  readReg r s := ((env.readReg r s.1).1,(env.readReg r s.1).2,s.2)
  writeReg r v s := (env.writeReg r v s.1,s.2)
  clockGettime s := ((env.clockGettime s.1).1,(env.clockGettime s.1).2,s.2)
  realloc bytes s := match env.realloc bytes s.1 with
    | (some junk,d) => (some junk,d,s.2.realloc bytes)
    | (none,d) => (none,d,if bytes = 0 then s.2.free else s.2)
  writeSync fd s := (env.writeSync fd s.1,s.2)
  limits := env.limits
  arm64 := env.arm64

abbrev World.heap (w : World (σ × Heap)) : Heap := w.dev.2

section Calls

variable (env : Env σ)

/-- The raw buffer of `smi_init_cxt_map`; its size is set whether or not `malloc` succeeds. -/
def smiInitRawBuffer : Drv (σ × Heap) ℤ := fun w =>
  match env.realloc (1024*4) w.dev.1 with
  | (some junk,d) =>
    (some smiOk,{ w with dev := (d,w.heap.malloc (1024*4)), rawBuffer := ⟨junk,1024⟩ })
  | (none,d) =>
    (some smiErrAllocFail,({ w with
      dev := (d,{ w.heap with buf := none, buf_lt := by simp })
      rawBuffer.size := 1024 } : World (σ × Heap)).report "Raw buffer allocation failed")

/-- `len` is a `size_t`. -/
def smiResizeRawBuffer (env : Env σ) (len : ℕ) : Drv σ ℤ := fun w =>
  if len = 0 then
    (some smiErrBufToSmall,
      w.report "Tried to realloc to size 0, returning original buffer")
  else match env.realloc (len*4%2^64) w.dev with
    | (some junk,s) =>
      (some smiOk,{ w with dev := s, rawBuffer := w.rawBuffer.resize len (len*4%2^64) junk })
    | (none,s) =>
      (some smiErrAllocFail,
        ({ w with dev := s } : World σ).report "Reallocation of raw buffer failed")

/-- The calls that use the raw buffer, each with its arguments; a read is cut off by its fuel. -/
inductive RawCall
  | resize (len : ℕ)
  | read (cxt : SmiCxt) (addr : BitVec 8) (len : ℤ) (fuel : ℕ)

namespace RawCall

def run (w : World (σ × Heap)) : RawCall → World (σ × Heap)
  | resize len => (smiResizeRawBuffer env.withHeap len w.fresh).2
  | read cxt addr len fuel => (smiProgrammedReadArr env.withHeap fuel cxt addr len w.fresh).2

/-- A length is not negative and its size in bytes does not wrap. -/
def Fits : RawCall → Prop
  | resize len => len*4 < 2^64
  | read cxt _ len _ => 0 ≤ len ∧ wordReads cxt len*4 < 2^64

def asks (size : ℕ) : RawCall → Option ℕ
  | resize len => if len = 0 then none else some len
  | read cxt _ len _ => if size < sizeT (wordReads cxt len) then some (sizeT (wordReads cxt len))
    else none

/-- The call asks for memory and gets none. -/
def Refused (c : RawCall) (w : World (σ × Heap)) : Prop :=
  ∃ n ∈ c.asks w.rawBuffer.size, (env.realloc (n*4%2^64) w.dev.1).1 = none

def runAll (calls : List RawCall) (w : World (σ × Heap)) : World (σ × Heap) :=
  calls.foldl (fun w c => c.run env w) w

end RawCall

end Calls

def SameBlock (w w' : World (σ × Heap)) : Prop :=
  w'.heap = w.heap ∧ w'.rawBuffer.size = w.rawBuffer.size

instance : IsPreorder (World (σ × Heap)) SameBlock where
  refl _ := ⟨rfl,rfl⟩
  trans _ _ _ h h' := ⟨h'.1.trans h.1,h'.2.trans h.2⟩

theorem sameBlock_steps (env : Env σ) :
    StepsIn env.withHeap (fun _ => True) (fun _ _ => True) SameBlock where
  read _ _ := ⟨rfl,rfl⟩
  write _ _ _ _ := ⟨rfl,rfl⟩
  assign _ _ _ _ _ := ⟨rfl,rfl⟩
  store _ _ _ := ⟨rfl,rfl⟩
  fetch _ _ := ⟨rfl,rfl⟩
  report _ _ := ⟨rfl,rfl⟩
  clock _ := ⟨rfl,rfl⟩

def Untouched (w w' : World (σ × Heap)) : Prop :=
  w'.rawBuffer = w.rawBuffer ∧ w'.heap = w.heap

theorem Untouched.same {w w' : World (σ × Heap)} (h : Untouched w w') : SameBlock w w' :=
  ⟨h.2,by rw [h.1]⟩

theorem untouched_ratioWorld (cxt : SmiCxt) (w : World (σ × Heap)) :
    Untouched w (ratioWorld cxt w) := by
  unfold ratioWorld
  split <;> exact ⟨rfl,rfl⟩

theorem decodeRaw_state (cxt : SmiCxt) (words count : ℤ) (w : World σ) :
    (∃ msg, (decodeRaw cxt words count w).2 = w.report msg) ∨
    ∃ m, (decodeRaw cxt words count w).2 = { w with retData := m } := by
  rcases hw : Width.ofCode cxt.rwidth with _ | width <;> rcases hp : cxt.pxldata with _ | _ <;>
    simp only [decodeRaw,smiUnpack,smiTruncate,hw,hp]
  · exact .inl ⟨_,rfl⟩
  · exact .inl ⟨_,rfl⟩
  · exact .inr ⟨_,rfl⟩
  · exact .inr ⟨_,rfl⟩

theorem sameBlock_decodeRaw (cxt : SmiCxt) (words count : ℤ) :
    Keeps SameBlock (decodeRaw cxt words count : Drv (σ × Heap) Unit) := by
  intro w
  rcases decodeRaw_state cxt words count w with ⟨msg,h⟩ | ⟨m,h⟩ <;> rw [h] <;> exact ⟨rfl,rfl⟩

def SameStores (w w' : World σ) : Prop := w'.view Event.store? = w.view Event.store?

instance : IsPreorder (World σ) SameStores where
  refl _ := rfl
  trans _ _ _ h h' := Eq.trans h' h

def StoresBelow (n : ℤ) (w : World σ) : Prop :=
  ∀ p i v, (p,i,v) ∈ w.view Event.store? → (i : ℤ) < n

theorem SameStores.of_memory {w w' : World σ} (h : w'.memory = w.memory) : SameStores w w' :=
  congrArg Memory.stores h

theorem sameStores_decodeRaw (cxt : SmiCxt) (words count : ℤ) :
    Keeps SameStores (decodeRaw cxt words count : Drv σ Unit) := by
  intro w
  rcases decodeRaw_state cxt words count w with ⟨msg,h⟩ | ⟨m,h⟩ <;> rw [h]
  · exact .of_memory (memory_report _ _)
  · rfl

theorem storesBelow_fresh (n : ℤ) (w : World σ) : StoresBelow n w.fresh := by
  simp [StoresBelow]

section Stores

variable {env : Env σ} {p : Ptr} {len deadline : ℤ} {w : World σ}

theorem StoresBelow.of_stores {w' : World σ} (h : StoresBelow len w) (hs : SameStores w w') :
    StoresBelow len w' := by
  unfold StoresBelow
  rwa [hs]

theorem storesBelow_readAwaitRound (s : Poll) (h : StoresBelow len w) :
    Post (readAwaitRound env p len deadline s) w (fun _ w' => StoresBelow len w')
      (StoresBelow len) := by
  by_cases hlt : (s.count : ℤ) < len
  · rcases hp : env.flag SmiCs.rxd w.dev
    · rcases hx : (env.spinExpired deadline s.spin (env.polled w.dev)).expired
      · exact post_of_run (readAwaitRound_idle hlt hp hx)
          (h.of_stores (.of_memory (by simp)))
      · exact post_of_run (readAwaitRound_late hlt hp hx)
          (h.of_stores (.of_memory (by simp)))
    · refine post_of_run (readAwaitRound_word hlt hp) ?_
      intro q i v hv
      simp only [view_store,view_read,Event.store?,Option.toList_none,List.append_nil,
        List.mem_append] at hv
      rcases hv with hv | hv
      · exact h q i v hv
      · simp only [Option.toList_some,List.mem_singleton,Prod.mk.injEq] at hv
        omega
  · exact post_of_run (readAwaitRound_full hlt) h

theorem sameStores_readAwaitEnd (r : Except ℤ ℕ) : Keeps SameStores (readAwaitEnd env len r) := by
  have hreport (msg : String) : Keeps SameStores (error msg : Drv σ Unit) :=
    fun w => .of_memory (by simp)
  exact keeps_readAwaitEnd_of len (fun w => .of_memory (by simp)) (hreport _) (hreport _) r

/-- At no point of the wait has a word been stored at `len` or above. -/
theorem storesBelow_smiReadAwait (fuel : ℕ) (hp : p ≠ .null) (h : StoresBelow len w) :
    StoresBelow len (smiReadAwait env fuel p len w).2 := by
  have hclocked : SameStores w (w.clocked env) := 
    .of_memory (by simp [World.clocked])
  have hloop : Post (loop (readAwaitRound env p len (w.deadline env progReadTimeoutS)) fuel ⟨0,0⟩)
      (w.clocked env) (fun _ => StoresBelow len) (StoresBelow len) := by
    refine post_loop (fun _ => StoresBelow len) (fun _ _ hw => hw) (fun s w' hw => ?_)
      fuel (⟨0,0⟩ : Poll) _ (h.of_stores hclocked)
    refine (storesBelow_readAwaitRound s hw).mono ?_ fun _ hw => hw
    rintro (s' | r) w' hw'
    · exact hw'
    · exact hw'
  rw [smiReadAwait_run hp]
  refine post_iff_state.mp (post_bind (hloop.mono (fun r w' hw => ?_) fun _ hw => hw))
  exact post_iff_state.mpr (hw.of_stores (sameStores_readAwaitEnd r w'))

end Stores

/-- `raw_buffer.size` is the number of 32-bit words of the live block at `raw_buffer.buf`. -/
def BufferSound (w : World (σ × Heap)) : Prop := w.heap.Live (4*w.rawBuffer.size)

theorem BufferSound.of_same {w w' : World (σ × Heap)} (h : BufferSound w) (hs : SameBlock w w') :
    BufferSound w' := by
  unfold BufferSound
  rwa [hs.1,hs.2]

theorem smiInitRawBuffer_sound {env : Env σ} {w₀ w : World (σ × Heap)}
    (h : smiInitRawBuffer env w₀ = (some smiOk,w)) : BufferSound w := by
  unfold smiInitRawBuffer at h
  split at h
  · cases h
    exact Heap.malloc_live _ _
  · simp [smiErrAllocFail,smiOk] at h

section Calls

variable {env : Env σ} {w : World (σ × Heap)}

/-- The allocator was not asked, or moved the buffer to a block of its own. -/
def HeapStep (w w' : World (σ × Heap)) : Prop :=
  w'.heap = w.heap ∨ ∃ n, w'.heap = w.heap.realloc n

theorem heap_of_granted {n : ℕ} {junk : ℕ → Word} {s : σ × Heap}
    (hr : env.withHeap.realloc n w.dev = (some junk,s)) : s.2 = w.heap.realloc n := by
  simp only [Env.withHeap_realloc] at hr
  split at hr
  · cases hr
    rfl
  · cases hr

theorem BufferSound.realloc {n : ℕ} (hn : n*4 < 2^64) {junk : ℕ → Word} {s : σ × Heap}
    (hr : env.withHeap.realloc (n*4%2^64) w.dev = (some junk,s)) {b : RawBuf} (hb : b.size = n) :
    BufferSound { w with dev := s, rawBuffer := b } := by
  rw [Nat.mod_eq_of_lt hn] at hr
  show s.2.Live (4*b.size)
  rw [heap_of_granted hr,hb,Nat.mul_comm]
  exact Heap.realloc_live _ _

theorem withHeap_realloc_fst (n : ℕ) (s : σ × Heap) :
    (env.withHeap.realloc n s).1 = (env.realloc n s.1).1 := by
  rw [Env.withHeap_realloc]
  split
  case h_1 hr => rw [hr]
  case h_2 hr => rw [hr]

theorem heap_of_refused {n : ℕ} (h0 : 0 < n) (hn : n*4 < 2^64) {s : σ × Heap}
    (hr : env.withHeap.realloc (n*4%2^64) w.dev = (none,s)) : s.2 = w.heap := by
  simp only [Env.withHeap_realloc] at hr
  split at hr
  · cases hr
  · cases hr
    exact if_neg (by omega)

theorem reallocation_refused {n : ℕ} (h0 : 0 < n) (hn : n*4 < 2^64) {s : σ × Heap}
    (hr : env.withHeap.realloc (n*4%2^64) w.dev = (none,s)) (h : BufferSound w) :
    let w' := ({ w with dev := s } : World (σ × Heap)).report "Reallocation of raw buffer failed"
    BufferSound w' ∧ SameStores w w' ∧ Untouched w w' := by
  intro w'
  have hs : Untouched w w' := ⟨rfl,heap_of_refused h0 hn hr⟩
  exact ⟨h.of_same hs.same,(view_report _ _ _).trans (List.append_nil _),hs⟩

variable (env) in
theorem smiResizeRawBuffer_sound {len : ℕ} (hb : len*4 < 2^64) (h : BufferSound w) :
    Post (smiResizeRawBuffer env.withHeap len) w
      (fun r w' => BufferSound w' ∧ SameStores w w' ∧
        (r = smiOk → (env.realloc (len*4%2^64) w.dev.1).1 ≠ none) ∧
        (r ≠ smiOk → Untouched w w') ∧ HeapStep w w')
      fun _ => False := by
  unfold Post smiResizeRawBuffer
  by_cases hlen : len = 0
  · simp only [hlen,if_true]
    exact ⟨h,.of_memory (memory_report _ _),by simp [smiErrBufToSmall,smiOk],fun _ => ⟨rfl,rfl⟩,
      .inl rfl⟩
  · simp only [hlen,if_false]
    rw [← withHeap_realloc_fst]
    rcases hr : env.withHeap.realloc (len*4%2^64) w.dev with ⟨_ | junk,s⟩
    · obtain ⟨hs,hst,hun⟩ := reallocation_refused (Nat.pos_of_ne_zero hlen) hb hr h
      exact ⟨hs,hst,by simp [smiErrAllocFail,smiOk],fun _ => hun,.inl hun.2⟩
    · exact ⟨.realloc hb hr rfl,rfl,by simp,by simp,.inr ⟨_,heap_of_granted hr⟩⟩

variable (env) in
theorem growRawBuffer_sound {words : ℤ} (h0 : 0 ≤ words) (hb : words*4 < 2^64)
    (h : BufferSound w) :
    Post (growRawBuffer env.withHeap words) w
      (fun room w' => BufferSound w' ∧ SameStores w w' ∧
        (room = true → words ≤ w'.rawBuffer.size ∧ (w.rawBuffer.size < sizeT words →
          (env.realloc (sizeT words*4%2^64) w.dev.1).1 ≠ none)) ∧
        (room = false → Untouched w w') ∧ HeapStep w w')
      fun _ => False := by
  have hw : (sizeT words : ℤ) = words := by
    unfold sizeT
    omega
  have hn : sizeT words*4 < 2^64 := by omega
  unfold Post growRawBuffer
  by_cases hlt : w.rawBuffer.size < sizeT words
  · simp only [hlt,if_true]
    rw [← withHeap_realloc_fst]
    rcases hr : env.withHeap.realloc (sizeT words*4%2^64) w.dev with ⟨_ | junk,s⟩
    · obtain ⟨hs,hst,hun⟩ := reallocation_refused (by omega) hn hr h
      exact ⟨hs,hst,by simp,fun _ => hun,.inl hun.2⟩
    · exact ⟨.realloc hn hr rfl,rfl,fun _ => ⟨hw.ge,by simp⟩,by simp,
        .inr ⟨_,heap_of_granted hr⟩⟩
  · simp only [hlt,if_false]
    exact ⟨h,rfl,fun _ => ⟨by omega,by simp⟩,by simp,.inl rfl⟩

theorem readEntry_room {cxt : SmiCxt} {addr : BitVec 8} {len : ℤ} (h0 : 0 ≤ wordReads cxt len)
    (hb : wordReads cxt len*4 < 2^64) (h : BufferSound w) {w₁ : World (σ × Heap)}
    (he : readEntry env.withHeap cxt addr len w = some w₁) :
    BufferSound w₁ ∧ SameStores w w₁ ∧ wordReads cxt len ≤ w₁.rawBuffer.size ∧
      (w.rawBuffer.size < sizeT (wordReads cxt len) →
        (env.realloc (sizeT (wordReads cxt len)*4%2^64) w.dev.1).1 ≠ none) ∧ HeapStep w w₁ := by
  have hratio := (untouched_ratioWorld cxt w).same
  have hgrow := growRawBuffer_sound env h0 hb (h.of_same hratio)
  rw [hratio.2,dev_ratioWorld] at hgrow
  unfold readEntry at he
  split at he
  case h_1 w' hg =>
    cases he
    obtain ⟨hs,hst,hroom,-,hstep⟩ := (hgrow.elim hg).1 true rfl
    have hsetup : SameBlock w' (w'.apply env.withHeap (programmedReadSetup cxt addr len)) :=
      (sameBlock_steps env).apply (fun op _ => by cases op <;> trivial) w'
    have hheap : HeapStep w (w'.apply env.withHeap (programmedReadSetup cxt addr len)) := by
      unfold HeapStep at *
      rwa [hsetup.1,← (untouched_ratioWorld cxt w).2]
    refine ⟨hs.of_same hsetup,?_,hsetup.2.symm ▸ (hroom rfl).1,(hroom rfl).2,hheap⟩
    exact trans_of SameStores (.of_memory (memory_ratioWorld cxt w))
      (trans_of SameStores hst (.of_memory (memory_apply _ _ _)))
  case h_2 => cases he

structure RawCall.Safe (env : Env σ) (c : RawCall) (w : World (σ × Heap)) : Prop where
  sound : BufferSound (c.run env w)
  refused : c.Refused env w → Untouched w (c.run env w)
  entry : ∀ cxt addr len fuel w₁, c = .read cxt addr len fuel →
    readEntry env.withHeap cxt addr len w.fresh = some w₁ → wordReads cxt len ≤ w₁.rawBuffer.size
  inside : ∀ p i v, (p,i,v) ∈ (c.run env w).view Event.store? →
    ∃ bytes, (c.run env w).heap.Live bytes ∧ 4*i+4 ≤ bytes

theorem RawCall.safe_resize {len : ℕ} (hb : len*4 < 2^64) (h : BufferSound w) :
    (RawCall.resize len).Safe env w := by
  have hpost := smiResizeRawBuffer_sound env (w := w.fresh) hb h
  rcases hx : smiResizeRawBuffer env.withHeap len w.fresh with ⟨_ | r,w'⟩
  · exact ((hpost.elim hx).2 rfl).elim
  · obtain ⟨hs,hst,hok,hfail,-⟩ := (hpost.elim hx).1 r rfl
    have hrun : (RawCall.resize len).run env w = w' := by
      rw [RawCall.run,hx]
    refine ⟨hrun ▸ hs,?_,by rintro _ _ _ _ _ ⟨⟩,?_⟩
    · rintro ⟨n,hn,hnone⟩
      have hlen : n = len := by
        simp only [RawCall.asks] at hn
        split at hn <;> cases hn
        rfl
      subst hlen
      rw [hrun]
      exact hfail fun hr => hok hr hnone
    · rw [hrun,hst]
      simp

theorem smiProgrammedReadArr_inside {cxt : SmiCxt} {addr : BitVec 8} {len : ℤ} (fuel : ℕ)
    {w₁ : World (σ × Heap)} (he : readEntry env.withHeap cxt addr len w = some w₁)
    (hst : StoresBelow (wordReads cxt len) w₁) :
    SameBlock w₁ (smiProgrammedReadArr env.withHeap fuel cxt addr len w).2 ∧
      StoresBelow (wordReads cxt len)
        (smiProgrammedReadArr env.withHeap fuel cxt addr len w).2 := by
  have hawait := keeps_smiReadAwait (sameBlock_steps env) fuel (wordReads cxt len)
    (fun _ _ => trivial)
  have hrest (count : ℤ) : Keeps SameStores (decodeRaw cxt (wordReads cxt len) count >>= fun _ =>
      pure count : Drv (σ × Heap) ℤ) := keeps_then_pure (sameStores_decodeRaw _ _ _) _
  have hblock (count : ℤ) : Keeps SameBlock (decodeRaw cxt (wordReads cxt len) count >>= fun _ =>
      pure count : Drv (σ × Heap) ℤ) := keeps_then_pure (sameBlock_decodeRaw _ _ _) _
  rw [smiProgrammedReadArr_run he]
  constructor
  · exact keeps_bind hawait hblock w₁
  · exact (storesBelow_smiReadAwait fuel (by decide) hst).of_stores (keeps_after hrest w₁)

theorem RawCall.safe_read {cxt : SmiCxt} {addr : BitVec 8} {len : ℤ} (fuel : ℕ)
    (h0 : 0 ≤ wordReads cxt len) (hb : wordReads cxt len*4 < 2^64) (h : BufferSound w) :
    (RawCall.read cxt addr len fuel).Safe env w := by
  have hfresh : BufferSound w.fresh := h
  have hratio := untouched_ratioWorld cxt w.fresh
  have hgrow := growRawBuffer_sound env h0 hb (hfresh.of_same hratio.same)
  have hentry : ∀ w₁, readEntry env.withHeap cxt addr len w.fresh = some w₁ →
      wordReads cxt len ≤ w₁.rawBuffer.size :=
    fun w₁ he => (readEntry_room h0 hb hfresh he).2.2.1
  have hentries : ∀ cxt' addr' len' fuel' w₁, RawCall.read cxt addr len fuel =
      .read cxt' addr' len' fuel' → readEntry env.withHeap cxt' addr' len' w.fresh = some w₁ →
      wordReads cxt' len' ≤ w₁.rawBuffer.size := by
    rintro _ _ _ _ w₁ ⟨⟩ he
    exact hentry w₁ he
  rcases he : readEntry env.withHeap cxt addr len w.fresh with _ | w₁
  · -- the buffer could not grow
    rcases hg : growRawBuffer env.withHeap (wordReads cxt len) (ratioWorld cxt w.fresh)
      with ⟨_ | _ | _,w'⟩
    · exact ((hgrow.elim hg).2 rfl).elim
    · obtain ⟨hs,hst,-,hun,-⟩ := (hgrow.elim hg).1 false rfl
      have hrun : (RawCall.read cxt addr len fuel).run env w = w' := by
        rw [RawCall.run,smiProgrammedReadArr_refused he,hg]
      refine ⟨hrun ▸ hs,fun _ => ?_,hentries,?_⟩
      · rw [hrun]
        exact ⟨(hun rfl).1.trans hratio.1,(hun rfl).2.trans hratio.2⟩
      · rw [hrun,hst,SameStores.of_memory (memory_ratioWorld cxt w.fresh)]
        simp
    · simp [readEntry,hg] at he
  · obtain ⟨hs,hst,hroom,hgranted,-⟩ := readEntry_room h0 hb hfresh he
    have hbelow : StoresBelow (wordReads cxt len) w₁ := (storesBelow_fresh _ w).of_stores hst
    obtain ⟨hsame,hstores⟩ := smiProgrammedReadArr_inside fuel he hbelow
    have hsound := hs.of_same hsame
    refine ⟨hsound,?_,hentries,fun p i v hv => ⟨_,hsound,?_⟩⟩
    · rintro ⟨n,hn,hnone⟩
      simp only [RawCall.asks] at hn
      split at hn
      case isTrue hlt =>
        cases hn
        exact (hgranted hlt hnone).elim
      case isFalse => cases hn
    · have hi := hstores p i v hv
      have hsize := hsame.2
      show 4*i+4 ≤ 4*(smiProgrammedReadArr env.withHeap fuel cxt addr len w.fresh).2.rawBuffer.size
      omega

theorem wordReads_nonneg (cxt : SmiCxt) {len : ℤ} (h : 0 ≤ len) : 0 ≤ wordReads cxt len := by
  obtain ⟨n,rfl⟩ := Int.eq_ofNat_of_zero_le h
  rw [wordReads_natCast]
  positivity

theorem RawCall.safe {c : RawCall} (hc : c.Fits) (h : BufferSound w) : c.Safe env w := by
  cases c with
  | resize len => exact safe_resize hc h
  | read cxt addr len fuel => exact safe_read fuel (wordReads_nonneg cxt hc.1) hc.2 h

variable (env) in
theorem RawCall.heapStep {c : RawCall} (hc : c.Fits) (h : BufferSound w) :
    HeapStep w (c.run env w) := by
  have hfresh : BufferSound w.fresh := h
  cases c with
  | resize len =>
    have hpost := smiResizeRawBuffer_sound env hc hfresh
    rcases hx : smiResizeRawBuffer env.withHeap len w.fresh with ⟨_ | r,w'⟩
    · exact ((hpost.elim hx).2 rfl).elim
    · have hrun : (RawCall.resize len).run env w = w' := by rw [RawCall.run,hx]
      rw [hrun]
      exact ((hpost.elim hx).1 r rfl).2.2.2.2
  | read cxt addr len fuel =>
    have h0 := wordReads_nonneg cxt hc.1
    rcases he : readEntry env.withHeap cxt addr len w.fresh with _ | w₁
    · have hratio := untouched_ratioWorld cxt w.fresh
      have hgrow := growRawBuffer_sound env h0 hc.2 (hfresh.of_same hratio.same)
      have hrun : (RawCall.read cxt addr len fuel).run env w =
          (growRawBuffer env.withHeap (wordReads cxt len) (ratioWorld cxt w.fresh)).2 := by
        rw [RawCall.run,smiProgrammedReadArr_refused he]
      rcases hg : growRawBuffer env.withHeap (wordReads cxt len) (ratioWorld cxt w.fresh)
        with ⟨_ | room,w'⟩
      · exact ((hgrow.elim hg).2 rfl).elim
      · have hstep := ((hgrow.elim hg).1 room rfl).2.2.2.2
        rw [hrun,hg]
        unfold HeapStep at *
        rwa [hratio.2] at hstep
    · obtain ⟨-,hst,-,-,hstep⟩ := readEntry_room h0 hc.2 hfresh he
      have hsame := (smiProgrammedReadArr_inside fuel he ((storesBelow_fresh _ w).of_stores hst)).1
      unfold HeapStep at *
      rwa [← hsame.1] at hstep

variable (env) in
theorem runAll_sound {calls : List RawCall} (hfit : ∀ c ∈ calls, c.Fits) (h : BufferSound w) :
    BufferSound (RawCall.runAll env calls w) := by
  induction calls generalizing w with
  | nil => exact h
  | cons c calls ih =>
    exact ih (fun c' hc' => hfit c' (List.mem_cons_of_mem c hc'))
      (RawCall.safe (hfit c (List.mem_cons_self ..)) h).sound

def unsetWorld : World ((List Word × ℕ) × Heap) :=
  ⟨(([0x12345678],0),.none),⟨fun _ => 0,0⟩,empty,⟨0,0,0,0,0,0⟩,[]⟩

/-- After any run of calls on a buffer that was set up, the size field describes the live block,
and the next call keeps that, touches nothing when it is refused, waits only with room for its
words, and stores inside the block. -/
theorem rawBuffer_invariant (env : Env σ) {w₀ w : World (σ × Heap)}
    (hinit : smiInitRawBuffer env w₀ = (some smiOk,w)) {calls : List RawCall}
    (hfit : ∀ c ∈ calls, c.Fits) :
    BufferSound (RawCall.runAll env calls w) ∧
      ∀ c : RawCall, c.Fits → c.Safe env (RawCall.runAll env calls w) := by
  have hsound := runAll_sound env hfit (smiInitRawBuffer_sound hinit)
  exact ⟨hsound,fun c hc => RawCall.safe hc hsound⟩

theorem rawBuffer_invariant_queued : ∃ w, smiInitRawBuffer fifoEnv unsetWorld = (some smiOk,w) ∧
    BufferSound (RawCall.runAll fifoEnv
      [.resize 1,.read (deviceCxt 1 false false true) 0 4 9] w) ∧
    ∀ c : RawCall, c.Fits → c.Safe fifoEnv (RawCall.runAll fifoEnv
      [.resize 1,.read (deviceCxt 1 false false true) 0 4 9] w) :=
  ⟨_,rfl,rawBuffer_invariant fifoEnv rfl (by simp [RawCall.Fits]; decide)⟩

end Calls

end RpiSmi
