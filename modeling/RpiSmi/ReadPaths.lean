import RpiSmi.BusRuns

/-!
# Two ways to the same samples

A DMA read leaves FIFO words in the caller's buffer, a programmed read decodes them
from the raw buffer. When the same words arrive, the buffer of the one decodes to
what the other hands over.
-/

namespace RpiSmi

open Exec BitField Elements

section Buffer

variable {b : DmaCb} {m₀ : Word → Word} {k : ℕ} {x : BusData}

theorem Filled.mem_destAt (h : Filled b m₀ k x)
    (hinj : ∀ i < k, ∀ j < k, b.destAt i = b.destAt j → i = j) {i : ℕ} (hi : i < k) :
    x.arrived[i]? = some (x.mem (b.destAt i)) := by
  have hlt : i < x.arrived.length := hi.trans_le h.arrived
  rw [List.getElem?_eq_getElem hlt,h.mem]
  refine congrArg some (Writes.run_of_mem ?_ ?_ m₀).symm
  · refine List.mem_mapIdx.mpr ⟨i,?_,?_⟩
    · rw [List.length_take_of_le h.arrived]
      exact hi
    · rw [List.getElem_take]
  · intro c hc haddress
    obtain ⟨j,hj,rfl⟩ := List.mem_mapIdx.mp hc
    rw [List.length_take_of_le h.arrived] at hj
    obtain rfl : j = i := hinj j hj i hi haddress
    exact List.getElem_take

end Buffer

namespace DmaCall

variable {d : DmaCall} {c : DmaCb} {i j : ℕ}

/-- A buffer that fits the length field does not come round to its start. -/
theorem buffer_inj (hi : i < (d.block c).words) (hj : j < (d.block c).words)
    (h : d.buffer c i = d.buffer c j) : i = j := by
  have hlt : 4*(d.block c).words < 2^32 := by
    have := (d.block c).tfrLen.isLt
    unfold DmaCb.words
    omega
  have hoff : BitVec.ofNat 32 (4*i) = BitVec.ofNat 32 (4*j) := (BitVec.add_right_inj _).mp h
  have hnat := congrArg BitVec.toNat hoff
  simp only [BitVec.toNat_ofNat] at hnat
  omega

theorem read_words (hd : d.dir = .read) (h : d.LengthFits) (c : DmaCb) :
    ((d.block c).words : ℤ) = wordReads d.cxt d.len := by
  have hwords := block_words h c
  rw [hd] at hwords
  rw [wordReads_words h.1]
  exact congrArg Nat.cast hwords

end DmaCall

section Ways

variable {σ : Type} {T : DmaTrace} {d : DmaCall} {u : World (ℕ × DmaSys)}

theorem DmaCall.Moved.read_buffer {c : DmaCb} {m₀ : Word → Word}
    {x : Option ℤ × World (ℕ × DmaSys)} (h : d.Moved T c m₀ x) (hd : d.dir = .read)
    (hone : x.1 = some 1) {i : ℕ} (hi : i < (d.block c).words) :
    x.2.dev.2.data.arrived[i]? = some (x.2.dev.2.data.mem (d.buffer c i)) := by
  have hfilled : Filled (d.block c) m₀ (d.block c).words x.2.dev.2.data := by
    have hcarried := h.complete hone
    rw [DmaCall.Carried,hd] at hcarried
    exact hcarried
  have hdest := (DmaCall.block_read hd c).2.2
  have hinj : ∀ i < (d.block c).words, ∀ j < (d.block c).words,
      (d.block c).destAt i = (d.block c).destAt j → i = j := by
    intro i hi j hj hij
    rw [hdest,hdest] at hij
    exact DmaCall.buffer_inj hi hj hij
  rw [hfilled.mem_destAt hinj hi,hdest]

/-- A DMA read that returned 1 and a programmed read on any device at which the same words arrive:
the latter returns too, and hands over what the buffer of the former decodes to. -/
theorem dmaRead_agrees (hd : d.dir = .read) (hs : d.Suited T u.cb) (h0 : T.channel = 0)
    (hi : u.dev.2.Idle) (fuel : ℕ) (hone : (d.run T.env fuel u).1 = some 1) (env : Env σ)
    (w : World σ) {w₁ : World σ} (he : readEntry env d.cxt d.addr d.len w.fresh = some w₁) {s : σ}
    (harr : Arrivals env (w₁.deadline env progReadTimeoutS) (wordReads d.cxt d.len).toNat 0
      (w₁.clocked env).dev
      ((d.run T.env fuel u).2.dev.2.data.arrived.take (d.block u.cb).words) false s) :
    ∃ w', Ends (fun n => smiProgrammedReadArr env n d.cxt d.addr d.len) w.fresh
        (wordReads d.cxt d.len) w' ∧
      w'.retData = decodeBytes d.cxt
        (fun i => (d.run T.env fuel u).2.dev.2.data.mem (d.buffer u.cb i))
        (wordReads d.cxt d.len) (wordReads d.cxt d.len) empty := by
  have hmoved := (hs.run_moved h0 hi fuel).2
  have hwords := DmaCall.read_words hd hs.fits u.cb
  obtain ⟨w',hend,hret⟩ := smiProgrammedReadArr_ends he harr
  rw [← hwords] at hend hret ⊢
  refine ⟨w',by simpa using hend,?_⟩
  have hsize : (d.block u.cb).words < 2^64 := by
    have := (d.block u.cb).tfrLen.isLt
    unfold DmaCb.words
    omega
  simp only [Bool.false_eq_true,if_false,Int.toNat_natCast] at hret
  refine hret.trans (decodeBytes_congr fun i hi => ?_)
  rw [ite_self,sizeT_natCast hsize] at hi
  have hbuffer := hmoved.read_buffer hd hone hi
  rw [overlay,List.getElem?_take_of_lt hi,hbuffer,Option.getD_some]

def sampleBus : World (ℕ × DmaSys) :=
  (sampleTurn (.dma (sampleDma .read))).entry (World.init idleBus)

def sampleRead : Option ℤ × World (ℕ × DmaSys) :=
  (sampleDma .read).run (sampleTurn (.dma (sampleDma .read))).trace.env 100 sampleBus

/-- The first word that arrives after CLEAR is 2. -/
theorem dmaRead_agrees_sample : sampleRead.1 = some 1 ∧
    ∃ w', Ends (fun n => smiProgrammedReadArr fifoEnv n (sampleDma .read).cxt (sampleDma .read).addr
        (sampleDma .read).len) (World.init ([2],0)).fresh
        (wordReads (sampleDma .read).cxt (sampleDma .read).len) w' ∧
      w'.retData = decodeBytes (sampleDma .read).cxt
        (fun i => sampleRead.2.dev.2.data.mem ((sampleDma .read).buffer sampleBus.cb i))
        (wordReads (sampleDma .read).cxt (sampleDma .read).len)
        (wordReads (sampleDma .read).cxt (sampleDma .read).len) empty := by
  have hone : sampleRead.1 = some 1 := by decide +kernel
  have harrived : sampleRead.2.dev.2.data.arrived.take ((sampleDma .read).block
      sampleBus.cb).words = [2] := by
    decide +kernel
  have hwords : (wordReads (sampleDma .read).cxt (sampleDma .read).len).toNat = 1 := by decide
  unfold sampleRead at hone harrived ⊢
  refine ⟨hone,dmaRead_agrees rfl (sampleDma_suited .read) rfl ⟨rfl,rfl⟩ 100 hone fifoEnv
    (World.init ([2],0)) rfl (s := ([],1)) ?_⟩
  rw [harrived,hwords]
  exact fifoEnv_full _ [2] 1 0

end Ways
end RpiSmi
