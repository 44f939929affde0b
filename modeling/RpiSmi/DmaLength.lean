import Mathlib.Algebra.Order.Floor.Div
import RpiSmi.DmaStart
import RpiSmi.ReadBuffer
import RpiSmi.RegisterFile

/-!
# The length of a DMA transfer

`SMI_L` counts transfers on the bus, the control block the bytes of FIFO words.
A read sizes its control block by the packing, a write does not.
-/

namespace RpiSmi

open Exec BitField

variable {σ : Type}

/-- The FIFO words of `len` transfers on the bus: the fewest that hold them all. -/
def PackRatio.words (r : PackRatio) (len : ℕ) : ℕ := len*r.read ⌈/⌉ r.outPixels

/-- No `int` overflows on the way to the length of the control block. -/
def DmaCall.LengthFits (d : DmaCall) : Prop :=
  0 ≤ d.len ∧ match d.dir with
    | .read => d.len*(packedRatio d.cxt).read+(packedRatio d.cxt).outPixels < 2^31 ∧
      wordReads d.cxt d.len*4 < 2^31
    | .write => d.len*4 < 2^31

/-- `SMI_L` is programmed with `len`, and the control block moves the FIFO words of as many
transfers. -/
structure DmaCall.LengthAgrees (env : Env σ) (d : DmaCall) (w : World σ) : Prop where
  programmed : ∀ fuel v, .write smioL v ∈ (d.run env fuel w.fresh).2.log →
    (SmiL.length.get v : ℤ) = d.len
  moved : ∀ fuel c, .control c ∈ (d.run env fuel w.fresh).2.log →
    c.tfrLen.toNat/4 = (packedRatio d.cxt).words d.len.toNat

theorem wordReads_words {cxt : SmiCxt} {len : ℤ} (h : 0 ≤ len) :
    wordReads cxt len = ((packedRatio cxt).words len.toNat : ℕ) := by
  obtain ⟨n,rfl⟩ := Int.eq_ofNat_of_zero_le h
  exact wordReads_natCast cxt n

/-- As many words as transfers: no packing, or too few transfers for it to save a word. -/
theorem table_words_eq_self_iff (width : Width) (format : Format) (n : ℕ) :
    (PackRatio.table width format).words n = n ↔
      (width = .w18 ∧ format = .xrgb) ∨ n ≤ 1 ∨ (width = .w16 ∧ format = .xrgb ∧ n = 2) := by
  cases width <;> cases format <;>
    simp [PackRatio.words,PackRatio.table,Nat.ceilDiv_eq_add_pred_div] <;> omega

theorem words_eq_self_iff {cxt : SmiCxt} {width : Width} (hw : Width.ofCode cxt.rwidth = some width)
    (n : ℕ) : (packedRatio cxt).words n = n ↔ cxt.pxldata = false ∨
      (width = .w18 ∧ cxt.wformat = true) ∨ n ≤ 1 ∨
        (width = .w16 ∧ cxt.wformat = true ∧ n = 2) := by
  have hformat : Format.ofFlag cxt.wformat = .xrgb ↔ cxt.wformat = true := by
    cases cxt.wformat <;> decide
  rw [packedRatio_eq hw]
  cases cxt.pxldata with
  | false => simp [PackRatio.words]
  | true => simpa [hformat] using table_words_eq_self_iff width (Format.ofFlag cxt.wformat) n

theorem read_pos (cxt : SmiCxt) : 0 < (packedRatio cxt).read := by
  rcases hw : Width.ofCode cxt.rwidth with _ | width
  · rcases hp : cxt.pxldata <;> simp [packedRatio,packedRatio?,hp,hw]
  · rw [packedRatio_eq hw]
    split
    · cases width <;> cases Format.ofFlag cxt.wformat <;> decide
    · decide

theorem tfrLen_words {n : ℤ} (h0 : 0 ≤ n) (hmax : n*4 < 2^31) :
    (BitVec.ofInt 32 (n*4)).toNat/4 = n.toNat := by
  rw [BitVec.toNat_ofInt]
  omega

namespace DmaCall

variable {env : Env σ} {d : DmaCall} {w : World σ}

theorem LengthFits.lt (h : d.LengthFits) : d.len < 2^31 := by
  obtain ⟨h0,hfits⟩ := h
  have hread : (1 : ℤ) ≤ (packedRatio d.cxt).read := by exact_mod_cast read_pos d.cxt
  have hout := outPixels_pos d.cxt
  have hle : d.len ≤ d.len*(packedRatio d.cxt).read := le_mul_of_one_le_right h0 hread
  split at hfits <;> omega

theorem block_words (h : d.LengthFits) (c : DmaCb) : (d.block c).tfrLen.toNat/4 =
    match d.dir with
    | .read => (packedRatio d.cxt).words d.len.toNat
    | .write => d.len.toNat := by
  obtain ⟨h0,hfits⟩ := h
  rw [block]
  cases hd : d.dir with
  | read =>
    have hwords : wordReads d.cxt d.len = ((packedRatio d.cxt).words d.len.toNat : ℕ) :=
      wordReads_words h0
    rw [hd] at hfits
    change (BitVec.ofInt 32 (wordReads d.cxt d.len*4)).toNat/4 = _
    rw [tfrLen_words (by omega) hfits.2,hwords,Int.toNat_natCast]
  | write =>
    rw [hd] at hfits
    exact tfrLen_words h0 hfits

theorem logged_lengths (hn : ¬ d.HasNull) (fuel : ℕ) :
    Logged (fun e => (∀ c, e = .control c → c = d.block w.cb) ∧
      ∀ v, e = .write smioL v → SmiL.length.get v = uint32 d.len%2^32) w (d.run env fuel w).2 := by
  let Q : Event → Prop := fun e => (∀ c, e = .control c → c = d.block w.cb) ∧
    ∀ v, e = .write smioL v → SmiL.length.get v = uint32 d.len%2^32
  have hq : ∀ e : Event, e.IsStep → Q e := by
    intro e he
    refine ⟨?_,?_⟩
    · rintro c rfl
      exact absurd he id
    · rintro v rfl
      exact absurd he id
  have hops : ∀ op ∈ d.setup ++ d.rest, op.Logs Q := by
    have hlen (x : Word) : SmiL.length.get (SmiL.length.set (uint32 d.len) x) =
        uint32 d.len%2^32 := SmiL.length.get_set _ x
    unfold setup rest
    cases d.dir <;> simp [programmedReadDmaSetup,programmedWriteDmaSetup,smiStart,RegOp.Logs,Q,
      smioCs,smioA,smioL,smioDc,hlen]
  have hdma (off : ℕ) (v : Word) : Q (.write (.dma off) v) := by
    simp [Q,smioL]
  exact logged_run hq hn (by simp [Q]) (by simp [Q]) hops (fun _ => ⟨hdma _ _,hdma _⟩) (hdma _) fuel

theorem control_mem (hn : ¬ d.HasNull) (fuel : ℕ) :
    .control (d.block w.cb) ∈ (d.run env fuel w).2.log := by
  have hq : ∀ e : Event, e.IsStep → True := fun _ _ => trivial
  have hrest : ∀ op ∈ d.rest, op.Logs fun _ => True := by
    intro op _
    cases op <;> simp [RegOp.Logs]
  have hrun : Logged (fun _ => True) (d.begun env w) (d.run env fuel w).2 := by
    rw [run_eq hn]
    exact trans_of _ (logged_after hq trivial hrest fun _ => ⟨by simp,by simp⟩)
      (logged_wait hq (by simp) fuel _)
  exact hrun.mem block_mem

/-- A read agrees always. A write moves a word for each transfer. -/
theorem lengthAgrees_iff {width : Width} (hw : Width.ofCode d.cxt.rwidth = some width)
    (hfits : d.LengthFits) (w : World σ) :
    d.LengthAgrees env w ↔ d.HasNull ∨ d.dir = .read ∨ d.cxt.pxldata = false ∨
      (width = .w18 ∧ d.cxt.wformat = true) ∨ d.len ≤ 1 ∨
        (width = .w16 ∧ d.cxt.wformat = true ∧ d.len = 2) := by
  by_cases hn : d.HasNull
  · refine iff_of_true ⟨fun fuel v h => ?_,fun fuel c h => ?_⟩ (.inl hn) <;>
      · rw [run_null hn] at h
        cases h
  have h0 := hfits.1
  have hlt := hfits.lt
  have hagrees : d.LengthAgrees env w ↔
      (d.block w.fresh.cb).tfrLen.toNat/4 = (packedRatio d.cxt).words d.len.toNat := by
    refine ⟨fun h => h.moved 0 _ (control_mem hn 0),fun h => ⟨fun fuel v hv => ?_,?_⟩⟩
    · rw [((logged_lengths hn fuel).log_eq rfl _ hv).2 v rfl,uint32]
      omega
    · intro fuel c hc
      rw [((logged_lengths hn fuel).log_eq rfl _ hc).1 c rfl]
      exact h
  rw [hagrees,block_words hfits,or_iff_right hn]
  rcases hdir : d.dir with _ | _
  · simp
  · have hself := words_eq_self_iff hw d.len.toNat
    have hone : d.len.toNat ≤ 1 ↔ d.len ≤ 1 := by omega
    have htwo : d.len.toNat = 2 ↔ d.len = 2 := by omega
    rw [hone,htwo] at hself
    simp only [reduceCtorEq,false_or]
    rw [← hself]
    exact eq_comm

def packedWrite : DmaCall := ⟨.write,deviceCxt 0 false false true,64,0,16,0⟩

theorem packedWrite_fits : packedWrite.LengthFits :=
  ⟨by decide,show (16 : ℤ)*4 < 2^31 by decide⟩

theorem lengthAgrees_iff_packed : Width.ofCode packedWrite.cxt.rwidth = some .w8 ∧
    packedWrite.LengthFits ∧
    (packedWrite.LengthAgrees storageEnv (World.init fun _ => 0) ↔
      packedWrite.HasNull ∨ packedWrite.dir = .read ∨ packedWrite.cxt.pxldata = false ∨
        (Width.w8 = .w18 ∧ packedWrite.cxt.wformat = true) ∨ packedWrite.len ≤ 1 ∨
          (Width.w8 = .w16 ∧ packedWrite.cxt.wformat = true ∧ packedWrite.len = 2)) :=
  ⟨rfl,packedWrite_fits,lengthAgrees_iff rfl packedWrite_fits (World.init fun _ => 0)⟩

/-- The control block moves 16 words, the SMI takes 4. -/
theorem lengthAgrees_not : ¬ ∀ (d : DmaCall) (width : Width) (w : World RegFile),
    Width.ofCode d.cxt.rwidth = some width → d.LengthFits → d.LengthAgrees storageEnv w := by
  intro h
  have hmoved := (h packedWrite .w8 (World.init fun _ => 0) rfl packedWrite_fits).moved 0 _
    (control_mem (by decide) 0)
  revert hmoved
  decide

end DmaCall
end RpiSmi
