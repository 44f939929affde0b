import RpiSmi.ReadAwait
import RpiSmi.Samples
import RpiSmi.Transfer

/-!
# Programmed reads

`readEntry` is the world in which the wait of `smi_programmed_read_arr` begins.
From there the trace decides: the words that arrive replace the front of the
raw buffer, and the decoders turn the buffer into the caller's bytes.
-/

namespace RpiSmi

open Exec Elements

variable {σ : Type}

def ratioWorld (cxt : SmiCxt) (w : World σ) : World σ :=
  if packedRatio? cxt = none then w.report "Unknown interface configuration - using 1:1 ratio"
  else w

/-- Setup done and the wait about to begin; `none` when the raw buffer could not grow. -/
def readEntry (env : Env σ) (cxt : SmiCxt) (addr : BitVec 8) (len : ℤ) (w : World σ) :
    Option (World σ) :=
  match growRawBuffer env (wordReads cxt len) (ratioWorld cxt w) with
  | (some true,w') => some (w'.apply env (programmedReadSetup cxt addr len))
  | _ => none

def decodeBytes (cxt : SmiCxt) (raw : ℕ → Word) (words count : ℤ) (m : Bytes) : Bytes :=
  match Width.ofCode cxt.rwidth with
  | none => m
  | some width =>
    if cxt.pxldata then unpacker raw (sizeT words) width (.ofFlag cxt.wformat) cxt.wswap m
    else truncator raw (sizeT count) width m

section Run

variable {env : Env σ} {cxt : SmiCxt} {addr : BitVec 8} {len : ℤ} {w w₁ : World σ}

theorem smiPackedRatio_run (cxt : SmiCxt) (w : World σ) :
    smiPackedRatio cxt w = (some (packedRatio cxt),ratioWorld cxt w) := by
  rcases h : packedRatio? cxt with _ | ratio <;>
    simp [smiPackedRatio,packedRatio,ratioWorld,h,bind_apply]

theorem decodeRaw_run (cxt : SmiCxt) (words count : ℤ) (w : World σ) :
    ∃ w', decodeRaw cxt words count w = (some (),w') ∧ w'.dev = w.dev ∧
      w'.retData = decodeBytes cxt w.rawBuffer.buf words count w.retData := by
  rcases hw : Width.ofCode cxt.rwidth with _ | width <;> rcases hp : cxt.pxldata with _ | _ <;>
    simp [decodeRaw,decodeBytes,smiUnpack,smiTruncate,hw,hp,bind_apply,World.report]

theorem smiProgrammedReadArr_run (he : readEntry env cxt addr len w = some w₁) (fuel : ℕ) :
    smiProgrammedReadArr env fuel cxt addr len w =
      (smiReadAwait env fuel .rawBuffer (wordReads cxt len) >>= fun count =>
        decodeRaw cxt (wordReads cxt len) count >>= fun _ => pure count) w₁ := by
  unfold readEntry at he
  split at he
  case h_1 w' hg =>
    cases he
    have hg' : growRawBuffer env (smiDivCeil (len*(packedRatio cxt).read)
        (packedRatio cxt).outPixels) (ratioWorld cxt w) = (some true,w') := hg
    simp only [smiProgrammedReadArr,bind_apply,smiPackedRatio_run,hg',if_true,regOps_run]
    rfl
  case h_2 => cases he

theorem memory_ratioWorld (cxt : SmiCxt) (w : World σ) : (ratioWorld cxt w).memory = w.memory := by
  unfold ratioWorld
  split
  · exact memory_report _ _
  · rfl

theorem dev_ratioWorld (cxt : SmiCxt) (w : World σ) : (ratioWorld cxt w).dev = w.dev := by
  unfold ratioWorld
  split <;> rfl

theorem retData_growRawBuffer (env : Env σ) (words : ℤ) (w : World σ) :
    (growRawBuffer env words w).2.retData = w.retData := by
  unfold growRawBuffer
  split
  · split <;> rfl
  · rfl

theorem retData_readEntry (he : readEntry env cxt addr len w = some w₁) :
    w₁.retData = w.retData := by
  have hr := congrArg Memory.retData (memory_ratioWorld cxt w)
  have hg := retData_growRawBuffer env (wordReads cxt len) (ratioWorld cxt w)
  unfold readEntry at he
  split at he
  case h_1 w' h =>
    cases he
    rw [h] at hg
    exact (congrArg Memory.retData (memory_apply env w'
      (programmedReadSetup cxt addr len))).trans (hg.trans hr)
  case h_2 => cases he

theorem smiProgrammedReadArr_refused (he : readEntry env cxt addr len w = none) (fuel : ℕ) :
    smiProgrammedReadArr env fuel cxt addr len w =
      (some (-1),(growRawBuffer env (wordReads cxt len) (ratioWorld cxt w)).2) := by
  rcases h : growRawBuffer env (wordReads cxt len) (ratioWorld cxt w) with ⟨_ | _ | _,w'⟩
  · unfold growRawBuffer at h
    split at h
    · split at h <;> cases h
    · cases h
  · have h' : growRawBuffer env (smiDivCeil (len*(packedRatio cxt).read)
        (packedRatio cxt).outPixels) (ratioWorld cxt w) = (some false,w') := h
    simp [smiProgrammedReadArr,bind_apply,smiPackedRatio_run,h']
  · simp [readEntry,h] at he

theorem decode_after_await {ws : List Word} {v : World σ} {count : ℤ}
    (he : readEntry env cxt addr len w = some w₁)
    (hm : v.memory = Memory.storeAll .rawBuffer 0 ws w₁.memory) :
    ∃ w', (decodeRaw cxt (wordReads cxt len) count >>= fun _ => pure count) v = (some count,w') ∧
      w'.retData = decodeBytes cxt (overlay ws w₁.rawBuffer.buf) (wordReads cxt len) count
        w.retData := by
  obtain ⟨w',hd,-,hr⟩ := decodeRaw_run cxt (wordReads cxt len) count v
  have hb : v.rawBuffer.buf = overlay ws w₁.rawBuffer.buf :=
    (congrArg (fun m => m.rawBuffer.buf) hm).trans (Memory.buf_storeAll_zero ws w₁.memory)
  have hret : v.retData = w₁.retData :=
    (congrArg Memory.retData hm).trans (Memory.retData_storeAll_rawBuffer 0 ws w₁.memory)
  exact ⟨w',bind_run hd _,by rw [hr,hb,hret,retData_readEntry he]⟩

/-- A call on a trace: it returns, with the words that arrived over the raw buffer decoded. -/
theorem smiProgrammedReadArr_ends (he : readEntry env cxt addr len w = some w₁) {ws : List Word}
    {late : Bool} {t : σ} (ha : Arrivals env (w₁.deadline env progReadTimeoutS)
      (wordReads cxt len).toNat 0 (w₁.clocked env).dev ws late t) :
    ∃ w', Ends (fun fuel => smiProgrammedReadArr env fuel cxt addr len) w
        (if late then -smiErrTimeout else (wordReads cxt len).toNat) w' ∧
      w'.retData = decodeBytes cxt (overlay ws w₁.rawBuffer.buf) (wordReads cxt len)
        (if late then -smiErrTimeout else (wordReads cxt len).toNat) w.retData := by
  obtain ⟨v,hv,hm,-⟩ := smiReadAwait_ends (p := .rawBuffer) (by decide) _ ha
  obtain ⟨w',hd,hr⟩ := decode_after_await he hm
  refine ⟨w',?_,hr⟩
  simp only [Ends,smiProgrammedReadArr_run he]
  exact ends_bind hv (ends_of_run hd)

/-- Every call: either nothing has been stored for the caller, or the wait has met a trace. -/
theorem smiProgrammedReadArr_retData (fuel : ℕ) :
    (smiProgrammedReadArr env fuel cxt addr len w).2.retData = w.retData ∨
    ∃ w₁ ws late t, readEntry env cxt addr len w = some w₁ ∧
      Arrivals env (w₁.deadline env progReadTimeoutS) (wordReads cxt len).toNat 0
        (w₁.clocked env).dev ws late t ∧
      (smiProgrammedReadArr env fuel cxt addr len w).2.retData =
        decodeBytes cxt (overlay ws w₁.rawBuffer.buf) (wordReads cxt len)
          (if late then -smiErrTimeout else (wordReads cxt len).toNat) w.retData := by
  rcases he : readEntry env cxt addr len w with _ | w₁
  · rw [smiProgrammedReadArr_refused he]
    exact .inl ((retData_growRawBuffer _ _ _).trans
      (congrArg Memory.retData (memory_ratioWorld cxt w)))
  · rw [smiProgrammedReadArr_run he]
    rcases hx : smiReadAwait env fuel .rawBuffer (wordReads cxt len) w₁ with ⟨_ | r,v⟩
    · have hk := keeps_smiReadAwait (sameRet_steps env) fuel (wordReads cxt len)
        (fun _ _ => trivial) w₁
      rw [hx] at hk
      rw [bind_run_none hx]
      exact .inl (hk.trans (retData_readEntry he))
    · obtain ⟨ws,late,t,ha,rfl,hm⟩ := smiReadAwait_outcome (by decide) hx
      obtain ⟨w',hd,hr⟩ := decode_after_await he hm
      rw [bind_run hx,hd]
      exact .inr ⟨w₁,ws,late,t,rfl,ha,hr⟩

end Run
end RpiSmi
