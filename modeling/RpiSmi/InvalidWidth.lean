import RpiSmi.Invocations
import RpiSmi.ReadBuffer

/-!
# Widths that the switches do not know

The ratio, the unpackers and the truncators each have a switch over the width
code. What a call returns comes from its wait alone, so a code that none of them
knows shows in the messages only.
-/

namespace RpiSmi

open Exec Elements

variable {σ : Type} {env : Env σ} {cxt : SmiCxt} {addr : BitVec 8}

/-- A call that returns has either been refused its buffer, or it returns what its wait has
counted, with the buffer decoded. -/
theorem smiProgrammedReadArr_outcome {fuel : ℕ} {len r : ℤ} {w u : World σ}
    (h : smiProgrammedReadArr env fuel cxt addr len w = (some r,u)) :
    (NoBuffer env cxt len w ∧ r = -1 ∧ u.retData = w.retData) ∨
    (¬ NoBuffer env cxt len w ∧ ∃ (raw : ℕ → Word) (late : Bool),
      r = (if late then -smiErrTimeout else (wordReads cxt len).toNat) ∧
      u.retData = decodeBytes cxt raw (wordReads cxt len) r w.retData) := by
  rcases he : readEntry env cxt addr len w with _ | w₁
  · rw [smiProgrammedReadArr_refused he] at h
    cases h
    refine .inl ⟨readEntry_eq_none_iff.mp he,rfl,?_⟩
    exact (retData_growRawBuffer _ _ _).trans
      (congrArg Memory.retData (memory_ratioWorld cxt w))
  · have hb : ¬ NoBuffer env cxt len w := fun hn => by
      rw [readEntry_eq_none_iff.mpr hn] at he
      cases he
    rw [smiProgrammedReadArr_run he] at h
    rcases hx : smiReadAwait env fuel .rawBuffer (wordReads cxt len) w₁ with ⟨_ | count,v⟩
    · rw [bind_run_none hx] at h
      cases h
    · obtain ⟨ws,late,t,-,hr,hm⟩ := smiReadAwait_outcome (by decide) hx
      obtain ⟨w',hd,hret⟩ := decode_after_await he hm
      rw [bind_run hx,hd] at h
      cases h
      exact .inr ⟨hb,overlay ws w₁.rawBuffer.buf,late,hr,hret⟩

/-- XRGB at 16 bits with one sample: the unpacker takes words in pairs, and there is one. -/
def StoresNone (cxt : SmiCxt) (width : Width) (len : ℕ) : Prop :=
  cxt.pxldata = true ∧ width = .w16 ∧ Format.ofFlag cxt.wformat = .xrgb ∧ len = 1

section Stored

variable {width : Width} {len : ℕ}

theorem stored_pos_iff (hw : Width.ofCode cxt.rwidth = some width) (hlen : 1 ≤ len)
    (hfit : SizeFits cxt len) (raw : ℕ → Word) {r : ℤ} {late : Bool}
    (hr : r = if late then -smiErrTimeout else (wordReads cxt len).toNat) :
    0 < (storedSamples cxt width (firstWords raw
      (sizeT (if cxt.pxldata then wordReads cxt len else r)))).length ↔
      ¬ StoresNone cxt width len := by
  have hlt := hfit.wordCount_lt
  rw [length_storedSamples,length_firstWords]
  rcases hp : cxt.pxldata
  · have hn : wordCount cxt len = len := by
      rw [wordCount_eq,packedRatio_eq hw,hp]
      simp
    have hpos : 0 < sizeT r := by
      cases late with
      | true => simp [hr,smiErrTimeout,sizeT]
      | false =>
        rw [hr,if_neg Bool.false_ne_true,wordReads_eq,Int.toNat_natCast,
          sizeT_natCast (by omega)]
        omega
    simp [StoresNone,hp,hpos]
  · rw [if_pos rfl,if_pos rfl,wordReads_eq,sizeT_natCast (by omega),wordCount_eq,
      packedRatio_eq hw]
    unfold StoresNone
    cases width <;> rcases hf : Format.ofFlag cxt.wformat <;> simp [PackRatio.table,hp] <;> omega

theorem decodeBytes_stores_iff (hlen : 1 ≤ len) (hfit : SizeFits cxt len) (raw : ℕ → Word)
    {r : ℤ} {late : Bool} (hr : r = if late then -smiErrTimeout else (wordReads cxt len).toNat) :
    (∃ o, decodeBytes cxt raw (wordReads cxt len) r empty o ≠ none) ↔
      ∃ width, Width.ofCode cxt.rwidth = some width ∧ ¬ StoresNone cxt width len := by
  rcases hw : Width.ofCode cxt.rwidth with _ | width
  · simp [decodeBytes,hw,empty]
  · have hsize := elemSize_pos width
    rw [decodeBytes_eq hw]
    simp only [ne_eq,putAll_none hsize,not_le,Option.some.injEq,exists_eq_left']
    rw [← stored_pos_iff hw hlen hfit raw hr]
    constructor
    · rintro ⟨o,ho⟩
      exact Nat.pos_of_mul_pos_left (Nat.lt_of_le_of_lt (Nat.zero_le o) ho)
    · intro h
      exact ⟨0,Nat.mul_pos hsize h⟩

theorem smiProgrammedReadArr_neg_iff {fuel : ℕ} {r : ℤ} {w u : World σ}
    (h : smiProgrammedReadArr env fuel cxt addr len w = (some r,u)) :
    r < 0 ↔ NoBuffer env cxt len w := by
  rcases smiProgrammedReadArr_outcome h with ⟨hb,rfl,-⟩ | ⟨hb,-,late,hr,-⟩
  · exact iff_of_true (by decide) hb
  · refine iff_of_false ?_ hb
    cases late with
    | true => simp [hr,smiErrTimeout]
    | false =>
      rw [hr,if_neg Bool.false_ne_true]
      omega

theorem sizeFits_two (cxt : SmiCxt) : SizeFits cxt 2 := by
  unfold SizeFits packedRatio packedRatio?
  generalize Format.ofFlag cxt.wformat = format
  rcases Width.ofCode cxt.rwidth with _ | width
  · cases format <;> split_ifs <;> decide
  · cases width <;> cases format <;> split_ifs <;> decide

/-- A read of two samples that returns has stored something exactly at the codes that the switches
know, on a device with memory to be had. -/
theorem fifoEnv_two_stored {fuel : ℕ} {words : List Word} {r : ℤ} {u : World (List Word × ℕ)}
    (h : smiProgrammedReadArr fifoEnv fuel cxt addr (2 : ℕ) (World.init (words,0)).fresh =
      (some r,u)) : (∃ o, u.retData o ≠ none) ↔ ¬ Width.ofCode cxt.rwidth = none := by
  obtain ⟨w₁,he,-⟩ := fifoEnv_readEntry cxt addr (2 : ℕ) (w := (World.init (words,0)).fresh) rfl
  rcases smiProgrammedReadArr_outcome h with ⟨hb,-⟩ | ⟨-,raw,late,hr,hret⟩
  · rw [readEntry_eq_none_iff.mpr hb] at he
    cases he
  · have hstored := decodeBytes_stores_iff (by decide) (sizeFits_two cxt) raw hr
    have hone (width : Width) : ¬ StoresNone cxt width 2 := by simp [StoresNone]
    rw [hret,show (World.init (words,0)).fresh.retData = empty from rfl,hstored]
    simp only [hone,not_false_eq_true,and_true]
    exact Option.ne_none_iff_exists'.symm

/-- A width code that no switch knows is reported by the result only where the raw buffer cannot
be had, and a result that is no error stands for stored samples only at the other codes, but for
one sample of XRGB at 16 bits. -/
theorem smiProgrammedReadArr_reports_iff (env : Env σ) (cxt : SmiCxt) (addr : BitVec 8) (len : ℕ)
    (w : World σ) :
    (Width.ofCode cxt.rwidth = none →
      ((∃ r u, Ends (fun fuel => smiProgrammedReadArr env fuel cxt addr len) w.fresh r u ∧ r < 0) ↔
        NoBuffer env cxt len w.fresh)) ∧
    (1 ≤ len → SizeFits cxt len →
      ∀ r u, Ends (fun fuel => smiProgrammedReadArr env fuel cxt addr len) w.fresh r u →
        ((0 ≤ r → ∃ o, u.retData o ≠ none) ↔ NoBuffer env cxt len w.fresh ∨
          ∃ width, Width.ofCode cxt.rwidth = some width ∧ ¬ StoresNone cxt width len)) := by
  refine ⟨fun _ => ⟨?_,fun hb => ?_⟩,?_⟩
  · rintro ⟨r,u,⟨N,hN⟩,hneg⟩
    exact (smiProgrammedReadArr_neg_iff (hN N le_rfl)).mp hneg
  · have he : readEntry env cxt addr len w.fresh = none := readEntry_eq_none_iff.mpr hb
    exact ⟨-1,_,⟨0,fun fuel _ => smiProgrammedReadArr_refused he fuel⟩,by decide⟩
  · rintro hlen hfit r u ⟨N,hN⟩
    have hneg := smiProgrammedReadArr_neg_iff (hN N le_rfl)
    rcases smiProgrammedReadArr_outcome (hN N le_rfl) with ⟨hb,rfl,-⟩ | ⟨hb,raw,late,hr,hret⟩
    · exact iff_of_true (fun h => absurd h (by decide)) (.inl hb)
    · have h₀ : 0 ≤ r := not_lt.mp fun h => hb (hneg.mp h)
      have hstored := decodeBytes_stores_iff (r := r) hlen hfit raw hr
      rw [or_iff_right hb,← hstored,hret]
      exact ⟨fun h => h h₀,fun h _ => h⟩

end Stored

/-- The first code past the four, with memory to be had. -/
theorem smiProgrammedReadArr_reports_iff_four : ¬ ∃ r u,
    Ends (fun fuel => smiProgrammedReadArr fifoEnv fuel (deviceCxt 4 false false true) 0 (1 : ℕ))
      (World.init ([0x12345678],0)).fresh r u ∧ r < 0 := by
  have hreports := smiProgrammedReadArr_reports_iff fifoEnv (deviceCxt 4 false false true) 0 1
    (World.init ([0x12345678],0))
  exact (hreports.1 (by decide)).not.mpr (by decide)

/-- Width code 4, packed and not: the call returns that it has read a word, and has stored
nothing. -/
theorem smiProgrammedReadArr_unknown_width :
    (∃ u, smiProgrammedReadArr fifoEnv 3 (deviceCxt 4 false false false) 0 (1 : ℕ)
      (World.init ([0x12345678],0)).fresh = (some 1,u) ∧ ∀ o, u.retData o = none) ∧
    ∃ u, smiProgrammedReadArr fifoEnv 3 (deviceCxt 4 false false true) 0 (1 : ℕ)
      (World.init ([0x12345678],0)).fresh = (some 1,u) ∧ ∀ o, u.retData o = none :=
  ⟨⟨_,rfl,fun _ => rfl⟩,⟨_,rfl,fun _ => rfl⟩⟩

end RpiSmi
