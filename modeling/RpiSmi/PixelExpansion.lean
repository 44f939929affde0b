import RpiSmi.Samples
import RpiSmi.ShiftNet

/-!
# RGB565 expansion

The documented 9-bit and 18-bit forms of a pixel repeat the top bit of the red
and of the blue component. Both unpackers take the repeated bits from elsewhere,
so they agree with the documented forms, and with each other, on certain words
only.
-/

namespace RpiSmi

open Elements ShiftNet

/-- The samples that the comment above `smi_unpack_rgb565_9_word` promises. -/
def documentedW9 (word : Word) : List Word :=
  [(word.extractLsb' 11 5 ++ word.extractLsb' 15 1 ++ word.extractLsb' 8 3).setWidth 32,
    (word.extractLsb' 0 8 ++ word.extractLsb' 4 1).setWidth 32,
    (word.extractLsb' 27 5 ++ word.extractLsb' 31 1 ++ word.extractLsb' 24 3).setWidth 32,
    (word.extractLsb' 16 8 ++ word.extractLsb' 20 1).setWidth 32]

/-- A pixel as `{R,R4,G,B,B4}`. -/
def expandedPixel (pixel : BitVec 16) : Word :=
  (pixel.extractLsb' 11 5 ++ pixel.extractLsb' 15 1 ++ pixel.extractLsb' 5 6 ++
    pixel.extractLsb' 0 5 ++ pixel.extractLsb' 4 1).setWidth 32

def expandedPixels (word : Word) : List Word :=
  [expandedPixel (word.extractLsb' 0 16),expandedPixel (word.extractLsb' 16 16)]

/-- Samples of 9 bits joined in twos, the first in bits 17 to 9. -/
def joinPairs : List Word → List Word
  | a::b::vs => (a <<< 9 ||| b)::joinPairs vs
  | _ => []

def pixelW9 (word : Word) : List Word :=
  let b0 := (word >>> 0) &&& 0xFF
  let b1 := (word >>> 8) &&& 0xFF
  [((b1 <<< 1) &&& 0x1F0) ||| ((b1 >>> 2) &&& 0x8) ||| (b1 &&& 0x7),
    (b0 <<< 1) ||| ((b0 >>> 7) &&& 0x1)]

def documentedPixelW9 (word : Word) : List Word :=
  [(word.extractLsb' 11 5 ++ word.extractLsb' 15 1 ++ word.extractLsb' 8 3).setWidth 32,
    (word.extractLsb' 0 8 ++ word.extractLsb' 4 1).setWidth 32]

theorem groupRgb565W9_eq (word : Word) :
    groupRgb565W9 word = pixelW9 word ++ pixelW9 (word >>> 16) := by
  simp only [groupRgb565W9,pixelW9,← BitVec.shiftRight_add,List.cons_append,List.nil_append]

theorem extractLsb'_high (word : Word) (start len : ℕ) :
    (word >>> 16).extractLsb' start len = word.extractLsb' (16+start) len := by
  apply BitVec.eq_of_getLsbD_eq
  intro i hi
  simp [Nat.add_assoc]

theorem documentedW9_eq (word : Word) :
    documentedW9 word = documentedPixelW9 word ++ documentedPixelW9 (word >>> 16) := by
  simp only [documentedW9,documentedPixelW9,extractLsb'_high,List.cons_append,List.nil_append]

def PixelRepeats (word : Word) : Prop :=
  word.getLsbD 13 = word.getLsbD 15 ∧ word.getLsbD 7 = word.getLsbD 4

instance (word : Word) : Decidable (PixelRepeats word) := inferInstanceAs (Decidable (_ ∧ _))

theorem pixelW9_eq_iff (word : Word) :
    pixelW9 word = documentedPixelW9 word ↔ PixelRepeats word := by
  simp only [pixelW9,documentedPixelW9,List.cons.injEq,and_true]
  constructor
  · rintro ⟨h₀,h₁⟩
    have hred := congrArg (BitVec.getLsbD · 3) h₀
    have hblue := congrArg (BitVec.getLsbD · 0) h₁
    simp only [BitVec.getLsbD_setWidth,BitVec.getLsbD_append,BitVec.getLsbD_extractLsb']
      at hred hblue
    simp at hred hblue
    exact ⟨hred,hblue⟩
  · rintro ⟨hred,hblue⟩
    constructor <;> apply BitVec.eq_of_getLsbD_eq <;> intro i hi <;>
      simp only [BitVec.getLsbD_setWidth,BitVec.getLsbD_append,BitVec.getLsbD_extractLsb',
        BitVec.getLsbD_or,BitVec.getLsbD_and,BitVec.getLsbD_shiftLeft,BitVec.getLsbD_ushiftRight,
        hi,decide_true,Bool.true_and] <;>
      interval_cases i <;> simp [-BitVec.getLsbD_eq_getElem,hred,hblue]

/-- Where joined 9-bit samples and the 18-bit sample come to the same. -/
def PixelAgrees (word : Word) : Prop :=
  word.getLsbD 13 = word.getLsbD 15 ∧ word.getLsbD 7 = false

instance (word : Word) : Decidable (PixelAgrees word) := inferInstanceAs (Decidable (_ ∧ _))

theorem expand18_eq_iff (word : Word) :
    expand18 (word &&& 0xFFFF) = expandedPixel (word.extractLsb' 0 16) ↔
      word.getLsbD 4 = false := by
  simp only [expand18,expandedPixel]
  constructor
  · intro h
    have hblue := congrArg (BitVec.getLsbD · 0) h
    simp only [BitVec.getLsbD_setWidth,BitVec.getLsbD_append,BitVec.getLsbD_extractLsb'] at hblue
    simp at hblue
    exact hblue
  · intro hblue
    apply BitVec.eq_of_getLsbD_eq
    intro i hi
    simp only [BitVec.getLsbD_setWidth,BitVec.getLsbD_append,BitVec.getLsbD_extractLsb',
      BitVec.getLsbD_or,BitVec.getLsbD_and,BitVec.getLsbD_shiftLeft,BitVec.getLsbD_ushiftRight,
      hi,decide_true,Bool.true_and]
    interval_cases i <;> simp [-BitVec.getLsbD_eq_getElem,hblue]

theorem joinPairs_pixelW9_eq_iff (word : Word) :
    joinPairs (pixelW9 word) = [expand18 (word &&& 0xFFFF)] ↔ PixelAgrees word := by
  simp only [pixelW9,joinPairs,expand18,List.cons.injEq,and_true]
  constructor
  · intro h
    have hred := congrArg (BitVec.getLsbD · 12) h
    have hblue := congrArg (BitVec.getLsbD · 0) h
    simp at hred hblue
    exact ⟨hred,hblue⟩
  · rintro ⟨hred,hblue⟩
    apply BitVec.eq_of_getLsbD_eq
    intro i hi
    simp only [BitVec.getLsbD_or,BitVec.getLsbD_and,BitVec.getLsbD_shiftLeft,
      BitVec.getLsbD_ushiftRight,hi,decide_true,Bool.true_and]
    interval_cases i <;> simp [-BitVec.getLsbD_eq_getElem,hred,hblue]

def RepeatsW9 (word : Word) : Prop := PixelRepeats word ∧ PixelRepeats (word >>> 16)

instance (word : Word) : Decidable (RepeatsW9 word) := inferInstanceAs (Decidable (_ ∧ _))

theorem groupRgb565W9_eq_iff (word : Word) :
    groupRgb565W9 word = documentedW9 word ↔ RepeatsW9 word := by
  rw [groupRgb565W9_eq,documentedW9_eq,RepeatsW9,← pixelW9_eq_iff,← pixelW9_eq_iff]
  constructor
  · intro h
    exact List.append_inj h rfl
  · rintro ⟨h,h'⟩
    rw [h,h']

def AgreesW18 (word : Word) : Prop := PixelAgrees word ∧ PixelAgrees (word >>> 16)

instance (word : Word) : Decidable (AgreesW18 word) := inferInstanceAs (Decidable (_ ∧ _))

def ClearBlue (word : Word) : Prop := word.getLsbD 4 = false ∧ (word >>> 16).getLsbD 4 = false

instance (word : Word) : Decidable (ClearBlue word) := inferInstanceAs (Decidable (_ ∧ _))

theorem joinPairs_groupRgb565W9_eq_iff (word : Word) :
    joinPairs (groupRgb565W9 word) = groupRgb565W18 word ↔ AgreesW18 word := by
  have hgroup : joinPairs (groupRgb565W9 word) =
      joinPairs (pixelW9 word) ++ joinPairs (pixelW9 (word >>> 16)) := by
    rw [groupRgb565W9_eq]
    rfl
  have hsamples : groupRgb565W18 word =
      [expand18 (word &&& 0xFFFF)] ++ [expand18 ((word >>> 16) &&& 0xFFFF)] := by
    rw [groupRgb565W18,BitVec.ushiftRight_zero]
    rfl
  rw [hgroup,hsamples,AgreesW18,← joinPairs_pixelW9_eq_iff,← joinPairs_pixelW9_eq_iff]
  constructor
  · intro h
    exact List.append_inj h rfl
  · rintro ⟨h,h'⟩
    rw [h,h']

theorem groupRgb565W18_eq_iff (word : Word) :
    groupRgb565W18 word = expandedPixels word ↔ ClearBlue word := by
  rw [groupRgb565W18,expandedPixels,ClearBlue,BitVec.ushiftRight_zero,← expand18_eq_iff,
    ← expand18_eq_iff,extractLsb'_high]
  simp

theorem joinPairs_eq_pairUp : (vs : List Word) → joinPairs vs = pairUp 9 vs
  | [] => rfl
  | [_] => rfl
  | a::b::vs => by rw [joinPairs,pairUp,joinPairs_eq_pairUp vs]

section Sampled

theorem length_groupRgb565W9 (word : Word) : (groupRgb565W9 word).length = 4 := rfl

theorem length_groupRgb565W18 (word : Word) : (groupRgb565W18 word).length = 2 := rfl

theorem length_joinedW9 (word : Word) : (joinPairs (groupRgb565W9 word)).length = 2 := rfl

theorem length_documentedW9 (word : Word) : (documentedW9 word).length = 4 := rfl

theorem length_expandedPixels (word : Word) : (expandedPixels word).length = 2 := rfl

variable {raw : ℕ → Word} {count : ℕ}

theorem flatMap_eq_iff {g g' : Word → List Word} {k : ℕ} (hg : ∀ w, (g w).length = k)
    (hg' : ∀ w, (g' w).length = k) (ws : List Word) :
    ws.flatMap g = ws.flatMap g' ↔ ∀ w ∈ ws, g w = g' w := by
  induction ws with
  | nil => simp
  | cons w ws ih =>
    rw [List.flatMap_cons,List.flatMap_cons,List.forall_mem_cons,← ih]
    constructor
    · intro h
      exact List.append_inj h (by rw [hg,hg'])
    · rintro ⟨h,h'⟩
      rw [h,h']

theorem fits_groupRgb565W9 (word : Word) : ∀ v ∈ groupRgb565W9 word, Fits 2 v := by
  simp only [groupRgb565W9,List.forall_mem_cons,List.not_mem_nil,false_implies,implies_true,
    and_true]
  refine ⟨?_,?_,?_,?_⟩ <;> refine fits_of_getLsbD fun j hlow hj => ?_ <;>
    interval_cases j <;> simp

theorem loads_fill {size k : ℕ} {g : Word → List Word} (hg : ∀ w, (g w).length = k)
    (hfit : ∀ w, ∀ v ∈ g w, Fits size v) (m : Bytes) :
    loads size (k*count) (fill size (fun i => g (raw i)) count 0 0 m) =
      (firstWords raw count).flatMap g := by
  have hlen : ((firstWords raw count).flatMap g).length = k*count := by
    rw [length_flatMap_group hg]
    simp [firstWords,Nat.mul_comm]
  have hfits : ∀ v ∈ (firstWords raw count).flatMap g, Fits size v := by
    intro v hv
    obtain ⟨w,-,hv⟩ := List.mem_flatMap.mp hv
    exact hfit w v hv
  rw [fill_eq,flatMap_firstWords,← hlen]
  exact loads_putAll hfits m

theorem loads_smiUnpackRgb565W9 (m : Bytes) :
    loads 2 (4*count) (smiUnpackRgb565W9 raw count m) =
      (firstWords raw count).flatMap groupRgb565W9 :=
  loads_fill length_groupRgb565W9 fits_groupRgb565W9 m

theorem loads_smiUnpackRgb565W18 (m : Bytes) :
    loads 4 (2*count) (smiUnpackRgb565W18 raw count m) =
      (firstWords raw count).flatMap groupRgb565W18 :=
  loads_fill length_groupRgb565W18 (fun _ v _ => fits_word v) m

theorem groups_eq_iff {g g' : Word → List Word} {k : ℕ} (hg : ∀ w, (g w).length = k)
    (hg' : ∀ w, (g' w).length = k) :
    (firstWords raw count).flatMap g = (firstWords raw count).flatMap g' ↔
      ∀ i < count, g (raw i) = g' (raw i) := by
  rw [flatMap_eq_iff hg hg']
  simp [firstWords]

/-- The 9-bit unpacker emits the documented samples exactly for words whose repeated bits agree. -/
theorem smiUnpackRgb565W9_documented_iff (raw : ℕ → Word) (count : ℕ) (m : Bytes) :
    loads 2 (4*count) (smiUnpackRgb565W9 raw count m) =
      (firstWords raw count).flatMap documentedW9 ↔ ∀ i < count, RepeatsW9 (raw i) := by
  rw [loads_smiUnpackRgb565W9,groups_eq_iff length_groupRgb565W9 length_documentedW9]
  simp only [groupRgb565W9_eq_iff]

/-- Bit 15 alone is repeated as zero: the code looks at bit 13. -/
theorem smiUnpackRgb565W9_documented_not :
    ¬ ∀ (raw : ℕ → Word) (count : ℕ) (m : Bytes),
      loads 2 (4*count) (smiUnpackRgb565W9 raw count m) =
        (firstWords raw count).flatMap documentedW9 := by
  intro h
  have hword := h (fun _ => 0x8000) 1 empty
  rw [loads_smiUnpackRgb565W9,groups_eq_iff length_groupRgb565W9 length_documentedW9] at hword
  exact absurd (hword 0 (by decide)) (by decide)

theorem joinPairs_flatMap {g : Word → List Word} (hg : ∀ w, (g w).length%2 = 0) (ws : List Word) :
    joinPairs (ws.flatMap g) = ws.flatMap fun w => joinPairs (g w) := by
  simp only [joinPairs_eq_pairUp,pairUp_flatMap 9 hg]

/-- Joined 9-bit samples are the 18-bit samples for words on which the two networks agree. -/
theorem joinPairs_samples_iff (m m' : Bytes) :
    joinPairs (loads 2 (4*count) (smiUnpackRgb565W9 raw count m)) =
      loads 4 (2*count) (smiUnpackRgb565W18 raw count m') ↔ ∀ i < count, AgreesW18 (raw i) := by
  have heven (w : Word) : (groupRgb565W9 w).length%2 = 0 := by rw [length_groupRgb565W9]
  rw [loads_smiUnpackRgb565W9,loads_smiUnpackRgb565W18,joinPairs_flatMap heven,
    groups_eq_iff length_joinedW9 length_groupRgb565W18]
  simp only [joinPairs_groupRgb565W9_eq_iff]

theorem samplesW18_iff (m : Bytes) :
    loads 4 (2*count) (smiUnpackRgb565W18 raw count m) =
      (firstWords raw count).flatMap expandedPixels ↔ ∀ i < count, ClearBlue (raw i) := by
  rw [loads_smiUnpackRgb565W18,groups_eq_iff length_groupRgb565W18 length_expandedPixels]
  simp only [groupRgb565W18_eq_iff]

/-- The two unpackers give one expansion, the documented one, exactly for words of which every pixel
repeats its top red bit two bits below and has its bits 7 and 4 clear. -/
theorem rgb565_expansions_iff (raw : ℕ → Word) (count : ℕ) (m m' : Bytes) :
    joinPairs (loads 2 (4*count) (smiUnpackRgb565W9 raw count m)) =
        loads 4 (2*count) (smiUnpackRgb565W18 raw count m') ∧
      loads 4 (2*count) (smiUnpackRgb565W18 raw count m') =
        (firstWords raw count).flatMap expandedPixels ↔
    ∀ i < count, AgreesW18 (raw i) ∧ ClearBlue (raw i) := by
  rw [joinPairs_samples_iff,samplesW18_iff]
  constructor
  · rintro ⟨hagree,hblue⟩ i hi
    exact ⟨hagree i hi,hblue i hi⟩
  · intro h
    exact ⟨fun i hi => (h i hi).1,fun i hi => (h i hi).2⟩

/-- They differ on a pixel whose bit 15 is set and whose bit 13 is not. -/
theorem rgb565_expansions_not :
    ¬ ∀ (raw : ℕ → Word) (count : ℕ) (m m' : Bytes),
      joinPairs (loads 2 (4*count) (smiUnpackRgb565W9 raw count m)) =
        loads 4 (2*count) (smiUnpackRgb565W18 raw count m') := by
  intro h
  have hword := joinPairs_samples_iff _ _ |>.mp (h (fun _ => 0x8000) 1 empty empty)
  exact absurd (hword 0 (by decide)) (by decide)

end Sampled

end RpiSmi
