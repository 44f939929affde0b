import Mathlib.Tactic.IntervalCases
import RpiSmi.Unpack

/-!
# What the decoders store

`decoded` is the sample list of an unpacker and `truncated` that of a
truncator; both are stored from the base of the output, element by element.
`sampleStream` is the stream that the words carry, which for XRGB at 16 bits
is the big-endian byte stream of their 24-bit payloads.
-/

namespace RpiSmi

open Elements

def elemSize : Width → ℕ
  | .w8 => 1
  | .w9 => 2
  | .w16 => 2
  | .w18 => 4

def widthMask : Width → Word
  | .w8 => 0xFF
  | .w9 => 0x1FF
  | .w16 => 0xFFFF
  | .w18 => 0x3FFFF

theorem elemSize_pos (width : Width) : 0 < elemSize width := by
  cases width <;> decide

def pairwise (g : Word → Word → List Word) : List Word → List Word
  | a::b::ws => g a b ++ pairwise g ws
  | _ => []

def decoded : Width → Format → Bool → List Word → List Word
  | .w8, .rgb565, _, ws => ws.flatMap groupRgb565W8
  | .w8, .xrgb, _, ws => ws.flatMap groupXrgbW8
  | .w9, .rgb565, false, ws => ws.flatMap groupRgb565W9
  | .w9, .rgb565, true, ws => ws.flatMap groupRgb565W9Swap
  | .w9, .xrgb, false, ws => ws.flatMap groupXrgbW9
  | .w9, .xrgb, true, ws => ws.flatMap groupXrgbW9Swap
  | .w16, .rgb565, _, ws => ws.flatMap groupRgb565W16
  | .w16, .xrgb, _, ws => pairwise groupXrgbW16 ws
  | .w18, .rgb565, false, ws => ws.flatMap groupRgb565W18
  | .w18, .rgb565, true, ws => ws.flatMap groupRgb565W18Swap
  | .w18, .xrgb, _, ws => ws.flatMap groupXrgbW18

def truncated (width : Width) (ws : List Word) : List Word := ws.map (· &&& widthMask width)

section Stored

variable (raw : ℕ → Word) (count : ℕ)

def firstWords : List Word := (List.range count).map raw

theorem flatMap_firstWords (g : Word → List Word) :
    (List.range count).flatMap (fun i => g (raw i)) = (firstWords raw count).flatMap g := by
  rw [firstWords,List.flatMap_map]

theorem flatMap_pairs (g : Word → Word → List Word) (n : ℕ) :
    (List.range (n/2)).flatMap (fun i => g (raw (2*i)) (raw (2*i+1))) =
      pairwise g (firstWords raw n) := by
  induction n using Nat.strong_induction_on generalizing raw with
  | _ n ih =>
    match n with
    | 0 => rfl
    | 1 => rfl
    | n+2 =>
      have h := ih n (by omega) fun i => raw (i+2)
      rw [show (n+2)/2 = n/2+1 by omega,List.range_succ_eq_map,List.flatMap_cons,
        List.flatMap_map]
      simp only [firstWords,List.range_succ_eq_map,List.map_cons,List.map_map,pairwise] at h ⊢
      rw [show raw ∘ Nat.succ ∘ Nat.succ = fun i => raw (i+2) from rfl,← h]
      rfl

theorem unpacker_eq (width : Width) (format : Format) (swap : Bool) (m : Bytes) :
    unpacker raw count width format swap m =
      putAll (elemSize width) (decoded width format swap (firstWords raw count)) 0 m := by
  cases width <;> cases format <;> cases swap <;>
    simp only [unpacker,decoded,elemSize,smiUnpackRgb565W8,smiUnpackXrgbW8,smiUnpackXrgbW9,
      smiUnpackXrgbW9Swap,smiUnpackRgb565W9,smiUnpackRgb565W9Swap,smiUnpackXrgbW16,
      smiUnpackRgb565W16,smiUnpackXrgbW18,smiUnpackRgb565W18,smiUnpackRgb565W18Swap,fill_eq,
      flatMap_firstWords,flatMap_pairs]

theorem truncator_eq (width : Width) (m : Bytes) :
    truncator raw count width m =
      putAll (elemSize width) (truncated width (firstWords raw count)) 0 m := by
  cases width <;>
    simp only [truncator,smiTruncateW8,smiTruncateW9,smiTruncateW16,smiTruncateW18,fill_eq,
      truncated,elemSize,widthMask,firstWords,List.map_map] <;>
    rw [List.map_eq_flatMap] <;> rfl

end Stored

theorem length_flatMap_group {g : Word → List Word} {k : ℕ} (hg : ∀ w, (g w).length = k)
    (ws : List Word) : (ws.flatMap g).length = ws.length*k := by
  induction ws with
  | nil => simp
  | cons w ws ih => rw [List.flatMap_cons,List.length_append,hg,ih,List.length_cons,Nat.succ_mul,
      Nat.add_comm]

theorem length_pairwise {g : Word → Word → List Word} {k : ℕ} (hg : ∀ a b, (g a b).length = k) :
    (ws : List Word) → (pairwise g ws).length = ws.length/2*k
  | [] => by simp [pairwise]
  | [_] => by simp [pairwise]
  | a::b::ws => by
    rw [pairwise,List.length_append,hg,length_pairwise hg ws,List.length_cons,List.length_cons,
      show (ws.length+1+1)/2 = ws.length/2+1 by omega,Nat.succ_mul,Nat.add_comm]

theorem length_decoded (width : Width) (format : Format) (swap : Bool) (ws : List Word) :
    (decoded width format swap ws).length =
      ws.length/(PackRatio.table width format).read*(PackRatio.table width format).outPixels := by
  cases width <;> cases format <;> cases swap <;> simp only [decoded,PackRatio.table,Nat.div_one]
  case w16.xrgb.false | w16.xrgb.true =>
    apply length_pairwise
    exact fun _ _ => rfl
  all_goals
    apply length_flatMap_group
    exact fun _ => rfl

/-- The 24-bit payload of a word, high byte first. -/
def payload (word : Word) : List Word :=
  [(word >>> 16) &&& 0xFF,(word >>> 8) &&& 0xFF,word &&& 0xFF]

def cut16 : List Word → List Word
  | a::b::bs => (a <<< 8 ||| b)::cut16 bs
  | _ => []

/-- Cutting can be done in chunks of an even number of bytes. -/
theorem cut16_payloads (a b : Word) (bs : List Word) :
    cut16 (payload a ++ (payload b ++ bs)) = cut16 (payload a ++ payload b) ++ cut16 bs := rfl

theorem groupXrgbW16_eq (a b : Word) : groupXrgbW16 a b = cut16 (payload a ++ payload b) := by
  simp only [groupXrgbW16,payload,cut16,List.cons_append,List.nil_append,List.cons.injEq]
  refine ⟨?_,?_,?_,trivial⟩ <;> apply BitVec.eq_of_getLsbD_eq <;> intro i hi <;>
    interval_cases i <;> simp

theorem pairwise_begins : (ws : List Word) →
    pairwise groupXrgbW16 ws <+: cut16 (ws.flatMap payload)
  | [] => List.prefix_refl _
  | [_] => List.nil_prefix
  | a::b::ws => by
    rw [pairwise,List.flatMap_cons,List.flatMap_cons,cut16_payloads,groupXrgbW16_eq]
    exact (List.prefix_append_right_inj _).mpr (pairwise_begins ws)

def sampleStream (cxt : SmiCxt) (width : Width) (ws : List Word) : List Word :=
  if cxt.pxldata then
    if width = .w16 ∧ Format.ofFlag cxt.wformat = .xrgb then cut16 (ws.flatMap payload)
    else decoded width (.ofFlag cxt.wformat) cxt.wswap ws
  else truncated width ws

/-- The samples that the code makes of the words it is given. -/
def storedSamples (cxt : SmiCxt) (width : Width) (ws : List Word) : List Word :=
  if cxt.pxldata then decoded width (.ofFlag cxt.wformat) cxt.wswap ws else truncated width ws

theorem storedSamples_begins (cxt : SmiCxt) (width : Width) (ws : List Word) :
    storedSamples cxt width ws <+: sampleStream cxt width ws := by
  unfold storedSamples sampleStream
  split_ifs with hp hx
  · obtain ⟨rfl,hf⟩ := hx
    rw [hf]
    exact pairwise_begins ws
  · exact List.prefix_refl _
  · exact List.prefix_refl _

end RpiSmi
