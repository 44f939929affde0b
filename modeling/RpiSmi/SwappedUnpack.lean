import RpiSmi.Unpacking

/-!
# Unpacking with the swap

At 9 bits the swap exchanges the two samples of every pixel. At 18 bits the bits
of each half word are reversed first, and the reversal loses some of them.
-/

namespace RpiSmi

open Exec Elements ShiftNet

variable {σ : Type}

def wordSamples (cxt : SmiCxt) (i : ℕ) (vs : List Word) : List Word :=
  (vs.drop (i*(PackRatio.table .w9 (.ofFlag cxt.wformat)).outPixels)).take
    (PackRatio.table .w9 (.ofFlag cxt.wformat)).outPixels

theorem unpackNets_w9_even (format : Format) (swap : Bool) :
    (unpackNets .w9 format swap).length%2 = 0 := by
  cases format <;> cases swap <;> rfl

/-- The swapped unpackers are networks of their own; they are the plain ones exchanged. -/
theorem exchange_unpackNets (format : Format) :
    exchange (unpackNets .w9 format false) = unpackNets .w9 format true := by
  cases format <;> rfl

theorem unpacked_w9 {cxt : SmiCxt} (hw : Width.ofCode cxt.rwidth = some .w9) (ws : List Word)
    (w : World σ) : unpacked cxt .w9 ws w =
      groups (unpackNets .w9 (.ofFlag cxt.wformat) cxt.wswap) 1 (fun i => ws.getD i 0)
        ws.length := by
  have hread : (PackRatio.table .w9 (.ofFlag cxt.wformat)).read = 1 := by
    cases Format.ofFlag cxt.wformat <;> rfl
  rw [unpacked_eq hw,hread,Nat.div_one]

theorem wordSamples_unpacked {cxt : SmiCxt} (hw : Width.ofCode cxt.rwidth = some .w9)
    {ws : List Word} {i : ℕ} (hi : i < ws.length) (w : World σ) :
    wordSamples cxt i (unpacked cxt .w9 ws w) = unpacked cxt .w9 [ws[i]] w := by
  have hlen := length_unpackNets .w9 (.ofFlag cxt.wformat) cxt.wswap
  have hone (x : ℕ → Word) : groups (unpackNets .w9 (.ofFlag cxt.wformat) cxt.wswap) 1 x 1 =
      group (unpackNets .w9 (.ofFlag cxt.wformat) cxt.wswap) 1 x 0 := by
    simp [groups,List.range_succ]
  rw [wordSamples,unpacked_w9 hw,unpacked_w9 hw,← hlen,take_drop_groups _ _ _ _ hi]
  refine Eq.trans ?_ (hone _).symm
  have hread : (PackRatio.table .w9 (.ofFlag cxt.wformat)).read = 1 := by
    cases Format.ofFlag cxt.wformat <;> rfl
  have hwithin := unpackNets_within .w9 (.ofFlag cxt.wformat) cxt.wswap
  rw [hread] at hwithin
  refine List.map_congr_left fun e he => (hwithin e he).eval_eq fun k hk => ?_
  obtain rfl : k = 0 := by omega
  simp [List.getD,hi]

section Swap9

variable {cxt cxt' : SmiCxt} (hw : Width.ofCode cxt.rwidth = some .w9)
  (hw' : Width.ofCode cxt'.rwidth = some .w9) (hf : cxt'.wformat = cxt.wformat)
  (hs : cxt.wswap = false) (hs' : cxt'.wswap = true)

include hw hw' hf hs hs' in
theorem exchange_unpacked (ws : List Word) (w w' : World σ) :
    exchange (unpacked cxt .w9 ws w) = unpacked cxt' .w9 ws w' := by
  rw [unpacked_w9 hw,unpacked_w9 hw',hf,hs,hs',exchange_groups _ _ _ _ (unpackNets_w9_even _ _),
    exchange_unpackNets]

include hw hw' hf hs hs' in
/-- With the swap, samples `2k` and `2k+1` are the other way round, for all of a buffer, and those
of a word stay those of the word. -/
theorem smiUnpack_swap_exchanges (ws : List Word) (w w' : World σ) :
    (∀ k, (unpacked cxt' .w9 ws w')[2*k]? = (unpacked cxt .w9 ws w)[2*k+1]? ∧
      (unpacked cxt' .w9 ws w')[2*k+1]? = (unpacked cxt .w9 ws w)[2*k]?) ∧
    exchange (unpacked cxt .w9 ws w) = unpacked cxt' .w9 ws w' ∧
    exchange (unpacked cxt' .w9 ws w') = unpacked cxt .w9 ws w ∧
    (unpacked cxt' .w9 ws w').length = (unpacked cxt .w9 ws w).length ∧
    ∀ i (hi : i < ws.length),
      wordSamples cxt i (unpacked cxt .w9 ws w) = unpacked cxt .w9 [ws[i]] w ∧
      wordSamples cxt' i (unpacked cxt' .w9 ws w') =
        exchange (wordSamples cxt i (unpacked cxt .w9 ws w)) := by
  have hex := exchange_unpacked hw hw' hf hs hs' ws w w'
  have heven : (unpacked cxt .w9 ws w).length%2 = 0 := by
    rw [unpacked_w9 hw,length_groups,Nat.mul_mod,unpackNets_w9_even,Nat.mul_zero,Nat.zero_mod]
  refine ⟨fun k => ?_,hex,?_,?_,fun i hi => ?_⟩
  · rw [← hex]
    exact getElem?_exchange _ heven k
  · rw [← hex,exchange_exchange]
  · rw [← hex,length_exchange]
  · have hword := wordSamples_unpacked hw hi w
    refine ⟨hword,?_⟩
    rw [hword,wordSamples_unpacked hw' hi w']
    exact (exchange_unpacked hw hw' hf hs hs' _ w w').symm

end Swap9

/-- The first two pixels of a 9-bit XRGB transfer. -/
theorem smiUnpack_swap_exchanges_xrgb :
    exchange (unpacked (deviceCxt 3 true false true) .w9 [0x1A2B3C,0x4D5E6F] (World.init ())) =
      unpacked (deviceCxt 3 true true true) .w9 [0x1A2B3C,0x4D5E6F] (World.init ()) := by
  have hplain : Width.ofCode (deviceCxt 3 true false true).rwidth = some .w9 := rfl
  have hswap : Width.ofCode (deviceCxt 3 true true true).rwidth = some .w9 := rfl
  exact (smiUnpack_swap_exchanges hplain hswap rfl rfl rfl _ (World.init ()) (World.init ())).2.1

/-- The reversal as a network: bits 2 to 15 are bits 13 to 0 of the value, and there are no
others. -/
theorem reverseNet_sources : ∀ j < 32, (reverseNet (.input 0)).sources j =
    if 2 ≤ j ∧ j ≤ 15 then [(0,15-j)] else [] := by
  decide +kernel

theorem getLsbD_reverse18 (v : Word) {j : ℕ} (hj : j < 32) :
    (reverse18 v).getLsbD j = (decide (2 ≤ j ∧ j ≤ 15) && v.getLsbD (15-j)) := by
  have hnet : reverse18 v = (reverseNet (.input 0)).eval fun _ => v := rfl
  rw [hnet,Net.getLsbD_eval,reverseNet_sources j hj]
  split_ifs with h <;> simp [h]

/-- The value reversed is the value reversed as 18 bits for no value but 0. -/
theorem reverse18_reverses_iff {v : Word} (hv : v.toNat < 2^18) :
    (∀ i < 18, (reverse18 v).getLsbD (17-i) = v.getLsbD i) ↔ v = 0 := by
  constructor
  · intro h
    -- up from the two lowest bits, each bit is the one two below it
    have hlow (i : ℕ) : i < 18 → v.getLsbD i = false := by
      induction i using Nat.strong_induction_on with
      | h i ih =>
        intro hi
        rw [← h i hi,getLsbD_reverse18 v (by omega)]
        by_cases hr : 2 ≤ 17-i ∧ 17-i ≤ 15
        · have hbit : 15-(17-i) = i-2 := by omega
          rw [hbit,ih (i-2) (by omega) (by omega),Bool.and_false]
        · rw [decide_eq_false hr,Bool.false_and]
    apply BitVec.eq_of_getLsbD_eq
    intro i hi
    refine Eq.trans ?_ BitVec.getLsbD_zero.symm
    by_cases hi' : i < 18
    · exact hlow i hi'
    · have hpow : 2^18 ≤ 2^i := Nat.pow_le_pow_right (by decide) (by omega)
      exact Nat.testBit_lt_two_pow (Nat.lt_of_lt_of_le hv hpow)
  · rintro rfl
    decide

/-- Reversed twice, a value keeps its bits 2 to 13. -/
theorem reverse18_reverse18 (v : Word) : reverse18 (reverse18 v) = v &&& 0x3FFC := by
  apply BitVec.eq_of_getLsbD_eq
  intro j hj
  have hmask : (0x3FFC : Word).getLsbD j = decide (2 ≤ j ∧ j ≤ 13) := by
    revert hj j
    decide
  rw [getLsbD_reverse18 _ hj,BitVec.getLsbD_and,hmask]
  by_cases hr : 2 ≤ j ∧ j ≤ 15
  · have hback : 15-(15-j) = j := by omega
    have hrange : (2 ≤ 15-j ∧ 15-j ≤ 15) ↔ (2 ≤ j ∧ j ≤ 13) := by omega
    rw [getLsbD_reverse18 _ (by omega),hback,decide_eq_true hr,Bool.true_and,
      decide_eq_decide.mpr hrange,Bool.and_comm]
  · have hr' : ¬(2 ≤ j ∧ j ≤ 13) := by omega
    rw [decide_eq_false hr,decide_eq_false hr',Bool.false_and,Bool.and_false]

/-- The bits of a word that reach its samples at 18 bits with the swap. -/
def swapPayload : Word := 0x3FFF3FFF

theorem netsRgb565W18Swap_lossless : Lossless 1 swapPayload netsRgb565W18Swap := by
  decide +kernel

theorem xor_masked_eq_zero_iff {x y m : Word} : (x ^^^ y) &&& m = 0 ↔ x &&& m = y &&& m := by
  have hdist : (x ^^^ y) &&& m = (x &&& m) ^^^ (y &&& m) := by
    apply BitVec.eq_of_getLsbD_eq
    intro i hi
    simp only [BitVec.getLsbD_and,BitVec.getLsbD_xor]
    cases m.getLsbD i <;> simp
  rw [hdist]
  exact BitVec.xor_eq_zero_iff

section Swap18

variable {cxt : SmiCxt} (hw : Width.ofCode cxt.rwidth = some .w18)
  (hf : Format.ofFlag cxt.wformat = .rgb565) (hs : cxt.wswap = true)

include hw hf hs in
theorem unpacked_swap18_eq_iff {ws ws' : List Word} (hlen : ws.length = ws'.length)
    (w w' : World σ) : unpacked cxt .w18 ws w = unpacked cxt .w18 ws' w' ↔
      ws.map (· &&& swapPayload) = ws'.map (· &&& swapPayload) := by
  have hn : ws.length = 1*ws.length := (Nat.one_mul _).symm
  have hn' : ws'.length = 1*ws.length := by omega
  rw [unpacked_eq hw,unpacked_eq hw,hf,hs,← hlen]
  simp only [PackRatio.table,Nat.div_one,unpackNets]
  rw [netsRgb565W18Swap_lossless.groups_eq_iff,map_mask_eq_iff hn hn']

include hw hf hs in
/-- The swapped samples tell two buffers apart exactly where these differ in another bit than 14,
15, 30 and 31 of a word, and the reversal does what its name says only on 0. -/
theorem swap18_keeps_payload_iff {ws ws' : List Word} (hlen : ws.length = ws'.length)
    (w w' : World σ) :
    ((unpacked cxt .w18 ws w = unpacked cxt .w18 ws' w' → ws = ws') ↔
      ws = ws' ∨ ∃ i < ws.length, (ws.getD i 0 ^^^ ws'.getD i 0) &&& 0x3FFF3FFF ≠ 0) ∧
    ∀ v : Word, v.toNat < 2^18 →
      ((∀ i < 18, (reverse18 v).getLsbD (17-i) = v.getLsbD i) ↔ v = 0) ∧
      (reverse18 (reverse18 v) = v ↔ v &&& 0x3FFC = v) := by
  have hdiff : (∃ i < ws.length, (ws.getD i 0 ^^^ ws'.getD i 0) &&& swapPayload ≠ 0) ↔
      ¬ unpacked cxt .w18 ws w = unpacked cxt .w18 ws' w' := by
    have hn : ws.length = 1*ws.length := (Nat.one_mul _).symm
    have hn' : ws'.length = 1*ws.length := by omega
    rw [unpacked_swap18_eq_iff hw hf hs hlen,map_mask_eq_iff hn hn']
    simp only [ne_eq,xor_masked_eq_zero_iff,not_forall,Nat.lt_one_iff,forall_eq,Nat.one_mul,
      Nat.add_zero,exists_prop]
  refine ⟨?_,fun v hv => ⟨reverse18_reverses_iff hv,by rw [reverse18_reverse18]⟩⟩
  rw [imp_iff_not_or,or_comm]
  exact or_congr_right hdiff.symm

end Swap18

/-- Two buffers of two words that differ in the lowest bit of the second. -/
theorem swap18_keeps_payload_iff_low :
    (unpacked (deviceCxt 2 false true true) .w18 [0xF81F07E0,1] (World.init ()) =
        unpacked (deviceCxt 2 false true true) .w18 [0xF81F07E0,0] (World.init ()) →
      ([0xF81F07E0,1] : List Word) = [0xF81F07E0,0]) ∧
    reverse18 (reverse18 0x1248) = 0x1248 := by
  have hw : Width.ofCode (deviceCxt 2 false true true).rwidth = some .w18 := rfl
  have hlen : ([0xF81F07E0,1] : List Word).length = ([0xF81F07E0,0] : List Word).length := rfl
  have hlow := swap18_keeps_payload_iff hw rfl rfl hlen (World.init ()) (World.init ())
  exact ⟨hlow.1.mpr (.inr ⟨1,by decide,by decide⟩),
    (hlow.2 0x1248 (by decide)).2.mpr (by decide)⟩

/-- Bit 14 of a half word is in none of its samples, and bit 0 of an 18-bit value does not go to
bit 17. -/
theorem swap18_loses_payload :
    unpacked (deviceCxt 2 false true true) .w18 [0x4000] (World.init ()) =
      unpacked (deviceCxt 2 false true true) .w18 [0] (World.init ()) ∧
    ([0x4000] : List Word) ≠ [0] ∧
    (reverse18 1).getLsbD (17-0) ≠ (1 : Word).getLsbD 0 ∧ reverse18 (reverse18 1) ≠ 1 := by
  refine ⟨?_,by decide,by decide,by decide⟩
  have hw : Width.ofCode (deviceCxt 2 false true true).rwidth = some .w18 := rfl
  have hlen : ([0x4000] : List Word).length = ([0] : List Word).length := rfl
  exact (unpacked_swap18_eq_iff hw rfl rfl hlen (World.init ()) (World.init ())).mpr (by decide)

end RpiSmi
