import RpiSmi.Gpio
import RpiSmi.NetInverse

/-!
# The GPIO block

The words of the block have effects of their own: a one written to a SET or CLR
word changes the output latch of its pin and a zero changes nothing, and the LEV
words show the levels at the pins. To the caller it is a map from pins to pads,
each with a function and a latch.
-/

namespace RpiSmi

open BitField ShiftNet

def gpioSet0 : ℕ := 0x1c
def gpioClr0 : ℕ := 0x28
def gpioLev0 : ℕ := 0x34
def gpioOut : ℕ := 1

structure GpioBlock where
  /-- The function-select words. -/
  select : GpioFile
  latch : ℕ → Bool

namespace GpioBlock

/-- The level at a pin that the outside drives as `drive` says. -/
def level (b : GpioBlock) (drive : ℕ → Bool) (pin : ℕ) : Bool :=
  if pinFunction b.select pin = gpioOut then b.latch pin else drive pin

/-- Words 0 to 5 select functions, 13 and 14 show the levels of the 54 pins. -/
def readWord (b : GpioBlock) (drive : ℕ → Bool) (i : ℕ) : Word :=
  if i < 6 then b.select i
  else if i = 13 ∨ i = 14 then ofBits 32 fun k => decide (32*(i-13)+k < 54) &&
    b.level drive (32*(i-13)+k)
  else 0

/-- Words 7 and 8 set latches, 10 and 11 clear them. -/
def writeWord (b : GpioBlock) (i : ℕ) (v : Word) : GpioBlock :=
  if i < 6 then { b with select := Function.update b.select i v }
  else if i = 7 ∨ i = 8 then
    { b with latch := fun pin => b.latch pin || decide (pin/32 = i-7) && v.getLsbD (pin%32) }
  else if i = 10 ∨ i = 11 then
    { b with latch := fun pin => b.latch pin && !(decide (pin/32 = i-10) && v.getLsbD (pin%32)) }
  else b

end GpioBlock

def gpioModeBlock (gpioRegs : GpioBlock) (drive : ℕ → Bool) (pin mode : ℕ) : GpioBlock :=
  let reg := gpioMode0/4+pin/10
  let shift := pin%10*3
  gpioRegs.writeWord reg
    (gpioRegs.readWord drive reg &&& ~~~((7 : Word) <<< shift) ||| BitVec.ofNat 32 mode <<< shift)

def gpioSet (gpioRegs : GpioBlock) (pin : ℕ) (val : ℤ) : GpioBlock :=
  let reg := (if val ≠ 0 then gpioSet0 else gpioClr0)/4+pin/32
  gpioRegs.writeWord reg ((1 : Word) <<< (pin%32))

def gpioRead (gpioRegs : GpioBlock) (drive : ℕ → Bool) (pin : ℕ) : BitVec 8 :=
  let reg := gpioLev0/4+pin/32
  (gpioRegs.readWord drive reg >>> (pin%32) &&& 1).setWidth 8

/-- A call of one of the three functions, for a pin that there is. -/
inductive GpioCall
  | mode (c : ModeCall)
  | set (pin : Fin 54) (val : ℤ)
  | read (pin : Fin 54)

structure Pad where
  mode : ℕ
  latch : Bool
  deriving DecidableEq, Repr

def setLatch (pads : ℕ → Pad) (pin : ℕ) (v : Bool) : ℕ → Pad :=
  Function.update pads pin { pads pin with latch := v }

/-- What the calls do to the pads, given what the outside drives at each. -/
def padCall (pads : ℕ → Pad) (drive : ℕ → Bool) : GpioCall → Option Bool × (ℕ → Pad)
  | .mode c => (none,Function.update pads c.pin { pads c.pin with mode := c.mode })
  | .set pin val => (none,setLatch pads pin (decide (val ≠ 0)))
  | .read pin => (some (if (pads pin).mode = gpioOut then (pads pin).latch else drive pin),pads)

namespace GpioBlock

def call (b : GpioBlock) (drive : ℕ → Bool) : GpioCall → Option (BitVec 8) × GpioBlock
  | .mode c => (none,gpioModeBlock b drive c.pin c.mode)
  | .set pin val => (none,gpioSet b pin val)
  | .read pin => (some (gpioRead b drive pin),b)

def pads (b : GpioBlock) (pin : ℕ) : Pad := ⟨pinFunction b.select pin,b.latch pin⟩

def runCalls (b : GpioBlock) : List ((ℕ → Bool) × GpioCall) → List (Option (BitVec 8)) × GpioBlock
  | [] => ([],b)
  | (drive,c)::l => ((b.call drive c).1::((b.call drive c).2.runCalls l).1,
      ((b.call drive c).2.runCalls l).2)

end GpioBlock

def padCalls (pads : ℕ → Pad) :
    List ((ℕ → Bool) × GpioCall) → List (Option Bool) × (ℕ → Pad)
  | [] => ([],pads)
  | (drive,c)::l => ((padCall pads drive c).1::(padCalls (padCall pads drive c).2 l).1,
      (padCalls (padCall pads drive c).2 l).2)

/-- The rounds of `gpio_test`, with the block as each `sleep(1)` finds it. -/
def gpioTestLoop (pin : ℕ) : ℕ → GpioBlock → List GpioBlock × GpioBlock
  | 0, b => ([],b)
  | n+1, b =>
    let high := gpioSet b pin 1
    let low := gpioSet high pin 0
    (high::low::(gpioTestLoop pin n low).1,(gpioTestLoop pin n low).2)

/-- `gpio_mode` for any `int`. A word before the block is none, nor is a shift by a negative count,
which the `uint32_t` that keeps it puts out of range. -/
def gpioModeBlock? (gpioRegs : GpioBlock) (drive : ℕ → Bool) (pin : ℤ) (mode : ℕ) :
    Option GpioBlock :=
  let reg := gpioMode0/4+pin.tdiv 10
  let shift := pin.tmod 10*3
  if 0 ≤ reg ∧ 0 ≤ shift then some (gpioRegs.writeWord reg.toNat
    (gpioRegs.readWord drive reg.toNat &&& ~~~((7 : Word) <<< shift.toNat) |||
      BitVec.ofNat 32 mode <<< shift.toNat))
  else none

/-- The value returned, what the sleeps find, and the block in the end. The pin is an `int`, of
which one end alone is checked. -/
def gpioTest (gpioRegs : GpioBlock) (drive : ℕ → Bool) (pin : ℤ) :
    Option (ℤ × List GpioBlock × GpioBlock) :=
  if pin > 53 then some (-1,[],gpioRegs)
  else (gpioModeBlock? gpioRegs drive pin gpioOut).map fun b =>
    (1,gpioTestLoop pin.toNat 5 b)

def gpioModeStrs : List String := ["IN","OUT","ALT5","ALT4","ALT0","ALT1","ALT2","ALT3"]

def dispModePin (mode : Word) (i : ℕ) : List Char :=
  let str := (gpioModeStrs.getD (mode >>> (i*3) &&& 7).toNat "").toList
  (toString i).toList ++ ':'::(str ++ List.replicate (4-str.length) ' ') ++ [' ']

def dispModePins (mode : Word) : String :=
  String.ofList (((List.range 10).map (dispModePin mode)).flatten ++ ['\n'])

section Calls

variable (b : GpioBlock) (drive : ℕ → Bool)

theorem gpioModeBlock_eq {pin : ℕ} (h : pin < 54) (mode : ℕ) :
    gpioModeBlock b drive pin mode = { b with select := gpioMode b.select pin mode } := by
  have hreg : gpioMode0/4+pin/10 < 6 := by
    simp only [gpioMode0]
    omega
  simp only [gpioModeBlock,GpioBlock.readWord,GpioBlock.writeWord,if_pos hreg,gpioMode]

theorem bit_iff {pin q : ℕ} : (decide (q/32 = pin/32) && ((1 : Word) <<< (pin%32)).getLsbD (q%32)) =
    decide (q = pin) := by
  have hone : (1 : Word) <<< (pin%32) = BitVec.twoPow 32 (pin%32) := (BitVec.twoPow_eq _ _).symm
  rw [hone,BitVec.getLsbD_twoPow,Bool.eq_iff_iff]
  simp only [Bool.and_eq_true,decide_eq_true_eq]
  omega

theorem latch_gpioSet {pin : ℕ} (h : pin < 54) (val : ℤ) :
    (gpioSet b pin val).latch = Function.update b.latch pin (decide (val ≠ 0)) := by
  funext q
  by_cases hval : val ≠ 0
  · have hreg : gpioSet0/4+pin/32 = 7+pin/32 := rfl
    have hword : 7+pin/32 = 7 ∨ 7+pin/32 = 8 := by omega
    simp only [gpioSet,if_pos hval,hreg,GpioBlock.writeWord,if_neg (show ¬ 7+pin/32 < 6 by omega),
      if_pos hword,Nat.add_sub_cancel_left,bit_iff]
    by_cases hq : q = pin <;> simp [hq,hval]
  · have hreg : gpioClr0/4+pin/32 = 10+pin/32 := rfl
    have hword : 10+pin/32 = 10 ∨ 10+pin/32 = 11 := by omega
    simp only [gpioSet,if_neg hval,hreg,GpioBlock.writeWord,if_neg (show ¬ 10+pin/32 < 6 by omega),
      if_neg (show ¬ (10+pin/32 = 7 ∨ 10+pin/32 = 8) by omega),if_pos hword,
      Nat.add_sub_cancel_left,bit_iff]
    by_cases hq : q = pin <;> simp [hq,hval]

theorem select_writeWord {i : ℕ} (h : ¬ i < 6) (v : Word) :
    (b.writeWord i v).select = b.select := by
  unfold GpioBlock.writeWord
  split_ifs <;> rfl

theorem select_gpioSet (pin : ℕ) (val : ℤ) : (gpioSet b pin val).select = b.select := by
  refine select_writeWord b ?_ _
  split <;> simp only [gpioSet0,gpioClr0] <;> omega

theorem gpioRead_eq {pin : ℕ} (h : pin < 54) :
    gpioRead b drive pin = if b.level drive pin then 1 else 0 := by
  have hreg : gpioLev0/4+pin/32 = 13+pin/32 := rfl
  have hword : 13+pin/32 = 13 ∨ 13+pin/32 = 14 := by omega
  have hpin : 32*(pin/32)+pin%32 = pin := Nat.div_add_mod pin 32
  have hbit : (ofBits 32 fun k => decide (32*(pin/32)+k < 54) &&
      b.level drive (32*(pin/32)+k)).getLsbD (pin%32) = b.level drive pin := by
    rw [getLsbD_ofBits _ (Nat.mod_lt _ (by decide)),hpin,decide_eq_true h,Bool.true_and]
  simp only [gpioRead,hreg,GpioBlock.readWord,if_neg (show ¬ 13+pin/32 < 6 by omega),if_pos hword,
    Nat.add_sub_cancel_left]
  have hone : (1 : Word) = BitVec.twoPow 32 0 := rfl
  rw [hone,BitVec.and_twoPow,BitVec.getLsbD_ushiftRight,Nat.add_zero,hbit]
  cases b.level drive pin <;> rfl

/-- The step: a call does to the pads what it is to do, and returns what they say. -/
theorem pads_call (c : GpioCall) : (b.call drive c).1 = (padCall b.pads drive c).1.map
      (fun x => if x then 1 else 0) ∧ (b.call drive c).2.pads = (padCall b.pads drive c).2 := by
  cases c with
  | mode c =>
    refine ⟨rfl,funext fun q => ?_⟩
    simp only [GpioBlock.call,gpioModeBlock_eq b drive c.pin_lt,GpioBlock.pads,padCall,
      pinFunction_gpioMode b.select c.mode_lt]
    by_cases hq : q = c.pin
    · subst q
      simp
    · simp [hq,GpioBlock.pads]
  | set pin val =>
    refine ⟨rfl,funext fun q => ?_⟩
    simp only [GpioBlock.call,GpioBlock.pads,padCall,setLatch,select_gpioSet,
      latch_gpioSet b pin.isLt]
    by_cases hq : q = pin
    · subst q
      simp
    · simp [hq,GpioBlock.pads]
  | read pin =>
    refine ⟨congrArg some (gpioRead_eq b drive pin.isLt),rfl⟩

theorem reservedBits_call (c : GpioCall) (word : ℕ) :
    reservedBits.get ((b.call drive c).2.select word) = reservedBits.get (b.select word) := by
  cases c with
  | mode c =>
    simp only [GpioBlock.call,gpioModeBlock_eq b drive c.pin_lt]
    exact reservedBits_gpioMode b.select c.mode_lt word
  | set pin val => rw [GpioBlock.call,select_gpioSet]
  | read pin => rfl

/-- Any run of calls, whatever the outside drives: the reads return the levels of a map of pads that
the calls update one pin at a time, and the bits that no pin owns stay. -/
theorem gpioCalls_refine_pads (l : List ((ℕ → Bool) × GpioCall)) :
    (b.runCalls l).1 = (padCalls b.pads l).1.map (Option.map fun x => if x then 1 else 0) ∧
    (b.runCalls l).2.pads = (padCalls b.pads l).2 ∧
    ∀ word, reservedBits.get ((b.runCalls l).2.select word) = reservedBits.get (b.select word) := by
  induction l generalizing b with
  | nil => exact ⟨rfl,rfl,fun _ => rfl⟩
  | cons x l ih =>
    obtain ⟨drive,c⟩ := x
    obtain ⟨hret,hpads⟩ := pads_call b drive c
    obtain ⟨hrets,hend,hres⟩ := ih (b.call drive c).2
    refine ⟨?_,?_,fun word => (hres word).trans (reservedBits_call b drive c word)⟩
    · rw [GpioBlock.runCalls,padCalls,List.map_cons,hret,hrets,hpads]
    · rw [GpioBlock.runCalls,padCalls,hend,hpads]

theorem pads_gpioModeBlock {pin mode : ℕ} (h : pin < 54) (hm : mode < 8) :
    (gpioModeBlock b drive pin mode).pads =
      Function.update b.pads pin { b.pads pin with mode := mode } :=
  (pads_call b drive (.mode ⟨pin,mode,h,hm⟩)).2

theorem pads_gpioSet {pin : ℕ} (h : pin < 54) (val : ℤ) :
    (gpioSet b pin val).pads = setLatch b.pads pin (decide (val ≠ 0)) :=
  (pads_call b (fun _ => false) (.set ⟨pin,h⟩ val)).2

@[simp] theorem setLatch_setLatch (pads : ℕ → Pad) (pin : ℕ) (v v' : Bool) :
    setLatch (setLatch pads pin v) pin v' = setLatch pads pin v' := by
  simp [setLatch]

theorem gpioTestLoop_pads {pin : ℕ} (h : pin < 54) (n : ℕ) :
    (gpioTestLoop pin n b).1.map GpioBlock.pads = (List.replicate n
        [setLatch b.pads pin true,setLatch b.pads pin false]).flatten ∧
      (n ≠ 0 → (gpioTestLoop pin n b).2.pads = setLatch b.pads pin false) := by
  induction n generalizing b with
  | zero => exact ⟨rfl,fun hn => absurd rfl hn⟩
  | succ n ih =>
    have hhigh : (gpioSet b pin 1).pads = setLatch b.pads pin true := pads_gpioSet b h 1
    have hlow : (gpioSet (gpioSet b pin 1) pin 0).pads = setLatch b.pads pin false := by
      rw [pads_gpioSet _ h,hhigh,setLatch_setLatch]
      rfl
    obtain ⟨hmap,hend⟩ := ih (gpioSet (gpioSet b pin 1) pin 0)
    rw [hlow,setLatch_setLatch,setLatch_setLatch] at hmap
    rw [hlow,setLatch_setLatch] at hend
    refine ⟨?_,fun _ => ?_⟩
    · simp only [gpioTestLoop,List.map_cons,hmap,hhigh,hlow,List.replicate_succ,List.flatten_cons]
      rfl
    · by_cases hn : n = 0
      · subst n
        exact hlow
      · exact hend hn

theorem gpioModeBlock?_natCast (pin mode : ℕ) :
    gpioModeBlock? b drive pin mode = some (gpioModeBlock b drive pin mode) := by
  have hdiv : (pin : ℤ).tdiv 10 = ((pin/10 : ℕ) : ℤ) := (Int.ofNat_tdiv pin 10).symm
  have hmod : (pin : ℤ).tmod 10 = ((pin%10 : ℕ) : ℤ) := (Int.ofNat_tmod pin 10).symm
  have hreg : (gpioMode0/4 : ℤ)+((pin/10 : ℕ) : ℤ) = ((gpioMode0/4+pin/10 : ℕ) : ℤ) := by
    push_cast
    rfl
  have hshift : ((pin%10 : ℕ) : ℤ)*3 = ((pin%10*3 : ℕ) : ℤ) := by
    push_cast
    rfl
  rw [gpioModeBlock?,hdiv,hmod,hreg,hshift,if_pos ⟨Int.natCast_nonneg _,Int.natCast_nonneg _⟩]
  rfl

theorem gpioModeBlock?_neg {pin : ℤ} (h : pin < 0) (mode : ℕ) :
    gpioModeBlock? b drive pin mode = none := by
  refine if_neg fun hb => ?_
  have hsum := Int.mul_tdiv_add_tmod pin 10
  simp only [gpioMode0] at hb
  omega

theorem gpioTest_natCast {pin : ℕ} (hle : pin ≤ 53) :
    ∃ sleeps b', gpioTest b drive pin = some (1,sleeps,b') ∧
      (∀ outside, sleeps.map (·.level outside pin) =
        (List.replicate 5 [true,false]).flatten) ∧
      b'.pads pin = ⟨gpioOut,false⟩ ∧
      ∀ s ∈ b'::sleeps, ∀ q, q ≠ pin → s.pads q = b.pads q := by
  have h : pin < 54 := by omega
  have hmode : (gpioModeBlock b drive pin gpioOut).pads = _ :=
    pads_gpioModeBlock b drive h (by decide)
  have hpads (v : Bool) : setLatch (gpioModeBlock b drive pin gpioOut).pads pin v =
      Function.update b.pads pin ⟨gpioOut,v⟩ := by
    rw [hmode]
    simp [setLatch]
  obtain ⟨hmap,hend⟩ := gpioTestLoop_pads (gpioModeBlock b drive pin gpioOut) h 5
  obtain ⟨sleeps,b',hrun⟩ :
      ∃ l s, gpioTestLoop pin 5 (gpioModeBlock b drive pin gpioOut) = (l,s) := ⟨_,_,rfl⟩
  rw [hrun,hpads] at hmap hend
  rw [hpads] at hmap
  have hlast := hend (by decide)
  refine ⟨sleeps,b',?_,fun outside => ?_,?_,?_⟩
  · have hpast : ¬ (pin : ℤ) > 53 := by omega
    rw [gpioTest,if_neg hpast,gpioModeBlock?_natCast,Option.map_some,Int.toNat_natCast,hrun]
  · have hlevels := congrArg (List.map fun p : ℕ → Pad =>
      if (p pin).mode = gpioOut then (p pin).latch else outside pin) hmap
    rw [List.map_map] at hlevels
    refine hlevels.trans ?_
    simp [List.replicate]
  · rw [hlast,Function.update_self]
  · intro s hs q hq
    have hmem : s.pads = Function.update b.pads pin ⟨gpioOut,true⟩ ∨
        s.pads = Function.update b.pads pin ⟨gpioOut,false⟩ := by
      rcases List.mem_cons.mp hs with rfl | hs
      · exact .inr hlast
      · have hin := List.mem_map_of_mem (f := GpioBlock.pads) hs
        rw [hmap] at hin
        obtain ⟨l,hl,hin⟩ := List.mem_flatten.mp hin
        rw [List.eq_of_mem_replicate hl] at hin
        simpa using hin
    rcases hmem with hs | hs <;> rw [hs,Function.update_of_ne hq]

/-- For every `int`: `gpio_test` refuses the pins past the last one without an access. A pin that
there is it makes an output, blinks it five times and leaves it low, and no other pin changes at any
moment. A negative one passes the check, and then nothing is promised. -/
theorem gpioTest_blinks (pin : ℤ) :
    (53 < pin → gpioTest b drive pin = some (-1,[],b)) ∧
    (0 ≤ pin → pin ≤ 53 → ∃ sleeps b', gpioTest b drive pin = some (1,sleeps,b') ∧
      (∀ outside, sleeps.map (·.level outside pin.toNat) =
        (List.replicate 5 [true,false]).flatten) ∧
      b'.pads pin.toNat = ⟨gpioOut,false⟩ ∧
      ∀ s ∈ b'::sleeps, ∀ q, q ≠ pin.toNat → s.pads q = b.pads q) ∧
    (pin < 0 → gpioTest b drive pin = none) := by
  refine ⟨fun hgt => if_pos hgt,fun h0 hle => ?_,fun hneg => ?_⟩
  · obtain ⟨n,rfl⟩ := Int.eq_ofNat_of_zero_le h0
    exact gpioTest_natCast b drive (by omega)
  · have hpast : ¬ pin > 53 := by omega
    rw [gpioTest,if_neg hpast,gpioModeBlock?_neg b drive hneg]
    rfl

end Calls

section Display

def paddedStr (f : ℕ) : List Char :=
  let str := (gpioModeStrs.getD f "").toList
  str ++ List.replicate (4-str.length) ' '

theorem paddedStr_injective : ∀ f < 8, ∀ g < 8, paddedStr f = paddedStr g → f = g := by decide

theorem length_paddedStr : ∀ f < 8, (paddedStr f).length = 4 := by decide

theorem dispModePin_eq (mode : Word) {i : ℕ} (h : i < 10) : dispModePin mode i =
    (toString i).toList ++ ':'::paddedStr ((pinField i).get mode) ++ [' '] := by
  have hfield : (mode >>> (i*3) &&& 7).toNat = (pinField i).get mode := by
    have hget : (pinField i).get mode = (mode.extractLsb' (i%10*3) 3).toNat := rfl
    rw [hget,Nat.mod_eq_of_lt h,BitVec.extractLsb'_toNat,BitVec.toNat_and,BitVec.toNat_ushiftRight]
    exact Nat.and_two_pow_sub_one_eq_mod _ 3
  rw [dispModePin,hfield]
  rfl

theorem pinField_get_lt (i : ℕ) (mode : Word) : (pinField i).get mode < 8 :=
  (mode.extractLsb' (i%10*3) 3).isLt

theorem length_dispModePin (mode : Word) {i : ℕ} (h : i < 10) :
    (dispModePin mode i).length = (toString i).toList.length+6 := by
  rw [dispModePin_eq mode h]
  simp only [List.length_append,List.length_cons,List.length_nil,
    length_paddedStr _ (pinField_get_lt i mode)]

/-- The line shows two words alike exactly when they select the same function for each of their ten
pins. -/
theorem dispModePins_eq_iff (mode mode' : Word) : dispModePins mode = dispModePins mode' ↔
    ∀ i < 10, (pinField i).get mode = (pinField i).get mode' := by
  rw [dispModePins,dispModePins,String.ofList_inj,List.append_left_inj]
  constructor
  · intro h i hi
    have hlen : ((List.range 10).map (dispModePin mode)).map List.length =
        ((List.range 10).map (dispModePin mode')).map List.length := by
      rw [List.map_map,List.map_map]
      refine List.map_congr_left fun k hk => ?_
      rw [Function.comp_apply,Function.comp_apply,length_dispModePin _ (List.mem_range.mp hk),
        length_dispModePin _ (List.mem_range.mp hk)]
    have hlines := List.eq_iff_flatten_eq.mpr ⟨h,hlen⟩
    have hall := List.map_inj_left.mp hlines i (List.mem_range.mpr hi)
    rw [dispModePin_eq _ hi,dispModePin_eq _ hi,List.append_left_inj,List.append_right_inj] at hall
    exact paddedStr_injective _ (pinField_get_lt i mode) _ (pinField_get_lt i mode')
      (List.cons_injective hall)
  · intro h
    refine congrArg List.flatten (List.map_congr_left fun i hi => ?_)
    rw [dispModePin_eq _ (List.mem_range.mp hi),dispModePin_eq _ (List.mem_range.mp hi),
      h i (List.mem_range.mp hi)]

end Display
end RpiSmi
