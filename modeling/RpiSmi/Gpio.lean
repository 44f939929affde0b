import RpiSmi.BitField
import RpiSmi.Machine
import RpiSmi.Writes

/-!
# Pin functions

Ten pins share a function-select register, three bits each. The mapped block is
a file of words, and a call reads the word of its pin, replaces the three bits
and stores the word again.
-/

namespace RpiSmi

open BitField

abbrev GpioFile := ℕ → Word

def gpioMode0 : ℕ := 0x00
def gpioAlt1 : ℕ := 5
def smiSoePin : ℕ := 6
def smiSwePin : ℕ := 7

def gpioMode (gpioRegs : GpioFile) (pin mode : ℕ) : GpioFile :=
  let reg := gpioMode0/4+pin/10
  let shift := pin%10*3
  Function.update gpioRegs reg
    (gpioRegs reg &&& ~~~((7 : Word) <<< shift) ||| BitVec.ofNat 32 mode <<< shift)

def smiGpioInit (gpioMap : GpioFile) : GpioFile :=
  gpioMode (gpioMode gpioMap smiSoePin gpioAlt1) smiSwePin gpioAlt1

def smi8bInit (gpioMap : GpioFile) : GpioFile :=
  (List.range 26).foldl (fun regs i => gpioMode regs i gpioAlt1) gpioMap

/-- The three bits of a pin inside its register. -/
def pinField (pin : ℕ) : Field 32 := ⟨pin%10*3,3,by omega⟩

theorem reserved_fits : 30+2 ≤ 32 := by decide

/-- The two bits that no pin of a register owns. -/
def reservedBits : Field 32 := ⟨30,2,reserved_fits⟩

def pinFunction (gpioRegs : GpioFile) (pin : ℕ) : ℕ := (pinField pin).get (gpioRegs (pin/10))

/-- One call of a run, within the pins and the functions there are. -/
structure ModeCall where
  pin : ℕ
  mode : ℕ
  pin_lt : pin < 54 := by decide
  mode_lt : mode < 8 := by decide

def ModeCall.made (gpioRegs : GpioFile) (c : ModeCall) : GpioFile := gpioMode gpioRegs c.pin c.mode

def gpioModes (gpioRegs : GpioFile) (calls : List ModeCall) : GpioFile :=
  calls.foldl ModeCall.made gpioRegs

def ModeCall.entry (c : ModeCall) : ℕ × ℕ := (c.pin,c.mode)

section Words

variable (gpioRegs : GpioFile) {pin mode : ℕ}

theorem pinField_mask (pin : ℕ) : (pinField pin).mask = (7 : Word) <<< (pin%10*3) := by
  have hones : (BitVec.allOnes 3).setWidth 32 = (7 : Word) := by decide
  simp only [Field.mask,pinField,hones]

/-- The masked update of the source assigns the three bits of the pin. -/
theorem gpioMode_eq (hm : mode < 8) : gpioMode gpioRegs pin mode =
    Function.update gpioRegs (pin/10) ((pinField pin).set mode (gpioRegs (pin/10))) := by
  have hmode : BitVec.ofNat 32 mode = (BitVec.ofNat 3 mode).setWidth 32 := by
    apply BitVec.eq_of_toNat_eq
    simp only [BitVec.toNat_ofNat,BitVec.toNat_setWidth]
    omega
  have hreg : gpioMode0/4+pin/10 = pin/10 := by simp [gpioMode0]
  simp only [gpioMode,hreg,Field.set,pinField_mask,hmode]
  rfl

theorem pinField_disjoint {p q : ℕ} (h : p%10 ≠ q%10) : (pinField p).Disjoint (pinField q) := by
  simp only [Field.Disjoint,pinField]
  omega

theorem pinField_disjoint_reserved (p : ℕ) : (pinField p).Disjoint reservedBits := by
  simp only [Field.Disjoint,pinField,reservedBits]
  omega

theorem pinFunction_gpioMode (hm : mode < 8) : pinFunction (gpioMode gpioRegs pin mode) =
    Function.update (pinFunction gpioRegs) pin mode := by
  funext q
  rw [gpioMode_eq gpioRegs hm,pinFunction]
  by_cases hq : q = pin
  · subst q
    rw [Function.update_self,Function.update_self,Field.get_set]
    exact Nat.mod_eq_of_lt hm
  · rw [Function.update_of_ne hq]
    by_cases hw : q/10 = pin/10
    · have hd : (pinField pin).Disjoint (pinField q) := pinField_disjoint (by omega)
      rw [hw,Function.update_self,Field.get_set_of_disjoint hd,pinFunction,hw]
    · rw [Function.update_of_ne hw,pinFunction]

theorem reservedBits_gpioMode (hm : mode < 8) (word : ℕ) :
    reservedBits.get (gpioMode gpioRegs pin mode word) = reservedBits.get (gpioRegs word) := by
  rw [gpioMode_eq gpioRegs hm]
  by_cases hw : word = pin/10
  · subst word
    rw [Function.update_self,Field.get_set_of_disjoint (pinField_disjoint_reserved pin)]
  · rw [Function.update_of_ne hw]

theorem gpioFile_ext {regs regs' : GpioFile} (hp : pinFunction regs = pinFunction regs')
    (hr : ∀ word, reservedBits.get (regs word) = reservedBits.get (regs' word)) : regs = regs' := by
  funext word
  apply BitVec.eq_of_getLsbD_eq
  intro i hi
  by_cases hlow : i < 30
  · have hpin := congrArg (Nat.testBit · (i%3)) (congrFun hp (10*word+i/3))
    have hword : (10*word+i/3)/10 = word := by omega
    have hbit : (10*word+i/3)%10*3+i%3 = i := by omega
    have hlt : i%3 < 3 := Nat.mod_lt _ (by decide)
    simpa only [pinFunction,Field.get,pinField,hword,BitVec.testBit_toNat,
      BitVec.getLsbD_extractLsb',hlt,hbit,decide_true,Bool.true_and] using hpin
  · have htop := congrArg (Nat.testBit · (i-30)) (hr word)
    have hbit : 30+(i-30) = i := by omega
    have hlt : i-30 < 2 := by omega
    simpa only [Field.get,reservedBits,BitVec.testBit_toNat,BitVec.getLsbD_extractLsb',hlt,hbit,
      decide_true,Bool.true_and] using htop

end Words

section Runs

variable (gpioRegs : GpioFile) (calls : List ModeCall)

theorem pinFunction_gpioModes : pinFunction (gpioModes gpioRegs calls) =
    Writes.run (pinFunction gpioRegs) (calls.map ModeCall.entry) := by
  induction calls generalizing gpioRegs with
  | nil => rfl
  | cons c calls ih =>
    rw [gpioModes,List.foldl_cons]
    refine (ih (c.made gpioRegs)).trans ?_
    rw [ModeCall.made,pinFunction_gpioMode gpioRegs c.mode_lt]
    rfl

theorem reservedBits_gpioModes (word : ℕ) :
    reservedBits.get (gpioModes gpioRegs calls word) = reservedBits.get (gpioRegs word) := by
  induction calls generalizing gpioRegs with
  | nil => rfl
  | cons c calls ih =>
    rw [gpioModes,List.foldl_cons]
    exact (ih (c.made gpioRegs)).trans (reservedBits_gpioMode gpioRegs c.mode_lt word)

theorem entries_filter (pin : ℕ) : (calls.map ModeCall.entry).filter (·.1 = pin) =
    (calls.filter (·.pin = pin)).map ModeCall.entry := by
  rw [List.filter_map]
  rfl

/-- The function that the last call naming the pin selects. -/
def lastMode (calls : List ModeCall) (pin : ℕ) : Option ℕ :=
  (calls.filter (·.pin = pin)).getLast?.map ModeCall.mode

theorem last_entries (pin : ℕ) :
    Writes.last (calls.map ModeCall.entry) pin = lastMode calls pin := by
  rw [Writes.last,entries_filter,List.getLast?_map,Option.map_map]
  rfl

/-- Runs in which every pin sees the same calls in the same order leave the same file. -/
theorem gpioModes_eq_of_filter_eq {calls calls' : List ModeCall}
    (h : ∀ pin, calls.filter (·.pin = pin) = calls'.filter (·.pin = pin)) :
    gpioModes gpioRegs calls = gpioModes gpioRegs calls' := by
  apply gpioFile_ext
  · rw [pinFunction_gpioModes,pinFunction_gpioModes]
    exact Writes.run_eq_of_filter_eq (fun pin => by rw [entries_filter,entries_filter,h pin]) _
  · intro word
    rw [reservedBits_gpioModes,reservedBits_gpioModes]

/-- Selecting pin functions is updating a map: each pin ends with the function that the last
call naming it selects, or keeps its own, the reserved bits stay, and only the order of the calls
on one pin matters. -/
theorem gpio_mode_updates_a_map :
    (∀ pin, pinFunction (gpioModes gpioRegs calls) pin =
      (lastMode calls pin).getD (pinFunction gpioRegs pin)) ∧
    (∀ word, (gpioModes gpioRegs calls word).extractLsb' 30 2 =
      (gpioRegs word).extractLsb' 30 2) ∧
    (∀ calls' : List ModeCall,
      (∀ pin, calls.filter (·.pin = pin) = calls'.filter (·.pin = pin)) →
      gpioModes gpioRegs calls = gpioModes gpioRegs calls') := by
  refine ⟨?_,?_,?_⟩
  · intro pin
    rw [pinFunction_gpioModes,Writes.run_apply,last_entries]
  · intro word
    exact BitVec.eq_of_toNat_eq (reservedBits_gpioModes gpioRegs calls word)
  · intro calls' h
    exact gpioModes_eq_of_filter_eq gpioRegs h

end Runs

/-- The two strobe pins set in either order. -/
theorem gpio_mode_updates_a_map_strobes :
    gpioModes (fun _ => 0) [⟨6,5,by decide,by decide⟩,⟨7,5,by decide,by decide⟩] =
      gpioModes (fun _ => 0) [⟨7,5,by decide,by decide⟩,⟨6,5,by decide,by decide⟩] := by
  refine (gpio_mode_updates_a_map _ _).2.2 _ ?_
  intro pin
  by_cases h : pin = 6
  · subst pin
    rfl
  · have h' : ¬6 = pin := fun he => h he.symm
    simp [h',List.filter_cons]

def smi8bCalls : List ModeCall :=
  (List.finRange 26).map fun i : Fin 26 => ⟨i,gpioAlt1,by omega,by decide⟩

def smiGpioCalls : List ModeCall := [⟨smiSoePin,gpioAlt1,by decide,by decide⟩,
  ⟨smiSwePin,gpioAlt1,by decide,by decide⟩]

theorem smi8bInit_eq (gpioMap : GpioFile) : smi8bInit gpioMap = gpioModes gpioMap smi8bCalls := by
  have hrange : List.range 26 = (List.finRange 26).map Fin.val := by decide
  rw [smi8bInit,hrange,List.foldl_map,gpioModes,smi8bCalls,List.foldl_map]
  rfl

theorem smiGpioInit_eq (gpioMap : GpioFile) :
    smiGpioInit gpioMap = gpioModes gpioMap smiGpioCalls := rfl

theorem pinFunction_smi8bInit (gpioMap : GpioFile) (pin : ℕ) : pinFunction (smi8bInit gpioMap) pin =
    if pin < 26 then gpioAlt1 else pinFunction gpioMap pin := by
  rw [smi8bInit_eq,pinFunction_gpioModes]
  split_ifs with hp
  · refine Writes.run_of_mem ?_ ?_ _
    · simp only [smi8bCalls,List.map_map,List.mem_map,List.mem_finRange,true_and]
      exact ⟨⟨pin,hp⟩,rfl⟩
    · rintro w hw -
      simp only [smi8bCalls,List.map_map,List.mem_map] at hw
      obtain ⟨i,-,rfl⟩ := hw
      rfl
  · refine Writes.run_of_forall_ne ?_ _
    intro w hw
    simp only [smi8bCalls,List.map_map,List.mem_map] at hw
    obtain ⟨i,-,rfl⟩ := hw
    simp only [Function.comp_apply,ModeCall.entry]
    omega

/-- The two strobe pins are among them, so setting them again changes nothing. -/
theorem smiGpioInit_smi8bInit (gpioMap : GpioFile) :
    smiGpioInit (smi8bInit gpioMap) = smi8bInit gpioMap := by
  apply gpioFile_ext
  · have hsame : ∀ pin < 26, Function.update (pinFunction (smi8bInit gpioMap)) pin gpioAlt1 =
        pinFunction (smi8bInit gpioMap) := by
      intro pin hp
      apply Function.update_eq_self_iff.mpr
      rw [pinFunction_smi8bInit,if_pos hp]
    rw [smiGpioInit_eq,pinFunction_gpioModes]
    simp only [smiGpioCalls,List.map_cons,List.map_nil,ModeCall.entry,Writes.run_cons,
      Writes.run_nil]
    rw [hsame smiSoePin (by decide),hsame smiSwePin (by decide)]
  · intro word
    rw [smiGpioInit_eq,reservedBits_gpioModes]

end RpiSmi
