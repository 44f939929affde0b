import RpiSmi.BusFifos

/-!
# Runs of calls on one bus

All calls of the driver share the FIFOs, the channel and the memory of
`DmaEngine`. Whatever the calls before left behind, a DMA transfer moves its own
words, a programmed transfer its own, and every other call leaves the channel and
the memory alone.
-/

namespace RpiSmi

open Exec BitField Elements

/-- What a DMA call makes of the data. A read leaves in the buffer the first words that arrived
since CLEAR and changes no other memory, a write sends the first words of its buffer and changes
none; all of them if it returns 1. -/
structure DmaCall.Moved (T : DmaTrace) (d : DmaCall) (c : DmaCb) (m₀ : Word → Word)
    (x : Option ℤ × World (ℕ × DmaSys)) : Prop where
  progress : ∃ k ≤ (d.block c).words, d.Carried T c m₀ k x.2.dev.2.data
  complete : x.1 = some 1 → d.Carried T c m₀ (d.block c).words x.2.dev.2.data
  code : ∀ r ∈ x.1, r = 1 ∨ r = -eTimedOut

def DmaSys.Idle (s : DmaSys) : Prop := s.job = none ∧ s.active = false

theorem DmaCall.Suited.run_moved {T : DmaTrace} {d : DmaCall} {w : World (ℕ × DmaSys)}
    (h : d.Suited T w.cb) (h0 : T.channel = 0) (hi : w.dev.2.Idle) (fuel : ℕ) :
    ((d.run T.env fuel w).1 ≠ none → (d.run T.env fuel w).2.dev.2.Idle) ∧
      d.Moved T w.cb w.dev.2.data.mem (d.run T.env fuel w) := by
  have hrest : AtRest (fun x => x.mem = w.dev.2.data.mem) w.dev.2.finished w.dev.2.ctrlBlk
      w.dev.2 := ⟨hi.1,hi.2,rfl,rfl,rfl⟩
  have hrun := h.run_waited hrest fuel
  rcases hx : d.run T.env fuel w with ⟨_ | r,w'⟩
  · have hphase := (hrun.elim hx).2 rfl
    refine ⟨fun hr => absurd rfl hr,hphase.progress,?_,?_⟩
    · exact fun hr => absurd hr.symm (Option.some_ne_none _)
    · exact fun r hr => absurd hr (Option.not_mem_none r)
  · have hwaited := (hrun.elim hx).1 r rfl
    refine ⟨fun _ => hwaited.stopped h0,hwaited.progress,?_,?_⟩
    · rintro ⟨⟩
      exact hwaited.complete h0 rfl
    · rintro r ⟨⟩
      exact hwaited.code

/-- The transfers that say something about their data, and every other call. -/
inductive BusCall
  | dma (d : DmaCall)
  | read (cxt : SmiCxt) (addr : BitVec 8) (len : ℤ)
  | write (cxt : SmiCxt) (data : Option (ℕ → Word)) (addr : BitVec 8) (len : ℤ)
  | other (cxt : SmiCxt) (e : Entry)

/-- A call with the control block and the memory that its caller has prepared, and what happens on
the bus meanwhile. -/
structure BusTurn where
  trace : DmaTrace
  call : BusCall
  cb : DmaCb
  mem : Word → Word
  fuel : ℕ

namespace BusTurn

def entry (t : BusTurn) (w : World (ℕ × DmaSys)) : World (ℕ × DmaSys) :=
  { w.fresh with
    cb := t.cb
    dev := (w.dev.1,{ w.dev.2 with data := { w.dev.2.data with mem := t.mem } }) }

/-- What the other calls return is left out. -/
def run (t : BusTurn) (w : World (ℕ × DmaSys)) : Option ℤ × World (ℕ × DmaSys) :=
  match t.call with
  | .dma d => d.run t.trace.env t.fuel (t.entry w)
  | .read cxt addr len => smiProgrammedReadArr t.trace.env t.fuel cxt addr len (t.entry w)
  | .write cxt data addr len =>
    smiProgrammedWriteArr t.trace.env t.fuel cxt data addr len (t.entry w)
  | .other cxt e =>
    ((⟨cxt,e,t.fuel⟩ : Invocation).run t.trace.env >>= fun _ => pure 0) (t.entry w)

/-- The worlds in which the calls of a run are made; one that does not return is the last. -/
def made (w : World (ℕ × DmaSys)) : List BusTurn → List (BusTurn × World (ℕ × DmaSys))
  | [] => []
  | t::ts => (t,w)::match t.run w with
    | (some _,w') => made w' ts
    | (none,_) => []

/-- A length that the sizing can hold, and for DMA a call on channel 0 that `start_dma` accepts. -/
def Suited (t : BusTurn) : Prop :=
  t.trace.channel = 0 ∧ match t.call with
    | .dma d => d.Suited t.trace t.cb
    | .read cxt _ len => 0 ≤ len ∧ SizeFits cxt len.toNat
    | .write .. => True
    | .other _ e => ¬ e.IsDma

/-- A call that returns leaves the channel idle, and what it does to the data is its own. -/
def Right (t : BusTurn) (w : World (ℕ × DmaSys)) : Prop :=
  ((t.run w).1 ≠ none → (t.run w).2.dev.2.Idle) ∧ match t.call with
    | .dma d => d.Moved t.trace t.cb t.mem (t.run w)
    | .read cxt _ len => Delivered cxt len t.mem (t.run w)
    | .write _ data _ len => Sent (data.getD fun _ => 0) len t.mem (t.run w)
    | .other .. => (t.run w).2.dev.2.data.mem = t.mem

end BusTurn

theorem busTurn_right {t : BusTurn} (h : t.Suited) {w : World (ℕ × DmaSys)}
    (hi : w.dev.2.Idle) : t.Right w := by
  have hrest : AtRest (fun x => x.mem = t.mem) w.dev.2.finished w.dev.2.ctrlBlk (t.entry w).dev.2 :=
    ⟨hi.1,hi.2,rfl,rfl,rfl⟩
  obtain ⟨trace,call,cb,mem,fuel⟩ := t
  obtain ⟨h0,hcall⟩ := h
  cases call with
  | dma d => exact DmaCall.Suited.run_moved (w := BusTurn.entry _ w) hcall h0 ⟨hi.1,hi.2⟩ fuel
  | read cxt addr len =>
    obtain ⟨hafter,hdelivered⟩ := smiProgrammedReadArr_bus addr hcall.1 hcall.2 hrest rfl fuel
    exact ⟨fun _ => ⟨hafter.job,hafter.active⟩,hdelivered⟩
  | write cxt data addr len =>
    obtain ⟨hafter,hsent⟩ := smiProgrammedWriteArr_bus cxt data addr len hrest fuel
    exact ⟨fun _ => ⟨hafter.job,hafter.active⟩,hsent⟩
  | other cxt e =>
    have hkeeps := Invocation.keeps_run (leavesBus_steps trace) (fun off => ⟨off,rfl⟩)
      (fun off _ => ⟨off,rfl⟩) (c := ⟨cxt,e,fuel⟩) hcall
    have hafter := keeps_bind hkeeps (fun _ => keeps_pure (0 : ℤ)) _ _ _ _ hrest
    exact ⟨fun _ => ⟨hafter.job,hafter.active⟩,hafter.data⟩

def sampleDma (dir : DmaDir) : DmaCall := ⟨dir,deviceCxt 0 false false false,64,0,1,0⟩

def sampleTurn (call : BusCall) : BusTurn where
  trace := {
    channel := 0
    port := regBusAddrD ⟨0x7e600000,0⟩
    depth := 16
    fetch := fun _ => match call with
      | .dma d => d.block ⟨0,0xc0000100,0xc0000100,0,0,0⟩
      | _ => ⟨0,0,0,0,0,0⟩
    between := fun n => [.arrive (BitVec.ofNat 32 n),.transfer,.drain]
    bits := fun _ _ => 0
    heap := fun _ _ => none
    clock := fun n => n
    limits := .default }
  call := call
  cb := ⟨0,0xc0000100,0xc0000100,0,0,0⟩
  mem := fun a => a
  fuel := 100

theorem sampleDma_suited (dir : DmaDir) : (sampleDma dir).Suited
    (sampleTurn (.dma (sampleDma dir))).trace (sampleTurn (.dma (sampleDma dir))).cb where
  nonnull := by cases dir <;> decide
  address := by cases dir <;> decide
  channel := rfl
  channel_le := by cases dir <;> decide
  length := by cases dir <;> decide
  fits := by
    cases dir with
    | read => exact ⟨by decide,by decide,by decide⟩
    | write => exact ⟨by decide,show (1 : ℤ)*4 < 2^31 by decide⟩
  port := rfl
  coherent := rfl
  apart := by cases dir <;> decide

def idleBus : ℕ × DmaSys := (0,⟨0,false,false,none,false,⟨[],[],[],[],fun _ => 0⟩⟩)

def sampleTurns : List BusTurn :=
  [sampleTurn (.dma (sampleDma .read)),
    sampleTurn (.read (deviceCxt 0 false false false) 0 1),
    sampleTurn (.other (deviceCxt 0 false false false) (.sync 0 0)),
    sampleTurn (.dma (sampleDma .write)),
    sampleTurn (.write (deviceCxt 0 false false false) (some fun i => BitVec.ofNat 32 i) 0 1)]

end RpiSmi
