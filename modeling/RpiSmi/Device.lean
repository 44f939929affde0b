import RpiSmi.History
import RpiSmi.Machine

/-!
# A device beside the driver

The device acts by itself between two accesses of the driver, as much as it
likes. `Device.env` makes it an environment whose time is the number of accesses,
so a device and its clock quantify over every interleaving. The log alone then
tells where the device is at any moment of a run.
-/

namespace RpiSmi

open History BitField

variable {S : Type}

/-- What the device does by itself before access `t` of the driver, what a register holds at that
access, and what a read and a write do to it. -/
structure Device (S : Type) where
  tick : ℕ → S → S
  value : Reg → ℕ → S → Word
  onRead : Reg → S → S
  onWrite : Reg → Word → S → S

namespace Device

variable (d : Device S)

def before (x : ℕ × S) : S := d.tick x.1 x.2

/-- An access takes place; other events do not reach the device. -/
def step (x : ℕ × S) : Event → ℕ × S
  | .read r _ => (x.1+1,d.onRead r (d.before x))
  | .write r v => (x.1+1,d.onWrite r v (d.before x))
  | .clock _ => (x.1+1,d.before x)
  | _ => x

def after (x : ℕ × S) (l : List Event) : ℕ × S := l.foldl d.step x

@[simps] def env (clock : ℕ → ℤ) (limits : SpinLimits) : Env (ℕ × S) where
  readReg r x := (d.value r x.1 (d.before x),x.1+1,d.onRead r (d.before x))
  writeReg r v x := (x.1+1,d.onWrite r v (d.before x))
  clockGettime x := (clock x.1,x.1+1,d.before x)
  realloc _ x := (none,x)
  writeSync _ x := x
  limits := limits
  arm64 := true

@[simp] theorem after_nil (x : ℕ × S) : d.after x [] = x := rfl
@[simp] theorem after_concat (x : ℕ × S) (l : List Event) (e : Event) :
    d.after x (l ++ [e]) = d.step (d.after x l) e := by
  simp [after]

/-- The device stands where the log from `x` on has led it, and every event was allowed. -/
structure Obeyed (x : ℕ × S) (rule : List Event → Event → Prop) (w : World (ℕ × S)) : Prop where
  dev : w.dev = d.after x w.log
  rules : Obeys rule w.log

namespace Obeyed

variable {d} {x : ℕ × S} {rule : List Event → Event → Prop} {w w' : World (ℕ × S)}
  {clock : ℕ → ℤ} {limits : SpinLimits}

theorem start (hd : w.dev = x) (hl : w.log = []) : d.Obeyed x rule w :=
  ⟨by rw [hl,hd,after_nil],by rw [hl]; exact obeys_nil⟩

theorem event (h : d.Obeyed x rule w) {e : Event} (hl : w'.log = w.log ++ [e])
    (hd : w'.dev = d.step w.dev e) (he : rule w.log e) : d.Obeyed x rule w' :=
  ⟨by rw [hl,hd,after_concat,h.dev],by rw [hl]; exact obeys_concat.mpr ⟨h.rules,he⟩⟩

theorem read (h : d.Obeyed x rule w) {r : Reg}
    (he : rule w.log (.read r (w.value (d.env clock limits) r))) :
    d.Obeyed x rule (w.read (d.env clock limits) r) := h.event rfl rfl he

theorem write (h : d.Obeyed x rule w) {r : Reg} {v : Word} (he : rule w.log (.write r v)) :
    d.Obeyed x rule (w.write (d.env clock limits) r v) := h.event rfl rfl he

theorem fetch (h : d.Obeyed x rule w) {i : ℕ} (he : rule w.log (.load i)) :
    d.Obeyed x rule (w.fetch i) := h.event rfl rfl he

theorem store (h : d.Obeyed x rule w) {p : Ptr} {i : ℕ} {v : Word}
    (he : rule w.log (.store p i v)) : d.Obeyed x rule (w.store p i v) := by
  cases p <;> exact h.event rfl rfl he

end Obeyed
end Device
end RpiSmi
