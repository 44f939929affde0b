import RpiSmi.ControlHistory
import RpiSmi.IrqEvents
import RpiSmi.RawBuffer

/-!
# SMI_CS between the driver and the interrupt handler

A bit-field assignment of the driver is a read of SMI_CS and, later, a write of
the whole word; the handler reads and writes the same word. The moves of both
and of the hardware are interleaved at the level of these accesses.
-/

namespace RpiSmi
namespace CsSharing

open BitField Exec Interleaving SmiIrq

/-- The bits that are cleared by writing 1. -/
def clearOnOne : Word := SmiCs.done.mask ||| SmiCs.seterr.mask ||| SmiCs.aferr.mask

/-- What a write leaves in SMI_CS. The fields of `csConfig` are plain; START and CLEAR are not
stored, and the status flags are read-only. -/
def csWrite (v cs : Word) : Word :=
  v &&& storedBits smioCs ||| cs &&& ~~~v &&& clearOnOne |||
    cs &&& ~~~(storedBits smioCs ||| clearOnOne)

/-- What the driver does with SMI_CS: polls of a flag, and assignments to a field. -/
inductive CsAccess
  | poll
  | assign (f : Field 32) (v : ℕ)
  deriving DecidableEq

/-- The accesses of a wait. -/
inductive AwaitAccess
  | poll
  | assign (f : Field 32) (v : ℕ) (h : f ∈ waitFlags)

def AwaitAccess.access : AwaitAccess → CsAccess
  | poll => .poll
  | assign f v _ => .assign f v

def csAccesses (ops : List RegOp) : List CsAccess := ops.filterMap fun
  | .field r f v => if r = smioCs then some (.assign f v) else none
  | .value _ _ => none

inductive ProgrammedTransfer
  | read (cxt : SmiCxt) (addr : BitVec 8) (len : ℤ)
  | write (cxt : SmiCxt) (addr : BitVec 8) (len : ℤ)

def ProgrammedTransfer.setup : ProgrammedTransfer → List RegOp
  | read cxt addr len => programmedReadSetup cxt addr len
  | write cxt addr len => programmedWriteSetup cxt addr len

def CsAccess.onField (f : Field 32) (x : ℕ) : CsAccess → ℕ
  | poll => x
  | assign g v => if g = f then v%2^f.width else x

def ProgrammedTransfer.setting (t : ProgrammedTransfer) (cs : Word) (f : Field 32) : ℕ :=
  (csAccesses t.setup).foldl (CsAccess.onField f) (f.get cs)

structure Shared where
  cs : Word
  /-- What the driver has still to do. -/
  driver : List CsAccess
  /-- The word that the driver has read for the assignment it is making. -/
  loaded : Option Word
  /-- The word with DONE that the handler has read and not yet acknowledged. -/
  handler : Option Word
  /-- START has been written. -/
  started : Bool

inductive SharedMove
  | driver
  | handlerRead
  | handlerWrite
  | hardware (v : Word)
  deriving DecidableEq, Repr

namespace Shared

def initial (t : ProgrammedTransfer) (await : List AwaitAccess) (cs : Word) : Shared where
  cs := cs
  driver := csAccesses t.setup ++ await.map AwaitAccess.access
  loaded := none
  handler := none
  started := false

def stepDriver (s : Shared) : Shared :=
  match s.driver with
  | [] => s
  | .poll::rest => { s with driver := rest }
  | .assign f v::rest => match s.loaded with
    | none => { s with loaded := some s.cs }
    | some word => { s with
      cs := csWrite (f.set v word) s.cs
      driver := rest
      loaded := none
      started := s.started || f = SmiCs.start }

/-- `smi_handler` up to its write, if it makes one. -/
def smiHandlerRead (s : Shared) : Shared :=
  match s.handler with
  | none => if s.cs &&& smioCsDone ≠ 0 then { s with handler := some s.cs } else s
  | some _ => s

def smiHandlerWrite (s : Shared) : Shared :=
  match s.handler with
  | none => s
  | some csReg => { s with cs := csWrite (csReg &&& smioCsDone) s.cs, handler := none }

def step (s : Shared) : SharedMove → Shared
  | .driver => s.stepDriver
  | .handlerRead => s.smiHandlerRead
  | .handlerWrite => s.smiHandlerWrite
  | .hardware v => { s with
    cs := s.cs &&& storedBits smioCs ||| v &&& ~~~storedBits smioCs }

end Shared

theorem getLsbD_csWrite (v cs : Word) {i : ℕ} (hi : i < 32) :
    (csWrite v cs).getLsbD i = if (storedBits smioCs).getLsbD i then v.getLsbD i
      else if clearOnOne.getLsbD i then cs.getLsbD i && !v.getLsbD i else cs.getLsbD i := by
  have hbits : ∀ j < 32,
      ¬ ((storedBits smioCs).getLsbD j = true ∧ clearOnOne.getLsbD j = true) := by decide
  have hboth := hbits i hi
  simp only [csWrite,BitVec.getLsbD_or,BitVec.getLsbD_and,BitVec.getLsbD_not,hi]
  rcases hp : (storedBits smioCs).getLsbD i <;> rcases hc : clearOnOne.getLsbD i <;>
    simp_all

theorem csWrite_stored (v cs : Word) :
    csWrite v cs &&& storedBits smioCs = v &&& storedBits smioCs := by
  apply BitVec.eq_of_getLsbD_eq
  intro i hi
  rw [BitVec.getLsbD_and,BitVec.getLsbD_and,getLsbD_csWrite v cs hi]
  rcases hp : (storedBits smioCs).getLsbD i <;> simp

/-- An acknowledgement of DONE keeps every other bit if and only if no plain bit is set. -/
theorem csWrite_done_iff (csReg cs : Word) :
    csWrite (csReg &&& smioCsDone) cs &&& ~~~smioCsDone = cs &&& ~~~smioCsDone ↔
      cs &&& storedBits smioCs = 0 := by
  have hmask : ~~~smioCsDone &&& storedBits smioCs = storedBits smioCs := by decide
  have hdone : smioCsDone &&& storedBits smioCs = 0#32 := by decide
  constructor
  · intro h
    have hplain := congrArg (· &&& storedBits smioCs) h
    simp only [BitVec.and_assoc,hmask,csWrite_stored,hdone,BitVec.and_zero] at hplain
    exact hplain.symm
  · intro h
    apply BitVec.eq_of_getLsbD_eq
    intro i hi
    have hbit := congrArg (BitVec.getLsbD · i) h
    simp only [BitVec.getLsbD_and] at hbit
    rw [BitVec.getLsbD_and,BitVec.getLsbD_and,getLsbD_csWrite _ _ hi,BitVec.getLsbD_and,
      BitVec.getLsbD_not]
    rcases hd : smioCsDone.getLsbD i
    · rcases hp : (storedBits smioCs).getLsbD i
      · simp
      · rw [hp,Bool.and_true] at hbit
        simp [hbit]
    · simp

theorem get_of_stored {x y : Word} (h : x &&& storedBits smioCs = y &&& storedBits smioCs)
    {f : Field 32} (hf : f ∈ csConfig) : f.get x = f.get y := by
  rw [← Field.get_and (csConfig_stored hf) x,h,Field.get_and (csConfig_stored hf) y]

theorem get_assign {f g : Field 32} (hf : f ∈ csConfig) (hg : g ∈ csFields) (v : ℕ)
    {word cs : Word} (hw : word &&& storedBits smioCs = cs &&& storedBits smioCs) :
    f.get (csWrite (g.set v word) cs) = (CsAccess.assign g v).onField f (f.get cs) := by
  have hplain : csWrite (g.set v word) cs &&& storedBits smioCs =
      g.set v cs &&& storedBits smioCs := by
    rw [csWrite_stored,← Field.set_and g v word,hw,Field.set_and]
  rw [get_of_stored hplain hf,CsAccess.onField]
  split
  case isTrue h =>
    subst h
    exact Field.get_set g v cs
  case isFalse h =>
    exact Field.get_set_of_disjoint
      ((csFields_disjoint g hg f (csConfig_fields hf)).resolve_left h) v cs

namespace Shared

/-- The handler acknowledges DONE only while no read/write field is set. -/
def Guarded (s : Shared) : SharedMove → Prop
  | .handlerWrite => s.handler ≠ none → s.cs &&& storedBits smioCs = 0
  | _ => True

/-- A move of the handler changes no bit but DONE. -/
def OnlyDone (s : Shared) : SharedMove → Prop
  | .handlerRead => s.smiHandlerRead.cs &&& ~~~smioCsDone = s.cs &&& ~~~smioCsDone
  | .handlerWrite => s.smiHandlerWrite.cs &&& ~~~smioCsDone = s.cs &&& ~~~smioCsDone
  | _ => True

/-- From START on, and while the driver is not through, every read/write field holds what the setup
alone would have left in it. -/
def InEffect (t : ProgrammedTransfer) (cs : Word) (s : Shared) : Prop :=
  s.started = true → s.driver ≠ [] → ∀ f ∈ csConfig, f.get s.cs = t.setting cs f

theorem smiHandlerRead_cs (s : Shared) : s.smiHandlerRead.cs = s.cs := by
  unfold smiHandlerRead
  split
  · split <;> rfl
  · rfl

theorem onlyDone_iff (s : Shared) (m : SharedMove) : s.OnlyDone m ↔ s.Guarded m := by
  cases m with
  | handlerRead => simp [OnlyDone,Guarded,smiHandlerRead_cs]
  | handlerWrite =>
    rcases hh : s.handler with _ | csReg
    · simp [OnlyDone,Guarded,smiHandlerWrite,hh]
    · simp [OnlyDone,Guarded,smiHandlerWrite,hh,csWrite_done_iff]
  | driver => exact Iff.rfl
  | hardware v => exact Iff.rfl

end Shared

def CsAccess.Idle : CsAccess → Prop
  | poll => True
  | assign f _ => f ∉ csConfig

def CsAccess.ByField : CsAccess → Prop
  | poll => True
  | assign f _ => f ∈ csFields

theorem AwaitAccess.idle (a : AwaitAccess) : a.access.Idle := by
  have h : ∀ f ∈ waitFlags, f ∉ csConfig := by decide
  cases a with
  | poll => trivial
  | assign f v hf => exact h f hf

theorem AwaitAccess.byField (a : AwaitAccess) : a.access.ByField := by
  have h : ∀ f ∈ waitFlags, f ∈ csFields := by decide
  cases a with
  | poll => trivial
  | assign f v hf => exact h f hf

theorem foldl_onField_skip {as : List CsAccess} {f : Field 32}
    (h : ∀ a ∈ as, ∀ x, a.onField f x = x) (x : ℕ) : as.foldl (CsAccess.onField f) x = x := by
  induction as with
  | nil => rfl
  | cons a as ih =>
    rw [List.foldl_cons,h a (List.mem_cons_self ..)]
    exact ih fun b hb => h b (List.mem_cons_of_mem a hb)

theorem foldl_onField_idle {as : List CsAccess} (h : ∀ a ∈ as, a.Idle) {f : Field 32}
    (hf : f ∈ csConfig) (x : ℕ) : as.foldl (CsAccess.onField f) x = x := by
  refine foldl_onField_skip (fun a ha x => ?_) x
  cases a with
  | poll => rfl
  | assign g v => exact if_neg fun he : g = f => h _ ha (he ▸ hf)

theorem csAccesses_append (ops ops' : List RegOp) :
    csAccesses (ops ++ ops') = csAccesses ops ++ csAccesses ops' := List.filterMap_append

theorem mem_csAccesses {ops : List RegOp} {a : CsAccess} (h : a ∈ csAccesses ops) :
    ∃ f v, .field smioCs f v ∈ ops ∧ a = .assign f v := by
  obtain ⟨op,ho,ha⟩ := List.mem_filterMap.mp h
  cases op with
  | value r v => cases ha
  | field r f v =>
    dsimp only at ha
    split at ha
    case isTrue hr =>
      cases ha
      exact ⟨f,v,hr ▸ ho,rfl⟩
    case isFalse => cases ha

theorem csAccesses_byField (t : ProgrammedTransfer) : ∀ a ∈ csAccesses t.setup, a.ByField := by
  intro a ha
  obtain ⟨f,v,ho,rfl⟩ := mem_csAccesses ha
  have hsetup : ∀ op ∈ t.setup, op.ByField := by
    cases t with
    | read cxt addr len => exact setups_byField.readArr cxt addr len
    | write cxt addr len => exact setups_byField.writeArr cxt addr len
  exact hsetup _ ho rfl

/-- START is the last access of a setup, and no other access assigns it. -/
theorem csAccesses_start (t : ProgrammedTransfer) : ∃ as,
    (∀ v, .assign SmiCs.start v ∉ as) ∧ csAccesses t.setup = as ++ [.assign SmiCs.start 1] := by
  have hsetup : ∃ mid, (∀ op ∈ mid, op.Idle) ∧ t.setup = mid ++ smiStart := by
    cases t with
    | read cxt addr len => exact (Transfer.readArr addr len).setup_start cxt
    | write cxt addr len => exact (Transfer.writeArr none addr len).setup_start cxt
  obtain ⟨mid,hmid,hs⟩ := hsetup
  refine ⟨csAccesses mid,fun v hv => ?_,by rw [hs,csAccesses_append]; rfl⟩
  obtain ⟨f,v',ho,he⟩ := mem_csAccesses hv
  cases he
  exact absurd (hmid _ ho rfl) (by decide)

theorem subset_of_split {α : Type} {x y : α} {pre post as bs : List α} (hy : y ∉ pre)
    (h : pre ++ x::post = as ++ y::bs) : bs ⊆ post := by
  rcases List.append_eq_append_iff.mp h with ⟨c,rfl,hc⟩ | ⟨c,rfl,hc⟩
  · rcases c with _ | ⟨z,c⟩
    · cases hc
      exact List.Subset.refl _
    · cases hc
      intro b hb
      exact List.mem_append_right _ (List.mem_cons_of_mem _ hb)
  · rcases c with _ | ⟨z,c⟩
    · cases hc
      exact List.Subset.refl _
    · cases hc
      exact absurd (List.mem_append_right as (List.mem_cons_self ..)) hy

namespace Shared

/-- While the handler leaves the plain bits alone, the driver is on its way to what the setup
alone would leave, and once it has written START it is there. -/
structure OnCourse (t : ProgrammedTransfer) (cs : Word) (s : Shared) : Prop where
  word : ∀ word, s.loaded = some word →
    word &&& storedBits smioCs = s.cs &&& storedBits smioCs
  leads : ∀ f ∈ csConfig, s.driver.foldl (CsAccess.onField f) (f.get s.cs) = t.setting cs f
  byField : ∀ a ∈ s.driver, a.ByField
  afterStart : s.started = true → ∀ a ∈ s.driver, a.Idle
  lastIsStart : ∀ as v bs, s.driver = as ++ .assign SmiCs.start v::bs → ∀ a ∈ bs, a.Idle

variable {t : ProgrammedTransfer} {cs : Word} {s : Shared}

theorem OnCourse.inEffect (h : OnCourse t cs s) : InEffect t cs s := by
  intro hs _ f hf
  rw [← h.leads f hf,foldl_onField_idle (h.afterStart hs) hf]

theorem OnCourse.of_stored (h : OnCourse t cs s) {word : Word}
    (hw : word &&& storedBits smioCs = s.cs &&& storedBits smioCs) (handler : Option Word) :
    OnCourse t cs { s with cs := word, handler := handler } where
  word x hx := (h.word x hx).trans hw.symm
  leads f hf := by
    rw [← h.leads f hf]
    show s.driver.foldl (CsAccess.onField f) (f.get word) = _
    rw [get_of_stored hw hf]
  byField := h.byField
  afterStart := h.afterStart
  lastIsStart := h.lastIsStart

theorem OnCourse.stepDriver (h : OnCourse t cs s) : OnCourse t cs s.stepDriver := by
  unfold Shared.stepDriver
  split
  · exact h
  case h_2 rest hd =>
    have hleads := h.leads
    have hby := h.byField
    have hafter := h.afterStart
    have hlast := h.lastIsStart
    rw [hd] at hleads hby hafter hlast
    exact ⟨h.word,hleads,fun a ha => hby a (List.mem_cons_of_mem _ ha),
      fun hs a ha => hafter hs a (List.mem_cons_of_mem _ ha),
      fun as v bs hr => hlast (.poll::as) v bs (congrArg (.poll::·) hr)⟩
  case h_3 f v rest hd =>
    have hleads := h.leads
    have hby := h.byField
    have hafter := h.afterStart
    have hlast := h.lastIsStart
    rw [hd] at hleads hby hafter hlast
    split
    case h_1 hl =>
      refine ⟨?_,h.leads,h.byField,h.afterStart,h.lastIsStart⟩
      rintro word ⟨⟩
      rfl
    case h_2 word hl =>
      refine ⟨by simp,fun g hg => ?_,fun a ha => hby a (List.mem_cons_of_mem _ ha),?_,?_⟩
      · show rest.foldl (CsAccess.onField g) (g.get (csWrite (f.set v word) s.cs)) = _
        rw [get_assign hg (hby _ (List.mem_cons_self ..)) v (h.word word hl)]
        exact hleads g hg
      · intro hs a ha
        rcases Bool.or_eq_true _ _ |>.mp hs with hs | hs
        · exact hafter hs a (List.mem_cons_of_mem _ ha)
        · have hf := of_decide_eq_true hs
          exact hlast [] v rest (by rw [hf]; rfl) a ha
      · exact fun as w bs hr => hlast (.assign f v::as) w bs (congrArg (.assign f v::·) hr)

theorem OnCourse.step (h : OnCourse t cs s) {m : SharedMove} (hg : s.Guarded m) :
    OnCourse t cs (s.step m) := by
  cases m with
  | driver => exact h.stepDriver
  | handlerRead =>
    simp only [Shared.step,smiHandlerRead]
    split
    · split
      · exact h.of_stored rfl _
      · exact h
    · exact h
  | handlerWrite =>
    have honly := (onlyDone_iff s .handlerWrite).mpr hg
    have hmask : ~~~smioCsDone &&& storedBits smioCs = storedBits smioCs := by decide
    have hplain : s.smiHandlerWrite.cs &&& storedBits smioCs = s.cs &&& storedBits smioCs := by
      rw [← hmask,← BitVec.and_assoc,← BitVec.and_assoc]
      exact congrArg (· &&& storedBits smioCs) honly
    simp only [Shared.step]
    unfold smiHandlerWrite at *
    split at *
    · exact h
    · exact h.of_stored hplain _
  | hardware v =>
    refine h.of_stored ?_ s.handler
    apply BitVec.eq_of_getLsbD_eq
    intro i hi
    simp only [BitVec.getLsbD_and,BitVec.getLsbD_or,BitVec.getLsbD_not]
    rcases (storedBits smioCs).getLsbD i <;> simp

theorem onCourse_initial (t : ProgrammedTransfer) (await : List AwaitAccess) (cs : Word) :
    OnCourse t cs (initial t await cs) where
  word := by simp [initial]
  leads f hf := by
    show (csAccesses t.setup ++ await.map AwaitAccess.access).foldl _ (f.get cs) = _
    rw [List.foldl_append,foldl_onField_idle ?_ hf]
    · rfl
    · rintro a ha
      obtain ⟨b,-,rfl⟩ := List.mem_map.mp ha
      exact b.idle
  byField a ha := by
    rcases List.mem_append.mp ha with ha | ha
    · exact csAccesses_byField t a ha
    · obtain ⟨b,-,rfl⟩ := List.mem_map.mp ha
      exact b.byField
  afterStart := by simp [initial]
  lastIsStart := by
    intro as v bs h a ha
    obtain ⟨pre,hpre,hsetup⟩ := csAccesses_start t
    have hsplit : pre ++ .assign SmiCs.start 1::await.map AwaitAccess.access =
        as ++ .assign SmiCs.start v::bs := by
      rw [← h]
      show _ = csAccesses t.setup ++ await.map AwaitAccess.access
      rw [hsetup,List.append_assoc]
      rfl
    obtain ⟨b,-,rfl⟩ := List.mem_map.mp (subset_of_split (hpre v) hsplit ha)
    exact b.idle

/-- The handler changes no bit but DONE, and the settings of the transfer stay in effect, in
exactly the runs in which every acknowledgement finds the read/write fields clear. -/
theorem handler_shares_cs_iff (t : ProgrammedTransfer) (await : List AwaitAccess) (cs : Word)
    (ms : List SharedMove) :
    ((∀ p ∈ taken step (initial t await cs) ms, p.1.OnlyDone p.2) ∧
        ∀ s ∈ visited step (initial t await cs) ms, InEffect t cs s) ↔
      ∀ p ∈ taken step (initial t await cs) ms, p.1.Guarded p.2 := by
  constructor
  · intro h p hp
    exact (onlyDone_iff p.1 p.2).mp (h.1 p hp)
  · intro hg
    refine ⟨fun p hp => (onlyDone_iff p.1 p.2).mpr (hg p hp),fun s hs => ?_⟩
    have hkeeps (s : Shared) (m : SharedMove) (h : OnCourse t cs s) (hm : s.Guarded m) :
        OnCourse t cs (s.step m) := h.step hm
    exact (invariant_visited hkeeps (onCourse_initial t await cs) hg s hs).inEffect

/-- A write to device 0 ends while the driver polls: DONE is acknowledged, and the SMI is off. -/
theorem handler_shares_cs_not : ¬ ∀ (t : ProgrammedTransfer) (await : List AwaitAccess) (cs : Word)
    (ms : List SharedMove),
    (∀ p ∈ taken step (initial t await cs) ms, p.1.OnlyDone p.2) ∧
      ∀ s ∈ visited step (initial t await cs) ms, InEffect t cs s := by
  intro h
  have hrun := (h (.write (deviceCxt 0 false false false) 0 1) [.poll] 0
    (List.replicate 26 .driver ++ [.hardware 2,.handlerRead,.handlerWrite])).2
    _ (foldl_mem_visited _) (by decide) (by decide) SmiCs.enable (by decide)
  exact absurd hrun (by decide)

end Shared

theorem foldl_onField_mem {as : List CsAccess} {f : Field 32} {v : ℕ}
    (hm : .assign f v ∈ as) (ho : ∀ w, .assign f w ∈ as → w = v) (x : ℕ) :
    as.foldl (CsAccess.onField f) x = v%2^f.width := by
  obtain ⟨l,r,rfl⟩ := List.append_of_mem hm
  rw [List.foldl_append,List.foldl_cons]
  have hrest : ∀ y, y = v%2^f.width → r.foldl (CsAccess.onField f) y = v%2^f.width := by
    have hr : ∀ w, .assign f w ∈ r → w = v := fun w hw =>
      ho w (List.mem_append_right l (List.mem_cons_of_mem _ hw))
    clear hm ho
    induction r with
    | nil => exact fun y hy => hy
    | cons a r ih =>
      intro y hy
      refine ih (fun w hw => hr w (List.mem_cons_of_mem a hw)) _ ?_
      cases a with
      | poll => exact hy
      | assign g w =>
        rw [CsAccess.onField]
        split
        case isTrue h =>
          subst h
          rw [hr w (List.mem_cons_self ..)]
        case isFalse => exact hy
  exact hrest _ (by rw [CsAccess.onField,if_pos rfl])

def CsAccess.field? : CsAccess → Option (Field 32)
  | poll => none
  | assign f _ => some f

theorem nodup_csAccesses (t : ProgrammedTransfer) :
    ((csAccesses t.setup).map CsAccess.field?).Nodup := by
  have hread : ([SmiCs.aferr,SmiCs.seterr,SmiCs.pxldat,SmiCs.enable,SmiCs.write,SmiCs.clear,
    SmiCs.pad,SmiCs.prdy,SmiCs.intr,SmiCs.intd,SmiCs.pvmode,SmiCs.start].map some).Nodup := by
    decide
  have hwrite : ([SmiCs.aferr,SmiCs.seterr,SmiCs.done,SmiCs.enable,SmiCs.write,SmiCs.clear,
    SmiCs.pxldat,SmiCs.pad,SmiCs.prdy,SmiCs.intr,SmiCs.intd,SmiCs.intt,SmiCs.start].map
      some).Nodup := by decide
  cases t with
  | read cxt addr len =>
    have hfields : (csAccesses (programmedReadSetup cxt addr len)).map CsAccess.field? =
        [SmiCs.aferr,SmiCs.seterr,SmiCs.pxldat,SmiCs.enable,SmiCs.write,SmiCs.clear,SmiCs.pad,
          SmiCs.prdy,SmiCs.intr,SmiCs.intd,SmiCs.pvmode,SmiCs.start].map some := by
      simp [csAccesses,programmedReadSetup,smiStart,CsAccess.field?,smioA,smioCs,smioDsr,smioDsw,
        smioL]
    exact hfields ▸ hread
  | write cxt addr len => exact hwrite

/-- What a setup assigns is in effect, as it assigns no field twice. -/
theorem setting_assigned (t : ProgrammedTransfer) (cs : Word) {f : Field 32} {v : ℕ}
    (h : .field smioCs f v ∈ t.setup) : t.setting cs f = v%2^f.width := by
  have hmem : .assign f v ∈ csAccesses t.setup :=
    List.mem_filterMap.mpr ⟨_,h,if_pos rfl⟩
  refine foldl_onField_mem hmem (fun w hw => ?_) _
  have hsame := List.inj_on_of_nodup_map (nodup_csAccesses t) hw hmem rfl
  cases hsame
  rfl

/-- What a setup does not assign stays as it was. -/
theorem setting_kept (t : ProgrammedTransfer) (cs : Word) {f : Field 32}
    (h : ∀ v, .field smioCs f v ∉ t.setup) : t.setting cs f = f.get cs := by
  refine foldl_onField_skip (fun a ha x => ?_) _
  obtain ⟨g,v,ho,rfl⟩ := mem_csAccesses ha
  rw [CsAccess.onField,if_neg]
  rintro rfl
  exact h v ho

def csEvent? : Event → Option (Word ⊕ Word)
  | .read r v => if r = smioCs then some (.inl v) else none
  | .write r v => if r = smioCs then some (.inr v) else none
  | _ => none

inductive Renders : List CsAccess → List (Word ⊕ Word) → Prop
  | nil : Renders [] []
  | poll {as : List CsAccess} {es : List (Word ⊕ Word)} (word : Word) (h : Renders as es) :
      Renders (.poll::as) (.inl word::es)
  | assign {as : List CsAccess} {es : List (Word ⊕ Word)} (f : Field 32) (v : ℕ) (word : Word)
      (h : Renders as es) : Renders (.assign f v::as) (.inl word::.inr (f.set v word)::es)

theorem Renders.append {as bs : List CsAccess} {es fs : List (Word ⊕ Word)} (h : Renders as es)
    (h' : Renders bs fs) : Renders (as ++ bs) (es ++ fs) := by
  induction h with
  | nil => exact h'
  | poll word _ ih => exact .poll word ih
  | assign f v word _ ih => exact .assign f v word ih

def Awaited {σ : Type} (w w' : World σ) : Prop := ∃ (await : List AwaitAccess) (es : _),
  Renders (await.map AwaitAccess.access) es ∧ w'.view csEvent? = w.view csEvent? ++ es

section Calls

variable {σ : Type} (env : Env σ)

instance : IsPreorder (World σ) Awaited where
  refl w := ⟨[],[],.nil,by simp⟩
  trans w w' w'' := by
    rintro ⟨as,es,h,hv⟩ ⟨bs,fs,h',hv'⟩
    refine ⟨as ++ bs,es ++ fs,?_,by rw [hv',hv,List.append_assoc]⟩
    rw [List.map_append]
    exact h.append h'

theorem awaited_steps : StepsIn env (· ≠ smioCs) (fun r f => r = smioCs → f ∈ waitFlags)
    (Awaited : World σ → World σ → Prop) where
  read r w := by
    by_cases hr : r = smioCs
    · exact ⟨[.poll],_,.poll (w.value env r) .nil,by simp [csEvent?,hr]⟩
    · exact ⟨[],_,.nil,by simp [csEvent?,hr]⟩
  write r v w h := ⟨[],_,.nil,by simp [csEvent?,h]⟩
  assign r f v w h := by
    by_cases hr : r = smioCs
    · exact ⟨[.assign f v (h hr)],_,.assign f v (w.value env r) .nil,
        by simp [World.assign,csEvent?,hr]⟩
    · exact ⟨[],_,.nil,by simp [World.assign,csEvent?,hr]⟩
  store i v w := ⟨[],_,.nil,by simp [csEvent?]⟩
  fetch i w := ⟨[],_,.nil,by simp [csEvent?]⟩
  report msg w := ⟨[],_,.nil,by simp [csEvent?]⟩
  clock w := ⟨[],_,.nil,by simp [World.clocked,csEvent?]⟩

theorem renders_apply {ops : List RegOp} (hops : ∀ op ∈ ops, ∀ v, op ≠ .value smioCs v)
    (w : World σ) : ∃ es, Renders (csAccesses ops) es ∧
      (w.apply env ops).view csEvent? = w.view csEvent? ++ es := by
  induction ops generalizing w with
  | nil => exact ⟨[],.nil,by simp⟩
  | cons op ops ih =>
    have hrest := ih fun op' ho => hops op' (List.mem_cons_of_mem op ho)
    cases op with
    | value r v =>
      have hr : r ≠ smioCs := fun h => hops _ (List.mem_cons_self ..) v (h ▸ rfl)
      obtain ⟨es,h,hv⟩ := hrest (w.write env r v)
      exact ⟨es,h,by rw [World.apply_value,hv]; simp [csEvent?,hr]⟩
    | field r f v =>
      obtain ⟨es,h,hv⟩ := hrest (w.assign env r f v)
      rw [World.apply_field,hv]
      by_cases hr : r = smioCs
      · refine ⟨.inl (w.value env r)::.inr (f.set v (w.value env r))::es,?_,?_⟩
        · simpa [csAccesses,hr] using Renders.assign f v (w.value env r) h
        · simp [World.assign,csEvent?,hr]
      · refine ⟨es,by simpa [csAccesses,hr] using h,?_⟩
        simp [World.assign,csEvent?,hr]

/-- A setup and a wait access SMI_CS as the driver of `initial` does. -/
theorem renders_initial {t : ProgrammedTransfer} {w w' : World σ} (hw : w.view csEvent? = [])
    (hsetup : ∀ op ∈ t.setup, ∀ v, op ≠ .value smioCs v)
    (hawait : Awaited (w.apply env t.setup) w') (cs : Word) :
    ∃ await, Renders (Shared.initial t await cs).driver (w'.view csEvent?) := by
  obtain ⟨es,h,hv⟩ := renders_apply env hsetup w
  obtain ⟨await,fs,h',hv'⟩ := hawait
  refine ⟨await,?_⟩
  rw [hv',hv,hw,List.nil_append]
  exact h.append h'

/-- A call of `smi_programmed_write_arr`, wherever it ends. -/
theorem smiProgrammedWriteArr_renders (fuel : ℕ) (cxt : SmiCxt) (data : Option (ℕ → Word))
    (addr : BitVec 8) (len : ℤ) (w : World σ) (cs : Word) :
    ∃ await, Renders (Shared.initial (.write cxt addr len) await cs).driver
      ((smiProgrammedWriteArr env fuel cxt data addr len w.fresh).2.view csEvent?) := by
  refine renders_initial env (view_fresh _ w) ?_ ?_ cs
  · simp [ProgrammedTransfer.setup,programmedWriteSetup,smiStart]
  · exact keeps_smiWriteAwait (awaited_steps env) fuel len (fun f hf _ => hf) (by decide) data _

variable {env} in
theorem readEntry_unaccessed {cxt : SmiCxt} {addr : BitVec 8} {len : ℤ} {w w₁ : World σ}
    (he : readEntry env cxt addr len w = some w₁) : ∃ v : World σ,
      v.view csEvent? = w.view csEvent? ∧ w₁ = v.apply env (programmedReadSetup cxt addr len) := by
  have hratio : (ratioWorld cxt w).view csEvent? = w.view csEvent? := by
    unfold ratioWorld
    split
    · simp [csEvent?]
    · rfl
  unfold readEntry growRawBuffer at he
  split at he
  case h_1 v hg =>
    cases he
    refine ⟨v,?_,rfl⟩
    split at hg
    · split at hg
      · cases hg
        exact hratio
      · cases hg
    · cases hg
      exact hratio
  case h_2 => cases he

/-- A call of `smi_programmed_read_arr` that has room for its words. -/
theorem smiProgrammedReadArr_renders (fuel : ℕ) {cxt : SmiCxt} {addr : BitVec 8} {len : ℤ}
    {w w₁ : World σ} (he : readEntry env cxt addr len w.fresh = some w₁) (cs : Word) :
    ∃ await, Renders (Shared.initial (.read cxt addr len) await cs).driver
      ((smiProgrammedReadArr env fuel cxt addr len w.fresh).2.view csEvent?) := by
  obtain ⟨v,hv,rfl⟩ := readEntry_unaccessed he
  rw [smiProgrammedReadArr_run he]
  refine renders_initial env (w := v) (hv.trans (view_fresh _ w)) ?_ ?_ cs
  · simp [ProgrammedTransfer.setup,programmedReadSetup,smiStart]
  · have hdecode (count : ℤ) :
        Keeps Awaited (decodeRaw cxt (wordReads cxt len) count : Drv σ _) := by
      intro u
      rcases decodeRaw_state cxt (wordReads cxt len) count u with ⟨msg,h⟩ | ⟨m,h⟩ <;> rw [h]
      · exact (awaited_steps env).report msg u
      · exact refl_of Awaited u
    exact keeps_bind (keeps_smiReadAwait (awaited_steps env) fuel _ fun f hf _ => hf)
      (fun count => keeps_bind (hdecode count) fun _ => keeps_pure count) _

end Calls

end CsSharing
end RpiSmi
