import RpiSmi.BufferInit
import RpiSmi.CheckedInt
import RpiSmi.Writes
import Mathlib.Data.List.Range

/-!
# The check of the DMA buffer

`check_buf` with the arithmetic of its `int`s, on memory some of whose cells are
stuck. Each of its nine passes goes over the buffer in chunks of at most 256 bytes,
and its count of errors is an `int` as well, which is where it may overflow.
-/

namespace RpiSmi
namespace Udmabuf

open CheckedInt

namespace BufferOs

variable {σ : Type} (os : BufferOs σ)

/-- `mismatches` with the counter as it is kept. -/
def mismatches? (buf m : ℕ) (x : ℤ × σ) : Option (ℤ × σ) :=
  (List.range m).foldlM (fun x k => do
    let (v,s) := os.peek (buf+k) x.2
    let errorCount ← if v ≠ BitVec.ofNat 8 k then signed 32 (x.1+1) else some x.1
    return (errorCount,s)) x

def checkFrom? (buf size i : ℕ) (x : ℤ × σ) : Option (ℤ × σ) :=
  if i < size then do
    let last ← signed 32 ((i : ℤ)+256)
    let m := if last < size then 256 else size-i
    let x ← os.mismatches? (buf+i) m (x.1,os.fill (buf+i) m x.2)
    let _ ← signed 32 ((i : ℤ)+m)
    checkFrom? buf size (i+m) x
  else some x
termination_by size-i
decreasing_by
  have : 0 < m := by
    show 0 < if last < size then 256 else size-i
    split <;> omega
  omega

/-- Nine passes, of which the first finds the counter at zero. -/
def checkBuf? (buf size : ℕ) (s : σ) : Option (ℤ × σ) :=
  (List.range 9).foldlM (fun x _ => os.checkFrom? buf size 0 x) (0,s)

end BufferOs

def chunk (size i : ℕ) : ℕ := if i+256 < size then 256 else size-i

theorem chunk_le {size i : ℕ} (h : i < size) : i+chunk size i ≤ size := by
  unfold chunk
  split <;> omega

theorem chunk_pos {size i : ℕ} (h : i < size) : 0 < chunk size i := by
  unfold chunk
  split <;> omega

/-- After a chunk the buffer has ended or the next one is aligned again. -/
theorem chunk_aligned {size i : ℕ} (h : 256 ∣ i) :
    size ≤ i+chunk size i ∨ 256 ∣ i+chunk size i := by
  unfold chunk
  split
  · exact .inr ((Nat.dvd_add_right h).mpr (dvd_refl 256))
  · exact .inl (by omega)

theorem chunk_induction (size : ℕ) {P : ℕ → Prop} (stop : ∀ i, size ≤ i → P i)
    (step : ∀ i, i < size → P (i+chunk size i) → P i) (i : ℕ) : P i := by
  by_cases h : i < size
  · have := chunk_pos h
    exact step i h (chunk_induction size stop step (i+chunk size i))
  · exact stop i (not_lt.mp h)
termination_by size-i

namespace BufferOs

variable {os : BufferOs σ}

theorem checkFrom_of_ge (buf : ℕ) {size i : ℕ} (h : size ≤ i) (s : σ) :
    os.checkFrom buf size i s = (0,s) := by
  rw [checkFrom,if_neg (not_lt.mpr h)]

theorem checkFrom_of_lt (buf : ℕ) {size i : ℕ} (h : i < size) (s : σ) {r r' : ℕ × σ}
    (hr : os.mismatches (buf+i) (chunk size i) (os.fill (buf+i) (chunk size i) s) = r)
    (hr' : os.checkFrom buf size (i+chunk size i) r.2 = r') :
    os.checkFrom buf size i s = (r.1+r'.1,r'.2) := by
  subst hr hr'
  rw [checkFrom,if_pos h]
  rfl

def mismatch (os : BufferOs σ) (buf k : ℕ) (s : σ) : ℕ × σ :=
  (if (os.peek (buf+k) s).1 ≠ BitVec.ofNat 8 k then 1 else 0,(os.peek (buf+k) s).2)

theorem mismatches?_eq (buf m : ℕ) {e : ℤ} (h : 0 ≤ e) (he : e < 2^31) (s : σ) :
    os.mismatches? buf m (e,s) = tallied 32 e (os.mismatches buf m s) := by
  refine foldlM_tallied (f := fun k => os.mismatch buf k) (fun x k => ?_) (fun x k hx hlt => ?_)
    h he (List.range m) s
  · by_cases hv : (os.peek (buf+k) x.2).1 ≠ BitVec.ofNat 8 k
    · simp only [mismatch,if_pos hv]
    · simp only [mismatch,if_neg hv,add_zero]
  · by_cases hv : (os.peek (buf+k) x.2).1 ≠ BitVec.ofNat 8 k
    · simp only [mismatch,if_pos hv,tallied,Nat.cast_one]
      cases signed 32 (x.1+1) <;> rfl
    · simp only [mismatch,if_neg hv]
      exact (tallied_zero hx hlt _).symm

/-- With `size` that far from the greatest `int` only the counter can overflow. -/
theorem checkFrom?_eq (buf : ℕ) {size : ℕ} (hsize : size+256 < 2^31) (i : ℕ) {e : ℤ}
    (h : 0 ≤ e) (he : e < 2^31) (s : σ) :
    os.checkFrom? buf size i (e,s) = tallied 32 e (os.checkFrom buf size i s) := by
  induction i using chunk_induction size generalizing e s with
  | stop i hi =>
    rw [checkFrom?,if_neg (not_lt.mpr hi),checkFrom_of_ge buf hi]
    exact (tallied_zero h he s).symm
  | step i hi ih =>
    have hlast : signed 32 ((i : ℤ)+256) = some ((i : ℤ)+256) :=
      signed_of_lt (by omega) (by norm_num; omega)
    have hchunk : (if (i : ℤ)+256 < size then 256 else size-i) = chunk size i := by
      unfold chunk
      split_ifs <;> omega
    have hnext : signed 32 ((i : ℤ)+chunk size i) = some ((i : ℤ)+chunk size i) := by
      have hle := chunk_le hi
      exact signed_of_lt (by omega) (by norm_num; omega)
    rw [checkFrom?,if_pos hi,hlast,Option.bind_eq_bind,Option.bind_some,
      checkFrom_of_lt buf hi s rfl rfl]
    simp only [hchunk,hnext]
    rw [mismatches?_eq _ _ h he]
    exact tallied_bind h _ (fun s => os.checkFrom buf size (i+chunk size i) s)
      fun x hx hlt => ih hx hlt x.2

theorem checkBuf?_eq (buf : ℕ) {size : ℕ} (hsize : size+256 < 2^31) (s : σ) :
    os.checkBuf? buf size s = tallied 32 0 (os.checkBuf buf size s) :=
  foldlM_tallied (f := fun _ => os.checkFrom buf size 0) (fun _ _ => rfl)
    (fun x _ hx hlt => checkFrom?_eq buf hsize 0 hx hlt x.2) le_rfl (by decide) (List.range 9) s

theorem mismatches_le (buf m : ℕ) (s : σ) : (os.mismatches buf m s).1 ≤ m := by
  induction m with
  | zero => exact le_rfl
  | succ m ih =>
    rw [mismatches] at ih ⊢
    rw [List.range_succ,List.foldl_append,List.foldl_cons,List.foldl_nil]
    show (if _ then _ else _) ≤ m+1
    split
    · exact Nat.succ_le_succ ih
    · exact Nat.le_succ_of_le ih

theorem checkFrom_le (buf size i : ℕ) (s : σ) : (os.checkFrom buf size i s).1 ≤ size-i := by
  induction i using chunk_induction size generalizing s with
  | stop i hi =>
    rw [checkFrom_of_ge buf hi]
    exact Nat.zero_le _
  | step i hi ih =>
    rw [checkFrom_of_lt buf hi s rfl rfl]
    have hchunk : (os.mismatches (buf+i) (chunk size i)
      (os.fill (buf+i) (chunk size i) s)).1 ≤ chunk size i := mismatches_le _ _ _
    have hrest := ih (os.mismatches (buf+i) (chunk size i)
      (os.fill (buf+i) (chunk size i) s)).2
    have hle := chunk_le hi
    omega

theorem passes_le (buf size p : ℕ) (s : σ) :
    ((List.range p).foldl (fun (n,s) _ =>
      let (n',s') := os.checkFrom buf size 0 s
      (n+n',s')) (0,s)).1 ≤ p*size := by
  induction p with
  | zero => exact Nat.zero_le _
  | succ p ih =>
    rw [List.range_succ,List.foldl_append,List.foldl_cons,List.foldl_nil,Nat.succ_mul]
    exact Nat.add_le_add ih (checkFrom_le buf size 0 _)

/-- The call of `dma_buffer_init` does not overflow, whatever the memory answers. -/
theorem checkBuf?_dmaBufferSize (buf : ℕ) (s : σ) : os.checkBuf? buf dmaBufferSize s =
    some (((os.checkBuf buf dmaBufferSize s).1 : ℤ),(os.checkBuf buf dmaBufferSize s).2) := by
  have hle : (os.checkBuf buf dmaBufferSize s).1 ≤ 9*dmaBufferSize :=
    passes_le buf dmaBufferSize 9 s
  have hlt : 9*dmaBufferSize < 2^31 := by decide
  rw [checkBuf?_eq buf (by decide) s,tallied,zero_add,signed_of_lt (by omega) (by push_cast; omega)]
  rfl

end BufferOs

/-- An access to the buffer, with the byte that was written or that was read back. -/
inductive Access
  | write (a : ℕ) (v : BitVec 8)
  | read (a : ℕ) (v : BitVec 8)
  deriving DecidableEq, Repr

def Access.write? : Access → Option (ℕ × BitVec 8)
  | .write a v => some (a,v)
  | .read _ _ => none

def Access.read? : Access → Option (ℕ × BitVec 8)
  | .write _ _ => none
  | .read a v => some (a,v)

/-- Memory some of whose cells are stuck: they answer the same whatever is written. -/
structure Cells where
  cell : ℕ → BitVec 8
  stuck : ℕ → Option (BitVec 8)
  log : List Access

def Cells.readBack (s : Cells) (a : ℕ) (v : BitVec 8) : BitVec 8 := (s.stuck a).getD v

def cellOs : BufferOs Cells where
  openFile _ s := (-1,s)
  close _ s := s
  mmap _ s := (none,s)
  munmap _ _ s := s
  scanSize s := (none,s)
  scanAddr s := (none,s)
  stray _ := 0
  poke a v s := { s with cell := Function.update s.cell a v, log := s.log ++ [.write a v] }
  peek a s := (s.readBack a (s.cell a),
    { s with log := s.log ++ [.read a (s.readBack a (s.cell a))] })

/-- The indices at which the pattern does not read back. -/
def wrong (buf : ℕ) (s : Cells) (js : List ℕ) : List ℕ :=
  js.filter fun j => s.readBack (buf+j) (BitVec.ofNat 8 j) ≠ BitVec.ofNat 8 j

/-- The indices `js` were each written and read back once, in this order, and nothing else. -/
structure Verified (buf : ℕ) (js : List ℕ) (s : Cells) (l : List Access) (s' : Cells) : Prop where
  log : s'.log = s.log ++ l
  stuck : s'.stuck = s.stuck
  writes : l.filterMap Access.write? = js.map fun j => (buf+j,BitVec.ofNat 8 j)
  reads : l.filterMap Access.read? = js.map fun j =>
    (buf+j,s.readBack (buf+j) (BitVec.ofNat 8 j))
  cell : s'.cell = Writes.run s.cell (l.filterMap Access.write?)

section Verified

variable {buf : ℕ} {s s' s'' : Cells} {js js' : List ℕ} {l l' : List Access}

theorem verified_nil (buf : ℕ) (s : Cells) : Verified buf [] s [] s :=
  ⟨(List.append_nil _).symm,rfl,rfl,rfl,rfl⟩

theorem Verified.append (h : Verified buf js s l s') (h' : Verified buf js' s' l' s'') :
    Verified buf (js ++ js') s (l ++ l') s'' where
  log := by rw [h'.log,h.log,List.append_assoc]
  stuck := h'.stuck.trans h.stuck
  writes := by rw [List.filterMap_append,List.map_append,h.writes,h'.writes]
  reads := by
    rw [List.filterMap_append,List.map_append,h.reads,h'.reads]
    simp only [Cells.readBack,h.stuck]
  cell := by rw [List.filterMap_append,Writes.run_append,h'.cell,h.cell]

theorem wrong_congr (h : s'.stuck = s.stuck) : wrong buf s' js = wrong buf s js := by
  have hread : s'.readBack = s.readBack := by
    unfold Cells.readBack
    rw [h]
  rw [wrong,hread,wrong]

end Verified

section Passes

variable (buf : ℕ) (s : Cells)

theorem fill_eq (m : ℕ) : cellOs.fill buf m s =
    { s with
      cell := Writes.run s.cell ((List.range m).map fun k => (buf+k,BitVec.ofNat 8 k))
      log := s.log ++ (List.range m).map fun k => Access.write (buf+k) (BitVec.ofNat 8 k) } := by
  induction m with
  | zero => simp [BufferOs.fill]
  | succ m ih =>
    have hnext : cellOs.fill buf (m+1) s =
        cellOs.poke (buf+m) (BitVec.ofNat 8 m) (cellOs.fill buf m s) := by
      simp only [BufferOs.fill,List.range_succ,List.foldl_append,List.foldl_cons,List.foldl_nil]
    rw [hnext,ih,List.range_succ,List.map_append,List.map_append,Writes.run_append]
    simp [cellOs]

theorem mismatches_eq (m : ℕ) : cellOs.mismatches buf m s =
    (((List.range m).filter fun k =>
        s.readBack (buf+k) (s.cell (buf+k)) ≠ BitVec.ofNat 8 k).length,
      { s with log := s.log ++ (List.range m).map fun k =>
        Access.read (buf+k) (s.readBack (buf+k) (s.cell (buf+k))) }) := by
  induction m with
  | zero => simp [BufferOs.mismatches]
  | succ m ih =>
    rw [BufferOs.mismatches] at ih ⊢
    rw [List.range_succ,List.foldl_append,ih,List.foldl_cons,List.foldl_nil,List.map_append,
      List.filter_append,List.length_append]
    by_cases hv : s.readBack (buf+m) (s.cell (buf+m)) ≠ BitVec.ofNat 8 m
    · rw [List.filter_cons_of_pos (by simpa using hv)]
      refine Prod.ext (if_pos hv) ?_
      simp [cellOs,Cells.readBack]
    · rw [List.filter_cons_of_neg (by simpa using hv)]
      refine Prod.ext (if_neg hv) ?_
      simp [cellOs,Cells.readBack]

/-- The pattern of a chunk is the pattern of the buffer: a chunk starts at a multiple of 256. -/
theorem pattern_eq {i : ℕ} (h : 256 ∣ i) (k : ℕ) : BitVec.ofNat 8 (i+k) = BitVec.ofNat 8 k := by
  apply BitVec.eq_of_toNat_eq
  rw [BitVec.toNat_ofNat,BitVec.toNat_ofNat]
  omega

theorem fill_cell {m k : ℕ} (h : k < m) :
    (cellOs.fill buf m s).cell (buf+k) = BitVec.ofNat 8 k := by
  have hmem : (buf+k,BitVec.ofNat 8 k) ∈
      (List.range m).map fun k => (buf+k,BitVec.ofNat 8 k) :=
    List.mem_map.mpr ⟨k,List.mem_range.mpr h,rfl⟩
  rw [fill_eq]
  refine Writes.run_of_mem hmem ?_ s.cell
  intro w hw hkey
  obtain ⟨k',-,rfl⟩ := List.mem_map.mp hw
  rw [Nat.add_left_cancel hkey]

theorem chunk_verified {i : ℕ} (h : 256 ∣ i) (m : ℕ) :
    ∃ l s', cellOs.mismatches (buf+i) m (cellOs.fill (buf+i) m s) =
        ((wrong buf s (List.range' i m)).length,s') ∧
      Verified buf (List.range' i m) s l s' := by
  have hread : ∀ k ∈ List.range m, (cellOs.fill (buf+i) m s).readBack (buf+i+k)
      ((cellOs.fill (buf+i) m s).cell (buf+i+k)) =
        s.readBack (buf+(i+k)) (BitVec.ofNat 8 (i+k)) := by
    intro k hk
    rw [fill_cell _ _ (List.mem_range.mp hk),pattern_eq h,fill_eq,add_assoc]
    rfl
  let writes := (List.range m).map fun k => Access.write (buf+i+k) (BitVec.ofNat 8 k)
  let reads := (List.range m).map fun k => Access.read (buf+i+k)
    ((cellOs.fill (buf+i) m s).readBack (buf+i+k) ((cellOs.fill (buf+i) m s).cell (buf+i+k)))
  have hw : (writes ++ reads).filterMap Access.write? =
      (List.range m).map fun k => (buf+i+k,BitVec.ofNat 8 k) := by
    simp [writes,reads,Access.write?,List.filterMap_map,Function.comp_def]
  have hr : (writes ++ reads).filterMap Access.read? = (List.range m).map fun k =>
      (buf+i+k,(cellOs.fill (buf+i) m s).readBack (buf+i+k)
        ((cellOs.fill (buf+i) m s).cell (buf+i+k))) := by
    simp [writes,reads,Access.read?,List.filterMap_map,Function.comp_def]
  refine ⟨writes ++ reads,_,(mismatches_eq _ _ _).trans (Prod.ext ?_ rfl),?_,?_,?_,?_,?_⟩
  · rw [wrong,List.range'_eq_map_range,List.filter_map,List.length_map]
    refine congrArg List.length (List.filter_congr fun k hk => ?_)
    rw [hread k hk]
    simp only [Function.comp_apply,pattern_eq h]
  · have hlog : (cellOs.fill (buf+i) m s).log = s.log ++ writes :=
      congrArg Cells.log (fill_eq _ _ _)
    show (cellOs.fill (buf+i) m s).log ++ reads = s.log ++ (writes ++ reads)
    rw [hlog,List.append_assoc]
  · rw [fill_eq]
  · rw [hw,List.range'_eq_map_range,List.map_map]
    refine List.map_congr_left fun k _ => ?_
    simp only [Function.comp_apply,pattern_eq h,add_assoc]
  · rw [hr,List.range'_eq_map_range,List.map_map]
    refine List.map_congr_left fun k hk => ?_
    rw [hread k hk,Function.comp_apply,add_assoc]
  · rw [hw,fill_eq]

theorem wrong_append (js js' : List ℕ) :
    wrong buf s (js ++ js') = wrong buf s js ++ wrong buf s js' :=
  List.filter_append js js'

theorem pass_verified (size : ℕ) {i : ℕ} (h : size ≤ i ∨ 256 ∣ i) :
    ∃ l s', cellOs.checkFrom buf size i s =
        ((wrong buf s (List.range' i (size-i))).length,s') ∧
      Verified buf (List.range' i (size-i)) s l s' := by
  induction i using chunk_induction size generalizing s with
  | stop i hi =>
    rw [Nat.sub_eq_zero_of_le hi]
    exact ⟨[],s,BufferOs.checkFrom_of_ge buf hi s,verified_nil buf s⟩
  | step i hi ih =>
    have hdvd : 256 ∣ i := h.resolve_left (not_le.mpr hi)
    obtain ⟨l,s₁,hrun,hv⟩ := chunk_verified buf s hdvd (chunk size i)
    obtain ⟨l',s₂,hrun',hv'⟩ := ih s₁ (chunk_aligned hdvd)
    have hsplit : List.range' i (size-i) = List.range' i (chunk size i) ++
        List.range' (i+chunk size i) (size-(i+chunk size i)) := by
      have hle := chunk_le hi
      rw [List.range'_append_1,show chunk size i+(size-(i+chunk size i)) = size-i by omega]
    refine ⟨l ++ l',s₂,?_,hsplit ▸ hv.append hv'⟩
    rw [BufferOs.checkFrom_of_lt buf hi s hrun hrun',wrong_congr hv.stuck,hsplit,wrong_append,
      List.length_append]

end Passes

/-- The reads of a pass that did not bring back the pattern. -/
def misreads (buf : ℕ) (l : List Access) : List (ℕ × BitVec 8) :=
  (l.filterMap Access.read?).filter fun r => r.2 ≠ BitVec.ofNat 8 (r.1-buf)

/-- Passes one after the other, each over the whole of the buffer. -/
structure Passed (buf size : ℕ) (s : Cells) (passes : List (List Access)) (s' : Cells) : Prop where
  log : s'.log = s.log ++ passes.flatten
  stuck : s'.stuck = s.stuck
  writes : ∀ l ∈ passes, l.filterMap Access.write? =
    (List.range size).map fun j => (buf+j,BitVec.ofNat 8 j)
  reads : ∀ l ∈ passes, l.filterMap Access.read? =
    (List.range size).map fun j => (buf+j,s.readBack (buf+j) (BitVec.ofNat 8 j))
  cell : s'.cell = Writes.run s.cell (passes.flatten.filterMap Access.write?)

section Passed

variable {buf size : ℕ} {s s' s'' : Cells} {passes : List (List Access)}

theorem passed_nil (buf size : ℕ) (s : Cells) : Passed buf size s [] s :=
  ⟨(List.append_nil _).symm,rfl,List.forall_mem_nil _,List.forall_mem_nil _,rfl⟩

theorem Passed.concat (h : Passed buf size s passes s') {l : List Access}
    (h' : Verified buf (List.range size) s' l s'') :
    Passed buf size s (passes ++ [l]) s'' where
  log := by rw [h'.log,h.log,List.flatten_append,List.append_assoc]; simp
  stuck := h'.stuck.trans h.stuck
  writes := by
    rw [List.forall_mem_append]
    exact ⟨h.writes,List.forall_mem_singleton.mpr h'.writes⟩
  reads := by
    rw [List.forall_mem_append]
    refine ⟨h.reads,List.forall_mem_singleton.mpr (h'.reads.trans ?_)⟩
    simp only [Cells.readBack,h.stuck]
  cell := by
    rw [h'.cell,h.cell,List.flatten_append,List.filterMap_append,Writes.run_append]
    simp

theorem Passed.misreads_length (h : Passed buf size s passes s') {l : List Access}
    (hl : l ∈ passes) : (misreads buf l).length = (wrong buf s (List.range size)).length := by
  rw [misreads,h.reads l hl,List.filter_map,List.length_map,wrong]
  refine congrArg List.length (List.filter_congr fun j _ => ?_)
  simp only [Function.comp_apply,Nat.add_sub_cancel_left]

theorem Passed.mem_writes (h : Passed buf size s passes s') {w : ℕ × BitVec 8}
    (hw : w ∈ passes.flatten.filterMap Access.write?) :
    ∃ j < size, (buf+j,BitVec.ofNat 8 j) = w := by
  obtain ⟨x,hx,hxw⟩ := List.mem_filterMap.mp hw
  obtain ⟨l,hl,hxl⟩ := List.mem_flatten.mp hx
  have hin : w ∈ l.filterMap Access.write? := List.mem_filterMap.mpr ⟨x,hxl,hxw⟩
  rw [h.writes l hl] at hin
  obtain ⟨j,hj,rfl⟩ := List.mem_map.mp hin
  exact ⟨j,List.mem_range.mp hj,rfl⟩

theorem Passed.cell_eq (h : Passed buf size s passes s') (hne : passes ≠ []) {j : ℕ}
    (hj : j < size) : s'.cell (buf+j) = BitVec.ofNat 8 j := by
  obtain ⟨l,hl⟩ := List.exists_mem_of_ne_nil passes hne
  have hmem : (buf+j,BitVec.ofNat 8 j) ∈ l.filterMap Access.write? := by
    rw [h.writes l hl]
    exact List.mem_map.mpr ⟨j,List.mem_range.mpr hj,rfl⟩
  have hall : (buf+j,BitVec.ofNat 8 j) ∈ passes.flatten.filterMap Access.write? := by
    obtain ⟨x,hx,hxw⟩ := List.mem_filterMap.mp hmem
    exact List.mem_filterMap.mpr ⟨x,List.mem_flatten.mpr ⟨l,hl,hx⟩,hxw⟩
  rw [h.cell]
  refine Writes.run_of_mem hall ?_ s.cell
  intro w hw hkey
  obtain ⟨j',-,rfl⟩ := h.mem_writes hw
  rw [Nat.add_left_cancel hkey]

theorem Passed.cell_of_ne (h : Passed buf size s passes s') {a : ℕ}
    (ha : ∀ j < size, buf+j ≠ a) : s'.cell a = s.cell a := by
  rw [h.cell]
  refine Writes.run_of_forall_ne ?_ s.cell
  intro w hw
  obtain ⟨j,hj,rfl⟩ := h.mem_writes hw
  exact ha j hj

theorem passes_verified (buf size p : ℕ) (s : Cells) :
    ∃ passes s', (List.range p).foldl (fun (n,s) _ =>
        let (n',s') := cellOs.checkFrom buf size 0 s
        (n+n',s')) (0,s) = (p*(wrong buf s (List.range size)).length,s') ∧
      passes.length = p ∧ Passed buf size s passes s' := by
  induction p with
  | zero => exact ⟨[],s,by simp,rfl,passed_nil buf size s⟩
  | succ p ih =>
    obtain ⟨passes,s₁,hrun,hlen,hp⟩ := ih
    obtain ⟨l,s₂,hrun',hv⟩ := pass_verified buf s₁ size (.inr (dvd_zero 256))
    rw [Nat.sub_zero,← List.range_eq_range'] at hrun' hv
    refine ⟨passes ++ [l],s₂,?_,by rw [List.length_append,hlen]; rfl,hp.concat hv⟩
    rw [List.range_succ,List.foldl_append,hrun,List.foldl_cons,List.foldl_nil]
    simp only [hrun',wrong_congr hp.stuck,Nat.succ_mul]

end Passed

/-- What the check has to come to: nine whole passes, their misreads counted, and in the end the
pattern wherever a cell can hold it. -/
structure Counts (buf size : ℕ) (s : Cells) (n : ℤ) (s' : Cells) : Prop where
  passes : ∃ passes, passes.length = 9 ∧ Passed buf size s passes s' ∧
    n = ((passes.map fun l => (misreads buf l).length).sum : ℕ)
  left : ∀ j < size, (cellOs.peek (buf+j) s').1 = s.readBack (buf+j) (BitVec.ofNat 8 j)
  kept : ∀ a, (∀ j < size, buf+j ≠ a) → s'.cell a = s.cell a
  clean : (∀ j < size, s.stuck (buf+j) = none) →
    n = 0 ∧ ∀ j < size, s'.cell (buf+j) = BitVec.ofNat 8 j

theorem checkBuf_counts (buf size : ℕ) (s : Cells) :
    ∃ s', cellOs.checkBuf buf size s = (9*(wrong buf s (List.range size)).length,s') ∧
      Counts buf size s (9*(wrong buf s (List.range size)).length : ℕ) s' := by
  obtain ⟨passes,s',hrun,hlen,hp⟩ := passes_verified buf size 9 s
  have hcount : (passes.map fun l => (misreads buf l).length).sum =
      9*(wrong buf s (List.range size)).length := by
    rw [List.map_congr_left fun l hl => hp.misreads_length hl,List.map_const',
      List.sum_replicate_nat,hlen]
  have hcell : ∀ j < size, s'.cell (buf+j) = BitVec.ofNat 8 j := fun j hj =>
    hp.cell_eq (List.ne_nil_of_length_pos (by omega)) hj
  refine ⟨s',hrun,⟨passes,hlen,hp,by rw [hcount]⟩,?_,fun a ha => hp.cell_of_ne ha,?_⟩
  · intro j hj
    show s'.readBack (buf+j) (s'.cell (buf+j)) = _
    rw [hcell j hj,Cells.readBack,hp.stuck,Cells.readBack]
  · intro hclean
    have hnone : wrong buf s (List.range size) = [] := by
      refine List.filter_eq_nil_iff.mpr fun j hj => ?_
      simp [Cells.readBack,hclean j (List.mem_range.mp hj)]
    rw [hnone]
    exact ⟨rfl,hcell⟩

/-- `check_buf` counts its errors exactly where the cells that are stuck at another value than the
pattern, nine times over, fit an `int`. -/
theorem checkBuf_counts_iff (buf : ℕ) {size : ℕ} (hsize : size+256 < 2^31) (s : Cells) :
    (∃ n s', cellOs.checkBuf? buf size s = some (n,s') ∧ Counts buf size s n s') ↔
      (wrong buf s (List.range size)).length ≤ (2^31-1)/9 := by
  obtain ⟨s',hrun,hcounts⟩ := checkBuf_counts buf size s
  rw [BufferOs.checkBuf?_eq buf hsize s,hrun,tallied,zero_add,signed_of_nonneg (by omega)]
  constructor
  · rintro ⟨n,s'',hsome,-⟩
    by_contra hge
    rw [if_neg (by push_cast; omega)] at hsome
    cases hsome
  · intro hlt
    rw [if_pos (by push_cast; omega)]
    exact ⟨_,s',rfl,hcounts⟩

def soundCells : Cells := ⟨fun _ => 0,fun _ => none,[]⟩

theorem checkBuf_counts_iff_sound : ∃ n s',
    cellOs.checkBuf? 0x1000 300 soundCells = some (n,s') ∧ Counts 0x1000 300 soundCells n s' :=
  (checkBuf_counts_iff 0x1000 (by decide) soundCells).mpr (by decide +kernel)

def brokenCells : Cells := ⟨fun _ => 0,fun a => some (BitVec.ofNat 8 a+1),[]⟩

/-- With so many cells wrong the ninth pass takes the counter past the greatest `int`. -/
theorem checkBuf_overflows : 238609295+256 < 2^31 ∧
    ¬ ∃ n s', cellOs.checkBuf? 0 238609295 brokenCells = some (n,s') ∧
      Counts 0 238609295 brokenCells n s' := by
  refine ⟨by decide,?_⟩
  rintro ⟨n,s',hsome,-⟩
  have hall : wrong 0 brokenCells (List.range 238609295) = List.range 238609295 := by
    refine List.filter_eq_self.mpr fun j _ => ?_
    simp [Cells.readBack,brokenCells]
  obtain ⟨t,hrun,-⟩ := checkBuf_counts 0 238609295 brokenCells
  rw [BufferOs.checkBuf?_eq 0 (by decide) brokenCells,hrun,hall,List.length_range,tallied,
    signed_of_ge (show (2 : ℤ)^31 ≤ 0+((9*238609295 : ℕ) : ℤ) by norm_num)] at hsome
  cases hsome

end Udmabuf
end RpiSmi
