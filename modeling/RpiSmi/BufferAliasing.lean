import Mathlib.Data.Set.Function
import RpiSmi.BufferCheck

/-!
# What the check of the buffer can tell

Here the cells are sound but their addresses may not be: the decoder sends each
address of the buffer to a physical cell, and two addresses may meet in one. A chunk
is read back right after it was written, so `check_buf` sees only what meets inside
a chunk.
-/

namespace RpiSmi
namespace Udmabuf

open CheckedInt

/-- Memory behind an address decoder; the files are not what the check is about. -/
def decodedOs (decode : ℕ → ℕ) : BufferOs (ℕ → BitVec 8) where
  openFile _ s := (-1,s)
  close _ s := s
  mmap _ s := (none,s)
  munmap _ _ s := s
  scanSize s := (none,s)
  scanAddr s := (none,s)
  stray _ := 0
  poke a v s := Function.update s (decode a) v
  peek a s := (s (decode a),s)

section Decoded

variable {decode : ℕ → ℕ}

theorem decoded_fill (buf m : ℕ) (s : ℕ → BitVec 8) : (decodedOs decode).fill buf m s =
    Writes.run s ((List.range m).map fun k => (decode (buf+k),BitVec.ofNat 8 k)) := by
  rw [BufferOs.fill,Writes.run,List.foldl_map]
  rfl

theorem decoded_mismatches (buf m : ℕ) (s : ℕ → BitVec 8) :
    (decodedOs decode).mismatches buf m s =
      (((List.range m).filter fun k => s (decode (buf+k)) ≠ BitVec.ofNat 8 k).length,s) := by
  induction m with
  | zero => rfl
  | succ m ih =>
    rw [BufferOs.mismatches] at ih ⊢
    rw [List.range_succ,List.foldl_append,ih,List.foldl_cons,List.foldl_nil,List.filter_append,
      List.length_append]
    by_cases hv : s (decode (buf+m)) ≠ BitVec.ofNat 8 m
    · rw [List.filter_cons_of_pos (by simpa using hv)]
      exact Prod.ext (if_pos hv) rfl
    · rw [List.filter_cons_of_neg (by simpa using hv)]
      exact Prod.ext (if_neg hv) rfl

theorem decoded_chunk_iff (buf : ℕ) {m : ℕ} (hm : m ≤ 256) (s : ℕ → BitVec 8) :
    ((decodedOs decode).mismatches buf m ((decodedOs decode).fill buf m s)).1 = 0 ↔
      Set.InjOn (fun k => decode (buf+k)) {k | k < m} := by
  have hback : ((decodedOs decode).mismatches buf m ((decodedOs decode).fill buf m s)).1 = 0 ↔
      ∀ k < m, (decodedOs decode).fill buf m s (decode (buf+k)) = BitVec.ofNat 8 k := by
    rw [decoded_mismatches]
    simp [List.filter_eq_nil_iff]
  have hpattern {k k' : ℕ} (hk : k < m) (hk' : k' < m)
      (h : BitVec.ofNat 8 k = BitVec.ofNat 8 k') : k = k' := by
    have hnat := congrArg BitVec.toNat h
    simp only [BitVec.toNat_ofNat] at hnat
    omega
  rw [hback]
  constructor
  · intro h k hk k' hk' hmeet
    have hcell : decode (buf+k) = decode (buf+k') := hmeet
    exact hpattern hk hk' ((h k hk).symm.trans (hcell ▸ h k' hk'))
  · intro h k hk
    have hmem : (decode (buf+k),BitVec.ofNat 8 k) ∈
        (List.range m).map fun k => (decode (buf+k),BitVec.ofNat 8 k) :=
      List.mem_map.mpr ⟨k,List.mem_range.mpr hk,rfl⟩
    rw [decoded_fill]
    refine Writes.run_of_mem hmem ?_ s
    intro w hw hkey
    obtain ⟨k',hk',rfl⟩ := List.mem_map.mp hw
    rw [h (List.mem_range.mp hk') hk hkey]

/-- From byte `i` on, no two addresses of one chunk meet. -/
def Apart (decode : ℕ → ℕ) (buf size i : ℕ) : Prop :=
  ∀ j j', i ≤ j → j < size → i ≤ j' → j' < size → j/256 = j'/256 →
    decode (buf+j) = decode (buf+j') → j = j'

theorem chunk_le_256 {size i : ℕ} : chunk size i ≤ 256 := by
  unfold chunk
  split <;> omega

theorem apart_chunk (buf : ℕ) {size i : ℕ} (h : 256 ∣ i) (hi : i < size) :
    Apart decode buf size i ↔
      Set.InjOn (fun k => decode (buf+i+k)) {k | k < chunk size i} ∧
        Apart decode buf size (i+chunk size i) := by
  have hle := chunk_le hi
  have hlen : chunk size i = 256 ∨ size ≤ i+chunk size i := by
    unfold chunk
    split <;> omega
  have hshort : chunk size i ≤ 256 := chunk_le_256
  constructor
  · intro ha
    refine ⟨fun k hk k' hk' hmeet => ?_,fun j j' hj hlt hj' hlt' => ha j j' (by omega) hlt
      (by omega) hlt'⟩
    have hk : k < chunk size i := hk
    have hk' : k' < chunk size i := hk'
    have hmeet : decode (buf+i+k) = decode (buf+i+k') := hmeet
    rw [add_assoc,add_assoc] at hmeet
    have hsame := ha (i+k) (i+k') (by omega) (by omega) (by omega) (by omega) (by omega) hmeet
    omega
  · rintro ⟨hchunk,hrest⟩ j j' hj hlt hj' hlt' hblock hmeet
    by_cases hin : j < i+chunk size i
    · have hin' : j' < i+chunk size i := by omega
      have hk : j-i < chunk size i := by omega
      have hk' : j'-i < chunk size i := by omega
      have hcell : decode (buf+i+(j-i)) = decode (buf+i+(j'-i)) := by
        rw [add_assoc,add_assoc,Nat.add_sub_cancel' hj,Nat.add_sub_cancel' hj']
        exact hmeet
      have hsame := hchunk hk hk' hcell
      omega
    · exact hrest j j' (by omega) hlt (by omega) hlt' hblock hmeet

theorem decoded_pass_iff (buf size : ℕ) {i : ℕ} (h : size ≤ i ∨ 256 ∣ i) (s : ℕ → BitVec 8) :
    ((decodedOs decode).checkFrom buf size i s).1 = 0 ↔ Apart decode buf size i := by
  induction i using chunk_induction size generalizing s with
  | stop i hi =>
    rw [BufferOs.checkFrom_of_ge buf hi]
    exact iff_of_true rfl fun j _ hj hlt => absurd hlt (by omega)
  | step i hi ih =>
    have hdvd : 256 ∣ i := h.resolve_left (not_le.mpr hi)
    rw [BufferOs.checkFrom_of_lt buf hi s rfl rfl,Nat.add_eq_zero_iff,
      decoded_chunk_iff (buf+i) chunk_le_256 s,ih (chunk_aligned hdvd),apart_chunk buf hdvd hi]

theorem decoded_passes_iff (buf size p : ℕ) (s : ℕ → BitVec 8) :
    ((List.range p).foldl (fun (n,s) _ =>
        let (n',s') := (decodedOs decode).checkFrom buf size 0 s
        (n+n',s')) (0,s)).1 = 0 ↔ p = 0 ∨ Apart decode buf size 0 := by
  induction p with
  | zero => simp
  | succ p ih =>
    rw [List.range_succ,List.foldl_append,List.foldl_cons,List.foldl_nil]
    have hpass (v : ℕ → BitVec 8) : ((decodedOs decode).checkFrom buf size 0 v).1 = 0 ↔
        Apart decode buf size 0 := decoded_pass_iff buf size (.inr (dvd_zero 256)) v
    refine Nat.add_eq_zero_iff.trans ?_
    refine (and_congr ih (hpass _)).trans ?_
    constructor
    · exact fun ⟨_,ha⟩ => .inr ha
    · intro hp
      have ha := hp.resolve_left (Nat.succ_ne_zero p)
      exact ⟨.inr ha,ha⟩

theorem decoded_checkBuf_iff (decode : ℕ → ℕ) (buf size : ℕ) (s : ℕ → BitVec 8) :
    ((decodedOs decode).checkBuf buf size s).1 = 0 ↔ Apart decode buf size 0 := by
  refine (decoded_passes_iff buf size 9 s).trans ⟨?_,.inr⟩
  exact fun h => h.resolve_left (by decide)

/-- What the check of a buffer can tell about its addresses: it returns, with no error counted, if
and only if no two addresses of one 256-byte chunk meet in a cell. Chunks that share their cells
pass. -/
theorem checkBuf_decoded_iff (decode : ℕ → ℕ) (buf : ℕ) {size : ℕ} (hsize : size+256 < 2^31)
    (s : ℕ → BitVec 8) :
    (∃ s', (decodedOs decode).checkBuf? buf size s = some (0,s')) ↔
      ∀ j < size, ∀ j' < size, j/256 = j'/256 → decode (buf+j) = decode (buf+j') → j = j' := by
  have hpasses := decoded_checkBuf_iff decode buf size s
  have hcount : (∃ s', (decodedOs decode).checkBuf? buf size s = some (0,s')) ↔
      ((decodedOs decode).checkBuf buf size s).1 = 0 := by
    rw [BufferOs.checkBuf?_eq buf hsize s]
    constructor
    · rintro ⟨s',hs⟩
      obtain ⟨n,hn,hpair⟩ := Option.map_eq_some_iff.mp hs
      have hzero : n = 0 := congrArg Prod.fst hpair
      have hvalue := eq_of_signed hn
      omega
    · intro hzero
      rw [← Prod.mk.eta (p := (decodedOs decode).checkBuf buf size s),hzero,
        tallied_zero le_rfl (by decide)]
      exact ⟨_,rfl⟩
  rw [hcount,hpasses]
  constructor
  · exact fun h j hj j' hj' => h j j' (Nat.zero_le j) hj (Nat.zero_le j') hj'
  · exact fun h j j' _ hj _ hj' => h j hj j' hj'

/-- A buffer folded onto two chunks. -/
theorem checkBuf_decoded_iff_folded :
    ∃ s', (decodedOs (· % 512)).checkBuf? 4096 2048 (fun _ => 0) = some (0,s') :=
  (checkBuf_decoded_iff (· % 512) 4096 (by decide) _).mpr fun j _ j' _ h hmeet => by
    have hcell : (4096+j)%512 = (4096+j')%512 := hmeet
    omega

end Decoded

end Udmabuf
end RpiSmi
