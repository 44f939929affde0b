import RpiSmi.ShiftNet

/-!
# Undoing a network

A lossless family of networks gives each bit of its payload on its own somewhere,
so the payload can be put together again from its values. Where every bit of a
value is clear or comes from one input bit, the values that the family gives are
the ones with the clear bits clear and with equal bits at the places of one input
bit, and on these putting together is undone by the family.
-/

namespace RpiSmi
namespace ShiftNet

variable {w : ℕ}

/-- The word with these bits. -/
def ofBits (w : ℕ) (f : ℕ → Bool) : BitVec w :=
  (BitVec.ofBoolListLE ((List.range w).map f)).setWidth w

theorem getLsbD_ofBits (f : ℕ → Bool) {i : ℕ} (hi : i < w) : (ofBits w f).getLsbD i = f i := by
  rw [ofBits,BitVec.getLsbD_setWidth,BitVec.getLsbD_ofBoolListLE]
  simp [List.getD,hi]

/-- Where the networks give an input bit on its own: which of them does, and at which place. -/
def place (es : List (Net w)) (s : ℕ × ℕ) : Option (ℕ × ℕ) :=
  ((List.range es.length).flatMap fun p => (List.range w).map fun j => (p,j)).find? fun x =>
    es[x.1]?.any fun e => e.sources x.2 = [s]

theorem place_eq_some {es : List (Net w)} {s x : ℕ × ℕ} (h : place es s = some x) :
    ∃ e, es[x.1]? = some e ∧ x.2 < w ∧ e.sources x.2 = [s] := by
  unfold place at h
  obtain ⟨p,-,hmem⟩ := List.mem_flatMap.mp (List.mem_of_find?_eq_some h)
  obtain ⟨j,hj,rfl⟩ := List.mem_map.mp hmem
  have hany := List.find?_some h
  obtain ⟨e,he,hs⟩ := (Option.any_eq_true _ _).mp hany
  exact ⟨e,he,List.mem_range.mp hj,of_decide_eq_true hs⟩

theorem place_isSome {es : List (Net w)} {s : ℕ × ℕ} {e : Net w} (he : e ∈ es) {j : ℕ}
    (hj : j < w) (hs : e.sources j = [s]) : ∃ x, place es s = some x := by
  obtain ⟨p,hp,rfl⟩ := List.mem_iff_getElem.mp he
  refine Option.isSome_iff_exists.mp (List.find?_isSome.mpr ⟨(p,j),?_,?_⟩)
  · exact List.mem_flatMap.mpr ⟨p,List.mem_range.mpr hp,List.mem_map.mpr
      ⟨j,List.mem_range.mpr hj,rfl⟩⟩
  · simp [List.getElem?_eq_getElem hp,hs]

def restore (es : List (Net w)) (vs : List (BitVec w)) (k : ℕ) : BitVec w :=
  ofBits w fun i => (place es (k,i)).any fun x => (vs.getD x.1 0).getLsbD x.2

theorem getLsbD_restore (es : List (Net w)) (vs : List (BitVec w)) (k : ℕ) {i : ℕ} (hi : i < w) :
    (restore es vs k).getLsbD i =
      (place es (k,i)).any fun x => (vs.getD x.1 0).getLsbD x.2 := getLsbD_ofBits _ hi

theorem Lossless.restore_evals {n : ℕ} {m : BitVec w} {es : List (Net w)} (h : Lossless n m es)
    (x : ℕ → BitVec w) {k : ℕ} (hk : k < n) :
    restore es (es.map (Net.eval x)) k = x k &&& m := by
  apply BitVec.eq_of_getLsbD_eq
  intro i hi
  rw [getLsbD_restore _ _ _ hi,BitVec.getLsbD_and]
  rcases hp : place es (k,i) with _ | ⟨p,j⟩
  · have hm : m.getLsbD i = false := by
      rw [← Bool.not_eq_true]
      intro hm
      obtain ⟨e,he,j,hj,hs⟩ := h.covers k hk i hi hm
      obtain ⟨y,hy⟩ := place_isSome he hj hs
      cases hp.symm.trans hy
    rw [hm,Bool.and_false]
    rfl
  · obtain ⟨e,he,hj,hs⟩ := place_eq_some hp
    have hm : m.getLsbD i = true :=
      (h.within e (List.mem_of_getElem? he) j hj (k,i)
        (by rw [hs]; exact List.mem_singleton_self _)).2
    simp [he,e.getLsbD_eval,hs,hm]

/-- What every value of one network satisfies: equal bits, by their places, and clear bits. -/
structure Form where
  same : List (ℕ × ℕ)
  clear : List ℕ

structure Form.Fits (f : Form) (v : BitVec w) : Prop where
  same : ∀ x ∈ f.same, v.getLsbD x.1 = v.getLsbD x.2
  clear : ∀ j ∈ f.clear, v.getLsbD j = false

instance (f : Form) (v : BitVec w) : Decidable (f.Fits v) :=
  decidable_of_iff (_ ∧ _) ⟨fun h => ⟨h.1,h.2⟩,fun h => ⟨h.same,h.clear⟩⟩

/-- Every bit of network `p` is clear, or the bit of an input that is found at the same place or at
one that is to have an equal bit. -/
def Net.Placed (es : List (Net w)) (f : Form) (p : ℕ) (e : Net w) : Prop :=
  ∀ j < w, match e.sources j with
    | [] => j ∈ f.clear
    | [s] => s.2 < w ∧ (place es s).any fun x => x.1 = p ∧ (x.2 = j ∨ (j,x.2) ∈ f.same)
    | _ => False

instance (es : List (Net w)) (f : Form) (p : ℕ) (e : Net w) : Decidable (e.Placed es f p) := by
  unfold Net.Placed
  have (j : ℕ) : Decidable (match e.sources j with
    | [] => j ∈ f.clear
    | [s] => s.2 < w ∧ (place es s).any fun x => x.1 = p ∧ (x.2 = j ∨ (j,x.2) ∈ f.same)
    | _ => False) := by
    split <;> infer_instance
  infer_instance

structure Formed (es : List (Net w)) (form : ℕ → Form) : Prop where
  same : ∀ p < es.length, ∀ x ∈ (form p).same,
    (es.getD p (.input 0)).sources x.1 = (es.getD p (.input 0)).sources x.2
  clear : ∀ p < es.length, ∀ j ∈ (form p).clear, (es.getD p (.input 0)).sources j = []
  placed : ∀ p < es.length, (es.getD p (.input 0)).Placed es (form p) p

instance (es : List (Net w)) (form : ℕ → Form) : Decidable (Formed es form) :=
  decidable_of_iff (_ ∧ _ ∧ _) ⟨fun h => ⟨h.1,h.2.1,h.2.2⟩,fun h => ⟨h.same,h.clear,h.placed⟩⟩

section Formed

variable {es : List (Net w)} {form : ℕ → Form}

theorem Formed.fits (h : Formed es form) (x : ℕ → BitVec w) {p : ℕ} {e : Net w}
    (he : es[p]? = some e) : (form p).Fits (e.eval x) := by
  obtain ⟨hp,rfl⟩ := List.getElem?_eq_some_iff.mp he
  have hget : es.getD p (.input 0) = es[p] := by simp [List.getD,hp]
  refine ⟨fun y hy => ?_,fun j hj => ?_⟩
  · rw [Net.getLsbD_eval,Net.getLsbD_eval,← hget,h.same p hp y hy]
  · rw [Net.getLsbD_eval,← hget,h.clear p hp j hj]
    rfl

theorem Formed.evals_restore (h : Formed es form) {vs : List (BitVec w)}
    (hlen : vs.length = es.length) (hv : ∀ p v, vs[p]? = some v → (form p).Fits v) :
    es.map (Net.eval (restore es vs)) = vs := by
  apply List.ext_getElem (by rw [List.length_map,hlen])
  intro p hp hp'
  rw [List.length_map] at hp
  have hget : es.getD p (.input 0) = es[p] := by simp [List.getD,hp]
  have hfit := hv p vs[p] (List.getElem?_eq_getElem hp')
  rw [List.getElem_map]
  apply BitVec.eq_of_getLsbD_eq
  intro j hj
  rw [Net.getLsbD_eval]
  have hplaced := h.placed p hp j hj
  rw [hget] at hplaced
  split at hplaced
  · next hs =>
    rw [hs,hfit.clear j hplaced]
    rfl
  · next s hs =>
    obtain ⟨hlt,hany⟩ := hplaced
    rcases hx : place es s with _ | x
    · rw [hx] at hany
      cases hany
    · rw [hx] at hany
      obtain ⟨rfl,hsame⟩ : x.1 = p ∧ (x.2 = j ∨ (j,x.2) ∈ (form p).same) := by simpa using hany
      rw [hs,List.any_cons,List.any_nil,Bool.or_false,getLsbD_restore _ _ _ hlt,hx]
      have hbit : vs[x.1].getLsbD x.2 = vs[x.1].getLsbD j := by
        rcases hsame with rfl | hsame
        · rfl
        · exact (hfit.same _ hsame).symm
      simpa [List.getD,hp'] using hbit
  · exact hplaced.elim

end Formed

section Streams

variable {es : List (Net w)} {r n : ℕ}

def chunk (l : ℕ) (vs : List (BitVec w)) (i : ℕ) : List (BitVec w) := (vs.drop (i*l)).take l

theorem length_chunk {l i : ℕ} {vs : List (BitVec w)} (hlen : vs.length = n*l) (hi : i < n) :
    (chunk l vs i).length = l := by
  have hle : i*l+l ≤ n*l := by
    rw [← Nat.succ_mul]
    exact Nat.mul_le_mul_right l hi
  rw [chunk,List.length_take,List.length_drop,hlen]
  omega

theorem getElem?_chunk {l i p : ℕ} {vs : List (BitVec w)} (hp : p < l) :
    (chunk l vs i)[p]? = vs[i*l+p]? := by
  rw [chunk,List.getElem?_take_of_lt hp,List.getElem?_drop]

theorem flatMap_chunk {l : ℕ} {vs : List (BitVec w)} (hlen : vs.length = n*l) :
    (List.range n).flatMap (chunk l vs) = vs := by
  have htake (k : ℕ) (hk : k ≤ n) : (List.range k).flatMap (chunk l vs) = vs.take (k*l) := by
    induction k with
    | zero => simp
    | succ k ih =>
      rw [List.range_succ,List.flatMap_append,ih (by omega),List.flatMap_singleton,Nat.succ_mul,
        List.take_add,chunk]
  rw [htake n le_rfl,← hlen,List.take_length]

def restoreAll (es : List (Net w)) (r : ℕ) (vs : List (BitVec w)) (n : ℕ) : List (BitVec w) :=
  (List.range (r*n)).map fun q => restore es (chunk es.length vs (q/r)) (q%r)

theorem getElem?_restoreAll (vs : List (BitVec w)) {i k : ℕ} (hi : i < n) (hk : k < r) :
    (restoreAll es r vs n)[r*i+k]? = some (restore es (chunk es.length vs i) k) := by
  have hlt : r*i+k < r*n := by
    calc r*i+k < r*i+r := by omega
      _ = r*(i+1) := by rw [Nat.mul_succ]
      _ ≤ r*n := Nat.mul_le_mul_left r hi
  rw [restoreAll,List.getElem?_map,List.getElem?_range hlt,Option.map_some,
    Nat.mul_add_div (by omega),Nat.div_eq_of_lt hk,Nat.add_zero,Nat.mul_add_mod,
    Nat.mod_eq_of_lt hk]

theorem Lossless.restoreAll_groups {m : BitVec w} (h : Lossless r m es) (x : ℕ → BitVec w) :
    restoreAll es r (groups es r x n) n = (List.range (r*n)).map fun i => x i &&& m := by
  refine List.map_congr_left fun q hq => ?_
  have hq := List.mem_range.mp hq
  have hr : 0 < r := Nat.pos_of_ne_zero fun h₀ => by simp [h₀] at hq
  rw [chunk,take_drop_groups _ _ _ _ (Nat.div_lt_of_lt_mul hq),group,
    h.restore_evals _ (Nat.mod_lt q hr),Nat.div_add_mod]

theorem Formed.groups_restoreAll {form : ℕ → Form} (h : Formed es form)
    (hw : ∀ e ∈ es, e.Within r) {vs : List (BitVec w)} (hlen : vs.length = n*es.length)
    (hv : ∀ q v, vs[q]? = some v → (form (q%es.length)).Fits v) :
    groups es r (fun i => (restoreAll es r vs n).getD i 0) n = vs := by
  conv_rhs => rw [← flatMap_chunk hlen]
  refine List.flatMap_congr fun i hi => ?_
  have hi := List.mem_range.mp hi
  have hchunk := length_chunk hlen hi
  have hfits (p : ℕ) (v : BitVec w) (hp : (chunk es.length vs i)[p]? = some v) :
      (form p).Fits v := by
    have hlt : p < es.length := hchunk ▸ (List.getElem?_eq_some_iff.mp hp).1
    rw [getElem?_chunk hlt] at hp
    have hfit := hv _ v hp
    rwa [Nat.mul_comm,Nat.mul_add_mod,Nat.mod_eq_of_lt hlt] at hfit
  rw [← h.evals_restore hchunk hfits]
  refine List.map_congr_left fun e he => (hw e he).eval_eq fun k hk => ?_
  show (restoreAll es r vs n).getD (r*i+k) 0 = _
  rw [List.getD_eq_getElem?_getD,getElem?_restoreAll vs hi hk]
  rfl

theorem Formed.groups_fits {form : ℕ → Form} (h : Formed es form) (x : ℕ → BitVec w) (q : ℕ)
    {v : BitVec w} (hq : (groups es r x n)[q]? = some v) : (form (q%es.length)).Fits v := by
  have hlt := (List.getElem?_eq_some_iff.mp hq).1
  rw [length_groups] at hlt
  have hl : 0 < es.length := Nat.pos_of_ne_zero fun h₀ => by simp [h₀] at hlt
  have hi : q/es.length < n := Nat.div_lt_of_lt_mul (by rwa [Nat.mul_comm])
  have hchunk : (chunk es.length (groups es r x n) (q/es.length))[q%es.length]? = some v := by
    rw [getElem?_chunk (Nat.mod_lt q hl),Nat.div_add_mod']
    exact hq
  rw [chunk,take_drop_groups _ _ _ _ hi,group,List.getElem?_map] at hchunk
  obtain ⟨e,he,rfl⟩ := Option.map_eq_some_iff.mp hchunk
  exact h.fits _ he

end Streams
end ShiftNet
end RpiSmi
