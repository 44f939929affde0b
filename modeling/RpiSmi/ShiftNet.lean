import Mathlib.Algebra.Group.Nat.Defs
import Mathlib.Data.List.Range
import Mathlib.Tactic.Common

/-!
# Shift-and-mask networks

A network computes a word from its inputs by shifts, masks and unions. Each bit
that it gives is a union of input bits, which `sources` lists. Two networks
with the same sources are the same function, and a family of networks that
gives each bit of a payload on its own somewhere, and no other bit anywhere,
can be undone on the payload.
-/

namespace RpiSmi
namespace ShiftNet

inductive Net (w : ℕ)
  | input (k : ℕ)
  | shr (e : Net w) (n : ℕ)
  | shl (e : Net w) (n : ℕ)
  | mask (e : Net w) (m : BitVec w)
  | or (e e' : Net w)

variable {w : ℕ}

def Net.eval (x : ℕ → BitVec w) : Net w → BitVec w
  | input k => x k
  | shr e n => e.eval x >>> n
  | shl e n => e.eval x <<< n
  | mask e m => e.eval x &&& m
  | or e e' => e.eval x ||| e'.eval x

/-- The input bits, by input and place, that output bit `j` is the union of. -/
def Net.sources : Net w → ℕ → List (ℕ × ℕ)
  | input k, j => [(k,j)]
  | shr e n, j => e.sources (n+j)
  | shl e n, j => if j < w ∧ n ≤ j then e.sources (j-n) else []
  | mask e m, j => if m.getLsbD j then e.sources j else []
  | or e e', j => e.sources j ++ e'.sources j

theorem Net.getLsbD_eval (e : Net w) (x : ℕ → BitVec w) (j : ℕ) :
    (e.eval x).getLsbD j = (e.sources j).any fun s => (x s.1).getLsbD s.2 := by
  induction e generalizing j with
  | input k => simp [eval,sources]
  | shr e n ih => simp [eval,sources,ih]
  | shl e n ih =>
    simp only [eval,sources,BitVec.getLsbD_shiftLeft,ih]
    split_ifs with h
    · simp [h.1,Nat.not_lt.mpr h.2]
    · by_cases hj : j < w
      · have hn : j < n := by omega
        simp [hn]
      · simp [hj]
  | mask e m ih => cases hm : m.getLsbD j <;> simp [eval,sources,ih,hm]
  | or e e' ih ih' => simp [eval,sources,ih,ih']

def Net.Alike (e e' : Net w) : Prop := ∀ j < w, e.sources j = e'.sources j

instance (e e' : Net w) : Decidable (e.Alike e') := inferInstanceAs (Decidable (∀ j < w, _))

theorem Net.Alike.eval_eq {e e' : Net w} (h : e.Alike e') (x : ℕ → BitVec w) :
    e.eval x = e'.eval x := by
  apply BitVec.eq_of_getLsbD_eq
  intro j hj
  rw [e.getLsbD_eval,e'.getLsbD_eval,h j hj]

def AlikeAll : List (Net w) → List (Net w) → Prop
  | [], [] => True
  | e::es, e'::es' => e.Alike e' ∧ AlikeAll es es'
  | _, _ => False

instance : (es es' : List (Net w)) → Decidable (AlikeAll es es')
  | [], [] => inferInstanceAs (Decidable True)
  | _::es, _::es' =>
    have := instDecidableAlikeAll es es'
    inferInstanceAs (Decidable (_ ∧ _))
  | [], _::_ => inferInstanceAs (Decidable False)
  | _::_, [] => inferInstanceAs (Decidable False)

theorem AlikeAll.evals_eq (x : ℕ → BitVec w) : {es es' : List (Net w)} → AlikeAll es es' →
    es.map (Net.eval x) = es'.map (Net.eval x)
  | [], [], _ => rfl
  | e::es, e'::es', h => by rw [List.map_cons,List.map_cons,h.1.eval_eq,h.2.evals_eq]

def Net.Below (k : ℕ) (e : Net w) : Prop := ∀ j < w, k ≤ j → e.sources j = []

instance (k : ℕ) (e : Net w) : Decidable (e.Below k) :=
  inferInstanceAs (Decidable (∀ j < w, _))

theorem Net.Below.eval_lt {k : ℕ} {e : Net w} (h : e.Below k) (x : ℕ → BitVec w) :
    (e.eval x).toNat < 2^k := by
  refine Nat.lt_pow_two_of_testBit _ fun j hj => ?_
  by_cases hw : j < w
  · rw [BitVec.testBit_toNat,e.getLsbD_eval,h j hw hj]
    rfl
  · exact BitVec.getLsbD_of_ge _ j (by omega)

/-- Of `n` inputs the networks give every bit in `m` on its own at some place, and none beside. -/
structure Lossless (n : ℕ) (m : BitVec w) (es : List (Net w)) : Prop where
  within : ∀ e ∈ es, ∀ j < w, ∀ s ∈ e.sources j, s.1 < n ∧ m.getLsbD s.2 = true
  covers : ∀ k < n, ∀ i < w, m.getLsbD i = true → ∃ e ∈ es, ∃ j < w, e.sources j = [(k,i)]

instance (n : ℕ) (m : BitVec w) (es : List (Net w)) : Decidable (Lossless n m es) :=
  decidable_of_iff (_ ∧ _) ⟨fun h => ⟨h.1,h.2⟩,fun h => ⟨h.within,h.covers⟩⟩

theorem masked_eq_iff {m x y : BitVec w} :
    x &&& m = y &&& m ↔ ∀ i < w, m.getLsbD i = true → x.getLsbD i = y.getLsbD i := by
  constructor
  · intro h i _ hm
    have hbit := congrArg (BitVec.getLsbD · i) h
    simpa only [BitVec.getLsbD_and,hm,Bool.and_true] using hbit
  · intro h
    apply BitVec.eq_of_getLsbD_eq
    intro i hi
    rw [BitVec.getLsbD_and,BitVec.getLsbD_and]
    cases hm : m.getLsbD i
    · simp
    · rw [h i hi hm]

/-- What such networks give is the same exactly for inputs that agree on the payload. -/
theorem Lossless.evals_eq_iff {n : ℕ} {m : BitVec w} {es : List (Net w)} (h : Lossless n m es)
    (x y : ℕ → BitVec w) :
    es.map (Net.eval x) = es.map (Net.eval y) ↔ ∀ k < n, x k &&& m = y k &&& m := by
  rw [List.map_inj_left]
  constructor
  · intro heval k hk
    refine masked_eq_iff.mpr fun i hi hm => ?_
    obtain ⟨e,he,j,hj,hs⟩ := h.covers k hk i hi hm
    have hbit := congrArg (BitVec.getLsbD · j) (heval e he)
    simpa only [e.getLsbD_eval,hs,List.any_cons,List.any_nil,Bool.or_false] using hbit
  · intro hagree e he
    apply BitVec.eq_of_getLsbD_eq
    intro j hj
    rw [e.getLsbD_eval,e.getLsbD_eval]
    have hsame (s : ℕ × ℕ) (hs : s ∈ e.sources j) :
        (x s.1).getLsbD s.2 = (y s.1).getLsbD s.2 := by
      obtain ⟨hk,hm⟩ := h.within e he j hj s hs
      exact masked_eq_iff.mp (hagree s.1 hk) s.2 (BitVec.lt_of_getLsbD hm) hm
    rw [Bool.eq_iff_iff,List.any_eq_true,List.any_eq_true]
    exact exists_congr fun s => and_congr_right fun hs => by rw [hsame s hs]

def pairUp (k : ℕ) : List (BitVec w) → List (BitVec w)
  | a::b::vs => (a <<< k ||| b)::pairUp k vs
  | _ => []

theorem pairUp_append (k : ℕ) : (as bs : List (BitVec w)) → as.length%2 = 0 →
    pairUp k (as ++ bs) = pairUp k as ++ pairUp k bs
  | [], _, _ => rfl
  | [_], _, h => absurd h (by simp)
  | a::b::as, bs, h => by
    rw [List.cons_append,List.cons_append,pairUp,pairUp,List.cons_append,
      pairUp_append k as bs (by simp at h; omega)]

theorem pairUp_flatMap (k : ℕ) {α : Type} {g : α → List (BitVec w)}
    (hg : ∀ a, (g a).length%2 = 0) (as : List α) :
    pairUp k (as.flatMap g) = as.flatMap fun a => pairUp k (g a) := by
  induction as with
  | nil => rfl
  | cons a as ih => rw [List.flatMap_cons,List.flatMap_cons,pairUp_append k _ _ (hg a),ih]

def pairNets (k : ℕ) : List (Net w) → List (Net w)
  | e::e'::es => .or (.shl e k) e'::pairNets k es
  | _ => []

theorem evals_pairNets (k : ℕ) (x : ℕ → BitVec w) : (es : List (Net w)) →
    (pairNets k es).map (Net.eval x) = pairUp k (es.map (Net.eval x))
  | [] => rfl
  | [_] => rfl
  | e::e'::es => by
    rw [pairNets,List.map_cons,evals_pairNets k x es,List.map_cons,List.map_cons,pairUp]
    rfl

def exchange {α : Type} : List α → List α
  | a::b::vs => b::a::exchange vs
  | vs => vs

section Exchange

variable {α β : Type}

@[simp] theorem length_exchange : (vs : List α) → (exchange vs).length = vs.length
  | [] => rfl
  | [_] => rfl
  | _::_::vs => by simp only [exchange,List.length_cons,length_exchange vs]

@[simp] theorem exchange_exchange : (vs : List α) → exchange (exchange vs) = vs
  | [] => rfl
  | [_] => rfl
  | _::_::vs => by rw [exchange,exchange,exchange_exchange vs]

theorem exchange_map (f : α → β) : (vs : List α) → exchange (vs.map f) = (exchange vs).map f
  | [] => rfl
  | [_] => rfl
  | _::_::vs => by
    rw [List.map_cons,List.map_cons,exchange,exchange_map f vs,exchange,List.map_cons,List.map_cons]

theorem exchange_append : (as bs : List α) → as.length%2 = 0 →
    exchange (as ++ bs) = exchange as ++ exchange bs
  | [], _, _ => rfl
  | [_], _, h => absurd h (by simp)
  | a::b::as, bs, h => by
    rw [List.cons_append,List.cons_append,exchange,exchange,List.cons_append,List.cons_append,
      exchange_append as bs (by simp at h; omega)]

theorem exchange_flatMap {g : α → List β} (hg : ∀ a, (g a).length%2 = 0) (as : List α) :
    exchange (as.flatMap g) = as.flatMap fun a => exchange (g a) := by
  induction as with
  | nil => rfl
  | cons a as ih => rw [List.flatMap_cons,List.flatMap_cons,exchange_append _ _ (hg a),ih]

theorem getElem?_exchange : (vs : List α) → vs.length%2 = 0 → (k : ℕ) →
    (exchange vs)[2*k]? = vs[2*k+1]? ∧ (exchange vs)[2*k+1]? = vs[2*k]?
  | [], _, _ => ⟨rfl,rfl⟩
  | [_], h, _ => absurd h (by simp)
  | _::_::_, _, 0 => ⟨rfl,rfl⟩
  | _::_::vs, h, k+1 => getElem?_exchange vs (by simp at h; omega) k

end Exchange

def Net.later (s : ℕ) : Net w → Net w
  | input k => input (s+k)
  | shr e n => shr (e.later s) n
  | shl e n => shl (e.later s) n
  | mask e m => mask (e.later s) m
  | or e e' => or (e.later s) (e'.later s)

theorem Net.eval_later (s : ℕ) (x : ℕ → BitVec w) (e : Net w) :
    (e.later s).eval x = e.eval fun k => x (s+k) := by
  induction e with
  | input k => rfl
  | shr e n ih => rw [later,eval,eval,ih]
  | shl e n ih => rw [later,eval,eval,ih]
  | mask e m ih => rw [later,eval,eval,ih]
  | or e e' ih ih' => rw [later,eval,eval,ih,ih']

def Net.Within (r : ℕ) : Net w → Prop
  | input k => k < r
  | shr e _ => e.Within r
  | shl e _ => e.Within r
  | mask e _ => e.Within r
  | or e e' => e.Within r ∧ e'.Within r

instance (r : ℕ) : (e : Net w) → Decidable (e.Within r)
  | .input k => inferInstanceAs (Decidable (k < r))
  | .shr e _ => instDecidableWithin r e
  | .shl e _ => instDecidableWithin r e
  | .mask e _ => instDecidableWithin r e
  | .or e e' =>
    have := instDecidableWithin r e
    have := instDecidableWithin r e'
    inferInstanceAs (Decidable (e.Within r ∧ e'.Within r))

theorem Net.Within.eval_eq {r : ℕ} {x y : ℕ → BitVec w} (h : ∀ k < r, x k = y k) {e : Net w}
    (he : e.Within r) : e.eval x = e.eval y := by
  induction e with
  | input k => exact h k he
  | shr e n ih => rw [eval,eval,ih he]
  | shl e n ih => rw [eval,eval,ih he]
  | mask e m ih => rw [eval,eval,ih he]
  | or e e' ih ih' => rw [eval,eval,ih he.1,ih' he.2]

section Groups

variable (es : List (Net w)) (r : ℕ) (x y : ℕ → BitVec w) (m n : ℕ)

def group (i : ℕ) : List (BitVec w) := es.map (Net.eval fun k => x (r*i+k))

theorem group_one : group es 1 x = fun i => es.map (Net.eval fun k => x (i+k)) := by
  funext i
  rw [group,Nat.one_mul]

def groups : List (BitVec w) := (List.range n).flatMap (group es r x)

theorem groups_succ : groups es r x (n+1) = groups es r x n ++ group es r x n := by
  simp [groups,List.range_succ]

theorem length_groups : (groups es r x n).length = n*es.length := by
  induction n with
  | zero => simp [groups]
  | succ n ih => rw [groups_succ,List.length_append,ih,group,List.length_map,Nat.succ_mul]

theorem groups_add :
    groups es r x (m+n) = groups es r x m ++ groups es r (fun i => x (r*m+i)) n := by
  induction n with
  | zero => simp [groups]
  | succ n ih =>
    rw [← Nat.add_assoc,groups_succ,ih,groups_succ,List.append_assoc]
    simp only [group,Nat.mul_add,Nat.add_assoc]

theorem groups_twice :
    groups es r x (2*n) = groups (es ++ es.map (Net.later r)) (2*r) x n := by
  induction n with
  | zero => rfl
  | succ n ih =>
    rw [Nat.mul_succ,groups_succ,groups_succ,ih,groups_succ,List.append_assoc]
    congr 1
    simp only [group,List.map_append,List.map_map,Function.comp_def,Net.eval_later]
    simp only [Nat.mul_succ,Nat.mul_left_comm r 2 n,Nat.mul_assoc,Nat.add_assoc]

theorem pairUp_groups (k : ℕ) (he : es.length%2 = 0) :
    pairUp k (groups es r x n) = groups (pairNets k es) r x n := by
  rw [groups,groups,pairUp_flatMap k fun i => by rw [group,List.length_map,he]]
  congr 1
  funext i
  exact (evals_pairNets k _ es).symm

theorem exchange_groups (he : es.length%2 = 0) :
    exchange (groups es r x n) = groups (exchange es) r x n := by
  rw [groups,groups,exchange_flatMap fun i => by rw [group,List.length_map,he]]
  congr 1
  funext i
  exact exchange_map _ es

theorem take_drop_groups {i : ℕ} (hi : i < n) :
    ((groups es r x n).drop (i*es.length)).take es.length = group es r x i := by
  obtain ⟨d,rfl⟩ := Nat.exists_eq_add_of_lt hi
  have hlen : (groups es r x i).length = i*es.length := length_groups es r x i
  have hgroup : (group es r x i).length = es.length := List.length_map _
  rw [show i+d+1 = i+1+d by omega,groups_add,groups_succ,List.append_assoc,← hlen,
    List.drop_left,← hgroup,List.take_left]

variable {es r x y n}

theorem AlikeAll.groups_eq {es' : List (Net w)} (h : AlikeAll es es') :
    groups es r x n = groups es' r x n := by
  rw [groups,groups]
  congr 1
  funext i
  exact h.evals_eq _

theorem groups_lt {b : ℕ} (h : ∀ e ∈ es, e.Below b) : ∀ v ∈ groups es r x n, v.toNat < 2^b := by
  intro v hv
  obtain ⟨i,-,hv⟩ := List.mem_flatMap.mp hv
  obtain ⟨e,he,rfl⟩ := List.mem_map.mp hv
  exact (h e he).eval_lt _

theorem groups_congr (he : ∀ e ∈ es, e.Within r) (h : ∀ i < n, ∀ k < r, x (r*i+k) = y (r*i+k)) :
    groups es r x n = groups es r y n := by
  refine List.flatMap_congr fun i hi => List.map_congr_left fun e hmem => ?_
  exact (he e hmem).eval_eq (h i (List.mem_range.mp hi))

/-- Lossless on each group is lossless on the stream. -/
theorem Lossless.groups_eq_iff {m : BitVec w} (h : Lossless r m es) :
    groups es r x n = groups es r y n ↔ ∀ i < n, ∀ k < r, x (r*i+k) &&& m = y (r*i+k) &&& m := by
  induction n with
  | zero => simp [groups]
  | succ n ih =>
    rw [groups_succ,groups_succ]
    constructor
    · intro heq i hi
      obtain ⟨hfront,hlast⟩ := List.append_inj heq (by rw [length_groups,length_groups])
      rcases Nat.lt_succ_iff_lt_or_eq.mp hi with hi | rfl
      · exact ih.mp hfront i hi
      · exact (h.evals_eq_iff _ _).mp hlast
    · intro hall
      rw [ih.mpr fun i hi => hall i (by omega),group,group,
        (h.evals_eq_iff _ _).mpr (hall n (by omega))]

end Groups

end ShiftNet
end RpiSmi
