import CacheSim.Recency
import CacheSim.Stamps

namespace CacheSim

open Stamps Recency

/-- The order in which a hash table lists its entries after an insertion, which is unspecified. -/
structure HashOrder (κ ν : Type) where
  arrange : List (κ × ν) → List (κ × ν)
  perm : ∀ l, (arrange l).Perm l

def HashOrder.newestFirst {κ ν : Type} : HashOrder κ ν := ⟨id, fun l => .refl l⟩

/-- The operations of `std::unordered_map` that the reference model uses; `entries` is in iteration order. -/
structure UnorderedMap (κ ν : Type) where
  order : HashOrder κ ν
  entries : List (κ × ν) := []

namespace UnorderedMap

variable {κ ν : Type} [DecidableEq κ]

def contains (m : UnorderedMap κ ν) (k : κ) : Bool := m.entries.any (fun e => e.1 = k)

def size (m : UnorderedMap κ ν) : ℕ := m.entries.length

def assign (m : UnorderedMap κ ν) (k : κ) (v : ν) : UnorderedMap κ ν :=
  { m with entries := m.entries.map (fun e => if e.1 = k then (k, v) else e) }

def erase (m : UnorderedMap κ ν) (k : κ) : UnorderedMap κ ν :=
  { m with entries := m.entries.filter (fun e => e.1 ≠ k) }

def emplace (m : UnorderedMap κ ν) (k : κ) (v : ν) : UnorderedMap κ ν :=
  if m.contains k then m else { m with entries := m.order.arrange ((k, v) :: m.entries) }

end UnorderedMap

structure RefFACache where
  lastUsed : UnorderedMap UInt64 ℕ
  capacity : ℕ
  clock : ℕ := 0

namespace RefFACache

def new (order : HashOrder UInt64 ℕ) (capacityLines : ℕ) : RefFACache :=
  { lastUsed := { order := order }, capacity := capacityLines }

def evict (lastUsed : UnorderedMap UInt64 ℕ) : UnorderedMap UInt64 ℕ :=
  match lastUsed.entries with
  | [] => lastUsed
  | first :: rest => lastUsed.erase (scanMin Prod.snd first (first :: rest)).1

def touch (r : RefFACache) (blockAddr : UInt64) : Bool × RefFACache :=
  let clock := r.clock + 1
  if r.lastUsed.contains blockAddr then
    (true, { r with lastUsed := r.lastUsed.assign blockAddr clock, clock := clock })
  else
    let lastUsed := if r.capacity ≤ r.lastUsed.size then evict r.lastUsed else r.lastUsed
    (false, { r with lastUsed := lastUsed.emplace blockAddr clock, clock := clock })

def Represents (r : RefFACache) (l : List UInt64) : Prop :=
  l.Nodup ∧ ∃ es, es.Perm r.lastUsed.entries ∧ Ranked Prod.snd r.clock es ∧ es.map Prod.fst = l

theorem new_represents (order : HashOrder UInt64 ℕ) (n : ℕ) : (new order n).Represents [] :=
  ⟨.nil, [], .refl _, .nil _ _, rfl⟩

@[simp] theorem touch_capacity (r : RefFACache) (b : UInt64) : (r.touch b).2.capacity = r.capacity := by
  unfold touch
  dsimp only
  split_ifs <;> rfl

namespace Represents

variable {r : RefFACache} {l : List UInt64}

theorem keys_perm (h : r.Represents l) : (r.lastUsed.entries.map Prod.fst).Perm l := by
  obtain ⟨-, es, hperm, -, rfl⟩ := h
  exact (hperm.map Prod.fst).symm

theorem contains_iff (h : r.Represents l) (b : UInt64) : r.lastUsed.contains b = true ↔ b ∈ l := by
  rw [← h.keys_perm.mem_iff]
  simp [UnorderedMap.contains]

theorem size_eq (h : r.Represents l) : r.lastUsed.size = l.length := by
  rw [← h.keys_perm.length_eq, List.length_map]
  rfl

theorem touch_hit (h : r.Represents l) {b : UInt64} (hb : b ∈ l) :
    (r.touch b).2.Represents (b :: l.erase b) := by
  have hcontains := (h.contains_iff b).mpr hb
  have htouch : (r.touch b).2 =
      { r with lastUsed := r.lastUsed.assign b (r.clock + 1), clock := r.clock + 1 } := by
    simp [touch, hcontains]
  obtain ⟨hnodup, es, hperm, hranked, rfl⟩ := h
  obtain ⟨⟨b', t⟩, hmem, rfl : b' = b⟩ := List.mem_map.mp hb
  obtain ⟨es₁, es₂, rfl⟩ := List.append_of_mem hmem
  rw [List.map_append, List.map_cons] at hnodup ⊢
  have hnot₁ : b' ∉ es₁.map Prod.fst := fun h0 =>
    (List.nodup_append.mp hnodup).2.2 _ h0 _ List.mem_cons_self rfl
  have hnot₂ : b' ∉ es₂.map Prod.fst :=
    (List.nodup_cons.mp (List.nodup_append.mp hnodup).2.1).1
  have herase : (es₁.map Prod.fst ++ b' :: es₂.map Prod.fst).erase b' =
      es₁.map Prod.fst ++ es₂.map Prod.fst := by
    rw [List.erase_append_right _ hnot₁, List.erase_cons_head]
  have hkeep : ∀ fs : List (UInt64 × ℕ), b' ∉ fs.map Prod.fst →
      fs.map (fun e => if e.1 = b' then (b', r.clock + 1) else e) = fs := by
    intro fs hfs
    apply (List.map_congr_left _).trans (List.map_id fs)
    intro e he
    have hne : e.1 ≠ b' := by
      rintro h0
      exact hfs (h0 ▸ List.mem_map_of_mem he)
    exact if_neg hne
  have hrest : Ranked Prod.snd r.clock (es₁ ++ es₂) :=
    hranked.sublist (List.Sublist.append_left (List.sublist_cons_self _ _) es₁)
  rw [herase, htouch]
  refine ⟨?_, (b', r.clock + 1) :: (es₁ ++ es₂), ?_, hrest.cons (k := (b', r.clock + 1)) (Nat.lt_succ_self _), ?_⟩
  · rw [← herase]
    exact (List.perm_cons_erase (by simp)).nodup_iff.mp hnodup
  · apply List.perm_middle.symm.trans
    have hmap := hperm.map (fun e => if e.1 = b' then (b', r.clock + 1) else e)
    rwa [List.map_append, List.map_cons, if_pos rfl, hkeep es₁ hnot₁, hkeep es₂ hnot₂] at hmap
  · rw [List.map_cons, List.map_append]

theorem emplace (h : r.Represents l) {b : UInt64} (hb : b ∉ l) :
    ({ r with lastUsed := r.lastUsed.emplace b (r.clock + 1), clock := r.clock + 1 } :
      RefFACache).Represents (b :: l) := by
  have hcontains : ¬ r.lastUsed.contains b = true := mt (h.contains_iff b).mp hb
  obtain ⟨hnodup, es, hperm, hranked, rfl⟩ := h
  refine ⟨List.nodup_cons.mpr ⟨hb, hnodup⟩, (b, r.clock + 1) :: es, ?_,
    hranked.cons (k := (b, r.clock + 1)) (Nat.lt_succ_self _), rfl⟩
  rw [UnorderedMap.emplace, if_neg hcontains]
  exact (hperm.cons _).trans (r.lastUsed.order.perm _).symm

theorem evict (h : r.Represents l) :
    ({ r with lastUsed := RefFACache.evict r.lastUsed } : RefFACache).Represents l.dropLast := by
  obtain ⟨hnodup, es, hperm, hranked, rfl⟩ := h
  unfold RefFACache.evict
  split
  · next hnil =>
    rw [hnil] at hperm
    obtain rfl := hperm.eq_nil
    exact ⟨.nil, [], by rw [hnil], .nil _ _, rfl⟩
  · next first rest hentries =>
    obtain ⟨hmem, hmin⟩ := scanMin_spec Prod.snd first (first :: rest)
    set v := scanMin Prod.snd first (first :: rest)
    have hmem' : v ∈ es := hperm.symm.subset (by rw [hentries]; simpa using hmem)
    have hlast := hranked.eq_append_of_min hmem' fun x hx =>
      hmin x (List.mem_cons_of_mem _ (hentries ▸ hperm.subset hx))
    have hnodup' := hnodup
    rw [hlast, List.map_append, List.map_cons, List.map_nil] at hnodup'
    have hkeys : (es.map Prod.fst).dropLast = es.dropLast.map Prod.fst := List.map_dropLast.symm
    rw [hkeys]
    refine ⟨(List.nodup_append.mp hnodup').1, es.dropLast, ?_, hranked.sublist (List.dropLast_sublist _), rfl⟩
    have hfilter := hperm.filter (fun e => decide (e.1 ≠ v.1))
    rw [hlast, List.filter_append] at hfilter
    have hkeep : es.dropLast.filter (fun e => decide (e.1 ≠ v.1)) = es.dropLast := by
      apply List.filter_eq_self.mpr
      intro e he
      apply decide_eq_true
      intro h0
      exact (List.nodup_append.mp hnodup').2.2 _ (List.mem_map_of_mem he) _ (by simp) h0
    have hdrop : [v].filter (fun e => decide (e.1 ≠ v.1)) = [] := by simp
    rwa [hkeep, hdrop, List.append_nil] at hfilter

theorem touch (h : r.Represents l) (hlen : l.length ≤ r.capacity) (hpos : 0 < r.capacity) (b : UInt64) :
    (r.touch b).1 = decide (b ∈ l) ∧ (r.touch b).2.Represents (refer r.capacity true b l) := by
  by_cases hb : b ∈ l
  · have hcontains := (h.contains_iff b).mpr hb
    refine ⟨by simp [RefFACache.touch, hcontains, hb], ?_⟩
    rw [refer, if_pos hb]
    exact h.touch_hit hb
  · have hcontains : r.lastUsed.contains b = false := by
      simpa using mt (h.contains_iff b).mp hb
    refine ⟨by simp [RefFACache.touch, hcontains, hb], ?_⟩
    rw [refer, if_neg hb, if_pos rfl]
    by_cases hfull : r.capacity ≤ r.lastUsed.size
    · have htouch : (r.touch b).2 = { r with
          lastUsed := (RefFACache.evict r.lastUsed).emplace b (r.clock + 1), clock := r.clock + 1 } := by
        simp [RefFACache.touch, hcontains, hfull]
      have hlen' : l.length = r.capacity := le_antisymm hlen (h.size_eq ▸ hfull)
      have htake : (b :: l).take r.capacity = b :: l.dropLast := by
        obtain ⟨m, hm⟩ : ∃ m, r.capacity = m + 1 := ⟨r.capacity - 1, by omega⟩
        rw [hm, List.take_succ_cons, List.dropLast_eq_take, hlen', hm, Nat.add_sub_cancel]
      rw [htake, htouch]
      exact h.evict.emplace fun h0 => hb (List.mem_of_mem_dropLast h0)
    · have htouch : (r.touch b).2 =
          { r with lastUsed := r.lastUsed.emplace b (r.clock + 1), clock := r.clock + 1 } := by
        simp [RefFACache.touch, hcontains, hfull]
      rw [h.size_eq] at hfull
      rw [htouch, List.take_of_length_le (by simp only [List.length_cons]; omega)]
      exact h.emplace hb

end Represents

end RefFACache

end CacheSim
