import Mathlib

/-!
Demand paging. A memory of a few slots is asked for one item after another and loads what it misses.
A conservative memory of `k` slots is compared with any memory of `h ≤ k` slots by cutting the
requests into phases of `k` distinct items. Logs are written latest first, each item with whether it
was found.
-/

namespace CacheSim.Paging

variable {α : Type}

def misses (log : List (α × Bool)) : ℕ := log.countP fun x => !x.2

theorem misses_cons (b : α) (hit : Bool) (log : List (α × Bool)) :
    misses ((b, hit) :: log) = misses log + (!hit).toNat := by
  cases hit <;> simp [misses]

theorem misses_append (log log' : List (α × Bool)) : misses (log ++ log') = misses log + misses log' :=
  List.countP_append

def faults (log : List (α × Bool)) : List α := (log.filter fun x => !x.2).map Prod.fst

theorem faults_length (log : List (α × Bool)) : (faults log).length = misses log := by
  rw [faults, List.length_map, misses, List.countP_eq_length_filter]

variable [DecidableEq α] {k h : ℕ}

def asked (log : List (α × Bool)) : Finset α := (log.map Prod.fst).toFinset

/-- What a memory of `h` slots may hold after a log; it may drop items whenever it likes. -/
inductive Pages (h : ℕ) : List (α × Bool) → Finset α → Prop
  | nil : Pages h [] ∅
  | drop {log : List (α × Bool)} {X Y : Finset α} (hp : Pages h log X) (hY : Y ⊆ X) : Pages h log Y
  | ask {log : List (α × Bool)} {X Y : Finset α} {b : α} {hit : Bool} (hp : Pages h log X)
      (hhit : hit = true ↔ b ∈ X) (hY : Y ⊆ insert b X) (hb : b ∈ Y) (hcard : Y.card ≤ h) :
      Pages h ((b, hit) :: log) Y

def Conservative (k : ℕ) (log : List (α × Bool)) : Prop :=
  ∀ post mid pre b, log = post ++ (b, false) :: (mid ++ (b, false) :: pre) →
    k ≤ ((asked mid).erase b).card

/-- How many phases of `k` distinct items are over, and the items of the one that is not. -/
def phase (k : ℕ) : List α → ℕ × Finset α
  | [] => (0, ∅)
  | b :: l =>
    let (n, P) := phase k l
    if b ∈ P ∨ P.card < k then (n, insert b P) else (n + 1, {b})

theorem asked_cons (x : α × Bool) (log : List (α × Bool)) : asked (x :: log) = insert x.1 (asked log) := by
  simp [asked]

theorem asked_append (log log' : List (α × Bool)) : asked (log ++ log') = asked log ∪ asked log' := by
  simp [asked]

theorem phase_card_le (hk : 0 < k) (l : List α) : (phase k l).2.card ≤ k := by
  induction l with
  | nil => simp [phase]
  | cons b l ih =>
    simp only [phase]
    split_ifs with hb
    · rcases hb with hb | hb
      · rwa [Finset.insert_eq_of_mem hb]
      · apply (Finset.card_insert_le _ _).trans
        omega
    · rw [Finset.card_singleton]
      omega

theorem phase_cons_full {b : α} {l : List α} (hk : 0 < k) (hb : ¬(b ∈ (phase k l).2 ∨ (phase k l).2.card < k)) :
    b ∉ (phase k l).2 ∧ (phase k l).2.card = k := by
  have hle := phase_card_le hk l
  rw [not_or] at hb
  exact ⟨hb.1, by omega⟩

theorem Conservative.tail {x : α × Bool} {log : List (α × Bool)} (hlog : Conservative k (x :: log)) :
    Conservative k log := by
  intro post mid pre b heq
  apply hlog (x :: post) mid pre b
  rw [heq]
  rfl

theorem Conservative.nil : Conservative k ([] : List (α × Bool)) := by
  intro post mid pre b heq
  simp at heq

theorem Conservative.cons {b : α} {hit : Bool} {log : List (α × Bool)} (hlog : Conservative k log)
    (hb : hit = false → ∀ mid pre, log = mid ++ (b, false) :: pre → k ≤ ((asked mid).erase b).card) :
    Conservative k ((b, hit) :: log) := by
  intro post mid pre b' heq
  cases post with
  | nil =>
    rw [List.nil_append, List.cons.injEq, Prod.mk.injEq] at heq
    rw [← heq.1.1]
    apply hb heq.1.2 mid pre
    rw [heq.2, heq.1.1]
  | cons x post =>
    rw [List.cons_append, List.cons.injEq] at heq
    exact hlog post mid pre b' heq.2

section

variable {cur old : List (α × Bool)}

theorem Conservative.faults_nodup (hlog : Conservative k (cur ++ old)) (hcard : (asked cur).card ≤ k) :
    (faults cur).Nodup := by
  induction cur with
  | nil => exact .nil
  | cons x cur ih =>
    rw [asked_cons] at hcard
    have hrest := ih hlog.tail ((Finset.card_le_card (Finset.subset_insert _ _)).trans hcard)
    obtain ⟨b, hit⟩ := x
    cases hit with
    | true => exact hrest
    | false =>
      rw [faults, List.filter_cons_of_pos rfl, List.map_cons, List.nodup_cons]
      refine ⟨fun hmem => ?_, hrest⟩
      have hfound : (b, false) ∈ cur := by simpa using hmem
      obtain ⟨mid, pre, rfl⟩ := List.append_of_mem hfound
      have hlarge := hlog [] mid (pre ++ old) b (by simp)
      have hsub : insert b ((asked mid).erase b) ⊆ insert b (asked (mid ++ (b, false) :: pre)) := by
        apply Finset.insert_subset_insert
        apply (Finset.erase_subset _ _).trans
        rw [asked_append]
        exact Finset.subset_union_left
      have hle := (Finset.card_le_card hsub).trans hcard
      rw [Finset.card_insert_of_notMem (Finset.notMem_erase b _)] at hle
      omega

theorem Conservative.misses_le (hlog : Conservative k (cur ++ old)) (hcard : (asked cur).card ≤ k) :
    misses cur ≤ (asked cur).card := by
  rw [← faults_length, ← List.toFinset_card_of_nodup (hlog.faults_nodup hcard)]
  apply Finset.card_le_card
  intro b
  simp only [asked, faults, List.mem_toFinset, List.mem_map, List.mem_filter]
  rintro ⟨x, hx, rfl⟩
  exact ⟨x, hx.1, rfl⟩

end

theorem Conservative.phase_split (hk : 0 < k) {log : List (α × Bool)} (hlog : Conservative k log) :
    ∃ cur old, log = cur ++ old ∧ asked cur = (phase k (log.map Prod.fst)).2 ∧
      misses old ≤ k * (phase k (log.map Prod.fst)).1 := by
  induction log with
  | nil => exact ⟨[], [], rfl, rfl, Nat.zero_le _⟩
  | cons x log ih =>
    obtain ⟨cur, old, rfl, hcur, hold⟩ := ih hlog.tail
    simp only [List.map_cons, phase]
    split_ifs with hb
    · exact ⟨x :: cur, old, rfl, by rw [asked_cons, hcur], hold⟩
    · refine ⟨[x], cur ++ old, rfl, by simp [asked], ?_⟩
      have hfull := (phase_cons_full hk hb).2
      have hwindow := hlog.tail.misses_le (by rw [hcur, hfull])
      rw [hcur, hfull] at hwindow
      rw [misses_append, mul_add, mul_one, add_comm]
      exact Nat.add_le_add hold hwindow

theorem Conservative.misses_le_phase (hk : 0 < k) {log : List (α × Bool)} (hlog : Conservative k log) :
    misses log ≤ k * (phase k (log.map Prod.fst)).1 + (phase k (log.map Prod.fst)).2.card := by
  obtain ⟨cur, old, heq, hcur, hold⟩ := hlog.phase_split hk
  have hwindow : misses cur ≤ (asked cur).card := by
    rw [heq] at hlog
    apply hlog.misses_le
    rw [hcur]
    exact phase_card_le hk _
  rw [← hcur]
  calc misses log = misses old + misses cur := by rw [heq, misses_append, add_comm]
    _ ≤ _ := Nat.add_le_add hold hwindow

theorem Pages.subset_faults {log : List (α × Bool)} {X : Finset α} (hp : Pages h log X) :
    X ⊆ (faults log).toFinset ∧ asked log ⊆ (faults log).toFinset := by
  induction hp with
  | nil => exact ⟨Finset.empty_subset _, Finset.empty_subset _⟩
  | drop hp hY ih => exact ⟨hY.trans ih.1, ih.2⟩
  | @ask log X Y b hit hp hhit hY hb hcard ih =>
    rw [asked_cons]
    cases hit with
    | true =>
      have hfound : insert b X = X := Finset.insert_eq_of_mem (hhit.mp rfl)
      rw [hfound] at hY
      exact ⟨hY.trans ih.1, Finset.insert_subset (ih.1 (hhit.mp rfl)) ih.2⟩
    | false =>
      have hmissed : (faults ((b, false) :: log)).toFinset = insert b (faults log).toFinset := by
        simp [faults]
      rw [hmissed]
      exact ⟨hY.trans (Finset.insert_subset_insert b ih.1), Finset.insert_subset_insert b ih.2⟩

theorem Pages.card_le_misses {log : List (α × Bool)} {X : Finset α} (hp : Pages h log X) :
    (asked log).card ≤ misses log := by
  rw [← faults_length]
  exact (Finset.card_le_card hp.subset_faults.2).trans (List.toFinset_card_le _)

structure Standing (k h n : ℕ) (P X X₀ : Finset α) (m : ℕ) : Prop where
  held : X ⊆ X₀ ∪ P
  card_le : X₀.card ≤ h
  first : n = 0 → X₀ = ∅ ∧ (P \ X₀).card ≤ m
  later : ∀ i, n = i + 1 → k + 1 + i * (k + 1 - h) + (P \ X₀).card ≤ m

section

variable {n m : ℕ} {P X Y X₀ : Finset α} {b : α} {hit : Bool}

theorem Standing.drop (hs : Standing k h n P X X₀ m) (hY : Y ⊆ X) : Standing k h n P Y X₀ m :=
  ⟨hY.trans hs.held, hs.card_le, hs.first, hs.later⟩

theorem Standing.missed (hs : Standing k h n P X X₀ m) (hhit : hit = true ↔ b ∈ X) :
    (insert b P \ X₀).card ≤ (P \ X₀).card + (!hit).toNat := by
  by_cases hb : b ∈ X₀ ∨ b ∈ P
  · have hsame : insert b P \ X₀ = P \ X₀ := by
      ext y
      by_cases hy : y = b
      · subst hy
        simp only [Finset.mem_sdiff, Finset.mem_insert, true_or, true_and]
        tauto
      · simp [hy]
    rw [hsame]
    exact Nat.le_add_right _ _
  · have hout : b ∉ X := fun hX => hb (Finset.mem_union.mp (hs.held hX))
    obtain rfl : hit = false := Bool.eq_false_iff.mpr (mt hhit.mp hout)
    rw [not_or] at hb
    rw [Finset.insert_sdiff_of_notMem _ hb.1]
    exact Finset.card_insert_le _ _

theorem Standing.same (hs : Standing k h n P X X₀ m) (hhit : hit = true ↔ b ∈ X) (hY : Y ⊆ insert b X) :
    Standing k h n (insert b P) Y X₀ (m + (!hit).toNat) where
  held := by
    rw [Finset.union_insert]
    exact hY.trans (Finset.insert_subset_insert b hs.held)
  card_le := hs.card_le
  first := by
    intro hn
    obtain ⟨h0, hle⟩ := hs.first hn
    have hmissed := hs.missed hhit
    exact ⟨h0, by omega⟩
  later := by
    intro i hi
    have hle := hs.later i hi
    have hmissed := hs.missed hhit
    omega

theorem Standing.next (hkh : h ≤ k) (hs : Standing k h n P X X₀ m) (hhit : hit = true ↔ b ∈ X)
    (hb : b ∉ P) (hfull : P.card = k) (hY : b ∈ Y) (hcard : Y.card ≤ h) :
    Standing k h (n + 1) {b} Y Y (m + (!hit).toNat) where
  held := Finset.subset_union_left
  card_le := hcard
  first := fun hn => absurd hn (Nat.succ_ne_zero n)
  later := by
    intro i hi
    obtain rfl : n = i := Nat.succ.inj hi
    have hmissed := hs.missed hhit
    have hlarge : k + 1 ≤ (insert b P \ X₀).card + X₀.card := by
      rw [← hfull, ← Finset.card_insert_of_notMem hb]
      exact Finset.card_le_card_sdiff_add_card
    have hone : ({b} : Finset α) \ Y = ∅ := by simpa using hY
    rw [hone, Finset.card_empty]
    have hX₀ := hs.card_le
    cases n with
    | zero =>
      obtain ⟨rfl, hle⟩ := hs.first rfl
      rw [Finset.card_empty] at hlarge
      omega
    | succ i =>
      have hle := hs.later i rfl
      rw [Nat.succ_mul]
      omega

end

theorem Pages.standing (hk : 0 < k) (hkh : h ≤ k) {log : List (α × Bool)} {X : Finset α} (hp : Pages h log X) :
    ∃ X₀, Standing k h (phase k (log.map Prod.fst)).1 (phase k (log.map Prod.fst)).2 X X₀ (misses log) := by
  induction hp with
  | nil => exact ⟨∅, by simp, by simp, by simp [phase], by simp [phase]⟩
  | drop hp hY ih =>
    obtain ⟨X₀, hs⟩ := ih
    exact ⟨X₀, hs.drop hY⟩
  | @ask log X Y b hit hp hhit hY hb hcard ih =>
    obtain ⟨X₀, hs⟩ := ih
    rw [misses_cons]
    simp only [List.map_cons, phase]
    split_ifs with hphase
    · exact ⟨X₀, hs.same hhit hY⟩
    · obtain ⟨hnew, hfull⟩ := phase_cons_full hk hphase
      exact ⟨Y, hs.next hkh hhit hnew hfull hb hcard⟩

theorem Conservative.competitive (hh : 0 < h) (hkh : h ≤ k) {online other : List (α × Bool)} {X : Finset α}
    (honline : Conservative k online) (hother : Pages h other X)
    (hsame : online.map Prod.fst = other.map Prod.fst) :
    (k - h + 1) * misses online ≤ k * misses other := by
  have hk : 0 < k := by omega
  have hle := honline.misses_le_phase hk
  rw [hsame] at hle
  obtain ⟨X₀, hs⟩ := hother.standing hk hkh
  revert hle hs
  generalize phase k (other.map Prod.fst) = state
  obtain ⟨n, P⟩ := state
  intro hle hs
  dsimp only at hle hs
  cases n with
  | zero =>
    obtain ⟨rfl, hmissed⟩ := hs.first rfl
    rw [Finset.sdiff_empty] at hmissed
    exact Nat.mul_le_mul (by omega) (by omega)
  | succ i =>
    have hmissed := hs.later i rfl
    have hP : P.card ≤ (P \ X₀).card + h :=
      Finset.card_le_card_sdiff_add_card.trans (Nat.add_le_add_left hs.card_le _)
    obtain ⟨d, rfl⟩ := Nat.exists_eq_add_of_le hkh
    rw [show h + d - h + 1 = d + 1 by omega]
    rw [show h + d + 1 - h = d + 1 by omega] at hmissed
    calc (d + 1) * misses online ≤ (d + 1) * ((h + d) * (i + 1) + P.card) := Nat.mul_le_mul_left _ hle
      _ ≤ (d + 1) * ((h + d) * (i + 1)) + (h + d) * ((P \ X₀).card + h) := by
        rw [mul_add]
        apply Nat.add_le_add_left
        exact Nat.mul_le_mul (by omega) hP
      _ = (h + d) * (h + d + 1 + i * (d + 1) + (P \ X₀).card) := by ring
      _ ≤ _ := Nat.mul_le_mul_left _ hmissed

end CacheSim.Paging
