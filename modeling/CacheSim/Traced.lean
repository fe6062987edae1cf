import CacheSim.Hierarchy

namespace CacheSim

open Service

variable {ε σ τ μ : Type} {ρ : ℕ → ℕ → Type} {geo : Geometry}

section

variable [ReplacementPolicy ε ρ] [MemoryLevel ε σ] [MemoryLevel ε τ]

theorem Cache.hit_commutes {f : σ → τ} (hf : Commutes ε f) (c : Cache ρ geo) (next : σ) (e : ε)
    (addr : UInt64) (isWrite : Bool) (w : Fin geo.ways) :
    c.hit (f next) e addr isWrite w =
      (((c.hit next e addr isWrite w).1.1, f (c.hit next e addr isWrite w).1.2),
        (c.hit next e addr isWrite w).2) := by
  simp only [Cache.hit, MemoryLevel.access, hf.apply]
  split_ifs <;> rfl

omit [ReplacementPolicy ε ρ] in
theorem Cache.writeBack_commutes {f : σ → τ} (hf : Commutes ε f) (c : Cache ρ geo) (next : σ) (e : ε)
    (setIndex : UInt64) (set : Fin geo.sets) (w : Fin geo.ways) :
    c.writeBack (f next) e setIndex set w =
      (((c.writeBack next e setIndex set w).1.1, f (c.writeBack next e setIndex set w).1.2),
        (c.writeBack next e setIndex set w).2) := by
  simp only [Cache.writeBack, MemoryLevel.access, hf.apply]
  split_ifs <;> rfl

omit [ReplacementPolicy ε ρ] in
theorem Cache.install_commutes {f : σ → τ} (hf : Commutes ε f) (c : Cache ρ geo) (next : σ) (e : ε)
    (addr : UInt64) (isWrite : Bool) (w : Fin geo.ways) :
    c.install (f next) e addr isWrite w =
      (((c.install next e addr isWrite w).1.1, f (c.install next e addr isWrite w).1.2),
        (c.install next e addr isWrite w).2) := by
  simp only [Cache.install, MemoryLevel.access, hf.apply]
  split_ifs <;> rfl

theorem Cache.allocate_commutes {f : σ → τ} (hf : Commutes ε f) (c : Cache ρ geo) (next : σ) (e : ε)
    (addr : UInt64) (isWrite : Bool) :
    c.allocate (f next) e addr isWrite =
      (((c.allocate next e addr isWrite).1.1, f (c.allocate next e addr isWrite).1.2),
        (c.allocate next e addr isWrite).2) := by
  simp only [Cache.allocate, MemoryLevel.access, hf.apply, writeBack_commutes hf, install_commutes hf]

theorem Cache.commutes {f : σ → τ} (hf : Commutes ε f) :
    Commutes ε (fun s : Cache ρ geo × σ => (s.1, f s.2)) := by
  rintro ⟨c, next⟩ e ⟨addr, isWrite⟩
  change c.access (f next) e addr isWrite = ((c.access next e addr isWrite).1,
    ((c.access next e addr isWrite).2.1.1, f (c.access next e addr isWrite).2.1.2),
    (c.access next e addr isWrite).2.2)
  unfold Cache.access
  dsimp only
  split
  · rw [hit_commutes hf]
  · split_ifs
    · simp only [MemoryLevel.access, hf.apply]
    · rw [allocate_commutes hf]

end

def Traced (ρ : ℕ → ℕ → Type) (μ : Type) : List Geometry → Type
  | [] => Logged μ Request Bool
  | geo :: geos => Logged (Cache ρ geo × Traced ρ μ geos) Request Bool

namespace Traced

instance level [ReplacementPolicy ε ρ] [MemoryLevel ε μ] :
    (geos : List Geometry) → MemoryLevel ε (Traced ρ μ geos)
  | [] => inferInstanceAs (MemoryLevel ε (Logged μ Request Bool))
  | geo :: geos =>
    letI := level geos
    inferInstanceAs (MemoryLevel ε (Logged (Cache ρ geo × Traced ρ μ geos) Request Bool))

def fresh (order : HashOrder UInt64 ℕ) (make : Chain.Policies ρ) (mem : μ) :
    (geos : List Geometry) → Traced ρ μ geos
  | [] => ({ state := mem } : Logged μ Request Bool)
  | geo :: geos =>
    ({ state := (Cache.fresh order (make geos.length geo), fresh order make mem geos) } :
      Logged (Cache ρ geo × Traced ρ μ geos) Request Bool)

def erase : {geos : List Geometry} → Traced ρ μ geos → Chain ρ μ geos
  | [], t => t.state
  | _ :: _, t => (t.state.1, erase t.state.2)

def log : {geos : List Geometry} → Traced ρ μ geos → List (Request × Bool)
  | [], t => Logged.log t
  | _ :: _, t => Logged.log t

def memoryLog : {geos : List Geometry} → Traced ρ μ geos → List (Request × Bool)
  | [], t => Logged.log t
  | _ :: _, t => memoryLog t.state.2

theorem erase_fresh (order : HashOrder UInt64 ℕ) (make : Chain.Policies ρ) (mem : μ)
    (geos : List Geometry) : (fresh order make mem geos).erase = Chain.fresh order make mem geos := by
  induction geos with
  | nil => rfl
  | cons geo geos ih => exact Prod.ext rfl ih

theorem erase_commutes [ReplacementPolicy ε ρ] [MemoryLevel ε μ] (geos : List Geometry) :
    Commutes ε (erase : Traced ρ μ geos → Chain ρ μ geos) := by
  induction geos with
  | nil => exact fun t e r => rfl
  | cons geo geos ih => exact fun t e r => Cache.commutes ih t.state e r

theorem erase_run [ReplacementPolicy ε ρ] [MemoryLevel ε μ] (order : HashOrder UInt64 ℕ)
    (make : Chain.Policies ρ) (mem : μ) (geos : List Geometry) (e : ε) (reqs : List Request) :
    (run (fresh order make mem geos) e reqs).2.1.erase =
      (run (Chain.fresh order make mem geos) e reqs).2.1 := by
  rw [← erase_fresh, (erase_commutes geos).run]

end Traced

end CacheSim
