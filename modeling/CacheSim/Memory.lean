import CacheSim.Config
import CacheSim.Service

namespace CacheSim

abbrev MemoryLevel (ε σ : Type) := Service ε σ Request Bool

namespace MemoryLevel

variable {ε σ : Type} [MemoryLevel ε σ]

def access (level : σ) (e : ε) (addr : UInt64) (isWrite : Bool) : Bool × σ × ε :=
  Service.serve level e ⟨addr, isWrite⟩

end MemoryLevel

structure Memory where
  reads : ℕ := 0
  writes : ℕ := 0
  deriving DecidableEq, Repr

def Memory.access (m : Memory) (_addr : UInt64) (isWrite : Bool) : Bool × Memory :=
  (true, if isWrite then { m with writes := m.writes + 1 } else { m with reads := m.reads + 1 })

instance {ε : Type} : MemoryLevel ε Memory where
  serve m e r :=
    let (hit, m) := m.access r.addr r.isWrite
    (hit, m, e)

end CacheSim
