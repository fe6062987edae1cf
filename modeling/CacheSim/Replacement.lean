import CacheSim.Config
import CacheSim.Stamps

namespace CacheSim

open Stamps

/-- The strategy interface for `S` sets of `A` ways. A hook may change the policy and the
process-wide environment; its answer to `getVictim` is a way of the set. -/
class ReplacementPolicy (ε : Type) (ρ : ℕ → ℕ → Type) where
  onAccess {S A : ℕ} : ρ S A → ε → Fin S → Fin A → ρ S A × ε
  onInsert {S A : ℕ} : ρ S A → ε → Fin S → Fin A → ρ S A × ε
  getVictim {S A : ℕ} [NeZero A] : ρ S A → ε → Fin S → Fin A × ρ S A × ε

/-- The results of `std::rand()`, one process-wide stream. -/
abbrev RandStream := ℕ → ℕ

def RandStream.zeros : RandStream := fun _ => 0

def rand (g : RandStream) : ℕ × RandStream := (g 0, fun i => g (i + 1))

def stampAt {S A : ℕ} (table : Fin S → Fin A → ℕ) (set : Fin S) (way : Fin A) (n : ℕ) :
    Fin S → Fin A → ℕ :=
  Function.update table set (Function.update (table set) way n)

structure LRUPolicy (S A : ℕ) where
  lastUsed : Fin S → Fin A → ℕ := fun _ _ => 0
  clock : ℕ := 0

namespace LRUPolicy

variable {S A : ℕ}

def onAccess (p : LRUPolicy S A) (set : Fin S) (way : Fin A) : LRUPolicy S A :=
  { lastUsed := stampAt p.lastUsed set way (p.clock + 1), clock := p.clock + 1 }

def onInsert (p : LRUPolicy S A) (set : Fin S) (way : Fin A) : LRUPolicy S A :=
  { lastUsed := stampAt p.lastUsed set way (p.clock + 1), clock := p.clock + 1 }

def getVictim [NeZero A] (p : LRUPolicy S A) (set : Fin S) : Fin A :=
  scanMinTop (p.lastUsed set) 0 (List.finRange A)

end LRUPolicy

structure FIFOPolicy (S A : ℕ) where
  insertTime : Fin S → Fin A → ℕ := fun _ _ => 0
  clock : ℕ := 0

namespace FIFOPolicy

variable {S A : ℕ}

def onAccess (p : FIFOPolicy S A) (_ : Fin S) (_ : Fin A) : FIFOPolicy S A := p

def onInsert (p : FIFOPolicy S A) (set : Fin S) (way : Fin A) : FIFOPolicy S A :=
  { insertTime := stampAt p.insertTime set way (p.clock + 1), clock := p.clock + 1 }

def getVictim [NeZero A] (p : FIFOPolicy S A) (set : Fin S) : Fin A :=
  scanMinTop (p.insertTime set) 0 (List.finRange A)

end FIFOPolicy

inductive BuiltinPolicy (S A : ℕ) where
  | lru (p : LRUPolicy S A)
  | fifo (p : FIFOPolicy S A)
  | random

def RandomPolicy.getVictim {A : ℕ} [NeZero A] (g : RandStream) : Fin A × RandStream :=
  let r := rand g
  (Fin.ofNat A r.1, r.2)

instance : ReplacementPolicy RandStream BuiltinPolicy where
  onAccess p g set way :=
    match p with
    | .lru p => (.lru (p.onAccess set way), g)
    | .fifo p => (.fifo (p.onAccess set way), g)
    | .random => (.random, g)
  onInsert p g set way :=
    match p with
    | .lru p => (.lru (p.onInsert set way), g)
    | .fifo p => (.fifo (p.onInsert set way), g)
    | .random => (.random, g)
  getVictim p g set :=
    match p with
    | .lru p => (p.getVictim set, .lru p, g)
    | .fifo p => (p.getVictim set, .fifo p, g)
    | .random =>
      let r := RandomPolicy.getVictim g
      (r.1, .random, r.2)

def makeReplacement (t : ReplacementType) (numSets assoc : ℕ) : BuiltinPolicy numSets assoc :=
  match t with
  | .LRU => .lru {}
  | .FIFO => .fifo {}
  | .Random => .random

def replName : ReplacementType → String
  | .LRU => "LRU"
  | .FIFO => "FIFO"
  | .Random => "Random"

end CacheSim
