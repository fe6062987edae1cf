import Mathlib

namespace CacheSim

inductive ReplacementType where
  | LRU | FIFO | Random
  deriving DecidableEq, Repr

inductive WritePolicy where
  | WriteBack | WriteThrough
  deriving DecidableEq, Repr

inductive AllocPolicy where
  | WriteAllocate | NoWriteAllocate
  deriving DecidableEq, Repr

structure CacheConfig where
  name : String := "L1"
  sizeBytes : UInt64 := 0
  blockSize : UInt64 := 0
  associativity : UInt64 := 1
  replacement : ReplacementType := .LRU
  writePolicy : WritePolicy := .WriteBack
  allocPolicy : AllocPolicy := .WriteAllocate
  hitTime : ℚ := 1
  addrWidth : UInt64 := 64
  classify3C : Bool := false
  deriving DecidableEq

structure Stats where
  accesses : ℕ := 0
  hits : ℕ := 0
  misses : ℕ := 0
  reads : ℕ := 0
  writes : ℕ := 0
  writebacks : ℕ := 0
  compulsory : ℕ := 0
  capacity : ℕ := 0
  conflict : ℕ := 0
  deriving DecidableEq, Repr

def Stats.missRate (s : Stats) : ℚ := if s.accesses = 0 then 0 else s.misses / s.accesses

def Stats.hitRate (s : Stats) : ℚ := if s.accesses = 0 then 0 else s.hits / s.accesses

structure Request where
  addr : UInt64
  isWrite : Bool
  deriving DecidableEq, Repr

end CacheSim
