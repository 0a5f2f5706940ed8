import BaselineTier.Event
import BaselineTier.Statistics

/-! # The code cache

Compiled code by function, under a budget of bytes.  The entries form a recency
list: inserting and finding code make it the most recent, and when room is needed
the least recent entries leave first.  Code larger than the whole budget is
admitted and then stands alone.

The total size is kept up to date by each operation rather than summed anew.
-/

set_option autoImplicit false

namespace BaselineTier

/-- The code of a function in the cache. -/
structure CacheEntry where
  id : FunctionId
  object : CodeObject
  deriving DecidableEq

namespace CacheEntry

/-- The size of the entry's code in bytes. -/
def size (e : CacheEntry) : Nat :=
  e.object.size

/-- What the eviction of the entry reports. -/
def evictionEvent (e : CacheEntry) : Event :=
  .evicted e.id e.size

end CacheEntry

/-- What a cache counted. -/
structure CacheStats where
  hits : Nat := 0
  misses : Nat := 0
  insertions : Nat := 0
  evictions : Nat := 0
  deriving DecidableEq

/-- A recency list of compiled code under a budget. -/
structure Cache where
  /-- The bytes the entries may have together. -/
  budget : Nat
  /-- The entries, most recent first. -/
  entries : List CacheEntry := []
  /-- The bytes the entries have together. -/
  totalSize : Nat := 0
  stats : CacheStats := {}
  deriving DecidableEq

namespace Cache

/-! ## Questions -/

/-- The code of a function, leaving recency and counts alone. -/
def peek? (c : Cache) (id : FunctionId) : Option CodeObject :=
  (c.entries.find? (·.id = id)).map (·.object)

/-- Whether a function has code here. -/
def contains (c : Cache) (id : FunctionId) : Bool :=
  (c.peek? id).isSome

/-- Whether this very object is the code of a function. -/
def isInstalled (c : Cache) (id : FunctionId) (object : CodeObject) : Bool :=
  (c.peek? id).any (·.stamp = object.stamp)

/-- The functions, most recent first. -/
def recency (c : Cache) : List FunctionId :=
  c.entries.map (·.id)

/-- The number of functions. -/
def count (c : Cache) : Nat :=
  c.entries.length

/-- Whether the cache holds no code. -/
def isEmpty (c : Cache) : Bool :=
  c.entries.isEmpty

/-- The share of lookups that found code. -/
def hitRate (c : Cache) : Except Fault Binary64 :=
  Statistics.hitRate c.stats.hits c.stats.misses

/-! ## Operations -/

/-- Looks for the code of a function and makes it the most recent. -/
def lookup (c : Cache) (id : FunctionId) : Cache × Option CodeObject :=
  match c.peek? id with
  | some object =>
    let others := c.entries.filter (·.id ≠ id)
    ({ c with
        entries := ⟨id, object⟩ :: others
        stats := { c.stats with hits := c.stats.hits + 1 } }, some object)
  | none => ({ c with stats := { c.stats with misses := c.stats.misses + 1 } }, none)

/-- Removes the code of a function. -/
def remove (c : Cache) (id : FunctionId) : Cache × Option CodeObject :=
  match c.peek? id with
  | some object =>
    ({ c with
        entries := c.entries.filter (·.id ≠ id)
        totalSize := c.totalSize - object.size }, some object)
  | none => (c, none)

/-- The outcome of making room. -/
structure Shed where
  /-- The entries that leave, oldest first. -/
  victims : List CacheEntry
  /-- The entries that stay, oldest first. -/
  kept : List CacheEntry
  /-- The total size of what stays. -/
  totalSize : Nat

/-- Lets entries leave, oldest first, until `needed` more bytes fit the budget or
none is left. -/
def shed (budget needed : Nat) : Nat → List CacheEntry → Shed
  | total, [] => ⟨[], [], total⟩
  | total, oldest :: rest =>
    if budget < total + needed then
      let further := shed budget needed (total - oldest.size) rest
      { further with victims := oldest :: further.victims }
    else
      ⟨[], oldest :: rest, total⟩

/-- Makes an object the code of a function, as the most recent entry.  Code the
function had before is dropped; the entries evicted to make room are returned,
oldest first. -/
def insert (c : Cache) (id : FunctionId) (object : CodeObject) : Cache × List CacheEntry :=
  let others := (c.remove id).1
  let room := shed c.budget object.size others.totalSize others.entries.reverse
  ({ others with
      entries := ⟨id, object⟩ :: room.kept.reverse
      totalSize := room.totalSize + object.size
      stats :=
        { others.stats with
          insertions := others.stats.insertions + 1
          evictions := others.stats.evictions + room.victims.length } }, room.victims)

/-- Evicts the least recent entry. -/
def evict (c : Cache) : Cache × Option CacheEntry :=
  match c.entries.getLast? with
  | some oldest =>
    ({ c with
        entries := c.entries.dropLast
        totalSize := c.totalSize - oldest.size
        stats := { c.stats with evictions := c.stats.evictions + 1 } }, some oldest)
  | none => (c, none)

/-- Removes all code; the counts stay. -/
def clear (c : Cache) : Cache :=
  { c with entries := [], totalSize := 0 }

end Cache

end BaselineTier
