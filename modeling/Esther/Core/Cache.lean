import Esther.Core.Structures
import Esther.Lib.Cells

/-!
# The Cache

`cache.c`: the cache of the memory server.

The cache is a block of memory cut into slots of one page each, and a list of entries
that say which page of which process is in which slot. An entry keeps its slot for
good. What changes is its label and its place in the list: reading an entry moves it
to the end, so that the entry to be replaced is the first.

The pointer `page` of an entry is its offset in `content`. The functions that
dereference the result of a list operation stop where that result is `NULL`.

## Main definitions

* `CacheEntry`, `Cache`: An entry, and the variable `cache`.
* `cacheCreate`: The cache when the server starts.
* `cacheWrite`, `cacheRead`, `cacheFlush`: The operations on it.
* `CacheOp`, `CacheOp.step`: A call of one of these.
-/

namespace Esther

namespace Memoria

open Cells

/-- `cache_entry_t`. -/
@[ext] structure CacheEntry where
  pid : Int
  pageno : Int
  page : Int
deriving DecidableEq, Repr

/-- The variable `cache`. -/
@[ext] structure Cache where
  enabled : Bool
  mepp : Int
  sEntry : Nat
  content : Buf
  entries : List CacheEntry

/-- The offsets of the slots in `content`. -/
def slots (nEntries sEntry : Nat) : List Int :=
  (List.range nEntries).map fun i => ((i * sEntry : Nat) : Int)

/-- `cache_create`, where `alloc` has returned `block`. The list counts its elements in
    an `int`, which more entries would overflow. -/
def cacheCreate (block : Buf) (nEntries sEntry maxPerProg : Nat) : Option Cache :=
  if nEntries = 0 then
    some { enabled := false, mepp := 0, sEntry := 0, content := block, entries := [] }
  else if 2 ^ 31 ≤ nEntries then none
  else some {
    enabled := true
    mepp := toInt maxPerProg
    sEntry := sEntry
    content := block
    entries := (slots nEntries sEntry).map fun page => { pid := -1, pageno := -1, page := page } }

/-- What `cache_write` does to the entry it has chosen. -/
def fillEntry (cache : Cache) (i : Nat) (pid pageno : Int) (page : Buf) : Option Cache :=
  match cache.entries[i]? with
  | none => none
  | some entry => some { cache with
      content := copy cache.content page entry.page 0 cache.sEntry
      entries := cache.entries.set i { entry with pid := pid, pageno := pageno } }

/-- `cache_write`: the cache afterwards, and the result. The first entry with `pageno`
    among those with `pid` is the first one with both. -/
def cacheWrite (cache : Cache) (pid pageno : Int) (page : Buf) : Option (Cache × Bool) :=
  if !cache.enabled then some (cache, false)
  else
    let epp := (cache.entries.filter fun entry => entry.pid == pid).length
    match cache.entries.findIdx? fun entry => entry.pid == pid && entry.pageno == pageno with
    | some i => (fillEntry cache i pid pageno page).map fun cache => (cache, true)
    | none =>
        -- The process has as many entries as it may have.
        if (epp : Int) = cache.mepp then some (cache, false)
        else match cache.entries.findIdx? fun entry => entry.pid == -1 with
          | some i => (fillEntry cache i pid pageno page).map fun cache => (cache, true)
          -- No entry is empty: the least recently used one is replaced.
          | none => (fillEntry cache 0 pid pageno page).map fun cache => (cache, true)

/-- The iterator of `cache_read`, which does not stop at the first entry: `index` after
    the entries from `i` on. -/
def readIndex (pid pageno : Int) : List CacheEntry → Nat → Option Nat → Option Nat
  | [], _, index => index
  | entry :: entries, i, index =>
      readIndex pid pageno entries (i + 1)
        (if entry.pid == pid && entry.pageno == pageno then some i else index)

/-- `cache_read`: the cache afterwards, and the pointer returned. -/
def cacheRead (cache : Cache) (pid pageno : Int) : Cache × Option Int :=
  if !cache.enabled then (cache, none)
  else match readIndex pid pageno cache.entries 0 none with
    | none => (cache, none)
    | some index => match cache.entries[index]? with
      | none => (cache, none)
      | some entry =>
          -- The entry goes to the end, so that the first one is the least recently used.
          ({ cache with entries := cache.entries.eraseIdx index ++ [entry] }, some entry.page)

/-- `cache_flush`. -/
def cacheFlush (cache : Cache) : Cache :=
  if !cache.enabled then cache
  else { cache with
    entries := cache.entries.map fun entry => { entry with pid := -1, pageno := -1 } }

/-- A call of one of the three functions. Pages are written for processes, and the
    processes of the system have no negative `pid`. -/
inductive CacheOp
  | write (pid : Nat) (pageno : Int) (page : Buf)
  | read (pid pageno : Int)
  | flush

def CacheOp.step (cache : Cache) : CacheOp → Option Cache
  | .write pid pageno page => (cacheWrite cache pid pageno page).map Prod.fst
  | .read pid pageno => some (cacheRead cache pid pageno).1
  | .flush => some (cacheFlush cache)

end Memoria

end Esther
