import Gergios.Vm.Region

/-!
# Physical pages

The map of free pages, the stack of pages freed last, the position of the last search and the pages
of the file cache, on a machine with 64-bit addresses: `phys_bytes` has 64 bits, `phys_clicks` and
`int` have 32.
-/

namespace Gergios.Vm

def numberPhysicalPages : Nat := 2 ^ 20

def bitchunkBits : Nat := 32

def pageCacheMax : Nat := 10000

/-- `NO_MEM`, the sentinel of `phys_clicks`. -/
def noMem : Nat := 0xFFFFFFFE

structure AllocFlags where
  clear : Bool
  align64k : Bool
  align16k : Bool
  lower16mb : Bool
  lower1mb : Bool

structure CachedPage where
  page : Nat
  refcount : Nat
  refcount_pos : 1 ≤ refcount

structure Pages where
  free : Nat → Bool
  /-- `free_page_cache`, the page freed last first. -/
  freePageCache : List Nat
  lastscan : Int
  lru : List CachedPage

/-- A number as an `int`. -/
def toInt32 (x : Nat) : Int :=
  if x % 2 ^ 32 < 2 ^ 31 then (x % 2 ^ 32 : Nat) else (x % 2 ^ 32 : Nat) - 2 ^ 32

/-! ### The search -/

/-- The chunk at or below `c` that is not empty, or chunk 0. -/
def chunkSkip (free : Nat → Bool) : Nat → Nat
  | 0 => 0
  | c + 1 =>
    if (List.range bitchunkBits).all fun k => !free ((c + 1) * bitchunkBits + k) then
      chunkSkip free c
    else c + 1

/-- The loop of `findbit` with `n` pages left and the `runLength` pages above them free. A run found
starts at the page that completes it. -/
def findbitLoop (free : Nat → Bool) (pages : Int) : Nat → Nat → Nat → Except Stop (Option Nat)
  | fuel + 1, i + 1, runLength =>
    if free i then
      if (runLength + 1 : Int) > pages then .error .assertion
      else if (runLength + 1 : Int) = pages then .ok (some i)
      else findbitLoop free pages fuel i (runLength + 1)
    else
      let chunk := chunkSkip free (i / bitchunkBits)
      if chunk = i / bitchunkBits then findbitLoop free pages fuel i 0
      else findbitLoop free pages fuel (chunk * bitchunkBits + bitchunkBits) 0
  | _, _, _ => .ok none

/-- `findbit` as its caller sees it: the `int` it returns is extended to `phys_bytes`, and `NO_MEM`
is then another number. -/
def findbit (free : Nat → Bool) (startscan : Nat) (pages : Int) : Except Stop Nat :=
  match findbitLoop free pages (startscan + 1) (startscan + 1) 0 with
  | .error e => .error e
  | .ok (some m) => .ok m
  | .ok none => .ok (addressLimit - 2)

/-! ### Allocating -/

section Code

-- the answers of `sys_memset` for an address and a length
variable (memsetOk : Nat → Nat → Bool)

def popFree (free : Nat → Bool) : List Nat → Option Nat × List Nat
  | [] => (none, [])
  | i :: rest => if free i then (some i, rest) else popFree free rest

def maxpage (flags : AllocFlags) : Nat :=
  if flags.lower16mb then 16 * 1024 * 1024 / pageSize - 1
  else if flags.lower1mb then 1024 * 1024 / pageSize - 1
  else numberPhysicalPages - 1

def startscan (flags : AllocFlags) (lastscan : Int) : Nat :=
  if lastscan < maxpage flags ∧ 0 ≤ lastscan then lastscan.toNat else maxpage flags

variable (pages : Int)

section

variable (flags : AllocFlags)

def popCached (s : Pages) : Option Nat × List Nat :=
  if flags.lower16mb ∨ flags.lower1mb ∨ pages ≠ 1 then (none, s.freePageCache)
  else popFree s.free s.freePageCache

/-- The page that `alloc_pages` takes, before it marks it. -/
def searchPages (s : Pages) : Except Stop (Nat × List Nat) :=
  let popped := popCached pages flags s
  match popped.1 with
  | some i => .ok (i, popped.2)
  | none =>
    match findbit s.free (startscan flags s.lastscan) pages with
    | .error e => .error e
    | .ok mem =>
      if mem = noMem then (findbit s.free (maxpage flags) pages).map (·, popped.2)
      else .ok (mem, popped.2)

/-- `VM_PAGE_SIZE*pages`, the number of bytes to clear, does not fit in an `int`. -/
def ClearOverflows : Prop :=
  flags.clear = true ∧ ¬(-2 ^ 31 ≤ pageSize * pages ∧ pageSize * pages < 2 ^ 31)

instance : Decidable (ClearOverflows pages flags) := inferInstanceAs (Decidable (_ ∧ _))

/-- The pages from `mem` up to `mem + pages` in 64 bits are marked as used. -/
def allocPages (s : Pages) : Except Stop (Nat × Pages) :=
  match searchPages pages flags s with
  | .error e => .error e
  | .ok (mem, cache) =>
    if mem = noMem then .ok (noMem, { s with freePageCache := cache })
    else
      let limit := ((mem + pages) % (addressLimit : Int)).toNat
      if numberPhysicalPages ≤ mem ∧ mem < limit then .error .stray
      else if ClearOverflows pages flags then .error .overflow
      else if flags.clear ∧ memsetOk (wrap (pageSize * mem))
          ((pageSize * pages) % (addressLimit : Int)).toNat = false then .error .panic
      else .ok (mem, { s with
        free := fun i => s.free i && !(decide (mem ≤ i) && decide (i < limit))
        freePageCache := cache
        lastscan := toInt32 mem })

end

def pushFreed (cache : List Nat) (i : Nat) : List Nat :=
  if cache.length < pageCacheMax then i :: cache else cache

def freeMem (base clicks : Nat) (s : Pages) : Pages :=
  { s with
    free := fun i => s.free i || (decide (base ≤ i) && decide (i < base + clicks))
    freePageCache := ((List.range clicks).map (base + ·)).foldl pushFreed s.freePageCache }

def cacheScan (pages : Int) : Nat → List CachedPage → List CachedPage × List CachedPage
  | _, [] => ([], [])
  | freed, cp :: rest =>
    if (freed : Int) < pages then
      if cp.refcount = 1 then
        let r := cacheScan pages (freed + 1) rest
        (cp :: r.1, r.2)
      else
        let r := cacheScan pages freed rest
        (r.1, cp :: r.2)
    else ([], cp :: rest)

def cacheFreepages (s : Pages) : Nat × Pages :=
  let r := cacheScan pages 0 s.lru
  (r.1.length, r.1.foldl (fun s cp => freeMem cp.page 1 s) { s with lru := r.2 })

def allocLoop (clicks : Nat) (flags : AllocFlags) (rounds : Nat) (s : Pages) :
    Except Stop (Nat × Pages) :=
  match allocPages memsetOk (toInt32 clicks) flags s with
  | .error e => .error e
  | .ok (mem, s1) =>
    if mem % 2 ^ 32 = noMem then
      let evicted := cacheFreepages (toInt32 clicks) s1
      match rounds with
      | rounds + 1 =>
        if evicted.1 > 0 then allocLoop clicks flags rounds evicted.2 else .ok (noMem, evicted.2)
      | 0 => .ok (noMem, evicted.2)
    else .ok (mem % 2 ^ 32, s1)

def alignClicks (flags : AllocFlags) : Nat :=
  if flags.align64k then 64 * 1024 / pageSize
  else if flags.align16k then 16 * 1024 / pageSize
  else 0

def askedPages (clicks : Nat) (flags : AllocFlags) : Nat := (clicks + alignClicks flags) % 2 ^ 32

def allocMem (clicks : Nat) (flags : AllocFlags) (s : Pages) : Except Stop (Option Nat × Pages) :=
  let align := alignClicks flags
  match allocLoop memsetOk (askedPages clicks flags) flags (s.lru.length + 1) s with
  | .error e => .error e
  | .ok (mem, s1) =>
    if mem = noMem then .ok (none, s1)
    else if 0 < align ∧ 0 < mem % align then
      .ok (some (mem + (align - mem % align)), freeMem mem (align - mem % align) s1)
    else .ok (some mem, s1)

end Code

end Gergios.Vm
