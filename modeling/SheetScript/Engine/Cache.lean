import SheetScript.Digest
import SheetScript.Entries
import SheetScript.Program.Parser

/-!
# The cache of programs

For each script the cache holds the program it was last read as, with the digest of its source. The
same source is not read twice. A full cache drops the programs that have not been asked for the
longest before it takes in a new script.

* `Cache.fetch` gives the program of a source and says how it came by it. A source that is no
  program is not held, and neither is then what the script was before.
-/

namespace SheetScript

/-- A program that the cache holds. -/
structure CachedProgram where
  digest : Digest
  program : Program
  /-- When the source was read. -/
  made : Nat
  /-- When the program was last asked for. -/
  used : Nat
  deriving Inhabited

/-- How the cache came by a program. -/
inductive FetchOutcome where
  /-- The script is held with this source. -/
  | hit
  /-- The script was not held. -/
  | miss
  /-- The script was held with another source. -/
  | replaced
  deriving DecidableEq, Repr, Inhabited

/-- The programs held, by the ids of their scripts. -/
structure Cache where
  /-- How many programs are held at most; any number if `0`. -/
  capacity : Nat
  programs : Entries CachedProgram := []
  /-- How often the cache has been asked. -/
  clock : Nat := 0
  hits : Nat := 0
  misses : Nat := 0
  deriving Inhabited

namespace Cache

/-- How many programs are held. -/
def size (c : Cache) : Nat := c.programs.length

/-- Whether the script is held. -/
def contains (c : Cache) (id : String) : Bool := Entries.contains c.programs id

/-- Drop a script. -/
def invalidate (c : Cache) (id : String) : Cache :=
  { c with programs := Entries.erase c.programs id }

/-- Drop all scripts. -/
def clear (c : Cache) : Cache := { c with programs := [] }

/-- The scripts, those not asked for the longest first. -/
def byAge (c : Cache) : List (String × CachedProgram) :=
  c.programs.mergeSort fun a b => a.2.used ≤ b.2.used

/-- Drop the oldest programs until there is room for one more. -/
def makeRoom (c : Cache) : Cache :=
  if c.capacity == 0 || c.size < c.capacity then c
  else
    let dropped := (c.byAge.take (c.size + 1 - c.capacity)).map Prod.fst
    { c with programs := c.programs.filter fun entry => !dropped.contains entry.1 }

/-- Hold a program. -/
def hold (c : Cache) (id : String) (p : CachedProgram) : Cache :=
  { c with programs := Entries.insert c.programs id p }

/-- Read a source that is not held; `held` says whether the script is held with another one. -/
def read (c : Cache) (id source : String) (digest : Digest) (held : Bool) :
    Except ScriptError (CachedProgram × FetchOutcome) × Cache :=
  let now := c.clock
  let c := { c with clock := now + 1, misses := c.misses + 1 }
  match Program.ofSource? source with
  | .error e => (.error e, if held then c.invalidate id else c)
  | .ok program =>
    let p : CachedProgram := ⟨digest, program, now, now⟩
    let c := if held then c else c.makeRoom
    (.ok (p, if held then .replaced else .miss), c.hold id p)

/-- The program of a script with this source. -/
def fetch (c : Cache) (id source : String) :
    Except ScriptError (CachedProgram × FetchOutcome) × Cache :=
  let digest := sha256 source
  match Entries.find? c.programs id with
  | none => c.read id source digest false
  | some p =>
    if p.digest == digest then
      let p := { p with used := c.clock }
      (.ok (p, .hit), { c with clock := c.clock + 1, hits := c.hits + 1 }.hold id p)
    else c.read id source digest true

end Cache

end SheetScript
