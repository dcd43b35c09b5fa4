import Interlock.Script.Collections

/-!
# Steps on ranked locks

Steps on ranked locks, guards, handles and registries that run no callback. All but the blocking ones are
done at once.
-/

namespace Interlock.Script

open Scene

def violated (v : Violation) : Result := .fault (.hierarchyViolated v)

def hierarchyResult : Hierarchy.Answer Datum → Result
  | .done => .ok
  | .violated v => violated v
  | .exhausted f => exhausted f
  | .panicked message => .panicked message
  | .flag b => .flag b
  | .count n => .count n
  | .bound _ => .ok
  | .value v => .option v
  | .visited _ => .ok

def askHierarchy (t : ThreadId) (r : Hierarchy.Request Datum) : Act Result := do
  match ← answer t (.hierarchy r) with
  | some (.hierarchy a) => pure (hierarchyResult a)
  | _ => pure .impossible

def look (f : Hierarchy Datum → Result) : Act Result := .query fun s => f s.world.hierarchy

def elementResult (h : Hierarchy Datum) (l : LockId) : Result :=
  match h.element? l with
  | some v => .value v
  | none => .impossible

/-- The result of a deed; `ifSo` and `ifNot` are the results of one that may come to either. -/
def doDeed (t : ThreadId) (d : Hierarchy.Deed) (ifSo ifNot : Result) : Act Result := do
  match ← deed t d with
  | some .done => pure .ok
  | some (.flag b) => pure (if b then ifSo else ifNot)
  | some (.violated v) => pure (violated v)
  | none => pure .impossible

def LockStep.run (t : ThreadId) : LockStep → Act Result
  | .ceiling => pure .ok
  | .new target r v => do
    create .lock target (·.addLock r v)
    pure .ok
  | .rank on => withName .lock on fun l => look fun h => .count (h.rank l)
  | .inspect on => withName .lock on fun l => look fun h => .text (h.inspectLock l)
  | .lock on slot => withName .lock on fun l => askHierarchy t (.lock l (.guard slot))
  | .tryLock on slot => withName .lock on fun l => doDeed t (.tryLock l (.guard slot)) .ok .busy
  | .consume on => withName .lock on fun l => do
    if ← Client.query (·.isShared l) then pure .impossible
    else
      forget .lock on
      look fun h => elementResult h l

def withGuard (t : ThreadId) (slot : String) (f : Hierarchy.Guard → Act Result) : Act Result := do
  match (← hierarchy).slot? t slot with
  | some (.guard g) => f g
  | _ => pure .impossible

def GuardStep.run (t : ThreadId) : GuardStep → Act Result
  | .rank slot => withGuard t slot fun g => look fun h => .count (h.rank g.lock)
  | .read slot => withGuard t slot fun g => look fun h => elementResult h g.lock
  | .inspect slot => withGuard t slot fun g => look fun h => .text (h.inspectGuard g)
  | .unlock slot discard => do
    match ← deed t (.unlock slot) with
    | some (.violated v) =>
      if discard then askHierarchy t (.drop [slot] none)
      else do
        let _ ← deed t (.recover slot)
        withGuard t slot fun g => look fun h => .refused v (h.inspectRefused v g)
    | some _ => pure .ok
    | none => pure .impossible

def withHandle (t : ThreadId) (slot : String) (f : Hierarchy.Handle → Act Result) : Act Result := do
  match (← hierarchy).slot? t slot with
  | some (.handle k) => f k
  | _ => pure .impossible

def HandleStep.run (t : ThreadId) : HandleStep → Act Result
  | .deferred on slot => withName .lock on fun l => doDeed t (.defer l slot) .ok .ok
  | .acquire on slot => withName .lock on fun l => askHierarchy t (.lock l (.newHandle slot))
  | .adopt slot target => doDeed t (.adopt slot target) .ok .ok
  | .detach slot target => doDeed t (.detach slot target) (.text "some") (.text "none")
  | .state slot => withHandle t slot fun k => pure (.state k.state k.guard.isSome)
  | .rank slot => withHandle t slot fun k => look fun h => .count (h.rank k.lock)
  | .lock slot => withHandle t slot fun k => askHierarchy t (.lock k.lock (.handle slot))
  | .tryLock slot => withHandle t slot fun k =>
    doDeed t (.tryLock k.lock (.handle slot)) (.flag true) (.flag false)
  | .unlock slot => doDeed t (.unlockHandle slot) .ok .ok
  | .get slot => withHandle t slot fun k =>
    match k.guard with
    | none => pure .none
    | some g => look fun h => .option (h.element? g.lock)
  | .inspect slot => withHandle t slot fun k => look fun h => .text (h.inspectHandle k)

def makeRegistry (target : String) (ranks : RegistryRanks) : Act Result :=
  match ranks.validate with
  | .error f => pure (.fault (.invalidConfig f))
  | .ok () => do
    create .registry target (·.addRegistry ranks.directory ranks.entry)
    pure .ok

def askRegistry (t : ThreadId) (name : String) (i : Hierarchy.Inquiry Datum) : Act Result :=
  withName .registry name fun r => askHierarchy t (.registry r i)

/-- An inquiry after the lock of an entry, which gets a name if there is one. -/
def entryOf (t : ThreadId) (name : String) (target : Option String) (i : Hierarchy.Inquiry Datum) :
    Act Result :=
  withName .registry name fun r => do
    match ← answer t (.hierarchy (.registry r i)) with
    | some (.hierarchy (.bound (some l))) => do
      if let some target := target then bind .lock target l
      look fun h => .rank (some (h.rank l))
    | some (.hierarchy (.bound none)) => pure (.rank none)
    | some (.hierarchy a) => pure (hierarchyResult a)
    | _ => pure .impossible

def withRegistry (name : String) (f : Hierarchy Datum → Hierarchy.Registry → Result) : Act Result :=
  withName .registry name fun r => look fun h =>
    match h.registries[r]? with
    | some k => f h k
    | none => .impossible

def RegistryStep.run (t : ThreadId) : RegistryStep → Act Result
  | .new target => do
    let defaults : RegistryRanks := {}
    create .registry target (·.addRegistry defaults.directory defaults.entry)
    pure .ok
  | .withRanks target table => makeRegistry target table
  | .fromConfig target c =>
    match c.read with
    | .error f => pure (.fault f)
    | .ok c => makeRegistry target c.ranks
  | .insert on name v => askRegistry t on (.insert name v)
  | .get on name => askRegistry t on (.get name)
  | .contains on name => askRegistry t on (.contains name)
  | .len on => askRegistry t on .len
  | .isEmpty on => askRegistry t on .isEmpty
  | .ranks on => withRegistry on fun h k => .ranks ⟨h.rank k.directory, k.entryRank⟩
  | .inspect on => withRegistry on fun h k => .text (h.inspectRegistry k)
  | .entry on name target => entryOf t on target (.entry name)
  | .remove on name target => entryOf t on target (.remove name)

def withCeiling (t : ThreadId) (r : Act Result) : Act Result := do
  let r ← r
  look fun h => .ranked r (h.ceiling t)

def RankedStep.run (t : ThreadId) (s : RankedStep) : Act Result :=
  withCeiling t (match s with
    | .lock s => s.run t
    | .guard s => s.run t
    | .handle s => s.run t
    | .registry s => s.run t
    | .drop slots panic => askHierarchy t (.drop slots panic))

end Interlock.Script
