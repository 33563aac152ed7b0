import SheetScript.Cascade.Order
import SheetScript.Cascade.Reach
import SheetScript.Engine.Basic
import SheetScript.Record.Report

/-!
# Recomputing the attributes of a character

An attribute script computes the value of the attribute it is attached to, and subscribes to the
names of the attributes it reads. When attributes change, the scripts that the change reaches run,
each at most once, and a script runs after those that produce what it reads. What a script writes
to other attributes starts another round.

* `Cascade.recomputeAll` runs every script. A first pass, whose writes are dropped, finds out what
  the scripts read.
* `Cascade.attributesChanged` runs what a change reaches, up to a limit of runs.

A script that fails changes nothing and is reported.
-/

namespace SheetScript

/-- What a cascade did. -/
structure CascadeReport where
  /-- The scripts that ran to their end, in the order in which they ran. -/
  recomputed : List String := []
  /-- The names of the attributes that got another value from their scripts. -/
  changed : List String := []
  failures : List ErrorReport := []
  /-- Whether the limit of runs left scripts waiting. -/
  truncated : Bool := false
  deriving DecidableEq, Repr, Inhabited

/-- How many scripts ran. -/
def CascadeReport.runs (r : CascadeReport) : Nat := r.recomputed.length + r.failures.length

/-- What a script that ran to its end did to the sheet. -/
structure Recomputed where
  /-- The name of the attribute it computes. -/
  produced : Option String
  changed : Bool
  /-- The names of the other attributes it wrote. -/
  touched : List String
  deriving DecidableEq, Repr, Inhabited

/-- The attribute scripts of a character. -/
structure Cascade where
  engine : Engine
  sheet : Sheet
  /-- The scripts, by id. -/
  scripts : Entries Script := []
  charts : List Chart := []
  ids : IdSource := {}
  /-- Where the scripts draw from, one after another. -/
  draws : Draws := {}
  deriving Inhabited

namespace Cascade

/-- A cascade without scripts. -/
def new (engine : Engine) (sheet : Sheet) : Cascade := { engine := engine, sheet := sheet }

/-- How many scripts a change may run. -/
def maxRuns (c : Cascade) : Nat := c.engine.config.maxCascadeRuns

/-- Whether a cascade takes a script: it takes those of attributes. -/
def accepts (script : Script) : Bool := script.entityKind == .attr

/-- Add a script, in place of the one that has its id. One that is not accepted is not added. -/
def addScript (c : Cascade) (script : Script) : Cascade :=
  if accepts script then
    { c with
      engine := c.engine.forget script.id
      scripts := Entries.insert c.scripts script.id script }
  else c

/-- Remove a script. -/
def removeScript (c : Cascade) (id : String) : Cascade :=
  { c with engine := c.engine.forget id, scripts := Entries.erase c.scripts id }

/-- Lend a chart to the scripts. -/
def addChart (c : Cascade) (chart : Chart) : Cascade := { c with charts := c.charts ++ [chart] }

/-! ## One script -/

/-- The context in which a script runs. -/
def contextOf (c : Cascade) (script : Script) : Context :=
  let start := (Context.forScript script).withDraws c.draws
  c.charts.foldl Context.addChart ((start.withCharacter c.sheet.characterId).install c.sheet)

/-- Run a script and keep its writes apart. -/
def evaluate (c : Cascade) (script : Script) : RunResult × Entries Json × Cascade :=
  let (result, context, engine) := c.engine.runScript script (c.contextOf script)
  (result, context.writes, { c with engine := engine, draws := context.draws })

/-- The name of the attribute that a script computes. -/
def producedName? (sheet : Sheet) (script : Script) : Option String :=
  script.entityId.bind fun id => (sheet.byId? id).map (·.name)

/-- Store the value of a script in the attribute it computes, if there is one. -/
def storeValue (sheet : Sheet) (script : Script) (value : Json) : Sheet :=
  match script.entityId with
  | some id => sheet.setById id value
  | none => sheet

/-- Whether a value is another than the one that the attribute of a script has. -/
def valueChanges (sheet : Sheet) (script : Script) (value : Json) : Bool :=
  match script.entityId with
  | some id => !((sheet.byId? id).any fun a => a.value == value)
  | none => false

/-- The names of the attributes written, apart from the one that the script computes. -/
def touchedNames (sheet : Sheet) (script : Script) (ids : List String) : List String :=
  (ids.filter fun id => script.entityId != some id).filterMap fun id =>
    (sheet.byId? id).map (·.name)

/-- Bring what a script wrote and computed to the sheet. -/
def settle (sheet : Sheet) (script : Script) (result : RunResult) (writes : Entries Json) :
    Recomputed × Sheet :=
  let sheet := sheet.commit writes
  let value := result.value.toJson
  (⟨producedName? sheet script, valueChanges sheet script value,
    touchedNames sheet script result.effects.modified⟩, storeValue sheet script value)

/-- Run a script: what it did, or the report of its failure. -/
def run (c : Cascade) (script : Script) : Except ErrorReport Recomputed × Cascade :=
  let (result, writes, c) := c.evaluate script
  match result.failure with
  | some f =>
    let (report, ids) := ErrorReport.new c.ids script.id (some c.sheet.characterId)
      f.error.message f.line f.trace
    (.error report, { c with ids := ids })
  | none =>
    let (done, sheet) := settle c.sheet script result writes
    (.ok done, { c with sheet := sheet })

/-- Run a script and note what it did; the names of the other attributes it wrote. -/
def record (c : Cascade) (script : Script) (report : CascadeReport) :
    List String × CascadeReport × Cascade :=
  match c.run script with
  | (.ok done, c) =>
    (done.touched,
      { report with
        recomputed := report.recomputed ++ [script.id]
        changed := report.changed ++ (if done.changed then done.produced.toList else []) },
      c)
  | (.error failure, c) => ([], { report with failures := report.failures ++ [failure] }, c)

/-! ## Orders -/

/-- The position in a list of the script that produces a name; of several the last. -/
def producer? (sheet : Sheet) (scripts : List Script) (name : String) : Option Nat :=
  ((List.range scripts.length).filter fun i =>
    (scripts[i]?.bind (producedName? sheet)) == some name).getLast?

/-- The positions of the scripts that produce what a script reads, itself apart. -/
def needs (c : Cascade) (scripts : List Script) (i : Nat) : List Nat :=
  match scripts[i]? with
  | none => []
  | some script =>
    ((c.engine.subscriptions.dependencies script.id).filterMap
      (producer? c.sheet scripts)).filter (· != i)

/-- The scripts in an order in which what a script reads is produced before it. -/
def dependencyOrder (c : Cascade) (scripts : List Script) : List Script :=
  (Order.sort (c.needs scripts) scripts.length).filterMap fun i => scripts[i]?

/-- The scripts that a change of the names reaches, but for those that have run. -/
def affected (c : Cascade) (names ran : List String) : List Script :=
  Reach.collect (fun script name => (c.engine.subscriptions.subscribers name).contains script.id)
    (producedName? c.sheet) names
    ((Entries.values c.scripts).filter fun script => !ran.contains script.id)

/-! ## All scripts -/

/-- Run the scripts and drop their writes. -/
def prime (c : Cascade) (scripts : List Script) : Cascade :=
  scripts.foldl (fun c script => (c.evaluate script).2.2) c

/-- Run the scripts in order. -/
def recordAll (c : Cascade) (scripts : List Script) (report : CascadeReport) :
    CascadeReport × Cascade :=
  scripts.foldl (fun (report, c) script => (c.record script report).2) (report, c)

/-- Run every script. -/
def recomputeAll (c : Cascade) : CascadeReport × Cascade :=
  let scripts := Entries.values c.scripts
  let c := c.prime scripts
  c.recordAll (c.dependencyOrder scripts) {}

/-! ## A change -/

/-- Where a change stands. -/
structure Progress where
  cascade : Cascade
  report : CascadeReport := {}
  /-- The ids of the scripts that have run. -/
  ran : List String := []
  /-- The names written in this round. -/
  touched : List String := []
  deriving Inhabited

/-- Run the scripts in order until the limit of runs is reached. -/
def runRound (p : Progress) : List Script → Progress
  | [] => p
  | script :: rest =>
    if p.cascade.maxRuns ≤ p.report.runs then
      { p with report := { p.report with truncated := true } }
    else
      let (touched, report, cascade) := p.cascade.record script p.report
      runRound ⟨cascade, report, script.id :: p.ran, p.touched ++ touched⟩ rest

/-- Run what the names reach, and then what was touched meanwhile, in at most `room` rounds. -/
def runRounds : Nat → Progress → Progress
  | 0, p => p
  | room + 1, p =>
    if p.touched.isEmpty || p.report.truncated then p
    else
      let scripts := p.cascade.affected p.touched p.ran
      runRounds room (runRound { p with touched := [] } (p.cascade.dependencyOrder scripts))

/-- Run what a change of the attributes with these names reaches. A round that runs nothing is the
last one, so there are at most as many others as scripts. -/
def attributesChanged (c : Cascade) (names : List String) : CascadeReport × Cascade :=
  let p := runRounds (c.scripts.length + 1) { cascade := c, touched := names }
  (p.report, p.cascade)

end Cascade

end SheetScript
