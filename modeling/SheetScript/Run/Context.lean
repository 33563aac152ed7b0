import SheetScript.Run.Effects
import SheetScript.Run.Subscriptions
import SheetScript.Sheet.Staging
import SheetScript.Table.Lookup

/-!
# The context of a run

A context is what the host lends to a run: the script and the character it is for, the global names,
the functions and objects of the host, the charts, and the sheet that the run owns. It also takes up
the effects of the run. The host makes a context for a run and may use it for several, one after
another.

* `Context.table` reads the chart of a title or an id. A name that has been read once keeps its
  table for as long as the context lives.
* `Context.newIdentity` hands out the identities of new tables, rows and handles.
* `Context.draw` makes a random draw. The draws come from a source that the host lends, and of which
  nothing is known but that each draw is within its range.
-/

namespace SheetScript

/-- Work on a part of the state. The part is out of the state meanwhile, so that it can be changed
in place. -/
def Act.on {σ τ α : Type} [Inhabited τ] (get : σ → τ) (set : σ → τ → σ) (act : Act τ α) :
    Act σ α := fun s =>
  let part := get s
  let s := set s default
  match act part with
  | .ok a part => .ok a (set s part)
  | .error e part => .error e (set s part)

/-- A source of random draws. It has a draw for every position and every range. -/
structure Draws where
  /-- What is drawn at a position out of `rest + 1` places. -/
  pick : Nat → (rest : Nat) → Fin (rest + 1) := fun _ rest => ⟨0, rest.succ_pos⟩
  /-- The position of the next draw. -/
  position : Nat := 0
  deriving Inhabited

/-- The source after a draw. -/
def Draws.next (d : Draws) : Draws := { d with position := d.position + 1 }

/-- A function of the host. -/
structure NativeFunction where
  name : String
  call : List Value → Act Effects Value

/-- An object of the host. Unless the host says otherwise it has no properties. -/
structure HostObject where
  type : String
  call : String → List Value → Act Effects Value
  property : String → Except ScriptError Value := fun name => .error (.unknownMethod type name)

/-- What the host lends to a run. -/
structure Context where
  /-- The script that subscribes. -/
  scriptId : Option String := none
  characterId : Option String := none
  rulesetId : Option String := none
  globals : Entries Value := []
  /-- The charts, by title and by id. -/
  charts : Entries Chart := []
  /-- The tables read so far, by the names they were asked for. -/
  tables : Entries Table := []
  natives : List NativeFunction := []
  objects : List HostObject := []
  /-- The sheet that the run owns. -/
  desk : Option Desk := none
  effects : Effects := {}
  /-- The lines written to the console. -/
  console : Array String := #[]
  /-- The next identity. -/
  fresh : Nat := 0
  draws : Draws := {}
  deriving Inhabited

namespace Context

/-- The context of a script. -/
def forScript (script : Script) : Context :=
  { scriptId := some script.id, rulesetId := some script.rulesetId }

/-- The context for a character. -/
def withCharacter (c : Context) (id : String) : Context := { c with characterId := some id }

/-- Name the script that subscribes. -/
def setScript (c : Context) (id : String) : Context := { c with scriptId := some id }

/-- Name the script that subscribes, unless it has been named. -/
def orScript (c : Context) (id : String) : Context :=
  match c.scriptId with
  | some _ => c
  | none => c.setScript id

/-- Give a value a global name. -/
def define (c : Context) (name : String) (value : Value) : Context :=
  { c with globals := Entries.insert c.globals name value }

/-- Lend a function under its name. -/
def defineNative (c : Context) (f : NativeFunction) : Context :=
  { c with natives := c.natives ++ [f] }.define f.name (.native ⟨c.natives.length, f.name⟩)

/-- Lend an object under a name. -/
def defineObject (c : Context) (name : String) (o : HostObject) : Context :=
  { c with objects := c.objects ++ [o] }.define name (.object (.custom c.objects.length o.type))

/-- The name under which a run finds its sheet. -/
def ownerName : String := "Owner"

/-- Lend a source of draws. -/
def withDraws (c : Context) (draws : Draws) : Context := { c with draws := draws }

/-- Let the run own a sheet. -/
def install (c : Context) (sheet : Sheet) : Context :=
  { c with desk := some { sheet := sheet } }.define ownerName (.object .owner)

/-- Whether a global has that name. -/
def hasGlobal (c : Context) (name : String) : Bool := Entries.contains c.globals name

/-- Lend a chart under its id and its title. -/
def addChart (c : Context) (chart : Chart) : Context :=
  { c with charts := Entries.insert (Entries.insert c.charts chart.id chart) chart.title chart }

/-- The writes of the run that are waiting. -/
def writes (c : Context) : Entries Json :=
  match c.desk with
  | some desk => desk.writes
  | none => []

/-- Hand out an identity. -/
def newIdentity : Act Context Nat := fun c => .ok c.fresh { c with fresh := c.fresh + 1 }

/-- Draw one of `rest + 1` places. -/
def draw (rest : Nat) : Act Context (Fin (rest + 1)) := fun c =>
  .ok (c.draws.pick c.draws.position rest) (c.withDraws c.draws.next)

/-- The table of the chart with that title or id. -/
def table (name : String) : Act Context Table := do
  let c ← get
  match Entries.find? c.tables name with
  | some t => return t
  | none =>
    match Entries.find? c.charts name with
    | none => throw (.host (.noChart name))
    | some chart =>
      let t ← MonadExcept.ofExcept (Table.ofChart (← newIdentity) chart)
      modify fun c => { c with tables := Entries.insert c.tables name t }
      return t

/-- Work on the effects. -/
def onEffects {α : Type} (act : Act Effects α) : Act Context α :=
  Act.on Context.effects (fun c e => { c with effects := e }) act

/-- The effects so far; the context has none afterwards. -/
def takeEffects (c : Context) : Effects × Context := (c.effects, { c with effects := {} })

end Context

end SheetScript
