/-!
# The context of log records

Every log record tells of which run it comes from, around which pivot, and from which phase of
which engine, as far as these are known.

## Main definitions

* `Context` — what is known.
* `Context.setRun`, `Context.setEngine` — what changes it.
* `Context.members` — the known parts with their names.
-/

namespace FactNet

/-- What is known of the origin of log records. -/
structure Context where
  /-- The run. -/
  runId : Option String := none
  /-- The entity it is about. -/
  pivot : Option String := none
  /-- The engine. -/
  engine : Option String := none
  /-- What the engine is doing. -/
  phase : Option String := none
  deriving DecidableEq, Repr, Inhabited

namespace Context

/-- The context of a run, perhaps about an entity; the engine stays. -/
def setRun (c : Context) (runId : String) (pivot : Option String) : Context :=
  { c with runId := some runId, pivot := pivot }

/-- The context of an engine, perhaps in a phase; the run stays. -/
def setEngine (c : Context) (engine : String) (phase : Option String) : Context :=
  { c with engine := some engine, phase := phase }

/-- The known parts with their names. -/
def members (c : Context) : List (String × String) :=
  let parts :=
    [("run_id", c.runId), ("pivot_entity", c.pivot), ("engine", c.engine), ("phase", c.phase)]
  parts.filterMap fun (name, value) => value.map fun v => (name, v)

@[simp] theorem members_empty : members {} = [] := rfl

end Context

end FactNet
