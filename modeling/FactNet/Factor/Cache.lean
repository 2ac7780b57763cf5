import FactNet.Factor.Table

/-!
# Tables that remember their entries

A table with many antecedents computes an entry when it is asked for and remembers it by the
pattern of the antecedents.  Looking an entry up and remembering it are two steps, so several
askers may compute the same entry; the one remembered first stays.

## Main definitions

* `TableCache` — a table with the entries it remembers.
* `TableCache.lookup?`, `TableCache.remember` — the two steps.
* `TableCache.logProb?` — the log-probability of the value of the consequent.
-/

namespace FactNet

/-- A table with the entries it remembers. -/
structure TableCache (α : Type) where
  /-- The table. -/
  table : RuleTable α
  /-- The remembered entries by pattern. -/
  entries : List (Nat × α) := []
  deriving Repr, Inhabited

namespace TableCache

variable {α : Type} [Scalar α]

/-- The entry remembered for a pattern. -/
def lookup? (c : TableCache α) (bits : Nat) : Option α :=
  (c.entries.find? fun e => e.1 == bits).map (·.2)

/-- Remembers an entry for a pattern, unless there is one already, and hands back the one that
is remembered. -/
def remember (c : TableCache α) (bits : Nat) (x : α) : α × TableCache α :=
  match c.lookup? bits with
  | some y => (y, c)
  | none => (x, { c with entries := (bits, x) :: c.entries })

/-- The entry for the antecedents' values in a world, computed unless it is remembered. -/
def entry? (c : TableCache α) (w : World) : Except EvalFault α × TableCache α :=
  match c.table.readKey w with
  | .error e => (.error e, c)
  | .ok bits =>
    match c.lookup? bits with
    | some x => (.ok x, c)
    | none =>
      if c.table.entryOverflows w.value then (.error .overflow, c)
      else
        let (x, c) := c.remember bits (c.table.entry w.value)
        (.ok x, c)

/-- The log-probability of the value of the consequent. -/
def logProb? (c : TableCache α) (w : World) : Except EvalFault α × TableCache α :=
  match c.entry? w with
  | (.error e, c) => (.error e, c)
  | (.ok x, c) =>
    match w.value? c.table.consequent with
    | .error e => (.error e, c)
    | .ok b => (.ok (if b then x else LogProb.complement x), c)

end TableCache

end FactNet
