/-
# `Policy` — which checks run, and with which table of SKUs

A policy is what a configuration resolves to: the name of the profile it
came from, a switch for every check, and the table of oversized SKUs.
-/
import TemplateGate.Check
import TemplateGate.Dictionary

namespace TemplateGate

/-- A switch for every check. -/
structure Switches where
  naming : Bool
  security : Bool
  cost : Bool
  deriving DecidableEq, Repr

namespace Switches

/-- Whether a check is switched on. -/
def get (s : Switches) : Check → Bool
  | .naming => s.naming
  | .security => s.security
  | .cost => s.cost

/-- The switches that a function describes. -/
def ofFn (f : Check → Bool) : Switches := ⟨f .naming, f .security, f .cost⟩

@[simp] theorem get_ofFn (f : Check → Bool) (c : Check) : (ofFn f).get c = f c := by
  cases c <;> rfl

@[simp] theorem ofFn_get (s : Switches) : ofFn s.get = s := rfl

end Switches

/-- An effective policy. -/
structure Policy where
  profile : String
  switches : Switches
  /-- The names of oversized SKUs, with a recommendation each. -/
  oversized : Dictionary String
  deriving DecidableEq

namespace Policy

/-- Whether a check is enabled. -/
def enables (p : Policy) (c : Check) : Bool := p.switches.get c

/-- The enabled checks, in the order in which they run. -/
def enabled (p : Policy) : List Check := Check.all.filter p.enables

end Policy

end TemplateGate
