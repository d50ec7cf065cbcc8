/-!
# Settings

* `Config`: the settings of an engine, with their defaults.
-/

namespace Switching

/-- The settings of an engine. -/
structure Config where
  /-- How many calls may be open at once. -/
  maxCallDepth : Nat := 256
  /-- How many variables a truth table may have. -/
  maxTableVariables : Nat := 16
  /-- `SHOW` puts the bodies of functions in place of their calls. -/
  inlineCalls : Bool := false
  /-- What stands between the values of one `PRINT`. -/
  printSeparator : String := " "

end Switching
