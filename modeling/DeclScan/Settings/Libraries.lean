import DeclScan.Settings.Basic
import DeclScan.Settings.Fault
import DeclScan.Settings.Mapping

/-!
# DeclScan.Settings.Libraries

What loading settings relies on: values, which files are read into and which are checked in the end,
the readers of two formats, and the checker.

* `Settings.Values`: values, of which some are mappings.
* `Settings.Libraries`: readers and a checker for them.
-/

namespace DeclScan
namespace Settings

/-- Values that settings are made of. A mapping may hold values of any kind, also itself. -/
structure Values (κ ν : Type) where
  mapping? : ν → Option (Mapping κ ν)
  ofMapping : Mapping κ ν → ν
  /-- Whether a value is the one that stands for nothing. -/
  isNothing : ν → Bool
  ofText : String → ν
  ofTexts : List String → ν
  mapping?_ofMapping (m : Mapping κ ν) : mapping? (ofMapping m) = some m
  mapping?_ofText (s : String) : mapping? (ofText s) = none
  mapping?_ofTexts (items : List String) : mapping? (ofTexts items) = none

/-- How the reader of JSON refuses a text. Texts that nest too deep for it are a case apart. -/
inductive JsonFailure where
  | refused (message : String)
  | tooDeep (message : String)
  deriving Repr, DecidableEq

/-- The readers of both formats of settings files, and the checker of settings. It is asked for
sections under texts only. -/
structure Libraries (κ ν : Type) extends Values κ ν where
  readJson : List Char → Except JsonFailure ν
  readYaml : List Char → Except String ν
  check : Table ν → Except ValidationError Settings
  /-- How many calls of a function within each other there may be. -/
  calls : Nat
  /-- These are enough for sections of fields. -/
  two_le_calls : 2 ≤ calls

end Settings
end DeclScan
