import ArrayInference.Config.Basic
import ArrayInference.Toml.Document

/-!
# Reading a configuration

A configuration is written as a TOML document. Settings that it leaves out keep their standard
values, and keys that name no setting are passed over.
-/

namespace ArrayInference

namespace Config

/-- The limit beyond which a whole number is no setting. -/
def maxSetting : Int := Int.ofNat UInt64.size - 1

/-- The setting of the number of contexts. -/
def limitOf? : Option Toml.Item → Option Nat
  | none => some standard.maxSpecializations
  | some (.integer n) => if 0 ≤ n ∧ n ≤ maxSetting then some n.toNat else none
  | some _ => none

/-- The setting of diagnostics. -/
def diagnosticsOf? : Option Toml.Item → Option Bool
  | none => some standard.diagnostics
  | some (.boolean b) => some b
  | some _ => none

/-- The settings of a document, if it is well formed and they have the right types. -/
def ofToml? (source : String) : Option Config := do
  let entries ← Toml.parse? source
  let maxSpecializations ← limitOf? (entries.lookup "max_specializations")
  let diagnostics ← diagnosticsOf? (entries.lookup "diagnostics")
  return { maxSpecializations, diagnostics }

/-- The complaint about a document that cannot be read. -/
def unreadable : InferError :=
  .config "the document cannot be read as a configuration"

/-- The valid settings of a document. -/
def ofToml (source : String) : Except InferError Config := do
  let some c := ofToml? source | .error unreadable
  c.validate
  return c

end Config

end ArrayInference
