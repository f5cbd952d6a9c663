import Mathlib.Data.List.Basic
import Bracketed.Proofs.Messages
import Bracketed.Proofs.Operands
import Bracketed.Proofs.Supplies

/-!
# Isolation

A run on several paths reports what runs on the single paths report, one after the other.
A path that cannot be read costs one message and the status, and nothing else; only a path that
holds a null ends the run.
-/

namespace Bracketed.Cli

/-! ## Hyphens -/

section Supplies

variable {read : Text → Except OpenFault (List UInt8)} {lines : List Text}

end Supplies

/-! ## Diagnostics -/

section Diagnostics

variable (console : Console)

end Diagnostics

/-! ## Runs -/

/-- A path that cannot be read. -/
def Setting.fails (setting : Setting) (path : Text) : Bool :=
  path ≠ standardInput && !(setting.read path).isOk

section Runs

variable {words paths : List Text} {alone : Text → List Text} {path : Text} {setting : Setting}
  {width : Int} (htrouble : setting.trouble = .none) (hopen : setting.input.isOpen = true)

include htrouble hopen

end Runs

end Bracketed.Cli
