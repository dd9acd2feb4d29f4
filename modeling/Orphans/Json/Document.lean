import Orphans.Json.Relaxed
import Orphans.Json.Strict

/-! Reading a configuration document: strict JSON if the text is that, relaxed JSON otherwise. -/

set_option autoImplicit false

namespace Orphans.Json

def parse (text : String) : Except Fault Value :=
  match Strict.parse text with
  | .ok value => .ok value
  | .error _ => Relaxed.parse text

end Orphans.Json
