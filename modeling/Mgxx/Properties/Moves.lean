import Mgxx.Http.ResponseObjects

/-!
The one answer of a synchronous handler, when it moves its response object.
-/

namespace Mgxx.Http

open Mgxx.Library

namespace ResponseObjects

variable {mg : Mongoose} {st st' st₁ : ResponseObjects} {c : ℕ} {spent : List Bool}
  {op : ResponseOp} {ops : List ResponseOp}

end ResponseObjects

end Mgxx.Http
