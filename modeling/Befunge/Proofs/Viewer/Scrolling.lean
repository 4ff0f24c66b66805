import Befunge.Proofs.Text.Lines
import Befunge.Proofs.Text.Number
import Befunge.Proofs.Viewer.Viewport
import Befunge.Viewer.OutputPane
import Befunge.Viewer.StackPane

/-!
# Scrolling panes

The panes of the stack and of the output list a page of what they have. Both clamp their offset in
the same way and hand over the items from there on, so both show a full page wherever there is one.
-/

namespace Befunge.Viewer

open Screen

section Pages

variable {α β γ : Type} {items : List α} {listing : List γ}

end Pages

namespace StackPane

end StackPane

namespace OutputPane

end OutputPane

end Befunge.Viewer
