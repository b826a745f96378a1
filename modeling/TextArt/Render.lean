import TextArt.Player
import TextArt.Raster.BoxFilter

namespace TextArt

/-!
# Renders — a still picture of some art

* `renderPlayer` — the picture of all of the art of a player, reduced as its settings
  say;
* `render` — the same for the bytes of a file and the wishes of a user.
-/

/-- All of the art of a player, drawn by `Player.renderAll` and reduced by `Raster.reduce`. -/
def renderPlayer (p : Player) : Picture :=
  let p := p.renderAll.2
  let factor := Raster.blockFactor p.config.thumbnail
  .ofRaster (p.terminal.screen.visible.reduce factor) p.config.doubleDensity

/-- The still picture of a file: that of a `Player.new` under `Config.ofOptions`. -/
def render (file : Bytes) (options : Options) : Picture :=
  renderPlayer (.new file (.ofOptions options))

end TextArt
