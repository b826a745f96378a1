import TextArt.Recording

namespace TextArt

/-!
# Artifacts — what is written to files

* `Artifact` — the image of a picture, an animation or bare pixels;
* `Artifact.refused` — how it is told that the file for an artifact cannot be made.
-/

/-- What is written to a file, with an `Image` of whatever kind the `Codecs` make. -/
inductive Artifact (Image : Type) where
  | picture (image : Image)
  | animation (r : Recording Image)
  | pixels (bytes : ByteArray)

namespace Artifact

/-- The error of an artifact whose file cannot be made: `encode` for a picture, and `write`
    otherwise. -/
def refused {Image : Type} : Artifact Image → FileError → SaveError
  | picture _, cause => .encode cause
  | _, cause => .write cause

end Artifact

end TextArt
