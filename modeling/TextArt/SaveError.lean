import TextArt.FileError

namespace TextArt

/-!
# Save errors — why something is not written to a file

* `SaveError` — the reasons;
* `SaveError.causes` — their wording, from the most general cause to the first.
-/

/-- Why something is not written to a file, which `causes` puts into words. -/
inductive SaveError where
  /-- A buffer of `actual` bytes is too short for its sides, or these are too large. -/
  | bufferSize (width height actual : Nat)
  /-- The file for a picture cannot be made, for the `cause` that is named. -/
  | encode (cause : FileError)
  /-- An encoder does not take an image, for a `reason` of its own. -/
  | refused (reason : String)
  /-- The file for anything else cannot be made, for the `cause` that is named. -/
  | write (cause : FileError)
  deriving DecidableEq, Repr

namespace SaveError

/-- The wording of a save error, the most general cause first; its last part is the
    `FileError.message` or the reason. -/
def causes : SaveError → List String
  | bufferSize width height actual =>
    ["RGBA buffer of " ++ toString actual ++ " bytes does not fit " ++ toString width ++ "x"
      ++ toString height]
  | encode cause => ["Failed to encode image: " ++ cause.message, cause.message]
  | refused reason => ["Failed to encode image: " ++ reason, reason]
  | write cause => ["I/O error: " ++ cause.message, cause.message]

/-- The wording of a save error in one line, which is the first of its `causes`. -/
def message (e : SaveError) : String :=
  e.causes.headD ""

end SaveError

end TextArt
