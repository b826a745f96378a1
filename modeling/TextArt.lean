import TextArt.Artifact
import TextArt.ByteStream
import TextArt.Codecs
import TextArt.Color
import TextArt.Command
import TextArt.Command.Parameters
import TextArt.CommandLine.Arguments
import TextArt.CommandLine.FileName
import TextArt.CommandLine.Job
import TextArt.CommandLine.Number
import TextArt.CommandLine.Run
import TextArt.Config
import TextArt.Directory
import TextArt.FileError
import TextArt.Font
import TextArt.Format.Bitmap
import TextArt.Format.Checksum
import TextArt.Format.Codecs
import TextArt.Format.Gif
import TextArt.Format.Png
import TextArt.Glyph.Block
import TextArt.Glyph.Drawing
import TextArt.Glyph.Junction
import TextArt.Image
import TextArt.Main
import TextArt.Options
import TextArt.Palette
import TextArt.Pen
import TextArt.Picture
import TextArt.Player
import TextArt.Proofs.Acts
import TextArt.Proofs.Arrangements
import TextArt.Proofs.Averages
import TextArt.Proofs.Blinking
import TextArt.Proofs.Bookmarks
import TextArt.Proofs.BrightPaper
import TextArt.Proofs.Calendar
import TextArt.Proofs.Cancelling
import TextArt.Proofs.Cells
import TextArt.Proofs.Chunks
import TextArt.Proofs.Clearing
import TextArt.Proofs.Clockwork
import TextArt.Proofs.Completion
import TextArt.Proofs.Counts
import TextArt.Proofs.Demands
import TextArt.Proofs.Fields
import TextArt.Proofs.Forms
import TextArt.Proofs.Frames
import TextArt.Proofs.Grid
import TextArt.Proofs.Imprints
import TextArt.Proofs.Jobs
import TextArt.Proofs.Layers
import TextArt.Proofs.Layout
import TextArt.Proofs.Machine.Buffers
import TextArt.Proofs.Machine.Device
import TextArt.Proofs.Machine.Escapes
import TextArt.Proofs.Machine.Files
import TextArt.Proofs.Machine.Filter
import TextArt.Proofs.Machine.Flat
import TextArt.Proofs.Machine.Glyphs
import TextArt.Proofs.Machine.Numbers
import TextArt.Proofs.Machine.Overlays
import TextArt.Proofs.Machine.Pixels
import TextArt.Proofs.Machine.Reading
import TextArt.Proofs.Machine.Session
import TextArt.Proofs.Machine.Surface
import TextArt.Proofs.Moves
import TextArt.Proofs.NineColumns
import TextArt.Proofs.Orders
import TextArt.Proofs.Outcomes
import TextArt.Proofs.Page
import TextArt.Proofs.Painting
import TextArt.Proofs.Recasts
import TextArt.Proofs.Recordings
import TextArt.Proofs.Renders
import TextArt.Proofs.Replay
import TextArt.Proofs.Restart
import TextArt.Proofs.Retouches
import TextArt.Proofs.SavedCursor
import TextArt.Proofs.Script
import TextArt.Proofs.Scrolling
import TextArt.Proofs.Sequences
import TextArt.Proofs.SourceOver
import TextArt.Proofs.Stills
import TextArt.Proofs.Texts
import TextArt.Proofs.Tiling
import TextArt.Proofs.Time
import TextArt.Proofs.Tokens
import TextArt.Proofs.Trailers
import TextArt.Proofs.Unseen
import TextArt.Raster.Basic
import TextArt.Raster.BoxFilter
import TextArt.Raster.Drawing
import TextArt.Recording
import TextArt.Render
import TextArt.Sauce
import TextArt.SaveError
import TextArt.Screen
import TextArt.Session
import TextArt.Settings
import TextArt.Terminal
import TextArt.Toml.Basic
import TextArt.Toml.Document
import TextArt.Toml.Number
import TextArt.Toml.Settings
import TextArt.Toml.Text
