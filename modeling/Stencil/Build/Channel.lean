import Stencil.Compile.State

/-!
# Channels

Each loader's output of a template is an artifact of its own. A channel says how the artifacts of a
loader are named; the name holds a part of the digest of the content, so unchanged content keeps its
name.
-/
namespace Stencil

/-- A loader and how its artifacts are named. -/
structure Channel where
  name : Bytes := []
  lead : Bytes := []
  ext : Bytes := []
  deriving DecidableEq, Repr

namespace Channel

/-- The channels for programs, scripts and style sheets. -/
def standard : List Channel :=
  [⟨Compile.primaryLoader, "render", "json"⟩, ⟨"client", "client", "js"⟩, ⟨"style", "style", "css"⟩]

/-- The channel of a loader; one that no channel names has its own name in front. -/
def ofLoader (channels : List Channel) (loader : Bytes) : Channel :=
  (channels.find? fun c => c.name == loader).getD ⟨loader, loader, "txt"⟩

/-- The part of a content's digest that goes into names. -/
def contentMark (content : Bytes) : Bytes := (Text.Digest.sha256 content).take 8

/-- The name of an artifact. -/
def artifactName (c : Channel) (base content : Bytes) : Bytes :=
  c.lead ++ "-" ++ base ++ "." ++ contentMark content ++ "." ++ c.ext

/-- All the fields, for messages. -/
def describe (c : Channel) : Bytes :=
  openBrace :: ("Name:" ++ c.name ++ " Prefix:" ++ c.lead ++ " Ext:" ++ c.ext) ++ [closeBrace]

end Channel

/-- The name of a template without its directories and its extension. -/
def baseName (file : Bytes) : Bytes :=
  let base := Path.base (Bytes.replaceByte (ascii '\\') Path.slash file)
  let ext := Path.extension base
  if ext = base then base else Bytes.dropTail ext base

end Stencil

/-! ### Where artifacts go

A sink takes artifacts one by one. A write that fails leaves the earlier ones in place. -/

namespace Stencil

/-- A place for artifacts, with `σ` for what it holds. -/
structure Sink (σ : Type) where
  write : (name content : Bytes) → σ → Except Failure Unit × σ

namespace Sink

/-- Artifacts in memory; a later one of the same name takes the place of the earlier one. -/
def memory : Sink (Assoc Bytes Bytes) where
  write name content held := (.ok (), Assoc.insert name content held)

/-- Artifacts as files below a directory. -/
def directory (root : Bytes) (canceled : Bool) : Sink FileTree where
  write name content files :=
    if canceled then (.error .canceled, files)
    else
      let path := Path.join [root, name]
      match files.makeDirectory (Path.parent path) with
      | .error e => (.error (.within "failed to create output directory" (.file e)), files)
      | .ok files =>
        match files.write path content with
        | .error e => (.error (.within ("failed to write " ++ name) (.file e)), files)
        | .ok files => (.ok (), files)

end Sink

end Stencil
