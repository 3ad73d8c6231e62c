import DocRef.Project
import DocRef.Toml.Decoding
import DocRef.Toml.Document

/-! The configuration of a project, in the file `.docid.toml`. -/

namespace DocRef

/-- Which catalog a project uses, and which of its files carry references. -/
structure Config where
  /-- The catalog file, from the project's directory on. -/
  catalog : Text
  /-- Beginnings of the paths that are left out. -/
  excluded : List Text
  /-- The extensions of files that carry references, without the dot. -/
  extensions : List Text
  /-- Beginnings of the paths that are taken; without any, all are. -/
  included : List Text
deriving Repr, DecidableEq

namespace Config

def fileName : Text := ".docid.toml".toList

/-- The configuration of a project without such a file. -/
def default : Config where
  catalog := "docid-catalog.toml".toList
  excluded := []
  extensions := ["xml".toList, "cs".toList, "md".toList]
  included := []

/-- The configuration that a document describes; what it leaves out is as by default. -/
def ofToml? (value : Toml.Value) : Option Config := do
  let keys := ["catalog", "exclude", "extensions", "include"].map String.toList
  match ← value.fields? keys with
  | [catalog, excluded, extensions, included] =>
    let catalog ← Toml.Value.optional? Toml.Value.asText? catalog
    let excluded ← Toml.Value.listed? Toml.Value.asTexts? excluded
    let extensions ← Toml.Value.optional? Toml.Value.asTexts? extensions
    let included ← Toml.Value.listed? Toml.Value.asTexts? included
    return {
      catalog := catalog.getD default.catalog
      excluded
      extensions := extensions.getD default.extensions
      included }
  | _ => none

/-- The configuration of a project. A file that is there must be sound. -/
def load (project : Project) : Except Failure Config :=
  match project.readText fileName with
  | .error .notFound => .ok default
  | .error (.unreadable detail) => .error (.io detail)
  | .ok text =>
    match (Toml.read? text).bind ofToml? with
    | some config => .ok config
    | none => .error (.invalidToml "the text is no configuration")

def catalogPath (config : Config) (root : Text) : Text :=
  Path.join root config.catalog

/-- Whether files with an extension carry references. The case of ASCII letters does not matter. -/
def scansExtension (config : Config) (extension : Text) : Bool :=
  config.extensions.any fun known => known.map Char.toLower = extension.map Char.toLower

/-- Whether the file at a path from the project's directory is scanned, as far as its path goes. -/
def shouldScan (config : Config) (path : Text) : Bool :=
  (config.included.isEmpty || config.included.any (·.isPrefixOf path)) &&
    !config.excluded.any (·.isPrefixOf path)

end Config

end DocRef
