import LanguageServer.Json
/-!
The settings of a session, and the options with which a client overrides some of them.
-/

namespace LanguageServer

structure Config where
  /-- Declarations are completed as snippets with a placeholder. -/
  snippets : Bool
  /-- Texts are scanned for diagnostics. -/
  diagnostics : Bool
  deriving DecidableEq, Repr

/-- What a client sets; `none` where it keeps the setting as it is. -/
structure Options where
  snippets : Option Bool
  diagnostics : Option Bool
  deriving DecidableEq, Repr

namespace Config

def initial : Config := ⟨true, true⟩

def merge (config : Config) (options : Options) : Config :=
  ⟨options.snippets.getD config.snippets, options.diagnostics.getD config.diagnostics⟩

end Config

namespace Options

/-- Reads one option: null and absence set nothing, and all but truth values are refused. -/
def flag? : Option Json → Option (Option Bool)
  | none => some none
  | some .null => some none
  | some (.bool value) => some (some value)
  | some _ => none

/-- Reads options from an object by their names, or from an array by their order. An object may have
other members; an array has at most two items. -/
def ofJson? : Json → Option Options
  | .obj members => do
    let snippets ← flag? (Table.lookup "snippetSupport" members)
    let diagnostics ← flag? (Table.lookup "diagnosticsEnabled" members)
    some ⟨snippets, diagnostics⟩
  | .arr items => do
    if 2 < items.length then none
    let snippets ← flag? items[0]?
    let diagnostics ← flag? items[1]?
    some ⟨snippets, diagnostics⟩
  | _ => none

end Options

/-- Overrides settings by a JSON value, which counts only if it is an options value. -/
def Config.override (config : Config) (value : Json) : Config :=
  match Options.ofJson? value with
  | some options => config.merge options
  | none => config

end LanguageServer
