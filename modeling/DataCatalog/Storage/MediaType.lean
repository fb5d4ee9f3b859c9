import DataCatalog.Storage.Path
/-!
# Media types of object names

The media type of an object is looked up by its name's extension in a registry of extensions
and the media types they name, comparing by Unicode case folding: ASCII letters of either case match, and so do
the few other characters that fold to ASCII letters (the long s, the Kelvin sign, the sharp s
as `ss`, and the Latin ligatures). Names without an extension, dotfiles and names ending in a
dot have none. The registry is a parameter: the platform supplies it with the connector's
environment (`ObjectSide.mediaTypes`).
-/

namespace DataCatalog.Storage

/-- The case folding of a character when it folds to ASCII letters or digits only. -/
def foldToAscii (c : Char) : Option (List Char) :=
  if c.toNat < 128 then some [c.toLower]
  else match c.toNat with
    | 0x017F => some ['s']
    | 0x212A => some ['k']
    | 0x00DF => some ['s', 's']
    | 0x1E9E => some ['s', 's']
    | 0xFB00 => some ['f', 'f']
    | 0xFB01 => some ['f', 'i']
    | 0xFB02 => some ['f', 'l']
    | 0xFB03 => some ['f', 'f', 'i']
    | 0xFB04 => some ['f', 'f', 'l']
    | 0xFB05 => some ['s', 't']
    | 0xFB06 => some ['s', 't']
    | _ => none

/-- The case folding of an extension, when it is ASCII; every registered extension is. -/
def foldExtension (e : String) : Option String :=
  (e.toList.mapM foldToAscii).map fun parts => String.ofList parts.flatten

/-- The media type of a name, by its extension, in a registry of lowercase extensions. -/
def contentType (registry : List (String × String)) (name : String) : Option String :=
  match extension? name with
  | some e =>
    match foldExtension e with
    | some key => registry.lookup key
    | none => none
  | none => none

end DataCatalog.Storage
