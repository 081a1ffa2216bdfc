import Millennium.Star.Loader

/-!
# Parsing a `.star` plugin

`parse_star_file` loads a file, checks the shim and reads the metadata. The MessagePack reader and
the verifier of signatures are parameters.
-/

namespace Millennium.Star

open Bytes Outcome

inductive MetadataValue where
  | text (s : List Char)
  | other
  deriving Repr, DecidableEq

/-- The metadata object. What is not an object is no metadata. -/
abbrev Metadata := List (String × MetadataValue)

/-- `metadata.value(key, std::string{})`, which throws on a field that is no text. -/
def Metadata.value (metadata : Metadata) (key : String) : Except Fault (List Char) :=
  match metadata.lookup key with
  | none => .ok []
  | some (.text s) => .ok s
  | some .other => .error (.runtimeError "type must be string")

structure StarPlugin where
  pluginName : List Char
  commonName : List Char
  description : List Char
  author : List Char
  version : List Char
  sourceCommit : List Char
  useBackend : Bool
  isTrusted : Bool
  hasFrontendJs : Bool
  hasWebkitJs : Bool
  backendEntry : List Char
  deriving Repr, DecidableEq

/-- The hash of the shim in the header, where there is a shim. -/
def shimIntact (b : StarBounded) : Prop :=
  b.starStart = 0 ∨
    fnv1a (slice b.fileData 4 (readU32Le b.fileData).toNat) =
      readU32Le (b.fileData.drop (b.starStart + 8))

instance (b : StarBounded) : Decidable (shimIntact b) := inferInstanceAs (Decidable (_ ∨ _))

/-- The plugin that the metadata describes; the name of the plugin is the metadata's id. -/
def pluginOf (sections : List StarSection) (isTrusted : Bool) (metadata : Metadata) :
    Except Fault (Option StarPlugin) :=
  match metadata.lookup "id", metadata.lookup "name" with
  | some (.text pluginId), some (.text pluginName) => do
      let description ← metadata.value "description"
      let author ← metadata.value "author"
      let version ← metadata.value "version"
      let sourceCommit ← metadata.value "sourceCommit"
      let entry ← metadata.value "entry"
      let hasBackend := (findSection sections secBackend).isSome
      if hasBackend ∧ entry = [] then .ok none
      else .ok (some
        { pluginName := pluginId
          commonName := pluginName
          description, author, version, sourceCommit
          useBackend := hasBackend
          isTrusted
          hasFrontendJs := (findSection sections secFrontend).isSome
          hasWebkitJs := (findSection sections secWebkit).isSome
          backendEntry := entry })
  | _, _ => .ok none

section
variable (verify : Octets → Octets → Bool) (fromMsgpack : Octets → Option Metadata)

/-- The metadata section, decoded. What is thrown is caught; an access out of bounds is not thrown.
-/
def readMetadataSection (b : StarBounded) : Except Fault (Option Metadata) :=
  match findSection b.sections secMetadata with
  | none => .ok none
  | some sec =>
    match starDecodeSection b.fileData b.starStart sec with
    | .ok raw => .ok (fromMsgpack raw)
    | .error (.runtimeError _) => .ok none
    | .error fault => .error fault

def parseStarFile (file : Octets) : Except Fault (Option StarPlugin) :=
  match starLoadBounded file with
  | none => .ok none
  | some b =>
    if b.fileData.length < b.starStart + starHeaderSize then .ok none
    else do
      let isTrusted ← starIsTrusted verify b.starStart b.sections b.fileData
      if ¬ shimIntact b then .ok none
      else
        match ← readMetadataSection fromMsgpack b with
        | none => .ok none
        | some metadata => pluginOf b.sections isTrusted metadata

end

end Millennium.Star
