import DocQuery.Decode
import DocQuery.File
import DocQuery.Key.Basic
import DocQuery.Log

set_option autoImplicit false

namespace DocQuery

structure Config where
  primaryKey : String := "_id"
  idAlias : String := "id"
  keyType : KeyType := .objectId
  maxDepth : Nat := 8
  deduplicateJoins : Bool := true
  pipelineOptions : Fields := [("allowDiskUse", .bool true)]
  logLevel : Log.Severity := .info
  deriving Repr

namespace Config

def logLevels : List (String × Log.Severity) := Log.Severity.all.map fun s => (s.label, s)

def shape : Decode.Shape where
  typeName := "QueryConfig"
  strict := false
  fields :=
    [.of "primary_key" .defaulted Decode.string, .of "id_alias" .defaulted Decode.string,
      .of "key_type" .defaulted (Decode.variant KeyType.variants),
      .of "max_depth" .defaulted (Decode.nat64 "usize"),
      .of "deduplicate_joins" .defaulted Decode.bool,
      .of "pipeline_options" .defaulted Decode.fields,
      .of "log_level" .defaulted (Decode.variant logLevels)]

def decode : Decoder Config := fun d => do
  let slots ← Decode.record shape d
  let absent : Config := {}
  return {
    primaryKey := ← slots.read "primary_key" Decode.string absent.primaryKey
    idAlias := ← slots.read "id_alias" Decode.string absent.idAlias
    keyType := ← slots.read "key_type" (Decode.variant KeyType.variants) absent.keyType
    maxDepth := ← slots.read "max_depth" (Decode.nat64 "usize") absent.maxDepth
    deduplicateJoins := ← slots.read "deduplicate_joins" Decode.bool absent.deduplicateJoins
    pipelineOptions := ← slots.read "pipeline_options" Decode.fields absent.pipelineOptions
    logLevel := ← slots.read "log_level" (Decode.variant logLevels) absent.logLevel }

def toJson (c : Config) : Json :=
  .obj [("primary_key", .str c.primaryKey), ("id_alias", .str c.idAlias),
    ("key_type", .str c.keyType.configName), ("max_depth", .nat c.maxDepth),
    ("deduplicate_joins", .bool c.deduplicateJoins), ("pipeline_options", .obj c.pipelineOptions),
    ("log_level", .str c.logLevel.label)]

def validate (c : Config) : Except QueryError Config :=
  if Text.allBlank c.primaryKey then .error (.configInvalid "primary_key must not be empty")
  else if Text.allBlank c.idAlias then .error (.configInvalid "id_alias must not be empty")
  else if c.maxDepth = 0 then .error (.configInvalid "max_depth must be at least 1")
  else .ok c

def decodeText? (text : String) : Option Config :=
  (Document.ofText? text).bind fun d => (decode d).toOption

def load (path : String) (text : FileText) : Except QueryError Config :=
  match text with
  | .error e => .error (.configInvalid (path ++ ": failed to read file: " ++ e.message))
  | .ok text =>
    match decodeText? text with
    | some c => c.validate
    | none => .error (.configInvalid (path ++ ": invalid JSON: "))

def loadedEntry (path : String) : Log.Entry := Log.Event.configLoaded.entry [("path", path)]

end Config

end DocQuery
