import Tableinator.Catalog
import Tableinator.Json
import Tableinator.Text

/-! # The shared runtime

What the loader calls and this repository does not hold: the vocabularies and the
identity service of the `common` package, Python's case folding, and what PostgreSQL
takes.  They are parameters of the model, so nothing below depends on what they
answer. -/

namespace Tableinator

/-- `common.identity.AliasRef`. -/
structure AliasRef where
  provider : String
  entityKind : String
  externalId : String
  deriving DecidableEq, Repr

/-- A native catalog item, `catalog_items.id`. -/
abbrev NativeId := Nat

structure Runtime where
  /-- `common.person_names.strip_person_name`. -/
  stripPersonName : String → String
  /-- `common.media.medium_label`, `none` where it raises `KeyError`. -/
  mediumLabel : String → Option String
  /-- `common.media.map_discogs_formats`. -/
  mapDiscogsFormats : List Document → Document
  /-- `common.media.legacy_format_names_to_media`. -/
  legacyFormatNamesToMedia : List String → Document
  /-- `common.media.flatten_descriptions`. -/
  flattenDescriptions : Json → List String
  /-- `str.casefold`. -/
  casefold : String → String
  /-- `common.identity.resolve_aliases`, one answer per ref. -/
  resolveAlias : AliasRef → Option NativeId
  /-- `common.identifiers.alias_refs_for_release`, `none` where it raises
      `IdentifierValidationError`. -/
  aliasRefsForRelease : Json → Option (List AliasRef)
  /-- Whether PostgreSQL takes the rows of the record's document. -/
  storable : DataType → String → Document → Bool

variable (rt : Runtime)

/-! ## The media block -/

/-- `_flatten_formats`: each format's name before its own descriptions. -/
def flattenFormats (formats : Json) : List String :=
  (elements formats).flatMap fun entry =>
    (entry.get "name").str?.toList ++ rt.flattenDescriptions (entry.get "descriptions")

/-- `media_for_release`. -/
def mediaForRelease (data : Document) : Document :=
  match data.get "media" with
  | .obj media => media
  | _ =>
    match data.get "formats" with
    | .arr entries =>
      if entries.all fun entry => entry.mapping?.isSome then
        rt.mapDiscogsFormats (entries.filterMap Json.mapping?)
      else rt.legacyFormatNamesToMedia (flattenFormats rt (.arr entries))
    | formats => rt.legacyFormatNamesToMedia (flattenFormats rt formats)

/-! ## Native identity -/

/-- `ENTITY_KIND_BY_DATA_TYPE`. -/
def entityKind : DataType → String
  | .artists => "artist"
  | .labels => "label"
  | .masters => "master"
  | .releases => "release"

/-- `alias_ref`. -/
def aliasRef (dataType : DataType) (dataId : String) : AliasRef :=
  ⟨"discogs", entityKind dataType, dataId⟩

/-- The aliases one payload mints; `none` for a malformed identifiers block. -/
def aliasRefs (data : Document) : Option (List AliasRef) :=
  let block := data.get "identifiers"
  if block.truthy then rt.aliasRefsForRelease block else some []

/-- `alias_targets`: the native id each minted alias attaches to.  `setdefault` keeps the
    first payload that mints a ref. -/
def aliasTargets (dataType : DataType) (payloads : List (Document × NativeId)) :
    Option (List (AliasRef × NativeId)) :=
  if dataType = .releases then
    payloads.foldlM (fun targets payload => do
      let refs ← aliasRefs rt payload.1
      return refs.foldl (fun targets ref =>
        if (targets.lookup ref).isSome then targets else targets ++ [(ref, payload.2)]) targets) []
  else some []

/-- A runtime to run the loader with: an id resolves to the number it spells, a block of
    identifiers of version 1 mints the aliases it lists, and a text of the document with a NUL
    character is refused. -/
def concreteRuntime : Runtime where
  stripPersonName := strip
  mediumLabel _ := none
  mapDiscogsFormats _ := []
  legacyFormatNamesToMedia _ := []
  flattenDescriptions descriptions := descriptions.items.filterMap Json.str?
  casefold := String.toLower
  resolveAlias ref := some (natOfDigits ref.externalId.toList)
  aliasRefsForRelease block :=
    if (block.field "identifiers_version").str? = some "1" then
      some ((elements (block.field "aliases")).filterMap fun entry =>
        match entry.get "provider", entry.get "external_id" with
        | .str provider, .str externalId => some ⟨provider, "release", externalId⟩
        | _, _ => none)
    else none
  storable _ _ data := data.all fun field => field.2.str?.all fun text => '\x00' ∉ text.toList

end Tableinator
