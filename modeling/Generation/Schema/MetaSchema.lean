import Generation.Json.Basic

/-! The JSON values that are schemas, by the meta-schema of draft 2020-12. -/
namespace Generation.Schema.MetaSchema

/-- What the value of a keyword has to be. -/
inductive Shape where
  | schema
  | schemas
  | schemaMap
  | schemaOrStringsMap
  | count
  | number
  | positive
  | boolean
  | string
  | strings
  | stringsMap
  | booleanMap
  | typeNames
  | list
  | identifier
  | anchor
  | any

def shape (keyword : String) : Shape :=
  if ["additionalProperties", "contains", "contentSchema", "else", "if", "items", "not",
      "propertyNames", "then", "unevaluatedItems", "unevaluatedProperties"].contains keyword then
    .schema
  else if ["allOf", "anyOf", "oneOf", "prefixItems"].contains keyword then .schemas
  else if ["$defs", "definitions", "dependentSchemas", "patternProperties",
      "properties"].contains keyword then
    .schemaMap
  else if keyword = "dependencies" then .schemaOrStringsMap
  else if ["maxContains", "maxItems", "maxLength", "maxProperties", "minContains", "minItems",
      "minLength", "minProperties"].contains keyword then
    .count
  else if ["exclusiveMaximum", "exclusiveMinimum", "maximum", "minimum"].contains keyword then
    .number
  else if keyword = "multipleOf" then .positive
  else if ["deprecated", "readOnly", "uniqueItems", "writeOnly"].contains keyword then .boolean
  else if ["$comment", "$dynamicRef", "$recursiveRef", "$ref", "$schema", "contentEncoding",
      "contentMediaType", "description", "format", "pattern", "title"].contains keyword then
    .string
  else if keyword = "required" then .strings
  else if keyword = "dependentRequired" then .stringsMap
  else if keyword = "$vocabulary" then .booleanMap
  else if keyword = "type" then .typeNames
  else if ["enum", "examples"].contains keyword then .list
  else if keyword = "$id" then .identifier
  else if ["$anchor", "$dynamicAnchor", "$recursiveAnchor"].contains keyword then .anchor
  else .any

def isTypeName (n : String) : Bool :=
  ["array", "boolean", "integer", "null", "number", "object", "string"].contains n

/-- Strings, none of them twice. -/
def isStrings : Json → Bool
  | .array items =>
    match items.mapM Json.string? with
    | some names => names.eraseDups.length == names.length
    | none => false
  | _ => false

def isTypeNames : Json → Bool
  | .string n => isTypeName n
  | .array items =>
    !items.isEmpty && isStrings (.array items) && items.all fun v => (v.string?).any isTypeName
  | _ => false

/-- An integer from zero on; a fraction of zero may be written out. -/
def isCount : Json → Bool
  | .number (.integer n) => 0 ≤ n
  | .number (.real (.finite negative units _)) =>
    units % Binary64.unitsPerOne == 0 && (!negative || units == 0)
  | _ => false

def isPositive : Json → Bool
  | .number (.integer n) => 0 < n
  | .number (.real (.finite negative units _)) => !negative && 0 < units
  | _ => false

/-- A reference without a fragment, or with an empty one. -/
def isIdentifier (s : String) : Bool := s.toList.dropWhile (· ≠ '#') ∈ [[], ['#']]

def isAnchor (s : String) : Bool :=
  match s.toList with
  | [] => false
  | c :: cs => (c.isAlpha || c = '_') && cs.all fun c => c.isAlphanum || c ∈ ['-', '.', '_']

/-- Shapes without schemas inside. -/
def Shape.accepts (s : Shape) (v : Json) : Bool :=
  match s, v with
  | .any, _ => true
  | .count, v => isCount v
  | .number, .number _ => true
  | .positive, v => isPositive v
  | .boolean, .boolean _ => true
  | .string, .string _ => true
  | .strings, v => isStrings v
  | .stringsMap, .object members => members.all fun m => isStrings m.2
  | .booleanMap, .object members => members.all fun m => (m.2 matches .boolean _)
  | .typeNames, v => isTypeNames v
  | .list, .array _ => true
  | .identifier, .string s => isIdentifier s
  | .anchor, .string s => isAnchor s
  | _, _ => false

mutual

/-- A truth value, or an object whose keywords all have values of their shape. -/
def accepts : Json → Bool
  | .boolean _ => true
  | .object members => acceptsKeywords members
  | _ => false

def acceptsKeywords : Json.Members → Bool
  | [] => true
  | (keyword, v) :: rest =>
    (match shape keyword, v with
      | .schema, v => accepts v
      | .schemas, .array (v :: vs) => accepts v && acceptsAll vs
      | .schemaMap, .object members => acceptsValues members
      | .schemaOrStringsMap, .object members => acceptsDependencies members
      | s, v => s.accepts v) &&
      acceptsKeywords rest

def acceptsAll : List Json → Bool
  | [] => true
  | v :: vs => accepts v && acceptsAll vs

def acceptsValues : Json.Members → Bool
  | [] => true
  | (_, v) :: rest => accepts v && acceptsValues rest

def acceptsDependencies : Json.Members → Bool
  | [] => true
  | (_, v) :: rest => (isStrings v || accepts v) && acceptsDependencies rest

end

end Generation.Schema.MetaSchema
