import Generation.Json.Basic

/-! Descriptions of structured output: what a value has to look like, node by node. -/
namespace Generation.Schema

inductive Primitive where
  | string
  | integer
  | number
  | boolean
  deriving DecidableEq

def Primitive.typeName : Primitive → String
  | .string => "string"
  | .integer => "integer"
  | .number => "number"
  | .boolean => "boolean"

def Primitive.ofTypeName? (n : String) : Option Primitive :=
  [string, integer, number, boolean].find? (·.typeName == n)

/-- A property of an object, with the schema of its values. -/
structure Property (τ : Type) where
  name : String
  description : Option String
  isOptional : Bool
  schema : τ

inductive Tree where
  | object (name : String) (description : Option String) (properties : List (Property Tree))
  | array (element : Tree) (least greatest : Option UInt64)
  | enumeration (name : String) (description : Option String) (variants : List String)
  | primitive (kind : Primitive)
  /-- Any value at all. -/
  | leaf (name : String) (description : Option String)

namespace Tree

def name? : Tree → Option String
  | object name _ _ | enumeration name _ _ | leaf name _ => some name
  | _ => none

def description? : Tree → Option String
  | object _ d _ | enumeration _ d _ | leaf _ d => d
  | _ => none

def kindName : Tree → String
  | object .. => "object"
  | array .. => "array"
  | enumeration .. => "enumeration"
  | primitive _ => "primitive"
  | leaf .. => "leaf"

def properties? : Tree → Option (List (Property Tree))
  | object _ _ properties => some properties
  | _ => none

end Tree

namespace Property

/-- Searches properties in ascending order of their names by halving. -/
def find? (name : String) (properties : List (Property τ)) : Option (Property τ) :=
  match h : properties.drop (properties.length / 2) with
  | [] => none
  | p :: after =>
    if p.name = name then some p
    else if name < p.name then find? name (properties.take (properties.length / 2))
    else find? name after
termination_by properties.length
decreasing_by
  all_goals
    have := congrArg List.length h
    simp only [List.length_drop, List.length_take, List.length_cons] at this ⊢
    omega

end Property

end Generation.Schema
