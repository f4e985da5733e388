import Stencil.Directive.Registry
import Stencil.Json.Encode
import Stencil.Yaml.Encode
import Stencil.Yaml.Write

/-!
# Descriptions of directives

What editors are told about directives: names, parameters and parts, as JSON or YAML.
-/
namespace Stencil.Directive

/-- What is told about a directive or a part of it. Members of a record keep their order. -/
inductive Description where
  | value (v : Value)
  | list (items : List Description)
  | record (members : List (Bytes × Description))
  deriving Inhabited

namespace Description

mutual

/-- The description as JSON, when each value in it has a text. -/
def toJson? : Description → Option Json
  | .value v => Json.ofValue? v
  | .list items => (toJsonList? items).map .array
  | .record members => (toJsonMembers? members).map .object

def toJsonList? : List Description → Option (List Json)
  | [] => some []
  | d :: ds => do return (← toJson? d) :: (← toJsonList? ds)

def toJsonMembers? : List (Bytes × Description) → Option (List (Bytes × Json))
  | [] => some []
  | (name, d) :: rest => do return (name, ← toJson? d) :: (← toJsonMembers? rest)

end

mutual

/-- The description as YAML. -/
def toContent : Description → Yaml.Content
  | .value v => .ofValue v
  | .list items => .sequence (toContentList items)
  | .record members => .mapping (toContentMembers members)

def toContentList : List Description → List Yaml.Content
  | [] => []
  | d :: ds => toContent d :: toContentList ds

def toContentMembers : List (Bytes × Description) → List (Yaml.Content × Yaml.Content)
  | [] => []
  | (name, d) :: rest => Yaml.Content.member name (toContent d) :: toContentMembers rest

end

/-- A member that is always told. -/
def always (name : Bytes) (v : Value) : List (Bytes × Description) := [(name, .value v)]

/-- A list that is always told. -/
def allOf (name : Bytes) (items : List Description) : List (Bytes × Description) :=
  [(name, .list items)]

/-- A text member, left out when empty. -/
def unlessEmpty (name s : Bytes) : List (Bytes × Description) :=
  if s = [] then [] else always name (.text s)

/-- What is told about a parameter. -/
def ofParam (p : Argument.Param) : Description :=
  .record <|
    always "name" (.text p.name) ++ always "kind" (.text p.kind.name)
      ++ (if p.required then always "required" (.bool true) else [])
      ++ (match p.fallback with
          | .null => []
          | v => always "default" v)
      ++ unlessEmpty "description" p.description

end Description

/-- The source of a pattern; an exact name has none. -/
def Matching.source : Matching → Bytes
  | .pattern (some p) => p.source
  | _ => []

mutual

/-- The description of a directive. -/
def Definition.describe : Definition → Description
  | ⟨name, description, usage, matching, params, block, content, parts, _, _, _, _, _, _, _⟩ =>
    .record <|
      Description.always "name" (.text name)
        ++ Description.unlessEmpty "pattern" matching.source
        ++ Description.unlessEmpty "description" description
        ++ Description.unlessEmpty "example" usage
        ++ Description.allOf "params" (params.map Description.ofParam)
        ++ Description.always "block" (.bool block)
        ++ Description.unlessEmpty "content" content
        ++ match Definition.describeList parts with
          | [] => []
          | subs => Description.allOf "subDirectives" subs

def Definition.describeList : List Definition → List Description
  | [] => []
  | d :: ds => d.describe :: Definition.describeList ds

end

/-- The description on one line, when it has a text. -/
def Definition.schemaText? (d : Definition) : Option Bytes := d.describe.toJson?.map Json.compact

/-- The descriptions of all directives in a format. -/
def Registry.writeSchema (r : Registry) (format : Bytes) : Except Failure Bytes :=
  let all := Description.list (Definition.describeList r.definitions)
  if format = [] ∨ format = "json" then
    match all.toJson? with
    | some j => .ok (j.indented 0 ++ "\n")
    | none => .error (.malformed "json")
  else if format = "yaml" ∨ format = "yml" then .ok (Yaml.write 2 all.toContent)
  else .error (.refused ("unsupported schema format " ++ Text.quoted format))

end Stencil.Directive
