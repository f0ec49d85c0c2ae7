import ApiTree.Document.Basic

/-!
# ApiTree.Document.Writing

Documents as JSON.  A member is left out if it is null, an empty array or an
empty object, unless the format asks for it.
-/

namespace ApiTree

/-- An object without the members that are void, apart from those in `kept`. -/
def presentMembers (kept : List String) (ms : Json.Members) : Json :=
  .obj (ms.filter fun (k, v) => kept.contains k || !v.isVoid)

/-- A text or null. -/
def optionalText : Option String → Json
  | some s => .str s
  | none => .null

/-- A truth value or null. -/
def optionalBool : Option Bool → Json
  | some b => .bool b
  | none => .null

/-- A schema or null. -/
def optionalSchema : Option Schema → Json
  | some s => .obj s
  | none => .null

/-- A table as an object. -/
def tableJson {α : Type} (f : α → Json) (t : Table String α) : Json :=
  .obj (t.map fun (k, v) => (k, f v))

/-- The written form of a contact. -/
def Contact.toJson (c : Contact) : Json :=
  presentMembers []
    [("name", optionalText c.name), ("url", optionalText c.url), ("email", optionalText c.email)]

/-- The written form of a licence. -/
def License.toJson (l : License) : Json :=
  presentMembers [] [("name", .str l.name), ("url", optionalText l.url)]

/-- The written form of what an API is. -/
def Info.toJson (i : Info) : Json :=
  presentMembers ["title", "version"]
    [("title", .str i.title), ("version", .str i.version),
      ("description", optionalText i.description),
      ("termsOfService", optionalText i.termsOfService),
      ("contact", (i.contact.map Contact.toJson).getD .null),
      ("license", (i.license.map License.toJson).getD .null)]

/-- The written form of a server. -/
def Server.toJson (s : Server) : Json :=
  presentMembers [] [("url", .str s.url), ("description", optionalText s.description)]

/-- The written form of a tag. -/
def Tag.toJson (t : Tag) : Json :=
  presentMembers [] [("name", .str t.name), ("description", optionalText t.description)]

/-- The written form of a security scheme. -/
def SecurityScheme.toJson (s : SecurityScheme) : Json :=
  presentMembers []
    [("type", .str s.type), ("scheme", optionalText s.scheme),
      ("bearerFormat", optionalText s.bearerFormat),
      ("description", optionalText s.description), ("name", optionalText s.name),
      ("in", optionalText s.location)]

/-- The written form of a content. -/
def MediaType.toJson (m : MediaType) : Json :=
  presentMembers [] [("schema", optionalSchema m.schema)]

/-- The written form of a header. -/
def HeaderObject.toJson (h : HeaderObject) : Json :=
  presentMembers []
    [("description", optionalText h.description), ("schema", optionalSchema h.schema)]

/-- The written form of a response. -/
def Response.toJson (r : Response) : Json :=
  presentMembers ["description"]
    [("description", .str r.description), ("content", tableJson MediaType.toJson r.content),
      ("headers", tableJson HeaderObject.toJson r.headers)]

/-- The written form of a request body. -/
def RequestBody.toJson (b : RequestBody) : Json :=
  presentMembers []
    [("description", optionalText b.description),
      ("content", tableJson MediaType.toJson b.content), ("required", optionalBool b.required)]

/-- The written form of a parameter. -/
def Parameter.toJson (p : Parameter) : Json :=
  presentMembers []
    [("name", .str p.name), ("in", .str p.location), ("required", optionalBool p.required),
      ("description", optionalText p.description), ("schema", optionalSchema p.schema),
      ("allowEmptyValue", optionalBool p.allowEmptyValue)]

/-- Texts as an array. -/
def textsArray (ss : List String) : Json := .arr (ss.map .str)

/-- The written form of a security requirement. -/
def SecurityRequirement.toJson (s : SecurityRequirement) : Json := tableJson textsArray s

/-- The written form of an operation. -/
def Operation.toJson (o : Operation) : Json :=
  presentMembers ["responses"]
    [("tags", textsArray o.tags), ("summary", optionalText o.summary),
      ("description", optionalText o.description),
      ("operationId", optionalText o.operationId),
      ("parameters", .arr (o.parameters.map Parameter.toJson)),
      ("requestBody", (o.requestBody.map RequestBody.toJson).getD .null),
      ("responses", tableJson Response.toJson o.responses),
      ("security", .arr (o.security.map SecurityRequirement.toJson))]

/-- The written form of a path. -/
def PathItem.toJson (p : PathItem) : Json :=
  presentMembers [] (Method.all.map fun m =>
    (m.name, ((p.operation m).map Operation.toJson).getD .null))

/-- The written form of the parts that others refer to. -/
def Components.toJson (c : Components) : Json :=
  presentMembers []
    [("schemas", tableJson Json.obj c.schemas),
      ("securitySchemes", tableJson SecurityScheme.toJson c.securitySchemes)]

/-- The written form of a document. -/
def Document.toJson (d : Document) : Json :=
  presentMembers ["openapi", "info", "paths"]
    [("openapi", .str d.openapi), ("info", d.info.toJson),
      ("servers", .arr (d.servers.map Server.toJson)),
      ("paths", tableJson PathItem.toJson d.paths), ("components", d.components.toJson),
      ("security", .arr (d.security.map SecurityRequirement.toJson)),
      ("tags", .arr (d.tags.map Tag.toJson))]

end ApiTree
