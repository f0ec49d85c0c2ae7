import ApiTree.Document.Basic
import ApiTree.Validation.Checked

/-!
# ApiTree.Document.Reading

Documents from JSON.  Members that are not known are ignored, members that are
left out have their usual values, and a member whose written name differs from
its own name is found under either, the written name first.
-/

namespace ApiTree

open Checked

/-- A schema: any object. -/
def Schema.ofJson : Json → Checked Schema
  | .obj ms => pure ms
  | _ => wrong "dict_type"

/-- An optional text among members. -/
def textMember (ms : Json.Members) (names : List String) : Checked (Option String) :=
  member ms names (optional text) none

/-- An optional truth value among members. -/
def truthMember (ms : Json.Members) (names : List String) : Checked (Option Bool) :=
  member ms names (optional truth) none

/-- An optional schema among members. -/
def schemaMember (ms : Json.Members) : Checked (Option Schema) :=
  member ms ["schema", "schema_"] (optional Schema.ofJson) none

/-- Reads a contact. -/
def Contact.ofJson : Json → Checked Contact := record fun ms =>
  Contact.mk <$> textMember ms ["name"] <*> textMember ms ["url"] <*> textMember ms ["email"]

/-- Reads a licence. -/
def License.ofJson : Json → Checked License := record fun ms =>
  License.mk <$> required ms ["name"] text <*> textMember ms ["url"]

/-- Reads what an API is. -/
def Info.ofJson : Json → Checked Info := record fun ms =>
  Info.mk <$> member ms ["title"] text "" <*> member ms ["version"] text "" <*>
    textMember ms ["description"] <*> textMember ms ["termsOfService", "terms_of_service"] <*>
    member ms ["contact"] (optional Contact.ofJson) none <*>
    member ms ["license"] (optional License.ofJson) none

/-- Reads a server. -/
def Server.ofJson : Json → Checked Server := record fun ms =>
  Server.mk <$> required ms ["url"] text <*> textMember ms ["description"]

/-- Reads a tag. -/
def Tag.ofJson : Json → Checked Tag := record fun ms =>
  Tag.mk <$> required ms ["name"] text <*> textMember ms ["description"]

/-- Reads a security scheme. -/
def SecurityScheme.ofJson : Json → Checked SecurityScheme := record fun ms =>
  SecurityScheme.mk <$> required ms ["type"] text <*> textMember ms ["scheme"] <*>
    textMember ms ["bearerFormat", "bearer_format"] <*> textMember ms ["description"] <*>
    textMember ms ["name"] <*> textMember ms ["in", "location"]

/-- Reads a content. -/
def MediaType.ofJson : Json → Checked MediaType := record fun ms =>
  MediaType.mk <$> schemaMember ms

/-- Reads a header. -/
def HeaderObject.ofJson : Json → Checked HeaderObject := record fun ms =>
  HeaderObject.mk <$> textMember ms ["description"] <*> schemaMember ms

/-- Reads a response. -/
def Response.ofJson : Json → Checked Response := record fun ms =>
  Response.mk <$> member ms ["description"] text "" <*>
    member ms ["content"] (members MediaType.ofJson) [] <*>
    member ms ["headers"] (members HeaderObject.ofJson) []

/-- Reads a request body. -/
def RequestBody.ofJson : Json → Checked RequestBody := record fun ms =>
  RequestBody.mk <$> textMember ms ["description"] <*>
    member ms ["content"] (members MediaType.ofJson) [] <*> truthMember ms ["required"]

/-- Reads a parameter. -/
def Parameter.ofJson : Json → Checked Parameter := record fun ms =>
  Parameter.mk <$> Checked.required ms ["name"] text <*>
    Checked.required ms ["in", "location"] text <*>
    truthMember ms ["required"] <*> textMember ms ["description"] <*> schemaMember ms <*>
    truthMember ms ["allowEmptyValue", "allow_empty_value"]

/-- Reads a security requirement. -/
def SecurityRequirement.ofJson : Json → Checked SecurityRequirement := members (items text)

/-- Reads an operation. -/
def Operation.ofJson : Json → Checked Operation := record fun ms =>
  Operation.mk <$> member ms ["tags"] (items text) [] <*> textMember ms ["summary"] <*>
    textMember ms ["description"] <*> textMember ms ["operationId", "operation_id"] <*>
    member ms ["parameters"] (items Parameter.ofJson) [] <*>
    member ms ["requestBody", "request_body"] (optional RequestBody.ofJson) none <*>
    member ms ["responses"] (members Response.ofJson) [] <*>
    member ms ["security"] (items SecurityRequirement.ofJson) []

/-- Reads a path. -/
def PathItem.ofJson : Json → Checked PathItem := record fun ms =>
  let op (m : Method) : Checked (Option Operation) :=
    member ms [m.name] (optional Operation.ofJson) none
  PathItem.mk <$> op .get <*> op .put <*> op .post <*> op .delete <*> op .options <*>
    op .head <*> op .patch <*> op .trace

/-- Reads the parts that others refer to. -/
def Components.ofJson : Json → Checked Components := record fun ms =>
  Components.mk <$> member ms ["schemas"] (members Schema.ofJson) [] <*>
    member ms ["securitySchemes", "security_schemes"] (members SecurityScheme.ofJson) []

/-- Reads a document. -/
def Document.ofJson : Json → Checked Document := record fun ms =>
  Document.mk <$> member ms ["openapi"] text "3.0.0" <*> member ms ["info"] Info.ofJson {} <*>
    member ms ["servers"] (items Server.ofJson) [] <*>
    member ms ["paths"] (members PathItem.ofJson) [] <*>
    member ms ["components"] Components.ofJson {} <*>
    member ms ["security"] (items SecurityRequirement.ofJson) [] <*>
    member ms ["tags"] (items Tag.ofJson) []

end ApiTree
