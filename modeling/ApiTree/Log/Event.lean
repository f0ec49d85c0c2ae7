import ApiTree.Fault
import ApiTree.Text.Case

/-!
# ApiTree.Log.Event

What is worth telling while trees are compiled and types are checked, each
with its level and its fields.
-/

namespace ApiTree

/-- How much an event matters. -/
inductive Level where
  | notSet
  | debug
  | info
  | warning
  | error
  | critical
deriving DecidableEq, Repr, Inhabited

namespace Level

/-- The name of a level. -/
def name : Level → String
  | .notSet => "notset"
  | .debug => "debug"
  | .info => "info"
  | .warning => "warning"
  | .error => "error"
  | .critical => "critical"

/-- The weight of a level. -/
def weight : Level → Nat
  | .notSet => 0
  | .debug => 10
  | .info => 20
  | .warning => 30
  | .error => 40
  | .critical => 50

/-- The levels by name. -/
def named : Table String Level :=
  [("notset", .notSet), ("debug", .debug), ("info", .info), ("warning", .warning),
    ("warn", .warning), ("error", .error), ("critical", .critical), ("fatal", .critical)]

/-- The level of a name in letters of any case; letters with the same capital are
the same. -/
def ofName (name : String) : Except Fault Level :=
  let name := Case.lower (Case.upper name)
  match named.find? name with
  | some level => .ok level
  | none => .error (.unknownLevel name)

/-- Whether what has this level is told where `least` is the least level. -/
def passes (least level : Level) : Bool := least.weight ≤ level.weight

end Level

/-- An event. -/
inductive Event where
  | schemaRegistered (name identity : String)
  /-- A response took the place of another one for the same status. -/
  | responseOverride (operation status replaced description : String)
  | apiCompiled (paths operations schemas : Nat)
  | sampleUnencodable (type sample : String)
  | sampleViolates (type constraint path : String)
  | typePassed (type : String) (samples : Nat)
  | conformanceChecked (types : Nat) (failed : List String)
deriving DecidableEq, Repr

namespace Event

/-- The level of an event. -/
def level : Event → Level
  | .schemaRegistered .. | .typePassed .. => .debug
  | .responseOverride .. | .apiCompiled .. | .conformanceChecked .. => .info
  | .sampleUnencodable .. | .sampleViolates .. => .warning

/-- The name of an event. -/
def name : Event → String
  | .schemaRegistered .. => "schema_registered"
  | .responseOverride .. => "response_override"
  | .apiCompiled .. => "api_compiled"
  | .sampleUnencodable .. | .sampleViolates .. => "conformance_type_failed"
  | .typePassed .. => "conformance_type_passed"
  | .conformanceChecked .. => "conformance_checked"

/-- The fields of an event. -/
def fields : Event → Json.Members
  | .schemaRegistered name identity => [("name", .str name), ("identity", .str identity)]
  | .responseOverride operation status replaced description =>
    [("operation", .str operation), ("status", .str status), ("replaced", .str replaced),
      ("description", .str description)]
  | .apiCompiled paths operations schemas =>
    [("paths", .int paths), ("operations", .int operations), ("schemas", .int schemas)]
  | .sampleUnencodable type sample =>
    [("type", .str type), ("constraint", .str "encode"), ("sample", .str sample)]
  | .sampleViolates type constraint path =>
    [("type", .str type), ("constraint", .str constraint), ("path", .str path)]
  | .typePassed type samples => [("type", .str type), ("samples", .int samples)]
  | .conformanceChecked types failed =>
    [("types", .int types), ("failed", .arr (failed.map .str))]

/-- The written form of an event. -/
def toJson (e : Event) : Json :=
  .obj (e.fields ++ [("event", .str e.name), ("log_level", .str e.level.name)])

/-- The line of a log that tells something, at some time if it is known. -/
def logLine (fields : Json.Members) (name : Option Json) (level : Level) (time : Option String) :
    Json :=
  let ms := name.elim fields fun n => Table.put fields "event" n
  let ms := Table.put ms "level" (.str level.name)
  .obj (time.elim ms fun t => Table.put ms "timestamp" (.str t))

/-- The line of a log that tells of an event. -/
def line (e : Event) (time : Option String) : Json :=
  logLine e.fields (some (.str e.name)) e.level time

/-- The line that tells a reader of an event. -/
def consoleLine (e : Event) : String :=
  " ".intercalate (("[" ++ e.level.name ++ "] " ++ e.name) ::
    e.fields.map fun (n, v) => n ++ "=" ++ v.shown)

end Event

/-! ## Telling by name -/

namespace Log

/-- The ways to tell something, by the level at which they do. -/
def ways : Table String Level :=
  [("debug", .debug), ("info", .info), ("msg", .info), ("warning", .warning), ("warn", .warning),
    ("error", .error), ("exception", .error), ("critical", .critical), ("fatal", .critical),
    ("notset", .notSet)]

/-- What messages call a way that tells something, or tells nothing because of
its level; a way that `waits` tells nothing at once. -/
def wayName (way : String) (passes waits : Bool) : String :=
  let mark := if waits then "a" else ""
  if way == "exception" then mark ++ "exception"
  else if passes then
    "_make_filtering_bound_logger.<locals>.make_method.<locals>." ++ mark ++ "meth"
  else "_" ++ mark ++ "nop"

/-- What messages call a log with a least level. -/
def logName (least : Level) : String := "BoundLoggerFilteringAt" ++ least.name.capitalize

/-- The line of a log that tells something in a way given by its name, or
nothing if the level is too low.  The fields must not take the names that the
way itself has for what it is given. -/
def tell (least : Level) (way : String) (event : Json) (fields : Json.Members)
    (time : Option String) : Except Fault (Option Json) :=
  let waiting := way.toList.tail
  let waits := (ways.find? way).isNone && way.toList.head? == some 'a'
  let way' := if waits then String.ofList waiting else way
  match ways.find? way' with
  | none => .error (.noMember (logName least) way)
  | some level =>
    let passes := least.passes level
    match List.find? (fun f => f.1 == "self" || f.1 == "event") fields with
    | some f => .error (.argumentTwice (wayName way' passes waits) f.1)
    | none =>
      if !passes || waits then .ok none
      else if Table.has fields "method_name" then
        .error (.argumentTwice "BoundLoggerBase._proxy_to_logger" "method_name")
      else if level = .notSet then .error (.noMember "PrintLogger" way)
      else
        let fields := if way == "exception" then Table.putNew fields "exc_info" (.bool true)
          else fields
        .ok (some (Event.logLine fields
          (match event with
            | .null => none
            | e => some e) level time))

end Log
end ApiTree
