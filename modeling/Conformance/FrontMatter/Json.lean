import Conformance.FrontMatter.Basic
import Conformance.Json.Basic

/-!
# Front matter and JSON

All fields are written, in the order in which the front matter declares them. Editions can be
read as well.
-/

namespace Conformance

def Negative.toJson (negative : Negative) : Json :=
  .object [("phase", .string negative.phase.name), ("type", .string negative.errorType)]

def FrontMatter.toJson (matter : FrontMatter) : Json :=
  .object [
    ("description", .string matter.description),
    ("info", .optionalText matter.info),
    ("negative", .ofOption Negative.toJson matter.negative),
    ("includes", .texts matter.includes),
    ("flags", .texts matter.flags.names),
    ("features", .texts matter.features),
    ("locale", .texts matter.locale),
    ("es5id", .optionalText matter.es5id),
    ("es6id", .optionalText matter.es6id),
    ("esid", .optionalText matter.esid)]

/-- The edition that a value names: a text, or an object whose one field has that name and holds
null. -/
def Edition.ofJson? : Json → Option Edition
  | .string name => named? name
  | .object [(name, .null)] => named? name
  | _ => none

end Conformance
