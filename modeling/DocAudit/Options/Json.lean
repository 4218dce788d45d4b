import DocAudit.Json.Read
import DocAudit.Options.Basic

/-!
# Options in JSON

An option file in JSON holds an object whose members are options, all of them truth values; members
of other names may hold anything. The options may also be given by an array, in their order.
-/

namespace DocAudit.Options

open Json

/-- The entry of a member: none for a member that is no option. Fails when the value of an option is
no truth value. -/
def memberOption? (member : List Piece × Value) : Option (Option (Key × Bool)) := do
  let name ← decode? member.1
  match Key.ofName? (String.ofList name), member.2 with
  | none, _ => some none
  | some key, .bool value => some (some (key, value))
  | some _, _ => none

/-- The truth value of an item. -/
def itemFlag? : Value → Option Bool
  | .bool value => some value
  | _ => none

/-- The options of a JSON value. -/
def ofJsonValue? : Value → Option Options
  | .object members => do
    let entries ← members.mapM memberOption?
    ofEntries? (entries.filterMap id)
  | .array items => do
    let flags ← items.mapM itemFlag?
    if flags.length ≤ Key.all.length then ofEntries? (Key.all.zip flags) else none
  | _ => none

/-- The options of a JSON text. -/
def ofJson? (text : List Char) : Option Options :=
  (parse? text).bind ofJsonValue?

end DocAudit.Options
