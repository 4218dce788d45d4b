import DocAudit.Text.Basic

/-!
# Replacement

Every occurrence of a pattern, found from left to right and without overlap, gives way to another
text. What is put in is not searched again.
-/

namespace DocAudit.Text

/-- Replacement in a text whose first `skip` characters belong to an occurrence already replaced. -/
def replaceFrom (pattern replacement : List Char) : (skip : Nat) → List Char → List Char
  | _, [] => []
  | skip + 1, _ :: cs => replaceFrom pattern replacement skip cs
  | 0, c :: cs =>
    if (dropHead? pattern (c :: cs)).isSome then
      replacement ++ replaceFrom pattern replacement (pattern.length - 1) cs
    else c :: replaceFrom pattern replacement 0 cs

/-- Each occurrence of a nonempty pattern replaced. -/
def replaceAll (pattern replacement cs : List Char) : List Char :=
  replaceFrom pattern replacement 0 cs

end DocAudit.Text
