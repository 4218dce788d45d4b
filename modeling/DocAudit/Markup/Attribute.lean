import DocAudit.Markup.Event

/-!
# Attributes

The attributes in the inside of a tag, after its name. A value stands between quotes of one kind and
is kept as written. A word without an equals sign is passed over, and so is an unquoted value; a
value that never comes, or never ends, ends the list.
-/

namespace DocAudit.Markup

/-- An attribute, without the part of its name up to the first colon, its value as written. -/
structure Attribute where
  /-- The name after the first colon. -/
  name : String
  /-- The text between the quotes. -/
  value : String
deriving DecidableEq, Repr

/-- The character belongs to the name of an attribute that has begun. -/
def isNameChar (c : Char) : Bool :=
  c != '=' && !isSpace c

theorem length_lt_of_dropWhile_eq_cons {p : Char → Bool} {cs rest : List Char} {c : Char}
    (h : cs.dropWhile p = c :: rest) : rest.length < cs.length := by
  have := length_dropWhile_le p cs
  simp only [h, List.length_cons] at this
  omega

/-- The attributes of the inside of a tag. -/
def Attribute.parseAll (cs : List Char) : List Attribute :=
  match _h₁ : cs.dropWhile isSpace with
  | [] => []
  | first :: more =>
    match _h₂ : (more.dropWhile isNameChar).dropWhile isSpace with
    | [] => []
    | '=' :: afterSign =>
      match _h₃ : afterSign.dropWhile isSpace with
      | [] => []
      | quote :: inside =>
        if quote = '"' ∨ quote = '\'' then
          match _h₄ : inside.dropWhile (· != quote) with
          | [] => []
          | _ :: rest =>
            ⟨String.ofList (localName (first :: more.takeWhile isNameChar)),
              String.ofList (inside.takeWhile (· != quote))⟩ :: parseAll rest
        else parseAll (inside.dropWhile (!isSpace ·))
    | word :: rest => parseAll (word :: rest)
termination_by cs.length
decreasing_by
  · have := length_lt_of_dropWhile_eq_cons _h₁
    have := length_dropWhile_le isNameChar more
    have := length_lt_of_dropWhile_eq_cons _h₂
    have := length_lt_of_dropWhile_eq_cons _h₃
    have := length_lt_of_dropWhile_eq_cons _h₄
    omega
  · have := length_lt_of_dropWhile_eq_cons _h₁
    have := length_dropWhile_le isNameChar more
    have := length_lt_of_dropWhile_eq_cons _h₂
    have := length_lt_of_dropWhile_eq_cons _h₃
    have := length_dropWhile_le (!isSpace ·) inside
    omega
  · have := length_lt_of_dropWhile_eq_cons _h₁
    have := length_dropWhile_le isNameChar more
    have := length_lt_of_dropWhile_eq_cons _h₂
    simp only [List.length_cons]
    omega

end DocAudit.Markup
