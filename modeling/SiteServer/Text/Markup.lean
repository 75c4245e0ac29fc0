/-! # Markup escaping: text that can stand between tags and in attribute values. -/

namespace SiteServer.Text.Markup

/-- The entity that stands for a character with a meaning in markup. -/
def entity? : Char → Option (List Char)
  | '&' => some "&amp;".toList
  | '<' => some "&lt;".toList
  | '>' => some "&gt;".toList
  | '"' => some "&#34;".toList
  | '\'' => some "&#39;".toList
  | _ => none

/-- Writes each character with a meaning in markup as its entity, and all else as it is. -/
def escape (text : List Char) : List Char :=
  text.flatMap fun c => (entity? c).getD [c]

/-- Writes entities back as the characters they stand for, from left to right. -/
def unescape : List Char → List Char
  | '&' :: 'a' :: 'm' :: 'p' :: ';' :: rest => '&' :: unescape rest
  | '&' :: 'l' :: 't' :: ';' :: rest => '<' :: unescape rest
  | '&' :: 'g' :: 't' :: ';' :: rest => '>' :: unescape rest
  | '&' :: '#' :: '3' :: '4' :: ';' :: rest => '"' :: unescape rest
  | '&' :: '#' :: '3' :: '9' :: ';' :: rest => '\'' :: unescape rest
  | c :: rest => c :: unescape rest
  | [] => []

@[simp] theorem escape_nil : escape [] = [] := rfl

theorem escape_cons (c : Char) (rest : List Char) :
    escape (c :: rest) = (entity? c).getD [c] ++ escape rest := rfl

theorem escape_append (first second : List Char) :
    escape (first ++ second) = escape first ++ escape second := by
  simp [escape]

end SiteServer.Text.Markup
