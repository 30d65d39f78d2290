/-!
# Pattern matching

A pattern matches a text as a whole. A percent sign stands for any number of
characters, an underscore for one, and any other character for itself.
-/

namespace EntityMapper.Store

/-- Whether a predicate holds of some part of a list that reaches to its end. -/
def anySuffix (p : List Char → Bool) : List Char → Bool
  | [] => p []
  | c :: rest => p (c :: rest) || anySuffix p rest

/-- Whether a pattern matches a text. -/
def like : (pattern : List Char) → (text : List Char) → Bool
  | [], text => text.isEmpty
  | '%' :: pattern, text => anySuffix (like pattern) text
  | '_' :: _, [] => false
  | '_' :: pattern, _ :: text => like pattern text
  | _ :: _, [] => false
  | c :: pattern, d :: text => c == d && like pattern text

def likeText (text pattern : String) : Bool := like pattern.toList text.toList

end EntityMapper.Store
