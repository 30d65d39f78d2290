/-!
# Joining texts
-/

namespace EntityMapper.Text

/-- Texts one after another with a separator between them. -/
def join (separator : String) : List String → String
  | [] => ""
  | [text] => text
  | text :: rest => text ++ separator ++ join separator rest

/-- Texts one after another. -/
def concat : List String → String
  | [] => ""
  | text :: rest => text ++ concat rest

end EntityMapper.Text
