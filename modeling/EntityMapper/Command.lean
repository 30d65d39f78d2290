import EntityMapper.Value

/-!
# Compiled commands

A compiled command is command text with the values for its placeholders. Text
and values are built together as a fragment: a placeholder is only ever written
next to the value it stands for, and joining fragments joins both sides in the
same order.
-/

namespace EntityMapper

/-- Command text and the values of its placeholders, in order. -/
structure Command where
  text : String
  params : List Value
deriving Inhabited

/-- A piece of a command under construction. -/
structure Fragment where
  text : String
  params : List Value
deriving Inhabited

namespace Fragment

/-- Text without placeholders. -/
def lit (text : String) : Fragment := ⟨text, []⟩

/-- The placeholder of a value. -/
def bind (value : Value) : Fragment := ⟨"?", [value]⟩

def append (a b : Fragment) : Fragment := ⟨a.text ++ b.text, a.params ++ b.params⟩

instance : Append Fragment := ⟨append⟩

def empty : Fragment := lit ""

/-- Fragments one after another with a separator between them. -/
def join (separator : String) : List Fragment → Fragment
  | [] => empty
  | [f] => f
  | f :: rest => f ++ lit separator ++ join separator rest

/-- The fragment under a leading text, or nothing if its text is empty. -/
def headed (head : String) (f : Fragment) : Fragment :=
  if f.text.isEmpty then ⟨"", f.params⟩ else lit head ++ f

def command (f : Fragment) : Command := ⟨f.text, f.params⟩

@[simp]
theorem text_lit (text : String) : (lit text).text = text := rfl

@[simp]
theorem params_lit (text : String) : (lit text).params = [] := rfl

@[simp]
theorem text_bind (value : Value) : (bind value).text = "?" := rfl

@[simp]
theorem params_bind (value : Value) : (bind value).params = [value] := rfl

@[simp]
theorem text_append (f h : Fragment) : (f ++ h).text = f.text ++ h.text := rfl

@[simp]
theorem params_append (f h : Fragment) :
    (f ++ h).params = f.params ++ h.params := rfl

@[simp]
theorem text_empty : empty.text = "" := rfl

@[simp]
theorem params_empty : empty.params = [] := rfl

theorem params_join (separator : String) (fragments : List Fragment) :
    (join separator fragments).params = fragments.flatMap Fragment.params := by
  induction fragments with
  | nil => rfl
  | cons f rest ih =>
    cases rest with
    | nil => simp [join]
    | cons next rest => simp [join, ih]

@[simp]
theorem params_headed (head : String) (f : Fragment) :
    (f.headed head).params = f.params := by
  unfold headed
  split <;> simp

theorem text_headed {f : Fragment} (h : f.text.isEmpty = false) (head : String) :
    (f.headed head).text = head ++ f.text := by
  rw [headed, h, if_neg Bool.false_ne_true, text_append, text_lit]

end Fragment

/-- Count the placeholders from a point on, given the quote that is open there. -/
def countPlaceholdersFrom : Option Char → List Char → Nat
  | _, [] => 0
  | some quote, c :: rest =>
    countPlaceholdersFrom (if c = quote then none else some quote) rest
  | none, c :: rest =>
    if c = '\'' ∨ c = '"' then countPlaceholdersFrom (some c) rest
    else if c = '?' then countPlaceholdersFrom none rest + 1
    else countPlaceholdersFrom none rest

/-- The number of question marks outside quoted literals and identifiers. -/
def countPlaceholders (text : String) : Nat :=
  countPlaceholdersFrom none text.toList

end EntityMapper
