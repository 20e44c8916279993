/-!
# Message templates

A template holds numbered placeholders: a number between braces stands for the argument of that
position. The arguments are put in one after another, each into the text that the ones before have
left, so a placeholder that stands in an argument is itself filled by a later argument.
-/

namespace Bindery.Text

def placeholder (index : Nat) : List Char := '{' :: (toString index).toList ++ ['}']

/-- Replace every occurrence of `pattern`, which is not empty, by `replacement`, from left to
right. -/
def replaceAll (pattern replacement : List Char) : List Char → List Char
  | [] => []
  | c :: rest =>
    if pattern.isPrefixOf (c :: rest) ∧ pattern ≠ [] then
      replacement ++ replaceAll pattern replacement ((c :: rest).drop pattern.length)
    else
      c :: replaceAll pattern replacement rest
termination_by text => text.length
decreasing_by
  · cases pattern with
    | nil => simp_all
    | cons p ps => simp only [List.length_drop, List.length_cons]; omega
  · simp

/-- Put the arguments from position `index` on into `text`. -/
def fillFrom (index : Nat) : List String → List Char → List Char
  | [], text => text
  | arg :: rest, text => fillFrom (index + 1) rest (replaceAll (placeholder index) arg.toList text)

def fill (template : String) (args : List String) : String :=
  String.ofList (fillFrom 0 args template.toList)

end Bindery.Text
