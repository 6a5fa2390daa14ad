/-!
# The width of a text

How many bytes a text takes, which is how places in a text are counted.
-/

namespace PatchGraph.Text

/-- The number of bytes that characters take in UTF-8. -/
def width : List Char → Nat
  | [] => 0
  | c :: rest => c.utf8Size + width rest

end PatchGraph.Text
