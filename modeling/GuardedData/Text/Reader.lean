/-!
# Readers

A reader takes a value off the front of a text and returns the rest, or `none`
where the text does not start with one.
-/

namespace GuardedData

/-- Takes an `α` off the front of a text. -/
abbrev Reader (α : Type) := List Char → Option (α × List Char)

end GuardedData
