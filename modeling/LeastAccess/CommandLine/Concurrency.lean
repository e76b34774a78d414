import LeastAccess.Binary64.Numeral

/-!
# The number of workers as an argument

A numeral of a whole number that is at least one, with any blanks around it.
-/

namespace LeastAccess.CommandLine

/-- What is wrong with any other argument. -/
def concurrencyComplaint : String := "Concurrency must be a positive integer."

/-- The number that an argument gives. Blanks alone give none. -/
def readConcurrency? (argument : String) : Option Binary64 :=
  let value := Numeral.read argument
  if (Text.trim argument).isEmpty || !value.isInteger || value.lt .one then none else some value

end LeastAccess.CommandLine
