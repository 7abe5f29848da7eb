/-! # Characters of a text

Whether all or some of them have a property is decided by looking at them, and not by looking at
all characters that there are. -/

namespace PipeSql.Text

variable {p : Char → Prop} [DecidablePred p]

instance decidableForallMem (cs : List Char) : Decidable (∀ c ∈ cs, p c) :=
  List.decidableBAll p cs

instance decidableForallMem? (c? : Option Char) : Decidable (∀ c ∈ c?, p c) :=
  Option.decidableForallMem c?

instance decidableExistsMem? (c? : Option Char) : Decidable (∃ c ∈ c?, p c) :=
  Option.decidableExistsMem c?

end PipeSql.Text
