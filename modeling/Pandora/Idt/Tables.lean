import Pandora.Idt.Defs

/-!
# The tables of the traps (`idt/idt.c`, `isr80h/isr80h.c`)

`idt_init` sets every gate, and `isr80h_register_commands` registers each number once, so that it does not
panic. What is in the tables then is `bootTables_spec`.
-/

namespace Pandora

section

variable {T : TrapTables} {j : Nat}

end

end Pandora
