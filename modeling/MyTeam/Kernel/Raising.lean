import MyTeam.Kernel.Plans

/-!
# What the kernel's methods raise

`except Exception` in the command handlers catches everything but the exceptions that end a
program, and only the code of a device module raises one of those. Hence every method of the
kernel that does not load a module is tame: whatever it raises would be caught.
-/

namespace MyTeam.Kernel

open MyTeam.Py MyTeam.Async Coroutine

namespace Authority

variable (a : Authority)

end Authority

namespace Journal

end Journal

section Rules

variable {α β : Type}

end Rules

namespace AgentOS

section Bodies

variable (event payload : Value)

variable {event payload}

end Bodies

end AgentOS

end MyTeam.Kernel
