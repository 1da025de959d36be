import MacroPlugin.CommandLine.Task
import MacroPlugin.Proofs.Dispatch.Failures
import MacroPlugin.Proofs.Settings.Accepted

/-!
What an implementation produces reaches the host as it is. Under settings that were accepted nothing
is added to a source; the one thing that is put in is an empty source, where a freestanding macro has
something to report but produced none. So from a reply without an expansion one can tell what the
implementation did.
-/

namespace MacroPlugin

namespace ReplyForm

end ReplyForm

namespace Usage

variable {registry : Registry} {expansion : Expansion}

end Usage

namespace Dispatcher

variable {d : Dispatcher} {usage : Usage}

end Dispatcher

namespace Settings

end Settings

end MacroPlugin
