import Whiteboard.Schedule
import Whiteboard.Settings.Load
import Whiteboard.Settings.Toml
import Whiteboard.Settings.Yaml

namespace Whiteboard
namespace Settings

/-!
Readers for the notations of settings.
-/

def Notations.standard : Notations where
  isSchedule text := (Schedule.read text).isSome
  yaml text s := (Yaml.read text).bind (s.laidUnder .plain)
  toml text s := (Toml.read text).bind (s.laidUnder .typed)

end Settings
end Whiteboard
