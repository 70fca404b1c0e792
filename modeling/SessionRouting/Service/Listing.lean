/-
Listings: the open sessions and the verdicts on backends as texts of one line each, in the order of
their keys.
-/
import SessionRouting.Service

namespace SessionRouting.Service

variable {σ : Type}

/-- The line of a session entry. -/
def sessionLine (row : Session.Key × Session) : String :=
  "id=" ++ row.1.text ++ " dest=" ++ row.2.backend ++ " n=" ++ toString row.2.count ++
    " ts=" ++ row.2.lastActive.text

/-- The line of a verdict. -/
def verdictLine (row : String × Health.Record) : String :=
  "host=" ++ row.1 ++ " state=" ++ row.2.verdict.name ++ " ts=" ++ row.2.reached.text

/-- The lines that answer for a topic. -/
def lines (s : Service σ) : Command.Topic → List String
  | .connections => s.sessions.toList.map sessionLine
  | .checks => s.watch.records.toList.map verdictLine

/-- The answer for a topic. -/
def listing (s : Service σ) (topic : Command.Topic) : String :=
  "\n".intercalate (s.lines topic)

end SessionRouting.Service
