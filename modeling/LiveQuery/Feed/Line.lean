import LiveQuery.Json.Reader
import LiveQuery.Json.Writer
import LiveQuery.Feed.Lines

/-!
# JSON by lines

How values travel: one value in each line, in both directions.
-/

namespace LiveQuery.Feed

/-- The value that the bytes of a line denote. -/
def decodeLine (bytes : List UInt8) : Option Json := Json.parseBytes ⟨bytes.toArray⟩

/-- A value as a line. -/
def encodeLine (j : Json) : String := j.render ++ "\n"

def bytesOf (s : String) : List UInt8 := s.toUTF8.toList

end LiveQuery.Feed
