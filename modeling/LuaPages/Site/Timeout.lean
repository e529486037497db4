import LuaPages.Duration
import LuaPages.Number.RealText

namespace LuaPages.Site

structure InvalidTimeout where
  text : String
  deriving DecidableEq, Repr

def InvalidTimeout.message (e : InvalidTimeout) : String := "invalid timeout: " ++ e.text

/-- Zero is told from other numbers before they are rounded to nanoseconds. -/
def readTimeout (text : String) : Except InvalidTimeout (Option Duration) :=
  match RealText.read? text.toList with
  | none => .error ⟨text⟩
  | some x =>
    if x.isZero then .ok none
    else
      match Duration.ofSeconds? x with
      | some d => .ok (some d)
      | none => .error ⟨text⟩

end LuaPages.Site
