/-! What a command prints, and the clock it looks at. -/

namespace TypedTree

class MonadConsole (m : Type → Type) where
  printLine : String → m Unit
  /-- Milliseconds since some moment. -/
  clock : m Nat

instance {m : Type → Type} {ε : Type} [Monad m] [MonadConsole m] : MonadConsole (ExceptT ε m) where
  printLine line := ExceptT.lift (MonadConsole.printLine line)
  clock := ExceptT.lift MonadConsole.clock

def secondsText (milliseconds : Nat) : String :=
  let hundredths := (milliseconds + 5) / 10
  let places := hundredths % 100
  toString (hundredths / 100) ++ (if places < 10 then ".0" else ".") ++ toString places

end TypedTree
