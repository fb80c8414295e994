import TypedTree.Optimize.Fold
/-! Optimization in rounds: every round runs all passes in order, and another round follows as long as
some pass has changed something. -/

namespace TypedTree

/-- A pass over states of any kind; its flag tells whether it has changed something. -/
structure Pass (σ : Type) where
  name : String
  run : σ → σ × Bool

namespace Pass

variable {σ : Type}

def folding : Pass Program := { name := "ConstantFolding", run := Program.fold }

def defaults : List (Pass Program) := [folding]

/-- The most rounds an optimization takes. -/
def maxRounds : Nat := 10

def runOnce : List (Pass σ) → σ → σ × Bool
  | [], state => (state, false)
  | pass :: passes, state =>
    let first := pass.run state
    let rest := runOnce passes first.1
    (rest.1, first.2 || rest.2)

/-- Runs rounds until one changes nothing, at most `limit` of them; the number counts the rounds that
changed something. -/
def runRounds (passes : List (Pass σ)) : (limit : Nat) → σ → σ × Nat
  | 0, state => (state, 0)
  | limit + 1, state =>
    let round := runOnce passes state
    if round.2 then
      let rest := runRounds passes limit round.1
      (rest.1, rest.2 + 1)
    else (round.1, 0)

/-- Runs the passes until a round changes nothing or the limit of rounds is reached. -/
def optimize (passes : List (Pass σ)) (state : σ) : σ × Nat := runRounds passes maxRounds state

theorem runRounds_le (passes : List (Pass σ)) (limit : Nat) (state : σ) :
    (runRounds passes limit state).2 ≤ limit := by
  induction limit generalizing state with
  | zero => simp [runRounds]
  | succ limit ih =>
    simp only [runRounds]
    split
    · exact Nat.succ_le_succ (ih _)
    · exact Nat.zero_le _

end Pass

end TypedTree
